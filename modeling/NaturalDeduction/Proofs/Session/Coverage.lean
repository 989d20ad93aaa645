import NaturalDeduction.Proofs.Inference.Recording
import NaturalDeduction.Proofs.Session.Freshness
import NaturalDeduction.Proofs.Session.Order

/-!
# The signature covers the document

Formulas get into a document by reading, by substitution, by replacement and with Skolem constants.
However they get there, all their constants are known, and their relations and functions have as many
arguments as are recorded for them; a text that is refused leaves no trace, so nothing is recorded in
vain, and what is recorded once is kept as long as the proof is worked on.

The numbers of arguments change while a session goes on, and a discipline demands the same of all its
documents.  So there is one discipline for each record of numbers of arguments, and when a text adds to
the record the session passes on to the discipline of the new one.
-/

set_option autoImplicit false

namespace NaturalDeduction

variable {s s' : Session} {d e : Document} {op : Operation}

/-! ### Skolem constants have names -/

/-- Digits may stand in names. -/
theorem isNameChar_of_isDigit {c : Char} (h : c.isDigit = true) : isNameChar c = true := by
  have hall : ∀ n < 58, 48 ≤ n → isNameChar (Char.ofNat n) = true := by decide +kernel
  have hrange : 48 ≤ c.toNat ∧ c.toNat < 58 := by
    rw [Char.isDigit, Bool.and_eq_true, decide_eq_true_eq, decide_eq_true_eq] at h
    exact ⟨UInt32.le_iff_toNat_le.1 h.1, Nat.lt_succ_of_le (UInt32.le_iff_toNat_le.1 h.2)⟩
  have hchar := hall c.toNat hrange.2 hrange.1
  rwa [Char.ofNat_toNat] at hchar

/-- Skolem constants are names that can be read from a text. -/
theorem Signature.isName_skolemName (index : Nat) : IsName (skolemName index) := by
  have hletters : (skolemName index).toList = 'c' :: Nat.toDigits 10 index := by
    simp [skolemName]
  rw [isName_iff, hletters]
  refine ⟨by simp, fun c hc => ?_⟩
  rcases List.mem_cons.1 hc with rfl | hc
  · decide +kernel
  · exact isNameChar_of_isDigit (Nat.isDigit_of_mem_toDigits (by decide) (by decide) hc)

/-! ### Recorded labels as a discipline -/

/-- The labels of an answer. -/
def Input.labels : Input → List Label
  | .formula f => f.labels
  | .choice _ => []
  | .terms ts => ts.flatMap Term.labels

/-- An answer is in the vocabulary of some labels if all its labels are among them. -/
theorem Input.speaks_labelled {p : Label → Prop} {skolem : String} {input : Input}
    (h : ∀ l ∈ input.labels, p l) : input.Speaks (.labelled p skolem) := by
  cases input with
  | formula f => exact h
  | choice index => trivial
  | terms ts => exact fun t ht l hl => h l (List.mem_flatMap.2 ⟨t, ht, hl⟩)

/-- The discipline of known labels, with given numbers of arguments. -/
def Discipline.recording (arity : SymbolKind → String → Option Nat) : Discipline where
  good _ _ := True
  allowed sig f := ∀ l ∈ f.labels, l.Known arity sig.constants
  vocabulary sig := .labelled (fun l => l.Known arity sig.constants) sig.nextSkolem
  mono hsig hf l hl := (hf l hl).mono (fun _ _ _ h => h) hsig
  repeats _ := trivial
  speaks hf := hf
  fits d := by
    refine ⟨rfl, fun hf => hf, fun hf l hl => ?_, fun _ _ _ => trivial⟩
    rcases hf l hl with rfl | hknown
    · exact ⟨Signature.isName_skolemName _, Signature.mem_freshSkolem_constants.2 (Or.inl rfl)⟩
    · exact hknown.mono (fun _ _ _ h => h) d.signature.extends_freshSkolem.constants

/-- What a text brings into a session is recorded. -/
theorem Session.readInput_records {kind : InputKind} {text : String} {sig sig' : Signature}
    {input : Input} (h : readInput kind text sig = (.ok input, sig')) :
    Records sig sig' input.labels := by
  obtain ⟨f, rfl, hparse⟩ | ⟨ts, rfl, hparse⟩ | ⟨index, rfl, rfl⟩ := readInput_eq_ok h
  · exact Formula.parse_records hparse
  · exact Term.readEach_records hparse
  · exact .nil sig'

/-- The formulas of a task are recorded. -/
theorem Operation.task?_records {task : Task} {sig : Signature}
    (h : op.task? = some (task, sig)) :
    ∀ f ∈ task.goal :: task.givens, ∀ l ∈ f.labels, l.Known sig.arity? sig.constants := by
  cases op with
  | start givens goal =>
    unfold task? at h
    rcases hread : Formula.parseEach givens {} with ⟨results, mid⟩
    simp only [hread] at h
    cases hparse : Formula.parse goal mid with
    | error e _ => simp [hparse] at h
    | ok g last =>
      simp only [hparse] at h
      split at h
      · obtain ⟨rfl, rfl⟩ := Prod.mk.inj (Option.some.inj h)
        have hgoal := Formula.parse_records hparse
        obtain ⟨-, hgivens⟩ := Formula.parseEach_records hread
        intro f hf l hl
        rcases List.mem_cons.1 hf with rfl | hf
        · exact hgoal.known l hl
        · have hknown := hgivens f (Session.ok_mem_of_mem_successes.1 hf) l hl
          exact hknown.mono hgoal.grows.arity hgoal.grows.constants
      · simp at h
  | _ => simp [task?] at h

namespace Session

/-! ### What operations record -/

section Runs

variable {rule : Rule} {selection : Selection} {input : Option Input}
  (hruns : s.Runs op d rule selection input)
include hruns

/-- The document that a rule runs on is the one of the session, with more recorded. -/
theorem Runs.extends_signature :
    ∃ before, s.document = some before ∧ before.signature.Extends d.signature := by
  cases hruns with
  | begins hd _ => exact ⟨d, hd, .refl _⟩
  | answers hd _ _ => exact ⟨d, hd, .refl _⟩
  | @answersText before _ _ _ sig hd _ hread _ => exact ⟨before, hd, (readInput_records hread).grows⟩

/-- What a rule is given is recorded when it runs, unless it is handed over ready-made. -/
theorem Runs.recording_admits (hop : op.choosesOnly = true) :
    (Discipline.recording d.signature.arity?).Admits s op := by
  cases hruns with
  | begins hd _ => exact fun _ _ htask => by simp [Operation.task?] at htask
  | @answers _ pending input hd _ _ =>
    cases input with
    | choice index => exact fun _ _ => trivial
    | _ => simp [Operation.choosesOnly] at hop
  | @answersText before pending text input sig hd hpending hread _ =>
    intro d' hd' pending' hpending' input' sig' hread'
    obtain rfl := Option.some.inj (hd.symm.trans hd')
    obtain rfl := Option.some.inj (hpending.symm.trans hpending')
    obtain ⟨hinput, rfl⟩ := Prod.mk.inj (hread.symm.trans hread')
    obtain rfl := Except.ok.inj hinput
    exact Input.speaks_labelled (readInput_records hread).known

/-- A rule records Skolem constants only. -/
theorem Runs.renamed (h : s.Keeps .lax) {outcome : Outcome}
    (hrun : d.run s.settings rule selection input = .ok (outcome, e)) : d.Renamed e := by
  obtain ⟨hkeeps, hselects, -, -⟩ := hruns.keeps h (Discipline.lax_admits s op)
  exact hkeeps.coherent.run_renamed hselects hrun

end Runs

/-- Every operation keeps to the lax discipline. -/
theorem Keeps.perform_lax (h : s.Keeps .lax) (hperform : s.perform op = .ok s') : s'.Keeps .lax := by
  rcases h.perform (Discipline.lax_admits s op) hperform with
    ⟨_, _, _, -, -, hkeeps, -⟩ | ⟨-, hcontinues⟩
  · exact hkeeps
  · exact hcontinues.keeps

/-- Unless a task begins, an operation loses nothing that is recorded. -/
theorem Keeps.perform_extends (h : s.Keeps .lax) (htask : op.task? = none)
    (hperform : s.perform op = .ok s') (hd : s.document = some d) :
    ∃ e, s'.document = some e ∧ d.signature.Extends e.signature := by
  cases perform_turn hperform with
  | starts hsome _ _ => exact absurd (htask.symm.trans hsome) (by simp)
  | stays _ hdocument _ _ => exact ⟨d, hdocument.trans hd, .refl _⟩
  | checks _ hd' hrefresh hs' =>
    obtain rfl := Option.some.inj (hd.symm.trans hd')
    obtain ⟨_, e, hok, htidies, -, -⟩ := (h.document d hd).coherent.refresh_tidies fun _ => trivial
    obtain ⟨-, rfl⟩ := Prod.mk.inj (Except.ok.inj (hok.symm.trans hrefresh))
    subst hs'
    exact ⟨e, rfl, htidies.signature ▸ .refl _⟩
  | runs _ hruns hrun hs' =>
    obtain ⟨before, hbefore, hgrows⟩ := hruns.extends_signature
    obtain rfl := Option.some.inj (hd.symm.trans hbefore)
    subst hs'
    exact ⟨_, rfl, hgrows.trans (hruns.renamed h hrun).grows⟩

/-- As long as no other task begins, nothing that is recorded is lost. -/
theorem Keeps.performAll_extends {ops : List Operation} (h : s.Keeps .lax)
    (hops : ∀ op ∈ ops, op.task? = none) (hperform : s.performAll ops = .ok s')
    (hd : s.document = some d) :
    ∃ e, s'.document = some e ∧ d.signature.Extends e.signature := by
  induction ops generalizing s d with
  | nil =>
    obtain rfl := Except.ok.inj hperform
    exact ⟨d, hd, .refl _⟩
  | cons op ops ih =>
    obtain ⟨mid, hmid, hperform⟩ := bind_eq_ok.1 hperform
    obtain ⟨e, he, hgrows⟩ := h.perform_extends (hops op List.mem_cons_self) hmid hd
    obtain ⟨last, hlast, hgrows'⟩ :=
      ih (h.perform_lax hmid) (fun op' hop' => hops op' (List.mem_cons_of_mem op hop')) hperform he
    exact ⟨last, hlast, hgrows.trans hgrows'⟩

/-! ### Covered sessions -/

/-- The labels of the document are known, with the numbers of arguments that it records. -/
def Covered (s : Session) : Prop :=
  ∀ d ∈ s.document, s.Keeps (.recording d.signature.arity?)

/-- Numbers of arguments may be added. -/
theorem Keeps.recording_mono {arity arity' : SymbolKind → String → Option Nat}
    (h : s.Keeps (.recording arity))
    (harity : ∀ kind name count, arity kind name = some count → arity' kind name = some count) :
    s.Keeps (.recording arity') where
  document d hd := by
    obtain ⟨hcoherent, hnumbered, hallowed⟩ := h.document d hd
    exact ⟨hcoherent, hnumbered, fun hf l hl => (hallowed hf l hl).mono harity fun _ hc => hc⟩
  pending := h.pending

/-- Operations that hand over nothing ready-made keep everything recorded. -/
theorem Covered.perform (h : s.Covered) (hlax : s.Keeps .lax) (hop : op.choosesOnly = true)
    (hperform : s.perform op = .ok s') : s'.Covered := by
  cases perform_turn hperform with
  | @starts task sig d htask hsettle hs' =>
    have hstart := Document.start_coherent task.givens task.goal sig fun _ _ => True
    obtain ⟨e, hok, htidies, -⟩ := hstart.settle_tidies (fun _ => trivial) s.settings
    obtain rfl := Except.ok.inj (hok.symm.trans hsettle)
    have hkeeps : (Discipline.recording sig.arity?).Keeps e :=
      (keeps_start (Operation.task?_records htask) hsettle).1
    have hsig : e.signature = sig := htidies.signature
    subst hs'
    rintro e' ⟨⟩
    rw [hsig]
    exact ⟨fun e' he' => Option.some.inj he' ▸ hkeeps, by simp⟩
  | stays _ hdocument hpending _ =>
    intro d hd
    exact ((h d (hdocument ▸ hd)).continues hdocument hpending).keeps
  | @checks d e _ _ hd hrefresh hs' =>
    have hkeeps := h d hd
    obtain ⟨_, e', hok, htidies, hnum, -⟩ :=
      (hkeeps.document d hd).coherent.refresh_tidies fun _ => trivial
    obtain ⟨-, rfl⟩ := Prod.mk.inj (Except.ok.inj (hok.symm.trans hrefresh))
    subst hs'
    rintro _ ⟨⟩
    rw [htidies.signature]
    exact (hkeeps.continues_of_edits hd htidies.editsOf hnum rfl (by simp)).keeps
  | @runs d e rule selection input outcome htask hruns hrun hs' =>
    -- the numbers of arguments that count are those known when the rule runs
    obtain ⟨before, hbefore, hgrows⟩ := hruns.extends_signature
    have hkeeps := (h before hbefore).recording_mono hgrows.arity
    have harity := (hruns.renamed hlax hrun).arity
    rcases hkeeps.perform (hruns.recording_admits hop) hperform with
      ⟨_, _, _, hsome, -⟩ | ⟨-, hcontinues⟩
    · exact absurd (htask.symm.trans hsome) (by simp)
    · intro e' he'
      rw [hs'] at he'
      obtain rfl := Option.some.inj he'
      rw [harity]
      exact hcontinues.keeps

/-- In runs that hand over nothing ready-made everything stays recorded. -/
theorem Covered.performAll {ops : List Operation} (h : s.Covered) (hlax : s.Keeps .lax)
    (hops : ∀ op ∈ ops, op.choosesOnly = true) (hperform : s.performAll ops = .ok s') :
    s'.Covered := by
  induction ops generalizing s with
  | nil =>
    obtain rfl := Except.ok.inj hperform
    exact h
  | cons op ops ih =>
    obtain ⟨mid, hmid, hperform⟩ := bind_eq_ok.1 hperform
    exact ih (h.perform hlax (hops op List.mem_cons_self) hmid)
      (hlax.perform_lax hmid) (fun op' hop' => hops op' (List.mem_cons_of_mem op hop')) hperform

/-- The lines of every document that a run comes to have known labels. -/
theorem known_of_performAll {settings : Settings} {ops : List Operation}
    (hops : ∀ op ∈ ops, op.choosesOnly = true)
    (hrun : ({ settings } : Session).performAll ops = .ok s) (hd : s.document = some d)
    {id : ItemId} {f : Formula} (hf : d.formula? id = some f) :
    ∀ l ∈ f.labels, l.Known d.signature.arity? d.signature.constants := by
  have hinitial : ({ settings } : Session).Covered := fun _ h => by simp at h
  have hcovered := hinitial.performAll (follows_initial .lax settings).keeps hops hrun
  exact ((hcovered d hd).document d hd).allowed hf

/-- After any run whose answers are texts or choices: the constants of every line are known, and every
relation and function has as many arguments there as are recorded for it, so it has equally many in all
lines; Skolem constants are known constants; and as long as no other task begins, no constant, no Skolem
constant and no number of arguments is lost or changed, and the search for Skolem constants does not go
back. -/
theorem performAll_signature_covers {settings : Settings} {ops : List Operation}
    (hops : ∀ op ∈ ops, op.choosesOnly = true)
    (hrun : ({ settings } : Session).performAll ops = .ok s) (hd : s.document = some d) :
    (∀ id f, d.formula? id = some f →
      (∀ c ∈ f.constants, c ∈ d.signature.constants) ∧
      (∀ kind name count, (kind, name, count) ∈ f.symbols →
        d.signature.arity? kind name = some count) ∧
      ∀ id' f' kind name count count', d.formula? id' = some f' → (kind, name, count) ∈ f.symbols →
        (kind, name, count') ∈ f'.symbols → count = count') ∧
    (∀ c ∈ d.signature.skolems, c ∈ d.signature.constants) ∧
    ∀ later s', (∀ op ∈ later, op.task? = none) → s.performAll later = .ok s' →
      ∃ e, s'.document = some e ∧ d.signature.Extends e.signature := by
  have hsymbols : ∀ {id f kind name count}, d.formula? id = some f →
      (kind, name, count) ∈ f.symbols → d.signature.arity? kind name = some count := by
    intro id f kind name count hf hmem
    exact (known_of_performAll hops hrun hd hf _ (Formula.mem_symbols_iff.1 hmem)).2.2
  refine ⟨fun id f hf => ⟨fun c hc => ?_, fun _ _ _ => hsymbols hf, ?_⟩, ?_, ?_⟩
  · exact (known_of_performAll hops hrun hd hf _ (Formula.mem_constants_iff.1 hc)).2
  · intro id' f' kind name count count' hf' hmem hmem'
    exact Option.some.inj ((hsymbols hf hmem).symm.trans (hsymbols hf' hmem'))
  · exact fun c => (((accounts_initial settings).performAll hrun).owned d hd).known
  · intro later s' hlater hperform
    exact (follows_of_performAll hrun).keeps.performAll_extends hlater hperform hd

/-- A run in which a text is refused for a wrong number of arguments, and another one makes a function
of the name of a relation; then one more text is refused and the next one brings in a constant. -/
theorem performAll_signature_covers_refused :
    ∃ s s' d e f,
      ({} : Session).performAll
        [.start ["∀x (P(x) → Q(f(x), a))", "∃x P(x)"] "∃x Q(x, a)", .apply .existsElim [2, 4],
          .apply .forallElim [1, 6], .resumeText "f(c0, b)", .resumeText "P(c0, a)"] = .ok s ∧
      s.performAll [.apply .excludedMiddle [3], .resumeText "Q(b)", .resumeText "R(b)"] = .ok s' ∧
      s.document = some d ∧ s'.document = some e ∧ d.formula? 10 = some f ∧
      (.relation, "P", 1) ∈ f.symbols ∧ (.function, "P", 2) ∈ f.symbols ∧
      d.signature.arity? .relation "P" = some 1 ∧ d.signature.arity? .function "P" = some 2 ∧
      "c0" ∈ d.signature.skolems ∧ "c0" ∈ d.signature.constants ∧
      "b" ∉ d.signature.constants ∧ "b" ∈ e.signature.constants ∧
      d.signature.Extends e.signature := by
  generalize hops : [Operation.start ["∀x (P(x) → Q(f(x), a))", "∃x P(x)"] "∃x Q(x, a)",
    .apply .existsElim [2, 4], .apply .forallElim [1, 6], .resumeText "f(c0, b)",
    .resumeText "P(c0, a)"] = ops
  generalize hlater : [Operation.apply .excludedMiddle [3], .resumeText "Q(b)",
    .resumeText "R(b)"] = later
  have hchooses : ∀ op ∈ ops, op.choosesOnly = true := by
    rw [← hops]
    decide
  have htasks : ∀ op ∈ later, op.task? = none := by
    rw [← hlater]
    simp [Operation.task?]
  generalize hresult : ({} : Session).performAll ops = result
  have hfinal : result.toOption.any fun s => (s.performAll later).toOption.any fun s' =>
      s.document.any fun d => s'.document.any fun e => (d.formula? 10).any fun f =>
        decide ((.relation, "P", 1) ∈ f.symbols ∧ (.function, "P", 2) ∈ f.symbols ∧
          "c0" ∈ d.signature.skolems ∧ "b" ∉ d.signature.constants ∧
          "b" ∈ e.signature.constants) := by
    rw [← hresult, ← hops, ← hlater]
    decide +kernel
  obtain ⟨s, rfl, hs⟩ := exists_ok_of_any hfinal
  obtain ⟨s', hperform, hs'⟩ := exists_ok_of_any hs
  obtain ⟨d, hd, hs'⟩ := (Option.any_eq_true _ _).1 hs'
  obtain ⟨e, he, hs'⟩ := (Option.any_eq_true _ _).1 hs'
  obtain ⟨f, hf, hs'⟩ := (Option.any_eq_true _ _).1 hs'
  obtain ⟨hrelation, hfunction, hskolem, hunknown, hknown⟩ := of_decide_eq_true hs'
  obtain ⟨hlines, hskolems, hgrows⟩ := performAll_signature_covers hchooses hresult hd
  obtain ⟨e', he', hextends⟩ := hgrows later s' htasks hperform
  obtain rfl := Option.some.inj (he.symm.trans he')
  obtain ⟨-, hsymbols, -⟩ := hlines 10 f hf
  exact ⟨s, s', d, e, f, rfl, hperform, hd, he, hf, hrelation, hfunction, hsymbols _ _ _ hrelation,
    hsymbols _ _ _ hfunction, hskolem, hskolems _ hskolem, hunknown, hknown, hextends⟩

end Session
end NaturalDeduction
