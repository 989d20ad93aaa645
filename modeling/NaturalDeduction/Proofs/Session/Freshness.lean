import NaturalDeduction.Proofs.Inference.Naming
import NaturalDeduction.Proofs.Session.Run

/-!
# New Skolem constants in sessions

The name of a Skolem constant is chosen so that it is not a known constant.  All constants of formulas
and terms that are read from text become known, but an answer that is handed over ready-made may
mention other constants, its strangers; these get into lines without becoming known.

In any run a new Skolem constant differs from all known constants and belongs to one box only, and the
only lines and answers that mention it are those with strangers (`Session.performAll_skolem_unused`).
-/

set_option autoImplicit false

namespace NaturalDeduction

variable {s s' : Session} {d e : Document} {op : Operation} {names : List String}

/-! ### Known names and strangers -/

/-- The discipline that allows the known constants and some more. -/
def Discipline.knowing (names : List String) : Discipline where
  good _ _ := True
  allowed sig f := ∀ c ∈ f.constants, c ∈ sig.constants ∨ c ∈ names
  vocabulary sig := .naming (fun c => c ∈ sig.constants ∨ c ∈ names) sig.nextSkolem
  mono hsig hf c hc := (hf c hc).imp_left (hsig c)
  repeats _ := trivial
  speaks hf := hf
  fits d := by
    refine ⟨rfl, fun hf => hf, fun hf c hc => ?_, fun _ _ _ => trivial⟩
    rw [Signature.mem_freshSkolem_constants, or_assoc]
    exact hf c hc

namespace Session

/-- The constants of an answer that are not known when it is handed over ready-made. -/
def strangers (s : Session) : Operation → List String
  | .resume input =>
    match s.document with
    | some d => input.constants.filter fun c => !d.signature.constants.contains c
    | none => []
  | _ => []

/-- The strangers of a task after an operation. -/
def strangersAfter (s : Session) (names : List String) (op : Operation) : List String :=
  if op.task?.isSome then [] else names ++ s.strangers op

/-- The strangers of the last task after several operations. -/
def strangersAlong (s : Session) (names : List String) : List Operation → List String
  | [] => names
  | op :: ops =>
    match s.perform op with
    | .ok s' => s'.strangersAlong (s.strangersAfter names op) ops
    | .error _ => []

/-- The answer that an operation gives to the rule that waits. -/
def answer? (s : Session) : Operation → Option Input
  | .resume input => some input
  | .resumeText text =>
    match s.document, s.pending with
    | some d, some pending =>
      match readInput pending.request.kind text d.signature with
      | (.ok input, _) => some input
      | (.error _, _) => none
    | _, _ => none
  | _ => none

/-- The strangers of an answer are its constants that the document does not know. -/
theorem mem_strangers {input : Input} (hd : s.document = some d) {c : String} :
    c ∈ s.strangers (.resume input) ↔ c ∈ input.constants ∧ c ∉ d.signature.constants := by
  simp only [strangers, hd, List.mem_filter, Bool.not_eq_true', ← Bool.not_eq_true]
  rfl

/-- What an operation brings into a session are known constants, or strangers. -/
theorem knowing_admits (hsub : ∀ c ∈ s.strangers op, c ∈ names) :
    (Discipline.knowing names).Admits s op := by
  cases op with
  | start givens goal =>
    exact fun task sig htask f hf c hc => Or.inl ((Operation.task?_learns htask).mem ⟨f, hf, hc⟩)
  | resume input =>
    refine fun d hd => Input.speaks_naming.2 fun c hc => ?_
    by_cases hknown : c ∈ d.signature.constants
    · exact Or.inl hknown
    · exact Or.inr (hsub c ((mem_strangers hd).2 ⟨hc, hknown⟩))
  | resumeText text =>
    refine fun d _ pending _ input sig hread => Input.speaks_naming.2 fun c hc => ?_
    exact Or.inl ((readInput_learns hread).mem hc)
  | _ => exact fun _ _ htask => by simp [Operation.task?] at htask

/-! ### Rules that run -/

section Runs

variable {rule : Rule} {selection : Selection} {input : Option Input}
  (hruns : s.Runs op d rule selection input)
include hruns

/-- The document that a rule runs on is the one of the session, up to the names of the answer. -/
theorem Runs.document : ∃ before sig, s.document = some before ∧
    d = { before with signature := sig } ∧ sig.skolems = before.signature.skolems ∧
      ∀ c ∈ before.signature.constants, c ∈ sig.constants := by
  cases hruns with
  | begins hd _ => exact ⟨d, d.signature, hd, rfl, rfl, fun _ hc => hc⟩
  | answers hd _ _ => exact ⟨d, d.signature, hd, rfl, rfl, fun _ hc => hc⟩
  | @answersText before _ _ _ sig hd _ hread _ =>
    have hlearns := readInput_learns hread
    exact ⟨before, sig, hd, rfl, hlearns.skolems, fun _ => hlearns.mono⟩

/-- The answer of an operation is the one that its rule runs with. -/
theorem Runs.answer?_eq : s.answer? op = input := by
  cases hruns with
  | begins => rfl
  | answers => rfl
  | answersText hd hpending hread _ => simp [answer?, hd, hpending, hread]

/-- The constants of an answer are known when the rule runs, or strangers. -/
theorem Runs.mem_constants {i : Input} (hi : i ∈ input) {c : String} (hc : c ∈ i.constants) :
    c ∈ d.signature.constants ∨ c ∈ s.strangers op := by
  cases hruns with
  | begins => simp at hi
  | answers hd _ _ =>
    obtain rfl := Option.some.inj hi
    by_cases hknown : c ∈ d.signature.constants
    · exact Or.inl hknown
    · exact Or.inr ((mem_strangers hd).2 ⟨hc, hknown⟩)
  | answersText _ _ hread _ =>
    obtain rfl := Option.some.inj hi
    exact Or.inl ((readInput_learns hread).mem hc)

end Runs

/-! ### What operations do to Skolem constants -/

/-- The constants of the document are known or among the given names, and every Skolem constant belongs
to one box. -/
structure Accounts (names : List String) (s : Session) : Prop where
  keeps : s.Keeps (.knowing names)
  owned : ∀ d ∈ s.document, d.Owned

/-- More names may be given. -/
theorem Keeps.knowing_mono {names' : List String} (h : s.Keeps (.knowing names))
    (hsub : ∀ c ∈ names, c ∈ names') : s.Keeps (.knowing names') where
  document d hd := by
    obtain ⟨hcoherent, hnumbered, hallowed⟩ := h.document d hd
    exact ⟨hcoherent, hnumbered, fun hf c hc => (hallowed hf c hc).imp_right (hsub c)⟩
  pending := h.pending

/-- A new document has no Skolem constants. -/
theorem accounts_start {task : Task} {sig : Signature} {settings : Settings}
    (htask : op.task? = some (task, sig))
    (hsettle : (Document.start task.givens task.goal sig).settle settings = .ok d) :
    (Discipline.knowing []).Keeps d ∧ d.Owned ∧ ∀ box c, c ∉ d.skolemsOf box := by
  have hlearns := Operation.task?_learns htask
  have hskolems : ∀ c, c ∉ sig.skolems := by
    rw [hlearns.skolems]
    exact NameSet.not_mem_empty
  have hstart := Document.start_coherent task.givens task.goal sig fun _ _ => True
  obtain ⟨e, hok, htidies, -⟩ := hstart.settle_tidies (fun _ => trivial) settings
  obtain rfl := Except.ok.inj (hok.symm.trans hsettle)
  refine ⟨(keeps_start (fun f hf c hc => ?_) hsettle).1, ?_, fun box c => ?_⟩
  · exact Or.inl (hlearns.mem ⟨f, hf, hc⟩)
  · exact htidies.owned hstart (Document.start_owned _ _ hskolems)
  · rw [Document.Edits.skolemsOf_eq htidies.edits]
    exact Document.not_mem_skolemsOf_start _ _ _ box c

namespace Accounts

/-- With its strangers an operation stays among the given names. -/
theorem admitted (h : s.Accounts names) (op : Operation) :
    s.Keeps (.knowing (names ++ s.strangers op)) ∧
      (Discipline.knowing (names ++ s.strangers op)).Admits s op :=
  ⟨h.keeps.knowing_mono fun _ => List.mem_append_left _,
    knowing_admits fun _ => List.mem_append_right _⟩

/-- A rule that an operation lets run runs on a document that is in order. -/
theorem runs (h : s.Accounts names) {rule : Rule} {selection : Selection} {input : Option Input}
    (hruns : s.Runs op d rule selection input) :
    Document.Coherent (fun _ _ => True) d ∧ d.Owned ∧ d.Selects selection := by
  obtain ⟨hkeeps, hadmits⟩ := h.admitted op
  obtain ⟨hd, hselects, -, -⟩ := hruns.keeps hkeeps hadmits
  obtain ⟨before, sig, hbefore, rfl, hskolems, hmono⟩ := hruns.document
  exact ⟨hd.coherent, (h.owned before hbefore).learn hskolems hmono, hselects⟩

/-- A Skolem constant that a box gets was not known before. -/
theorem unknown (h : s.Accounts names) (hperform : s.perform op = .ok s')
    (hd : s.document = some d) (he : s'.document = some e) {box : ItemId} {c : String}
    (hnew : c ∈ e.skolemsOf box) (hold : c ∉ d.skolemsOf box) :
    c ∉ d.signature.constants ∧ ∀ i ∈ s.answer? op, c ∈ i.constants → c ∈ s.strangers op := by
  cases perform_turn hperform with
  | starts htask hsettle hs' =>
    subst hs'
    obtain rfl := Option.some.inj he
    exact absurd hnew ((accounts_start htask hsettle).2.2 box c)
  | stays _ hdocument _ _ =>
    obtain rfl := Option.some.inj (he.symm.trans (hdocument.trans hd))
    exact absurd hnew hold
  | checks _ hd' hrefresh hs' =>
    subst hs'
    obtain rfl := Option.some.inj he
    obtain rfl := Option.some.inj (hd'.symm.trans hd)
    obtain ⟨_, _, hok, htidies, -, -⟩ :=
      (h.keeps.document _ hd).coherent.refresh_tidies fun _ => trivial
    obtain ⟨-, rfl⟩ := Prod.mk.inj (Except.ok.inj (hok.symm.trans hrefresh))
    exact absurd (Document.Edits.skolemsOf_eq htidies.edits box ▸ hnew) hold
  | @runs mid _ rule selection input outcome _ hruns hrun hs' =>
    subst hs'
    obtain rfl := Option.some.inj he
    obtain ⟨hcoherent, howned, hselects⟩ := h.runs hruns
    obtain ⟨before, sig, hbefore, rfl, -, hmono⟩ := hruns.document
    obtain rfl := Option.some.inj (hbefore.symm.trans hd)
    have hunknown := (hcoherent.run_owned howned hselects hrun).2 hnew hold
    refine ⟨fun hc => hunknown (hmono c hc), fun i hi hc => ?_⟩
    rw [hruns.answer?_eq] at hi
    exact (hruns.mem_constants hi hc).resolve_left hunknown

/-- An operation keeps the account, with its strangers added to the given names. -/
theorem perform (h : s.Accounts names) (hperform : s.perform op = .ok s') :
    s'.Accounts (s.strangersAfter names op) := by
  -- unless a task begins, what has to be kept is kept by every operation
  have hkeeps : op.task? = none → s'.Keeps (.knowing (s.strangersAfter names op)) := by
    intro htask
    obtain ⟨hkeeps, hadmits⟩ := h.admitted op
    rw [strangersAfter, htask]
    rcases hkeeps.perform hadmits hperform with ⟨_, _, _, hsome, -⟩ | ⟨-, hcontinues⟩
    · exact absurd (htask.symm.trans hsome) (by simp)
    · exact hcontinues.keeps
  cases perform_turn hperform with
  | @starts task sig d htask hsettle hs' =>
    obtain ⟨hd, howned, -⟩ := accounts_start htask hsettle
    subst hs'
    rw [strangersAfter, htask]
    refine ⟨⟨fun e he => ?_, by simp⟩, fun e he => ?_⟩
    · exact Option.some.inj he ▸ hd
    · exact Option.some.inj he ▸ howned
  | stays htask hdocument _ _ => exact ⟨hkeeps htask, fun d hd => h.owned d (hdocument ▸ hd)⟩
  | checks htask hd hrefresh hs' =>
    obtain ⟨_, e, hok, htidies, -, -⟩ :=
      (h.keeps.document _ hd).coherent.refresh_tidies fun _ => trivial
    obtain ⟨-, rfl⟩ := Prod.mk.inj (Except.ok.inj (hok.symm.trans hrefresh))
    refine ⟨hkeeps htask, fun e' he' => ?_⟩
    subst hs'
    exact Option.some.inj he' ▸ htidies.owned (h.keeps.document _ hd).coherent (h.owned _ hd)
  | runs htask hruns hrun hs' =>
    obtain ⟨hcoherent, howned, hselects⟩ := h.runs hruns
    refine ⟨hkeeps htask, fun e' he' => ?_⟩
    subst hs'
    exact Option.some.inj he' ▸ (hcoherent.run_owned howned hselects hrun).1

/-- Operations keep the account, with their strangers added to the given names. -/
theorem performAll {ops : List Operation} (h : s.Accounts names)
    (hperform : s.performAll ops = .ok s') : s'.Accounts (s.strangersAlong names ops) := by
  induction ops generalizing s names with
  | nil =>
    obtain rfl := Except.ok.inj hperform
    exact h
  | cons op ops ih =>
    obtain ⟨mid, hmid, hperform⟩ := bind_eq_ok.1 hperform
    simp only [strangersAlong, hmid]
    exact ih (h.perform hmid) hperform

end Accounts

/-- A session without a document has nothing to account for. -/
theorem accounts_initial (settings : Settings) : ({ settings } : Session).Accounts [] :=
  ⟨⟨by simp, by simp⟩, by simp⟩

/-- After any run, a Skolem constant that an operation gives to a box was no known constant, and it
belongs to no other box.  A line in the document mentions it only if it has been handed over as a
stranger, and the answer to the rule only if it is a stranger there. -/
theorem performAll_skolem_unused {settings : Settings} {ops : List Operation}
    (hrun : ({ settings } : Session).performAll ops = .ok s) (hperform : s.perform op = .ok s')
    (hd : s.document = some d) (he : s'.document = some e) {box : ItemId} {c : String}
    (hnew : c ∈ e.skolemsOf box) (hold : c ∉ d.skolemsOf box) :
    c ∉ d.signature.constants ∧ (∀ other, c ∈ e.skolemsOf other → other = box) ∧
      (∀ id f, d.formula? id = some f → c ∈ f.constants →
        c ∈ ({ settings } : Session).strangersAlong [] ops) ∧
      ∀ input ∈ s.answer? op, c ∈ input.constants → c ∈ s.strangers op := by
  have haccounts := (accounts_initial settings).performAll hrun
  obtain ⟨hunknown, hanswer⟩ := haccounts.unknown hperform hd he hnew hold
  refine ⟨hunknown, fun other hother => ?_, fun id f hf hc => ?_, hanswer⟩
  · exact ((haccounts.perform hperform).owned e he).unique hother hnew
  · exact ((haccounts.keeps.document d hd).allowed hf c hc).resolve_left hunknown

/-- A box whose constant is chosen after `c0` has come in with a given and `c5` as a stranger. -/
theorem performAll_skolem_unused_existsElim :
    ∃ s s' d e input,
      ({} : Session).performAll
        [.start ["∃x P(x)", "P(c0)"] "∃x Q(x)", .apply .excludedMiddle [3],
          .resume (.formula (.rel "R" [.const "c5"])), .apply .existsElim [1, 4]] = .ok s ∧
      s.perform (.resumeText "P(c3)") = .ok s' ∧ s.document = some d ∧ s'.document = some e ∧
      s.answer? (.resumeText "P(c3)") = some input ∧ "c1" ∈ e.skolemsOf 6 ∧
      "c1" ∉ d.skolemsOf 6 ∧ (∀ other, "c1" ∈ e.skolemsOf other → other = 6) ∧
      (∀ id f, d.formula? id = some f → "c1" ∉ f.constants) ∧ "c1" ∉ input.constants := by
  generalize hops : [Operation.start ["∃x P(x)", "P(c0)"] "∃x Q(x)", .apply .excludedMiddle [3],
    .resume (.formula (.rel "R" [.const "c5"])), .apply .existsElim [1, 4]] = ops
  have hstrangers : "c1" ∉ ({} : Session).strangersAlong [] ops := by
    rw [← hops]
    decide +kernel
  generalize hresult : ({} : Session).performAll ops = result
  have hfinal : result.toOption.any fun s => s.document.any fun d =>
      (s.answer? (.resumeText "P(c3)")).isSome &&
      (s.perform (.resumeText "P(c3)")).toOption.any fun s' => s'.document.any fun e =>
        decide ("c1" ∈ e.skolemsOf 6 ∧ "c1" ∉ d.skolemsOf 6) := by
    rw [← hresult, ← hops]
    decide +kernel
  obtain ⟨s, rfl, hs⟩ := exists_ok_of_any hfinal
  obtain ⟨d, hd, hs⟩ := (Option.any_eq_true _ _).1 hs
  obtain ⟨hanswer, hs⟩ := Bool.and_eq_true_iff.1 hs
  obtain ⟨input, hinput⟩ := Option.isSome_iff_exists.1 hanswer
  obtain ⟨s', hperform, hs'⟩ := exists_ok_of_any hs
  obtain ⟨e, he, hs'⟩ := (Option.any_eq_true _ _).1 hs'
  obtain ⟨hnew, hold⟩ := of_decide_eq_true hs'
  obtain ⟨-, hunique, hlines, hanswers⟩ := performAll_skolem_unused hresult hperform hd he hnew hold
  exact ⟨s, s', d, e, input, rfl, hperform, hd, he, hinput, hnew, hold, hunique,
    fun id f hf hc => hstrangers (hlines id f hf hc),
    fun hc => absurd (hanswers input hinput hc) (by simp [strangers])⟩

/-- The constant of a new box may occur in a line that came in ready-made. -/
theorem performAll_skolem_of_stranger :
    ∃ s s' d e f,
      ({} : Session).performAll
        [.start [] "∀x Q(x)", .apply .excludedMiddle [1],
          .resume (.formula (.rel "P" [.const "c0"]))] = .ok s ∧
      s.perform (.apply .forallIntro [3]) = .ok s' ∧ s.document = some d ∧ s'.document = some e ∧
      ("c0" ∈ e.skolemsOf 4 ∧ "c0" ∉ d.skolemsOf 4) ∧ d.formula? 3 = some f ∧ "c0" ∈ f.constants := by
  generalize hresult : ({} : Session).performAll
    [.start [] "∀x Q(x)", .apply .excludedMiddle [1],
      .resume (.formula (.rel "P" [.const "c0"]))] = result
  have hfinal : result.toOption.any fun s =>
      (s.perform (.apply .forallIntro [3])).toOption.any fun s' =>
        s.document.any fun d => s'.document.any fun e => (d.formula? 3).any fun f =>
          decide (("c0" ∈ e.skolemsOf 4 ∧ "c0" ∉ d.skolemsOf 4) ∧ "c0" ∈ f.constants) := by
    rw [← hresult]
    decide +kernel
  obtain ⟨s, rfl, hs⟩ := exists_ok_of_any hfinal
  obtain ⟨s', hperform, hs'⟩ := exists_ok_of_any hs
  obtain ⟨d, hd, hs'⟩ := (Option.any_eq_true _ _).1 hs'
  obtain ⟨e, he, hs'⟩ := (Option.any_eq_true _ _).1 hs'
  obtain ⟨f, hf, hs'⟩ := (Option.any_eq_true _ _).1 hs'
  obtain ⟨hbox, hc⟩ := of_decide_eq_true hs'
  exact ⟨s, s', d, e, f, rfl, hperform, hd, he, hbox, hf, hc⟩

end Session
end NaturalDeduction
