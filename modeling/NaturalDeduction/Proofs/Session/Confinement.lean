import NaturalDeduction.Proofs.Session.Freshness

/-!
# Skolem constants stay in their boxes

As long as answers are checked for Skolem constants and none is handed over ready-made, a Skolem
constant never gets out of its box: the answers are the only formulas that do not come from lines that
the target sees.
-/

set_option autoImplicit false

namespace NaturalDeduction

variable {s s' : Session} {d : Document} {op : Operation}

/-! ### The check of answers -/

namespace Document

variable {target : ItemId} {c : String}

/-- The constants of an answer that passes the check may be used at the target. -/
theorem isVisible_of_checkSkolems {input : Input} (h : d.checkSkolems target input = .ok ()) :
    ∀ c ∈ input.constants, d.isVisible target c = true := by
  unfold checkSkolems at h
  split at h
  · rename_i hnone
    intro c hc
    have hvisible := List.find?_eq_none.1 hnone c hc
    simpa using hvisible
  · obtain ⟨_, -, h⟩ := bind_eq_ok.1 h
    simp [throw, throwThe, MonadExceptOf.throw] at h

/-- The box that is found for a Skolem constant has it. -/
theorem mem_skolemsOf_of_skolemBox? {box : ItemId} (h : d.skolemBox? c = some box) :
    c ∈ d.skolemsOf box := by
  have hbox := List.find?_some h
  unfold skolemsOf
  cases hdata : d.box? box with
  | none => simp [hdata] at hbox
  | some data =>
    simp only [hdata] at hbox
    exact hbox

/-- What the check lets pass stands in the box of every Skolem constant it mentions. -/
theorem WellLinked.enclosedBy_of_isVisible (hd : d.WellLinked) (h : d.isVisible target c = true)
    (hc : c ∈ d.signature.skolems) : d.EnclosedBy c target := by
  have hcontains : d.signature.skolems.contains c = true := hc
  simp only [isVisible, hcontains, Bool.not_true, Bool.false_or] at h
  cases hbox : d.skolemBox? c with
  | none => simp [hbox] at h
  | some box =>
    simp only [hbox, List.contains_iff_mem] at h
    exact ⟨box, mem_skolemsOf_of_skolemBox? hbox, hd.mem_ancestors_iff.1 h⟩

end Document

/-! ### Runs -/

/-- The check of answers is not turned off, and no formulas or terms are handed over ready-made. -/
def Operation.keepsScope : Operation → Bool
  | .configure settings => settings.checkSkolemScope
  | op => op.choosesOnly

/-- An operation that keeps scope hands over nothing ready-made but choices. -/
theorem Operation.choosesOnly_of_keepsScope (h : op.keepsScope = true) : op.choosesOnly = true := by
  cases op with
  | configure settings => rfl
  | _ => exact h

namespace Session

/-- No constants come in unread where only choices are handed over. -/
theorem strangers_of_choosesOnly (h : op.choosesOnly = true) : s.strangers op = [] := by
  cases op with
  | resume input =>
    cases input with
    | choice index => cases hd : s.document <;> simp [strangers, hd, Input.constants]
    | _ => simp [Operation.choosesOnly] at h
  | _ => rfl

/-- A rule runs with an answer that has been checked. -/
theorem Runs.checked {rule : Rule} {selection : Selection} {input : Option Input}
    (hruns : s.Runs op d rule selection input) (hscope : s.settings.checkSkolemScope = true)
    {i : Input} (hi : i ∈ input) : d.checkSkolems selection.target i = .ok () := by
  cases hruns with
  | begins => simp at hi
  | answers _ _ hcheck =>
    obtain rfl := Option.some.inj hi
    exact hcheck hscope
  | answersText _ _ _ hcheck =>
    obtain rfl := Option.some.inj hi
    exact hcheck hscope

/-- All constants are known, answers are checked, and the document is confined. -/
structure Confines (s : Session) : Prop where
  accounts : s.Accounts []
  scope : s.settings.checkSkolemScope = true
  confined : ∀ d ∈ s.document, d.Confined

namespace Confines

/-- The document that a rule runs on is confined, and the constants of the answer are seen at the
target. -/
theorem runs (h : s.Confines) (hop : op.choosesOnly = true) {rule : Rule} {selection : Selection}
    {input : Option Input} (hruns : s.Runs op d rule selection input) :
    d.Confined ∧ ∀ i ∈ input, ∀ c ∈ i.constants, d.Seen selection.target c := by
  obtain ⟨hcoherent, -, -⟩ := h.accounts.runs hruns
  constructor
  · obtain ⟨before, sig, hbefore, rfl, hskolems, hmono⟩ := hruns.document
    exact (h.confined before hbefore).learn hskolems hmono
  · intro i hi c hc
    have hvisible := Document.isVisible_of_checkSkolems (hruns.checked h.scope hi) c hc
    refine ⟨?_, hcoherent.linked.enclosedBy_of_isVisible hvisible⟩
    have hknown := hruns.mem_constants hi hc
    rw [strangers_of_choosesOnly hop] at hknown
    exact hknown.resolve_right List.not_mem_nil

/-- An operation that keeps scope keeps the session confined. -/
theorem perform (h : s.Confines) (hop : op.keepsScope = true) (hperform : s.perform op = .ok s') :
    s'.Confines := by
  have hchooses := Operation.choosesOnly_of_keepsScope hop
  have haccounts : s'.Accounts [] := by
    have := h.accounts.perform hperform
    simpa [strangersAfter, strangers_of_choosesOnly hchooses] using this
  cases perform_turn hperform with
  | starts htask hsettle hs' =>
    -- a new document has no Skolem constants
    obtain ⟨hkeeps, howned, hnone⟩ := accounts_start htask hsettle
    subst hs'
    refine ⟨haccounts, h.scope, fun e he => ?_⟩
    obtain rfl := Option.some.inj he
    intro id f c _ hf hc
    refine ⟨(hkeeps.allowed hf c hc).resolve_right List.not_mem_nil, fun hskolem => ?_⟩
    obtain ⟨box, -, hbox⟩ := howned.owner hskolem
    exact absurd hbox (hnone box c)
  | stays _ hdocument _ hsettings =>
    refine ⟨haccounts, ?_, fun d hd => h.confined d (hdocument ▸ hd)⟩
    rcases hsettings with hsettings | rfl
    · rw [hsettings]
      exact h.scope
    · exact hop
  | checks _ hd hrefresh hs' =>
    have hcoherent := (h.accounts.keeps.document _ hd).coherent
    obtain ⟨_, e, hok, htidies, -, -⟩ := hcoherent.refresh_tidies fun _ => trivial
    obtain ⟨-, rfl⟩ := Prod.mk.inj (Except.ok.inj (hok.symm.trans hrefresh))
    subst hs'
    refine ⟨haccounts, h.scope, fun e' he' => ?_⟩
    exact Option.some.inj he' ▸ htidies.confined hcoherent (h.confined _ hd)
  | runs _ hruns hrun hs' =>
    obtain ⟨hcoherent, -, hselects⟩ := h.accounts.runs hruns
    obtain ⟨hconfined, hinput⟩ := h.runs hchooses hruns
    subst hs'
    refine ⟨haccounts, h.scope, fun e' he' => ?_⟩
    exact Option.some.inj he' ▸ hcoherent.run_confined hconfined hselects hinput hrun

/-- Operations that keep scope keep the session confined. -/
theorem performAll {ops : List Operation} (h : s.Confines)
    (hops : ∀ op ∈ ops, op.keepsScope = true) (hperform : s.performAll ops = .ok s') :
    s'.Confines := by
  induction ops generalizing s with
  | nil =>
    obtain rfl := Except.ok.inj hperform
    exact h
  | cons op ops ih =>
    obtain ⟨mid, hmid, hperform⟩ := bind_eq_ok.1 hperform
    exact ih (h.perform (hops op List.mem_cons_self) hmid)
      (fun op' hop' => hops op' (List.mem_cons_of_mem op hop')) hperform

end Confines

/-- In every session that can be reached while answers are checked, a Skolem constant belongs to
exactly one linked box, and all linked lines that mention it stand in this box. -/
theorem performAll_skolems_confined {settings : Settings} {ops : List Operation}
    (hscope : settings.checkSkolemScope = true) (hops : ∀ op ∈ ops, op.keepsScope = true)
    (hrun : ({ settings } : Session).performAll ops = .ok s) (hd : s.document = some d) {c : String}
    (hc : c ∈ d.signature.skolems) :
    ∃ box, (d.isLinked box = true ∧ d.isBox box = true ∧ c ∈ d.skolemsOf box) ∧
      (∀ other, c ∈ d.skolemsOf other → other = box) ∧
      ∀ id f, d.isLinked id = true → d.formula? id = some f → c ∈ f.constants →
        box ∈ d.ancestors id := by
  have hinitial : ({ settings } : Session).Confines :=
    ⟨accounts_initial settings, hscope, by simp⟩
  have hconfines := hinitial.performAll hops hrun
  have howned := hconfines.accounts.owned d hd
  obtain ⟨box, hlinked, hbox⟩ := howned.owner hc
  refine ⟨box, ⟨hlinked, Document.isBox_of_mem_skolemsOf hbox, hbox⟩,
    fun other hother => howned.unique hother hbox, fun id f hid hf hcf => ?_⟩
  obtain ⟨around, haround, hin⟩ := (hconfines.confined d hd hid hf hcf).enclosed hc
  obtain rfl := howned.unique haround hbox
  exact (hconfines.accounts.keeps.document d hd).coherent.linked.mem_ancestors_iff.2 hin

/-- A box whose constant is used in it by an answer; the same constant is refused in an answer
outside. -/
theorem performAll_skolems_confined_existsElim :
    ∃ s d box,
      ({} : Session).performAll
        [.start ["∀x (P(x) → Q(x))", "∃x P(x)"] "∃x Q(x)", .apply .existsElim [2, 4],
          .configure { autoComplete := false }, .apply .forallElim [1, 6], .resumeText "c0",
          .apply .excludedMiddle [3], .resumeText "R(c0)", .cancel] = .ok s ∧
      s.document = some d ∧ "c0" ∈ d.signature.skolems ∧ d.isLinked box = true ∧
      "c0" ∈ d.skolemsOf box ∧ ∀ id f, d.isLinked id = true → d.formula? id = some f →
        "c0" ∈ f.constants → box ∈ d.ancestors id := by
  generalize hops : [Operation.start ["∀x (P(x) → Q(x))", "∃x P(x)"] "∃x Q(x)",
    .apply .existsElim [2, 4], .configure { autoComplete := false }, .apply .forallElim [1, 6],
    .resumeText "c0", .apply .excludedMiddle [3], .resumeText "R(c0)", .cancel] = ops
  have hscope : ∀ op ∈ ops, op.keepsScope = true := by
    rw [← hops]
    decide
  generalize hresult : ({} : Session).performAll ops = result
  have hfinal : result.toOption.any fun s =>
      s.document.any fun d => decide ("c0" ∈ d.signature.skolems) := by
    rw [← hresult, ← hops]
    decide +kernel
  obtain ⟨s, rfl, hs⟩ := exists_ok_of_any hfinal
  obtain ⟨d, hd, hskolem⟩ := (Option.any_eq_true _ _).1 hs
  have hc := of_decide_eq_true hskolem
  obtain ⟨box, ⟨hlinked, -, hbox⟩, -, hlines⟩ :=
    performAll_skolems_confined rfl hscope hresult hd hc
  exact ⟨s, d, box, rfl, hd, hc, hlinked, hbox, hlines⟩

end Session
end NaturalDeduction
