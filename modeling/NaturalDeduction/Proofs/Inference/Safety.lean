import NaturalDeduction.Proofs.Document.Ordered
import NaturalDeduction.Proofs.Inference.Answers
import NaturalDeduction.Proofs.Inference.Run

/-!
# Rules do not fault

In a coherent document whose lines are numbered, selecting lines that are there does not fault, and no
rule faults on lines that were selected.  A rule that waits goes on with every answer that passes the
check of its question, and it is done then or refused: it never asks again, and the lines it was begun
on still stand in the document.
-/

set_option autoImplicit false

namespace NaturalDeduction

/-- What a computation comes to has the property, and it is what the computation comes to. -/
theorem Gives.with_eq {α : Type} {x : Except Refusal α} {p : α → Prop} (h : Gives x p) :
    Gives x fun a => x = .ok a ∧ p a := by
  rcases x with (e | fault) | a
  · exact h
  · exact h
  · exact ⟨rfl, h⟩

namespace Document

variable {d : Document} {id : ItemId} {W : Vocabulary} {V : List Meaning → Formula → Prop}
  {P : Signature → Formula → Prop}

/-! ### Selecting -/

/-- Numbers that belong to lines are resolved. -/
theorem resolve_total {numbers : List Nat}
    (h : ∀ number ∈ numbers, (d.findLine? number).isSome) : ∃ ids, d.resolve numbers = .ok ids := by
  have hfound : ∀ number ∈ numbers.eraseDups, (d.findLine? number).isSome := fun number hmem =>
    h number (List.mem_eraseDups.1 hmem)
  exact ⟨_, resolve_eq_ok_iff.2 (map_eq_map_some hfound)⟩

/-- Lines are sorted out without a fault, whatever has been found before. -/
theorem gives_sortOut {ids : List ItemId} (h : ∀ id ∈ ids, (d.number? id).isSome) :
    ∀ targets cites : List ItemId, Gives (d.sortOut targets cites ids) fun _ => True := by
  induction ids with
  | nil => intro targets cites; trivial
  | cons id ids ih =>
    intro targets cites
    have hrest := ih fun j hj => h j (List.mem_cons_of_mem id hj)
    have hid := h id List.mem_cons_self
    rw [sortOut]
    rcases hkind : d.kind? id with _ | (⟨f, just, n⟩ | n | ⟨names, n⟩ | data)
    · simp [number?, hkind] at hid
    · dsimp only
      split
      · exact hrest _ _
      · exact hrest _ _
    · exact hrest _ _
    · simp
    · simp [number?, hkind, ItemKind.number?] at hid

/-- Checking the lines of a selection does not fault if they have numbers. -/
theorem gives_checkCites {target : ItemId} {number : Nat} {cites : List ItemId}
    (h : ∀ cite ∈ cites, (d.number? cite).isSome) :
    Gives (d.checkCites target number cites) fun _ => True := by
  induction cites with
  | nil => trivial
  | cons cite cites ih =>
    obtain ⟨n, hn⟩ := Option.isSome_iff_exists.1 (h cite List.mem_cons_self)
    have hrest := ih fun c hc => h c (List.mem_cons_of_mem cite hc)
    rw [checkCites, checkCite, gives_bind, gives_bind, gives_lift]
    refine ⟨n, citeNumber_of_line hn, ?_⟩
    by_cases hlater : number ≤ n
    · simp [hlater]
    · rw [if_neg hlater]
      cases d.inScope cite target with
      | true => simpa using hrest
      | false => simp

/-- Selecting lines that are there does not fault, and what it finds can be worked on. -/
theorem WellLinked.gives_select (h : d.WellLinked) (hnum : d.Numbered)
    {numbers : List Nat} (hfound : ∀ number ∈ numbers, (d.findLine? number).isSome) :
    Gives (d.select numbers) d.Selects := by
  have hselects : Gives (d.select numbers) fun _ => True := by
    unfold select
    obtain ⟨ids, hids⟩ := resolve_total hfound
    have hnumbers : ∀ id ∈ ids, (d.number? id).isSome := fun id hid =>
      h.number?_isSome (mem_lines_of_resolve hids id hid)
    rw [gives_bind, gives_lift]
    refine ⟨ids, hids, ?_⟩
    rw [gives_bind]
    refine (gives_sortOut hnumbers [] []).with_eq.imp ?_
    rintro ⟨targets, cites⟩ ⟨hsort, -⟩
    obtain ⟨-, htargets, hcites⟩ := sortOut_eq_ok_iff.1 hsort
    rw [List.reverse_nil, List.nil_append] at htargets hcites
    match targets with
    | [] => simp
    | _ :: _ :: _ => simp
    | [target] =>
      have htarget : (d.number? target).isSome := by
        have hmem : target ∈ ids.filter d.isOpen := htargets ▸ List.mem_singleton_self target
        exact hnumbers target (List.mem_of_mem_filter hmem)
      obtain ⟨n, hn⟩ := Option.isSome_iff_exists.1 htarget
      rw [gives_bind, gives_lift]
      refine ⟨n, citeNumber_of_line hn, ?_⟩
      rw [gives_bind]
      refine (gives_checkCites fun cite hcite => ?_).imp fun _ _ => trivial
      exact hnumbers cite (List.mem_of_mem_filter (hcites ▸ hcite))
  exact hselects.with_eq.imp fun selection hsel => h.select_selects hnum hsel.1

/-! ### Running -/

/-- Lines with formulas can be cited. -/
theorem citedLines_total {ids : List ItemId} (h : ∀ id ∈ ids, (d.formula? id).isSome) :
    ∃ cites, d.citedLines ids = .ok cites := by
  induction ids with
  | nil => exact ⟨[], rfl⟩
  | cons id ids ih =>
    obtain ⟨f, hf⟩ := Option.isSome_iff_exists.1 (h id List.mem_cons_self)
    obtain ⟨⟨g, just⟩, hline, -⟩ := Option.map_eq_some_iff.1 hf
    obtain ⟨n, hkind⟩ := (line?_eq_some_iff_kind? d).1 hline
    obtain ⟨cites, hcites⟩ := ih fun j hj => h j (List.mem_cons_of_mem id hj)
    exact ⟨_, by rw [citedLines, citedLine, hkind, hcites]; rfl⟩

/-- A selection puts a rule into a situation. -/
theorem Selects.situation_total {selection : Selection} (h : d.Selects selection) (rule : Rule) :
    ∃ s, d.situation rule selection = .ok s := by
  obtain ⟨cites, hcites⟩ := citedLines_total h.formula
  exact ⟨_, by rw [situation, hcites]; rfl⟩

/-- A rule runs without a fault if it decides without one.  It is done then, or it has asked. -/
theorem Coherent.gives_run (h : Coherent V d) (hW : W.Fits V P d) (htick : ∀ f, V [.formula f] f)
    {selection : Selection} (hsel : d.Selects selection) {input : Option Input}
    (hoffers : Offers W d selection input) {rule : Rule} {s : Situation}
    (hs : d.situation rule selection = .ok s) {p : Action → Prop}
    (hp : Gives (rule.handler s input) p) (settings : Settings) :
    Gives (d.run settings rule selection input) fun result => result.1 = .done ∨
      ∃ request, p (.ask request) ∧ rule.handler s input = .ok (.ask request) ∧
        result = (.needsInput { rule, selection, request }, d) := by
  unfold run
  rw [gives_bind, gives_lift]
  refine ⟨s, hs, ?_⟩
  rw [gives_bind]
  refine hp.with_eq.imp ?_
  rintro (step | request) ⟨haction, hask⟩
  · have hyields := rule.handler_yields (hoffers.speaks hW.skolem hs) haction
    obtain ⟨cites, mid, spliced, hsplice, hspliced⟩ := h.step_spliced hW hsel hoffers hs hyields
    obtain ⟨settled, hsettle, -, -⟩ := (hspliced.coherent h).settle_tidies htick settings
    simp only [gives_bind, gives_lift]
    exact ⟨spliced, hsplice, settled, hsettle, Or.inl rfl⟩
  · exact Or.inr ⟨request, hask, haction, rfl⟩

/-! ### Waiting rules -/

/-- The rule that waits has asked its question about the lines it was begun on.  Names may have become
known since then. -/
def Awaits (d : Document) (pending : Pending) : Prop :=
  ∃ s next, d.situation pending.rule pending.selection = .ok { s with nextSkolem := next } ∧
    pending.rule.handler s none = .ok (.ask pending.request)

/-- What is cited does not depend on the names that are known. -/
theorem citedLines_withSignature (sig : Signature) (ids : List ItemId) :
    ({ d with signature := sig } : Document).citedLines ids = d.citedLines ids := by
  induction ids with
  | nil => rfl
  | cons id ids ih => rw [citedLines, citedLines, ih]; rfl

/-- A rule still waits for its answer when more names are known. -/
theorem Awaits.learn {pending : Pending} (h : d.Awaits pending) (sig : Signature) :
    ({ d with signature := sig } : Document).Awaits pending := by
  obtain ⟨s, next, hs, hask⟩ := h
  refine ⟨s, sig.nextSkolem, ?_, hask⟩
  unfold situation at hs ⊢
  obtain ⟨cites, hcites, hs⟩ := bind_eq_ok.1 hs
  have hs := Except.ok.inj hs
  rw [citedLines_withSignature, hcites]
  exact congrArg
    (fun s : Situation => (.ok { s with nextSkolem := sig.nextSkolem } : Except Fault Situation)) hs

/-- The lines of a selection stand in the document. -/
theorem Selects.holds {selection : Selection} (h : d.Selects selection) (hlinked : d.WellLinked)
    (hrooted : d.Rooted) : d.holds selection = true := by
  rw [Document.holds, Bool.and_eq_true, List.all_eq_true]
  exact ⟨((hlinked.mem_lines_iff hrooted).1 h.target_line).1,
    fun cite hcite => (h.visible cite hcite).isLinked hlinked⟩

/-- Looking for a Skolem constant out of its box does not fault. -/
theorem WellLinked.gives_checkSkolems (h : d.WellLinked) {target : ItemId} (hline : target ∈ d.lines)
    (input : Input) : Gives (d.checkSkolems target input) fun _ => True := by
  unfold checkSkolems
  split
  · trivial
  · obtain ⟨n, hn⟩ := Option.isSome_iff_exists.1 (h.number?_isSome hline)
    rw [gives_bind, gives_lift]
    exact ⟨n, citeNumber_of_line hn, by simp⟩

/-- The check of an answer does not find the rule stale. -/
theorem check_ne_stalePending (input : Input) (request : Request) :
    input.check request ≠ .error .stalePending := by
  unfold Input.check
  repeat' split
  all_goals simp

/-- A rule that waits goes on with any answer: it is done then, or the answer is refused. -/
theorem Coherent.gives_resume (h : Coherent V d) (hW : W.Fits V P d)
    (htick : ∀ f, V [.formula f] f) {pending : Pending} (hsel : d.Selects pending.selection)
    (hawaits : d.Awaits pending) {input : Input}
    (hoffers : Offers W d pending.selection (some input)) (settings : Settings) :
    Gives (d.resume settings pending input) fun result => result.1 = .done := by
  obtain ⟨s, next, hs, hask⟩ := hawaits
  have hsettles := (pending.rule.handler_settles s next).of_eq_ok hask
  unfold Document.resume
  cases hcheck : input.check pending.request with
  | error e =>
    rw [gives_throw]
    rintro rfl
    exact check_ne_stalePending input pending.request hcheck
  | ok checked =>
    have hrun : Gives (d.run settings pending.rule pending.selection (some input))
        fun result => result.1 = .done := by
      refine (h.gives_run hW htick hsel hoffers hs (hsettles input hcheck) settings).imp ?_
      rintro result (hdone | ⟨request, hstep, -⟩)
      · exact hdone
      · exact hstep.elim
    simp only [hsel.holds h.linked h.rooted, Bool.not_true, Bool.false_eq_true, if_false]
    split
    · rw [gives_bind]
      exact (h.linked.gives_checkSkolems hsel.target_line input).imp fun _ _ => hrun
    · exact hrun

end Document
end NaturalDeduction
