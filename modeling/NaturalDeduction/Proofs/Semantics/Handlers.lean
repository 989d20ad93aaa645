import NaturalDeduction.Proofs.Semantics.Calculus

/-!
# Rules preserve truth

Whatever a rule decides about closed formulas over known names, it concludes a formula that holds in
every structure in which the cited lines, the new goals and the new boxes hold.  Nothing is assumed
about the document: any lines may be cited, visible or not, for any target.
-/

set_option autoImplicit false

namespace NaturalDeduction

universe u

variable {α : Type u} {M : Structure α} {v : String → α}

/-! ### What a step rests on and what it concludes -/

/-- What a planned box has to show: its goal under its assumption.  If the box introduces a Skolem
constant, it has to show this whatever object the constant stands for. -/
def BoxPlan.Holds (M : Structure α) (v : String → α) (plan : BoxPlan) : Prop :=
  match plan.skolem with
  | none => (∀ f ∈ plan.assumption, f.Holds M v) → plan.goal.Holds M v
  | some name => ∀ a : α,
      (∀ f ∈ plan.assumption, f.Holds (M.withConst (Function.update M.const name a)) v) →
        plan.goal.Holds (M.withConst (Function.update M.const name a)) v

/-- The formula a step concludes: the one it adds, or the goal it justifies. -/
def Situation.conclusion? (s : Situation) : Step → Option Formula
  | .derive f _ => some f
  | .justify _ =>
    match s.target with
    | .goal g => some g
    | .gap => none

/-- An answer is closed and mentions known names only. -/
def Input.Over (names : NameSet) : Input → Prop
  | .formula f => f.Over names
  | .choice _ => True
  | .terms ts => ∀ t ∈ ts, t.Over names

/-- A closed answer over the known constants is in the vocabulary of closed formulas over them. -/
theorem Input.Over.speaks {sig : Signature} {input : Input} (h : input.Over sig.constants) :
    input.Speaks (.proper sig) := by
  cases input <;> exact h

/-- A box that shows what it has to show is a premise that holds. -/
theorem BoxPlan.Holds.premise {plan : BoxPlan} (h : plan.Holds M v) (d : Document) :
    (Premise.box plan).Holds d M v := by
  refine ⟨_, rfl, fun κ hκ hassumptions => ?_⟩
  have hassumption : ∀ f ∈ plan.assumption, f.Holds (M.withConst κ) v := fun f hf =>
    hassumptions f (Option.mem_toList.2 hf)
  unfold BoxPlan.Holds at h
  split at h
  · rename_i hskolem
    obtain rfl : κ = M.const := funext fun c => hκ c (by simp [Document.planSkolems, hskolem])
    exact h hassumption
  · rename_i name hskolem
    -- only the Skolem constant of the box can stand for something else
    obtain ⟨a, rfl⟩ : ∃ a, κ = Function.update M.const name a := by
      refine ⟨κ name, Function.eq_update_iff.2 ⟨rfl, fun c hc => hκ c ?_⟩⟩
      simpa [Document.planSkolems, hskolem] using hc
    exact h a hassumption

/-! ### Truth -/

/-- A step that a rule comes to by the calculus concludes a formula derived from its premises. -/
theorem Yields.exists_conclusion {sig : Signature} {s : Situation} {rule : Rule} {step : Step}
    (h : Yields (.proper sig) s rule step) :
    ∃ f, s.conclusion? step = some f ∧ Derives (.proper sig) s.cites rule step.premises f := by
  cases h with
  | derive _ hf _ _ => exact ⟨_, rfl, hf⟩
  | justify htarget hg _ => exact ⟨_, by simp [Situation.conclusion?, htarget], hg⟩

/-- If a rule comes to a step on closed formulas over known names, then the formula it concludes holds
in every structure in which the cited lines, the goals and the boxes of the step hold. -/
theorem Rule.handler_truthful {d : Document} {rule : Rule} {selection : Selection} {s : Situation}
    {input : Option Input} {step : Step} (hs : d.situation rule selection = .ok s)
    (hcites : ∀ id ∈ selection.cites, ∀ f, d.formula? id = some f → f.Over d.signature.constants)
    (hgoal : ∀ g, d.target selection.target = .goal g → g.Over d.signature.constants)
    (hinput : ∀ i ∈ input, i.Over d.signature.constants)
    (h : rule.handler s input = .ok (.apply step)) :
    ∃ f, s.conclusion? step = some f ∧
      ∀ (α : Type u) (M : Structure α) (v : String → α),
        (∀ id ∈ selection.cites, ∀ g, d.formula? id = some g → g.Holds M v) →
        (∀ g, .goal g ∈ step.premises → g.Holds M v) →
        (∀ plan, .box plan ∈ step.premises → plan.Holds M v) →
        f.Holds M v := by
  obtain ⟨htarget, hskolem, hcited⟩ := Document.situation_eq_ok hs
  have hspeaks : s.Speaks (.proper d.signature) input :=
    { skolem := hskolem
      cites := fun cited hmem => hcites _ (hcited cited hmem).1 _ (hcited cited hmem).2
      target := fun hg => hgoal _ (htarget.symm.trans hg)
      input := fun i hi => (hinput i hi).speaks }
  obtain ⟨f, hf, hderives⟩ := (rule.handler_yields hspeaks h).exists_conclusion
  refine ⟨f, hf, fun α M v hlines hgoals hboxes => ?_⟩
  have hcitesOf : CitesOf d s.cites := by
    intro cited hmem
    obtain ⟨⟨g, just⟩, hline, rfl⟩ := Option.map_eq_some_iff.1 (hcited cited hmem).2
    exact Document.meaning?_of_line hline
  refine hderives.holds hcitesOf fun p hp => ?_
  cases p with
  | cite id =>
    obtain ⟨cited, hmem, rfl⟩ := hderives.cite_mem hp
    exact ⟨_, hcitesOf cited hmem, hlines _ (hcited cited hmem).1 _ (hcited cited hmem).2⟩
  | goal g => exact ⟨_, rfl, hgoals g hp⟩
  | box plan => exact (hboxes plan hp).premise d

/-- From a witness of an existential statement to a conclusion that is given, by way of a box about a
Skolem constant that is not yet used. -/
theorem Rule.handler_truthful_existsElim :
    ∃ s step f,
      (Document.start [.quant .ex "x" (.rel "P" [.var "x", .const "c0"])] .bottom
          (Signature.addConstant {} "c0")).situation .existsElim ⟨2, [1]⟩ = .ok s ∧
        Rule.existsElim.handler s (some (.formula (.rel "Q" [.const "c0"]))) = .ok (.apply step) ∧
        .box { skolem := some "c1", assumption := some (.rel "P" [.const "c1", .const "c0"]),
               goal := .rel "Q" [.const "c0"] } ∈ step.premises ∧
        s.conclusion? step = some f ∧
        ∀ (α : Type) (M : Structure α) (v : String → α),
          Formula.Holds M v (.quant .ex "x" (.rel "P" [.var "x", .const "c0"])) →
          (∀ plan, .box plan ∈ step.premises → plan.Holds M v) → f.Holds M v := by
  generalize hd : Document.start [.quant .ex "x" (.rel "P" [.var "x", .const "c0"])] .bottom
    (Signature.addConstant {} "c0") = d
  have hknown : d.signature.constants = NameSet.add ∅ "c0" := by rw [← hd]; rfl
  have hgap : d.target 2 = .gap := by rw [← hd]; rfl
  have hcited : d.formula? 1 = some (.quant .ex "x" (.rel "P" [.var "x", .const "c0"])) := by
    rw [← hd]; rfl
  let s : Situation :=
    { rule := .existsElim, target := .gap, nextSkolem := "c1"
      cites := [⟨1, 1, .quant .ex "x" (.rel "P" [.var "x", .const "c0"])⟩] }
  let step : Step := .derive (.rel "Q" [.const "c0"])
    [.cite 1, .box { skolem := some "c1", assumption := some (.rel "P" [.const "c1", .const "c0"])
                     goal := .rel "Q" [.const "c0"] }]
  have hs : d.situation .existsElim ⟨2, [1]⟩ = .ok s := by rw [← hd]; decide +kernel
  have hstep : Rule.existsElim.handler s (some (.formula (.rel "Q" [.const "c0"]))) =
      .ok (.apply step) := by decide +kernel
  have hcites : ∀ id ∈ [1], ∀ f, d.formula? id = some f → f.Over d.signature.constants := by
    intro id hid f hf
    obtain rfl := List.mem_singleton.1 hid
    obtain rfl := Option.some.inj (hcited.symm.trans hf)
    exact hknown ▸ ⟨by decide, by simp⟩
  have hinput : Input.Over d.signature.constants (.formula (.rel "Q" [.const "c0"])) :=
    hknown ▸ ⟨by decide, by simp⟩
  obtain ⟨f, hf, htruth⟩ := Rule.handler_truthful.{0} hs hcites (by simp [hgap])
    (fun _ hi => Option.some.inj hi ▸ hinput) hstep
  refine ⟨s, step, f, hs, hstep, by decide, hf, fun α M v hex hboxes => htruth α M v ?_ ?_ hboxes⟩
  · intro id hid g hg
    obtain rfl := List.mem_singleton.1 hid
    obtain rfl := Option.some.inj (hcited.symm.trans hg)
    exact hex
  · intro g hg
    simp [step, Step.premises] at hg

end NaturalDeduction
