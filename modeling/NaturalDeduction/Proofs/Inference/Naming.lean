import NaturalDeduction.Proofs.Document.Ordered
import NaturalDeduction.Proofs.Document.Skolems
import NaturalDeduction.Proofs.Inference.Run
import NaturalDeduction.Proofs.Substitution

/-!
# Constants that rules mention

The constants of what a rule writes down come from what it is given, up to the Skolem constant of a
new box.  So a rule gives every new Skolem constant to one box only, and if it is given what is seen
at its target, it leaves the document confined.
-/

set_option autoImplicit false

namespace NaturalDeduction

variable {p : String → Prop} {skolem : String}

/-! ### Formulas with given constants -/

/-- The formulas and terms whose constants satisfy `p`. -/
def Vocabulary.naming (p : String → Prop) (skolem : String) : Vocabulary where
  formula f := ∀ c ∈ f.constants, p c
  term t := ∀ c ∈ t.constants, p c
  extended f := ∀ c ∈ f.constants, c = skolem ∨ p c
  skolem := skolem
  extend h c hc := Or.inr (h c hc)
  top := by simp
  bottom := by simp
  neg := by simp
  binary := by simp [or_imp, forall_and]
  eq := by simp [or_imp, forall_and]
  generic h c hc := by
    rcases Formula.mem_constants_subst hc with hc | ⟨x, t, hx, hc⟩
    · exact Or.inr (h c (Formula.mem_constants_quant.2 hc))
    · left
      unfold Substitution.set at hx
      split at hx
      · obtain rfl := Option.some.inj hx
        exact Term.mem_constants_const.1 hc
      · simp [Substitution.none] at hx
  instantiate hf hts h c hc := by
    rcases Formula.mem_constants_of_instantiate? h hc with hc | ⟨t, ht, hc⟩
    · exact hf c hc
    · exact hts t ht c hc
  replace _ hb hf c hc := (Formula.mem_constants_replace hc).elim (hf c) (hb c)

/-- An answer is in the vocabulary of some constants if it mentions no others. -/
theorem Input.speaks_naming {input : Input} :
    input.Speaks (.naming p skolem) ↔ ∀ c ∈ input.constants, p c := by
  cases input with
  | formula f => simp [Speaks, constants, Vocabulary.naming, NameSet.mem_toList]
  | choice index => simp [Speaks, constants]
  | terms ts =>
    simp only [Speaks, constants, Vocabulary.naming, List.mem_flatMap, NameSet.mem_toList]
    constructor
    · rintro h c ⟨t, ht, hc⟩
      exact h t ht c hc
    · exact fun h t ht c hc => h c ⟨t, ht, hc⟩

namespace Document

/-- What is put into the document for a premise mentions what the premise does. -/
theorem mentions_of_speaks {premise : Premise} (h : premise.Speaks (.naming p skolem)) :
    ∀ item ∈ premiseItems premise, Mentions p item := by
  cases premise with
  | cite id => simp [premiseItems]
  | goal f =>
    intro item hitem
    simp only [premiseItems, List.mem_cons, List.not_mem_nil, or_false] at hitem
    rcases hitem with rfl | rfl
    · exact ⟨by simp [kindFormula?], by simp⟩
    · refine ⟨fun g hg => ?_, by simp⟩
      obtain rfl := Option.some.inj hg
      exact h
  | box plan =>
    intro item hitem
    obtain rfl := List.mem_singleton.1 hitem
    refine ⟨by simp [kindFormula?], fun kind hkind f hf c hc => ?_⟩
    have hplan : plan.Speaks (.naming p skolem) := h
    -- the formulas in the box are the assumption and the goal of the plan
    have hmem : f ∈ plan.assumption ∨ f = plan.goal := by
      rcases plannedKinds_mem hkind with ⟨_, rfl⟩ | ⟨g, hg, rfl⟩ | rfl | rfl
      · simp [kindFormula?] at hf
      · exact Or.inl (Option.some.inj hf ▸ hg)
      · simp [kindFormula?] at hf
      · exact Or.inr (Option.some.inj hf).symm
    unfold BoxPlan.Speaks at hplan
    cases hskolem : plan.skolem with
    | none =>
      simp only [hskolem] at hplan
      exact Or.inl (hmem.elim (fun hf => hplan.1 f hf c hc) fun hf => hplan.2 c (hf ▸ hc))
    | some name =>
      simp only [hskolem] at hplan
      obtain ⟨rfl, hassumption, hgoal⟩ := hplan
      have hor : c = name ∨ p c :=
        hmem.elim (fun hf => hassumption f hf c hc) fun hf => hgoal c (hf ▸ hc)
      rcases hor with rfl | hp
      · exact Or.inr ⟨_, rfl, by simp [planSkolems, hskolem]⟩
      · exact Or.inl hp

/-- What a step puts into the document mentions what the rule is given. -/
theorem mentions_of_yields {s : Situation} {rule : Rule} {step : Step}
    (h : Yields (.naming p skolem) s rule step) (cites : List ItemId) :
    ∀ item ∈ stepItems rule cites step, Mentions p item := by
  have hpremises : ∀ {ps : List Premise}, (∀ q ∈ ps, q.Speaks (.naming p skolem)) →
      ∀ item ∈ ps.flatMap premiseItems, Mentions p item := by
    intro ps hps item hitem
    obtain ⟨q, hq, hitem⟩ := List.mem_flatMap.1 hitem
    exact mentions_of_speaks (hps q hq) item hitem
  cases h with
  | derive _ _ hf hps =>
    intro item hitem
    rcases List.mem_append.1 hitem with hitem | hitem
    · exact hpremises hps item hitem
    · obtain rfl := List.mem_singleton.1 hitem
      refine ⟨fun g hg => ?_, by simp⟩
      obtain rfl := Option.some.inj hg
      exact hf
  | justify _ _ hps => exact hpremises hps

/-! ### Running a rule -/

variable {d e : Document} {selection : Selection} {input : Option Input} {settings : Settings}
  {rule : Rule} {outcome : Outcome}

/-- A rule that is given constants satisfying `p` changes nothing, or it inserts items that mention no
others and brings the document in order. -/
theorem Coherent.run_mentions (h : Coherent (fun _ _ => True) d) (hsel : d.Selects selection)
    (hline : ∀ {id f}, id = selection.target ∨ id ∈ selection.cites → d.formula? id = some f →
      ∀ c ∈ f.constants, p c)
    (hinput : ∀ i ∈ input, ∀ c ∈ i.constants, p c)
    (hrun : d.run settings rule selection input = .ok (outcome, e)) :
    e = d ∨ ∃ mid items, Inserts (fun _ _ => True) (fun _ _ => True) selection.target d mid items ∧
      (∀ item ∈ items, Mentions p item) ∧ Tidies (fun _ _ => True) mid e := by
  have hfits : (Vocabulary.naming p d.signature.nextSkolem).Fits (fun _ _ => True)
      (fun _ _ => True) d :=
    ⟨rfl, fun _ => trivial, fun _ => trivial, fun _ _ _ => trivial⟩
  have hoffers : Offers (.naming p d.signature.nextSkolem) d selection input :=
    ⟨hline, fun i hi => Input.speaks_naming.2 (hinput i hi)⟩
  obtain ⟨-, -, rfl⟩ | ⟨-, -, s, step, cites, mid, hs, hstep, hinserts, htidies⟩ :=
    h.run_cases hfits (fun _ => trivial) hsel hoffers hrun
  · exact Or.inl rfl
  · have hyields := rule.handler_yields (hoffers.speaks rfl hs) hstep
    exact Or.inr ⟨mid, _, hinserts, mentions_of_yields hyields cites, htidies⟩

/-- A rule keeps every Skolem constant with its box, and the constant of a new box was not known. -/
theorem Coherent.run_owned (h : Coherent (fun _ _ => True) d) (howned : d.Owned)
    (hsel : d.Selects selection) (hrun : d.run settings rule selection input = .ok (outcome, e)) :
    e.Owned ∧ ∀ {box c}, c ∈ e.skolemsOf box → c ∉ d.skolemsOf box → c ∉ d.signature.constants := by
  obtain rfl | ⟨mid, items, hinserts, -, htidies⟩ :=
    h.run_mentions hsel (fun _ _ _ _ => trivial) (fun _ _ _ _ => trivial) hrun
  · exact ⟨howned, fun hnew hold => absurd hnew hold⟩
  · refine ⟨htidies.owned (hinserts.edits.coherent h) (hinserts.owned h howned),
      fun hnew hold => hinserts.unknown ?_ hold⟩
    rwa [← Edits.skolemsOf_eq htidies.edits]

/-- A rule keeps a document confined if the constants of its answer are seen at its target. -/
theorem Coherent.run_confined (h : Coherent (fun _ _ => True) d) (hconfined : d.Confined)
    (hsel : d.Selects selection)
    (hinput : ∀ i ∈ input, ∀ c ∈ i.constants, d.Seen selection.target c)
    (hrun : d.run settings rule selection input = .ok (outcome, e)) : e.Confined := by
  have hline : ∀ {id f}, id = selection.target ∨ id ∈ selection.cites → d.formula? id = some f →
      ∀ c ∈ f.constants, d.Seen selection.target c := by
    intro id f hid hf c hc
    rcases hid with rfl | hid
    · exact hconfined ((h.linked.mem_lines_iff h.rooted).1 hsel.target_line).1 hf hc
    · -- a cited line is seen from the target, so all boxes around it are around the target
      have hvisible := hsel.visible id hid
      obtain ⟨hknown, henclosed⟩ := hconfined (hvisible.isLinked h.linked) hf hc
      refine ⟨hknown, fun hskolem => ?_⟩
      obtain ⟨box, hbox, hin⟩ := henclosed hskolem
      exact ⟨box, hbox, hvisible.within h.linked hin⟩
  obtain rfl | ⟨mid, items, hinserts, hmentions, htidies⟩ := h.run_mentions hsel hline hinput hrun
  · exact hconfined
  · exact htidies.confined (hinserts.edits.coherent h) (hinserts.confined h hmentions hconfined)

end Document
end NaturalDeduction
