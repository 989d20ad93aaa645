import NaturalDeduction.Proofs.Document.Completion
import NaturalDeduction.Proofs.Inference.Handlers

/-!
# Rules edit the document

Whatever a rule decides in a coherent document, carrying the decision out is a sequence of edits.
The theorem is stated for any vocabulary that fits the document, so that it serves both for the shape
of documents, where all formulas are allowed, and for their meaning.
-/

set_option autoImplicit false

namespace NaturalDeduction

variable {W : Vocabulary} {d e : Document} {V : List Meaning → Formula → Prop}
  {P : Signature → Formula → Prop}

/-! ### Premises of the calculus -/

/-- The Skolem constant a premise introduces. -/
def Premise.skolem? : Premise → Option String
  | .box plan => plan.skolem
  | _ => none

/-- A premise that supplies a formula introduces no Skolem constant. -/
theorem Supplies.skolem? {cites : List CitedLine} {p : Premise} {f : Formula}
    (h : Supplies cites p f) : p.skolem? = none := by
  cases h <;> rfl

/-- The boxes of a distinction of cases introduce no Skolem constants. -/
theorem skolem?_of_mem_caseBoxes {goal : Formula} {cases : List Formula} {p : Premise}
    (h : p ∈ caseBoxes goal cases) : p.skolem? = none := by
  fun_induction caseBoxes goal cases with
  | case1 => simp at h
  | case2 case =>
    obtain rfl := List.mem_singleton.1 h
    rfl
  | case3 case cases _ ih =>
    rcases List.mem_cons.1 h with rfl | h
    · rfl
    · exact ih h

/-- Each of several premises that supply formulas supplies one. -/
theorem Supplies.of_mem {cites : List CitedLine} {ps : List Premise} {fs : List Formula}
    (h : List.Forall₂ (Supplies cites) ps fs) {p : Premise} (hp : p ∈ ps) :
    ∃ f, Supplies cites p f := by
  induction h with
  | nil => simp at hp
  | cons hq _ ih =>
    rcases List.mem_cons.1 hp with rfl | hp
    · exact ⟨_, hq⟩
    · exact ih hp

/-- Only the last premise of a rule introduces a Skolem constant. -/
theorem Derives.skolem?_eq_none {cites : List CitedLine} {rule : Rule} {ps : List Premise}
    {f : Formula} (h : Derives W cites rule ps f) : ∀ p ∈ ps.dropLast, p.skolem? = none := by
  cases h with
  | andIntro hps _ =>
    intro p hp
    obtain ⟨g, hg⟩ := Supplies.of_mem hps (List.dropLast_subset _ hp)
    exact hg.skolem?
  | orElim h _ =>
    intro p hp
    rcases List.mem_cons.1 (List.dropLast_subset _ hp) with rfl | hp
    · exact h.skolem?
    · exact skolem?_of_mem_caseBoxes hp
  | impliesElim h _ => simpa using h.skolem?
  | notElim h _ => simpa using h.skolem?
  | iffIntro h _ => simpa using h.skolem?
  | iffElimLeft h _ => simpa using h.skolem?
  | iffElimRight h _ => simpa using h.skolem?
  | existsElim h _ _ => simpa using h.skolem?
  | eqElim h _ _ _ _ => simpa using h.skolem?
  | _ => simp

/-- In each box of a distinction of cases something is assumed. -/
theorem exists_box_of_mem_caseBoxes {goal : Formula} {cases : List Formula} {p : Premise}
    (h : p ∈ caseBoxes goal cases) : ∃ plan, p = .box plan ∧ plan.assumption ≠ none := by
  fun_induction caseBoxes goal cases with
  | case1 => simp at h
  | case2 case => exact ⟨_, List.mem_singleton.1 h, by simp⟩
  | case3 case cases _ ih =>
    rcases List.mem_cons.1 h with rfl | h
    · exact ⟨_, rfl, by simp⟩
    · exact ih h

/-- A premise of a rule supplies a formula, or it is a box in which something is named or assumed. -/
theorem Derives.premise_cases {cites : List CitedLine} {rule : Rule} {ps : List Premise} {f : Formula}
    (h : Derives W cites rule ps f) {p : Premise} (hp : p ∈ ps) :
    (∃ g, Supplies cites p g) ∨
      ∃ plan, p = .box plan ∧ (plan.skolem ≠ none ∨ plan.assumption ≠ none) := by
  have hone : ∀ {q g}, Supplies cites q g → p ∈ [q] → ∃ g, Supplies cites p g := by
    intro q g hq hmem
    obtain rfl := List.mem_singleton.1 hmem
    exact ⟨g, hq⟩
  have htwo : ∀ {q r g k}, Supplies cites q g → Supplies cites r k → p ∈ [q, r] →
      ∃ g, Supplies cites p g := by
    intro q r g k hq hr hmem
    rcases List.mem_cons.1 hmem with rfl | hmem
    · exact ⟨g, hq⟩
    · exact hone hr hmem
  cases h with
  | andIntro hps _ => exact Or.inl (Supplies.of_mem hps hp)
  | orElim h _ =>
    rcases List.mem_cons.1 hp with rfl | hp
    · exact Or.inl ⟨_, h⟩
    · obtain ⟨plan, rfl, hplan⟩ := exists_box_of_mem_caseBoxes hp
      exact Or.inr ⟨plan, rfl, Or.inr hplan⟩
  | existsElim h _ _ =>
    rcases List.mem_cons.1 hp with rfl | hp
    · exact Or.inl ⟨_, h⟩
    · exact Or.inr ⟨_, List.mem_singleton.1 hp, by simp⟩
  | impliesIntro | notIntro | contradiction | forallIntro _ =>
    exact Or.inr ⟨_, List.mem_singleton.1 hp, by simp⟩
  | impliesElim hq hr | notElim hq hr | iffIntro hq hr | iffElimLeft hq hr | iffElimRight hq hr =>
    exact Or.inl (htwo hq hr hp)
  | eqElim hq hr _ _ _ => exact Or.inl (htwo hq hr hp)
  | tick h | notNotIntro h | notNotElim h | bottomElim h | eqSymm h => exact Or.inl (hone h hp)
  | andElim h _ | orIntro h _ => exact Or.inl (hone h hp)
  | existsIntroMatch h _ _ _ | existsIntro h _ _ _ => exact Or.inl (hone h hp)
  | forallElimMatch h _ _ _ | forallElim h _ _ _ => exact Or.inl (hone h hp)
  | topIntro | excludedMiddle | eqIntro => simp at hp

/-- A rule cites selected lines only. -/
theorem Derives.cite_mem {cites : List CitedLine} {rule : Rule} {ps : List Premise} {f : Formula}
    (h : Derives W cites rule ps f) {id : ItemId} (hid : Premise.cite id ∈ ps) :
    ∃ cited ∈ cites, cited.id = id := by
  rcases h.premise_cases hid with ⟨g, hg⟩ | ⟨plan, hplan, -⟩
  · cases hg with
    | @cite cited hmem => exact ⟨cited, hmem, rfl⟩
  · simp at hplan

/-- In a box that a rule plans, something is named or assumed. -/
theorem Derives.named_or_assumed {cites : List CitedLine} {rule : Rule} {ps : List Premise}
    {f : Formula} (h : Derives W cites rule ps f) {plan : BoxPlan} (hplan : .box plan ∈ ps) :
    plan.skolem ≠ none ∨ plan.assumption ≠ none := by
  rcases h.premise_cases hplan with ⟨g, hg⟩ | ⟨plan', hplan', hopens⟩
  · cases hg
  · obtain rfl := Premise.box.inj hplan'
    exact hopens

/-- In every box that a step plans something is named or assumed. -/
theorem Yields.named_or_assumed {s : Situation} {rule : Rule} {step : Step}
    (h : Yields W s rule step) {plan : BoxPlan} (hplan : .box plan ∈ step.premises) :
    plan.skolem ≠ none ∨ plan.assumption ≠ none := by
  cases h with
  | derive _ hf _ _ => exact hf.named_or_assumed hplan
  | justify _ hg _ => exact hg.named_or_assumed hplan

/-! ### Vocabularies that fit a document -/

/-- A vocabulary fits a document: its formulas may be written down there, and what the rules derive
in it is good. -/
structure Vocabulary.Fits (W : Vocabulary) (V : List Meaning → Formula → Prop)
    (P : Signature → Formula → Prop) (d : Document) : Prop where
  skolem : d.signature.nextSkolem = W.skolem
  formula : ∀ {f}, W.formula f → P d.signature f
  extended : ∀ {f}, W.extended f → P d.signature.freshSkolem.2 f
  sound : ∀ {cites rule ps f ms}, Derives W cites rule ps f →
    (∀ cited ∈ cites, d.meaning? cited.id = some (.formula cited.formula)) →
    ps.map (d.premiseMeaning?) = ms.map some → V ms f

/-- All formulas fit a document about whose formulas nothing is said. -/
theorem Vocabulary.all_fits (d : Document) :
    (Vocabulary.all d.signature.nextSkolem).Fits (fun _ _ => True) (fun _ _ => True) d :=
  ⟨rfl, fun _ => trivial, fun _ => trivial, fun _ _ _ => trivial⟩

namespace Document

open Relation

variable {target : ItemId}

/-- A plan without a Skolem constant brings no names. -/
theorem planSignature_none {sig : Signature} {plan : BoxPlan} (h : plan.skolem = none) :
    planSignature sig plan = sig := by
  simp [planSignature, h]

/-- The Skolem constant of a plan is taken from the signature. -/
theorem planSignature_some {sig : Signature} {plan : BoxPlan} {name : String}
    (h : plan.skolem = some name) : planSignature sig plan = sig.freshSkolem.2 := by
  simp [planSignature, h]

/-- A premise that introduces no Skolem constant leaves the signature. -/
theorem premiseSignature_of_skolem? {sig : Signature} {p : Premise} (h : p.skolem? = none) :
    premiseSignature sig p = sig := by
  cases p with
  | box plan => exact planSignature_none h
  | _ => rfl

/-- A premise in a vocabulary that fits can be placed. -/
theorem placeable_of_speaks (hW : W.Fits V P d) {p : Premise} (hp : p.Speaks W)
    (hcite : ∀ id, p = .cite id →
      d.Visible id target ∧ d.isGoal id = false ∧ ∃ m, d.meaning? id = some m) :
    Placeable P d target d.signature p := by
  cases p with
  | cite id => exact hcite id rfl
  | goal f => exact hW.formula hp
  | box plan =>
    have hplan : plan.Speaks W := hp
    unfold BoxPlan.Speaks at hplan
    cases hskolem : plan.skolem with
    | none =>
      simp only [hskolem] at hplan
      simp only [Placeable, planSignature_none hskolem]
      exact ⟨by simp [hskolem], fun f hf => hW.formula (hplan.1 f hf), hW.formula hplan.2⟩
    | some name =>
      simp only [hskolem] at hplan
      simp only [Placeable, planSignature_some hskolem]
      refine ⟨?_, fun f hf => hW.extended (hplan.2.1 f hf), hW.extended hplan.2.2⟩
      simp [hskolem, hplan.1, hW.skolem]

/-- Premises in a vocabulary that fits can be placed one after the other. -/
theorem allPlaceable_of_speaks (hW : W.Fits V P d) {ps : List Premise}
    (hps : ∀ p ∈ ps, p.Speaks W)
    (hcites : ∀ id, .cite id ∈ ps →
      d.Visible id target ∧ d.isGoal id = false ∧ ∃ m, d.meaning? id = some m)
    (hskolem : ∀ p ∈ ps.dropLast, p.skolem? = none) :
    AllPlaceable P d target d.signature ps := by
  induction ps with
  | nil => trivial
  | cons p ps ih =>
    refine ⟨placeable_of_speaks hW (hps p List.mem_cons_self)
      fun id hid => hcites id (hid ▸ List.mem_cons_self), ?_⟩
    cases ps with
    | nil => trivial
    | cons q ps =>
      rw [premiseSignature_of_skolem? (hskolem p (by simp))]
      exact ih (fun x hx => hps x (List.mem_cons_of_mem p hx))
        (fun id hid => hcites id (List.mem_cons_of_mem p hid))
        (fun x hx => hskolem x (by simp [hx]))

/-- A formula of the vocabulary can still be written down when the premises have been placed. -/
theorem formula_after_premises (hW : W.Fits V P d) {ps : List Premise} {f : Formula}
    (hf : W.formula f) (hskolem : ∀ p ∈ ps.dropLast, p.skolem? = none) :
    P (ps.foldl premiseSignature d.signature) f := by
  induction ps with
  | nil => exact hW.formula hf
  | cons p ps ih =>
    cases ps with
    | nil =>
      cases p with
      | box plan =>
        show P (planSignature d.signature plan) f
        cases hplan : plan.skolem with
        | none => rw [planSignature_none hplan]; exact hW.formula hf
        | some name => rw [planSignature_some hplan]; exact hW.extended (W.extend hf)
      | cite _ => exact hW.formula hf
      | goal _ => exact hW.formula hf
    | cons q ps =>
      rw [List.foldl_cons, premiseSignature_of_skolem? (hskolem p (by simp))]
      exact ih fun x hx => hskolem x (by simp [hx])

/-! ### What a rule sees -/

/-- A line is cited with its formula. -/
theorem citedLine_eq_ok {id : ItemId} {cited : CitedLine} (h : d.citedLine id = .ok cited) :
    cited.id = id ∧ d.formula? id = some cited.formula := by
  unfold citedLine at h
  split at h
  · rename_i f just number hkind
    obtain rfl := Except.ok.inj h
    exact ⟨rfl, by simp [formula?, line?, hkind]⟩
  · simp at h

/-- Lines are cited with their formulas. -/
theorem citedLines_eq_ok {ids : List ItemId} {cites : List CitedLine}
    (h : d.citedLines ids = .ok cites) :
    ∀ cited ∈ cites, cited.id ∈ ids ∧ d.formula? cited.id = some cited.formula := by
  induction ids generalizing cites with
  | nil =>
    obtain rfl := Except.ok.inj h
    simp
  | cons id ids ih =>
    rw [citedLines] at h
    obtain ⟨first, hfirst, h⟩ := bind_eq_ok.1 h
    obtain ⟨rest, hrest, h⟩ := bind_eq_ok.1 h
    obtain rfl := Except.ok.inj h
    intro cited hcited
    rcases List.mem_cons.1 hcited with rfl | hcited
    · obtain ⟨rfl, hf⟩ := citedLine_eq_ok hfirst
      exact ⟨List.mem_cons_self, hf⟩
    · obtain ⟨hmem, hf⟩ := ih hrest cited hcited
      exact ⟨List.mem_cons_of_mem id hmem, hf⟩

/-- A rule sees the target, the next Skolem constant, and the selected lines with their formulas. -/
theorem situation_eq_ok {rule : Rule} {selection : Selection} {s : Situation}
    (h : d.situation rule selection = .ok s) :
    s.target = d.target selection.target ∧ s.nextSkolem = d.signature.nextSkolem ∧
      ∀ cited ∈ s.cites, cited.id ∈ selection.cites ∧
        d.formula? cited.id = some cited.formula := by
  unfold situation at h
  obtain ⟨cites, hcites, h⟩ := bind_eq_ok.1 h
  obtain rfl := Except.ok.inj h
  exact ⟨rfl, rfl, citedLines_eq_ok hcites⟩

/-- A target that counts as a goal is a goal. -/
theorem target_eq_goal {id : ItemId} {g : Formula} (h : d.target id = .goal g) :
    d.line? id = some (g, .goal) := by
  unfold target at h
  split at h
  · rename_i f just hline
    split at h
    · rename_i hgoal
      obtain rfl : f = g := by simpa using h
      cases just <;> simp [Justification.isGoal] at hgoal
      exact hline
    · simp at h
  · simp at h

/-- An open target that counts as a gap is an empty line. -/
theorem isEmptyLine_of_target {id : ItemId} (hopen : d.isOpen id = true) (h : d.target id = .gap) :
    d.isEmptyLine id = true := by
  rw [isOpen, Bool.or_eq_true] at hopen
  refine hopen.resolve_right fun hgoal => ?_
  unfold target at h
  unfold isGoal at hgoal
  split at h
  · rename_i f just hline
    rw [hline] at hgoal
    simp [hgoal] at h
  · rename_i hline
    simp [hline] at hgoal

/-! ### Running a rule -/

/-- What a rule is given stays in a vocabulary: the formulas of the selected lines and the answer. -/
structure Offers (W : Vocabulary) (d : Document) (selection : Selection) (input : Option Input) :
    Prop where
  line : ∀ {id f}, id = selection.target ∨ id ∈ selection.cites → d.formula? id = some f →
    W.formula f
  input : ∀ i ∈ input, i.Speaks W

/-- A document and an answer that stay in a vocabulary let a rule see no more than it. -/
theorem Offers.speaks {selection : Selection} {input : Option Input}
    (h : Offers W d selection input) (hskolem : d.signature.nextSkolem = W.skolem) {rule : Rule}
    {s : Situation} (hs : d.situation rule selection = .ok s) : s.Speaks W input := by
  obtain ⟨htarget, hnext, hcites⟩ := situation_eq_ok hs
  refine ⟨hnext.trans hskolem, fun cited hcited => ?_, fun hgoal => ?_, h.input⟩
  · obtain ⟨hmem, hf⟩ := hcites cited hcited
    exact h.line (Or.inr hmem) hf
  · have hline := target_eq_goal (htarget.symm.trans hgoal)
    exact h.line (Or.inl rfl) (by simp [formula?, hline])

/-- Every premise whose cited item has a meaning has one. -/
theorem exists_premiseMeanings {ps : List Premise}
    (h : ∀ id, .cite id ∈ ps → ∃ m, d.meaning? id = some m) :
    ∃ ms : List Meaning, ps.map (premiseMeaning? d) = ms.map some := by
  induction ps with
  | nil => exact ⟨[], rfl⟩
  | cons p ps ih =>
    obtain ⟨ms, hms⟩ := ih fun id hid => h id (List.mem_cons_of_mem p hid)
    obtain ⟨m, hm⟩ : ∃ m, premiseMeaning? d p = some m := by
      cases p with
      | cite id => exact h id List.mem_cons_self
      | goal f => exact ⟨_, rfl⟩
      | box plan => exact ⟨_, rfl⟩
    exact ⟨m :: ms, by simp [hm, hms]⟩

/-- A step that a rule comes to by the calculus is carried out. -/
theorem Coherent.step_spliced (h : Coherent V d) (hW : W.Fits V P d) {selection : Selection}
    (hsel : d.Selects selection) {input : Option Input} (hoffers : Offers W d selection input)
    {rule : Rule} {s : Situation} (hs : d.situation rule selection = .ok s) {step : Step}
    (hstep : Yields W s rule step) :
    ∃ cites mid e, d.splice rule selection.target step = .ok e ∧
      Spliced V P rule selection.target step d cites mid e := by
  obtain ⟨htarget, -, hcited⟩ := situation_eq_ok hs
  have hmeaning : ∀ cited ∈ s.cites, d.meaning? cited.id = some (.formula cited.formula) := by
    intro cited hmem
    obtain ⟨⟨f, just⟩, hline, rfl⟩ := Option.map_eq_some_iff.1 (hcited cited hmem).2
    exact meaning?_of_line hline
  obtain ⟨box, hbox⟩ : ∃ box, selection.target ∈ d.children box := by
    obtain ⟨hwithin, -⟩ := h.linked.mem_linesUnder_iff.1 hsel.target_line
    obtain ⟨box, hbox, -⟩ := Relation.TransGen.head'_iff.1 hwithin
    exact ⟨box, h.linked.standsIn_iff.1 hbox⟩
  obtain ⟨xs, ys, hrow⟩ := List.append_of_mem hbox
  -- both kinds of steps rest on premises of the calculus
  have hspliced : ∀ {ps f}, step.premises = ps → Derives W s.cites rule ps f →
      (∀ p ∈ ps, p.Speaks W) → W.formula f → d.Concludes selection.target f step →
      ∃ cites mid e, d.splice rule selection.target step = .ok e ∧
        Spliced V P rule selection.target step d cites mid e := by
    rintro ps f rfl hderives hspeaks hf hconcludes
    have hcites : ∀ id, .cite id ∈ step.premises →
        d.Visible id selection.target ∧ d.isGoal id = false ∧ ∃ m, d.meaning? id = some m := by
      intro id hid
      obtain ⟨cited, hmem, rfl⟩ := hderives.cite_mem hid
      have hid := (hcited cited hmem).1
      exact ⟨hsel.visible _ hid, hsel.proved _ hid, _, hmeaning cited hmem⟩
    obtain ⟨ms, hms⟩ := exists_premiseMeanings fun id hid => (hcites id hid).2.2
    exact h.splice_spliced hrow hsel.target_open hconcludes
      (allPlaceable_of_speaks hW hspeaks hcites hderives.skolem?_eq_none) hms
      (hW.sound hderives hmeaning hms) (formula_after_premises hW hf hderives.skolem?_eq_none)
  cases hstep with
  | derive hgap hf hspeaks hps =>
    have hempty := isEmptyLine_of_target hsel.target_open (htarget.symm.trans hgap)
    exact hspliced rfl hf hps hspeaks ⟨hempty, rfl⟩
  | @justify g _ hgoal hg hps =>
    have hline := target_eq_goal (htarget.symm.trans hgoal)
    exact hspliced rfl hg hps (hoffers.line (Or.inl rfl) (by simp [formula?, hline])) hline

/-- A coherent document is brought in order by moves, and numbered. -/
theorem Coherent.settle_moves (h : Coherent V d) (htick : ∀ f, V [.formula f] f)
    (settings : Settings) :
    ∃ e, d.settle settings = .ok e ∧ Moves (fun _ => True) d e ∧ e.Numbered := by
  unfold settle
  by_cases hauto : settings.autoComplete = true
  · obtain ⟨complete, e, hok, hmoves, hnum, -⟩ := h.refresh_moves htick
    exact ⟨e, by simp [hauto, hok, bind, Except.bind, pure, Except.pure], hmoves, hnum⟩
  · obtain ⟨hmove, hnum⟩ := h.renumber_move
    exact ⟨d.renumber, by simp [hauto, pure, Except.pure], .single hmove trivial, hnum⟩

/-- Bringing a coherent document in order adds nothing to it. -/
theorem Coherent.settle_tidies (h : Coherent V d) (htick : ∀ f, V [.formula f] f)
    (settings : Settings) : ∃ e, d.settle settings = .ok e ∧ Tidies V d e ∧ e.Numbered := by
  obtain ⟨e, hok, hmoves, hnum⟩ := h.settle_moves htick settings
  exact ⟨e, hok, hmoves.tidies htick, hnum⟩

/-- A rule that runs on a good selection asks and leaves the document as it was, or it comes to a
step: the step is put into the document, and then the document is brought in order. -/
theorem Coherent.run_spliced (h : Coherent V d) (hW : W.Fits V P d) (htick : ∀ f, V [.formula f] f)
    {selection : Selection} (hsel : d.Selects selection) {input : Option Input}
    (hoffers : Offers W d selection input) {settings : Settings} {rule : Rule} {outcome : Outcome}
    (hrun : d.run settings rule selection input = .ok (outcome, e)) :
    (∃ request, outcome = .needsInput { rule, selection, request } ∧ e = d) ∨
      outcome = .done ∧ ∃ s step cites mid spliced,
        d.situation rule selection = .ok s ∧ rule.handler s input = .ok (.apply step) ∧
        d.splice rule selection.target step = .ok spliced ∧
        Spliced V P rule selection.target step d cites mid spliced ∧
        spliced.settle settings = .ok e := by
  unfold run at hrun
  obtain ⟨s, hs, hrun⟩ := bind_eq_ok.1 hrun
  obtain ⟨action, haction, hrun⟩ := bind_eq_ok.1 hrun
  have hs' := Refusal.lift_eq_ok.1 hs
  cases action with
  | ask request =>
    obtain ⟨rfl, rfl⟩ := Prod.mk.inj (Except.ok.inj hrun)
    exact Or.inl ⟨request, rfl, rfl⟩
  | apply step =>
    have hyields := rule.handler_yields (hoffers.speaks hW.skolem hs') haction
    obtain ⟨cites, mid, spliced, hsplice, hspliced⟩ := h.step_spliced hW hsel hoffers hs' hyields
    obtain ⟨settled, hsettle, -, -⟩ := (hspliced.coherent h).settle_tidies htick settings
    simp only [hsplice, hsettle, Refusal.lift, bind, Except.bind] at hrun
    obtain ⟨rfl, rfl⟩ := Prod.mk.inj (Except.ok.inj hrun)
    exact Or.inr ⟨rfl, s, step, cites, mid, spliced, hs', haction, hsplice, hspliced, hsettle⟩

/-- A rule that runs on a good selection asks and leaves the document as it was, or it comes to a
step: the items of the step are inserted before the target, and then nothing else comes in. -/
theorem Coherent.run_cases (h : Coherent V d) (hW : W.Fits V P d) (htick : ∀ f, V [.formula f] f)
    {selection : Selection} (hsel : d.Selects selection) {input : Option Input}
    (hoffers : Offers W d selection input) {settings : Settings} {rule : Rule} {outcome : Outcome}
    (hrun : d.run settings rule selection input = .ok (outcome, e)) :
    (∃ request, outcome = .needsInput { rule, selection, request } ∧ e = d) ∨
      outcome = .done ∧ e.Numbered ∧ ∃ s step cites mid,
        d.situation rule selection = .ok s ∧ rule.handler s input = .ok (.apply step) ∧
        Inserts V P selection.target d mid (stepItems rule cites step) ∧ Tidies V mid e := by
  obtain hasks | ⟨rfl, s, step, cites, mid, spliced, hs, haction, -, hspliced, hsettle⟩ :=
    h.run_spliced hW htick hsel hoffers hrun
  · exact Or.inl hasks
  · obtain ⟨mid', hinserts, htidies⟩ := hspliced.inserts_tidies
    obtain ⟨settled, hok, htidies', hnum⟩ := (hspliced.coherent h).settle_tidies htick settings
    obtain rfl : settled = e := Except.ok.inj (hok.symm.trans hsettle)
    exact Or.inr ⟨rfl, hnum, s, step, cites, mid', hs, haction, hinserts, htidies.trans htidies'⟩

/-- A rule that runs on a good selection edits the document, or asks and leaves it as it was. -/
theorem Coherent.run_edits (h : Coherent V d) (hnum : d.Numbered) (hW : W.Fits V P d)
    (htick : ∀ f, V [.formula f] f) {selection : Selection} (hsel : d.Selects selection)
    {input : Option Input} (hoffers : Offers W d selection input) {settings : Settings}
    {rule : Rule} {outcome : Outcome}
    (hrun : d.run settings rule selection input = .ok (outcome, e)) :
    Edits V P d e ∧ e.Numbered ∧
      ∀ pending, outcome = .needsInput pending → pending.selection = selection ∧ e = d := by
  obtain ⟨request, rfl, rfl⟩ | ⟨rfl, hnum', s, step, cites, mid, -, -, hinserts, htidies⟩ :=
    h.run_cases hW htick hsel hoffers hrun
  · refine ⟨.refl, hnum, fun pending hpending => ?_⟩
    obtain rfl := Outcome.needsInput.inj hpending
    exact ⟨rfl, rfl⟩
  · exact ⟨hinserts.edits.trans htidies.editsOf, hnum', by simp⟩

end Document
end NaturalDeduction
