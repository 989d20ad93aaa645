import NaturalDeduction.Proofs.Inference.Calculus
import NaturalDeduction.Proofs.Document.Scope

/-!
# The rules follow the calculus

Whatever a rule decides to do, the step is one of the calculus: the premises of the step are among
those from which `Derives` concludes the formula, cited lines are lines that were selected, and
nothing leaves the vocabulary of the situation.  There is one theorem for each rule, in the order of
the rules, and `Rule.handler_yields` puts them together.
-/

set_option autoImplicit false

namespace NaturalDeduction

variable {W : Vocabulary} {s : Situation} {input : Option Input} {step : Step}

/-! ### Decisions and refusals -/

/-- Deriving a formula decides on this step. -/
@[simp] theorem derive_eq_apply {f : Formula} {ps : List Premise} :
    derive f ps = .ok (.apply step) ↔ step = .derive f ps := by
  simp [derive, eq_comm]

/-- Justifying the goal decides on this step. -/
@[simp] theorem justify_eq_apply {ps : List Premise} :
    justify ps = .ok (.apply step) ↔ step = .justify ps := by
  simp [justify, eq_comm]

/-- Asking decides on no step. -/
@[simp] theorem ask_ne_apply {prompt : String} {kind : InputKind} :
    ask prompt kind ≠ .ok (.apply step) := by
  simp [ask]

/-- Asking for a choice decides on no step. -/
@[simp] theorem askWhich_ne_apply {prompt : String} {options : List Formula} :
    askWhich prompt options ≠ .ok (.apply step) := by
  simp [askWhich]

/-- Asking for terms decides on no step. -/
@[simp] theorem askTerms_ne_apply {vars : List String} : askTerms vars ≠ .ok (.apply step) := by
  simp [askTerms]

/-- A mismatch decides nothing. -/
@[simp] theorem reject_ne_ok {α : Type} {mismatch : Mismatch} {a : α} :
    s.reject mismatch ≠ .ok a := by
  simp [Situation.reject]

/-- A formula of the wrong shape decides nothing. -/
@[simp] theorem rejectShape_ne_ok {α : Type} {subject : Subject} {expected : Expectation} {a : α} :
    s.rejectShape subject expected ≠ .ok a := by
  simp [Situation.rejectShape]

/-- A wrong number of citations decides nothing. -/
@[simp] theorem wrongCount_ne_ok {α : Type} {expected : CiteCount} {a : α} :
    s.wrongCount expected ≠ .ok a := by
  simp [Situation.wrongCount]

/-- The line that is found is cited. -/
theorem theCite_eq_ok {cited : CitedLine} (h : s.theCite = .ok cited) : cited ∈ s.cites := by
  unfold Situation.theCite at h
  split at h
  · rename_i c hc
    obtain rfl := Except.ok.inj h
    simp [hc]
  · exact absurd h wrongCount_ne_ok

/-- The line that is found where one may be cited is cited. -/
theorem cite?_eq_ok {cited : CitedLine} (h : s.cite? = .ok (some cited)) : cited ∈ s.cites := by
  unfold Situation.cite? at h
  split at h
  · simp at h
  · rename_i c hc
    obtain rfl : c = cited := by simpa using h
    simp [hc]
  · exact absurd h wrongCount_ne_ok

/-- The formula of an answer stays in the vocabulary of the answer. -/
theorem toFormula_eq_ok {i : Input} {f : Formula} (h : i.toFormula = .ok f) (hi : i.Speaks W) :
    W.formula f := by
  cases i with
  | formula g =>
    obtain rfl := Except.ok.inj h
    exact hi
  | choice _ => simp [Input.toFormula] at h
  | terms _ => simp [Input.toFormula] at h

/-- A choice is one of the options. -/
theorem toOption_eq_ok {i : Input} {options : List Formula} {f : Formula}
    (h : i.toOption options = .ok f) : f ∈ options := by
  cases i with
  | choice index =>
    simp only [Input.toOption] at h
    split at h
    · rename_i g hg
      obtain rfl := Except.ok.inj h
      exact List.mem_of_getElem? hg
    · simp at h
  | formula _ => simp [Input.toOption] at h
  | terms _ => simp [Input.toOption] at h

/-- The terms of an answer stay in the vocabulary of the answer. -/
theorem toTerms_eq_ok {i : Input} {ts : List Term} (h : i.toTerms = .ok ts) (hi : i.Speaks W) :
    ∀ t ∈ ts, W.term t := by
  cases i with
  | terms us =>
    obtain rfl := Except.ok.inj h
    exact hi
  | choice _ => simp [Input.toTerms] at h
  | formula _ => simp [Input.toTerms] at h

/-! ### Premises -/

/-- A formula is supplied by a line that has it, or as a goal. -/
theorem supplies_citedOrGoal (s : Situation) (f : Formula) :
    Supplies s.cites (s.citedOrGoal f) f := by
  unfold Situation.citedOrGoal
  split
  · rename_i cited hfind
    have hf : cited.formula = f := by simpa using List.find?_some hfind
    exact hf ▸ .cite (List.mem_of_find?_eq_some hfind)
  · exact .goal f

/-- A premise for a formula of the vocabulary stays in it. -/
theorem speaks_citedOrGoal {f : Formula} (hf : W.formula f) : (s.citedOrGoal f).Speaks W := by
  unfold Situation.citedOrGoal
  split
  · trivial
  · exact hf

/-- The cited lines supply their formulas. -/
theorem supplies_allCites (s : Situation) :
    List.Forall₂ (Supplies s.cites) s.allCites (s.cites.map CitedLine.formula) := by
  have hall : ∀ cs : List CitedLine, (∀ c ∈ cs, c ∈ s.cites) →
      List.Forall₂ (Supplies s.cites) (cs.map CitedLine.premise) (cs.map CitedLine.formula) := by
    intro cs
    induction cs with
    | nil => intro _; exact .nil
    | cons c cs ih =>
      intro hcs
      exact .cons (.cite (hcs c List.mem_cons_self)) (ih fun x hx => hcs x (List.mem_cons_of_mem c hx))
  exact hall s.cites fun _ hc => hc

/-- A situation cites two lines and no others, in some order. -/
def Situation.CitesBoth (s : Situation) (x y : CitedLine) : Prop :=
  s.cites = [x, y] ∨ s.cites = [y, x]

/-- The two cited lines are in the relation, in the order in which they were taken. -/
theorem citesBoth_of_pair? {α : Type} {f : Formula → Formula → Option α} {result : α}
    {ps : List Premise} (h : s.pair? f = some (result, ps)) :
    ∃ x y, s.CitesBoth x y ∧ f x.formula y.formula = some result ∧
      ps = [x.premise, y.premise] := by
  unfold Situation.pair? at h
  split at h
  · rename_i x y hcites
    split at h
    · rename_i r hr
      obtain ⟨rfl, rfl⟩ : r = result ∧ [x.premise, y.premise] = ps := by simpa using h
      exact ⟨x, y, Or.inl hcites, hr, rfl⟩
    · obtain ⟨r, hr, heq⟩ := Option.map_eq_some_iff.1 h
      obtain ⟨rfl, rfl⟩ := Prod.mk.inj heq
      exact ⟨y, x, Or.inr hcites, hr, rfl⟩
  · simp at h

/-- Two cited lines that are in a relation, in the order in which they are. -/
theorem pair?_eq_some {α : Type} {f : Formula → Formula → Option α} {result : α}
    {ps : List Premise} (h : s.pair? f = some (result, ps)) :
    ∃ x ∈ s.cites, ∃ y ∈ s.cites, f x.formula y.formula = some result ∧
      ps = [x.premise, y.premise] := by
  obtain ⟨x, y, hcites, hxy, rfl⟩ := citesBoth_of_pair? h
  refine ⟨x, ?_, y, ?_, hxy, rfl⟩
  all_goals rcases hcites with hcites | hcites <;> simp [hcites]

/-- Two cited lines bring no formulas into a step. -/
theorem speaks_pair {x y : CitedLine} : ∀ p ∈ [x.premise, y.premise], p.Speaks W := by
  simp [CitedLine.premise, Premise.Speaks]

/-- A cited line brings no formula into a step. -/
theorem speaks_cite {cited : CitedLine} : ∀ p ∈ [cited.premise], p.Speaks W := by
  simp [CitedLine.premise, Premise.Speaks]

/-- No premises bring no formulas into a step. -/
theorem speaks_nil : ∀ p ∈ ([] : List Premise), p.Speaks W := by simp

/-! ### Conjunction -/

/-- Conjunction introduction comes to a conjunction of its premises. -/
theorem andIntro_yields (hs : s.Speaks W input) (h : andIntro s input = .ok (.apply step)) :
    Yields W s .andIntro step := by
  unfold andIntro at h
  cases htarget : s.target with
  | gap =>
    simp only [htarget] at h
    obtain ⟨_, -, h⟩ := bind_eq_ok.1 h
    split at h
    · rename_i f hchain
      obtain rfl := derive_eq_apply.1 h
      have hjoins := joins_chain? hchain
      refine .derive htarget (.andIntro (supplies_allCites s) hjoins) ?_ ?_
      · rw [W.joins hjoins, List.forall_mem_map]
        exact hs.cites
      · intro p hp
        obtain ⟨c, -, rfl⟩ := List.mem_map.1 hp
        trivial
    · cases h
  | goal g =>
    simp only [htarget] at h
    split at h
    · exact absurd h rejectShape_ne_ok
    · rename_i left right hsides
      obtain rfl := sides?_eq_some hsides
      split at h
      · exact absurd h rejectShape_ne_ok
      · obtain rfl := justify_eq_apply.1 h
        have hjoins : Joins .and (conjuncts s (.binary .and left right) left right)
            (.binary .and left right) := by
          unfold conjuncts
          split
          · exact joins_sides _ _ _
          · exact joins_flatten _ _
        have hparts := (W.joins hjoins).1 (hs.target htarget)
        refine .justify htarget (.andIntro ?_ hjoins) ?_
        · rw [List.forall₂_map_left_iff]
          exact List.forall₂_same.2 fun f _ => supplies_citedOrGoal s f
        · intro p hp
          obtain ⟨f, hf, rfl⟩ := List.mem_map.1 hp
          exact speaks_citedOrGoal (hparts f hf)

/-- Conjunction elimination comes to a part of its premise. -/
theorem andElim_yields (hs : s.Speaks W input) (h : andElim s input = .ok (.apply step)) :
    Yields W s .andElim step := by
  unfold andElim at h
  obtain ⟨cited, hcited, h⟩ := bind_eq_ok.1 h
  have hmem := theCite_eq_ok hcited
  by_cases hlen : (cited.formula.operands .and).length < 2
  · rw [if_pos hlen] at h
    exact absurd h rejectShape_ne_ok
  · rw [if_neg hlen] at h
    cases htarget : s.target with
    | gap =>
      cases input with
      | none =>
        simp only [htarget] at h
        exact absurd h askWhich_ne_apply
      | some i =>
        simp only [htarget] at h
        obtain ⟨g, hg, h⟩ := bind_eq_ok.1 h
        obtain rfl := derive_eq_apply.1 h
        have hpart := partOf_operands (toOption_eq_ok hg)
        exact .derive htarget (.andElim (.cite hmem) hpart) (W.partOf hpart (hs.cites _ hmem))
          speaks_cite
    | goal g =>
      simp only [htarget] at h
      split at h
      · rename_i hg
        obtain rfl := justify_eq_apply.1 h
        exact .justify htarget (.andElim (.cite hmem) (partOf_operands hg)) speaks_cite
      · exact absurd h rejectShape_ne_ok

/-! ### Disjunction -/

/-- Disjunction introduction comes to a disjunction that its premise is a part of. -/
theorem orIntro_yields (hs : s.Speaks W input) (h : orIntro s input = .ok (.apply step)) :
    Yields W s .orIntro step := by
  unfold orIntro at h
  cases htarget : s.target with
  | gap =>
    simp only [htarget] at h
    obtain ⟨cited, hcited, h⟩ := bind_eq_ok.1 h
    have hmem := theCite_eq_ok hcited
    cases input with
    | none => exact absurd h ask_ne_apply
    | some i =>
      obtain ⟨f, hf, h⟩ := bind_eq_ok.1 h
      split at h
      · exact absurd h rejectShape_ne_ok
      · rename_i hcond
        obtain rfl := derive_eq_apply.1 h
        have hpart : cited.formula ∈ f.operands .or := by
          by_contra hnot
          exact hcond (by simp [hnot])
        exact .derive htarget (.orIntro (.cite hmem) (partOf_operands hpart))
          (toFormula_eq_ok hf (hs.input i rfl)) speaks_cite
  | goal g =>
    simp only [htarget] at h
    split at h
    · exact absurd h rejectShape_ne_ok
    · obtain ⟨cited?, hcited, h⟩ := bind_eq_ok.1 h
      cases cited? with
      | some cited =>
        simp only [] at h
        split at h
        · rename_i hpart
          obtain rfl := justify_eq_apply.1 h
          exact .justify htarget (.orIntro (.cite (cite?_eq_ok hcited)) (partOf_operands hpart))
            speaks_cite
        · exact absurd h rejectShape_ne_ok
      | none =>
        cases input with
        | none => exact absurd h askWhich_ne_apply
        | some i =>
          obtain ⟨f, hf, h⟩ := bind_eq_ok.1 h
          obtain rfl := justify_eq_apply.1 h
          have hpart := partOf_operands (toOption_eq_ok hf)
          refine .justify htarget (.orIntro (.goal f) hpart) ?_
          simpa [Premise.Speaks] using W.partOf hpart (hs.target htarget)

/-- A distinction of cases stays in the vocabulary of the goal and the cases. -/
theorem speaks_caseBoxes {goal : Formula} {cases : List Formula} (hgoal : W.formula goal)
    (hcases : ∀ f ∈ cases, W.formula f) : ∀ p ∈ caseBoxes goal cases, p.Speaks W := by
  fun_induction caseBoxes goal cases with
  | case1 => simp
  | case2 case =>
    intro p hp
    obtain rfl := List.mem_singleton.1 hp
    exact ⟨by simpa using hcases case (by simp), hgoal⟩
  | case3 case cases _ ih =>
    intro p hp
    rcases List.mem_cons.1 hp with rfl | hp
    · exact ⟨by simpa using hcases case (by simp), hgoal⟩
    · exact ih (fun f hf => hcases f (List.mem_cons_of_mem case hf)) p hp

/-- Disjunction elimination comes to what is proved in a box for each operand of the disjunction. -/
theorem orElim_yields (hs : s.Speaks W input) (h : orElim s input = .ok (.apply step)) :
    Yields W s .orElim step := by
  unfold orElim at h
  obtain ⟨cited?, hcited, h⟩ := bind_eq_ok.1 h
  cases cited? with
  | some cited =>
    have hmem := cite?_eq_ok hcited
    -- the cases are all operands of the disjunction, however it is bracketed
    have hjoins := joins_flatten .or cited.formula
    have hcases := (W.joins hjoins).1 (hs.cites _ hmem)
    simp only [] at h
    split at h
    · exact absurd h rejectShape_ne_ok
    · cases htarget : s.target with
      | gap =>
        cases input with
        | none =>
          simp only [htarget] at h
          exact absurd h ask_ne_apply
        | some i =>
          simp only [htarget] at h
          obtain ⟨f, hf, h⟩ := bind_eq_ok.1 h
          obtain rfl := derive_eq_apply.1 h
          have hspeaks := toFormula_eq_ok hf (hs.input i rfl)
          exact .derive htarget (.orElim (.cite hmem) hjoins) hspeaks
            (List.forall_mem_cons.2 ⟨trivial, speaks_caseBoxes hspeaks hcases⟩)
      | goal g =>
        simp only [htarget] at h
        obtain rfl := justify_eq_apply.1 h
        exact .justify htarget (.orElim (.cite hmem) hjoins)
          (List.forall_mem_cons.2 ⟨trivial, speaks_caseBoxes (hs.target htarget) hcases⟩)
  | none =>
    cases htarget : s.target with
    | gap =>
      simp only [htarget] at h
      exact absurd h wrongCount_ne_ok
    | goal g =>
      cases input with
      | none =>
        simp only [htarget] at h
        exact absurd h ask_ne_apply
      | some i =>
        simp only [htarget] at h
        obtain ⟨f, hf, h⟩ := bind_eq_ok.1 h
        split at h
        · exact absurd h rejectShape_ne_ok
        · obtain rfl := justify_eq_apply.1 h
          have hspeaks := toFormula_eq_ok hf (hs.input i rfl)
          have hjoins := joins_flatten .or f
          exact .justify htarget (.orElim (.goal f) hjoins)
            (List.forall_mem_cons.2 ⟨hspeaks,
              speaks_caseBoxes (hs.target htarget) ((W.joins hjoins).1 hspeaks)⟩)

/-- A negated formula is the one below the negation. -/
theorem negated?_eq_some {f g : Formula} (h : f.negated? = some g) : f = .neg g := by
  cases f with
  | neg body =>
    obtain rfl : body = g := by simpa [Formula.negated?] using h
    rfl
  | _ => simp [Formula.negated?] at h

/-- The law of excluded middle comes to a formula or its negation, without premises. -/
theorem excludedMiddle_yields (hs : s.Speaks W input)
    (h : excludedMiddle s input = .ok (.apply step)) : Yields W s .excludedMiddle step := by
  unfold excludedMiddle at h
  obtain ⟨_, -, h⟩ := bind_eq_ok.1 h
  cases htarget : s.target with
  | gap =>
    simp only [htarget] at h
    cases input with
    | none => exact absurd h ask_ne_apply
    | some i =>
      obtain ⟨f, hf, h⟩ := bind_eq_ok.1 h
      obtain rfl := derive_eq_apply.1 h
      have hspeaks := toFormula_eq_ok hf (hs.input i rfl)
      exact .derive htarget .excludedMiddle (W.binary.2 ⟨hspeaks, W.neg.2 hspeaks⟩) speaks_nil
  | goal g =>
    simp only [htarget] at h
    split at h
    · rename_i f opposite hsides
      split at h
      · rename_i hneg
        obtain rfl := justify_eq_apply.1 h
        obtain rfl := sides?_eq_some hsides
        obtain rfl := negated?_eq_some hneg
        exact .justify htarget .excludedMiddle speaks_nil
      · exact absurd h rejectShape_ne_ok
    · exact absurd h rejectShape_ne_ok

/-! ### Implication and equivalence -/

/-- A box that leads from an assumption to a goal. -/
theorem speaks_box {a b : Formula} (ha : W.formula a) (hb : W.formula b) :
    ∀ p ∈ [Premise.box { assumption := some a, goal := b }], p.Speaks W := by
  intro p hp
  obtain rfl := List.mem_singleton.1 hp
  exact ⟨by simpa using ha, hb⟩

/-- Implication introduction comes to an implication, with a box from its antecedent to its
consequent. -/
theorem impliesIntro_yields (hs : s.Speaks W input)
    (h : impliesIntro s input = .ok (.apply step)) : Yields W s .impliesIntro step := by
  unfold impliesIntro at h
  obtain ⟨_, -, h⟩ := bind_eq_ok.1 h
  cases htarget : s.target with
  | gap =>
    cases input with
    | none =>
      simp only [htarget] at h
      exact absurd h ask_ne_apply
    | some i =>
      simp only [htarget] at h
      obtain ⟨f, hf, h⟩ := bind_eq_ok.1 h
      have hspeaks := toFormula_eq_ok hf (hs.input i rfl)
      split at h
      · rename_i a b hsides
        obtain rfl := derive_eq_apply.1 h
        obtain rfl := sides?_eq_some hsides
        obtain ⟨ha, hb⟩ := W.binary.1 hspeaks
        exact .derive htarget .impliesIntro hspeaks (speaks_box ha hb)
      · exact absurd h rejectShape_ne_ok
  | goal g =>
    simp only [htarget] at h
    split at h
    · rename_i a b hsides
      obtain rfl := justify_eq_apply.1 h
      obtain rfl := sides?_eq_some hsides
      obtain ⟨ha, hb⟩ := W.binary.1 (hs.target htarget)
      exact .justify htarget .impliesIntro (speaks_box ha hb)
    · exact absurd h rejectShape_ne_ok

/-- Modus ponens is applied to an implication and its antecedent. -/
theorem modusPonens_eq_some {f a b : Formula} (h : modusPonens f a = some b) :
    f = .binary .implies a b := by
  unfold modusPonens at h
  split at h
  · rename_i a' b' hsides
    split at h
    · rename_i ha
      obtain rfl : b' = b := by simpa using h
      exact ha ▸ sides?_eq_some hsides
    · simp at h
  · simp at h

/-- Two cited lines of which the first is an implication and the second its antecedent. -/
theorem impliesElim_pair {x y : CitedLine} {b : Formula} (hx : x ∈ s.cites) (hy : y ∈ s.cites)
    (h : modusPonens x.formula y.formula = some b) :
    Derives W s.cites .impliesElim [x.premise, y.premise] b :=
  .impliesElim (modusPonens_eq_some h ▸ .cite hx) (.cite hy)

/-- Implication elimination comes to the consequent of an implication whose antecedent is supplied.
-/
theorem impliesElim_yields (hs : s.Speaks W input)
    (h : impliesElim s input = .ok (.apply step)) : Yields W s .impliesElim step := by
  unfold impliesElim at h
  cases htarget : s.target with
  | gap =>
    simp only [htarget] at h
    obtain ⟨_, -, h⟩ := bind_eq_ok.1 h
    split at h
    · rename_i f ps hpair
      obtain rfl := derive_eq_apply.1 h
      obtain ⟨x, hx, y, hy, hxy, rfl⟩ := pair?_eq_some hpair
      have hspeaks := hs.cites x hx
      rw [modusPonens_eq_some hxy] at hspeaks
      exact .derive htarget (impliesElim_pair hx hy hxy) (W.binary.1 hspeaks).2 speaks_pair
    · exact absurd h reject_ne_ok
  | goal g =>
    have hg := hs.target htarget
    simp only [htarget] at h
    split at h
    · cases input with
      | none => exact absurd h ask_ne_apply
      | some i =>
        obtain ⟨a, ha, h⟩ := bind_eq_ok.1 h
        obtain rfl := justify_eq_apply.1 h
        have hspeaks := toFormula_eq_ok ha (hs.input i rfl)
        refine .justify htarget (.impliesElim (.goal _) (.goal a)) ?_
        simpa [Premise.Speaks, W.binary] using ⟨⟨hspeaks, hg⟩, hspeaks⟩
    · rename_i cited hcites
      have hmem : cited ∈ s.cites := by simp [hcites]
      have hcited := hs.cites _ hmem
      -- the cited line is used as the antecedent
      have hminor : Yields W s .impliesElim
          (.justify [.goal (.binary .implies cited.formula g), cited.premise]) := by
        refine .justify htarget (.impliesElim (.goal _) (.cite hmem)) ?_
        simpa [Premise.Speaks, CitedLine.premise, W.binary] using ⟨hcited, hg⟩
      split at h
      · rename_i a b hsides
        split at h
        · rename_i hb
          obtain rfl := justify_eq_apply.1 h
          have hf := sides?_eq_some hsides
          rw [hb] at hf
          rw [hf] at hcited
          refine .justify htarget (.impliesElim (hf ▸ .cite hmem) (.goal a)) ?_
          simpa [Premise.Speaks, CitedLine.premise] using (W.binary.1 hcited).1
        · obtain rfl := justify_eq_apply.1 h
          exact hminor
      · obtain rfl := justify_eq_apply.1 h
        exact hminor
    · split at h
      · rename_i f ps hpair
        obtain rfl := justify_eq_apply.1 h
        obtain ⟨x, hx, y, hy, hxy, rfl⟩ := pair?_eq_some hpair
        obtain ⟨hxyf, hfg⟩ := Option.filter_eq_some_iff.1 hxy
        obtain rfl : f = g := by simpa using hfg
        exact .justify htarget (impliesElim_pair hx hy hxyf) speaks_pair
      · exact absurd h reject_ne_ok
    · exact absurd h wrongCount_ne_ok

/-- An equivalence is made of an implication and its converse. -/
theorem equivalenceOf_eq_some {f g e : Formula} (h : equivalenceOf f g = some e) :
    ∃ a b, f = .binary .implies a b ∧ g = .binary .implies b a ∧ e = .binary .iff a b := by
  unfold equivalenceOf at h
  split at h
  · rename_i a b hsides
    split at h
    · rename_i hconverse
      obtain rfl : .binary .iff a b = e := by simpa using h
      exact ⟨a, b, sides?_eq_some hsides, sides?_eq_some hconverse, rfl⟩
    · simp at h
  · simp at h

/-- Equivalence introduction comes to an equivalence both directions of which are supplied. -/
theorem iffIntro_yields (hs : s.Speaks W input) (h : iffIntro s input = .ok (.apply step)) :
    Yields W s .iffIntro step := by
  unfold iffIntro at h
  cases htarget : s.target with
  | gap =>
    simp only [htarget] at h
    obtain ⟨_, -, h⟩ := bind_eq_ok.1 h
    split at h
    · rename_i f ps hpair
      obtain rfl := derive_eq_apply.1 h
      obtain ⟨x, hx, y, hy, hxy, rfl⟩ := pair?_eq_some hpair
      obtain ⟨a, b, hxf, hyf, rfl⟩ := equivalenceOf_eq_some hxy
      have hspeaks := hs.cites x hx
      rw [hxf, W.binary] at hspeaks
      exact .derive htarget (.iffIntro (hxf ▸ .cite hx) (hyf ▸ .cite hy)) (W.binary.2 hspeaks)
        speaks_pair
    · exact absurd h reject_ne_ok
  | goal g =>
    simp only [htarget] at h
    split at h
    · exact absurd h rejectShape_ne_ok
    · rename_i a b hsides
      obtain rfl := sides?_eq_some hsides
      obtain ⟨_, -, h⟩ := bind_eq_ok.1 h
      split at h
      · exact absurd h rejectShape_ne_ok
      · obtain rfl := justify_eq_apply.1 h
        obtain ⟨ha, hb⟩ := W.binary.1 (hs.target htarget)
        refine .justify htarget
          (.iffIntro (supplies_citedOrGoal s _) (supplies_citedOrGoal s _)) ?_
        intro p hp
        rcases List.mem_cons.1 hp with rfl | hp
        · exact speaks_citedOrGoal (W.binary.2 ⟨ha, hb⟩)
        · obtain rfl := List.mem_singleton.1 hp
          exact speaks_citedOrGoal (W.binary.2 ⟨hb, ha⟩)

/-- The other side of an equivalence is the right or the left one. -/
theorem otherSide_eq_some {f g o : Formula} (h : otherSide f g = some o) :
    f = .binary .iff g o ∨ f = .binary .iff o g := by
  unfold otherSide at h
  split at h
  · rename_i a b hsides
    split at h
    · rename_i ha
      obtain rfl : b = o := by simpa using h
      exact Or.inl (ha ▸ sides?_eq_some hsides)
    · split at h
      · rename_i hb
        obtain rfl : a = o := by simpa using h
        exact Or.inr (hb ▸ sides?_eq_some hsides)
      · simp at h
  · simp at h

/-- Two cited lines of which the first is an equivalence and the second one of its sides. -/
theorem iffElim_pair {x y : CitedLine} {o : Formula} (hx : x ∈ s.cites) (hy : y ∈ s.cites)
    (h : otherSide x.formula y.formula = some o) :
    Derives W s.cites .iffElim [x.premise, y.premise] o := by
  rcases otherSide_eq_some h with hxf | hxf
  · exact .iffElimLeft (hxf ▸ .cite hx) (.cite hy)
  · exact .iffElimRight (hxf ▸ .cite hx) (.cite hy)

/-- Equivalence elimination comes to a side of an equivalence whose other side is supplied. -/
theorem iffElim_yields (hs : s.Speaks W input) (h : iffElim s input = .ok (.apply step)) :
    Yields W s .iffElim step := by
  unfold iffElim at h
  cases htarget : s.target with
  | gap =>
    simp only [htarget] at h
    obtain ⟨_, -, h⟩ := bind_eq_ok.1 h
    split at h
    · rename_i f ps hpair
      obtain rfl := derive_eq_apply.1 h
      obtain ⟨x, hx, y, hy, hxy, rfl⟩ := pair?_eq_some hpair
      have hspeaks := hs.cites x hx
      refine .derive htarget (iffElim_pair hx hy hxy) ?_ speaks_pair
      rcases otherSide_eq_some hxy with hxf | hxf
      · rw [hxf] at hspeaks
        exact (W.binary.1 hspeaks).2
      · rw [hxf] at hspeaks
        exact (W.binary.1 hspeaks).1
    · exact absurd h reject_ne_ok
  | goal g =>
    simp only [htarget] at h
    split at h
    · rename_i cited hcites
      have hmem : cited ∈ s.cites := by simp [hcites]
      have hcited := hs.cites _ hmem
      split at h
      · rename_i a b hsides
        have hf := sides?_eq_some hsides
        rw [hf] at hcited
        obtain ⟨ha, hb⟩ := W.binary.1 hcited
        split at h
        · -- the right side is asked for, which is looked at first
          rename_i hbg
          obtain rfl := justify_eq_apply.1 h
          rw [hbg] at hf
          refine .justify htarget (.iffElimLeft (hf ▸ .cite hmem) (.goal a)) ?_
          simpa [Premise.Speaks, CitedLine.premise] using ha
        · split at h
          · rename_i hag
            obtain rfl := justify_eq_apply.1 h
            rw [hag] at hf
            refine .justify htarget (.iffElimRight (hf ▸ .cite hmem) (.goal b)) ?_
            simpa [Premise.Speaks, CitedLine.premise] using hb
          · exact absurd h rejectShape_ne_ok
      · exact absurd h rejectShape_ne_ok
    · split at h
      · rename_i f ps hpair
        obtain rfl := justify_eq_apply.1 h
        obtain ⟨x, hx, y, hy, hxy, rfl⟩ := pair?_eq_some hpair
        obtain ⟨hxyf, hfg⟩ := Option.filter_eq_some_iff.1 hxy
        obtain rfl : f = g := by simpa using hfg
        exact .justify htarget (iffElim_pair hx hy hxyf) speaks_pair
      · exact absurd h reject_ne_ok
    · exact absurd h wrongCount_ne_ok

/-! ### Negation, truth and falsehood -/

/-- Repeating a line comes to its formula. -/
theorem tick_yields (hs : s.Speaks W input) (h : tick s input = .ok (.apply step)) :
    Yields W s .tick step := by
  unfold tick at h
  obtain ⟨cited, hcited, h⟩ := bind_eq_ok.1 h
  have hmem := theCite_eq_ok hcited
  cases htarget : s.target with
  | gap =>
    simp only [htarget] at h
    obtain rfl := derive_eq_apply.1 h
    exact .derive htarget (.tick (.cite hmem)) (hs.cites _ hmem) speaks_cite
  | goal g =>
    simp only [htarget] at h
    split at h
    · rename_i hg
      obtain rfl := justify_eq_apply.1 h
      exact .justify htarget (.tick (hg ▸ .cite hmem)) speaks_cite
    · exact absurd h rejectShape_ne_ok

/-- Truth introduction comes to truth, without premises. -/
theorem topIntro_yields (h : topIntro s input = .ok (.apply step)) :
    Yields W s .topIntro step := by
  unfold topIntro at h
  obtain ⟨_, -, h⟩ := bind_eq_ok.1 h
  cases htarget : s.target with
  | gap =>
    simp only [htarget] at h
    obtain rfl := derive_eq_apply.1 h
    exact .derive htarget .topIntro W.top speaks_nil
  | goal g =>
    simp only [htarget] at h
    split at h
    · rename_i hg
      obtain rfl := justify_eq_apply.1 h
      exact .justify htarget (hg ▸ .topIntro) speaks_nil
    · exact absurd h rejectShape_ne_ok

/-- Falsehood elimination comes to any formula, if falsehood is supplied. -/
theorem bottomElim_yields (hs : s.Speaks W input) (h : bottomElim s input = .ok (.apply step)) :
    Yields W s .bottomElim step := by
  unfold bottomElim at h
  cases htarget : s.target with
  | gap =>
    simp only [htarget] at h
    obtain ⟨cited, hcited, h⟩ := bind_eq_ok.1 h
    split at h
    · exact absurd h rejectShape_ne_ok
    · rename_i hbottom
      have hf := not_not.1 hbottom
      cases input with
      | none => exact absurd h ask_ne_apply
      | some i =>
        obtain ⟨f, hfi, h⟩ := bind_eq_ok.1 h
        obtain rfl := derive_eq_apply.1 h
        exact .derive htarget (.bottomElim (hf ▸ .cite (theCite_eq_ok hcited)))
          (toFormula_eq_ok hfi (hs.input i rfl)) speaks_cite
  | goal g =>
    simp only [htarget] at h
    obtain ⟨cited?, hcited, h⟩ := bind_eq_ok.1 h
    cases cited? with
    | some cited =>
      simp only [] at h
      split at h
      · rename_i hf
        obtain rfl := justify_eq_apply.1 h
        exact .justify htarget (.bottomElim (hf ▸ .cite (cite?_eq_ok hcited))) speaks_cite
      · exact absurd h rejectShape_ne_ok
    | none =>
      obtain rfl := justify_eq_apply.1 h
      refine .justify htarget (.bottomElim (.goal _)) ?_
      simpa [Premise.Speaks] using W.bottom

/-- Negation introduction comes to a negation, with a box from what it negates to falsehood. -/
theorem notIntro_yields (hs : s.Speaks W input) (h : notIntro s input = .ok (.apply step)) :
    Yields W s .notIntro step := by
  unfold notIntro at h
  obtain ⟨_, -, h⟩ := bind_eq_ok.1 h
  cases htarget : s.target with
  | gap =>
    cases input with
    | none =>
      simp only [htarget] at h
      exact absurd h ask_ne_apply
    | some i =>
      simp only [htarget] at h
      obtain ⟨f, hf, h⟩ := bind_eq_ok.1 h
      have hspeaks := toFormula_eq_ok hf (hs.input i rfl)
      split at h
      · rename_i a hneg
        obtain rfl := derive_eq_apply.1 h
        obtain rfl := negated?_eq_some hneg
        exact .derive htarget .notIntro hspeaks
          (speaks_box (W.neg.1 hspeaks) W.bottom)
      · exact absurd h rejectShape_ne_ok
  | goal g =>
    simp only [htarget] at h
    split at h
    · rename_i a hneg
      obtain rfl := justify_eq_apply.1 h
      obtain rfl := negated?_eq_some hneg
      exact .justify htarget .notIntro
        (speaks_box (W.neg.1 (hs.target htarget)) W.bottom)
    · exact absurd h rejectShape_ne_ok

/-- Two cited lines of which the second negates the first. -/
theorem notElim_pair {x y : CitedLine} {u : Unit} (hx : x ∈ s.cites) (hy : y ∈ s.cites)
    (h : contradicts x.formula y.formula = some u) :
    Derives W s.cites .notElim [x.premise, y.premise] .bottom := by
  unfold contradicts at h
  split at h
  · rename_i hneg
    exact .notElim (.cite hx) (negated?_eq_some hneg ▸ .cite hy)
  · simp at h

/-- Negation elimination comes to falsehood, if a formula and its negation are supplied. -/
theorem notElim_yields (hs : s.Speaks W input) (h : notElim s input = .ok (.apply step)) :
    Yields W s .notElim step := by
  unfold notElim at h
  cases htarget : s.target with
  | gap =>
    simp only [htarget] at h
    obtain ⟨_, -, h⟩ := bind_eq_ok.1 h
    split at h
    · rename_i u ps hpair
      obtain rfl := derive_eq_apply.1 h
      obtain ⟨x, hx, y, hy, hxy, rfl⟩ := pair?_eq_some hpair
      exact .derive htarget (notElim_pair hx hy hxy) W.bottom speaks_pair
    · exact absurd h reject_ne_ok
  | goal g =>
    simp only [htarget] at h
    by_cases hbottom : g = .bottom
    swap
    · rw [if_pos hbottom] at h
      exact absurd h rejectShape_ne_ok
    subst hbottom
    rw [if_neg (by simp)] at h
    split at h
    · cases input with
      | none => exact absurd h ask_ne_apply
      | some i =>
        obtain ⟨f, hf, h⟩ := bind_eq_ok.1 h
        obtain rfl := justify_eq_apply.1 h
        refine .justify htarget (.notElim (.goal f) (.goal _)) ?_
        simpa [Premise.Speaks, W.neg] using toFormula_eq_ok hf (hs.input i rfl)
    · rename_i cited hcites
      have hmem : cited ∈ s.cites := by simp [hcites]
      have hcited := hs.cites _ hmem
      split at h
      · rename_i f hneg
        obtain rfl := justify_eq_apply.1 h
        have hf := negated?_eq_some hneg
        rw [hf] at hcited
        refine .justify htarget (.notElim (.goal f) (hf ▸ .cite hmem)) ?_
        simpa [Premise.Speaks, CitedLine.premise] using W.neg.1 hcited
      · obtain rfl := justify_eq_apply.1 h
        refine .justify htarget (.notElim (.cite hmem) (.goal _)) ?_
        simpa [Premise.Speaks, CitedLine.premise] using W.neg.2 hcited
    · split at h
      · rename_i u ps hpair
        obtain rfl := justify_eq_apply.1 h
        obtain ⟨x, hx, y, hy, hxy, rfl⟩ := pair?_eq_some hpair
        exact .justify htarget (notElim_pair hx hy hxy) speaks_pair
      · exact absurd h reject_ne_ok
    · exact absurd h wrongCount_ne_ok

/-- A doubly negated formula is the one below both negations. -/
theorem doublyNegated?_eq_some {f g : Formula} (h : f.doublyNegated? = some g) :
    f = .neg (.neg g) := by
  obtain ⟨body, hbody, hg⟩ := Option.bind_eq_some_iff.1 h
  rw [negated?_eq_some hbody, negated?_eq_some hg]

/-- Double negation introduction comes to the double negation of what is supplied. -/
theorem notNotIntro_yields (hs : s.Speaks W input)
    (h : notNotIntro s input = .ok (.apply step)) : Yields W s .notNotIntro step := by
  unfold notNotIntro at h
  cases htarget : s.target with
  | gap =>
    simp only [htarget] at h
    obtain ⟨cited, hcited, h⟩ := bind_eq_ok.1 h
    obtain rfl := derive_eq_apply.1 h
    have hmem := theCite_eq_ok hcited
    exact .derive htarget (.notNotIntro (.cite hmem)) (W.neg.2 (W.neg.2 (hs.cites _ hmem)))
      speaks_cite
  | goal g =>
    simp only [htarget] at h
    split at h
    · exact absurd h rejectShape_ne_ok
    · rename_i f hdouble
      obtain rfl := doublyNegated?_eq_some hdouble
      obtain ⟨cited?, hcited, h⟩ := bind_eq_ok.1 h
      cases cited? with
      | some cited =>
        simp only [] at h
        split at h
        · rename_i hf
          obtain rfl := justify_eq_apply.1 h
          exact .justify htarget (.notNotIntro (hf ▸ .cite (cite?_eq_ok hcited))) speaks_cite
        · exact absurd h rejectShape_ne_ok
      | none =>
        obtain rfl := justify_eq_apply.1 h
        refine .justify htarget (.notNotIntro (.goal f)) ?_
        simpa [Premise.Speaks] using W.neg.1 (W.neg.1 (hs.target htarget))

/-- Double negation elimination comes to a formula whose double negation is supplied. -/
theorem notNotElim_yields (hs : s.Speaks W input)
    (h : notNotElim s input = .ok (.apply step)) : Yields W s .notNotElim step := by
  unfold notNotElim at h
  cases htarget : s.target with
  | gap =>
    simp only [htarget] at h
    obtain ⟨cited, hcited, h⟩ := bind_eq_ok.1 h
    have hmem := theCite_eq_ok hcited
    split at h
    · rename_i f hdouble
      obtain rfl := derive_eq_apply.1 h
      have hf := doublyNegated?_eq_some hdouble
      have hspeaks := hs.cites _ hmem
      rw [hf] at hspeaks
      exact .derive htarget (.notNotElim (hf ▸ .cite hmem)) (W.neg.1 (W.neg.1 hspeaks))
        speaks_cite
    · exact absurd h rejectShape_ne_ok
  | goal g =>
    simp only [htarget] at h
    obtain ⟨cited?, hcited, h⟩ := bind_eq_ok.1 h
    cases cited? with
    | some cited =>
      simp only [] at h
      split at h
      · rename_i hf
        obtain rfl := justify_eq_apply.1 h
        exact .justify htarget (.notNotElim (hf ▸ .cite (cite?_eq_ok hcited))) speaks_cite
      · exact absurd h rejectShape_ne_ok
    | none =>
      obtain rfl := justify_eq_apply.1 h
      refine .justify htarget (.notNotElim (.goal _)) ?_
      simpa [Premise.Speaks, W.neg] using hs.target htarget

/-- A proof by contradiction comes to a formula, with a box from its negation to falsehood. -/
theorem contradiction_yields (hs : s.Speaks W input)
    (h : contradiction s input = .ok (.apply step)) : Yields W s .contradiction step := by
  unfold contradiction at h
  obtain ⟨_, -, h⟩ := bind_eq_ok.1 h
  cases htarget : s.target with
  | gap =>
    cases input with
    | none =>
      simp only [htarget] at h
      exact absurd h ask_ne_apply
    | some i =>
      simp only [htarget] at h
      obtain ⟨f, hf, h⟩ := bind_eq_ok.1 h
      obtain rfl := derive_eq_apply.1 h
      have hspeaks := toFormula_eq_ok hf (hs.input i rfl)
      exact .derive htarget .contradiction hspeaks
        (speaks_box (W.neg.2 hspeaks) W.bottom)
  | goal g =>
    simp only [htarget] at h
    obtain rfl := justify_eq_apply.1 h
    exact .justify htarget .contradiction
      (speaks_box (W.neg.2 (hs.target htarget)) W.bottom)

/-! ### Quantifiers -/

/-- The instance for an answer is one for terms of its vocabulary. -/
theorem toInstance_eq_ok {q : Quantifier} {f g : Formula} {i : Input}
    (h : i.toInstance q f = .ok g) (hi : i.Speaks W) :
    ∃ ts : List Term, (∀ t ∈ ts, W.term t) ∧ f.instantiate? q ts = some g := by
  unfold Input.toInstance at h
  obtain ⟨ts, hts, h⟩ := bind_eq_ok.1 h
  refine ⟨ts, toTerms_eq_ok hts hi, ?_⟩
  split at h
  · rename_i g' hg
    obtain rfl := Except.ok.inj h
    exact hg
  · cases h

/-- Existential introduction comes to an existential statement one of whose instances is supplied.
-/
theorem existsIntro_yields (hs : s.Speaks W input)
    (h : existsIntro s input = .ok (.apply step)) : Yields W s .existsIntro step := by
  unfold existsIntro at h
  cases htarget : s.target with
  | gap =>
    simp only [htarget] at h
    obtain ⟨cited, hcited, h⟩ := bind_eq_ok.1 h
    have hmem := theCite_eq_ok hcited
    cases input with
    | none => exact absurd h ask_ne_apply
    | some i =>
      obtain ⟨general, hgeneral, h⟩ := bind_eq_ok.1 h
      have hspeaks := toFormula_eq_ok hgeneral (hs.input i rfl)
      split at h
      · rename_i hmatch
        obtain rfl := derive_eq_apply.1 h
        exact .derive htarget (.existsIntroMatch (.cite hmem) (hs.cites _ hmem) hspeaks hmatch)
          hspeaks speaks_cite
      · exact absurd h rejectShape_ne_ok
  | goal g =>
    have hg := hs.target htarget
    simp only [htarget] at h
    split at h
    · exact absurd h rejectShape_ne_ok
    · obtain ⟨cited?, hcited, h⟩ := bind_eq_ok.1 h
      cases cited? with
      | some cited =>
        have hmem := cite?_eq_ok hcited
        simp only [] at h
        split at h
        · rename_i hmatch
          obtain rfl := justify_eq_apply.1 h
          exact .justify htarget
            (.existsIntroMatch (.cite hmem) (hs.cites _ hmem) hg hmatch) speaks_cite
        · exact absurd h rejectShape_ne_ok
      | none =>
        cases input with
        | none => exact absurd h askTerms_ne_apply
        | some i =>
          obtain ⟨f, hf, h⟩ := bind_eq_ok.1 h
          obtain rfl := justify_eq_apply.1 h
          obtain ⟨ts, hts, hinstance⟩ := toInstance_eq_ok hf (hs.input i rfl)
          refine .justify htarget (.existsIntro (.goal f) hts hg hinstance) ?_
          simpa [Premise.Speaks] using W.instantiate hg hts hinstance

/-- A formula with a binder is a quantified formula. -/
theorem binder?_eq_some {q : Quantifier} {f body : Formula} {var : String}
    (h : f.binder? q = some (var, body)) : f = .quant q var body := by
  cases f with
  | quant q' v b =>
    by_cases hq : q' = q
    · subst hq
      simpa [Formula.binder?] using h
    · simp [Formula.binder?, hq] at h
  | _ => simp [Formula.binder?] at h

/-- The box for a witness names it, assumes the body of the existential statement about it, and has
the goal. -/
theorem witnessBox_eq_ok {existential goal : Formula} {p : Premise}
    (h : witnessBox s existential goal = .ok p) :
    ∃ var body, existential = .quant .ex var body ∧
      p = .box
        { skolem := some s.nextSkolem
          assumption := some (body.subst1 var (.const s.nextSkolem))
          goal } := by
  unfold witnessBox at h
  split at h
  · rename_i var body hbinder
    exact ⟨var, body, binder?_eq_some hbinder, (Except.ok.inj h).symm⟩
  · exact absurd h rejectShape_ne_ok

/-- Existential elimination from a supplied statement and its box. -/
theorem existsElim_box {p q : Premise} {existential goal : Formula} (hs : s.Speaks W input)
    (hp : Supplies s.cites p existential) (hspeaks : p.Speaks W)
    (hexistential : W.formula existential) (hgoal : W.formula goal)
    (hq : witnessBox s existential goal = .ok q) :
    Derives W s.cites .existsElim [p, q] goal ∧ ∀ x ∈ [p, q], x.Speaks W := by
  obtain ⟨var, body, rfl, rfl⟩ := witnessBox_eq_ok hq
  rw [hs.skolem]
  refine ⟨.existsElim hp hexistential hgoal, ?_⟩
  intro x hx
  rcases List.mem_cons.1 hx with rfl | hx
  · exact hspeaks
  · obtain rfl := List.mem_singleton.1 hx
    exact ⟨rfl, by simpa using W.generic hexistential, W.extend hgoal⟩

/-- Existential elimination comes to what is proved in a box about a new witness of the existential
statement. -/
theorem existsElim_yields (hs : s.Speaks W input) (h : existsElim s input = .ok (.apply step)) :
    Yields W s .existsElim step := by
  unfold existsElim at h
  obtain ⟨cited?, hcited, h⟩ := bind_eq_ok.1 h
  cases cited? with
  | some cited =>
    have hmem := cite?_eq_ok hcited
    have hspeaks : cited.premise.Speaks W := trivial
    cases htarget : s.target with
    | gap =>
      simp only [htarget] at h
      split at h
      · exact absurd h rejectShape_ne_ok
      · cases input with
        | none => exact absurd h ask_ne_apply
        | some i =>
          obtain ⟨f, hf, h⟩ := bind_eq_ok.1 h
          obtain ⟨q, hq, h⟩ := bind_eq_ok.1 h
          obtain rfl := derive_eq_apply.1 h
          have hgoal := toFormula_eq_ok hf (hs.input i rfl)
          obtain ⟨hderives, hps⟩ :=
            existsElim_box hs (.cite hmem) hspeaks (hs.cites _ hmem) hgoal hq
          exact .derive htarget hderives hgoal hps
    | goal g =>
      simp only [htarget] at h
      split at h
      · exact absurd h rejectShape_ne_ok
      · obtain ⟨q, hq, h⟩ := bind_eq_ok.1 h
        obtain rfl := justify_eq_apply.1 h
        obtain ⟨hderives, hps⟩ :=
          existsElim_box hs (.cite hmem) hspeaks (hs.cites _ hmem) (hs.target htarget) hq
        exact .justify htarget hderives hps
  | none =>
    cases htarget : s.target with
    | gap =>
      simp only [htarget] at h
      exact absurd h wrongCount_ne_ok
    | goal g =>
      cases input with
      | none =>
        simp only [htarget] at h
        exact absurd h ask_ne_apply
      | some i =>
        simp only [htarget] at h
        -- that the answer is existential is checked only where its box is planned
        obtain ⟨existential, hexistential, h⟩ := bind_eq_ok.1 h
        obtain ⟨q, hq, h⟩ := bind_eq_ok.1 h
        obtain rfl := justify_eq_apply.1 h
        have hspeaks := toFormula_eq_ok hexistential (hs.input i rfl)
        obtain ⟨hderives, hps⟩ :=
          existsElim_box hs (.goal existential) hspeaks hspeaks (hs.target htarget) hq
        exact .justify htarget hderives hps

/-- Universal introduction from the box about the new constant. -/
theorem forallIntro_box {universal : Formula} {p : Premise} (hs : s.Speaks W input)
    (huniversal : W.formula universal) (hp : genericBox s universal = .ok p) :
    Derives W s.cites .forallIntro [p] universal ∧ ∀ x ∈ [p], x.Speaks W := by
  unfold genericBox at hp
  split at hp
  · rename_i var body hbinder
    obtain rfl := Except.ok.inj hp
    obtain rfl := binder?_eq_some hbinder
    rw [hs.skolem]
    refine ⟨.forallIntro huniversal, ?_⟩
    intro x hx
    obtain rfl := List.mem_singleton.1 hx
    exact ⟨rfl, by simp, W.generic huniversal⟩
  · exact absurd hp rejectShape_ne_ok

/-- Universal introduction comes to a universal statement, with a box that proves its body about a
new constant. -/
theorem forallIntro_yields (hs : s.Speaks W input)
    (h : forallIntro s input = .ok (.apply step)) : Yields W s .forallIntro step := by
  unfold forallIntro at h
  obtain ⟨_, -, h⟩ := bind_eq_ok.1 h
  cases htarget : s.target with
  | gap =>
    cases input with
    | none =>
      simp only [htarget] at h
      exact absurd h ask_ne_apply
    | some i =>
      simp only [htarget] at h
      obtain ⟨f, hf, h⟩ := bind_eq_ok.1 h
      obtain ⟨p, hp, h⟩ := bind_eq_ok.1 h
      obtain rfl := derive_eq_apply.1 h
      have hspeaks := toFormula_eq_ok hf (hs.input i rfl)
      obtain ⟨hderives, hps⟩ := forallIntro_box hs hspeaks hp
      exact .derive htarget hderives hspeaks hps
  | goal g =>
    simp only [htarget] at h
    obtain ⟨p, hp, h⟩ := bind_eq_ok.1 h
    obtain rfl := justify_eq_apply.1 h
    obtain ⟨hderives, hps⟩ := forallIntro_box hs (hs.target htarget) hp
    exact .justify htarget hderives hps

/-- Universal elimination comes to an instance of the universal statement. -/
theorem forallElim_yields (hs : s.Speaks W input) (h : forallElim s input = .ok (.apply step)) :
    Yields W s .forallElim step := by
  unfold forallElim at h
  cases htarget : s.target with
  | gap =>
    simp only [htarget] at h
    obtain ⟨cited, hcited, h⟩ := bind_eq_ok.1 h
    have hmem := theCite_eq_ok hcited
    split at h
    · exact absurd h rejectShape_ne_ok
    · cases input with
      | none => exact absurd h askTerms_ne_apply
      | some i =>
        obtain ⟨f, hf, h⟩ := bind_eq_ok.1 h
        obtain rfl := derive_eq_apply.1 h
        obtain ⟨ts, hts, hinstance⟩ := toInstance_eq_ok hf (hs.input i rfl)
        have hspeaks := hs.cites _ hmem
        exact .derive htarget (.forallElim (.cite hmem) hts hspeaks hinstance)
          (W.instantiate hspeaks hts hinstance) speaks_cite
  | goal g =>
    have hg := hs.target htarget
    simp only [htarget] at h
    obtain ⟨cited?, hcited, h⟩ := bind_eq_ok.1 h
    cases cited? with
    | some cited =>
      have hmem := cite?_eq_ok hcited
      simp only [] at h
      split at h
      · rename_i hmatch
        obtain rfl := justify_eq_apply.1 h
        exact .justify htarget
          (.forallElimMatch (.cite hmem) hg (hs.cites _ hmem) hmatch) speaks_cite
      · exact absurd h rejectShape_ne_ok
    | none =>
      cases input with
      | none => exact absurd h ask_ne_apply
      | some i =>
        obtain ⟨universal, huniversal, h⟩ := bind_eq_ok.1 h
        have hspeaks := toFormula_eq_ok huniversal (hs.input i rfl)
        split at h
        · rename_i hmatch
          obtain rfl := justify_eq_apply.1 h
          refine .justify htarget (.forallElimMatch (.goal universal) hg hspeaks hmatch) ?_
          simpa [Premise.Speaks] using hspeaks
        · exact absurd h rejectShape_ne_ok

/-! ### Equations -/

/-- A formula that equates two terms is their equation. -/
theorem equated?_eq_some {f : Formula} {a b : Term} (h : f.equated? = some (a, b)) :
    f = .eq a b := by
  cases f with
  | eq l r => simpa [Formula.equated?] using h
  | _ => simp [Formula.equated?] at h

/-- Equality introduction comes to an equation of a term with itself, without premises. -/
theorem eqIntro_yields (hs : s.Speaks W input) (h : eqIntro s input = .ok (.apply step)) :
    Yields W s .eqIntro step := by
  unfold eqIntro at h
  obtain ⟨_, -, h⟩ := bind_eq_ok.1 h
  cases htarget : s.target with
  | gap =>
    cases input with
    | none =>
      simp only [htarget] at h
      exact absurd h ask_ne_apply
    | some i =>
      simp only [htarget] at h
      obtain ⟨ts, hts, h⟩ := bind_eq_ok.1 h
      cases ts with
      | nil => cases h
      | cons t ts =>
        obtain rfl := derive_eq_apply.1 h
        have ht := toTerms_eq_ok hts (hs.input i rfl) t List.mem_cons_self
        exact .derive htarget .eqIntro (W.eq.2 ⟨ht, ht⟩) speaks_nil
  | goal g =>
    simp only [htarget] at h
    split at h
    · rename_i a b heq
      obtain rfl := equated?_eq_some heq
      split at h
      · rename_i hab
        subst hab
        obtain rfl := justify_eq_apply.1 h
        exact .justify htarget .eqIntro speaks_nil
      · exact absurd h rejectShape_ne_ok
    · exact absurd h rejectShape_ne_ok

/-- Two cited lines of which the first is an equation and the second a formula in which its sides
are replaced. -/
theorem eqElim_pair {x y : CitedLine} {a b : Term} {g : Formula} (hs : s.Speaks W input)
    (hx : x ∈ s.cites) (hy : y ∈ s.cites) (hequation : x.formula.equated? = some (a, b))
    (hg : Replaces a b y.formula g) :
    Derives W s.cites .eqElim [x.premise, y.premise] g ∧ W.term a ∧ W.term b := by
  have hf := equated?_eq_some hequation
  have hspeaks := hs.cites x hx
  rw [hf, W.eq] at hspeaks
  exact ⟨.eqElim (hf ▸ .cite hx) (.cite hy) hspeaks.1 hspeaks.2 hg, hspeaks⟩

/-- Equality elimination comes to a formula in which the right side of the equation stands for the
left one, everywhere or in some places. -/
theorem eqElim_yields (hs : s.Speaks W input) (h : eqElim s input = .ok (.apply step)) :
    Yields W s .eqElim step := by
  unfold eqElim at h
  cases htarget : s.target with
  | gap =>
    simp only [htarget] at h
    obtain ⟨_, -, h⟩ := bind_eq_ok.1 h
    split at h
    · rename_i f ps hpair
      obtain rfl := derive_eq_apply.1 h
      obtain ⟨x, hx, y, hy, hxy, rfl⟩ := pair?_eq_some hpair
      unfold replaceEverywhere at hxy
      split at hxy
      · rename_i a b hequation
        split at hxy
        · obtain rfl := Option.some.inj hxy
          obtain ⟨hderives, ha, hb⟩ := eqElim_pair hs hx hy hequation (.everywhere rfl)
          exact .derive htarget hderives (W.replace ha hb (hs.cites y hy)) speaks_pair
        · simp at hxy
      · simp at hxy
    · exact absurd h reject_ne_ok
  | goal g =>
    have hg := hs.target htarget
    simp only [htarget] at h
    split at h
    · rename_i cited hcites
      have hmem : cited ∈ s.cites := by simp [hcites]
      split at h
      · exact absurd h rejectShape_ne_ok
      · rename_i a b hequation
        split at h
        · exact absurd h reject_ne_ok
        · obtain rfl := justify_eq_apply.1 h
          have hf := equated?_eq_some hequation
          have hspeaks := hs.cites _ hmem
          rw [hf, W.eq] at hspeaks
          -- backwards, the new goal has the left side in place of the right one
          refine .justify htarget
            (.eqElim (hf ▸ .cite hmem) (.goal _) hspeaks.1 hspeaks.2 (.back rfl)) ?_
          simpa [Premise.Speaks, CitedLine.premise] using W.replace hspeaks.2 hspeaks.1 hg
    · split at h
      · rename_i u ps hpair
        obtain rfl := justify_eq_apply.1 h
        obtain ⟨x, hx, y, hy, hxy, rfl⟩ := pair?_eq_some hpair
        unfold replaceSomewhere at hxy
        split at hxy
        · rename_i a b hequation
          split at hxy
          · rename_i hcond
            -- with two lines cited, some places may keep the left side
            have hbecomes : y.formula.becomes a b g = true := by simp_all
            obtain ⟨hderives, -, -⟩ := eqElim_pair hs hx hy hequation (.somewhere hbecomes)
            exact .justify htarget hderives speaks_pair
          · simp at hxy
        · simp at hxy
      · exact absurd h rejectShape_ne_ok
    · exact absurd h wrongCount_ne_ok

/-- Turning an equation round comes to the equation with its sides exchanged. -/
theorem eqSymm_yields (hs : s.Speaks W input) (h : eqSymm s input = .ok (.apply step)) :
    Yields W s .eqSymm step := by
  unfold eqSymm at h
  cases htarget : s.target with
  | gap =>
    simp only [htarget] at h
    obtain ⟨cited, hcited, h⟩ := bind_eq_ok.1 h
    have hmem := theCite_eq_ok hcited
    split at h
    · rename_i a b hequation
      obtain rfl := derive_eq_apply.1 h
      have hf := equated?_eq_some hequation
      have hspeaks := hs.cites _ hmem
      rw [hf, W.eq] at hspeaks
      exact .derive htarget (.eqSymm (hf ▸ .cite hmem)) (W.eq.2 hspeaks.symm) speaks_cite
    · exact absurd h rejectShape_ne_ok
  | goal g =>
    simp only [htarget] at h
    split at h
    · exact absurd h rejectShape_ne_ok
    · rename_i a b hequation
      obtain rfl := equated?_eq_some hequation
      obtain ⟨cited?, hcited, h⟩ := bind_eq_ok.1 h
      cases cited? with
      | none =>
        obtain rfl := justify_eq_apply.1 h
        refine .justify htarget (.eqSymm (.goal _)) ?_
        simpa [Premise.Speaks] using W.eq.2 (W.eq.1 (hs.target htarget)).symm
      | some cited =>
        simp only [] at h
        split at h
        · rename_i hf
          obtain rfl := justify_eq_apply.1 h
          exact .justify htarget (.eqSymm (hf ▸ .cite (cite?_eq_ok hcited))) speaks_cite
        · exact absurd h rejectShape_ne_ok

/-! ### All rules -/

/-- Every rule that decides on a step comes to it by the calculus. -/
theorem Rule.handler_yields (rule : Rule) (hs : s.Speaks W input)
    (h : rule.handler s input = .ok (.apply step)) : Yields W s rule step := by
  cases rule with
  | tick => exact tick_yields hs h
  | andIntro => exact andIntro_yields hs h
  | andElim => exact andElim_yields hs h
  | orIntro => exact orIntro_yields hs h
  | orElim => exact orElim_yields hs h
  | impliesIntro => exact impliesIntro_yields hs h
  | impliesElim => exact impliesElim_yields hs h
  | notIntro => exact notIntro_yields hs h
  | notElim => exact notElim_yields hs h
  | notNotIntro => exact notNotIntro_yields hs h
  | notNotElim => exact notNotElim_yields hs h
  | topIntro => exact @topIntro_yields W s input step h
  | bottomElim => exact bottomElim_yields hs h
  | iffIntro => exact iffIntro_yields hs h
  | iffElim => exact iffElim_yields hs h
  | excludedMiddle => exact excludedMiddle_yields hs h
  | contradiction => exact contradiction_yields hs h
  | existsIntro => exact existsIntro_yields hs h
  | existsElim => exact existsElim_yields hs h
  | forallIntro => exact forallIntro_yields hs h
  | forallElim => exact forallElim_yields hs h
  | eqIntro => exact eqIntro_yields hs h
  | eqElim => exact eqElim_yields hs h
  | eqSymm => exact eqSymm_yields hs h

end NaturalDeduction
