import NaturalDeduction.Inference.Engine
import NaturalDeduction.Proofs.Substitution

/-!
# Questions and their answers

A rule never faults when it is begun, and every answer that passes the check of its question settles
it: the rule then comes to a step or is refused, and it does not ask again.

A computation that may be refused is described by `Gives`: it does not fault, it is not refused because
a waiting rule has become stale, and what it comes to has a given property.  There is one theorem for
each rule, and `Rule.handler_settles` puts them together.
-/

set_option autoImplicit false

namespace NaturalDeduction

/-- A computation neither faults nor finds the waiting rule stale, and what it comes to has a
property. -/
def Gives {α : Type} (x : Except Refusal α) (p : α → Prop) : Prop :=
  match x with
  | .ok a => p a
  | .error (.rule e) => e ≠ .stalePending
  | .error (.fault _) => False

section Gives

variable {α β : Type} {p : α → Prop}

/-- A result has the property that it has. -/
@[simp] theorem gives_ok {a : α} : Gives (.ok a) p ↔ p a := Iff.rfl

/-- A result has the property that it has. -/
@[simp] theorem gives_pure {a : α} : Gives (pure a) p ↔ p a := Iff.rfl

/-- Any refusal will do, except that the waiting rule is stale. -/
@[simp] theorem gives_rule {e : RuleError} : Gives (.error (.rule e)) p ↔ e ≠ .stalePending := Iff.rfl

/-- Any refusal will do, except that the waiting rule is stale. -/
@[simp] theorem gives_throw {e : RuleError} : Gives (throw (.rule e)) p ↔ e ≠ .stalePending := Iff.rfl

/-- Two computations in a row come to what the second one comes to with the result of the first. -/
@[simp] theorem gives_bind {x : Except Refusal β} {f : β → Except Refusal α} :
    Gives (x >>= f) p ↔ Gives x fun b => Gives (f b) p := by
  rcases x with (e | fault) | b <;> rfl

/-- A computation that cannot refuse must not fault. -/
@[simp] theorem gives_lift {x : Except Fault α} :
    Gives (Refusal.lift x) p ↔ ∃ a, x = .ok a ∧ p a := by
  cases x with
  | ok a => simp [Refusal.lift]
  | error fault => simp [Refusal.lift, Gives]

/-- What a computation comes to has all weaker properties as well. -/
theorem Gives.imp {q : α → Prop} {x : Except Refusal α} (h : Gives x p) (himp : ∀ a, p a → q a) :
    Gives x q := by
  rcases x with (e | fault) | a
  · exact h
  · exact h
  · exact himp a h

/-- What a computation comes to has the property. -/
theorem Gives.of_eq_ok {x : Except Refusal α} (h : Gives x p) {a : α} (ha : x = .ok a) : p a := by
  subst ha
  exact h

end Gives

/-! ### What rules are made of -/

section Parts

variable {s : Situation} {p : Action → Prop}

/-- Deriving a formula comes to this step. -/
@[simp] theorem gives_derive {f : Formula} {ps : List Premise} :
    Gives (derive f ps) p ↔ p (.apply (.derive f ps)) := Iff.rfl

/-- Justifying the goal comes to this step. -/
@[simp] theorem gives_justify {ps : List Premise} :
    Gives (justify ps) p ↔ p (.apply (.justify ps)) := Iff.rfl

/-- Asking comes to this question. -/
@[simp] theorem gives_ask {prompt : String} {kind : InputKind} :
    Gives (ask prompt kind) p ↔ p (.ask { prompt, kind }) := Iff.rfl

/-- A mismatch is a refusal that will do. -/
@[simp] theorem gives_reject {α : Type} {q : α → Prop} {mismatch : Mismatch} :
    Gives (s.reject mismatch) q := by
  simp [Situation.reject]

/-- A formula of the wrong shape is a refusal that will do. -/
@[simp] theorem gives_rejectShape {α : Type} {q : α → Prop} {subject : Subject}
    {expected : Expectation} : Gives (s.rejectShape subject expected) q :=
  gives_reject

/-- A wrong number of citations is a refusal that will do. -/
@[simp] theorem gives_wrongCount {α : Type} {q : α → Prop} {expected : CiteCount} :
    Gives (s.wrongCount expected) q := by
  simp [Situation.wrongCount]

/-- After the citations have been counted, their number is allowed. -/
@[simp] theorem gives_require {expected : CiteCount} {q : Unit → Prop} :
    Gives (s.require expected) q ↔ (expected.admits s.cites.length = true → q ()) := by
  unfold Situation.require
  split <;> simp [*]

/-- The line that is found is the only one cited. -/
@[simp] theorem gives_theCite {q : CitedLine → Prop} :
    Gives s.theCite q ↔ ∀ cited, s.cites = [cited] → q cited := by
  unfold Situation.theCite
  split
  · rename_i cited hcites
    simp [hcites]
  · rename_i hcites
    simpa using fun cited h => absurd h (hcites cited)

/-- Nothing is found if nothing is cited, and otherwise the only line cited. -/
@[simp] theorem gives_cite? {q : Option CitedLine → Prop} :
    Gives s.cite? q ↔ (s.cites = [] → q none) ∧ ∀ cited, s.cites = [cited] → q (some cited) := by
  unfold Situation.cite?
  split
  · rename_i hcites
    simp [hcites]
  · rename_i cited hcites
    simp [hcites]
  · rename_i hnil hone
    simpa using ⟨fun h => absurd h hnil, fun cited h => absurd h (hone cited)⟩

/-- An answer that is a formula is taken as this formula. -/
@[simp] theorem gives_toFormula {f : Formula} {q : Formula → Prop} :
    Gives (Input.formula f).toFormula q ↔ q f := Iff.rfl

end Parts

/-! ### Answers that pass the check -/

section Check

variable {input : Input} {prompt : String}

/-- An answer that passes where a formula is asked for is a formula. -/
theorem check_formula_eq_ok (h : input.check { prompt, kind := .formula } = .ok ()) :
    ∃ f, input = .formula f := by
  cases input with
  | formula f => exact ⟨f, rfl⟩
  | _ => simp [Input.check] at h

/-- An answer that passes where a choice is asked for chooses one of the options. -/
theorem check_choice_eq_ok {options : List String}
    (h : input.check { prompt, kind := .choice options } = .ok ()) :
    ∃ index < options.length, input = .choice index := by
  cases input with
  | choice index =>
    by_cases hlt : index < options.length
    · exact ⟨index, hlt, rfl⟩
    · simp [Input.check, hlt] at h
  | _ => simp [Input.check] at h

/-- An answer that passes where terms are asked for is so many terms. -/
theorem check_terms_eq_ok {count : Nat}
    (h : input.check { prompt, kind := .terms count } = .ok ()) :
    ∃ ts, ts.length = count ∧ input = .terms ts := by
  cases input with
  | terms ts =>
    by_cases hlen : ts.length = count
    · exact ⟨ts, hlen, rfl⟩
    · simp [Input.check, hlen] at h
  | _ => simp [Input.check] at h

end Check

/-! ### Decisions -/

/-- The decision is a step. -/
def Action.isStep : Action → Prop
  | .apply _ => True
  | .ask _ => False

/-- The decision is a step, or a question that every answer which passes its check settles. -/
def Action.Settled (answer : Input → Except Refusal Action) : Action → Prop
  | .apply _ => True
  | .ask request => ∀ input, input.check request = .ok () → Gives (answer input) Action.isStep

/-- What comes to a step has every property of steps. -/
theorem Gives.of_isStep {x : Except Refusal Action} {p : Action → Prop}
    (h : Gives x Action.isStep) (hp : ∀ step, p (.apply step)) : Gives x p := by
  refine h.imp fun action haction => ?_
  cases action with
  | apply step => exact hp step
  | ask request => exact haction.elim

section Questions

variable {answer : Input → Except Refusal Action} {prompt : String}

/-- A step is a step. -/
@[simp] theorem isStep_apply {step : Step} : (Action.apply step).isStep := trivial

/-- A step is settled. -/
@[simp] theorem settled_apply {step : Step} : (Action.apply step).Settled answer := trivial

/-- A question for a formula is settled if every formula leads to a step. -/
theorem settled_formula
    (h : ∀ f, Gives (answer (.formula f)) Action.isStep) :
    (Action.ask { prompt, kind := .formula }).Settled answer := by
  intro input hcheck
  obtain ⟨f, rfl⟩ := check_formula_eq_ok hcheck
  exact h f

/-- An answer that names one of the options is one of them. -/
theorem gives_askWhich {options : List Formula}
    (h : ∀ input f, input.toOption options = .ok f → Gives (answer input) Action.isStep) :
    Gives (askWhich prompt options) (Action.Settled answer) := by
  intro input hcheck
  obtain ⟨index, hlt, rfl⟩ := check_choice_eq_ok hcheck
  rw [List.length_map] at hlt
  refine h _ options[index] ?_
  simp [Input.toOption, hlt]

/-- Terms that are as many as the variables make an instance. -/
theorem gives_askTerms {q : Quantifier} {f : Formula}
    (h : ∀ input g, input.toInstance q f = .ok g → Gives (answer input) Action.isStep) :
    Gives (askTerms (f.strip q).1) (Action.Settled answer) := by
  intro input hcheck
  obtain ⟨ts, hlen, rfl⟩ := check_terms_eq_ok hcheck
  obtain ⟨g, hg⟩ := Option.isSome_iff_exists.1 (Formula.instantiate?_isSome_iff.2 (Nat.le_of_eq hlen))
  refine h _ g ?_
  simp [Input.toInstance, Input.toTerms, hg, bind, Except.bind, pure, Except.pure]

end Questions

/-! ### Rules that do not ask -/

section Rules

variable (s : Situation) (input : Option Input) (next : String)

/-- Repeating a line asks nothing. -/
theorem tick_isStep : Gives (tick s input) Action.isStep := by
  simp only [tick, gives_bind, gives_theCite]
  intro cited _
  split
  · simp
  · split <;> simp

/-- Conjunction introduction asks nothing, and there is always something to join. -/
theorem andIntro_isStep : Gives (andIntro s input) Action.isStep := by
  unfold andIntro
  split
  · simp only [gives_bind, gives_require]
    intro hcount
    split
    · simp
    · -- two cited lines or more have a conjunction
      rename_i hnone
      have hcites : s.cites.map CitedLine.formula ≠ [] := by
        intro hnil
        simp [List.map_eq_nil_iff.1 hnil, CiteCount.admits] at hcount
      have hsome : (Formula.chain? .and (s.cites.map CitedLine.formula)).isSome :=
        Formula.chain?_isSome.2 hcites
      simp [hnone] at hsome
  · split
    · simp
    · dsimp only
      split <;> simp

/-- Truth introduction asks nothing. -/
theorem topIntro_isStep : Gives (topIntro s input) Action.isStep := by
  simp only [topIntro, gives_bind, gives_require]
  intro _
  split
  · simp
  · split <;> simp

/-- Double negation introduction asks nothing. -/
theorem notNotIntro_isStep : Gives (notNotIntro s input) Action.isStep := by
  unfold notNotIntro
  split
  · simp
  · split
    · simp
    · simp only [gives_bind, gives_cite?]
      refine ⟨by simp, fun cited _ => ?_⟩
      split <;> simp

/-- Double negation elimination asks nothing. -/
theorem notNotElim_isStep : Gives (notNotElim s input) Action.isStep := by
  unfold notNotElim
  split
  · simp only [gives_bind, gives_theCite]
    intro cited _
    split <;> simp
  · simp only [gives_bind, gives_cite?]
    refine ⟨by simp, fun cited _ => ?_⟩
    split <;> simp

/-- Equivalence introduction asks nothing. -/
theorem iffIntro_isStep : Gives (iffIntro s input) Action.isStep := by
  unfold iffIntro
  split
  · simp only [gives_bind, gives_require]
    intro _
    split <;> simp
  · split
    · simp
    · simp only [gives_bind, gives_require]
      intro _
      split <;> simp

/-- Equivalence elimination asks nothing. -/
theorem iffElim_isStep : Gives (iffElim s input) Action.isStep := by
  unfold iffElim
  split
  · simp only [gives_bind, gives_require]
    intro _
    split <;> simp
  · split
    · split
      · split
        · simp
        · split <;> simp
      · simp
    · split <;> simp
    · simp

/-- Equality elimination asks nothing. -/
theorem eqElim_isStep : Gives (eqElim s input) Action.isStep := by
  unfold eqElim
  split
  · simp only [gives_bind, gives_require]
    intro _
    split <;> simp
  · split
    · split
      · simp
      · split <;> simp
    · split <;> simp
    · simp

/-- Turning an equation round asks nothing. -/
theorem eqSymm_isStep : Gives (eqSymm s input) Action.isStep := by
  unfold eqSymm
  split
  · simp only [gives_bind, gives_theCite]
    intro cited _
    split <;> simp
  · split
    · simp
    · simp only [gives_bind, gives_cite?]
      refine ⟨by simp, fun cited _ => ?_⟩
      split <;> simp

/-! ### Rules that ask -/

/-- The conjunct that is chosen settles conjunction elimination. -/
theorem andElim_settles :
    Gives (andElim s none)
      (Action.Settled fun input => andElim { s with nextSkolem := next } (some input)) := by
  simp only [andElim, gives_bind, gives_theCite]
  intro cited hcites
  split
  · simp
  · rename_i hparts
    cases s.target with
    | gap =>
      refine gives_askWhich fun input f hf => ?_
      simp only [hcites, gives_bind, gives_theCite, List.cons.injEq, and_true, forall_eq', hparts,
        if_false, hf, gives_derive, isStep_apply, gives_ok]
    | goal g =>
      dsimp only
      split <;> simp

/-- The disjunction, or the disjunct to prove, settles disjunction introduction. -/
theorem orIntro_settles :
    Gives (orIntro s none)
      (Action.Settled fun input => orIntro { s with nextSkolem := next } (some input)) := by
  unfold orIntro
  cases s.target with
  | gap =>
    simp only [gives_bind, gives_theCite]
    intro cited _
    refine settled_formula fun f => ?_
    simp only [gives_bind, gives_theCite, gives_toFormula]
    intro cited _
    split <;> simp
  | goal g =>
    dsimp only
    split
    · simp
    · simp only [gives_bind, gives_cite?]
      refine ⟨fun hcites => gives_askWhich fun input f hf => ?_, fun cited _ => ?_⟩
      · simp [hcites, hf]
      · split <;> simp

/-- The conclusion, or the disjunction, settles disjunction elimination. -/
theorem orElim_settles :
    Gives (orElim s none)
      (Action.Settled fun input => orElim { s with nextSkolem := next } (some input)) := by
  simp only [orElim, gives_bind, gives_cite?]
  refine ⟨fun hcites => ?_, fun cited hcites => ?_⟩
  · cases s.target with
    | gap => simp
    | goal g =>
      refine settled_formula fun f => ?_
      simp only [gives_bind, gives_cite?, gives_toFormula, hcites]
      refine ⟨fun _ => ?_, by simp⟩
      split <;> simp
  · split
    · simp
    · rename_i hsides
      rw [Option.isNone_iff_eq_none] at hsides
      cases s.target with
      | gap => exact settled_formula fun f => by simp [hcites, hsides]
      | goal g => simp

/-- A formula settles the law of excluded middle. -/
theorem excludedMiddle_settles :
    Gives (excludedMiddle s none)
      (Action.Settled fun input => excludedMiddle { s with nextSkolem := next } (some input)) := by
  simp only [excludedMiddle, gives_bind, gives_require]
  intro _
  cases s.target with
  | gap => exact settled_formula fun f => by simp
  | goal g =>
    dsimp only
    split
    · split <;> simp
    · simp

/-- A formula settles implication introduction. -/
theorem impliesIntro_settles :
    Gives (impliesIntro s none)
      (Action.Settled fun input => impliesIntro { s with nextSkolem := next } (some input)) := by
  simp only [impliesIntro, gives_bind, gives_require]
  intro _
  cases s.target with
  | gap =>
    refine settled_formula fun f => ?_
    simp only [gives_bind, gives_require, gives_toFormula]
    intro _
    split <;> simp
  | goal g =>
    dsimp only
    split <;> simp

/-- The antecedent settles implication elimination. -/
theorem impliesElim_settles :
    Gives (impliesElim s none)
      (Action.Settled fun input => impliesElim { s with nextSkolem := next } (some input)) := by
  unfold impliesElim
  cases s.target with
  | gap =>
    simp only [gives_bind, gives_require]
    intro _
    split <;> simp
  | goal g =>
    dsimp only
    split
    · exact settled_formula fun f => by simp
    · split
      · split <;> simp
      · simp
    · split <;> simp
    · simp

/-- A formula settles negation introduction. -/
theorem notIntro_settles :
    Gives (notIntro s none)
      (Action.Settled fun input => notIntro { s with nextSkolem := next } (some input)) := by
  simp only [notIntro, gives_bind, gives_require]
  intro _
  cases s.target with
  | gap =>
    refine settled_formula fun f => ?_
    simp only [gives_bind, gives_require, gives_toFormula]
    intro _
    split <;> simp
  | goal g =>
    dsimp only
    split <;> simp

/-- The formula to contradict settles negation elimination. -/
theorem notElim_settles :
    Gives (notElim s none)
      (Action.Settled fun input => notElim { s with nextSkolem := next } (some input)) := by
  unfold notElim
  cases s.target with
  | gap =>
    simp only [gives_bind, gives_require]
    intro _
    split <;> simp
  | goal g =>
    dsimp only
    split
    · simp
    · split
      · exact settled_formula fun f => by simp
      · split <;> simp
      · split <;> simp
      · simp

/-- The conclusion settles falsehood elimination. -/
theorem bottomElim_settles :
    Gives (bottomElim s none)
      (Action.Settled fun input => bottomElim { s with nextSkolem := next } (some input)) := by
  unfold bottomElim
  cases s.target with
  | gap =>
    simp only [gives_bind, gives_theCite]
    intro cited hcites
    split
    · simp
    · rename_i hbottom
      rw [ne_eq, not_not] at hbottom
      exact settled_formula fun f => by simp [hcites, hbottom]
  | goal g =>
    simp only [gives_bind, gives_cite?]
    refine ⟨by simp, fun cited _ => ?_⟩
    split <;> simp

/-- A formula settles a proof by contradiction. -/
theorem contradiction_settles :
    Gives (contradiction s none)
      (Action.Settled fun input => contradiction { s with nextSkolem := next } (some input)) := by
  simp only [contradiction, gives_bind, gives_require]
  intro _
  cases s.target with
  | gap => exact settled_formula fun f => by simp
  | goal g => simp

/-- The statement, or as many terms as there are quantifiers, settle existential introduction. -/
theorem existsIntro_settles :
    Gives (existsIntro s none)
      (Action.Settled fun input => existsIntro { s with nextSkolem := next } (some input)) := by
  unfold existsIntro
  cases s.target with
  | gap =>
    simp only [gives_bind, gives_theCite]
    intro cited _
    refine settled_formula fun f => ?_
    simp only [gives_bind, gives_theCite, gives_toFormula]
    intro cited _
    split <;> simp
  | goal g =>
    dsimp only
    split
    · simp
    · simp only [gives_bind, gives_cite?]
      refine ⟨fun hcites => gives_askTerms fun input f hf => ?_, fun cited _ => ?_⟩
      · simp [hcites, hf]
      · split <;> simp

/-- A box for a witness is planned or refused, whatever the constant is. -/
theorem gives_witnessBox {existential goal : Formula} {q : Premise → Prop} (h : ∀ p, q p) :
    Gives (witnessBox s existential goal) q := by
  unfold witnessBox
  split
  · exact h _
  · simp

/-- The conclusion, or the existential statement, settles existential elimination. -/
theorem existsElim_settles :
    Gives (existsElim s none)
      (Action.Settled fun input => existsElim { s with nextSkolem := next } (some input)) := by
  simp only [existsElim, gives_bind, gives_cite?]
  refine ⟨fun hcites => ?_, fun cited hcites => ?_⟩
  · cases s.target with
    | gap => simp
    | goal g =>
      refine settled_formula fun f => ?_
      simp only [gives_bind, gives_cite?, gives_toFormula, hcites]
      exact ⟨fun _ => gives_witnessBox _ fun _ => trivial, by simp⟩
  · cases s.target with
    | gap =>
      dsimp only
      split
      · simp
      · rename_i hbinder
        refine settled_formula fun f => ?_
        simp only [gives_bind, gives_cite?, hcites]
        refine ⟨by simp, fun cited' hcited => ?_⟩
        obtain rfl : cited = cited' := by simpa using hcited
        rw [if_neg hbinder]
        simp only [gives_bind, gives_toFormula]
        exact gives_witnessBox _ fun _ => trivial
    | goal g =>
      dsimp only
      split
      · simp
      · exact gives_bind.2 (gives_witnessBox _ fun _ => trivial)

/-- A box for a new constant is planned or refused, whatever the constant is. -/
theorem gives_genericBox {universal : Formula} {q : Premise → Prop} (h : ∀ p, q p) :
    Gives (genericBox s universal) q := by
  unfold genericBox
  split
  · exact h _
  · simp

/-- A formula settles universal introduction. -/
theorem forallIntro_settles :
    Gives (forallIntro s none)
      (Action.Settled fun input => forallIntro { s with nextSkolem := next } (some input)) := by
  simp only [forallIntro, gives_bind, gives_require]
  intro _
  cases s.target with
  | gap =>
    refine settled_formula fun f => ?_
    simp only [gives_bind, gives_require, gives_toFormula]
    exact fun _ => gives_genericBox _ fun _ => trivial
  | goal g => exact gives_bind.2 (gives_genericBox _ fun _ => trivial)

/-- As many terms as there are quantifiers, or the universal statement, settle universal
elimination. -/
theorem forallElim_settles :
    Gives (forallElim s none)
      (Action.Settled fun input => forallElim { s with nextSkolem := next } (some input)) := by
  unfold forallElim
  cases s.target with
  | gap =>
    simp only [gives_bind, gives_theCite]
    intro cited hcites
    split
    · simp
    · rename_i hvars
      refine gives_askTerms fun input f hf => ?_
      rw [List.isEmpty_iff] at hvars
      simp [hcites, hvars, hf]
  | goal g =>
    simp only [gives_bind, gives_cite?]
    refine ⟨fun hcites => settled_formula fun f => ?_, fun cited _ => ?_⟩
    · simp only [gives_bind, gives_cite?, gives_toFormula, hcites]
      refine ⟨fun _ => ?_, by simp⟩
      split <;> simp
    · split <;> simp

/-- One term settles equality introduction. -/
theorem eqIntro_settles :
    Gives (eqIntro s none)
      (Action.Settled fun input => eqIntro { s with nextSkolem := next } (some input)) := by
  simp only [eqIntro, gives_bind, gives_require]
  intro _
  cases s.target with
  | gap =>
    intro input hcheck
    obtain ⟨ts, hlen, rfl⟩ := check_terms_eq_ok hcheck
    obtain ⟨t, rfl⟩ := List.length_eq_one_iff.1 hlen
    simp [Input.toTerms]
  | goal g =>
    dsimp only
    split
    · split <;> simp
    · simp

end Rules

/-- A rule that is begun does not fault, and an answer that passes the check of its question settles
it, even if other Skolem constants are next by then. -/
theorem Rule.handler_settles (rule : Rule) (s : Situation) (next : String) :
    Gives (rule.handler s none)
      (Action.Settled fun input => rule.handler { s with nextSkolem := next } (some input)) := by
  cases rule with
  | tick => exact (tick_isStep s none).of_isStep fun _ => trivial
  | andIntro => exact (andIntro_isStep s none).of_isStep fun _ => trivial
  | andElim => exact andElim_settles s next
  | orIntro => exact orIntro_settles s next
  | orElim => exact orElim_settles s next
  | impliesIntro => exact impliesIntro_settles s next
  | impliesElim => exact impliesElim_settles s next
  | notIntro => exact notIntro_settles s next
  | notElim => exact notElim_settles s next
  | notNotIntro => exact (notNotIntro_isStep s none).of_isStep fun _ => trivial
  | notNotElim => exact (notNotElim_isStep s none).of_isStep fun _ => trivial
  | topIntro => exact (topIntro_isStep s none).of_isStep fun _ => trivial
  | bottomElim => exact bottomElim_settles s next
  | iffIntro => exact (iffIntro_isStep s none).of_isStep fun _ => trivial
  | iffElim => exact (iffElim_isStep s none).of_isStep fun _ => trivial
  | excludedMiddle => exact excludedMiddle_settles s next
  | contradiction => exact contradiction_settles s next
  | existsIntro => exact existsIntro_settles s next
  | existsElim => exact existsElim_settles s next
  | forallIntro => exact forallIntro_settles s next
  | forallElim => exact forallElim_settles s next
  | eqIntro => exact eqIntro_settles s next
  | eqElim => exact (eqElim_isStep s none).of_isStep fun _ => trivial
  | eqSymm => exact (eqSymm_isStep s none).of_isStep fun _ => trivial

end NaturalDeduction
