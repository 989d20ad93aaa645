import NaturalDeduction.Proofs.Inference.Answers

/-!
# What rules ask about

There are three ways in which a rule comes to ask: at an empty line with nothing cited, at an empty line
about the one cited line, and at a goal with nothing cited.  What it asks depends on no more than the
target and the formula of the cited line; line numbers and Skolem constants do not matter.  And a rule
that asks at a goal is refused at an empty line for want of citations, whatever the answer is
(`Rule.handler_asks`).

So a question that was asked once would be asked again wherever the same lines are seen (`Asks.again`),
and an answer that was meant for a goal is not taken for anything else (`Asks.refused`).
-/

set_option autoImplicit false

namespace NaturalDeduction

/-- How a handler comes to ask. -/
inductive Asks (handler : Handler) (s : Situation) (request : Request) : Prop
  | alone (htarget : s.target = .gap) (hcites : s.cites = [])
      (hagain : ∀ s' : Situation, s'.target = .gap → s'.cites = [] →
        handler s' none = .ok (.ask request))
  | cited (cited : CitedLine) (htarget : s.target = .gap) (hcites : s.cites = [cited])
      (hagain : ∀ (s' : Situation) (cited' : CitedLine), s'.target = .gap → s'.cites = [cited'] →
        cited'.formula = cited.formula → handler s' none = .ok (.ask request))
  | goal (g : Formula) (htarget : s.target = .goal g) (hcites : s.cites = [])
      (hagain : ∀ s' : Situation, s'.target = .goal g → s'.cites = [] →
        handler s' none = .ok (.ask request))
      (hrefused : ∀ (s' : Situation) (input : Option Input), s'.target = .gap → s'.cites = [] →
        ∃ expected, handler s' input = s'.wrongCount expected)

/-- The decision is a step, or a question that is asked in one of these ways. -/
def Action.Asks (handler : Handler) (s : Situation) : Action → Prop
  | .apply _ => True
  | .ask request => NaturalDeduction.Asks handler s request

/-- A step asks nothing. -/
@[simp] theorem asks_apply {handler : Handler} {s : Situation} {step : Step} :
    (Action.apply step).Asks handler s := trivial

/-- A computation that has succeeded goes on with its result. -/
theorem ok_bind {ε α β : Type} (a : α) (f : α → Except ε β) : ((.ok a : Except ε α) >>= f) = f a :=
  rfl

namespace Situation

variable {s : Situation} {cited : CitedLine}

/-- The only cited line is found. -/
theorem theCite_of_one (h : s.cites = [cited]) : s.theCite = .ok cited := by
  rw [theCite, h]

/-- With nothing cited, one line is asked for. -/
theorem theCite_of_nil (h : s.cites = []) : s.theCite = s.wrongCount .exactlyOne := by
  rw [theCite, h]

/-- The only cited line is found where one may be cited. -/
theorem cite?_of_one (h : s.cites = [cited]) : s.cite? = .ok (some cited) := by
  rw [cite?, h]

/-- Nothing need be cited where one line may be. -/
theorem cite?_of_nil (h : s.cites = []) : s.cite? = .ok none := by
  rw [cite?, h]

/-- Where nothing may be cited, citing nothing is in order. -/
theorem require_none_of_nil (h : s.cites = []) : s.require .none = .ok () := by
  rw [require, h]
  rfl

/-- Where two lines have to be cited, citing nothing is not in order. -/
theorem require_two_of_nil (h : s.cites = []) : s.require .exactlyTwo = s.wrongCount .exactlyTwo := by
  rw [require, h]
  rfl

/-- A rule that is refused for its citations does nothing else. -/
theorem wrongCount_bind {α β : Type} (expected : CiteCount) (f : α → Except Refusal β) :
    s.wrongCount expected >>= f = s.wrongCount expected := rfl

end Situation

/-- A rule that allows no citations goes on if there are none. -/
theorem gives_require_none {s : Situation} {q : Unit → Prop} :
    Gives (s.require .none) q ↔ (s.cites = [] → q ()) := by
  simp [CiteCount.admits]

/-! ### Rules that ask at empty lines only -/

section Rules

open Situation

variable (s : Situation)

/-- Conjunction elimination asks for a conjunct of the cited line, at an empty line. -/
theorem andElim_asks : Gives (andElim s none) (Action.Asks andElim s) := by
  simp only [andElim, gives_bind, gives_theCite]
  intro cited hcites
  split
  · simp
  · rename_i hparts
    cases htarget : s.target with
    | gap =>
      refine .cited cited htarget hcites fun s' cited' htarget' hcites' hf => ?_
      simp only [andElim, theCite_of_one hcites', ok_bind, htarget', hf, if_neg hparts]
      rfl
    | goal g =>
      dsimp only
      split <;> simp

/-- The law of excluded middle asks for its formula, at an empty line. -/
theorem excludedMiddle_asks : Gives (excludedMiddle s none) (Action.Asks excludedMiddle s) := by
  simp only [excludedMiddle, gives_bind, gives_require_none]
  intro hcites
  cases htarget : s.target with
  | gap =>
    refine .alone htarget hcites fun s' htarget' hcites' => ?_
    simp only [excludedMiddle, require_none_of_nil hcites', ok_bind, htarget']
    rfl
  | goal g =>
    dsimp only
    split
    · split <;> simp
    · simp

/-- Implication introduction asks for the implication, at an empty line. -/
theorem impliesIntro_asks : Gives (impliesIntro s none) (Action.Asks impliesIntro s) := by
  simp only [impliesIntro, gives_bind, gives_require_none]
  intro hcites
  cases htarget : s.target with
  | gap =>
    refine .alone htarget hcites fun s' htarget' hcites' => ?_
    simp only [impliesIntro, require_none_of_nil hcites', ok_bind, htarget']
    rfl
  | goal g =>
    dsimp only
    split <;> simp

/-- Negation introduction asks for the negation, at an empty line. -/
theorem notIntro_asks : Gives (notIntro s none) (Action.Asks notIntro s) := by
  simp only [notIntro, gives_bind, gives_require_none]
  intro hcites
  cases htarget : s.target with
  | gap =>
    refine .alone htarget hcites fun s' htarget' hcites' => ?_
    simp only [notIntro, require_none_of_nil hcites', ok_bind, htarget']
    rfl
  | goal g =>
    dsimp only
    split <;> simp

/-- A proof by contradiction asks for its formula, at an empty line. -/
theorem contradiction_asks : Gives (contradiction s none) (Action.Asks contradiction s) := by
  simp only [contradiction, gives_bind, gives_require_none]
  intro hcites
  cases htarget : s.target with
  | gap =>
    refine .alone htarget hcites fun s' htarget' hcites' => ?_
    simp only [contradiction, require_none_of_nil hcites', ok_bind, htarget']
    rfl
  | goal g => simp

/-- Universal introduction asks for the statement, at an empty line. -/
theorem forallIntro_asks : Gives (forallIntro s none) (Action.Asks forallIntro s) := by
  simp only [forallIntro, gives_bind, gives_require_none]
  intro hcites
  cases htarget : s.target with
  | gap =>
    refine .alone htarget hcites fun s' htarget' hcites' => ?_
    simp only [forallIntro, require_none_of_nil hcites', ok_bind, htarget']
    rfl
  | goal g => exact gives_bind.2 (gives_genericBox _ fun _ => trivial)

/-- Equality introduction asks for the term, at an empty line. -/
theorem eqIntro_asks : Gives (eqIntro s none) (Action.Asks eqIntro s) := by
  simp only [eqIntro, gives_bind, gives_require_none]
  intro hcites
  cases htarget : s.target with
  | gap =>
    refine .alone htarget hcites fun s' htarget' hcites' => ?_
    simp only [eqIntro, require_none_of_nil hcites', ok_bind, htarget']
    rfl
  | goal g =>
    dsimp only
    split
    · split <;> simp
    · simp

/-- Falsehood elimination asks for the conclusion, at an empty line. -/
theorem bottomElim_asks : Gives (bottomElim s none) (Action.Asks bottomElim s) := by
  rw [bottomElim]
  cases htarget : s.target with
  | gap =>
    simp only [gives_bind, gives_theCite]
    intro cited hcites
    split
    · simp
    · rename_i hbottom
      refine .cited cited htarget hcites fun s' cited' htarget' hcites' hf => ?_
      simp only [bottomElim, htarget', theCite_of_one hcites', ok_bind, hf, if_neg hbottom]
      rfl
  | goal g =>
    simp only [gives_bind, gives_cite?]
    refine ⟨by simp, fun cited _ => ?_⟩
    split <;> simp

/-! ### Rules that ask at goals -/

/-- Disjunction introduction asks for the disjunction at an empty line, and for the disjunct to
prove at a goal. -/
theorem orIntro_asks : Gives (orIntro s none) (Action.Asks orIntro s) := by
  rw [orIntro]
  cases htarget : s.target with
  | gap =>
    simp only [gives_bind, gives_theCite]
    intro cited hcites
    refine .cited cited htarget hcites fun s' cited' htarget' hcites' hf => ?_
    simp only [orIntro, htarget', theCite_of_one hcites', ok_bind]
    rfl
  | goal g =>
    dsimp only
    split
    · simp
    · rename_i hparts
      simp only [gives_bind, gives_cite?]
      refine ⟨fun hcites => .goal g htarget hcites (fun s' htarget' hcites' => ?_)
        fun s' input htarget' hcites' => ⟨.exactlyOne, ?_⟩, fun cited _ => ?_⟩
      · simp only [orIntro, htarget', if_neg hparts, cite?_of_nil hcites', ok_bind]
        rfl
      · simp only [orIntro, htarget', theCite_of_nil hcites', wrongCount_bind]
      · split <;> simp

/-- Disjunction elimination asks for the conclusion at an empty line, and for the disjunction at a
goal. -/
theorem orElim_asks : Gives (orElim s none) (Action.Asks orElim s) := by
  simp only [orElim, gives_bind, gives_cite?]
  refine ⟨fun hcites => ?_, fun cited hcites => ?_⟩
  · cases htarget : s.target with
    | gap => simp
    | goal g =>
      refine .goal g htarget hcites (fun s' htarget' hcites' => ?_)
        fun s' input htarget' hcites' => ⟨.exactlyOne, ?_⟩
      · simp only [orElim, htarget', cite?_of_nil hcites', ok_bind]
        rfl
      · simp only [orElim, htarget', cite?_of_nil hcites', ok_bind]
  · split
    · simp
    · rename_i hsides
      cases htarget : s.target with
      | gap =>
        refine .cited cited htarget hcites fun s' cited' htarget' hcites' hf => ?_
        simp only [orElim, htarget', cite?_of_one hcites', ok_bind, hf, if_neg hsides]
        rfl
      | goal g => simp

/-- Implication elimination asks for the antecedent, at a goal. -/
theorem impliesElim_asks : Gives (impliesElim s none) (Action.Asks impliesElim s) := by
  rw [impliesElim]
  cases htarget : s.target with
  | gap =>
    simp only [gives_bind, gives_require]
    intro _
    split <;> simp
  | goal g =>
    dsimp only
    split
    · rename_i hcites
      refine .goal g htarget hcites (fun s' htarget' hcites' => ?_)
        fun s' input htarget' hcites' => ⟨.exactlyTwo, ?_⟩
      · simp only [impliesElim, htarget', hcites']
        rfl
      · simp only [impliesElim, htarget', require_two_of_nil hcites', wrongCount_bind]
    · split
      · split <;> simp
      · simp
    · split <;> simp
    · simp

/-- Negation elimination asks for the formula to contradict, at a goal. -/
theorem notElim_asks : Gives (notElim s none) (Action.Asks notElim s) := by
  rw [notElim]
  cases htarget : s.target with
  | gap =>
    simp only [gives_bind, gives_require]
    intro _
    split <;> simp
  | goal g =>
    dsimp only
    split
    · simp
    · rename_i hbottom
      split
      · rename_i hcites
        refine .goal g htarget hcites (fun s' htarget' hcites' => ?_)
          fun s' input htarget' hcites' => ⟨.exactlyTwo, ?_⟩
        · simp only [notElim, htarget', if_neg hbottom, hcites']
          rfl
        · simp only [notElim, htarget', require_two_of_nil hcites', wrongCount_bind]
      · split <;> simp
      · split <;> simp
      · simp

/-- Existential introduction asks for the statement at an empty line, and for the terms at a goal.
-/
theorem existsIntro_asks : Gives (existsIntro s none) (Action.Asks existsIntro s) := by
  rw [existsIntro]
  cases htarget : s.target with
  | gap =>
    simp only [gives_bind, gives_theCite]
    intro cited hcites
    refine .cited cited htarget hcites fun s' cited' htarget' hcites' hf => ?_
    simp only [existsIntro, htarget', theCite_of_one hcites', ok_bind]
    rfl
  | goal g =>
    dsimp only
    split
    · simp
    · rename_i hvars
      simp only [gives_bind, gives_cite?]
      refine ⟨fun hcites => .goal g htarget hcites (fun s' htarget' hcites' => ?_)
        fun s' input htarget' hcites' => ⟨.exactlyOne, ?_⟩, fun cited _ => ?_⟩
      · simp only [existsIntro, htarget', if_neg hvars, cite?_of_nil hcites', ok_bind]
        rfl
      · simp only [existsIntro, htarget', theCite_of_nil hcites', wrongCount_bind]
      · split <;> simp

/-- Existential elimination asks for the conclusion at an empty line, and for the existential
statement at a goal. -/
theorem existsElim_asks : Gives (existsElim s none) (Action.Asks existsElim s) := by
  simp only [existsElim, gives_bind, gives_cite?]
  refine ⟨fun hcites => ?_, fun cited hcites => ?_⟩
  · cases htarget : s.target with
    | gap => simp
    | goal g =>
      refine .goal g htarget hcites (fun s' htarget' hcites' => ?_)
        fun s' input htarget' hcites' => ⟨.exactlyOne, ?_⟩
      · simp only [existsElim, htarget', cite?_of_nil hcites', ok_bind]
        rfl
      · simp only [existsElim, htarget', cite?_of_nil hcites', ok_bind]
  · cases htarget : s.target with
    | gap =>
      dsimp only
      split
      · simp
      · rename_i hbinder
        refine .cited cited htarget hcites fun s' cited' htarget' hcites' hf => ?_
        simp only [existsElim, htarget', cite?_of_one hcites', ok_bind, hf, if_neg hbinder]
        rfl
    | goal g =>
      dsimp only
      split
      · simp
      · exact gives_bind.2 (gives_witnessBox _ fun _ => trivial)

/-- Universal elimination asks for the terms at an empty line, and for the universal statement at a
goal. -/
theorem forallElim_asks : Gives (forallElim s none) (Action.Asks forallElim s) := by
  rw [forallElim]
  cases htarget : s.target with
  | gap =>
    simp only [gives_bind, gives_theCite]
    intro cited hcites
    split
    · simp
    · rename_i hvars
      refine .cited cited htarget hcites fun s' cited' htarget' hcites' hf => ?_
      simp only [forallElim, htarget', theCite_of_one hcites', ok_bind, hf, if_neg hvars]
      rfl
  | goal g =>
    simp only [gives_bind, gives_cite?]
    refine ⟨fun hcites => .goal g htarget hcites (fun s' htarget' hcites' => ?_)
      fun s' input htarget' hcites' => ⟨.exactlyOne, ?_⟩, fun cited _ => ?_⟩
    · simp only [forallElim, htarget', cite?_of_nil hcites', ok_bind]
      rfl
    · simp only [forallElim, htarget', theCite_of_nil hcites', wrongCount_bind]
    · split <;> simp

end Rules

/-- Whatever a rule asks, it asks in one of the three ways. -/
theorem Rule.handler_asks (rule : Rule) {s : Situation} {request : Request}
    (h : rule.handler s none = .ok (.ask request)) : Asks rule.handler s request := by
  suffices hasks : Gives (rule.handler s none) (Action.Asks rule.handler s) from hasks.of_eq_ok h
  cases rule with
  | tick => exact (tick_isStep s none).of_isStep fun _ => trivial
  | andIntro => exact (andIntro_isStep s none).of_isStep fun _ => trivial
  | andElim => exact andElim_asks s
  | orIntro => exact orIntro_asks s
  | orElim => exact orElim_asks s
  | impliesIntro => exact impliesIntro_asks s
  | impliesElim => exact impliesElim_asks s
  | notIntro => exact notIntro_asks s
  | notElim => exact notElim_asks s
  | notNotIntro => exact (notNotIntro_isStep s none).of_isStep fun _ => trivial
  | notNotElim => exact (notNotElim_isStep s none).of_isStep fun _ => trivial
  | topIntro => exact (topIntro_isStep s none).of_isStep fun _ => trivial
  | bottomElim => exact bottomElim_asks s
  | iffIntro => exact (iffIntro_isStep s none).of_isStep fun _ => trivial
  | iffElim => exact (iffElim_isStep s none).of_isStep fun _ => trivial
  | excludedMiddle => exact excludedMiddle_asks s
  | contradiction => exact contradiction_asks s
  | existsIntro => exact existsIntro_asks s
  | existsElim => exact existsElim_asks s
  | forallIntro => exact forallIntro_asks s
  | forallElim => exact forallElim_asks s
  | eqIntro => exact eqIntro_asks s
  | eqElim => exact (eqElim_isStep s none).of_isStep fun _ => trivial
  | eqSymm => exact (eqSymm_isStep s none).of_isStep fun _ => trivial

/-! ### Asking again -/

/-- Two situations show the same lines: the same target, and the same formulas cited. -/
structure Situation.SameLines (s s' : Situation) : Prop where
  target : s'.target = s.target
  formulas : s'.cites.map CitedLine.formula = s.cites.map CitedLine.formula

namespace Asks

variable {handler : Handler} {s s' : Situation} {request : Request}

/-- A question is asked again where the same lines are seen. -/
theorem again (h : Asks handler s request) (hsame : s.SameLines s') :
    handler s' none = .ok (.ask request) := by
  obtain ⟨htarget', hformulas⟩ := hsame
  cases h with
  | alone htarget hcites hagain =>
    rw [hcites, List.map_nil, List.map_eq_nil_iff] at hformulas
    exact hagain s' (htarget'.trans htarget) hformulas
  | cited cited htarget hcites hagain =>
    rw [hcites, List.map_singleton] at hformulas
    obtain ⟨cited', hcites', hf⟩ := List.map_eq_singleton_iff.1 hformulas
    exact hagain s' cited' (htarget'.trans htarget) hcites' hf
  | goal g htarget hcites hagain _ =>
    rw [hcites, List.map_nil, List.map_eq_nil_iff] at hformulas
    exact hagain s' (htarget'.trans htarget) hformulas

/-- A rule that asks at a goal has nothing cited, and it is refused where the target is an empty
line. -/
theorem refused (h : Asks handler s request) {g : Formula} (hgoal : s.target = .goal g) :
    s.cites = [] ∧ ∀ (s' : Situation) (input : Option Input), s'.target = .gap → s'.cites = [] →
      ∃ expected, handler s' input = s'.wrongCount expected := by
  cases h with
  | alone htarget _ _ => simp [htarget] at hgoal
  | cited _ htarget _ _ => simp [htarget] at hgoal
  | goal _ _ hcites _ hrefused => exact ⟨hcites, hrefused⟩

end Asks

end NaturalDeduction
