import NaturalDeduction.Inference.Situation

/-!
# Rules for implication and equivalence

An implication is proved in a box that assumes its antecedent, and used by modus ponens.  An
equivalence is made of two implications and carries one side over to the other.
-/

set_option autoImplicit false

namespace NaturalDeduction

/-- Implication introduction.  Forwards, the implication has to be given. -/
def impliesIntro : Handler := fun s input => do
  s.require .none
  match s.target, input with
  | .gap, none => ask "Implication to prove" .formula
  | .gap, some input =>
    let f ← input.toFormula
    match f.sides? .implies with
    | some (a, b) => derive f [.box { assumption := some a, goal := b }]
    | none => s.rejectShape (.formula f) .implication
  | .goal g, _ =>
    match g.sides? .implies with
    | some (a, b) => justify [.box { assumption := some a, goal := b }]
    | none => s.rejectShape (.formula g) .implication

/-- What follows from an implication and its antecedent. -/
def modusPonens (implication antecedent : Formula) : Option Formula :=
  match implication.sides? .implies with
  | some (a, b) => if a = antecedent then some b else none
  | none => none

/-- Implication elimination.  Backwards, what is not cited becomes a goal; with nothing cited the
antecedent has to be given. -/
def impliesElim : Handler := fun s input => do
  match s.target with
  | .gap =>
    s.require .exactlyTwo
    match s.pair? modusPonens with
    | some (f, premises) => derive f premises
    | none => s.reject .needsImplicationAndAntecedent
  | .goal g =>
    match s.cites with
    | [] =>
      match input with
      | none => ask "Antecedent to use" .formula
      | some input =>
        let a ← input.toFormula
        justify [.goal (.binary .implies a g), .goal a]
    | [cited] =>
      match cited.formula.sides? .implies with
      | some (a, b) =>
        if b = g then justify [cited.premise, .goal a]
        else justify [.goal (.binary .implies cited.formula g), cited.premise]
      | none => justify [.goal (.binary .implies cited.formula g), cited.premise]
    | [_, _] =>
      match s.pair? fun implication antecedent =>
          (modusPonens implication antecedent).filter (· = g) with
      | some (_, premises) => justify premises
      | none => s.reject .noModusPonens
    | _ => s.wrongCount .atMostTwo

/-- The equivalence made of an implication and its converse. -/
def equivalenceOf (implication converse : Formula) : Option Formula :=
  match implication.sides? .implies with
  | some (a, b) =>
    if converse.sides? .implies = some (b, a) then some (.binary .iff a b) else none
  | none => none

/-- Equivalence introduction.  Backwards, what is not cited becomes a goal. -/
def iffIntro : Handler := fun s _ => do
  match s.target with
  | .gap =>
    s.require .exactlyTwo
    match s.pair? equivalenceOf with
    | some (f, premises) => derive f premises
    | none => s.reject .needsImplicationAndConverse
  | .goal g =>
    match g.sides? .iff with
    | none => s.rejectShape .goal .biconditional
    | some (a, b) =>
      s.require .atMostTwo
      let there := Formula.binary .implies a b
      let back := Formula.binary .implies b a
      match s.strayCite? [there, back] with
      | some cited => s.rejectShape cited.subject (.either there back)
      | none => justify [s.citedOrGoal there, s.citedOrGoal back]

/-- What follows from an equivalence and one of its sides. -/
def otherSide (equivalence side : Formula) : Option Formula :=
  match equivalence.sides? .iff with
  | some (a, b) => if a = side then some b else if b = side then some a else none
  | none => none

/-- Equivalence elimination.  Backwards, the other side becomes a goal if it is not cited. -/
def iffElim : Handler := fun s _ => do
  match s.target with
  | .gap =>
    s.require .exactlyTwo
    match s.pair? otherSide with
    | some (f, premises) => derive f premises
    | none => s.reject .needsBiconditionalAndSide
  | .goal g =>
    match s.cites with
    | [cited] =>
      match cited.formula.sides? .iff with
      | some (a, b) =>
        if b = g then justify [cited.premise, .goal a]
        else if a = g then justify [cited.premise, .goal b]
        else s.rejectShape cited.subject .biconditionalWithGoal
      | none => s.rejectShape cited.subject .biconditionalWithGoal
    | [_, _] =>
      match s.pair? fun equivalence side => (otherSide equivalence side).filter (· = g) with
      | some (_, premises) => justify premises
      | none => s.reject .doNotGiveGoal
    | _ => s.wrongCount .oneOrTwo

end NaturalDeduction
