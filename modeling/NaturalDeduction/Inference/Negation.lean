import NaturalDeduction.Inference.Situation

/-!
# Rules for negation, truth and falsehood

A negation is proved in a box that leads from what it negates to falsehood; a formula and its
negation together give falsehood, and falsehood gives anything.  Double negations can be added and
dropped, and a formula can be proved by contradiction.  The rule that repeats a line stands here
too.
-/

set_option autoImplicit false

namespace NaturalDeduction

/-- Repeats a cited line. -/
def tick : Handler := fun s _ => do
  let cited ← s.theCite
  match s.target with
  | .gap => derive cited.formula [cited.premise]
  | .goal g =>
    if g = cited.formula then justify [cited.premise] else s.rejectShape cited.subject .theGoal

/-- Truth introduction. -/
def topIntro : Handler := fun s _ => do
  s.require .none
  match s.target with
  | .gap => derive .top []
  | .goal g => if g = .top then justify [] else s.rejectShape .goal (.exactly .top)

/-- Falsehood elimination.  Forwards, the conclusion has to be given; backwards, falsehood becomes a
goal if it is not cited. -/
def bottomElim : Handler := fun s input => do
  match s.target with
  | .gap =>
    let cited ← s.theCite
    if cited.formula ≠ .bottom then
      s.rejectShape cited.subject (.exactly .bottom)
    else
      match input with
      | none => ask "Formula to conclude" .formula
      | some input => derive (← input.toFormula) [cited.premise]
  | .goal _ =>
    match ← s.cite? with
    | some cited =>
      if cited.formula = .bottom then justify [cited.premise]
      else s.rejectShape cited.subject (.exactly .bottom)
    | none => justify [.goal .bottom]

/-- Negation introduction.  Forwards, the negation has to be given. -/
def notIntro : Handler := fun s input => do
  s.require .none
  match s.target, input with
  | .gap, none => ask "Negation to prove" .formula
  | .gap, some input =>
    let f ← input.toFormula
    match f.negated? with
    | some a => derive f [.box { assumption := some a, goal := .bottom }]
    | none => s.rejectShape (.formula f) .negation
  | .goal g, _ =>
    match g.negated? with
    | some a => justify [.box { assumption := some a, goal := .bottom }]
    | none => s.rejectShape (.formula g) .negation

/-- Whether the second formula is the negation of the first. -/
def contradicts (f negation : Formula) : Option Unit :=
  if negation.negated? = some f then some () else none

/-- Negation elimination.  Backwards, what is not cited becomes a goal; with nothing cited the
formula to contradict has to be given. -/
def notElim : Handler := fun s input => do
  match s.target with
  | .gap =>
    s.require .exactlyTwo
    match s.pair? contradicts with
    | some (_, premises) => derive .bottom premises
    | none => s.reject .needsFormulaAndNegation
  | .goal g =>
    if g ≠ .bottom then
      s.rejectShape .goal (.exactly .bottom)
    else
      match s.cites with
      | [] =>
        match input with
        | none => ask "Formula to contradict" .formula
        | some input =>
          let f ← input.toFormula
          justify [.goal f, .goal (.neg f)]
      | [cited] =>
        match cited.formula.negated? with
        | some f => justify [.goal f, cited.premise]
        | none => justify [cited.premise, .goal (.neg cited.formula)]
      | [_, _] =>
        match s.pair? contradicts with
        | some (_, premises) => justify premises
        | none => s.reject .needsFormulaAndNegation
      | _ => s.wrongCount .atMostTwo

/-- Double negation introduction. -/
def notNotIntro : Handler := fun s _ => do
  match s.target with
  | .gap =>
    let cited ← s.theCite
    derive (.neg (.neg cited.formula)) [cited.premise]
  | .goal g =>
    match g.doublyNegated? with
    | none => s.rejectShape .goal .doubleNegation
    | some f =>
      match ← s.cite? with
      | some cited =>
        if cited.formula = f then justify [cited.premise]
        else s.rejectShape cited.subject (.exactly f)
      | none => justify [.goal f]

/-- Double negation elimination. -/
def notNotElim : Handler := fun s _ => do
  match s.target with
  | .gap =>
    let cited ← s.theCite
    match cited.formula.doublyNegated? with
    | some f => derive f [cited.premise]
    | none => s.rejectShape cited.subject .doubleNegation
  | .goal g =>
    let doubled := Formula.neg (.neg g)
    match ← s.cite? with
    | some cited =>
      if cited.formula = doubled then justify [cited.premise]
      else s.rejectShape cited.subject (.exactly doubled)
    | none => justify [.goal doubled]

/-- Proof by contradiction.  Forwards, the formula has to be given. -/
def contradiction : Handler := fun s input => do
  s.require .none
  match s.target, input with
  | .gap, none => ask "Formula to prove by contradiction" .formula
  | .gap, some input =>
    let f ← input.toFormula
    derive f [.box { assumption := some (.neg f), goal := .bottom }]
  | .goal g, _ => justify [.box { assumption := some (.neg g), goal := .bottom }]

end NaturalDeduction
