import NaturalDeduction.Inference.Situation

/-!
# Rules for disjunction

A disjunction follows from each of its operands.  It is used by a distinction of cases: one box for
each operand, all with the same goal.  The law of excluded middle stands here too.
-/

set_option autoImplicit false

namespace NaturalDeduction

/-- Disjunction introduction.  Forwards, the disjunction has to be given; backwards without a cited
line, the operand to prove has to be chosen. -/
def orIntro : Handler := fun s input => do
  match s.target with
  | .gap =>
    let cited ← s.theCite
    match input with
    | none => ask "Disjunction to introduce" .formula
    | some input =>
      let d ← input.toFormula
      if cited.formula ∉ d.operands .or || (d.sides? .or).isNone then
        s.rejectShape cited.subject (.disjunctOf (.formula d))
      else derive d [cited.premise]
  | .goal g =>
    let parts := g.operands .or
    if parts.length < 2 then
      s.rejectShape .goal .disjunction
    else
      match ← s.cite?, input with
      | some cited, _ =>
        if cited.formula ∈ parts then justify [cited.premise]
        else s.rejectShape cited.subject (.disjunctOf .goal)
      | none, none => askWhich "Which disjunct?" parts
      | none, some input => justify [.goal (← input.toOption parts)]

/-- One box for each case, all towards one goal.  All boxes but the last stand flush against the
next. -/
def caseBoxes (goal : Formula) : List Formula → List Premise
  | [] => []
  | [case] => [.box { assumption := some case, goal }]
  | case :: cases =>
    .box { assumption := some case, goal, adjacent := true } :: caseBoxes goal cases

/-- Disjunction elimination.  Forwards, the conclusion has to be given; backwards without a cited
line, the disjunction has to be given and becomes a goal. -/
def orElim : Handler := fun s input => do
  let cited? ← s.cite?
  match cited? with
  | some cited =>
    if (cited.formula.sides? .or).isNone then
      s.rejectShape cited.subject .disjunction
    else
      let cases := cited.formula.flatten .or
      match s.target, input with
      | .gap, none => ask "Conclusion of every case" .formula
      | .gap, some input =>
        let conclusion ← input.toFormula
        derive conclusion (cited.premise :: caseBoxes conclusion cases)
      | .goal g, _ => justify (cited.premise :: caseBoxes g cases)
  | none =>
    match s.target, input with
    | .gap, _ => s.wrongCount .exactlyOne
    | .goal _, none => ask "Disjunction to split on" .formula
    | .goal g, some input =>
      let d ← input.toFormula
      if (d.sides? .or).isNone then
        s.rejectShape (.formula d) .disjunction
      else justify (.goal d :: caseBoxes g (d.flatten .or))

/-- The law of excluded middle. -/
def excludedMiddle : Handler := fun s input => do
  s.require .none
  match s.target with
  | .gap =>
    match input with
    | none => ask "Formula for the excluded middle" .formula
    | some input =>
      let f ← input.toFormula
      derive (.binary .or f (.neg f)) []
  | .goal g =>
    match g.sides? .or with
    | some (f, opposite) =>
      if opposite.negated? = some f then justify [] else s.rejectShape .goal .excludedMiddle
    | none => s.rejectShape .goal .excludedMiddle

end NaturalDeduction
