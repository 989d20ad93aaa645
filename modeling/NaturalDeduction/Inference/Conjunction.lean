import NaturalDeduction.Inference.Situation

/-!
# Rules for conjunction

A conjunction of several formulas is introduced from all of them, however it is bracketed, and gives
each of them back.
-/

set_option autoImplicit false

namespace NaturalDeduction

/-- What a goal `left ∧ right` is introduced from: its two sides if every cited line is one of them,
and otherwise the operands of the whole conjunction. -/
def conjuncts (s : Situation) (goal left right : Formula) : List Formula :=
  if s.cites.all fun cited => cited.formula ∈ [left, right] then [left, right]
  else goal.flatten .and

/-- Conjunction introduction.  Forwards, the cited lines are joined; backwards, what is not cited
becomes a goal. -/
def andIntro : Handler := fun s _ => do
  match s.target with
  | .gap =>
    s.require .atLeastTwo
    match Formula.chain? .and (s.cites.map CitedLine.formula) with
    | some f => derive f s.allCites
    | none => .error (.fault .nothingToJoin)
  | .goal g =>
    match g.sides? .and with
    | none => s.rejectShape .goal .conjunction
    | some (left, right) =>
      let parts := conjuncts s g left right
      match s.strayCite? parts with
      | some cited => s.rejectShape cited.subject (.conjunctOf .goal)
      | none => justify (parts.map s.citedOrGoal)

/-- Conjunction elimination.  Forwards, the conjunct has to be chosen. -/
def andElim : Handler := fun s input => do
  let cited ← s.theCite
  let parts := cited.formula.operands .and
  if parts.length < 2 then
    s.rejectShape cited.subject .conjunction
  else
    match s.target, input with
    | .gap, none => askWhich "Which conjunct?" parts
    | .gap, some input => derive (← input.toOption parts) [cited.premise]
    | .goal g, _ =>
      if g ∈ parts then justify [cited.premise]
      else s.rejectShape .goal (.conjunctOf cited.subject)

end NaturalDeduction
