import NaturalDeduction.Inference.Situation
import NaturalDeduction.Replacement

/-!
# Rules for equations

Every term equals itself, an equation can be turned round, and it allows one of its sides to be put
in place of the other.
-/

set_option autoImplicit false

namespace NaturalDeduction

/-- Equality introduction.  Forwards, the term has to be given. -/
def eqIntro : Handler := fun s input => do
  s.require .none
  match s.target, input with
  | .gap, none => ask "Term to equate with itself" (.terms 1)
  | .gap, some input =>
    match ← input.toTerms with
    | t :: _ => derive (.eq t t) []
    | [] => throw (.fault .unexpectedInput)
  | .goal g, _ =>
    match g.equated? with
    | some (a, b) => if a = b then justify [] else s.rejectShape .goal .reflexiveEquation
    | none => s.rejectShape .goal .reflexiveEquation

/-- The formula in which the right side of an equation stands everywhere in place of the left one;
there must be at least one such place. -/
def replaceEverywhere (equation f : Formula) : Option Formula :=
  match equation.equated? with
  | some (a, b) => if 0 < f.occurrences a then some (f.replace a b) else none
  | none => none

/-- Whether a goal arises from another formula by putting the right side of an equation in some
places of the left one. -/
def replaceSomewhere (goal equation f : Formula) : Option Unit :=
  match equation.equated? with
  | some (a, b) => if f ≠ goal && f.becomes a b goal then some () else none
  | none => none

/-- Equality elimination.  Forwards, the left side of the equation is replaced everywhere; backwards
with two cited lines it may be replaced in some places only, and with only the equation cited the
goal before the replacement becomes a goal. -/
def eqElim : Handler := fun s _ => do
  match s.target with
  | .gap =>
    s.require .exactlyTwo
    match s.pair? replaceEverywhere with
    | some (f, premises) => derive f premises
    | none => s.reject .nothingToReplace
  | .goal g =>
    match s.cites with
    | [cited] =>
      match cited.formula.equated? with
      | none => s.rejectShape cited.subject .equation
      | some (a, b) =>
        if g.occurrences b = 0 then s.reject (.goalDoesNotMention b)
        else justify [cited.premise, .goal (g.replace b a)]
    | [_, _] =>
      match s.pair? (replaceSomewhere g) with
      | some (_, premises) => justify premises
      | none => s.rejectShape .goal .replacementInCited
    | _ => s.wrongCount .oneOrTwo

/-- Turns an equation round. -/
def eqSymm : Handler := fun s _ => do
  match s.target with
  | .gap =>
    let cited ← s.theCite
    match cited.formula.equated? with
    | some (a, b) => derive (.eq b a) [cited.premise]
    | none => s.rejectShape cited.subject .equation
  | .goal g =>
    match g.equated? with
    | none => s.rejectShape .goal .equation
    | some (a, b) =>
      match ← s.cite? with
      | none => justify [.goal (.eq b a)]
      | some cited =>
        if cited.formula = .eq b a then justify [cited.premise]
        else s.rejectShape cited.subject (.exactly (.eq b a))

end NaturalDeduction
