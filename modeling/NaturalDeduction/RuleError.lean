import NaturalDeduction.Formula.Printer
import NaturalDeduction.Rule

/-!
# Why a rule does not apply

The causes for which a rule is refused, each with its wording.  Most refusals of a rule say that
something is not of the shape the rule needs; `Mismatch` describes these.
-/

set_option autoImplicit false

namespace NaturalDeduction

/-- How many lines a rule wants to be cited. -/
inductive CiteCount where
  | none
  | exactlyOne
  | atMostOne
  | exactlyTwo
  | atLeastTwo
  | atMostTwo
  | oneOrTwo
deriving DecidableEq

namespace CiteCount

/-- Whether a number of citations is what the rule wants. -/
def admits : CiteCount → Nat → Bool
  | .none, n => n == 0
  | .exactlyOne, n => n == 1
  | .atMostOne, n => n ≤ 1
  | .exactlyTwo, n => n == 2
  | .atLeastTwo, n => 2 ≤ n
  | .atMostTwo, n => n ≤ 2
  | .oneOrTwo, n => n == 1 || n == 2

/-- The number in words. -/
def text : CiteCount → String
  | .none => "no"
  | .exactlyOne => "exactly one"
  | .atMostOne => "at most one"
  | .exactlyTwo => "exactly two"
  | .atLeastTwo => "at least two"
  | .atMostTwo => "at most two"
  | .oneOrTwo => "one or two"

end CiteCount

/-- What a refusal is about. -/
inductive Subject where
  /-- The goal the rule works on. -/
  | goal
  /-- A cited line. -/
  | line (number : Nat)
  /-- A formula given as input. -/
  | formula (f : Formula)
deriving DecidableEq

/-- The subject in words. -/
def Subject.text : Subject → String
  | .goal => "the goal"
  | .line number => "line " ++ number.repr
  | .formula f => f.text

/-- What a rule expects of a formula. -/
inductive Expectation where
  | conjunction
  | disjunction
  | implication
  | biconditional
  | negation
  | doubleNegation
  | existential
  | universal
  | equation
  /-- To be the goal. -/
  | theGoal
  /-- To be this formula. -/
  | exactly (f : Formula)
  /-- To be one of two formulas. -/
  | either (f g : Formula)
  | conjunctOf (whole : Subject)
  | disjunctOf (whole : Subject)
  | instanceOf (general : Subject)
  | biconditionalWithGoal
  | excludedMiddle
  | reflexiveEquation
  | replacementInCited
deriving DecidableEq

/-- The expectation in words. -/
def Expectation.text : Expectation → String
  | .conjunction => "a conjunction"
  | .disjunction => "a disjunction"
  | .implication => "an implication"
  | .biconditional => "a biconditional"
  | .negation => "a negation"
  | .doubleNegation => "a double negation"
  | .existential => "existential"
  | .universal => "universal"
  | .equation => "an equation"
  | .theGoal => "the goal"
  | .exactly f => f.text
  | .either f g => f.text ++ " or " ++ g.text
  | .conjunctOf whole => "a conjunct of " ++ whole.text
  | .disjunctOf whole => "a disjunct of " ++ whole.text
  | .instanceOf general => "an instance of " ++ general.text
  | .biconditionalWithGoal => "a biconditional with the goal as a side"
  | .excludedMiddle => "of the form φ ∨ ¬φ"
  | .reflexiveEquation => "of the form t = t"
  | .replacementInCited => "a rewrite of a cited line"

/-- Why the lines at hand are not what a rule works on. -/
inductive Mismatch where
  | isNot (subject : Subject) (expected : Expectation)
  | needsImplicationAndAntecedent
  | needsImplicationAndConverse
  | needsBiconditionalAndSide
  | needsFormulaAndNegation
  | noModusPonens
  | doNotGiveGoal
  | nothingToReplace
  | goalDoesNotMention (t : Term)
deriving DecidableEq

/-- The mismatch in words. -/
def Mismatch.message : Mismatch → String
  | .isNot subject expected => subject.text ++ " is not " ++ expected.text
  | .needsImplicationAndAntecedent => "need an implication and its antecedent"
  | .needsImplicationAndConverse => "need an implication and its converse"
  | .needsBiconditionalAndSide => "need a biconditional and one of its sides"
  | .needsFormulaAndNegation => "need a formula and its negation"
  | .noModusPonens => "the cited lines do not give the goal by modus ponens"
  | .doNotGiveGoal => "the cited lines do not give the goal"
  | .nothingToReplace => "no cited equation rewrites the other line"
  | .goalDoesNotMention t => "the goal does not mention " ++ t.text

/-- What kind of answer a waiting rule accepts. -/
inductive AnswerKind where
  | formula
  | choice
  | oneTerm
  | termPerVariable
  /-- A choice given as text. -/
  | optionNumber
deriving DecidableEq

/-- The kind of answer in words. -/
def AnswerKind.text : AnswerKind → String
  | .formula => "a formula"
  | .choice => "a choice"
  | .oneTerm => "one term"
  | .termPerVariable => "one term per quantified variable"
  | .optionNumber => "the number of an option"

/-- Why a rule was refused. -/
inductive RuleError where
  /-- Neither an empty line nor a goal is selected. -/
  | noTarget
  /-- Several empty lines or goals are selected. -/
  | manyTargets (count : Nat)
  /-- A line that introduces constants is selected. -/
  | citesConstants (line : Nat)
  /-- A cited line stands behind the target. -/
  | citesLaterLine (line target : Nat)
  /-- A cited line stands in a box that does not hold the target. -/
  | outOfScope (line target : Nat)
  /-- The number of cited lines is wrong. -/
  | wrongCount (rule : Rule) (expected : CiteCount) (found : Nat)
  /-- The rule does not fit the lines or the input. -/
  | invalid (rule : Rule) (mismatch : Mismatch)
  /-- The input mentions a Skolem constant outside its box. -/
  | skolemEscape (name : String) (target : Nat)
  /-- An answer was given although nothing was asked. -/
  | noPending
  /-- The lines a waiting rule works on are gone. -/
  | stalePending
  /-- The answer is not of the kind asked for. -/
  | wrongInput (expected : AnswerKind)
  /-- The option chosen does not exist. -/
  | badChoice (index : Nat)
  /-- There is no proof yet. -/
  | noProof
  /-- A selected line does not exist. -/
  | noSuchLine (number : Nat)
deriving DecidableEq

/-- The error in words. -/
def RuleError.message : RuleError → String
  | .noTarget => "select one empty line or goal line to work on"
  | .manyTargets count =>
    "only one empty line or goal line may be selected, " ++ count.repr ++ " were"
  | .citesConstants line =>
    "line " ++ line.repr ++ " introduces constants and cannot be cited"
  | .citesLaterLine line target =>
    "line " ++ line.repr ++ " does not come before line " ++ target.repr
  | .outOfScope line target =>
    "line " ++ line.repr ++ " is out of scope for line " ++ target.repr ++
      ": it is inside a box that does not contain line " ++ target.repr
  | .wrongCount rule expected found =>
    rule.name ++ " needs " ++ expected.text ++ " selected line(s), but " ++ found.repr ++
      " were selected"
  | .invalid rule mismatch => rule.name ++ ": " ++ mismatch.message
  | .skolemEscape name target =>
    "constant '" ++ name ++ "' is not available at line " ++ target.repr
  | .noPending => "no rule is waiting for input"
  | .stalePending => "the lines the pending rule works on are gone, apply it again"
  | .wrongInput expected => "expected " ++ expected.text
  | .badChoice index => "choice " ++ index.repr ++ " is not one of the options"
  | .noProof => "no proof has been started"
  | .noSuchLine number => "there is no line " ++ number.repr

end NaturalDeduction
