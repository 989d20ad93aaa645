import NaturalDeduction.Bracket
import NaturalDeduction.Operator

/-!
# Why a text is no formula

The causes for which a text cannot be read as a formula or a term, and their wording.
-/

set_option autoImplicit false

namespace NaturalDeduction

/-- The kinds of symbols that take arguments. -/
inductive SymbolKind where
  | relation
  | function
deriving DecidableEq

/-- The kind in words. -/
def SymbolKind.text : SymbolKind → String
  | .relation => "relation"
  | .function => "function"

/-- Why a text could not be read. -/
inductive ParseError where
  /-- There is nothing to read. -/
  | empty
  /-- A character begins operators, but none stands here. -/
  | unknownOperator (c : Char)
  /-- A bracket has no partner. -/
  | unmatchedBracket (c : Char)
  /-- A group is closed by a bracket of the other kind. -/
  | mismatchedBracket (opening closing : Bracket)
  /-- An operator has too few operands. -/
  | missingOperand (op : Operator)
  /-- Two operands stand side by side. -/
  | missingOperator
  /-- No variable follows a quantifier. -/
  | missingVariable (q : Quantifier)
  /-- A symbol has been used with another number of arguments before. -/
  | arityConflict (kind : SymbolKind) (name : String) (expected found : Nat)
  /-- An equation has an empty side or more than two sides. -/
  | malformedEquation (text : String)
  /-- A name is empty or holds a character that no name may hold. -/
  | invalidName (text : String)
  /-- A list of arguments has an empty place. -/
  | emptyArgument (text : String)
deriving DecidableEq

namespace ParseError

/-- The error in words. -/
def message : ParseError → String
  | .empty => "empty formula"
  | .unknownOperator c => "unknown operator symbol '" ++ c.toString ++ "'"
  | .unmatchedBracket c => "unmatched '" ++ c.toString ++ "'"
  | .mismatchedBracket opening closing =>
    "'" ++ closing.closing.toString ++ "' does not match '" ++ opening.opening.toString ++ "'"
  | .missingOperand op => "incomplete formula: '" ++ op.symbol ++ "' is missing an operand"
  | .missingOperator => "missing operator between operands"
  | .missingVariable q =>
    "quantifier '" ++ (Operator.quantifier q).symbol ++ "' needs a bound variable"
  | .arityConflict kind name expected found =>
    kind.text ++ " '" ++ name ++ "' takes " ++ expected.repr ++
      " argument(s), but is used with " ++ found.repr
  | .malformedEquation text =>
    "malformed equality '" ++ text ++ "': expected exactly two sides"
  | .invalidName text => "invalid name '" ++ text ++ "'"
  | .emptyArgument text => "empty argument in '" ++ text ++ "'"

end ParseError
end NaturalDeduction
