import NaturalDeduction.Formula

/-!
# Operators and their spellings

The operators a formula can be written with are negation, the connectives and the quantifiers.
Each has one canonical symbol and several spellings.  `Operator.scan?` finds the longest spelling
at the start of a text.
-/

set_option autoImplicit false

namespace NaturalDeduction

/-- An operator as it is written in a formula. -/
inductive Operator where
  | not
  | binary (op : Connective)
  | quantifier (q : Quantifier)
deriving DecidableEq

namespace Operator

/-- Every spelling of every operator. -/
def spellings : List (String × Operator) :=
  [("~", .not), ("˜", .not), ("¬", .not), ("!", .not),
   ("∧", .binary .and), ("^", .binary .and), (".", .binary .and), ("·", .binary .and),
   ("&", .binary .and), ("&&", .binary .and),
   ("∨", .binary .or), ("+", .binary .or), ("|", .binary .or), ("||", .binary .or),
   ("→", .binary .implies), ("⇒", .binary .implies), ("⊃", .binary .implies),
   ("->", .binary .implies), (">", .binary .implies),
   ("↔", .binary .iff), ("⇔", .binary .iff), ("≡", .binary .iff), ("<->", .binary .iff),
   ("<>", .binary .iff),
   ("∀", .quantifier .all), ("(A)", .quantifier .all),
   ("∃", .quantifier .ex), ("(E)", .quantifier .ex)]

/-- The canonical symbol. -/
def symbol : Operator → String
  | .not => "¬"
  | .binary .and => "∧"
  | .binary .or => "∨"
  | .binary .implies => "→"
  | .binary .iff => "↔"
  | .quantifier .all => "∀"
  | .quantifier .ex => "∃"

/-- How loosely the operator binds. -/
def priority : Operator → Nat
  | .not | .quantifier _ => Formula.prefixPrecedence
  | .binary op => op.precedence

/-- Whether the operator is a quantifier. -/
def isQuantifier : Operator → Bool
  | .quantifier _ => true
  | _ => false

/-- Whether the operator stands before a single operand. -/
def isUnary : Operator → Bool
  | .binary _ => false
  | _ => true

/-- The operator with exactly the given spelling. -/
def ofSpelling? (text : List Char) : Option Operator :=
  (spellings.find? fun entry => entry.1.toList == text).map Prod.snd

/-- The operator at the start of a text, with the longest of its spellings that stands there.  No
spelling has more than three characters. -/
def scan? (text : List Char) : Option (Operator × List Char) :=
  [3, 2, 1].findSome? fun n => (ofSpelling? (text.take n)).map fun op => (op, text.take n)

/-- Whether a character can begin an operator.  An opening bracket is excepted, although two
spellings begin with one: a bracket that begins neither of them is still a bracket. -/
def isLead (c : Char) : Bool :=
  c != '(' && spellings.any fun entry => entry.1.toList.head? == some c

end Operator
end NaturalDeduction
