/-!
# Brackets

Formulas and argument lists are grouped by round or by square brackets.
-/

set_option autoImplicit false

namespace NaturalDeduction

/-- A kind of bracket. -/
inductive Bracket where
  | round
  | square
deriving DecidableEq

namespace Bracket

/-- The character that opens a group. -/
def opening : Bracket → Char
  | .round => '('
  | .square => '['

/-- The character that closes a group. -/
def closing : Bracket → Char
  | .round => ')'
  | .square => ']'

/-- The kind of bracket that a character opens. -/
def ofOpening? (c : Char) : Option Bracket :=
  if c = '(' then some .round else if c = '[' then some .square else none

/-- The kind of bracket that a character closes. -/
def ofClosing? (c : Char) : Option Bracket :=
  if c = ')' then some .round else if c = ']' then some .square else none

end Bracket

/-- Whether a character is a bracket of any kind. -/
def isBracket (c : Char) : Bool :=
  (Bracket.ofOpening? c).isSome || (Bracket.ofClosing? c).isSome

end NaturalDeduction
