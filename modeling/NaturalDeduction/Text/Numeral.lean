/-!
# Numerals

Reading a number written in base ten.
-/

set_option autoImplicit false

namespace NaturalDeduction.Text

/-- The value of a digit in base ten. -/
def digit? (c : Char) : Option Nat :=
  if '0' ≤ c && c ≤ '9' then some (c.toNat - 48) else none

/-- The value of digits that follow a number already read. -/
def digitsFrom (value : Nat) : List Char → Option Nat
  | [] => some value
  | c :: cs =>
    match digit? c with
    | some d => digitsFrom (10 * value + d) cs
    | none => none

/-- The value of one or more digits. -/
def digits? : List Char → Option Nat
  | [] => none
  | cs => digitsFrom 0 cs

/-- A number below a limit: one or more digits, with a plus sign before them or not. -/
def number? (limit : Nat) (text : List Char) : Option Nat :=
  let value := match text with
    | '+' :: cs => digits? cs
    | cs => digits? cs
  value.filter (· < limit)

end NaturalDeduction.Text
