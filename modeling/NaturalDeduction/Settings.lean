import NaturalDeduction.Formula.Printer

/-!
# Settings

The switches of an assistant.
-/

set_option autoImplicit false

namespace NaturalDeduction

/-- How an assistant behaves. -/
structure Settings where
  /-- Formulas are shown with ASCII operators. -/
  ascii : Bool := false
  /-- Goals are closed and finished empty lines dropped after every step. -/
  autoComplete : Bool := true
  /-- Answers must not mention a Skolem constant outside its box. -/
  checkSkolemScope : Bool := true
deriving DecidableEq

/-- The style in which formulas are shown. -/
def Settings.style (settings : Settings) : Style :=
  if settings.ascii then .ascii else .unicode

end NaturalDeduction
