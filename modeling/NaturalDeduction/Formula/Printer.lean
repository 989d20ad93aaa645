import NaturalDeduction.Formula

/-!
# Formulas as text

`Formula.render` writes a formula with as few brackets as its precedences allow, with Unicode or
with ASCII operators.  `Formula.treeText` writes the tree itself: every connective bracketed, every
name with its kind.
-/

set_option autoImplicit false

namespace NaturalDeduction

/-- How the operators of a formula are written. -/
structure Style where
  /-- The sign of negation. -/
  neg : String
  /-- The sign of a connective. -/
  connective : Connective → String
  /-- The sign of a quantifier. -/
  quantifier : Quantifier → String

namespace Style

/-- The usual signs of logic. -/
def unicode : Style where
  neg := "¬"
  connective
    | .and => "∧"
    | .or => "∨"
    | .implies => "→"
    | .iff => "↔"
  quantifier
    | .all => "∀"
    | .ex => "∃"

/-- Signs in ASCII. -/
def ascii : Style where
  neg := "~"
  connective
    | .and => "&"
    | .or => "|"
    | .implies => "->"
    | .iff => "<->"
  quantifier
    | .all => "(A)"
    | .ex => "(E)"

end Style

namespace Connective

/-- The connective by name, for tree texts. -/
def name : Connective → String
  | .and => "And"
  | .or => "Or"
  | .implies => "Implies"
  | .iff => "Iff"

/-- Whether an operand of the given precedence can stand beside the connective unbracketed: it
binds tighter, or equally tight and the connective is associative. -/
def accepts (op : Connective) (precedence : Nat) : Bool :=
  precedence < op.precedence || (precedence == op.precedence && op.isAssociative)

end Connective

namespace Quantifier

/-- The quantifier by name, for tree texts. -/
def name : Quantifier → String
  | .all => "ForAll"
  | .ex => "Exists"

end Quantifier

namespace Formula

/-- Round brackets around a text that needs them. -/
def bracketed (needed : Bool) (text : String) : String :=
  if needed then "(" ++ text ++ ")" else text

/-- The formula as text, with as few brackets as possible.  Truth and falsehood have one sign in
every style, and the body of a quantifier always stands in square brackets. -/
def render (style : Style) : Formula → String
  | .prop name => name
  | .rel name args => (Term.app name args).text
  | .eq left right => left.text ++ " = " ++ right.text
  | .top => "⊤"
  | .bottom => "⊥"
  | .neg body => style.neg ++ bracketed (prefixPrecedence < body.precedence) (body.render style)
  | .binary op left right =>
    bracketed (!op.accepts left.precedence) (left.render style) ++ " " ++ style.connective op ++
      " " ++ bracketed (!op.accepts right.precedence) (right.render style)
  | .quant q var body => style.quantifier q ++ var ++ "[" ++ body.render style ++ "]"

/-- The formula in the usual signs of logic. -/
def text (f : Formula) : String :=
  f.render .unicode

/-- The tree of a formula as text. -/
def treeText : Formula → String
  | .prop name => name
  | .rel name args => (Term.app name args).treeText
  | .eq left right => "(" ++ left.treeText ++ " = " ++ right.treeText ++ ")"
  | .top => "T"
  | .bottom => "F"
  | .neg body => "¬" ++ body.treeText
  | .binary op left right =>
    "(" ++ left.treeText ++ " " ++ op.name ++ " " ++ right.treeText ++ ")"
  | .quant q var body => q.name ++ " " ++ var ++ ". " ++ body.treeText

end Formula
end NaturalDeduction
