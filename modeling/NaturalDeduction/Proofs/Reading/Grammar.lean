import NaturalDeduction.Proofs.Reading.WellFormed

/-!
# The grammar of formulas

Which texts are formulas, and which formula a text is, said without reference to how texts are read.

A formula is an atomic formula, a formula in brackets, a negation, a quantified formula, or two
formulas with a connective between them.  Every operator may be written in any of its spellings, and
blanks may stand between any two parts, with two exceptions: none before the arguments of a relation
or of a side of an equation, and at least one between a bound variable and an atomic formula.

Binding is by level.  The operand of a negation or a quantifier is at most at the level of these
operators.  Of the operands of a connective the left one is at most at the level of the connective and
the right one strictly below it, so chains of one connective group to the left.
-/

set_option autoImplicit false

namespace NaturalDeduction

/-- The text of an application: a name, blanks, and arguments in brackets with commas between
them. -/
def applicationText (name : String) (gap : List Char) (b : Bracket) (pieces : List (List Char)) :
    List Char :=
  name.toList ++ (gap ++ b.opening :: ([','].intercalate pieces ++ [b.closing]))

/-- The text is the term, where the given names are bound.  A tight text has no blanks around it and
none before the arguments.  Each argument of an application comes with its text. -/
inductive Term.Written (arity : SymbolKind → String → Nat) (bound : List String) :
    Bool → List Char → Term → Prop
  | var {tight : Bool} {name : String} (hname : IsName name) (hbound : name ∈ bound) :
      Written arity bound tight name.toList (.var name)
  | const {tight : Bool} {name : String} (hname : IsName name) (hbound : name ∉ bound) :
      Written arity bound tight name.toList (.const name)
  | app {tight : Bool} {name : String} {gap : List Char} {args : List (List Char × Term)}
      (b : Bracket) (hname : IsName name) (hgap : Text.allBlank gap = true)
      (htight : tight = true → gap = []) (hne : args ≠ [])
      (hcount : args.length = arity .function name)
      (hargs : ∀ arg ∈ args, Written arity bound false arg.1 arg.2) :
      Written arity bound tight (applicationText name gap b (args.map Prod.fst))
        (.app name (args.map Prod.snd))
  | pad {before after w : List Char} {t : Term} (hbefore : Text.allBlank before = true)
      (hafter : Text.allBlank after = true) (h : Written arity bound false w t) :
      Written arity bound false (before ++ (w ++ after)) t

namespace Formula

/-- The text is the atomic formula, where the given names are bound. -/
inductive WrittenAtom (arity : SymbolKind → String → Nat) (bound : List String) :
    List Char → Formula → Prop
  | top : WrittenAtom arity bound ['⊤'] .top
  | bottom : WrittenAtom arity bound ['⊥'] .bottom
  | prop {name : String} (hname : IsName name) : WrittenAtom arity bound name.toList (.prop name)
  | rel {name : String} {args : List (List Char × Term)} (b : Bracket) (hname : IsName name)
      (hne : args ≠ []) (hcount : args.length = arity .relation name)
      (hargs : ∀ arg ∈ args, Term.Written arity bound false arg.1 arg.2) :
      WrittenAtom arity bound (applicationText name [] b (args.map Prod.fst))
        (.rel name (args.map Prod.snd))
  | eq {u v before after : List Char} {left right : Term}
      (hleft : Term.Written arity bound true u left)
      (hbefore : Text.allBlank before = true) (hafter : Text.allBlank after = true)
      (hright : Term.Written arity bound true v right) :
      WrittenAtom arity bound (u ++ (before ++ '=' :: (after ++ v))) (.eq left right)

/-- The text is the formula, where the given names are bound, and the formula is at most at the given
level. -/
inductive Written (arity : SymbolKind → String → Nat) :
    List String → Nat → List Char → Formula → Prop
  | atom {bound : List String} {w : List Char} {f : Formula} (h : WrittenAtom arity bound w f) :
      Written arity bound 0 w f
  /-- A bracket that begins a quantifier opens no group. -/
  | group {bound : List String} {level : Nat} {w : List Char} {f : Formula} (b : Bracket)
      (hbracket : ∀ s ∈ ["(A)", "(E)"], ¬ s.toList <+: b.opening :: (w ++ [b.closing]))
      (h : Written arity bound level w f) :
      Written arity bound 0 (b.opening :: (w ++ [b.closing])) f
  | neg {bound : List String} {w : List Char} {f : Formula} {s : String}
      (hs : (s, .not) ∈ Operator.spellings) (h : Written arity bound prefixPrecedence w f) :
      Written arity bound prefixPrecedence (s.toList ++ w) (.neg f)
  /-- Behind the variable comes a blank, a bracket or an operator. -/
  | quant {bound : List String} {gap w : List Char} {f : Formula} {q : Quantifier} {s var : String}
      (hs : (s, .quantifier q) ∈ Operator.spellings) (hgap : Text.allBlank gap = true)
      (hvar : IsName var)
      (hbehind : ∀ c ∈ w.head?,
        Text.isBlank c = true ∨ isBracket c = true ∨ Operator.isLead c = true)
      (h : Written arity (var :: bound) prefixPrecedence w f) :
      Written arity bound prefixPrecedence (s.toList ++ (gap ++ (var.toList ++ w))) (.quant q var f)
  | binary {bound : List String} {u v : List Char} {left right : Formula} {op : Connective}
      {s : String} (hs : (s, .binary op) ∈ Operator.spellings)
      (hleft : Written arity bound op.precedence u left)
      (hright : Written arity bound (op.precedence - 1) v right) :
      Written arity bound op.precedence (u ++ (s.toList ++ v)) (.binary op left right)
  | pad {bound : List String} {level : Nat} {before after w : List Char} {f : Formula}
      (hbefore : Text.allBlank before = true) (hafter : Text.allBlank after = true)
      (h : Written arity bound level w f) : Written arity bound level (before ++ (w ++ after)) f
  | loosen {bound : List String} {level level' : Nat} {w : List Char} {f : Formula}
      (hle : level ≤ level') (h : Written arity bound level w f) : Written arity bound level' w f

end Formula

end NaturalDeduction
