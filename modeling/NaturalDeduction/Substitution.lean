import NaturalDeduction.Formula

/-!
# Substitution and instantiation

A substitution gives terms for variables.  Applied to a formula it replaces the free occurrences of
its variables; a quantifier hides the variable it binds from the substitution.  Instantiation drops
quantifiers from the front of a formula and puts terms in place of what they bound.
-/

set_option autoImplicit false

namespace NaturalDeduction

/-- Terms for variables; a variable without a term stays as it is. -/
abbrev Substitution := String → Option Term

namespace Substitution

/-- The substitution that changes nothing. -/
def none : Substitution := fun _ => .none

/-- Gives a variable a term, in place of the one it had. -/
def set (σ : Substitution) (var : String) (t : Term) : Substitution :=
  fun v => if v = var then some t else σ v

/-- Takes a variable out of the substitution. -/
def hide (σ : Substitution) (var : String) : Substitution :=
  fun v => if v = var then .none else σ v

/-- The substitution with the listed terms; of two entries for a variable the later one counts. -/
def ofList (entries : List (String × Term)) : Substitution :=
  entries.foldl (fun σ entry => σ.set entry.1 entry.2) none

end Substitution

namespace Term

mutual

/-- The term with its variables replaced. -/
def subst (σ : Substitution) : Term → Term
  | .const name => .const name
  | .var name => (σ name).getD (.var name)
  | .app name args => .app name (substList σ args)

/-- The arguments with their variables replaced. -/
def substList (σ : Substitution) : List Term → List Term
  | [] => []
  | t :: ts => t.subst σ :: substList σ ts

end

/-- Substituting in a list of terms is substituting in each of them. -/
theorem substList_eq (σ : Substitution) (ts : List Term) : substList σ ts = ts.map (subst σ) := by
  induction ts with
  | nil => rfl
  | cons t ts ih => simp [substList, ih]

end Term

namespace Formula

/-- The formula with its free variables replaced. -/
def subst (σ : Substitution) : Formula → Formula
  | .prop name => .prop name
  | .rel name args => .rel name (Term.substList σ args)
  | .eq left right => .eq (left.subst σ) (right.subst σ)
  | .top => .top
  | .bottom => .bottom
  | .neg body => .neg (body.subst σ)
  | .binary op left right => .binary op (left.subst σ) (right.subst σ)
  | .quant q var body => .quant q var (body.subst (σ.hide var))

/-- The formula with one free variable replaced. -/
def subst1 (var : String) (t : Term) (f : Formula) : Formula :=
  f.subst (Substitution.none.set var t)

/-- Drops as many quantifiers `q` from the front as there are terms and puts the terms in place of
the variables they bound.  Of two dropped quantifiers that bind one name, the inner one counts. -/
def instantiate? (q : Quantifier) (terms : List Term) (f : Formula) : Option Formula :=
  (f.stripN q terms.length).map fun (vars, body) =>
    body.subst (Substitution.ofList (vars.zip terms))

end Formula
end NaturalDeduction
