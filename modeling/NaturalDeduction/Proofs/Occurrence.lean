import NaturalDeduction.Formula
import NaturalDeduction.Proofs.Signature

/-!
# Variables and constants of formulas

The variables and constants that occur in terms and formulas.  A formula is closed when it has no
free variables: each variable stands under a quantifier that binds it.
-/

set_option autoImplicit false

namespace NaturalDeduction

/-- The set of some names has these names. -/
theorem NameSet.mem_ofList {names : List String} {name : String} :
    name ∈ NameSet.ofList names ↔ name ∈ names := by
  have hfold : ∀ (names : List String) (s : NameSet),
      name ∈ names.foldl NameSet.add s ↔ name ∈ names ∨ name ∈ s := by
    intro names
    induction names with
    | nil => simp
    | cons first rest ih =>
      intro s
      rw [List.foldl_cons, ih, NameSet.mem_add, List.mem_cons, or_left_comm, ← or_assoc]
  rw [NameSet.ofList, hfold]
  simp

namespace Term

/-- Induction on terms: what holds of an application may use that it holds of all arguments. -/
@[elab_as_elim, induction_eliminator]
theorem inductionOn {motive : Term → Prop} (t : Term) (const : ∀ name, motive (.const name))
    (var : ∀ name, motive (.var name))
    (app : ∀ name args, (∀ t ∈ args, motive t) → motive (.app name args)) : motive t := by
  refine @Term.rec motive (fun ts => ∀ t ∈ ts, motive t) const var app (by simp) ?_ t
  intro t ts ht hts s hs
  rcases List.mem_cons.1 hs with rfl | hs
  · exact ht
  · exact hts s hs

/-- The name of a variable. -/
def varName? : Term → Option String
  | .var name => some name
  | _ => none

/-- The variables that occur in a term. -/
def vars (t : Term) : List String :=
  t.subterms.filterMap varName?

/-- A constant has no variables. -/
@[simp] theorem vars_const (name : String) : (const name).vars = [] := rfl

/-- A variable has itself. -/
@[simp] theorem vars_var (name : String) : (var name).vars = [name] := rfl

/-- The variables of an application are those of its arguments. -/
@[simp] theorem vars_app (name : String) (args : List Term) :
    (app name args).vars = args.flatMap vars := by
  rw [vars, subterms, subtermsList_eq, List.filterMap_cons_none rfl, List.filterMap_flatMap]
  rfl

/-- A constant has itself. -/
@[simp] theorem mem_constants_const {name c : String} : c ∈ (const name).constants ↔ c = name := by
  simp [constants, subterms, constName?, NameSet.mem_ofList]

/-- A variable has no constants. -/
@[simp] theorem not_mem_constants_var {name c : String} : c ∉ (var name).constants := by
  simp [constants, subterms, constName?, NameSet.mem_ofList]

/-- The constants of an application are those of its arguments. -/
@[simp] theorem mem_constants_app {name c : String} {args : List Term} :
    c ∈ (app name args).constants ↔ ∃ t ∈ args, c ∈ t.constants := by
  simp only [constants, NameSet.mem_ofList, subterms, subtermsList_eq]
  rw [List.filterMap_cons_none rfl, List.filterMap_flatMap, List.mem_flatMap]

end Term

namespace Formula

/-- The variables of a formula that no quantifier around them binds. -/
def freeVars : Formula → List String
  | .prop _ | .top | .bottom => []
  | .rel _ args => args.flatMap Term.vars
  | .eq left right => left.vars ++ right.vars
  | .neg body => body.freeVars
  | .binary _ left right => left.freeVars ++ right.freeVars
  | .quant _ var body => body.freeVars.filter (· ≠ var)

/-- Every variable stands under a quantifier that binds it. -/
def Closed (f : Formula) : Prop :=
  f.freeVars = []

instance (f : Formula) : Decidable f.Closed :=
  inferInstanceAs (Decidable (f.freeVars = []))

/-- The constants of a formula are those among its terms and their parts. -/
theorem mem_constants {f : Formula} {c : String} :
    c ∈ f.constants ↔ c ∈ f.subterms.filterMap Term.constName? :=
  NameSet.mem_ofList

/-- A proposition has no constants. -/
@[simp] theorem not_mem_constants_prop {name c : String} : c ∉ (prop name).constants := by
  simp [mem_constants, subterms]

/-- Truth has no constants. -/
@[simp] theorem not_mem_constants_top {c : String} : c ∉ top.constants := by
  simp [mem_constants, subterms]

/-- Falsehood has no constants. -/
@[simp] theorem not_mem_constants_bottom {c : String} : c ∉ bottom.constants := by
  simp [mem_constants, subterms]

/-- The constants of a relation are those of its arguments. -/
@[simp] theorem mem_constants_rel {name c : String} {args : List Term} :
    c ∈ (rel name args).constants ↔ ∃ t ∈ args, c ∈ t.constants := by
  simp only [mem_constants, subterms, Term.subtermsList_eq, Term.constants, NameSet.mem_ofList]
  rw [List.filterMap_flatMap, List.mem_flatMap]

/-- The constants of an equation are those of its sides. -/
@[simp] theorem mem_constants_eq {a b : Term} {c : String} :
    c ∈ (eq a b).constants ↔ c ∈ a.constants ∨ c ∈ b.constants := by
  simp only [mem_constants, subterms, Term.constants, NameSet.mem_ofList, List.filterMap_append,
    List.mem_append]

/-- The constants of a negation are those of what is negated. -/
@[simp] theorem mem_constants_neg {f : Formula} {c : String} :
    c ∈ (neg f).constants ↔ c ∈ f.constants := by
  simp only [mem_constants, subterms]

/-- The constants of a compound formula are those of its sides. -/
@[simp] theorem mem_constants_binary {op : Connective} {f g : Formula} {c : String} :
    c ∈ (binary op f g).constants ↔ c ∈ f.constants ∨ c ∈ g.constants := by
  simp only [mem_constants, subterms, List.filterMap_append, List.mem_append]

/-- The constants of a quantified formula are those of its body. -/
@[simp] theorem mem_constants_quant {q : Quantifier} {var c : String} {f : Formula} :
    c ∈ (quant q var f).constants ↔ c ∈ f.constants := by
  simp only [mem_constants, subterms]

end Formula
end NaturalDeduction
