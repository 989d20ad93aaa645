import Mathlib.Logic.Function.Basic
import NaturalDeduction.Proofs.Substitution

/-!
# First-order structures

The usual semantics.  A structure gives a meaning to all names; its domain is not empty, since every
constant stands for an object.  Whether a formula holds depends on the objects of its free variables
and on the objects of its constants only, and substituting closed terms for variables amounts to
giving the variables the objects of the terms.
-/

set_option autoImplicit false

namespace NaturalDeduction

universe u

/-- A meaning for all names, over a domain of objects. -/
structure Structure (α : Type u) where
  prop : String → Prop
  rel : String → List α → Prop
  const : String → α
  fn : String → List α → α

variable {α : Type u} {M : Structure α} {v w : String → α}

namespace Term

mutual

/-- The object a term stands for, given objects for its variables. -/
def eval (M : Structure α) (v : String → α) : Term → α
  | .const name => M.const name
  | .var name => v name
  | .app name args => M.fn name (evalList M v args)

/-- The objects several terms stand for. -/
def evalList (M : Structure α) (v : String → α) : List Term → List α
  | [] => []
  | t :: ts => t.eval M v :: evalList M v ts

end

/-- Arguments are evaluated one by one. -/
theorem evalList_eq (M : Structure α) (v : String → α) (ts : List Term) :
    evalList M v ts = ts.map (eval M v) := by
  induction ts with
  | nil => rfl
  | cons t ts ih => rw [evalList, ih, List.map_cons]

/-- The value of a term depends on those of its variables only. -/
theorem eval_congr {t : Term} (h : ∀ x ∈ t.vars, v x = w x) : t.eval M v = t.eval M w := by
  induction t with
  | const name => rfl
  | var name => exact h name (by simp)
  | app name args ih =>
    rw [eval, eval, evalList_eq, evalList_eq]
    congr 1
    refine List.map_congr_left fun t ht => ih t ht fun x hx => h x ?_
    rw [vars_app, List.mem_flatMap]
    exact ⟨t, ht, hx⟩

/-- The value of a closed term does not depend on variables. -/
theorem eval_closed {t : Term} (h : t.vars = []) (v w : String → α) :
    t.eval M v = t.eval M w :=
  eval_congr (by simp [h])

end Term

namespace Structure

/-- The structure with other objects for the constants. -/
def withConst (M : Structure α) (κ : String → α) : Structure α :=
  { M with const := κ }

end Structure

/-- Constants that a term does not have may stand for anything else. -/
theorem Term.eval_withConst {t : Term} {κ : String → α} (h : ∀ c ∈ t.constants, κ c = M.const c) :
    t.eval (M.withConst κ) v = t.eval M v := by
  induction t with
  | const name => exact h name (by simp)
  | var name => rfl
  | app name args ih =>
    rw [eval, eval, evalList_eq, evalList_eq]
    show M.fn name _ = M.fn name _
    congr 1
    refine List.map_congr_left fun t ht => ih t ht fun c hc => h c ?_
    exact mem_constants_app.2 ⟨t, ht, hc⟩

/-- Two truth values joined by a connective. -/
def Connective.Holds : Connective → Prop → Prop → Prop
  | .and, p, q => p ∧ q
  | .or, p, q => p ∨ q
  | .implies, p, q => p → q
  | .iff, p, q => p ↔ q

/-- What a quantifier says of a family of truth values. -/
def Quantifier.Holds : Quantifier → (α → Prop) → Prop
  | .all, p => ∀ a, p a
  | .ex, p => ∃ a, p a

/-- A connective may be applied to equivalent propositions instead. -/
theorem Connective.holds_congr {op : Connective} {p p' q q' : Prop} (hp : p ↔ p') (hq : q ↔ q') :
    op.Holds p q ↔ op.Holds p' q' := by
  rw [propext hp, propext hq]

/-- A quantifier may be applied to an equivalent property instead. -/
theorem Quantifier.holds_congr {q : Quantifier} {p p' : α → Prop} (h : ∀ a, p a ↔ p' a) :
    q.Holds p ↔ q.Holds p' := by
  rw [funext fun a => propext (h a)]

namespace Formula

/-- Truth of a formula in a structure, given objects for its free variables. -/
def Holds (M : Structure α) (v : String → α) : Formula → Prop
  | .prop name => M.prop name
  | .rel name args => M.rel name (args.map (Term.eval M v))
  | .eq left right => left.eval M v = right.eval M v
  | .top => True
  | .bottom => False
  | .neg body => ¬ body.Holds M v
  | .binary op left right => op.Holds (left.Holds M v) (right.Holds M v)
  | .quant q var body => q.Holds fun a => body.Holds M (Function.update v var a)

/-- Whether a formula holds depends on the values of its free variables only. -/
theorem holds_congr {f : Formula} (h : ∀ x ∈ f.freeVars, v x = w x) :
    f.Holds M v ↔ f.Holds M w := by
  induction f generalizing v w with
  | prop | top | bottom => rfl
  | rel name args =>
    rw [Holds, Holds]
    rw [List.map_congr_left fun t ht => Term.eval_congr fun x hx => h x ?_]
    exact List.mem_flatMap.2 ⟨t, ht, hx⟩
  | eq left right =>
    rw [Holds, Holds, Term.eval_congr fun x hx => h x (List.mem_append_left _ hx),
      Term.eval_congr fun x hx => h x (List.mem_append_right _ hx)]
  | neg body ih => exact not_congr (ih h)
  | binary op left right ihl ihr =>
    exact Connective.holds_congr (ihl fun x hx => h x (List.mem_append_left _ hx))
      (ihr fun x hx => h x (List.mem_append_right _ hx))
  | quant q var body ih =>
    refine Quantifier.holds_congr fun a => ih fun x hx => ?_
    by_cases hxv : x = var
    · subst hxv
      rw [Function.update_self, Function.update_self]
    · rw [Function.update_of_ne hxv, Function.update_of_ne hxv]
      exact h x (List.mem_filter.2 ⟨hx, by simpa using hxv⟩)

/-- Constants that a formula does not have may stand for anything else. -/
theorem holds_withConst {f : Formula} {κ : String → α} (h : ∀ c ∈ f.constants, κ c = M.const c) :
    f.Holds (M.withConst κ) v ↔ f.Holds M v := by
  induction f generalizing v with
  | prop | top | bottom => rfl
  | rel name args =>
    rw [Holds, Holds, List.map_congr_left fun t ht =>
      Term.eval_withConst fun c hc => h c (mem_constants_rel.2 ⟨t, ht, hc⟩)]
    rfl
  | eq left right =>
    rw [Holds, Holds, Term.eval_withConst fun c hc => h c (mem_constants_eq.2 (Or.inl hc)),
      Term.eval_withConst fun c hc => h c (mem_constants_eq.2 (Or.inr hc))]
  | neg body ih => exact not_congr (ih fun c hc => h c (mem_constants_neg.2 hc))
  | binary op left right ihl ihr =>
    exact Connective.holds_congr (ihl fun c hc => h c (mem_constants_binary.2 (Or.inl hc)))
      (ihr fun c hc => h c (mem_constants_binary.2 (Or.inr hc)))
  | quant q var body ih =>
    exact Quantifier.holds_congr fun a => ih fun c hc => h c (mem_constants_quant.2 hc)

end Formula

/-- A formula holds in all structures in which the listed formulas hold. -/
def Entails (fs : List Formula) (f : Formula) : Prop :=
  ∀ (α : Type u) (M : Structure α) (v : String → α), (∀ g ∈ fs, g.Holds M v) → f.Holds M v

/-! ### Substitution -/

namespace Substitution

/-- The objects of the variables after a substitution. -/
def after (σ : Substitution) (M : Structure α) (v : String → α) : String → α :=
  fun x => ((σ x).map (Term.eval M v)).getD (v x)

/-- Under a quantifier, the bound variable has the object of the quantifier and all others have the
one of the substitution: closed terms do not see the quantifier. -/
theorem after_hide {σ : Substitution} (h : σ.Closed) (M : Structure α) (v : String → α)
    (var : String) (a : α) :
    (σ.hide var).after M (Function.update v var a) = Function.update (σ.after M v) var a := by
  funext x
  by_cases hx : x = var
  · subst hx
    simp [after, Substitution.hide]
  · rw [Function.update_of_ne hx]
    cases hσ : σ x with
    | none => simp [after, Substitution.hide, hx, hσ]
    | some t =>
      simpa [after, Substitution.hide, hx, hσ] using Term.eval_closed (h hσ) _ _

end Substitution

/-- A term after a substitution has the value of the term where the variables have the values of
what is put in. -/
theorem Term.eval_subst (σ : Substitution) (t : Term) :
    (t.subst σ).eval M v = t.eval M (σ.after M v) := by
  induction t with
  | const name => rfl
  | var name =>
    rw [subst, eval, Substitution.after]
    cases σ name <;> rfl
  | app name args ih =>
    rw [subst, eval, eval, evalList_eq, evalList_eq, substList_eq, List.map_map]
    congr 1
    exact List.map_congr_left ih

/-- Substituting closed terms amounts to giving the variables the objects of the terms. -/
theorem Formula.holds_subst {σ : Substitution} {f : Formula} (h : σ.Closed) :
    (f.subst σ).Holds M v ↔ f.Holds M (σ.after M v) := by
  induction f generalizing v σ with
  | prop | top | bottom => rfl
  | rel name args =>
    have hargs : args.map (Term.eval M v ∘ Term.subst σ) = args.map (Term.eval M (σ.after M v)) :=
      List.map_congr_left fun t _ => Term.eval_subst σ t
    rw [subst, Holds, Holds, Term.substList_eq, List.map_map, hargs]
  | eq left right => rw [subst, Holds, Holds, Term.eval_subst, Term.eval_subst]
  | neg body ih => exact not_congr (ih h)
  | binary op left right ihl ihr => exact Connective.holds_congr (ihl h) (ihr h)
  | quant q var body ih =>
    refine Quantifier.holds_congr fun a => ?_
    rw [ih (h.hide var), Substitution.after_hide h]

end NaturalDeduction
