import NaturalDeduction.Proofs.Semantics.Structure

/-!
# Instances of quantified statements

A run of quantifiers in front of a formula speaks about all ways, or some way, to give objects to the
variables it binds.  Putting closed terms in place of these variables is one such way; so instances
follow from universal statements and existential statements follow from instances.
-/

set_option autoImplicit false

namespace NaturalDeduction

universe u

variable {α : Type u} {M : Structure α} {v w : String → α}

namespace Formula

/-! ### Runs of quantifiers -/

/-- A universal statement holds of all objects for the variables in front. -/
theorem holds_of_stripN_all {n : Nat} {f body : Formula} {vars : List String}
    (h : f.stripN .all n = some (vars, body)) (hf : f.Holds M v)
    (hw : ∀ x, x ∉ vars → w x = v x) : body.Holds M w := by
  induction n generalizing f vars v with
  | zero =>
    obtain ⟨rfl, rfl⟩ : [] = vars ∧ f = body := by simpa [stripN] using h
    have hwv : w = v := funext fun x => hw x (by simp)
    rwa [hwv]
  | succ n ih =>
    obtain ⟨var, inner, rest, rfl, rfl, hrest⟩ := stripN_succ_eq_some h
    refine ih hrest (hf (w var)) fun x hx => ?_
    by_cases hxv : x = var
    · rw [hxv, Function.update_self]
    · rw [Function.update_of_ne hxv]
      exact hw x (by simp [hxv, hx])

/-- An existential statement holds if its body holds of some objects for the variables in front. -/
theorem stripN_ex_of_holds {n : Nat} {f body : Formula} {vars : List String}
    (h : f.stripN .ex n = some (vars, body)) (hbody : body.Holds M w)
    (hw : ∀ x, x ∉ vars → w x = v x) : f.Holds M v := by
  induction n generalizing f vars v with
  | zero =>
    obtain ⟨rfl, rfl⟩ : [] = vars ∧ f = body := by simpa [stripN] using h
    have hwv : w = v := funext fun x => hw x (by simp)
    rwa [← hwv]
  | succ n ih =>
    obtain ⟨var, inner, rest, rfl, rfl, hrest⟩ := stripN_succ_eq_some h
    refine ⟨w var, ih hrest fun x hx => ?_⟩
    by_cases hxv : x = var
    · rw [hxv, Function.update_self]
    · rw [Function.update_of_ne hxv]
      exact hw x (by simp [hxv, hx])

/-! ### Terms in place of the variables -/

/-- A substitution of some variables leaves the values of the others. -/
theorem after_of_not_mem {σ : Substitution} {vars : List String}
    (hσ : ∀ x t, σ x = some t → x ∈ vars) {x : String} (hx : x ∉ vars) :
    σ.after M v x = v x := by
  rw [Substitution.after]
  cases h : σ x with
  | none => rfl
  | some t => exact absurd (hσ x t h) hx

/-- Instances with closed terms follow from universal statements. -/
theorem holds_instantiate?_all {ts : List Term} {f g : Formula} (hts : ∀ t ∈ ts, t.vars = [])
    (h : f.instantiate? .all ts = some g) (hf : f.Holds M v) : g.Holds M v := by
  obtain ⟨vars, body, σ, hstrip, rfl, hclosed, hvars, -⟩ := instantiate?_eq_some hts h
  rw [holds_subst hclosed]
  exact holds_of_stripN_all hstrip hf fun x hx =>
    after_of_not_mem (fun y t hy => (hvars y t hy).1) hx

/-- Existential statements follow from instances with closed terms. -/
theorem instantiate?_ex_of_holds {ts : List Term} {f g : Formula} (hts : ∀ t ∈ ts, t.vars = [])
    (h : f.instantiate? .ex ts = some g) (hg : g.Holds M v) : f.Holds M v := by
  obtain ⟨vars, body, σ, hstrip, rfl, hclosed, hvars, -⟩ := instantiate?_eq_some hts h
  rw [holds_subst hclosed] at hg
  exact stripN_ex_of_holds hstrip hg fun x hx =>
    after_of_not_mem (fun y t hy => (hvars y t hy).1) hx

end Formula

end NaturalDeduction
