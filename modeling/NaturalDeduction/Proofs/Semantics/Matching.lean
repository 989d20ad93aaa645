import NaturalDeduction.Proofs.Matching
import NaturalDeduction.Proofs.Semantics.Instance

/-!
# Matching and truth

Re-association does not change truth.  So a closed formula that is found to be an instance by matching
is as true as the instance with closed terms that it is.
-/

set_option autoImplicit false

namespace NaturalDeduction

universe u

variable {α : Type u} {M : Structure α} {v : String → α}

/-- An associative connective means the same however two of it are bracketed. -/
theorem Connective.holds_assoc {op : Connective} (h : op.isAssociative = true) (p q r : Prop) :
    op.Holds (op.Holds p q) r ↔ op.Holds p (op.Holds q r) := by
  cases op with
  | and => exact and_assoc
  | or => exact or_assoc
  | implies => simp [isAssociative] at h
  | iff =>
    by_cases hp : p <;> by_cases hq : q <;> by_cases hr : r <;> simp [Holds, hp, hq, hr]

namespace Formula

/-- Formulas that differ in their bracketing only mean the same. -/
theorem Reassoc.holds_iff {f g : Formula} (h : Reassoc f g) : f.Holds M v ↔ g.Holds M v := by
  induction h generalizing v with
  | refl _ => rfl
  | symm _ ih => exact ih.symm
  | trans _ _ ihfg ihgh => exact ihfg.trans ihgh
  | assoc hop a b c => exact Connective.holds_assoc hop _ _ _
  | neg _ ih => exact not_congr ih
  | binary op _ _ ihl ihr => exact Connective.holds_congr ihl ihr
  | quant q var _ ih => exact Quantifier.holds_congr fun _ => ih

/-- Closed instances follow from universal statements. -/
theorem holds_of_isInstance_all {general f : Formula} (hf : f.Closed)
    (h : general.isInstance .all f = true) (hgeneral : general.Holds M v) : f.Holds M v := by
  obtain ⟨terms, g, -, hterms, hg, hreassoc⟩ := exists_instantiate?_of_isInstance hf h
  exact hreassoc.holds_iff.1 (holds_instantiate?_all hterms hg hgeneral)

/-- Existential statements follow from closed instances. -/
theorem isInstance_ex_of_holds {general f : Formula} (hf : f.Closed)
    (h : general.isInstance .ex f = true) (hfv : f.Holds M v) : general.Holds M v := by
  obtain ⟨terms, g, -, hterms, hg, hreassoc⟩ := exists_instantiate?_of_isInstance hf h
  exact instantiate?_ex_of_holds hterms hg (hreassoc.holds_iff.2 hfv)

end Formula

end NaturalDeduction
