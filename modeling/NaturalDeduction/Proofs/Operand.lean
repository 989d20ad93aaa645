import NaturalDeduction.Formula

/-!
# Operands

A tree of one connective joins its operands in order, however it is bracketed; each operand, and each
tree in between, is a part of it.  Flattening a formula, taking it apart and chaining formulas are all
described by these two relations.
-/

set_option autoImplicit false

namespace NaturalDeduction

/-- A formula joins the listed formulas by a connective, in this order. -/
inductive Joins (op : Connective) : List Formula → Formula → Prop
  | one (f : Formula) : Joins op [f] f
  | both {fs gs : List Formula} {a b : Formula} (hfs : Joins op fs a) (hgs : Joins op gs b) :
      Joins op (fs ++ gs) (.binary op a b)

/-- A formula is a part of a tree of connectives. -/
inductive PartOf (op : Connective) (part : Formula) : Formula → Prop
  | self : PartOf op part part
  | left {a b : Formula} (h : PartOf op part a) : PartOf op part (.binary op a b)
  | right {a b : Formula} (h : PartOf op part b) : PartOf op part (.binary op a b)

/-- A formula joins what it is flattened to. -/
theorem joins_flatten (op : Connective) (f : Formula) : Joins op (f.flatten op) f := by
  induction f with
  | binary op' a b iha ihb =>
    by_cases h : op' = op
    · subst h
      simp only [Formula.flatten, if_true]
      exact .both iha ihb
    · simp only [Formula.flatten, if_neg h]
      exact .one _
  | _ => exact .one _

/-- A formula joins its two sides. -/
theorem joins_sides (op : Connective) (a b : Formula) : Joins op [a, b] (.binary op a b) :=
  .both (.one a) (.one b)

/-- Joining more formulas to the right of a formula appends them to what it joins. -/
theorem joins_foldl {op : Connective} {fs gs : List Formula} :
    ∀ {f : Formula}, Joins op gs f → Joins op (gs ++ fs) (fs.foldl (.binary op) f) := by
  induction fs generalizing gs with
  | nil => intro f h; simpa using h
  | cons g fs ih =>
    intro f h
    have hnext : Joins op (gs ++ [g]) (.binary op f g) := .both h (.one g)
    simpa using ih hnext

/-- The chain of some formulas joins them. -/
theorem joins_chain? {op : Connective} {fs : List Formula} {f : Formula}
    (h : Formula.chain? op fs = some f) : Joins op fs f := by
  cases fs with
  | nil => simp [Formula.chain?] at h
  | cons g fs =>
    obtain rfl : fs.foldl (.binary op) g = f := by simpa [Formula.chain?] using h
    exact joins_foldl (.one g)

/-- What a formula is flattened to are parts of it. -/
theorem partOf_flatten {op : Connective} {g f : Formula} (h : g ∈ f.flatten op) :
    PartOf op g f := by
  induction f with
  | binary op' a b iha ihb =>
    by_cases hop : op' = op
    · subst hop
      simp only [Formula.flatten, if_true, List.mem_append] at h
      exact h.elim (fun h => .left (iha h)) (fun h => .right (ihb h))
    · simp only [Formula.flatten, if_neg hop, List.mem_singleton] at h
      exact h ▸ .self
  | _ =>
    simp only [Formula.flatten, List.mem_singleton] at h
    exact h ▸ .self

/-- A formula with sides is built from them by the connective. -/
theorem sides?_eq_some {op : Connective} {f a b : Formula} (h : f.sides? op = some (a, b)) :
    f = .binary op a b := by
  cases f with
  | binary op' l r =>
    by_cases hop : op' = op
    · subst hop
      simpa [Formula.sides?] using h
    · simp [Formula.sides?, hop] at h
  | _ => simp [Formula.sides?] at h

/-- The operands of a formula are parts of it. -/
theorem partOf_operands {op : Connective} {g f : Formula} (h : g ∈ f.operands op) :
    PartOf op g f := by
  have hadd : ∀ {x y : Formula} {fs : List Formula}, x ∈ Formula.operands.addNew fs y →
      x ∈ fs ∨ x = y := by
    intro x y fs hx
    rw [Formula.operands.addNew] at hx
    split at hx
    · exact Or.inl hx
    · simpa using hx
  unfold Formula.operands at h
  cases hsides : f.sides? op with
  | none =>
    rw [hsides] at h
    exact partOf_flatten h
  | some sides =>
    obtain ⟨a, b⟩ := sides
    rw [hsides] at h
    obtain rfl := sides?_eq_some hsides
    rcases hadd h with h | rfl
    · rcases hadd h with h | rfl
      · exact partOf_flatten h
      · exact .left .self
    · exact .right .self

end NaturalDeduction
