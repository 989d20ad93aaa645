import NaturalDeduction.Formula

/-!
# Re-association

A tree of one associative connective can be bracketed in many ways.  `Formula.leftAssoc` picks the
one with all brackets to the left, and `Formula.Reassoc` relates formulas that differ in such brackets
only: it is the least congruence that contains the associative laws.  The two agree, so the left
bracketing is a normal form.
-/

set_option autoImplicit false

namespace NaturalDeduction.Formula

variable {op : Connective} {f g : Formula}

/-- The formula with every tree of an associative connective bracketed to the left. -/
def leftAssoc : Formula → Formula
  | .neg body => .neg body.leftAssoc
  | .binary op left right =>
    if op.isAssociative then (right.leftAssoc.flatten op).foldl (.binary op) left.leftAssoc
    else .binary op left.leftAssoc right.leftAssoc
  | .quant q var body => .quant q var body.leftAssoc
  | f => f

/-- Equality up to re-association. -/
inductive Reassoc : Formula → Formula → Prop
  | refl (f : Formula) : Reassoc f f
  | symm {f g : Formula} (h : Reassoc f g) : Reassoc g f
  | trans {f g h : Formula} (hfg : Reassoc f g) (hgh : Reassoc g h) : Reassoc f h
  | assoc {op : Connective} (hop : op.isAssociative = true) (a b c : Formula) :
      Reassoc (.binary op (.binary op a b) c) (.binary op a (.binary op b c))
  | neg {f g : Formula} (h : Reassoc f g) : Reassoc (.neg f) (.neg g)
  | binary (op : Connective) {a b c d : Formula} (hac : Reassoc a c) (hbd : Reassoc b d) :
      Reassoc (.binary op a b) (.binary op c d)
  | quant (q : Quantifier) (var : String) {f g : Formula} (h : Reassoc f g) :
      Reassoc (.quant q var f) (.quant q var g)

/-- Every right operand of an associative connective is built in another way. -/
def LeftNested : Formula → Prop
  | .neg body => body.LeftNested
  | .binary op left right =>
    left.LeftNested ∧ right.LeftNested ∧ (op.isAssociative = true → right.sides? op = none)
  | .quant _ _ body => body.LeftNested
  | _ => True

/-! ### Operands -/

/-- A formula that is built in another way is flattened to itself. -/
theorem flatten_of_sides?_eq_none (h : f.sides? op = none) : f.flatten op = [f] := by
  cases f with
  | binary op' left right =>
    by_cases hop : op' = op
    · simp [sides?, hop] at h
    · simp [flatten, hop]
  | _ => rfl

/-- What a formula is flattened to is built in another way. -/
theorem sides?_of_mem_flatten (h : g ∈ f.flatten op) : g.sides? op = none := by
  induction f with
  | binary op' left right ihl ihr =>
    rw [flatten] at h
    split at h
    · exact (List.mem_append.1 h).elim ihl ihr
    · rename_i hop
      obtain rfl := List.mem_singleton.1 h
      simp [sides?, hop]
  | _ =>
    obtain rfl := List.mem_singleton.1 h
    rfl

/-- Formulas that are built in another way and joined to the right of a formula come behind what it
is flattened to. -/
theorem flatten_foldl {fs : List Formula} (h : ∀ g ∈ fs, g.sides? op = none) (f : Formula) :
    (fs.foldl (.binary op) f).flatten op = f.flatten op ++ fs := by
  induction fs generalizing f with
  | nil => simp
  | cons g gs ih =>
    rw [List.foldl_cons, ih (fun x hx => h x (List.mem_cons_of_mem _ hx)), flatten, if_pos rfl,
      flatten_of_sides?_eq_none (h g List.mem_cons_self), List.append_assoc]
    rfl

/-- The connective at the top can be told from the precedence. -/
theorem sides?_eq_none_iff : f.sides? op = none ↔ f.precedence ≠ op.precedence := by
  cases f with
  | binary op' left right =>
    cases op <;> cases op' <;> simp [sides?, precedence, Connective.precedence]
  | _ => cases op <;> simp [sides?, precedence, prefixPrecedence, Connective.precedence]

/-! ### The left bracketing is a re-association -/

/-- Moving brackets leaves the precedence of a formula as it is. -/
theorem Reassoc.precedence_eq (h : Reassoc f g) : f.precedence = g.precedence := by
  induction h with
  | symm _ ih => exact ih.symm
  | trans _ _ ihfg ihgh => exact ihfg.trans ihgh
  | _ => rfl

/-- Brackets can be moved below formulas that are joined on the right. -/
theorem Reassoc.foldl {fs : List Formula} (h : Reassoc f g) :
    Reassoc (fs.foldl (.binary op) f) (fs.foldl (.binary op) g) := by
  induction fs generalizing f g with
  | nil => exact h
  | cons x fs ih => exact ih (.binary op h (.refl x))

/-- An operand on the right can be spread out to the left. -/
theorem reassoc_foldl_flatten (hop : op.isAssociative = true) (left right : Formula) :
    Reassoc (.binary op left right) ((right.flatten op).foldl (.binary op) left) := by
  induction right generalizing left with
  | binary op' a b iha ihb =>
    by_cases hsame : op' = op
    · subst hsame
      rw [flatten, if_pos rfl, List.foldl_append]
      exact .trans (.symm (.assoc hop left a b)) (.trans (ihb _) (.foldl (iha left)))
    · rw [flatten, if_neg hsame]
      exact .refl _
  | _ => exact .refl _

/-- Nesting a formula to the left only moves brackets. -/
theorem reassoc_leftAssoc (f : Formula) : Reassoc f f.leftAssoc := by
  induction f with
  | neg body ih => exact .neg ih
  | binary op left right ihl ihr =>
    rw [leftAssoc]
    split
    · rename_i hop
      exact .trans (.binary op ihl ihr) (reassoc_foldl_flatten hop _ _)
    · exact .binary op ihl ihr
  | quant q var body ih => exact .quant q var ih
  | _ => exact .refl _

/-- What a nested formula is flattened to is nested to the left as well. -/
theorem leftNested_of_mem_flatten (hf : f.LeftNested) (h : g ∈ f.flatten op) : g.LeftNested := by
  induction f with
  | binary op' left right ihl ihr =>
    rw [flatten] at h
    split at h
    · exact (List.mem_append.1 h).elim (ihl hf.1) (ihr hf.2.1)
    · obtain rfl := List.mem_singleton.1 h
      exact hf
  | _ =>
    obtain rfl := List.mem_singleton.1 h
    exact hf

/-- Formulas that are nested to the left and built in another way can be joined to the right of one
that is nested to the left. -/
theorem leftNested_foldl {fs : List Formula} (hf : f.LeftNested)
    (hfs : ∀ g ∈ fs, g.LeftNested ∧ g.sides? op = none) :
    (fs.foldl (.binary op) f).LeftNested := by
  induction fs generalizing f with
  | nil => exact hf
  | cons g gs ih =>
    obtain ⟨hg, hsides⟩ := hfs g List.mem_cons_self
    exact ih ⟨hf, hg, fun _ => hsides⟩ fun x hx => hfs x (List.mem_cons_of_mem _ hx)

/-- Nesting a formula to the left leaves it nested to the left. -/
theorem leftNested_leftAssoc (f : Formula) : f.leftAssoc.LeftNested := by
  induction f with
  | neg body ih => exact ih
  | binary op left right ihl ihr =>
    rw [leftAssoc]
    split
    · exact leftNested_foldl ihl fun g hg =>
        ⟨leftNested_of_mem_flatten ihr hg, sides?_of_mem_flatten hg⟩
    · rename_i hop
      exact ⟨ihl, ihr, fun h => absurd h hop⟩
  | quant q var body ih => exact ih
  | _ => trivial

/-! ### The left bracketing is a normal form -/

/-- Bracketing to the left keeps the operands, and brackets each of them to the left. -/
theorem flatten_leftAssoc (hop : op.isAssociative = true) (f : Formula) :
    f.leftAssoc.flatten op = (f.flatten op).map leftAssoc := by
  induction f with
  | binary op' left right ihl ihr =>
    by_cases hsame : op' = op
    · subst hsame
      rw [leftAssoc, if_pos hop, flatten_foldl fun g hg => sides?_of_mem_flatten hg, flatten,
        if_pos rfl, List.map_append, ihl, ihr]
    · have hsides : (binary op' left right).sides? op = none := if_neg hsame
      have hsides' : (binary op' left right).leftAssoc.sides? op = none := by
        rw [sides?_eq_none_iff] at hsides ⊢
        rwa [← (reassoc_leftAssoc _).precedence_eq]
      rw [flatten_of_sides?_eq_none hsides, flatten_of_sides?_eq_none hsides', List.map_singleton]
  | _ => rfl

/-- Formulas are equal up to re-association if and only if they have the same left bracketing. -/
theorem reassoc_iff : Reassoc f g ↔ f.leftAssoc = g.leftAssoc := by
  constructor
  · intro h
    induction h with
    | refl _ => rfl
    | symm _ ih => exact ih.symm
    | trans _ _ ihfg ihgh => exact ihfg.trans ihgh
    | assoc hop a b c =>
      simp only [leftAssoc, if_pos hop]
      rw [flatten_foldl fun g hg => sides?_of_mem_flatten hg, List.foldl_append]
    | neg _ ih => rw [leftAssoc, leftAssoc, ih]
    | binary op _ _ ihl ihr => rw [leftAssoc, leftAssoc, ihl, ihr]
    | quant q var _ ih => rw [leftAssoc, leftAssoc, ih]
  · intro h
    exact .trans (reassoc_leftAssoc f) (h ▸ .symm (reassoc_leftAssoc g))

/-- A formula bracketed to the left is the chain of its operands. -/
theorem LeftNested.chain?_flatten (hf : f.LeftNested) (hop : op.isAssociative = true) :
    chain? op (f.flatten op) = some f := by
  induction f with
  | binary op' left right ihl _ =>
    obtain ⟨hleft, -, hright⟩ := hf
    by_cases hsame : op' = op
    · subst hsame
      have hchain := ihl hleft
      rw [flatten, if_pos rfl, flatten_of_sides?_eq_none (hright hop)]
      cases hflat : left.flatten op' with
      | nil => simp [hflat, chain?] at hchain
      | cons g gs =>
        rw [hflat, chain?, Option.some.injEq] at hchain
        rw [List.cons_append, chain?, List.foldl_append, hchain]
        rfl
    · rw [flatten, if_neg hsame]
      rfl
  | _ => rfl

/-- A tree of an associative connective becomes the chain of its operands, each of them bracketed to
the left. -/
theorem leftAssoc_eq_chain (hop : op.isAssociative = true) (left right : Formula) :
    chain? op (((binary op left right).flatten op).map leftAssoc) =
      some (binary op left right).leftAssoc := by
  rw [← flatten_leftAssoc hop, (leftNested_leftAssoc _).chain?_flatten hop]

end NaturalDeduction.Formula
