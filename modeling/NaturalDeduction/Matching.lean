import NaturalDeduction.Formula

/-!
# Matching a formula with a pattern

Some variables of a pattern are holes.  A formula fits the pattern when the holes can be filled so
that the two agree; a hole is filled the same way everywhere.  A hole is never filled with a term
that mentions a variable bound by a quantifier around it, since that quantifier would capture it.
Trees of one associative connective are compared operand by operand, however they are bracketed.

Fillings made before a mismatch is found are kept, so that the outcome of a match is the answer
together with the fillings.
-/

set_option autoImplicit false

namespace NaturalDeduction

/-- The terms found for the holes of a pattern. -/
abbrev Fillings := NameMap Term

/-- What the names of a pattern mean at one of its places. -/
structure PatternScope where
  /-- The variables that may be filled. -/
  holes : List String
  /-- The variables of the quantifiers entered on the way to the place. -/
  captured : List String := []

/-- The scope inside a quantifier: the variable it binds is no hole there. -/
def PatternScope.enter (scope : PatternScope) (var : String) : PatternScope where
  holes := scope.holes.filter (· ≠ var)
  captured := var :: scope.captured

namespace Term

mutual

/-- Fits a term to a pattern, given the fillings found so far. -/
def fit (scope : PatternScope) (σ : Fillings) : (t pattern : Term) → Bool × Fillings
  | t, .const name => (t = .const name, σ)
  | t, .var name =>
    if t = .var name then (true, σ)
    else if scope.holes.contains name then
      match σ.get? name with
      | some found => (found = t, σ)
      | none => if t.mentions scope.captured then (false, σ) else (true, σ.insert name t)
    else (false, σ)
  | t, .app name args =>
    if t = .app name args then (true, σ)
    else
      match t with
      | .app name' args' =>
        if name' = name && args'.length = args.length then fitList scope σ args' args
        else (false, σ)
      | _ => (false, σ)

/-- Fits terms to patterns one by one, up to the first that does not fit. -/
def fitList (scope : PatternScope) (σ : Fillings) : (ts patterns : List Term) → Bool × Fillings
  | t :: ts, pattern :: patterns =>
    match t.fit scope σ pattern with
    | (true, σ') => fitList scope σ' ts patterns
    | (false, σ') => (false, σ')
  | _, _ => (true, σ)

end

end Term

namespace Formula

/-- A formula built with `op` has at least two operands. -/
theorem two_le_length_flatten (op : Connective) (left right : Formula) :
    2 ≤ ((binary op left right).flatten op).length := by
  have hpos : ∀ f : Formula, 0 < (f.flatten op).length := by
    intro f
    cases f with
    | binary op' l r =>
      have h := totalSize_flatten op (binary op' l r)
      apply Nat.pos_of_ne_zero
      intro h0
      rw [List.length_eq_zero_iff.1 h0] at h
      simp [size, totalSize] at h
    | _ => simp [flatten]
  have hl := hpos left
  have hr := hpos right
  simp [flatten]
  omega

/-- The measure by which matching a list of formulas ends. -/
def weight (fs : List Formula) : Nat :=
  3 * totalSize fs + fs.length

/-- The operands of a chain weigh less than the chain, so that matching them one by one ends. -/
theorem weight_flatten_lt (op : Connective) (left right : Formula) :
    weight ((binary op left right).flatten op) < 3 * (binary op left right).size := by
  have hsum := totalSize_flatten op (binary op left right)
  have hlen := two_le_length_flatten op left right
  simp only [weight]
  omega

mutual

/-- Fits a formula to a pattern, given the fillings found so far. -/
def fit (scope : PatternScope) (σ : Fillings) (f pattern : Formula) : Bool × Fillings :=
  match f, pattern with
  | .prop name, .prop name' => (name = name', σ)
  | .top, .top => (true, σ)
  | .bottom, .bottom => (true, σ)
  | .rel name args, .rel name' args' =>
    if name = name' && args.length = args'.length then Term.fitList scope σ args args'
    else (false, σ)
  | .eq left right, .eq left' right' => Term.fitList scope σ [left, right] [left', right']
  | .neg body, .neg body' => fit scope σ body body'
  | .binary op left right, .binary op' left' right' =>
    if op = op' then
      if op.isAssociative then
        let fs := (binary op left right).flatten op
        let patterns := (binary op' left' right').flatten op
        if fs.length = patterns.length then fitList scope σ fs patterns else (false, σ)
      else fitList scope σ [left, right] [left', right']
    else (false, σ)
  | .quant q var body, .quant q' var' body' =>
    if q = q' && var = var' then fit (scope.enter var) σ body body' else (false, σ)
  | _, _ => (false, σ)
termination_by 3 * f.size
decreasing_by
  · simp [size]
  · exact weight_flatten_lt op left right
  · simp [weight, totalSize, size]; omega
  · simp [size]

/-- Fits formulas to patterns one by one, up to the first that does not fit. -/
def fitList (scope : PatternScope) (σ : Fillings) (fs patterns : List Formula) :
    Bool × Fillings :=
  match fs, patterns with
  | f :: fs, pattern :: patterns =>
    match fit scope σ f pattern with
    | (true, σ') => fitList scope σ' fs patterns
    | (false, σ') => (false, σ')
  | _, _ => (true, σ)
termination_by weight fs
decreasing_by
  · simp [weight, totalSize]; omega
  · have := size_pos f
    simp [weight, totalSize]; omega

end

/-- Whether a formula fits the body of `general` behind its first `n` quantifiers, with the
variables they bind as holes. -/
def isInstanceAt (q : Quantifier) (general : Formula) (n : Nat) (f : Formula) : Bool :=
  match general.stripN q n with
  | some (vars, body) => (f.fit { holes := vars } ∅ body).1
  | none => false

/-- Whether a formula arises from `general` by filling in the variables of one or more of the
quantifiers `q` in front of it. -/
def isInstance (q : Quantifier) (general f : Formula) : Bool :=
  (List.range (general.strip q).1.length).any fun k => isInstanceAt q general (k + 1) f

end Formula
end NaturalDeduction
