import NaturalDeduction.Term

/-!
# Formulas of first-order logic

The formulas of the assistant: propositional letters, relations, equations, truth and falsehood,
negation, the four binary connectives and the two quantifiers.  The module holds the tree type, its
precedences, and the views that take a formula apart: by connective, by negation, by the
quantifiers in front.
-/

set_option autoImplicit false

namespace NaturalDeduction

/-- A binary connective. -/
inductive Connective where
  | and
  | or
  | implies
  | iff
deriving DecidableEq

namespace Connective

/-- How loosely the connective binds: conjunction binds tightest, equivalence most loosely. -/
def precedence : Connective → Nat
  | .and => 2
  | .or => 3
  | .implies => 4
  | .iff => 5

/-- Whether a chain of the connective needs no brackets.  Implication is the one that does. -/
def isAssociative : Connective → Bool
  | .implies => false
  | _ => true

end Connective

/-- A quantifier. -/
inductive Quantifier where
  /-- For all. -/
  | all
  /-- There exists. -/
  | ex
deriving DecidableEq

/-- A formula of first-order logic. -/
inductive Formula where
  /-- A propositional letter. -/
  | prop (name : String)
  /-- A relation between terms. -/
  | rel (name : String) (args : List Term)
  /-- An equation. -/
  | eq (left right : Term)
  /-- Truth. -/
  | top
  /-- Falsehood. -/
  | bottom
  /-- A negation. -/
  | neg (body : Formula)
  /-- Two formulas joined by a connective. -/
  | binary (op : Connective) (left right : Formula)
  /-- A quantifier with its bound variable and the formula it ranges over. -/
  | quant (q : Quantifier) (var : String) (body : Formula)
deriving DecidableEq

namespace Formula

instance : Inhabited Formula := ⟨.top⟩

/-- Precedence of negation and of the quantifiers. -/
def prefixPrecedence : Nat := 1

/-- How loosely the outermost part of a formula binds; atoms bind tightest. -/
def precedence : Formula → Nat
  | .prop _ | .rel _ _ | .eq _ _ | .top | .bottom => 0
  | .neg _ | .quant _ _ _ => prefixPrecedence
  | .binary op _ _ => op.precedence

/-- The number of nodes of the tree, terms not counted. -/
def size : Formula → Nat
  | .prop _ | .rel _ _ | .eq _ _ | .top | .bottom => 1
  | .neg body => body.size + 1
  | .binary _ left right => left.size + right.size + 1
  | .quant _ _ body => body.size + 1

/-! ### Taking a formula apart -/

/-- The two sides of a formula built with `op`. -/
def sides? (op : Connective) : Formula → Option (Formula × Formula)
  | .binary op' left right => if op' = op then some (left, right) else none
  | _ => none

/-- What a negation negates. -/
def negated? : Formula → Option Formula
  | .neg body => some body
  | _ => none

/-- What a double negation negates twice. -/
def doublyNegated? (f : Formula) : Option Formula :=
  f.negated?.bind negated?

/-- The bound variable and the body of a formula that begins with the quantifier `q`. -/
def binder? (q : Quantifier) : Formula → Option (String × Formula)
  | .quant q' var body => if q' = q then some (var, body) else none
  | _ => none

/-- The two terms of an equation. -/
def equated? : Formula → Option (Term × Term)
  | .eq left right => some (left, right)
  | _ => none

/-- The names bound by the run of quantifiers `q` in front of a formula, outermost first, and the
formula behind the run. -/
def strip (q : Quantifier) : Formula → List String × Formula
  | .quant q' var body =>
    if q' = q then
      let inner := body.strip q
      (var :: inner.1, inner.2)
    else ([], .quant q' var body)
  | f => ([], f)

/-- The names bound by the first `n` quantifiers and the formula behind them, if the formula
begins with `n` quantifiers `q`. -/
def stripN (q : Quantifier) : Nat → Formula → Option (List String × Formula)
  | 0, f => some ([], f)
  | n + 1, f =>
    match f.binder? q with
    | some (var, body) => (stripN q n body).map fun inner => (var :: inner.1, inner.2)
    | none => none

/-- The operands of the largest tree of `op` connectives at the top of a formula, from left to
right.  A formula that is not built with `op` is its own only operand. -/
def flatten (op : Connective) : Formula → List Formula
  | .binary op' left right =>
    if op' = op then left.flatten op ++ right.flatten op else [.binary op' left right]
  | f => [f]

/-- What one application of a rule for `op` can split a formula into: the flattened operands, and
the two immediate sides where they are not among these. -/
def operands (op : Connective) (f : Formula) : List Formula :=
  match f.sides? op with
  | some (left, right) => addNew (addNew (f.flatten op) left) right
  | none => f.flatten op
where
  /-- Appends a formula to a list that does not hold it yet. -/
  addNew (fs : List Formula) (f : Formula) : List Formula :=
    if f ∈ fs then fs else fs ++ [f]

/-- The chain `f₁ ∘ f₂ ∘ ... ∘ fₙ` with the brackets to the left; an empty list has none. -/
def chain? (op : Connective) : List Formula → Option Formula
  | [] => none
  | f :: fs => some (fs.foldl (binary op) f)

/-- Only an empty list has no chain. -/
theorem chain?_isSome {op : Connective} {fs : List Formula} :
    (chain? op fs).isSome ↔ fs ≠ [] := by
  cases fs with
  | nil => simp [chain?]
  | cons f fs => simp [chain?]

/-! ### The terms of a formula -/

/-- All terms and subterms of a formula, in the order of its text. -/
def subterms : Formula → List Term
  | .prop _ | .top | .bottom => []
  | .rel _ args => Term.subtermsList args
  | .eq left right => left.subterms ++ right.subterms
  | .neg body => body.subterms
  | .binary _ left right => left.subterms ++ right.subterms
  | .quant _ _ body => body.subterms

/-- The constants that occur in a formula. -/
def constants (f : Formula) : NameSet :=
  .ofList (f.subterms.filterMap Term.constName?)

/-! ### Sizes -/

/-- Every formula has a positive size. -/
theorem size_pos (f : Formula) : 0 < f.size := by
  cases f <;> simp [size]

/-- The sizes of several formulas together. -/
def totalSize : List Formula → Nat
  | [] => 0
  | f :: fs => f.size + totalSize fs

/-- The total size of two lists together is the sum of theirs. -/
@[simp] theorem totalSize_append (fs gs : List Formula) :
    totalSize (fs ++ gs) = totalSize fs + totalSize gs := by
  induction fs with
  | nil => simp [totalSize]
  | cons f fs ih =>
    simp only [List.cons_append, totalSize, ih]
    omega

/-- The operands of a tree weigh together no more than the tree, and a proper tree strictly
outweighs them: one node is gone for each operand but the first. -/
theorem totalSize_flatten (op : Connective) (f : Formula) :
    totalSize (f.flatten op) + (f.flatten op).length = f.size + 1 := by
  induction f with
  | binary op' left right ihl ihr =>
    by_cases h : op' = op
    · simp only [flatten, h, if_true, totalSize_append, List.length_append, size]
      omega
    · simp [flatten, h, totalSize]
  | _ => simp [flatten, totalSize]

end Formula
end NaturalDeduction
