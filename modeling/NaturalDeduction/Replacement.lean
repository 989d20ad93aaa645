import NaturalDeduction.Formula

/-!
# Replacing equals

Given two terms, `replace` puts the second in place of every occurrence of the first and
`occurrences` counts the places; an occurrence inside another one does not count.  `becomes` tells
whether one formula arises from another when some of the occurrences, possibly none, are replaced.
Binders play no role here: terms are compared by their text.
-/

set_option autoImplicit false

namespace NaturalDeduction

namespace Term

mutual

/-- The term with `new` in place of each outermost occurrence of `old`. -/
def replace (t old new : Term) : Term :=
  match t with
  | .const name => if .const name = old then new else .const name
  | .var name => if .var name = old then new else .var name
  | .app name args =>
    if .app name args = old then new else .app name (replaceList args old new)

/-- The arguments with `new` in place of `old`. -/
def replaceList (ts : List Term) (old new : Term) : List Term :=
  match ts with
  | [] => []
  | t :: ts => t.replace old new :: replaceList ts old new

end

mutual

/-- The number of outermost occurrences of `old` in a term. -/
def occurrences (t old : Term) : Nat :=
  match t with
  | .const name => if .const name = old then 1 else 0
  | .var name => if .var name = old then 1 else 0
  | .app name args => if .app name args = old then 1 else occurrencesList args old

/-- The number of outermost occurrences of `old` in the arguments. -/
def occurrencesList (ts : List Term) (old : Term) : Nat :=
  match ts with
  | [] => 0
  | t :: ts => t.occurrences old + occurrencesList ts old

end

mutual

/-- Whether `target` is the term with some occurrences of `old` replaced by `new`. -/
def becomes (t old new target : Term) : Bool :=
  match t with
  | .const name => .const name = target || (.const name = old && target = new)
  | .var name => .var name = target || (.var name = old && target = new)
  | .app name args =>
    .app name args = target || (.app name args = old && target = new) ||
      match target with
      | .app name' args' => name = name' && becomesList args old new args'
      | _ => false

/-- Whether two argument lists agree in length and each argument becomes the other list's. -/
def becomesList (ts : List Term) (old new : Term) (targets : List Term) : Bool :=
  match ts, targets with
  | [], [] => true
  | t :: ts, target :: targets => t.becomes old new target && becomesList ts old new targets
  | _, _ => false

end

/-- Replacing in a list of terms is replacing in each of them. -/
theorem replaceList_eq (ts : List Term) (old new : Term) :
    replaceList ts old new = ts.map fun t => t.replace old new := by
  induction ts with
  | nil => rfl
  | cons t ts ih => simp [replaceList, ih]

end Term

namespace Formula

/-- The formula with `new` in place of every occurrence of `old`. -/
def replace (old new : Term) : Formula → Formula
  | .prop name => .prop name
  | .rel name args => .rel name (Term.replaceList args old new)
  | .eq left right => .eq (left.replace old new) (right.replace old new)
  | .top => .top
  | .bottom => .bottom
  | .neg body => .neg (body.replace old new)
  | .binary op left right => .binary op (left.replace old new) (right.replace old new)
  | .quant q var body => .quant q var (body.replace old new)

/-- The number of places where `replace` acts. -/
def occurrences (old : Term) : Formula → Nat
  | .prop _ | .top | .bottom => 0
  | .rel _ args => Term.occurrencesList args old
  | .eq left right => left.occurrences old + right.occurrences old
  | .neg body => body.occurrences old
  | .binary _ left right => left.occurrences old + right.occurrences old
  | .quant _ _ body => body.occurrences old

/-- Whether `target` is the formula with some occurrences of `old` replaced by `new`. -/
def becomes (old new : Term) : (f target : Formula) → Bool
  | .rel name args, .rel name' args' => name = name' && Term.becomesList args old new args'
  | .eq left right, .eq left' right' =>
    left.becomes old new left' && right.becomes old new right'
  | .neg body, .neg body' => body.becomes old new body'
  | .binary op left right, .binary op' left' right' =>
    op = op' && left.becomes old new left' && right.becomes old new right'
  | .quant q var body, .quant q' var' body' =>
    q = q' && var = var' && body.becomes old new body'
  | f, target => f = target

end Formula
end NaturalDeduction
