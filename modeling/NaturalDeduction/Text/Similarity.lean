/-!
# Similar texts

Two texts are similar if many of their characters can be paired, each with an equal one that
stands at about the same position, and most pairs stand in the same order.
-/

set_option autoImplicit false

namespace NaturalDeduction.Text

/-- How far apart the positions of two paired characters may lie. -/
def pairingRange (a b : List Char) : Nat :=
  max a.length b.length / 2 - 1

/-- The first free position from `low` to `high` that holds `c`; a position is free if its mark is
not set. -/
def freePosition? (c : Char) (low high : Nat) (marked : List (Char × Bool)) : Option Nat :=
  marked.zipIdx.findIdx? fun ((d, taken), j) => low ≤ j && j ≤ high && d == c && !taken

/-- Pairs the characters of a text, from position `i` on, each with the first free position within
`range` that holds the same character.  Yields the paired characters and the marks after it. -/
def pairFrom (range i : Nat) :
    List Char → List (Char × Bool) → List Char × List (Char × Bool)
  | [], marked => ([], marked)
  | c :: cs, marked =>
    match freePosition? c (i - range) (i + range) marked with
    | some j =>
      let (paired, marked) := pairFrom range (i + 1) cs (marked.modify j fun (d, _) => (d, true))
      (c :: paired, marked)
    | none => pairFrom range (i + 1) cs marked

/-- The paired characters of two texts, each in the order of its text. -/
def paired (a b : List Char) : List Char × List Char :=
  let (left, marked) := pairFrom (pairingRange a b) 0 a (b.map fun c => (c, false))
  (left, (marked.filter (·.2)).map (·.1))

/-- Whether some characters are paired and three shares, the paired characters of either text and
the pairs that stand in order, are on the average at least seven tenths.  Two pairs out of order
count as one. -/
def similar (a b : List Char) : Bool :=
  let (left, right) := paired a b
  let pairs := left.length
  let swaps := (left.zip right).countP (fun (c, d) => c != d) / 2
  let m := a.length
  let n := b.length
  0 < pairs &&
    21 * (m * n * pairs) ≤
      10 * (pairs * pairs * n + pairs * pairs * m + (pairs - swaps) * (m * n))

end NaturalDeduction.Text
