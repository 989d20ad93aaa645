import NaturalDeduction.Document.Basic

/-!
# The document as an ordered tree

The links of a document describe a tree: a box has its items as children, in order.  An `Outline` is
that tree as a value.  Whatever visits the lines of a document one after the other (numbering,
listing, completion) goes along the outline.
-/

set_option autoImplicit false

namespace NaturalDeduction

/-- The tree of the items in a box. -/
inductive Outline where
  /-- An item that is not a box. -/
  | line (id : ItemId)
  /-- A box with its items. -/
  | box (id : ItemId) (items : List Outline)

namespace Outline

mutual

/-- The lines of an outline from top to bottom, those of a box at the place of the box. -/
def lines : Outline → List ItemId
  | .line id => [id]
  | .box _ items => linesList items

/-- The lines of several outlines, one after the other. -/
def linesList : List Outline → List ItemId
  | [] => []
  | outline :: outlines => outline.lines ++ linesList outlines

end

/-- The box an outline begins with. -/
def boxId? : Outline → Option ItemId
  | .line _ => none
  | .box id _ => some id

mutual

/-- The boxes inside an outline: first those that stand directly in it, then for each of these the
boxes inside it. -/
def innerBoxes : Outline → List ItemId
  | .line _ => []
  | .box _ items => items.filterMap boxId? ++ innerBoxesList items

/-- The boxes inside several outlines, one after the other. -/
def innerBoxesList : List Outline → List ItemId
  | [] => []
  | outline :: outlines => outline.innerBoxes ++ innerBoxesList outlines

end

end Outline

namespace Document

/-- The items of a box as trees, down to `depth` boxes deep. -/
def outlineTo (d : Document) : (depth : Nat) → ItemId → List Outline
  | 0, _ => []
  | depth + 1, id => (d.children id).map fun child =>
      if d.isBox child then .box child (d.outlineTo depth child) else .line child

/-- The items of a box as trees.  Boxes are not nested deeper than the table is long. -/
def outline (d : Document) (id : ItemId) : List Outline :=
  d.outlineTo d.items.size id

/-- The lines in a box and in the boxes inside it, from top to bottom. -/
def linesUnder (d : Document) (id : ItemId) : List ItemId :=
  Outline.linesList (d.outline id)

/-- The lines of the document from top to bottom. -/
def lines (d : Document) : List ItemId :=
  d.linesUnder root

/-- The boxes inside a box: first those that stand directly in it, then for each of these the boxes
inside it. -/
def boxesUnder (d : Document) (id : ItemId) : List ItemId :=
  (Outline.box id (d.outline id)).innerBoxes

/-- The line with a number. -/
def findLine? (d : Document) (number : Nat) : Option ItemId :=
  d.lines.find? fun id => d.number? id == some number

/-- The numbers of the first and the last line of a box. -/
def boxRange (d : Document) (id : ItemId) : Except Fault (Nat × Nat) :=
  match (d.linesUnder id).filterMap d.number? with
  | [] => .error (.emptyBox id)
  | first :: rest => .ok (first, rest.getLast?.getD first)

/-- The number by which an item is cited: a box goes by its last line. -/
def citeNumber (d : Document) (id : ItemId) : Except Fault Nat :=
  match d.number? id with
  | some number => .ok number
  | none => do return (← d.boxRange id).2

/-- The box that introduces a Skolem constant. -/
def skolemBox? (d : Document) (name : String) : Option ItemId :=
  (d.boxesUnder root).find? fun id =>
    match d.box? id with
    | some data => data.skolems.contains name
    | none => false

/-- Numbers the listed lines one after the other. -/
def numberFrom (d : Document) (number : Nat) : List ItemId → Document
  | [] => d
  | id :: ids => (d.modifyKind id (ItemKind.withNumber number)).numberFrom (number + 1) ids

/-- Numbers the lines of the document from top to bottom, beginning with 1. -/
def renumber (d : Document) : Document :=
  d.numberFrom 1 d.lines

end Document
end NaturalDeduction
