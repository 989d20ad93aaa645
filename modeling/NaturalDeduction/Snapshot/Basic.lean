import NaturalDeduction.Document.Outline
import NaturalDeduction.Formula.Printer

/-!
# What a proof looks like

A snapshot shows a document as rows: each line with its number, its formula and its justification,
and each box with its rows.  `Snapshot.lines` writes one line of text per row, with a bar for each
box around it.
-/

set_option autoImplicit false

namespace NaturalDeduction

/-- The limit that line numbers stay below: they have 32 bits. -/
def lineLimit : Nat := 0x100000000

/-- A row of a snapshot. -/
inductive Row where
  | line (number : Nat) (formula justification : String) (goal : Bool)
  | empty (number : Nat)
  | constants (number : Nat) (names : List String)
  | box (complete adjacent : Bool) (rows : List Row)

/-- What a proof looks like. -/
structure Snapshot where
  /-- Whether the proof is finished. -/
  complete : Bool
  /-- The rows of the outermost box. -/
  rows : List Row

namespace Row

/-- The bars in front of a row, one for each box around it. -/
def bars : (depth : Nat) → String
  | 0 => ""
  | depth + 1 => "│ " ++ bars depth

mutual

/-- A row as lines of text, with `depth` boxes around it. -/
def textAt (depth : Nat) : Row → List String
  | .line number formula justification _ =>
    [number.repr ++ " " ++ bars depth ++ formula ++ "  " ++ justification]
  | .empty number => [number.repr ++ " " ++ bars depth ++ "(empty)"]
  | .constants number names =>
    [number.repr ++ " " ++ bars depth ++ ", ".intercalate names ++ "  Constants"]
  | .box _ _ rows => textListAt (depth + 1) rows

/-- Rows as lines of text, with `depth` boxes around them. -/
def textListAt (depth : Nat) : List Row → List String
  | [] => []
  | row :: rows => row.textAt depth ++ textListAt depth rows

end

end Row

namespace Snapshot

/-- The snapshot as lines of text. -/
def lines (snapshot : Snapshot) : List String :=
  Row.textListAt 0 snapshot.rows

/-- The snapshot as text: its lines, each ended by a line feed, and a note if the proof is
finished. -/
def text (snapshot : Snapshot) : String :=
  String.join (snapshot.lines.map (· ++ "\n")) ++
    if snapshot.complete then "Proof complete.\n" else ""

end Snapshot

namespace Document

/-- How an item is cited: a line by its number, a box by the numbers of its first and last line. -/
def citeText (d : Document) (id : ItemId) : Except Fault String := do
  let item ← d.item id
  match item.kind.number? with
  | some number => return number.repr
  | none =>
    let (first, last) ← d.boxRange id
    return first.repr ++ "–" ++ last.repr

/-- How items are cited. -/
def citeTexts (d : Document) : List ItemId → Except Fault (List String)
  | [] => .ok []
  | id :: ids => do return (← d.citeText id) :: (← d.citeTexts ids)

/-- A justification in words. -/
def justText (d : Document) : Justification → Except Fault String
  | .given => .ok "Given"
  | .assumption => .ok "Ass"
  | .goal => .ok "Goal"
  | .byRule rule [] => .ok rule.name
  | .byRule rule cites => do return rule.name ++ " " ++ ", ".intercalate (← d.citeTexts cites)

mutual

/-- The row of an item. -/
def row (d : Document) (style : Style) : Outline → Except Fault Row
  | .line id => do
    let item ← d.item id
    match item.kind with
    | .line formula just number =>
      return .line number (formula.render style) (← d.justText just) just.isGoal
    | .empty number => return .empty number
    | .constants names number => return .constants number names
    | .box data => return .box data.complete data.adjacent []
  | .box id items => do
    let rows ← d.rows style items
    match d.box? id with
    | some data => return .box data.complete data.adjacent rows
    | none => throw (.notABox id)

/-- The rows of items. -/
def rows (d : Document) (style : Style) : List Outline → Except Fault (List Row)
  | [] => .ok []
  | outline :: outlines => do return (← d.row style outline) :: (← d.rows style outlines)

end

/-- What the document looks like. -/
def snapshot (d : Document) (style : Style) : Except Fault Snapshot := do
  return { complete := d.isComplete, rows := ← d.rows style (d.outline root) }

end Document
end NaturalDeduction
