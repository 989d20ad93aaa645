import NaturalDeduction.Document.Outline

/-!
# Closing goals

A goal is proved when the line two above it, with only an empty line between, has its formula.  If
that line is given or assumed, the goal becomes a repetition of it; otherwise the goal is dropped
and what cited it cites that line.  A box is complete when no goal is left in it and the boxes
inside it are complete; its empty lines are dropped then.
-/

set_option autoImplicit false

namespace NaturalDeduction.Document

/-- Closes the goals in the rest of a chain. -/
def closeGoals (d : Document) : List ItemId → Except Fault Document
  | x :: gap :: goal :: rest =>
    match d.line? x with
    | some (formula, just) =>
      if !just.isGoal && d.isEmptyLine gap && d.isGoal goal &&
          d.formula? goal == some formula then do
        let d ← d.delete gap
        if just.isPremise then
          let d ← d.setJust goal (.byRule .tick [x])
          d.closeGoals rest
        else
          let d ← d.delete goal
          (d.redirect goal x).closeGoals rest
      else d.closeGoals (gap :: goal :: rest)
    | none => d.closeGoals (gap :: goal :: rest)
  | _ => .ok d

/-- Drops the empty lines of a complete box, and notes whether the box is complete. -/
def settleBox (d : Document) (id : ItemId) (complete : Bool) : Except Fault Document := do
  let d ← if complete then d.deleteAll ((d.children id).filter d.isEmptyLine) else pure d
  d.updateBox id fun data => { data with complete }

mutual

/-- Closes the goals of an item, if it is a box, and of the boxes inside it.  The answer is whether
the item is complete. -/
def completeItem (d : Document) : Outline → Except Fault (Bool × Document)
  | .line _ => .ok (true, d)
  | .box id items => do
    let d ← d.closeGoals (d.children id)
    let (inner, d) ← d.completeItems items
    let complete := inner && !(d.children id).any d.isGoal
    return (complete, ← d.settleBox id complete)

/-- Closes the goals of the boxes among several items. -/
def completeItems (d : Document) : List Outline → Except Fault (Bool × Document)
  | [] => .ok (true, d)
  | outline :: outlines => do
    let (first, d) ← d.completeItem outline
    let (others, d) ← d.completeItems outlines
    return (first && others, d)

end

/-- Closes the goals of the whole document.  The answer is whether the proof is complete. -/
def checkCompletion (d : Document) : Except Fault (Bool × Document) :=
  d.completeItem (.box root (d.outline root))

/-- Closes the goals of the whole document and numbers the lines anew. -/
def refresh (d : Document) : Except Fault (Bool × Document) := do
  let (complete, d) ← d.checkCompletion
  return (complete, d.renumber)

end NaturalDeduction.Document
