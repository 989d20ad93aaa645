import NaturalDeduction.Document.Outline
import NaturalDeduction.RuleError

/-!
# Selecting lines

A rule works on selected lines: one target, which is an empty line or a goal, and the lines cited
for it.  A line can be cited if it stands before the target, in the box of the target or in a box
around it.
-/

set_option autoImplicit false

namespace NaturalDeduction

/-- Why an operation did not go through. -/
inductive Refusal where
  /-- The rule does not apply. -/
  | rule (error : RuleError)
  /-- The operation was asked for something the document does not allow. -/
  | fault (fault : Fault)
deriving DecidableEq

namespace Refusal

/-- An operation on the document as part of a larger one. -/
def lift {α : Type} : Except Fault α → Except Refusal α
  | .ok a => .ok a
  | .error e => .error (.fault e)

end Refusal

/-- The lines a rule works on. -/
structure Selection where
  /-- The empty line or goal to work on. -/
  target : ItemId
  /-- The cited lines, in the order of their selection. -/
  cites : List ItemId
deriving DecidableEq

namespace Document

/-- The lines with the given numbers; a repeated number counts once. -/
def resolve (d : Document) (numbers : List Nat) : Except Fault (List ItemId) :=
  go numbers.eraseDups
where
  /-- Looks the numbers up one by one. -/
  go : List Nat → Except Fault (List ItemId)
    | [] => .ok []
    | number :: numbers =>
      match d.findLine? number with
      | some id => do return id :: (← go numbers)
      | none => .error (.noLine number)

/-- Whether an item stands in the box of the target or in a box around it. -/
def inScope (d : Document) (item target : ItemId) : Bool :=
  (d.ancestors target).any fun box => (d.children box).contains item

/-- Separates targets from cited lines, given what has been found so far. -/
def sortOut (d : Document) (targets cites : List ItemId) :
    List ItemId → Except Refusal (List ItemId × List ItemId)
  | [] => .ok (targets.reverse, cites.reverse)
  | id :: ids =>
    match d.kind? id with
    | some (.empty _) => d.sortOut (id :: targets) cites ids
    | some (.line _ just _) =>
      if just.isGoal then d.sortOut (id :: targets) cites ids
      else d.sortOut targets (id :: cites) ids
    | some (.constants _ number) => .error (.rule (.citesConstants number))
    | some (.box _) => .error (.fault (.notALine id))
    | none => .error (.fault (.noItem id))

/-- Checks that a line can be cited for the target with the given number. -/
def checkCite (d : Document) (target : ItemId) (targetNumber : Nat) (cite : ItemId) :
    Except Refusal Unit := do
  let number ← Refusal.lift (d.citeNumber cite)
  if targetNumber ≤ number then
    throw (.rule (.citesLaterLine number targetNumber))
  if !d.inScope cite target then
    throw (.rule (.outOfScope number targetNumber))

/-- Checks cited lines one by one. -/
def checkCites (d : Document) (target : ItemId) (targetNumber : Nat) :
    List ItemId → Except Refusal Unit
  | [] => .ok ()
  | cite :: cites => do
    d.checkCite target targetNumber cite
    d.checkCites target targetNumber cites

/-- Finds target and citations among the lines with the given numbers, and checks that the cited
lines can be cited. -/
def select (d : Document) (numbers : List Nat) : Except Refusal Selection := do
  let ids ← Refusal.lift (d.resolve numbers)
  let (targets, cites) ← d.sortOut [] [] ids
  match targets with
  | [] => throw (.rule .noTarget)
  | [target] =>
    let number ← Refusal.lift (d.citeNumber target)
    d.checkCites target number cites
    return { target, cites }
  | targets => throw (.rule (.manyTargets targets.length))

end Document
end NaturalDeduction
