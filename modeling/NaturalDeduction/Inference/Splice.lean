import NaturalDeduction.Document.Outline
import NaturalDeduction.Inference.Step

/-!
# Putting a step into the document

The premises of a step that are not there yet, new goals and new boxes, are put just before the
target, in order.  Then the derived line is added there too, or the target is justified.
-/

set_option autoImplicit false

namespace NaturalDeduction.Document

/-- Adds several items at the end of a box. -/
def pushChildren (d : Document) (box : ItemId) : List ItemKind → Except Fault Document
  | [] => .ok d
  | kind :: kinds => do
    let (_, d) ← d.pushChild box kind
    d.pushChildren box kinds

/-- Introduces the Skolem constant of a planned box, which must be the next one. -/
def introduceSkolem (d : Document) (skolem : Option String) :
    Except Fault (NameSet × Document) :=
  match skolem with
  | none => .ok (∅, d)
  | some name =>
    let (next, signature) := d.signature.freshSkolem
    if next = name then .ok ((∅ : NameSet).add next, { d with signature })
    else .error (.unexpectedSkolem name next)

/-- The items a planned box begins with. -/
def plannedKinds (plan : BoxPlan) : List ItemKind :=
  (plan.skolem.map fun name => .constants [name] 0).toList ++
    (plan.assumption.map fun f => .line f .assumption 0).toList ++
      [.empty 0, .line plan.goal .goal 0]

/-- Builds a planned box just before the target. -/
def buildBox (d : Document) (target : ItemId) (plan : BoxPlan) :
    Except Fault (ItemId × Document) := do
  let (skolems, d) ← d.introduceSkolem plan.skolem
  let (box, d) ← d.prepend target (.box { adjacent := plan.adjacent, skolems })
  return (box, ← d.pushChildren box (plannedKinds plan))

/-- Puts a premise before the target, unless it is there already.  The answer is the item to
cite. -/
def placePremise (d : Document) (target : ItemId) : Premise → Except Fault (ItemId × Document)
  | .cite id => .ok (id, d)
  | .goal f => do
    let (_, d) ← d.prepend target (.empty 0)
    d.prepend target (.line f .goal 0)
  | .box plan => d.buildBox target plan

/-- Puts premises before the target one by one. -/
def placePremises (d : Document) (target : ItemId) :
    List Premise → Except Fault (List ItemId × Document)
  | [] => .ok ([], d)
  | premise :: premises => do
    let (cite, d) ← d.placePremise target premise
    let (cites, d) ← d.placePremises target premises
    return (cite :: cites, d)

/-- Drops the empty line that stood before a target which is justified now, if it is of no use any
more: the target follows it directly, or another empty line does. -/
def dropGap (d : Document) (target : ItemId) (before : Option ItemId) : Except Fault Document :=
  match before with
  | none => .ok d
  | some gap =>
    if d.isEmptyLine gap then
      match d.next? gap with
      | none => .error (.notLinked gap)
      | some next => if next = target || d.isEmptyLine next then d.delete gap else .ok d
    else .ok d

/-- Puts a step into the document. -/
def splice (d : Document) (rule : Rule) (target : ItemId) (step : Step) :
    Except Fault Document := do
  let before := (← d.item target).prev
  let (cites, d) ← d.placePremises target step.premises
  match step with
  | .derive f _ => do
    let (_, d) ← d.prepend target (.line f (.byRule rule cites) 0)
    return d
  | .justify _ =>
    let d ← d.setJust target (.byRule rule cites)
    d.dropGap target before

end NaturalDeduction.Document
