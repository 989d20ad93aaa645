import NaturalDeduction.Document.Completion
import NaturalDeduction.Inference.Conjunction
import NaturalDeduction.Inference.Disjunction
import NaturalDeduction.Inference.Equality
import NaturalDeduction.Inference.Implication
import NaturalDeduction.Inference.Negation
import NaturalDeduction.Inference.Quantification
import NaturalDeduction.Inference.Splice
import NaturalDeduction.Settings

/-!
# Applying rules

A rule is begun on selected lines and either done at once or left waiting for an answer.  The
decision about a rule is made before the document is touched, so a rule that is refused changes
nothing.
-/

set_option autoImplicit false

namespace NaturalDeduction

/-- How each rule decides. -/
def Rule.handler : Rule → Handler
  | .tick => NaturalDeduction.tick
  | .andIntro => NaturalDeduction.andIntro
  | .andElim => NaturalDeduction.andElim
  | .orIntro => NaturalDeduction.orIntro
  | .orElim => NaturalDeduction.orElim
  | .impliesIntro => NaturalDeduction.impliesIntro
  | .impliesElim => NaturalDeduction.impliesElim
  | .notIntro => NaturalDeduction.notIntro
  | .notElim => NaturalDeduction.notElim
  | .notNotIntro => NaturalDeduction.notNotIntro
  | .notNotElim => NaturalDeduction.notNotElim
  | .topIntro => NaturalDeduction.topIntro
  | .bottomElim => NaturalDeduction.bottomElim
  | .iffIntro => NaturalDeduction.iffIntro
  | .iffElim => NaturalDeduction.iffElim
  | .excludedMiddle => NaturalDeduction.excludedMiddle
  | .contradiction => NaturalDeduction.contradiction
  | .existsIntro => NaturalDeduction.existsIntro
  | .existsElim => NaturalDeduction.existsElim
  | .forallIntro => NaturalDeduction.forallIntro
  | .forallElim => NaturalDeduction.forallElim
  | .eqIntro => NaturalDeduction.eqIntro
  | .eqElim => NaturalDeduction.eqElim
  | .eqSymm => NaturalDeduction.eqSymm

/-- A rule that waits for an answer. -/
structure Pending where
  /-- The rule. -/
  rule : Rule
  /-- The lines it was begun on. -/
  selection : Selection
  /-- The question it asked. -/
  request : Request
deriving DecidableEq

/-- How far a rule has got. -/
inductive Outcome where
  /-- The rule has been applied. -/
  | done
  /-- The rule waits for an answer. -/
  | needsInput (pending : Pending)
deriving DecidableEq

/-- Whether an answer is of the kind a question wants. -/
def Input.check (input : Input) (request : Request) : Except RuleError Unit :=
  match input, request.kind with
  | .formula _, .formula => .ok ()
  | .choice index, .choice options =>
    if index < options.length then .ok () else .error (.badChoice index)
  | .terms ts, .terms count =>
    if ts.length = count then .ok ()
    else .error (.wrongInput (if count = 1 then .oneTerm else .termPerVariable))
  | _, .formula => .error (.wrongInput .formula)
  | _, .choice _ => .error (.wrongInput .choice)
  | _, .terms count => .error (.wrongInput (if count = 1 then .oneTerm else .termPerVariable))

namespace Document

/-- What a rule sees of a cited item, which must be a line. -/
def citedLine (d : Document) (id : ItemId) : Except Fault CitedLine :=
  match d.kind? id with
  | some (.line formula _ number) => .ok { id, number, formula }
  | _ => .error (.notALine id)

/-- What a rule sees of the cited items. -/
def citedLines (d : Document) : List ItemId → Except Fault (List CitedLine)
  | [] => .ok []
  | id :: ids => do return (← d.citedLine id) :: (← d.citedLines ids)

/-- What an item is as a target. -/
def target (d : Document) (id : ItemId) : Target :=
  match d.line? id with
  | some (f, just) => if just.isGoal then .goal f else .gap
  | none => .gap

/-- What a rule sees of the document. -/
def situation (d : Document) (rule : Rule) (selection : Selection) : Except Fault Situation := do
  return {
    rule
    target := d.target selection.target
    cites := ← d.citedLines selection.cites
    nextSkolem := d.signature.nextSkolem }

/-- Brings the document in order after a step. -/
def settle (d : Document) (settings : Settings) : Except Fault Document := do
  if settings.autoComplete then
    let (_, d) ← d.refresh
    return d
  else return d.renumber

/-- Lets a rule decide and carries out what it decides. -/
def run (d : Document) (settings : Settings) (rule : Rule) (selection : Selection)
    (input : Option Input) : Except Refusal (Outcome × Document) := do
  let situation ← Refusal.lift (d.situation rule selection)
  match ← rule.handler situation input with
  | .ask request => return (.needsInput { rule, selection, request }, d)
  | .apply step =>
    let spliced ← Refusal.lift (d.splice rule selection.target step)
    let settled ← Refusal.lift (spliced.settle settings)
    return (.done, settled)

/-- Begins a rule on the lines with the given numbers. -/
def begin (d : Document) (settings : Settings) (rule : Rule) (numbers : List Nat) :
    Except Refusal (Outcome × Document) := do
  let selection ← d.select numbers
  d.run settings rule selection none

/-- Whether a name can be used at a target: it is no Skolem constant, or its box is around the
target. -/
def isVisible (d : Document) (target : ItemId) (name : String) : Bool :=
  !d.signature.skolems.contains name ||
    match d.skolemBox? name with
    | some box => (d.ancestors target).contains box
    | none => false

/-- Refuses an answer that mentions a Skolem constant outside its box. -/
def checkSkolems (d : Document) (target : ItemId) (input : Input) : Except Refusal Unit := do
  match input.constants.find? fun name => !d.isVisible target name with
  | none => return ()
  | some name =>
    let number ← Refusal.lift (d.citeNumber target)
    throw (.rule (.skolemEscape name number))

/-- Whether the lines a rule was begun on still stand in the document. -/
def holds (d : Document) (selection : Selection) : Bool :=
  d.isLinked selection.target && selection.cites.all d.isLinked

/-- Goes on with a waiting rule. -/
def resume (d : Document) (settings : Settings) (pending : Pending) (input : Input) :
    Except Refusal (Outcome × Document) := do
  match input.check pending.request with
  | .error e => throw (.rule e)
  | .ok () =>
    if !d.holds pending.selection then
      throw (.rule .stalePending)
    if settings.checkSkolemScope then
      d.checkSkolems pending.selection.target input
    d.run settings pending.rule pending.selection (some input)

end Document
end NaturalDeduction
