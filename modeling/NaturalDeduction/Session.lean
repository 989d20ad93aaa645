import NaturalDeduction.Formula.Reader
import NaturalDeduction.Inference.Engine
import NaturalDeduction.Snapshot.Basic
import NaturalDeduction.Text.Numeral

/-!
# Sessions

A session is one attempt at a proof: the settings, the document, and the rule that waits for an
answer, if there is one.  An operation returns its answer and the session after it.  A refused
operation also has a session after it: beginning a rule gives up the waiting one even if the new one
is refused, while a refused answer leaves everything as it was.
-/

set_option autoImplicit false

namespace NaturalDeduction

/-- The formulas of a list that could not be read, by their place in the list. -/
structure BatchError where
  failures : List (Nat × ParseError)
deriving DecidableEq

/-- The error in words; formulas are counted from one. -/
def BatchError.message (e : BatchError) : String :=
  "; ".intercalate (e.failures.map fun (index, cause) =>
    "formula " ++ (index + 1).repr ++ ": " ++ cause.message)

/-- Why an answer given as text was refused. -/
inductive AnswerError where
  /-- The text could not be read. -/
  | parse (error : ParseError)
  /-- The rule does not accept the answer. -/
  | rule (error : RuleError)
deriving DecidableEq

/-- The error in words. -/
def AnswerError.message : AnswerError → String
  | .parse e => "parse error: " ++ e.message
  | .rule e => e.message

/-- The rule that waits after an outcome. -/
def Outcome.pending? : Outcome → Option Pending
  | .done => none
  | .needsInput pending => some pending

/-- One attempt at a proof. -/
structure Session where
  /-- How the assistant behaves. -/
  settings : Settings := {}
  /-- The proof, once it has been started. -/
  document : Option Document := none
  /-- The rule that waits for an answer. -/
  pending : Option Pending := none
deriving DecidableEq

namespace Session

/-- The question of the waiting rule. -/
def request? (s : Session) : Option Request :=
  s.pending.map Pending.request

/-- The failures in a list of readings whose first one has the given place. -/
def failures (index : Nat) : List (Except ParseError Formula) → List (Nat × ParseError)
  | [] => []
  | .ok _ :: results => failures (index + 1) results
  | .error e :: results => (index, e) :: failures (index + 1) results

/-- The formulas in a list of readings. -/
def successes : List (Except ParseError Formula) → List Formula
  | [] => []
  | .ok f :: results => f :: successes results
  | .error _ :: results => successes results

/-- Starts a new proof.  Nothing changes unless all formulas can be read. -/
def start (s : Session) (givens : List String) (goal : String) :
    Except Fault (Except BatchError Unit × Session) :=
  let (results, sig) := Formula.parseEach givens {}
  let failed := failures 0 results
  match Formula.parse goal sig with
  | .error e _ => .ok (.error ⟨failed ++ [(givens.length, e)]⟩, s)
  | .ok f sig =>
    if failed.isEmpty then do
      let d ← (Document.start (successes results) f sig).settle s.settings
      return (.ok (), { s with document := some d, pending := none })
    else .ok (.error ⟨failed⟩, s)

/-- The session after a rule was begun or went on: a refusal leaves the session `refused`. -/
def conclude (s refused : Session) :
    Except Refusal (Outcome × Document) → Except Fault (Except RuleError Outcome × Session)
  | .ok (outcome, d) =>
    .ok (.ok outcome, { s with document := some d, pending := outcome.pending? })
  | .error (.rule e) => .ok (.error e, refused)
  | .error (.fault fault) => .error fault

/-- Begins a rule on the lines with the given numbers, and gives up the waiting rule. -/
def apply (s : Session) (rule : Rule) (numbers : List Nat) :
    Except Fault (Except RuleError Outcome × Session) :=
  let idle := { s with pending := none }
  match s.document with
  | none => .ok (.error .noProof, idle)
  | some d =>
    match numbers.find? fun number => (d.findLine? number).isNone with
    | some number => .ok (.error (.noSuchLine number), idle)
    | none => idle.conclude idle (d.begin s.settings rule numbers)

/-- Gives the waiting rule its answer.  If the answer is refused the rule keeps waiting. -/
def resume (s : Session) (input : Input) : Except Fault (Except RuleError Outcome × Session) :=
  match s.pending, s.document with
  | none, _ => .ok (.error .noPending, s)
  | some _, none => .ok (.error .noProof, s)
  | some pending, some d => s.conclude s (d.resume s.settings pending input)

/-- The limit that the number of an option stays below: it has 64 bits. -/
def choiceLimit : Nat := 0x10000000000000000

/-- The option meant by a text: a number, counted from one. -/
def choice? (text : String) : Option Nat :=
  match Text.number? choiceLimit (Text.trim text.toList) with
  | some (n + 1) => some n
  | _ => none

/-- Reads an answer of the kind a question wants.  A text that cannot be read may leave names behind
too. -/
def readInput (kind : InputKind) (text : String) (sig : Signature) :
    Except AnswerError Input × Signature :=
  match kind with
  | .formula =>
    match Formula.parse text sig with
    | .ok f sig => (.ok (.formula f), sig)
    | .error e sig => (.error (.parse e), sig)
  | .terms _ =>
    match Term.parseList text sig with
    | .ok ts sig => (.ok (.terms ts), sig)
    | .error e sig => (.error (.parse e), sig)
  | .choice _ =>
    match choice? text with
    | some index => (.ok (.choice index), sig)
    | none => (.error (.rule (.wrongInput .optionNumber)), sig)

/-- The session with a signature put into its document. -/
def withSignature (s : Session) (signature : Signature) : Session :=
  { s with document := s.document.map fun d => { d with signature } }

/-- Gives the waiting rule what was read from a text, if it could be read. -/
def resumeRead (s : Session) : Except AnswerError Input →
    Except Fault (Except AnswerError Outcome × Session)
  | .error e => .ok (.error e, s)
  | .ok input => do
    let (answer, s') ← s.resume input
    return (answer.mapError .rule, s')

/-- Gives the waiting rule an answer as text: a formula, the number of an option, or terms separated
by commas.  The rule sees the names of the text; those that were first seen in a refused text are
forgotten again. -/
def resumeText (s : Session) (text : String) :
    Except Fault (Except AnswerError Outcome × Session) :=
  match s.pending, s.document with
  | none, _ => .ok (.error (.rule .noPending), s)
  | some _, none => .ok (.error (.rule .noProof), s)
  | some pending, some d => do
    let (read, signature) := readInput pending.request.kind text d.signature
    match ← (s.withSignature signature).resumeRead read with
    | (.ok outcome, s') => return (.ok outcome, s')
    | (.error e, s') => return (.error e, s'.withSignature d.signature)

/-- Gives up the waiting rule.  The answer is whether there was one. -/
def cancel (s : Session) : Bool × Session :=
  (s.pending.isSome, { s with pending := none })

/-- Closes goals by hand, and gives up the waiting rule.  The answer is whether the proof is
complete. -/
def check (s : Session) : Except Fault (Except RuleError Bool × Session) :=
  match s.document with
  | none => .ok (.error .noProof, { s with pending := none })
  | some d => do
    let (complete, d) ← d.refresh
    return (.ok complete, { s with document := some d, pending := none })

/-- What the proof looks like. -/
def snapshot? (s : Session) : Except Fault (Option Snapshot) :=
  match s.document with
  | none => .ok none
  | some d => do return some (← d.snapshot s.settings.style)

end Session
end NaturalDeduction
