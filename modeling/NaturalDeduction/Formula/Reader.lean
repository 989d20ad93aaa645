import NaturalDeduction.Term.Reader
import NaturalDeduction.Token

/-!
# Reading formulas

A formula is read from its tokens with three stacks: the operators and brackets that wait for what
follows them, the formulas finished so far, and the variables of the quantifiers that are still
waiting.  A connective first commits the waiting operators that bind at least as tightly, so chains
of one connective group to the left; negations and quantifiers wait until something is committed
over them.
-/

set_option autoImplicit false

namespace NaturalDeduction.Formula

/-- Reads the text of an atomic formula, given the names bound around it. -/
def readAtom (bound : List String) (text : List Char) : Reader Formula :=
  if text = ['⊤'] then pure .top
  else if text = ['⊥'] then pure .bottom
  else
    match Application.split '=' text with
    | [_] => do
      match ← Reader.ofExcept (Application.parts? text) with
      | none => return .prop (← Reader.ofExcept (checkName text))
      | some (name, args) =>
        let name ← Reader.ofExcept (checkName name)
        let args ← Term.readArgs bound text (Application.split ',' args)
        Reader.recordArity .relation name args.length
        return .rel name args
    | [left, right] => do
      if Text.allBlank left || Text.allBlank right then
        throw (.malformedEquation (String.ofList text))
      let left ← Term.read bound left
      let right ← Term.read bound right
      return .eq left right
    | _ => throw (.malformedEquation (String.ofList text))

/-- Something that waits on the stack of operators. -/
inductive Waiting where
  /-- An operator whose right operand is not finished. -/
  | operator (op : Operator)
  /-- A bracket that is not closed. -/
  | bracket (bracket : Bracket)
deriving DecidableEq

/-- What has been finished. -/
structure Finished where
  /-- The finished formulas, last one first. -/
  formulas : List Formula := []
  /-- The variables of the waiting quantifiers, last one first. -/
  bound : List String := []

/-- Builds the formula of an operator from the finished formulas. -/
def Finished.commit (done : Finished) : Operator → Except ParseError Finished
  | .not =>
    match done.formulas with
    | f :: fs => .ok { done with formulas := .neg f :: fs }
    | [] => .error (.missingOperand .not)
  | .binary op =>
    match done.formulas with
    | right :: left :: fs => .ok { done with formulas := .binary op left right :: fs }
    | _ => .error (.missingOperand (.binary op))
  | .quantifier q =>
    match done.formulas, done.bound with
    | body :: fs, var :: vars => .ok { formulas := .quant q var body :: fs, bound := vars }
    | [], _ => .error (.missingOperand (.quantifier q))
    | _ :: _, [] => .error (.missingVariable q)

/-- Commits the operators at the top of the stack that bind at least as tightly as `priority`. -/
def commitTighter (priority : Nat) :
    List Waiting → Finished → Except ParseError (List Waiting × Finished)
  | .operator op :: stack, done =>
    if op.priority ≤ priority then
      match done.commit op with
      | .ok done => commitTighter priority stack done
      | .error e => .error e
    else .ok (.operator op :: stack, done)
  | stack, done => .ok (stack, done)

/-- Commits the operators back to the bracket that is closed, and drops that bracket. -/
def closeGroup (closing : Bracket) :
    List Waiting → Finished → Except ParseError (List Waiting × Finished)
  | [], _ => .error (.unmatchedBracket closing.closing)
  | .operator op :: stack, done =>
    match done.commit op with
    | .ok done => closeGroup closing stack done
    | .error e => .error e
  | .bracket opening :: stack, done =>
    if opening = closing then .ok (stack, done) else .error (.mismatchedBracket opening closing)

/-- Commits all operators at the end of the text. -/
def commitAll : List Waiting → Finished → Except ParseError Finished
  | [], done => .ok done
  | .operator op :: stack, done =>
    match done.commit op with
    | .ok done => commitAll stack done
    | .error e => .error e
  | .bracket opening :: _, _ => .error (.unmatchedBracket opening.opening)

/-- Takes in one token. -/
def readToken (stack : List Waiting) (done : Finished) : Token → Reader (List Waiting × Finished)
  | .not => pure (.operator .not :: stack, done)
  | .connective op => do
    let (stack, done) ← Reader.ofExcept (commitTighter op.precedence stack done)
    return (.operator (.binary op) :: stack, done)
  | .quantifier q var =>
    pure (.operator (.quantifier q) :: stack, { done with bound := var :: done.bound })
  | .opening bracket => pure (.bracket bracket :: stack, done)
  | .closing bracket => Reader.ofExcept (closeGroup bracket stack done)
  | .operand text => do
    let f ← readAtom done.bound text
    return (stack, { done with formulas := f :: done.formulas })

/-- Takes in tokens one by one. -/
def readTokens (stack : List Waiting) (done : Finished) :
    List Token → Reader (List Waiting × Finished)
  | [] => pure (stack, done)
  | token :: tokens => do
    let (stack, done) ← readToken stack done token
    readTokens stack done tokens

/-- The formula that is left when everything has been committed. -/
def Finished.result (done : Finished) : Except ParseError Formula :=
  match done.formulas with
  | [] => .error .empty
  | [f] => .ok f
  | _ => .error .missingOperator

/-- Reads a formula. -/
def read (text : List Char) : Reader Formula := do
  let (tokens, scanError) := Token.scan text
  let (stack, done) ← readTokens [] {} tokens
  match scanError with
  | some e => throw e
  | none =>
    let done ← Reader.ofExcept (commitAll stack done)
    Reader.ofExcept done.result

/-- Reads a formula. -/
def parse (text : String) : Reader Formula :=
  read text.toList

/-- Reads several formulas against one signature.  A formula that cannot be read leaves no trace in
the signature. -/
def parseEach : List String → Signature → List (Except ParseError Formula) × Signature
  | [], sig => ([], sig)
  | text :: texts, sig =>
    match parse text sig with
    | .ok f sig' =>
      let (rest, last) := parseEach texts sig'
      (.ok f :: rest, last)
    | .error e _ =>
      let (rest, last) := parseEach texts sig
      (.error e :: rest, last)

end NaturalDeduction.Formula
