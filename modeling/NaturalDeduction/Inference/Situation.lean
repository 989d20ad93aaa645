import NaturalDeduction.Document.Selection
import NaturalDeduction.Inference.Step

/-!
# What a rule sees

A rule sees its target, the lines cited for it and the Skolem constant that would be introduced
next; from these and from the answer to its question it decides what to do.  It works forwards when
the target is an empty line, and backwards when the target is a goal.
-/

set_option autoImplicit false

namespace NaturalDeduction

/-- What a rule works on. -/
inductive Target where
  /-- An empty line: a new line is to be added above it. -/
  | gap
  /-- A goal: the line is to be justified. -/
  | goal (f : Formula)
deriving DecidableEq

/-- A cited line. -/
structure CitedLine where
  /-- Its place in the table. -/
  id : ItemId
  /-- Its number. -/
  number : Nat
  /-- Its formula. -/
  formula : Formula
deriving DecidableEq

/-- What a rule sees of the document. -/
structure Situation where
  /-- The rule to be applied. -/
  rule : Rule
  /-- What the rule works on. -/
  target : Target
  /-- The cited lines, in the order of their selection. -/
  cites : List CitedLine
  /-- The Skolem constant that would be introduced next. -/
  nextSkolem : String
deriving DecidableEq

/-- The decision of a rule in a situation, given the answer to its question if there is one. -/
abbrev Handler := Situation → Option Input → Except Refusal Action

/-! ### Decisions -/

/-- Add a line. -/
def derive (f : Formula) (premises : List Premise) : Except Refusal Action :=
  .ok (.apply (.derive f premises))

/-- Justify the goal. -/
def justify (premises : List Premise) : Except Refusal Action :=
  .ok (.apply (.justify premises))

/-- Ask a question. -/
def ask (prompt : String) (kind : InputKind) : Except Refusal Action :=
  .ok (.ask { prompt, kind })

/-- Ask which of several formulas is meant. -/
def askWhich (prompt : String) (options : List Formula) : Except Refusal Action :=
  ask prompt (.choice (options.map Formula.text))

/-- Ask for a term for each of several variables. -/
def askTerms (vars : List String) : Except Refusal Action :=
  ask ("Terms for " ++ ", ".intercalate vars) (.terms vars.length)

/-! ### Answers -/

namespace Input

/-- The answer as a formula. -/
def toFormula : Input → Except Refusal Formula
  | .formula f => .ok f
  | _ => .error (.fault .unexpectedInput)

/-- The answer as one of several formulas. -/
def toOption (options : List Formula) : Input → Except Refusal Formula
  | .choice index =>
    match options[index]? with
    | some f => .ok f
    | none => .error (.fault .unexpectedInput)
  | _ => .error (.fault .unexpectedInput)

/-- The answer as terms. -/
def toTerms : Input → Except Refusal (List Term)
  | .terms ts => .ok ts
  | _ => .error (.fault .unexpectedInput)

end Input

/-! ### Citations -/

/-- The citation as a premise. -/
def CitedLine.premise (cited : CitedLine) : Premise := .cite cited.id

/-- The citation as the subject of a refusal. -/
def CitedLine.subject (cited : CitedLine) : Subject := .line cited.number

namespace Situation

/-- Refuses the rule because something is not as it should be. -/
def reject {α : Type} (s : Situation) (mismatch : Mismatch) : Except Refusal α :=
  .error (.rule (.invalid s.rule mismatch))

/-- Refuses the rule because a subject is not what is expected. -/
def rejectShape {α : Type} (s : Situation) (subject : Subject) (expected : Expectation) :
    Except Refusal α :=
  s.reject (.isNot subject expected)

/-- Refuses the rule because the number of cited lines is wrong. -/
def wrongCount {α : Type} (s : Situation) (expected : CiteCount) : Except Refusal α :=
  .error (.rule (.wrongCount s.rule expected s.cites.length))

/-- Insists on a number of cited lines. -/
def require (s : Situation) (expected : CiteCount) : Except Refusal Unit :=
  if expected.admits s.cites.length then .ok () else s.wrongCount expected

/-- The only cited line. -/
def theCite (s : Situation) : Except Refusal CitedLine :=
  match s.cites with
  | [cited] => .ok cited
  | _ => s.wrongCount .exactlyOne

/-- The cited line if there is one; there must not be more. -/
def cite? (s : Situation) : Except Refusal (Option CitedLine) :=
  match s.cites with
  | [] => .ok none
  | [cited] => .ok (some cited)
  | _ => s.wrongCount .atMostOne

/-- All cited lines as premises. -/
def allCites (s : Situation) : List Premise :=
  s.cites.map CitedLine.premise

/-- The cited line with a formula, or a new goal for it. -/
def citedOrGoal (s : Situation) (f : Formula) : Premise :=
  match s.cites.find? fun cited => cited.formula = f with
  | some cited => cited.premise
  | none => .goal f

/-- The first cited line whose formula is not in a list. -/
def strayCite? (s : Situation) (fs : List Formula) : Option CitedLine :=
  s.cites.find? fun cited => cited.formula ∉ fs

/-- Tries a relation on two cited lines in both orders.  The result comes with the lines in the
order in which they were taken. -/
def pair? {α : Type} (s : Situation) (f : Formula → Formula → Option α) :
    Option (α × List Premise) :=
  match s.cites with
  | [a, b] =>
    match f a.formula b.formula with
    | some result => some (result, [a.premise, b.premise])
    | none => (f b.formula a.formula).map fun result => (result, [b.premise, a.premise])
  | _ => none

end Situation
end NaturalDeduction
