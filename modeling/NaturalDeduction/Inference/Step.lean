import NaturalDeduction.Document.Basic

/-!
# Steps, questions and answers

A rule that applies comes to a `Step`: a formula to add or a goal to justify, together with the
premises it rests on.  A premise is a cited line, a new goal, or a new box.  A rule that cannot
decide on a step by itself asks a question first and gets an `Input` as the answer.
-/

set_option autoImplicit false

namespace NaturalDeduction

/-- What kind of answer a question wants. -/
inductive InputKind where
  /-- A formula. -/
  | formula
  /-- One of the listed options. -/
  | choice (options : List String)
  /-- This many closed terms. -/
  | terms (count : Nat)
deriving DecidableEq

/-- A question a rule asks. -/
structure Request where
  /-- The question in words. -/
  prompt : String
  /-- The kind of answer. -/
  kind : InputKind
deriving DecidableEq

/-- An answer to a question. -/
inductive Input where
  /-- A formula. -/
  | formula (f : Formula)
  /-- An option, counted from zero. -/
  | choice (index : Nat)
  /-- A list of terms. -/
  | terms (ts : List Term)
deriving DecidableEq

/-- The constants an answer mentions. -/
def Input.constants : Input → List String
  | .formula f => f.constants.toList
  | .choice _ => []
  | .terms ts => ts.flatMap fun t => t.constants.toList

/-- A box to be built.  It begins with the Skolem constant and the assumption, if there are any,
and ends with an empty line and the goal. -/
structure BoxPlan where
  /-- The Skolem constant the box introduces. -/
  skolem : Option String := none
  /-- What the box assumes. -/
  assumption : Option Formula := none
  /-- What is to be proved in the box. -/
  goal : Formula
  /-- Whether the box is shown flush against the next one. -/
  adjacent : Bool := false
deriving DecidableEq

/-- What a step rests on. -/
inductive Premise where
  /-- A line that is there. -/
  | cite (id : ItemId)
  /-- A new goal. -/
  | goal (f : Formula)
  /-- A new box. -/
  | box (plan : BoxPlan)
deriving DecidableEq

/-- What a rule does to a document. -/
inductive Step where
  /-- Adds a line above the empty line it works on. -/
  | derive (f : Formula) (premises : List Premise)
  /-- Justifies the goal it works on. -/
  | justify (premises : List Premise)
deriving DecidableEq

/-- The premises of a step. -/
def Step.premises : Step → List Premise
  | .derive _ premises => premises
  | .justify premises => premises

/-- What a rule comes to. -/
inductive Action where
  | apply (step : Step)
  | ask (request : Request)
deriving DecidableEq

end NaturalDeduction
