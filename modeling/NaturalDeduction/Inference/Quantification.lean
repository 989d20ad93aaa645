import NaturalDeduction.Inference.Situation
import NaturalDeduction.Matching
import NaturalDeduction.Substitution

/-!
# Rules for the quantifiers

An existential statement follows from any of its instances, and is used through a box about a new
constant that stands for a witness.  A universal statement gives all its instances, and is proved in
a box about a new constant that stands for anything.
-/

set_option autoImplicit false

namespace NaturalDeduction

/-- The instance of a formula whose quantifiers are filled with the terms of the answer. -/
def Input.toInstance (q : Quantifier) (f : Formula) (input : Input) : Except Refusal Formula := do
  let ts ← input.toTerms
  match f.instantiate? q ts with
  | some g => return g
  | none => throw (.fault .unexpectedInput)

/-- Existential introduction.  Forwards, the statement has to be given; backwards without a cited
line, the terms have to be given and the instance becomes a goal. -/
def existsIntro : Handler := fun s input => do
  match s.target with
  | .gap =>
    let cited ← s.theCite
    match input with
    | none => ask "Existential statement to introduce" .formula
    | some input =>
      let general ← input.toFormula
      if general.isInstance .ex cited.formula then derive general [cited.premise]
      else s.rejectShape cited.subject (.instanceOf (.formula general))
  | .goal g =>
    let vars := (g.strip .ex).1
    if vars.isEmpty then
      s.rejectShape .goal .existential
    else
      match ← s.cite?, input with
      | some cited, _ =>
        if g.isInstance .ex cited.formula then justify [cited.premise]
        else s.rejectShape cited.subject (.instanceOf .goal)
      | none, none => askTerms vars
      | none, some input => justify [.goal (← input.toInstance .ex g)]

/-- The box in which a goal is proved from a witness of an existential statement. -/
def witnessBox (s : Situation) (existential goal : Formula) : Except Refusal Premise :=
  match existential.binder? .ex with
  | some (var, body) =>
    .ok (.box
      { skolem := some s.nextSkolem
        assumption := some (body.subst1 var (.const s.nextSkolem))
        goal })
  | none => s.rejectShape (.formula existential) .existential

/-- Existential elimination.  Forwards, the conclusion has to be given; backwards without a cited
line, the existential statement has to be given and becomes a goal. -/
def existsElim : Handler := fun s input => do
  match ← s.cite? with
  | some cited =>
    match s.target with
    | .gap =>
      if (cited.formula.binder? .ex).isNone then
        s.rejectShape cited.subject .existential
      else
        match input with
        | none => ask "Conclusion to reach from the witness" .formula
        | some input =>
          let conclusion ← input.toFormula
          derive conclusion [cited.premise, ← witnessBox s cited.formula conclusion]
    | .goal g =>
      if (cited.formula.binder? .ex).isNone then
        s.rejectShape cited.subject .existential
      else justify [cited.premise, ← witnessBox s cited.formula g]
  | none =>
    match s.target, input with
    | .gap, _ => s.wrongCount .exactlyOne
    | .goal _, none => ask "Existential statement to use" .formula
    | .goal g, some input =>
      let existential ← input.toFormula
      justify [.goal existential, ← witnessBox s existential g]

/-- The box in which a universal statement is proved of a new constant. -/
def genericBox (s : Situation) (universal : Formula) : Except Refusal Premise :=
  match universal.binder? .all with
  | some (var, body) =>
    .ok (.box
      { skolem := some s.nextSkolem, goal := body.subst1 var (.const s.nextSkolem) })
  | none => s.rejectShape (.formula universal) .universal

/-- Universal introduction.  Forwards, the statement has to be given. -/
def forallIntro : Handler := fun s input => do
  s.require .none
  match s.target, input with
  | .gap, none => ask "Universal statement to prove" .formula
  | .gap, some input =>
    let universal ← input.toFormula
    derive universal [← genericBox s universal]
  | .goal g, _ => justify [← genericBox s g]

/-- Universal elimination.  Forwards, the terms have to be given; backwards without a cited line,
the universal statement has to be given and becomes a goal. -/
def forallElim : Handler := fun s input => do
  match s.target with
  | .gap =>
    let cited ← s.theCite
    let vars := (cited.formula.strip .all).1
    if vars.isEmpty then
      s.rejectShape cited.subject .universal
    else
      match input with
      | none => askTerms vars
      | some input => derive (← input.toInstance .all cited.formula) [cited.premise]
  | .goal g =>
    match ← s.cite?, input with
    | some cited, _ =>
      if cited.formula.isInstance .all g then justify [cited.premise]
      else s.rejectShape .goal (.instanceOf cited.subject)
    | none, none => ask "Universal statement to instantiate" .formula
    | none, some input =>
      let universal ← input.toFormula
      if universal.isInstance .all g then justify [.goal universal]
      else s.rejectShape .goal (.instanceOf (.formula universal))

end NaturalDeduction
