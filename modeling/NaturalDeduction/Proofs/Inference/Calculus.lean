import NaturalDeduction.Inference.Engine
import NaturalDeduction.Proofs.Operand
import Mathlib.Data.List.Forall2

/-!
# The calculus behind the rules

What a rule may do is stated here without regard to how it decides: `Derives` lists, for each rule,
the premises from which it concludes a formula.  A premise supplies a formula by citing a line with
this formula or by asking for it as a new goal; a new box supplies a subproof.

The eigenvariable conditions of the quantifier rules, and the conditions on terms, are stated through
a `Vocabulary`: a class of formulas and terms, closed under what the rules do, together with the
Skolem constant that may be introduced.  In the vocabulary that leaves this constant out, the
conditions say that it is new.
-/

set_option autoImplicit false

namespace NaturalDeduction

/-! ### Vocabularies -/

/-- A class of formulas and terms that the rules do not leave, except for the Skolem constant they
introduce: the `extended` formulas may mention it. -/
structure Vocabulary where
  formula : Formula → Prop
  term : Term → Prop
  extended : Formula → Prop
  skolem : String
  extend : ∀ {f}, formula f → extended f
  top : formula .top
  bottom : formula .bottom
  neg : ∀ {f}, formula (.neg f) ↔ formula f
  binary : ∀ {op f g}, formula (.binary op f g) ↔ formula f ∧ formula g
  eq : ∀ {a b}, formula (.eq a b) ↔ term a ∧ term b
  generic : ∀ {q var body}, formula (.quant q var body) →
    extended (body.subst1 var (.const skolem))
  instantiate : ∀ {q ts f g}, formula f → (∀ t ∈ ts, term t) →
    f.instantiate? q ts = some g → formula g
  replace : ∀ {a b f}, term a → term b → formula f → formula (f.replace a b)

namespace Vocabulary

/-- The vocabulary of all formulas. -/
def all (skolem : String) : Vocabulary where
  formula _ := True
  term _ := True
  extended _ := True
  skolem := skolem
  extend _ := trivial
  top := trivial
  bottom := trivial
  neg := Iff.rfl
  binary := ⟨fun _ => ⟨trivial, trivial⟩, fun _ => trivial⟩
  eq := ⟨fun _ => ⟨trivial, trivial⟩, fun _ => trivial⟩
  generic _ := trivial
  instantiate _ _ _ := trivial
  replace _ _ _ := trivial

end Vocabulary

/-- An answer stays in a vocabulary. -/
def Input.Speaks (W : Vocabulary) : Input → Prop
  | .formula f => W.formula f
  | .choice _ => True
  | .terms ts => ∀ t ∈ ts, W.term t

/-- The formulas of a planned box stay in a vocabulary.  With a Skolem constant, which must be the
one of the vocabulary, they may mention it. -/
def BoxPlan.Speaks (W : Vocabulary) (plan : BoxPlan) : Prop :=
  match plan.skolem with
  | none => (∀ f ∈ plan.assumption, W.formula f) ∧ W.formula plan.goal
  | some name => name = W.skolem ∧ (∀ f ∈ plan.assumption, W.extended f) ∧ W.extended plan.goal

/-- A premise stays in a vocabulary. -/
def Premise.Speaks (W : Vocabulary) : Premise → Prop
  | .cite _ => True
  | .goal f => W.formula f
  | .box plan => plan.Speaks W

/-- What a rule sees stays in a vocabulary. -/
structure Situation.Speaks (W : Vocabulary) (s : Situation) (input : Option Input) : Prop where
  skolem : s.nextSkolem = W.skolem
  cites : ∀ cited ∈ s.cites, W.formula cited.formula
  target : ∀ {g}, s.target = .goal g → W.formula g
  input : ∀ i ∈ input, i.Speaks W

/-! ### Parts of formulas -/

/-- With a formula a vocabulary has all the parts it is joined from. -/
theorem Vocabulary.partOf (W : Vocabulary) {op : Connective} {g f : Formula}
    (h : PartOf op g f) (hf : W.formula f) : W.formula g := by
  induction h with
  | self => exact hf
  | left _ ih => exact ih (W.binary.1 hf).1
  | right _ ih => exact ih (W.binary.1 hf).2

/-- A vocabulary has a joined formula just if it has all the formulas that are joined. -/
theorem Vocabulary.joins (W : Vocabulary) {op : Connective} {fs : List Formula} {f : Formula}
    (h : Joins op fs f) : W.formula f ↔ ∀ g ∈ fs, W.formula g := by
  induction h with
  | one f => simp
  | both _ _ iha ihb => rw [W.binary, iha, ihb, List.forall_mem_append]

/-! ### The rules -/

/-- A premise supplies a formula: it cites a line with the formula, or asks for it as a goal. -/
inductive Supplies (cites : List CitedLine) : Premise → Formula → Prop
  | cite {cited : CitedLine} (h : cited ∈ cites) : Supplies cites cited.premise cited.formula
  | goal (f : Formula) : Supplies cites (.goal f) f

/-- A formula `g` comes from `f` by putting `b` in some places of `a`. -/
inductive Replaces (a b : Term) (f g : Formula) : Prop
  | everywhere (h : g = f.replace a b)
  | back (h : f = g.replace b a)
  | somewhere (h : f.becomes a b g = true)

/-- The premises from which each rule concludes a formula. -/
inductive Derives (W : Vocabulary) (cites : List CitedLine) :
    Rule → List Premise → Formula → Prop
  | tick {p : Premise} {f : Formula} (h : Supplies cites p f) : Derives W cites .tick [p] f
  | andIntro {ps : List Premise} {fs : List Formula} {f : Formula}
      (hps : List.Forall₂ (Supplies cites) ps fs) (hf : Joins .and fs f) :
      Derives W cites .andIntro ps f
  | andElim {p : Premise} {f g : Formula} (h : Supplies cites p f) (hg : PartOf .and g f) :
      Derives W cites .andElim [p] g
  | orIntro {p : Premise} {f g : Formula} (h : Supplies cites p g) (hg : PartOf .or g f) :
      Derives W cites .orIntro [p] f
  | orElim {p : Premise} {f g : Formula} {cases : List Formula} (h : Supplies cites p f)
      (hf : Joins .or cases f) : Derives W cites .orElim (p :: caseBoxes g cases) g
  | impliesIntro {a b : Formula} :
      Derives W cites .impliesIntro [.box { assumption := some a, goal := b }]
        (.binary .implies a b)
  | impliesElim {p q : Premise} {a b : Formula} (hp : Supplies cites p (.binary .implies a b))
      (hq : Supplies cites q a) : Derives W cites .impliesElim [p, q] b
  | notIntro {a : Formula} :
      Derives W cites .notIntro [.box { assumption := some a, goal := .bottom }] (.neg a)
  | notElim {p q : Premise} {a : Formula} (hp : Supplies cites p a)
      (hq : Supplies cites q (.neg a)) : Derives W cites .notElim [p, q] .bottom
  | notNotIntro {p : Premise} {a : Formula} (hp : Supplies cites p a) :
      Derives W cites .notNotIntro [p] (.neg (.neg a))
  | notNotElim {p : Premise} {a : Formula} (hp : Supplies cites p (.neg (.neg a))) :
      Derives W cites .notNotElim [p] a
  | topIntro : Derives W cites .topIntro [] .top
  | bottomElim {p : Premise} {f : Formula} (hp : Supplies cites p .bottom) :
      Derives W cites .bottomElim [p] f
  | iffIntro {p q : Premise} {a b : Formula} (hp : Supplies cites p (.binary .implies a b))
      (hq : Supplies cites q (.binary .implies b a)) :
      Derives W cites .iffIntro [p, q] (.binary .iff a b)
  | iffElimLeft {p q : Premise} {a b : Formula} (hp : Supplies cites p (.binary .iff a b))
      (hq : Supplies cites q a) : Derives W cites .iffElim [p, q] b
  | iffElimRight {p q : Premise} {a b : Formula} (hp : Supplies cites p (.binary .iff a b))
      (hq : Supplies cites q b) : Derives W cites .iffElim [p, q] a
  | excludedMiddle {f : Formula} :
      Derives W cites .excludedMiddle [] (.binary .or f (.neg f))
  | contradiction {f : Formula} :
      Derives W cites .contradiction [.box { assumption := some (.neg f), goal := .bottom }] f
  | existsIntroMatch {p : Premise} {f general : Formula} (hp : Supplies cites p f)
      (hf : W.formula f) (hgeneral : W.formula general) (hmatch : general.isInstance .ex f = true) :
      Derives W cites .existsIntro [p] general
  | existsIntro {p : Premise} {f general : Formula} {ts : List Term} (hp : Supplies cites p f)
      (hts : ∀ t ∈ ts, W.term t) (hgeneral : W.formula general)
      (hinstance : general.instantiate? .ex ts = some f) :
      Derives W cites .existsIntro [p] general
  | existsElim {p : Premise} {var : String} {body goal : Formula}
      (hp : Supplies cites p (.quant .ex var body)) (hbody : W.formula (.quant .ex var body))
      (hgoal : W.formula goal) :
      Derives W cites .existsElim
        [p, .box
          { skolem := some W.skolem
            assumption := some (body.subst1 var (.const W.skolem))
            goal }] goal
  | forallIntro {var : String} {body : Formula} (hbody : W.formula (.quant .all var body)) :
      Derives W cites .forallIntro
        [.box { skolem := some W.skolem, goal := body.subst1 var (.const W.skolem) }]
        (.quant .all var body)
  | forallElimMatch {p : Premise} {f general : Formula} (hp : Supplies cites p general)
      (hf : W.formula f) (hgeneral : W.formula general)
      (hmatch : general.isInstance .all f = true) : Derives W cites .forallElim [p] f
  | forallElim {p : Premise} {f general : Formula} {ts : List Term}
      (hp : Supplies cites p general) (hts : ∀ t ∈ ts, W.term t) (hgeneral : W.formula general)
      (hinstance : general.instantiate? .all ts = some f) : Derives W cites .forallElim [p] f
  | eqIntro {t : Term} : Derives W cites .eqIntro [] (.eq t t)
  | eqElim {p q : Premise} {a b : Term} {f g : Formula} (hp : Supplies cites p (.eq a b))
      (hq : Supplies cites q f) (ha : W.term a) (hb : W.term b) (hg : Replaces a b f g) :
      Derives W cites .eqElim [p, q] g
  | eqSymm {p : Premise} {a b : Term} (hp : Supplies cites p (.eq a b)) :
      Derives W cites .eqSymm [p] (.eq b a)

/-- A rule comes to a step by the calculus: forwards it derives a formula, backwards it justifies
its goal. -/
inductive Yields (W : Vocabulary) (s : Situation) (rule : Rule) : Step → Prop
  | derive {f : Formula} {ps : List Premise} (htarget : s.target = .gap)
      (hf : Derives W s.cites rule ps f) (hspeaks : W.formula f) (hps : ∀ p ∈ ps, p.Speaks W) :
      Yields W s rule (.derive f ps)
  | justify {g : Formula} {ps : List Premise} (htarget : s.target = .goal g)
      (hg : Derives W s.cites rule ps g) (hps : ∀ p ∈ ps, p.Speaks W) :
      Yields W s rule (.justify ps)

end NaturalDeduction
