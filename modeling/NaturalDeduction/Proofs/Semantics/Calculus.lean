import NaturalDeduction.Proofs.Session.Run
import NaturalDeduction.Proofs.Semantics.Matching
import NaturalDeduction.Proofs.Semantics.Replacement

/-!
# The calculus is sound

A line stands for its formula.  A box stands for the passage from its assumptions to its last line,
whatever objects its Skolem constants stand for.  Every rule concludes a formula that holds whenever
its premises do, provided that formulas are closed and that the Skolem constant of a new box is new;
so working with closed formulas is a discipline.
-/

set_option autoImplicit false

namespace NaturalDeduction

universe u

variable {α : Type u} {M : Structure α} {v : String → α}

/-! ### Closed formulas over known names -/

/-- The term is closed and all its constants are among the names. -/
def Term.Over (names : NameSet) (t : Term) : Prop :=
  t.vars = [] ∧ ∀ c ∈ t.constants, c ∈ names

/-- The formula is closed and all its constants are among the names. -/
def Formula.Over (names : NameSet) (f : Formula) : Prop :=
  f.Closed ∧ ∀ c ∈ f.constants, c ∈ names

namespace Formula

variable {names : NameSet}

/-- A formula over some names is one over more names. -/
theorem Over.mono {names' : NameSet} {f : Formula} (h : f.Over names)
    (hnames : ∀ name ∈ names, name ∈ names') : f.Over names' :=
  ⟨h.1, fun c hc => hnames c (h.2 c hc)⟩

/-- A negation is over the names if what is negated is. -/
theorem over_neg {f : Formula} : (neg f).Over names ↔ f.Over names := by
  simp [Over, Closed, freeVars]

/-- A compound formula is over the names if its sides are. -/
theorem over_binary {op : Connective} {f g : Formula} :
    (binary op f g).Over names ↔ f.Over names ∧ g.Over names := by
  simp only [Over, Closed, freeVars, List.append_eq_nil_iff, mem_constants_binary, or_imp,
    forall_and]
  exact and_and_and_comm

/-- An equation is over the names if its sides are. -/
theorem over_eq {a b : Term} : (eq a b).Over names ↔ a.Over names ∧ b.Over names := by
  simp only [Over, Term.Over, Closed, freeVars, List.append_eq_nil_iff, mem_constants_eq, or_imp,
    forall_and]
  exact and_and_and_comm

/-- The body of a quantified formula about a constant is over the names and this constant. -/
theorem over_subst1 {q : Quantifier} {var name : String} {body : Formula}
    (h : (quant q var body).Over names) :
    (body.subst1 var (.const name)).Over (names.add name) := by
  have hσ : (Substitution.none.set var (.const name)).Closed :=
    Substitution.closed_set Substitution.closed_none rfl
  constructor
  · refine List.eq_nil_iff_forall_not_mem.2 fun x hx => ?_
    obtain ⟨hfree, hnone⟩ := mem_freeVars_subst hσ hx
    have hne : x ≠ var := by
      rintro rfl
      simp [Substitution.set] at hnone
    have hmem : x ∈ (quant q var body).freeVars :=
      List.mem_filter.2 ⟨hfree, by simpa using hne⟩
    rw [show (quant q var body).freeVars = [] from h.1] at hmem
    simp at hmem
  · intro c hc
    rcases mem_constants_subst hc with hbody | ⟨x, s, hx, hs⟩
    · exact NameSet.mem_add.2 (Or.inr (h.2 c (mem_constants_quant.2 hbody)))
    · unfold Substitution.set at hx
      split at hx
      · obtain rfl := Option.some.inj hx
        exact NameSet.mem_add.2 (Or.inl (Term.mem_constants_const.1 hs))
      · simp [Substitution.none] at hx

/-- An instance for terms over the names is over the names. -/
theorem over_instantiate? {q : Quantifier} {ts : List Term} {f g : Formula} (hf : f.Over names)
    (hts : ∀ t ∈ ts, t.Over names) (h : f.instantiate? q ts = some g) : g.Over names := by
  refine ⟨closed_of_instantiate? (fun t ht => (hts t ht).1) hf.1 h, fun c hc => ?_⟩
  rcases mem_constants_of_instantiate? h hc with hc | ⟨t, ht, hc⟩
  · exact hf.2 c hc
  · exact (hts t ht).2 c hc

/-- A replacement by a term over the names leaves a formula over the names. -/
theorem over_replace {a b : Term} {f : Formula} (hb : b.Over names) (hf : f.Over names) :
    (f.replace a b).Over names := by
  constructor
  · refine List.eq_nil_iff_forall_not_mem.2 fun x hx => ?_
    have hmem := mem_freeVars_replace hb.1 hx
    rw [show f.freeVars = [] from hf.1] at hmem
    simp at hmem
  · intro c hc
    exact (mem_constants_replace hc).elim (hf.2 c) (hb.2 c)

end Formula

/-- The vocabulary of closed formulas over the known names.  The Skolem constant is not among them. -/
def Vocabulary.proper (sig : Signature) : Vocabulary where
  formula f := f.Over sig.constants
  term t := t.Over sig.constants
  extended f := f.Over sig.freshSkolem.2.constants
  skolem := sig.nextSkolem
  extend h := h.mono fun _ hname => Signature.mem_freshSkolem_constants.2 (Or.inr hname)
  top := ⟨rfl, by simp⟩
  bottom := ⟨rfl, by simp⟩
  neg := Formula.over_neg
  binary := Formula.over_binary
  eq := Formula.over_eq
  generic h := Formula.over_subst1 h
  instantiate hf hts h := Formula.over_instantiate? hf hts h
  replace _ hb hf := Formula.over_replace hb hf

/-! ### Truth of what is cited -/

/-- Truth of what a cited item stands for. -/
def Meaning.Holds (M : Structure α) (v : String → α) : Meaning → Prop
  | .formula f => f.Holds M v
  | .box skolems assumptions goal => ∀ κ : String → α, (∀ c, c ∉ skolems → κ c = M.const c) →
      (∀ f ∈ assumptions, f.Holds (M.withConst κ) v) → goal.Holds (M.withConst κ) v

/-- The formula holds whenever all that is cited holds. -/
def Warrants (meanings : List Meaning) (f : Formula) : Prop :=
  ∀ (α : Type u) (M : Structure α) (v : String → α), (∀ m ∈ meanings, m.Holds M v) → f.Holds M v

/-- A box without Skolem constants holds if its assumptions imply its goal. -/
theorem Meaning.holds_box_empty {assumptions : List Formula} {goal : Formula} :
    (Meaning.box ∅ assumptions goal).Holds M v ↔
      ((∀ f ∈ assumptions, f.Holds M v) → goal.Holds M v) := by
  constructor
  · exact fun h => h M.const fun _ _ => rfl
  · intro h κ hκ
    obtain rfl : κ = M.const := funext fun c => hκ c (NameSet.not_mem_empty c)
    exact h

section Soundness

variable {sig : Signature} {cites : List CitedLine} {d : Document}

/-- A premise holds: it stands for something that holds. -/
def Premise.Holds (d : Document) (M : Structure α) (v : String → α) (p : Premise) : Prop :=
  ∃ m, d.premiseMeaning? p = some m ∧ m.Holds M v

/-- The cited lines are the ones of the document. -/
def CitesOf (d : Document) (cites : List CitedLine) : Prop :=
  ∀ cited ∈ cites, d.meaning? cited.id = some (.formula cited.formula)

/-- The formula that a premise supplies holds if the premise does. -/
theorem Supplies.holds {p : Premise} {f : Formula} (h : Supplies cites p f)
    (hcites : CitesOf d cites) (hp : p.Holds d M v) : f.Holds M v := by
  obtain ⟨m, hm, hholds⟩ := hp
  cases h with
  | cite hmem =>
    obtain rfl := Option.some.inj ((hcites _ hmem).symm.trans hm)
    exact hholds
  | goal f =>
    obtain rfl := Option.some.inj hm
    exact hholds

/-- A box without Skolem constants stands for an implication. -/
theorem Premise.holds_box {plan : BoxPlan} (hskolem : plan.skolem = none)
    (h : (Premise.box plan).Holds d M v) (hassumption : ∀ f ∈ plan.assumption, f.Holds M v) :
    plan.goal.Holds M v := by
  obtain ⟨m, hm, hholds⟩ := h
  obtain rfl := Option.some.inj hm
  have hnone : Document.planSkolems plan = ∅ := by rw [Document.planSkolems, hskolem]
  rw [hnone, Meaning.holds_box_empty] at hholds
  exact hholds fun f hf => hassumption f (Option.mem_toList.1 hf)

/-- The Skolem constant of a box may stand for any object. -/
theorem Premise.holds_box_skolem {plan : BoxPlan} {name : String} (hskolem : plan.skolem = some name)
    (h : (Premise.box plan).Holds d M v) (a : α)
    (hassumption : ∀ f ∈ plan.assumption,
      f.Holds (M.withConst (Function.update M.const name a)) v) :
    plan.goal.Holds (M.withConst (Function.update M.const name a)) v := by
  obtain ⟨m, hm, hholds⟩ := h
  obtain rfl := Option.some.inj hm
  refine hholds _ (fun c hc => ?_) fun f hf => hassumption f (Option.mem_toList.1 hf)
  refine Function.update_of_ne ?_ _ _
  rintro rfl
  exact hc (by simp [Document.planSkolems, hskolem])

/-- There is a box for every case. -/
theorem mem_caseBoxes {goal : Formula} {cases : List Formula} {case : Formula}
    (h : case ∈ cases) :
    ∃ adjacent, Premise.box { assumption := some case, goal, adjacent } ∈ caseBoxes goal cases := by
  fun_induction caseBoxes goal cases with
  | case1 => simp at h
  | case2 only =>
    obtain rfl := List.mem_singleton.1 h
    exact ⟨_, List.mem_cons_self⟩
  | case3 first rest _ ih =>
    rcases List.mem_cons.1 h with rfl | h
    · exact ⟨_, List.mem_cons_self⟩
    · obtain ⟨adjacent, hmem⟩ := ih h
      exact ⟨adjacent, List.mem_cons_of_mem _ hmem⟩

/-- The formulas that premises supply hold if the premises do. -/
theorem Supplies.forall_holds {ps : List Premise} {fs : List Formula}
    (h : List.Forall₂ (Supplies cites) ps fs) (hcites : CitesOf d cites)
    (hps : ∀ p ∈ ps, p.Holds d M v) : ∀ f ∈ fs, f.Holds M v := by
  induction h with
  | nil => simp
  | cons hp _ ih =>
    intro f hf
    rcases List.mem_cons.1 hf with rfl | hf
    · exact hp.holds hcites (hps _ List.mem_cons_self)
    · exact ih (fun p hp => hps p (List.mem_cons_of_mem _ hp)) f hf

/-- A conjunction holds if all that it joins hold. -/
theorem Joins.holds_and {fs : List Formula} {f : Formula} (h : Joins .and fs f) :
    f.Holds M v ↔ ∀ g ∈ fs, g.Holds M v := by
  induction h with
  | one f => simp
  | both _ _ iha ihb => rw [List.forall_mem_append, ← iha, ← ihb]; rfl

/-- A disjunction holds if one of those that it joins holds. -/
theorem Joins.holds_or {fs : List Formula} {f : Formula} (h : Joins .or fs f) :
    f.Holds M v ↔ ∃ g ∈ fs, g.Holds M v := by
  induction h with
  | one f => simp
  | both _ _ iha ihb =>
    simp only [List.mem_append, or_and_right, exists_or, ← iha, ← ihb]
    rfl

/-- The parts of a conjunction that holds hold. -/
theorem PartOf.holds_of_and {f g : Formula} (h : PartOf .and g f) (hf : f.Holds M v) :
    g.Holds M v := by
  induction h with
  | self => exact hf
  | left _ ih => exact ih hf.1
  | right _ ih => exact ih hf.2

/-- A disjunction with a part that holds holds. -/
theorem PartOf.or_of_holds {f g : Formula} (h : PartOf .or g f) (hg : g.Holds M v) :
    f.Holds M v := by
  induction h with
  | self => exact hg
  | left _ ih => exact Or.inl ih
  | right _ ih => exact Or.inr ih

/-- With an object for the Skolem constant, the instance with the constant says of this object what
the body says of the variable. -/
theorem holds_generic {q : Quantifier} {var : String} {body : Formula}
    (h : (Formula.quant q var body).Over sig.constants) (a : α) :
    (body.subst1 var (.const sig.nextSkolem)).Holds
        (M.withConst (Function.update M.const sig.nextSkolem a)) v ↔
      body.Holds M (Function.update v var a) := by
  have hσ : (Substitution.none.set var (.const sig.nextSkolem)).Closed :=
    Substitution.closed_set Substitution.closed_none rfl
  have hafter : (Substitution.none.set var (.const sig.nextSkolem)).after
      (M.withConst (Function.update M.const sig.nextSkolem a)) v = Function.update v var a := by
    funext x
    by_cases hx : x = var
    · subst hx
      simp [Substitution.after, Substitution.set, Term.eval, Structure.withConst]
    · simp [Substitution.after, Substitution.set, Substitution.none, hx]
  rw [Formula.subst1, Formula.holds_subst hσ, hafter]
  refine Formula.holds_withConst fun c hc => Function.update_of_ne ?_ _ _
  rintro rfl
  exact sig.nextSkolem_not_mem (h.2 _ (Formula.mem_constants_quant.2 hc))

/-- The next Skolem constant may stand for anything in formulas over the known names. -/
theorem Formula.Over.holds_update {f : Formula} (h : f.Over sig.constants) (a : α) :
    f.Holds (M.withConst (Function.update M.const sig.nextSkolem a)) v ↔ f.Holds M v := by
  refine Formula.holds_withConst fun c hc => Function.update_of_ne ?_ _ _
  rintro rfl
  exact sig.nextSkolem_not_mem (h.2 _ hc)

/-- What a rule concludes holds whenever its premises do. -/
theorem Derives.holds {rule : Rule} {ps : List Premise} {f : Formula}
    (h : Derives (.proper sig) cites rule ps f) (hcites : CitesOf d cites)
    (hps : ∀ p ∈ ps, p.Holds d M v) : f.Holds M v := by
  have hfirst : ∀ {p : Premise} {ps : List Premise} {g : Formula}, Supplies cites p g →
      (∀ q ∈ p :: ps, q.Holds d M v) → g.Holds M v := fun hp hps =>
    hp.holds hcites (hps _ List.mem_cons_self)
  have hsecond : ∀ {p q : Premise} {ps : List Premise} {g : Formula}, Supplies cites q g →
      (∀ r ∈ p :: q :: ps, r.Holds d M v) → g.Holds M v := fun hq hps =>
    hq.holds hcites (hps _ (List.mem_cons_of_mem _ List.mem_cons_self))
  cases h with
  | tick hp => exact hfirst hp hps
  | andIntro hfs hf => exact hf.holds_and.2 (Supplies.forall_holds hfs hcites hps)
  | andElim hp hg => exact hg.holds_of_and (hfirst hp hps)
  | orIntro hp hg => exact hg.or_of_holds (hfirst hp hps)
  | orElim hp hf =>
    obtain ⟨case, hcase, hholds⟩ := hf.holds_or.1 (hfirst hp hps)
    obtain ⟨adjacent, hmem⟩ := mem_caseBoxes hcase
    refine Premise.holds_box rfl (hps _ (List.mem_cons_of_mem _ hmem)) ?_
    rintro g ⟨⟩
    exact hholds
  | impliesIntro =>
    intro ha
    refine Premise.holds_box rfl (hps _ List.mem_cons_self) ?_
    rintro g ⟨⟩
    exact ha
  | impliesElim hp hq => exact hfirst hp hps (hsecond hq hps)
  | notIntro =>
    intro ha
    refine Premise.holds_box rfl (hps _ List.mem_cons_self) ?_
    rintro g ⟨⟩
    exact ha
  | notElim hp hq => exact hsecond hq hps (hfirst hp hps)
  | notNotIntro hp => exact not_not_intro (hfirst hp hps)
  | notNotElim hp => exact not_not.1 (hfirst hp hps)
  | topIntro => trivial
  | bottomElim hp => exact (hfirst hp hps).elim
  | iffIntro hp hq => exact Iff.intro (hfirst hp hps) (hsecond hq hps)
  | iffElimLeft hp hq => exact Iff.mp (hfirst hp hps) (hsecond hq hps)
  | iffElimRight hp hq => exact Iff.mpr (hfirst hp hps) (hsecond hq hps)
  | excludedMiddle => exact Classical.em _
  | contradiction =>
    by_contra hf
    refine Premise.holds_box rfl (hps _ List.mem_cons_self) ?_
    rintro g ⟨⟩
    exact hf
  | existsIntroMatch hp hf hgeneral hmatch =>
    exact Formula.isInstance_ex_of_holds hf.1 hmatch (hfirst hp hps)
  | existsIntro hp hts hgeneral hinstance =>
    exact Formula.instantiate?_ex_of_holds (fun t ht => (hts t ht).1) hinstance (hfirst hp hps)
  | existsElim hp hbody hgoal =>
    -- let the Skolem constant stand for a witness: the goal does not mention it
    obtain ⟨a, ha⟩ := hfirst hp hps
    have hbox := hps _ (List.mem_cons_of_mem _ List.mem_cons_self)
    refine (hgoal.holds_update a).1 (Premise.holds_box_skolem rfl hbox a ?_)
    rintro g ⟨⟩
    exact (holds_generic hbody a).2 ha
  | forallIntro hbody =>
    -- let the Skolem constant stand for this object: the statement does not mention it
    intro a
    have hbox := hps _ List.mem_cons_self
    exact (holds_generic hbody a).1 (Premise.holds_box_skolem rfl hbox a (by simp))
  | forallElimMatch hp hf hgeneral hmatch =>
    exact Formula.holds_of_isInstance_all hf.1 hmatch (hfirst hp hps)
  | forallElim hp hts hgeneral hinstance =>
    exact Formula.holds_instantiate?_all (fun t ht => (hts t ht).1) hinstance (hfirst hp hps)
  | eqIntro => rfl
  | eqElim hp hq ha hb hg =>
    exact (hg.holds_iff ha.1 hb.1 (hfirst hp hps)).1 (hsecond hq hps)
  | eqSymm hp => exact (hfirst hp hps).symm

end Soundness

/-- The discipline of closed formulas over known names, where every line follows from what it cites. -/
def Discipline.proper : Discipline where
  good := Warrants.{u}
  allowed sig f := f.Over sig.constants
  vocabulary := .proper
  mono hsig h := h.mono hsig
  repeats f := fun _ _ _ h => h (.formula f) List.mem_cons_self
  speaks h := h
  fits d :=
    { skolem := rfl
      formula := fun h => h
      extended := fun h => h
      sound := by
        intro cites rule ps f ms hderives hcites hms α M v hholds
        refine hderives.holds hcites fun p hp => ?_
        have hmem : d.premiseMeaning? p ∈ ms.map some := hms ▸ List.mem_map_of_mem hp
        obtain ⟨m, hm, heq⟩ := List.mem_map.1 hmem
        exact ⟨m, heq.symm, hholds m hm⟩ }

end NaturalDeduction
