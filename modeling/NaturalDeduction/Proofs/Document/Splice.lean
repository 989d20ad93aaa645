import NaturalDeduction.Proofs.Document.Edit
import NaturalDeduction.Proofs.Signature

/-!
# Putting a step into the document

A step can be put before an open line if its premises can: a cited item is visible there, no goal
and has a meaning, and a Skolem constant is the next one.  Then splicing succeeds
(`Coherent.splice_spliced`), and all it brings into the document are the items of the step, before
that line (`Spliced.inserts_tidies`).  The items that stand for the premises afterwards have the
meanings that the premises had in the plan.
-/

set_option autoImplicit false

namespace NaturalDeduction.Document

variable {d e : Document} {id box anchor target : ItemId} {xs ys : List ItemId}
  {V : List Meaning → Formula → Prop} {P : Signature → Formula → Prop}

/-! ### One new item -/

/-- An item is put before an anchor, and nothing else happens. -/
theorem WellLinked.prepend_grown (h : d.WellLinked) (hbox : d.children box = xs ++ anchor :: ys)
    {kind : ItemKind} (hkind : ∀ data, kind = .box data → data.head = none) :
    ∃ e, d.prepend anchor kind = .ok (d.items.size, e) ∧
      Grown d e box xs anchor ys kind [] ∧ e.signature = d.signature := by
  obtain ⟨e, hok, he, hkids, hadded⟩ := h.prepend hbox hkind
  have hlt : box < d.items.size :=
    lt_size_of_isBox (h.linkedBy.isBox_of_mem (show anchor ∈ d.children box by simp [hbox]))
  refine ⟨e, hok, ⟨hbox, he, ?_, ?_, ?_, ?_, ?_, ?_, hadded.size⟩, hadded.signature⟩
  · rw [hkids, Function.update_self]
  · rw [hkids, Function.update_of_ne (Nat.ne_of_gt hlt), Grown.children_of_new h]
    rfl
  · intro b hb _
    rw [hkids, Function.update_of_ne hb]
  · intro j hj
    rw [hadded.core, if_neg (Nat.ne_of_lt hj)]
  · rw [hadded.core, if_pos rfl]
  · intro k
    have hk : d.items.size < d.items.size + 1 + k := by omega
    rw [hadded.core, if_neg (Nat.ne_of_gt hk), core?_eq_none (Nat.le_of_lt hk)]
    rfl

/-- Items are put at the end of a box one after the other, and nothing else happens. -/
theorem WellLinked.pushChildren {kinds : List ItemKind} :
    ∀ {d : Document}, d.WellLinked → d.isBox box = true →
      (∀ kind ∈ kinds, ∀ data, kind = .box data → data.head = none) →
      ∃ e, d.pushChildren box kinds = .ok e ∧ e.WellLinked ∧
        e.children = Function.update d.children box
          (d.children box ++ List.range' d.items.size kinds.length) ∧
        (∀ j, j < d.items.size → e.core? j = d.core? j) ∧
        (∀ k, e.core? (d.items.size + k) = kinds[k]?.map ItemKind.core) ∧
        e.items.size = d.items.size + kinds.length ∧ e.signature = d.signature := by
  induction kinds with
  | nil =>
    intro d h hbox _
    refine ⟨d, rfl, h, by simp, fun _ _ => rfl, fun k => ?_, rfl, rfl⟩
    rw [core?_eq_none (Nat.le_add_right _ k)]
    rfl
  | cons kind kinds ih =>
    intro d h hbox hkinds
    obtain ⟨e, hok, he, hkids, hadded⟩ := h.pushChild hbox (hkinds kind List.mem_cons_self)
    have hlt : box < d.items.size := lt_size_of_isBox hbox
    have hbox' : e.isBox box = true := by
      rw [isBox_congr (hadded.core box |>.trans (if_neg (Nat.ne_of_lt hlt)))]
      exact hbox
    obtain ⟨f, hokf, hf, hkidsf, hold, hnew, hsize, hsig⟩ :=
      ih he hbox' fun k hk => hkinds k (List.mem_cons_of_mem kind hk)
    refine ⟨f, ?_, hf, ?_, ?_, ?_, ?_, hsig.trans hadded.signature⟩
    · simp only [Document.pushChildren, hok, bind, Except.bind, hokf]
    · rw [hkidsf, hkids, Function.update_self, Function.update_idem, hadded.size,
        List.length_cons, List.range'_succ, List.append_assoc, List.singleton_append]
    · intro j hj
      rw [hold j (by rw [hadded.size]; omega), hadded.core, if_neg (Nat.ne_of_lt hj)]
    · intro k
      cases k with
      | zero =>
        rw [Nat.add_zero, hold _ (by rw [hadded.size]; omega), hadded.core, if_pos rfl]
        rfl
      | succ k =>
        have := hnew k
        rwa [hadded.size, Nat.add_assoc, Nat.add_comm 1 k] at this
    · rw [hsize, hadded.size, List.length_cons]
      omega

/-! ### A planned box -/

/-- Links do not depend on the names that are known. -/
theorem WellLinked.withSignature (h : d.WellLinked) (sig : Signature) :
    ({ d with signature := sig } : Document).WellLinked ∧
      ({ d with signature := sig } : Document).children = d.children := by
  have hlinked : ({ d with signature := sig } : Document).LinkedBy d.children :=
    h.linkedBy.of_eq (fun _ => rfl) (fun _ => rfl) (fun _ => rfl) (fun _ => rfl) (fun _ => rfl)
  exact ⟨hlinked.wellLinked, hlinked.children_eq⟩

/-- The lines of a document do not depend on the names that are known. -/
theorem WellLinked.lines_withSignature (h : d.WellLinked) (sig : Signature) :
    ({ d with signature := sig } : Document).lines = d.lines := by
  obtain ⟨hlinked, hkids⟩ := h.withSignature sig
  exact linesUnder_congr h hlinked hkids (fun _ => rfl) root

/-- The signature after a planned box has been built. -/
def planSignature (sig : Signature) (plan : BoxPlan) : Signature :=
  match plan.skolem with
  | none => sig
  | some _ => sig.freshSkolem.2

/-- The Skolem constant of a plan is introduced if it is the next one. -/
theorem introduceSkolem_eq_ok {plan : BoxPlan}
    (hskolem : ∀ name ∈ plan.skolem, name = d.signature.nextSkolem) :
    d.introduceSkolem plan.skolem =
      .ok (planSkolems plan, { d with signature := planSignature d.signature plan }) := by
  cases hplan : plan.skolem with
  | none => simp [introduceSkolem, planSkolems, planSignature, hplan]
  | some name =>
    obtain rfl := hskolem name hplan
    simp [introduceSkolem, planSkolems, planSignature, hplan, Signature.freshSkolem]

/-- A planned box is built before an anchor with its Skolem constant and its first items, and
nothing else happens. -/
theorem WellLinked.buildBox_grown (h : d.WellLinked) (hbox : d.children box = xs ++ anchor :: ys)
    {plan : BoxPlan} (hskolem : ∀ name ∈ plan.skolem, name = d.signature.nextSkolem) :
    ∃ e, d.buildBox anchor plan = .ok (d.items.size, e) ∧
      Grown d e box xs anchor ys
        (.box { adjacent := plan.adjacent, skolems := planSkolems plan }) (plannedKinds plan) ∧
      e.signature = planSignature d.signature plan := by
  obtain ⟨hlinked, hkids⟩ := h.withSignature (planSignature d.signature plan)
  obtain ⟨e, hok, g, hsig⟩ := hlinked.prepend_grown (hkids ▸ hbox)
    (show ∀ data, ItemKind.box { adjacent := plan.adjacent, skolems := planSkolems plan } =
      .box data → data.head = none by rintro _ ⟨rfl⟩; rfl)
  have hisBox : e.isBox d.items.size = true := by
    rw [isBox_eq_core, g.new]
    rfl
  have hheadless : ∀ kind ∈ plannedKinds plan, ∀ data, kind = .box data → data.head = none := by
    intro kind hkind data hdata
    rcases plannedKinds_mem hkind with ⟨_, rfl⟩ | ⟨_, -, rfl⟩ | rfl | rfl
    all_goals exact absurd hdata (by simp)
  -- the box is put in empty, and then its first items are put into it
  obtain ⟨f, hokf, hf, hkidsf, hold, hnew, hsize, hsigf⟩ := g.linked.pushChildren hisBox hheadless
  have hesize : e.items.size = d.items.size + 1 := g.size
  have hbox_ne : box ≠ d.items.size := Nat.ne_of_lt (g.box_lt hlinked)
  refine ⟨f, ?_, ⟨hbox, hf, ?_, ?_, ?_, ?_, ?_, ?_, ?_⟩, hsigf.trans hsig⟩
  · simp only [buildBox, introduceSkolem_eq_ok hskolem, hok, hokf, bind, Except.bind]
    rfl
  · rw [hkidsf, Function.update_of_ne hbox_ne]
    exact g.here
  · rw [hkidsf, Function.update_self, hesize]
    have hinside : e.children d.items.size = [] := g.inside
    rw [hinside, List.nil_append]
  · intro b hb hn
    rw [hkidsf, Function.update_of_ne hn, ← hkids]
    exact g.elsewhere b hb hn
  · intro j hj
    rw [hold j (by rw [hesize]; omega)]
    exact g.old hj
  · rw [hold _ (by rw [hesize]; omega)]
    exact g.new
  · intro k
    rw [← hesize]
    exact hnew k
  · rw [hsize, hesize]

/-! ### New items one after the other -/

/-- The names that a new item brings are the Skolem constants of a new box, which were not known. -/
structure Introduces (d e : Document) : Prop where
  skolems : ∀ c, c ∈ e.signature.skolems ↔ c ∈ e.skolemsOf d.items.size ∨ c ∈ d.signature.skolems
  constants : ∀ c, c ∈ e.signature.constants ↔
    c ∈ e.skolemsOf d.items.size ∨ c ∈ d.signature.constants
  unknown : ∀ c ∈ e.skolemsOf d.items.size, c ∉ d.signature.constants

namespace Introduces

/-- Names that were known stay known. -/
theorem signature_mono (h : Introduces d e) {c : String} (hc : c ∈ d.signature.constants) :
    c ∈ e.signature.constants :=
  (h.constants c).2 (Or.inr hc)

/-- An item without Skolem constants brings no names. -/
theorem nothing (hskolems : ∀ c, c ∉ e.skolemsOf d.items.size)
    (hsig : e.signature = d.signature) : Introduces d e where
  skolems c := by simp [hskolems c, hsig]
  constants c := by simp [hskolems c, hsig]
  unknown c hc := absurd hc (hskolems c)

/-- A new line brings no names. -/
theorem of_line {kind : ItemKind} {inner : List ItemKind}
    (g : Grown d e box xs anchor ys kind inner) (hkind : ∀ data, kind ≠ .box data)
    (hsig : e.signature = d.signature) : Introduces d e := by
  refine .nothing (fun c => ?_) hsig
  rw [skolemsOf_eq_core, g.new]
  cases kind with
  | box data => exact absurd rfl (hkind data)
  | _ => exact NameSet.not_mem_empty c

/-- A box built after a plan brings the Skolem constant of the plan. -/
theorem of_plan {plan : BoxPlan} {data : BoxData} {inner : List ItemKind}
    (g : Grown d e box xs anchor ys (.box data) inner) (hdata : data.skolems = planSkolems plan)
    (hskolem : ∀ name ∈ plan.skolem, name = d.signature.nextSkolem)
    (hsig : e.signature = planSignature d.signature plan) : Introduces d e := by
  have hskolems : e.skolemsOf d.items.size = planSkolems plan := by
    rw [skolemsOf_eq_core, g.new, ← hdata]
    rfl
  unfold planSkolems at hskolems
  unfold planSignature at hsig
  cases hplan : plan.skolem with
  | none =>
    simp only [hplan] at hskolems hsig
    exact .nothing (fun c => hskolems ▸ NameSet.not_mem_empty c) hsig
  | some skolem =>
    obtain rfl := hskolem skolem hplan
    simp only [hplan] at hskolems hsig
    have hmem : ∀ c, c ∈ e.skolemsOf d.items.size ↔ c = d.signature.nextSkolem := by
      simp [hskolems]
    refine ⟨fun c => ?_, fun c => ?_, fun c hc => ?_⟩
    · rw [hmem, hsig, Signature.mem_freshSkolem_skolems]
    · rw [hmem, hsig, Signature.mem_freshSkolem_constants]
    · rw [(hmem c).1 hc]
      exact d.signature.nextSkolem_not_mem

end Introduces

/-- Items are put before an open line one after the other. -/
inductive Inserts (V : List Meaning → Formula → Prop) (P : Signature → Formula → Prop)
    (target : ItemId) (d : Document) : Document → List (ItemKind × List ItemKind) → Prop
  | refl : Inserts V P target d d []
  | tail {mid e : Document} {items : List (ItemKind × List ItemKind)} {box : ItemId}
      {xs ys : List ItemId} {kind : ItemKind} {inner : List ItemKind}
      (h : Inserts V P target d mid items) (grown : Grown mid e box xs target ys kind inner)
      (hopen : mid.isOpen target = true) (new : NewItem V P mid e.signature target kind inner)
      (names : Introduces mid e) : Inserts V P target d e (items ++ [(kind, inner)])

namespace Inserts

variable {items items' : List (ItemKind × List ItemKind)}

/-- One item is put before an open line. -/
theorem single {kind : ItemKind} {inner : List ItemKind}
    (grown : Grown d e box xs target ys kind inner) (hopen : d.isOpen target = true)
    (new : NewItem V P d e.signature target kind inner) (names : Introduces d e) :
    Inserts V P target d e [(kind, inner)] :=
  .tail .refl grown hopen new names

/-- More items can be put before the line. -/
theorem trans {f : Document} (h : Inserts V P target d e items)
    (h' : Inserts V P target e f items') : Inserts V P target d f (items ++ items') := by
  induction h' with
  | refl => simpa using h
  | tail _ grown hopen new names ih =>
    rw [← List.append_assoc]
    exact .tail ih grown hopen new names

/-- Putting items before an open line is editing. -/
theorem edits (h : Inserts V P target d e items) : Edits V P d e := by
  induction h with
  | refl => exact .refl
  | tail _ grown hopen new names ih =>
    exact .tail ih (.insert grown hopen new fun _ => names.signature_mono)

end Inserts

/-- The second document is the first with new items just before the target; the old boxes around
and beside it are as they were. -/
structure Placed (d e : Document) (box : ItemId) (xs : List ItemId) (target : ItemId)
    (ys : List ItemId) (items : List (ItemKind × List ItemKind)) : Prop where
  row : ∃ new, e.children box = xs ++ new ++ target :: ys ∧
    new.map e.core? = items.map fun item => some item.1.core
  elsewhere : ∀ b, b < d.items.size → b ≠ box → e.children b = d.children b
  old : ∀ {j}, j < d.items.size → e.core? j = d.core? j
  size : d.items.size ≤ e.items.size

/-- Items that are put before the target one after the other stand there in this order. -/
theorem Inserts.placed {items : List (ItemKind × List ItemKind)} (h : Inserts V P target d e items)
    (hd : Coherent V d) (hbox : d.children box = xs ++ target :: ys) :
    Placed d e box xs target ys items := by
  have htarget : target ∈ d.children box := by simp [hbox]
  have hlt : box < d.items.size := lt_size_of_isBox (hd.linked.linkedBy.isBox_of_mem htarget)
  induction h with
  | refl => exact ⟨⟨[], by simpa using hbox, rfl⟩, fun _ _ _ => rfl, fun _ => rfl, Nat.le_refl _⟩
  | @tail mid e items box' xs' ys' kind inner hinserts grown hopen new names ih =>
    obtain ⟨new, hrow, hcores⟩ := ih.row
    have hmid : mid.WellLinked := (hinserts.edits.coherent hd).linked
    obtain rfl : box' = box := hmid.linkedBy.box_unique grown.anchor_mem (by simp [hrow])
    have hnodup : target ∉ xs ++ new ∧ target ∉ ys := by
      have hnodup := List.nodup_middle.1 (hrow ▸ hmid.linkedBy.nodup box')
      simpa only [List.mem_append, not_or] using (List.nodup_cons.1 hnodup).1
    obtain ⟨rfl, rfl⟩ := eq_of_append_cons_eq hnodup.1 hnodup.2 (hrow.symm.trans grown.before)
    refine ⟨⟨new ++ [mid.items.size], ?_, ?_⟩, fun b hb hne => ?_, fun {j} hj => ?_, ?_⟩
    · rw [grown.here]
      simp
    · have hnew : new.map e.core? = new.map mid.core? :=
        List.map_congr_left fun j hj => grown.old (hmid.linkedBy.lt_size (by rw [hrow]; simp [hj]))
      rw [List.map_append, List.map_append, hnew, hcores, List.map_singleton, List.map_singleton,
        grown.new]
    · rw [grown.elsewhere b hne (Nat.ne_of_lt (Nat.lt_of_lt_of_le hb ih.size)),
        ih.elsewhere b hb hne]
    · rw [grown.old (Nat.lt_of_lt_of_le hj ih.size), ih.old hj]
    · rw [grown.size]
      have := ih.size
      omega

namespace Placed

variable {items : List (ItemKind × List ItemKind)}

/-- Every box keeps its items in their order. -/
theorem children_sublist (h : Placed d e box xs target ys items) (hd : d.WellLinked)
    (hbox : d.children box = xs ++ target :: ys) (b : ItemId) :
    (d.children b).Sublist (e.children b) := by
  by_cases hb : b = box
  · obtain ⟨new, hrow, -⟩ := h.row
    rw [hb, hbox, hrow]
    exact (List.sublist_append_left xs new).append (List.Sublist.refl _)
  · by_cases hlt : b < d.items.size
    · rw [h.elsewhere b hlt hb]
    · have hnil : d.children b = [] := List.eq_nil_iff_forall_not_mem.2 fun id hmem =>
        hlt (lt_size_of_isBox (hd.linkedBy.isBox_of_mem hmem))
      rw [hnil]
      exact List.nil_sublist _

/-- What was visible stays visible. -/
theorem visible (h : Placed d e box xs target ys items) (hd : d.WellLinked)
    (hbox : d.children box = xs ++ target :: ys) {seen : ItemId} (hvis : d.Visible seen id) :
    e.Visible seen id := by
  induction hvis with
  | beside hpair => exact .beside (hpair.trans (h.children_sublist hd hbox _))
  | around hmem _ ih => exact .around ((h.children_sublist hd hbox _).subset hmem) ih

/-- What could be cited still can. -/
theorem citable (h : Placed d e box xs target ys items) (hd : d.WellLinked)
    (hbox : d.children box = xs ++ target :: ys) {cite : ItemId} (hlt : cite < d.items.size)
    (hcite : d.Citable cite id) : e.Citable cite id := by
  refine ⟨h.visible hd hbox hcite.1, fun hgoal => ?_⟩
  obtain ⟨b, hmem, hmem'⟩ := hcite.2 (isGoal_congr (h.old hlt) ▸ hgoal)
  exact ⟨b, (h.children_sublist hd hbox b).subset hmem,
    (h.children_sublist hd hbox b).subset hmem'⟩

end Placed

/-! ### Premises -/

/-- The items that a premise puts into the document, a box with what it begins with. -/
def premiseItems : Premise → List (ItemKind × List ItemKind)
  | .cite _ => []
  | .goal f => [(.empty 0, []), (.line f .goal 0, [])]
  | .box plan =>
    [(.box { adjacent := plan.adjacent, skolems := planSkolems plan }, plannedKinds plan)]

/-- What a premise stands for. -/
def premiseMeaning? (d : Document) : Premise → Option Meaning
  | .cite id => d.meaning? id
  | .goal f => some (.formula f)
  | .box plan => some (.box (planSkolems plan) plan.assumption.toList plan.goal)

/-- The signature after a premise has been placed. -/
def premiseSignature (sig : Signature) : Premise → Signature
  | .box plan => planSignature sig plan
  | _ => sig

/-- A premise can be placed before an open line: a cited item is visible, no goal and has a meaning,
a Skolem constant is the next one, and new formulas satisfy `P`. -/
def Placeable (P : Signature → Formula → Prop) (d : Document) (target : ItemId) (sig : Signature) :
    Premise → Prop
  | .cite id => d.Visible id target ∧ d.isGoal id = false ∧ ∃ m, d.meaning? id = some m
  | .goal f => P sig f
  | .box plan => (∀ name ∈ plan.skolem, name = sig.nextSkolem) ∧
      (∀ f ∈ plan.assumption, P (planSignature sig plan) f) ∧
      P (planSignature sig plan) plan.goal

/-- Premises can be placed one after the other. -/
def AllPlaceable (P : Signature → Formula → Prop) (d : Document) (target : ItemId) :
    Signature → List Premise → Prop
  | _, [] => True
  | sig, premise :: premises =>
    Placeable P d target sig premise ∧
      AllPlaceable P d target (premiseSignature sig premise) premises

/-- Each new box has been built after the plan of a premise, in the place of which it is cited. -/
def Built (d e : Document) (premises : List Premise) (cites : List ItemId) : Prop :=
  ∀ b, d.items.size ≤ b → e.isBox b = true → ∃ plan, (Premise.box plan, b) ∈ premises.zip cites ∧
    (e.children b).map e.core? = (plannedKinds plan).map fun kind => some kind.core

/-- Where nothing has been built, there is nothing to compare with plans. -/
theorem Built.nil (d : Document) (premises : List Premise) (cites : List ItemId) :
    Built d d premises cites :=
  fun _ hle hbox => absurd (lt_size_of_isBox hbox) (Nat.not_lt.2 hle)

/-- The boxes for the first premise stay as they were built when the others are placed. -/
theorem Placed.built {f : Document} {items : List (ItemKind × List ItemKind)} {premise : Premise}
    {cite : ItemId} {premises : List Premise} {cites : List ItemId} (he : e.WellLinked)
    (hlt : box < d.items.size) (hplaced : Placed e f box xs target ys items)
    (hde : Built d e [premise] [cite]) (hef : Built e f premises cites) :
    Built d f (premise :: premises) (cite :: cites) := by
  intro b hle hbox
  by_cases hb : b < e.items.size
  · rw [isBox_congr (hplaced.old hb)] at hbox
    obtain ⟨plan, hmem, hkids⟩ := hde b hle hbox
    have hne : b ≠ box := Nat.ne_of_gt (Nat.lt_of_lt_of_le hlt hle)
    refine ⟨plan, ?_, ?_⟩
    · rw [List.zip_cons_cons, List.mem_cons]
      exact Or.inl (List.mem_singleton.1 hmem)
    · rw [hplaced.elsewhere b hb hne, ← hkids]
      exact List.map_congr_left fun j hj => hplaced.old (he.linkedBy.lt_size hj)
  · obtain ⟨plan, hmem, hkids⟩ := hef b (Nat.not_lt.1 hb) hbox
    exact ⟨plan, by simp [hmem], hkids⟩

/-- The Skolem constant of a plan is new. -/
theorem planSkolems_fresh {sig : Signature} {plan : BoxPlan}
    (hskolem : ∀ name ∈ plan.skolem, name = sig.nextSkolem) :
    ∀ name ∈ planSkolems plan, name ∉ sig.constants := by
  intro name hname
  unfold planSkolems at hname
  cases hplan : plan.skolem with
  | none => simp [hplan] at hname
  | some skolem =>
    obtain rfl := hskolem skolem hplan
    obtain rfl : name = sig.nextSkolem := by simpa [hplan] using hname
    exact sig.nextSkolem_not_mem

namespace Coherent

/-- A placeable premise is placed: the target may cite the item for it, which has the meaning of the
premise. -/
theorem placePremise (h : Coherent V d) (hbox : d.children box = xs ++ target :: ys)
    (hopen : d.isOpen target = true) {premise : Premise}
    (hp : Placeable P d target d.signature premise) :
    ∃ cite e, d.placePremise target premise = .ok (cite, e) ∧
      Inserts V P target d e (premiseItems premise) ∧ e.Citable cite target ∧
      e.meaning? cite = premiseMeaning? d premise ∧
      e.signature = premiseSignature d.signature premise ∧ Built d e [premise] [cite] := by
  cases premise with
  | cite id =>
    obtain ⟨hvis, hgoal, -⟩ := hp
    exact ⟨id, d, rfl, .refl, ⟨hvis, by simp [hgoal]⟩, rfl, rfl, .nil d _ _⟩
  | goal f =>
    have hempty : ∀ data, ItemKind.empty 0 = .box data → data.head = none := by simp
    have hline : ∀ data, ItemKind.line f .goal 0 = .box data → data.head = none := by simp
    -- an empty line first, and then the goal below it
    obtain ⟨e₁, hok₁, g₁, hsig₁⟩ := h.linked.prepend_grown hbox hempty
    have hinserts₁ : Inserts V P target d e₁ [(.empty 0, [])] :=
      .single g₁ hopen .gap (.of_line g₁ (by simp) hsig₁)
    have h₁ : Coherent V e₁ := hinserts₁.edits.coherent h
    have hbox₁ : e₁.children box = (xs ++ [d.items.size]) ++ target :: ys := by simpa using g₁.here
    have hopen₁ : e₁.isOpen target = true := by
      rwa [isOpen_congr (g₁.old (h.linked.linkedBy.lt_size g₁.anchor_mem))]
    obtain ⟨e₂, hok₂, g₂, hsig₂⟩ := h₁.linked.prepend_grown hbox₁ hline
    have hf : P e₂.signature f := by rw [hsig₂, hsig₁]; exact hp
    have hinserts₂ : Inserts V P target d e₂ [(.empty 0, []), (.line f .goal 0, [])] :=
      hinserts₁.tail g₂ hopen₁ (.goal hf) (.of_line g₂ (by simp) hsig₂)
    refine ⟨e₁.items.size, e₂, ?_, hinserts₂, g₂.new_citable, ?_, hsig₂.trans hsig₁, ?_⟩
    · simp only [Document.placePremise, hok₁, bind, Except.bind, hok₂]
    · have hnew : e₂.line? e₁.items.size = some (f, .goal) := by
        rw [line?_eq_core, g₂.new]
        rfl
      exact meaning?_of_line hnew
    · -- neither the empty line nor the goal is a box
      intro b hle hisBox
      have hlt : b < d.items.size + 1 + 1 := by
        have := lt_size_of_isBox hisBox
        rwa [g₂.size, g₁.size] at this
      have hb : b = d.items.size ∨ b = e₁.items.size := by
        rw [g₁.size]
        exact (Nat.eq_or_lt_of_le hle).imp Eq.symm fun hlt' =>
          Nat.le_antisymm (Nat.le_of_lt_succ hlt) hlt'
      rcases hb with rfl | rfl
      · rw [isBox_congr (g₂.old (by rw [g₁.size]; omega)), isBox_eq_core, g₁.new] at hisBox
        simp [ItemKind.core] at hisBox
      · rw [isBox_eq_core, g₂.new] at hisBox
        simp [ItemKind.core] at hisBox
  | box plan =>
    obtain ⟨hskolem, hassumption, hgoal⟩ := hp
    obtain ⟨e, hok, g, hsig⟩ := h.linked.buildBox_grown hbox hskolem
    have hnew : NewItem V P d e.signature target
        (.box { adjacent := plan.adjacent, skolems := planSkolems plan }) (plannedKinds plan) :=
      .box (planSkolems_fresh hskolem) (fun f hf => hsig ▸ hassumption f hf) (hsig ▸ hgoal)
    refine ⟨d.items.size, e, hok, .single g hopen hnew (.of_plan g rfl hskolem hsig), g.new_citable,
      g.meaning?_box, hsig, fun b hle hisBox => ?_⟩
    rcases Nat.lt_or_eq_of_le hle with hgt | rfl
    · rw [(g.core?_deeper hnew hgt).1] at hisBox
      exact absurd hisBox (by decide)
    · exact ⟨plan, by simp, g.map_core?_inside⟩

/-- Premises can still be placed when some items have been put in. -/
theorem allPlaceable_mono (h : Coherent V d) {items : List (ItemKind × List ItemKind)}
    (hinserts : Inserts V P target d e items) (hbox : d.children box = xs ++ target :: ys)
    {premises : List Premise} :
    ∀ {sig : Signature}, AllPlaceable P d target sig premises →
      AllPlaceable P e target sig premises := by
  have hplaced := hinserts.placed h hbox
  induction premises with
  | nil => intro _ _; trivial
  | cons premise premises ih =>
    rintro sig ⟨hp, hps⟩
    refine ⟨?_, ih hps⟩
    cases premise with
    | cite id =>
      obtain ⟨hvis, hgoal, m, hm⟩ := hp
      exact ⟨hplaced.visible h.linked hbox hvis,
        by rwa [isGoal_congr (hplaced.old (lt_size_of_meaning? hm))],
        m, hinserts.edits.meaning?_eq h hm⟩
    | goal f => exact hp
    | box plan => exact hp

/-- Placeable premises are placed one after the other. -/
theorem placePremises {premises : List Premise} :
    ∀ {d : Document} {xs : List ItemId}, Coherent V d → d.children box = xs ++ target :: ys →
      d.isOpen target = true → AllPlaceable P d target d.signature premises →
      ∀ {ms : List Meaning}, premises.map (premiseMeaning? d) = ms.map some →
      ∃ cites e, d.placePremises target premises = .ok (cites, e) ∧
        Inserts V P target d e (premises.flatMap premiseItems) ∧
        (∀ cite ∈ cites, e.Citable cite target) ∧
        cites.map e.meaning? = ms.map some ∧
        e.signature = premises.foldl premiseSignature d.signature ∧ Built d e premises cites := by
  induction premises with
  | nil =>
    intro d xs _ hbox _ _ ms hms
    refine ⟨[], d, rfl, .refl, by simp, ?_, rfl, .nil d _ _⟩
    simpa using hms
  | cons premise premises ih =>
    intro d xs h hbox hopen hps ms hms
    obtain ⟨hp, hps⟩ := hps
    obtain ⟨m, ms, rfl⟩ : ∃ m ms', ms = m :: ms' := by
      cases ms with
      | nil => simp at hms
      | cons m ms => exact ⟨m, ms, rfl⟩
    obtain ⟨hm, hms⟩ := List.cons.inj hms
    obtain ⟨cite, e, hok, hinserts, hcite, hmeaning, hsig, hbuilt⟩ := h.placePremise hbox hopen hp
    have hplaced := hinserts.placed h hbox
    obtain ⟨new, hrow, -⟩ := hplaced.row
    have he : Coherent V e := hinserts.edits.coherent h
    have htarget : target ∈ d.children box := by simp [hbox]
    -- the remaining premises mean the same after the first has been placed
    have hms' : premises.map (premiseMeaning? e) = ms.map some := by
      rw [← hms]
      refine List.map_congr_left fun p hmem => ?_
      cases p with
      | cite id =>
        have hsome : d.meaning? id ∈ ms.map some := by
          rw [← hms]
          exact List.mem_map_of_mem (f := premiseMeaning? d) hmem
        obtain ⟨m', -, hm'⟩ := List.mem_map.1 hsome
        exact (hinserts.edits.meaning?_eq h hm'.symm).trans hm'
      | goal f => rfl
      | box plan => rfl
    have hopen' : e.isOpen target = true := by
      rwa [isOpen_congr (hplaced.old (h.linked.linkedBy.lt_size htarget))]
    obtain ⟨cites, f, hokf, hinsertsf, hcitesf, hmeaningsf, hsigf, hbuiltf⟩ :=
      ih he hrow hopen' (hsig ▸ allPlaceable_mono h hinserts hbox hps) hms'
    have hplacedf := hinsertsf.placed he hrow
    refine ⟨cite :: cites, f, ?_, hinserts.trans hinsertsf, ?_, ?_, ?_, ?_⟩
    · simp only [Document.placePremises, hok, bind, Except.bind, hokf]
      rfl
    · intro c hc
      rcases List.mem_cons.1 hc with rfl | hc
      · exact hplacedf.citable he.linked hrow (lt_size_of_meaning? (hmeaning.trans hm)) hcite
      · exact hcitesf c hc
    · rw [List.map_cons, List.map_cons, hmeaningsf,
        hinsertsf.edits.meaning?_eq he (hmeaning.trans hm)]
    · rw [hsigf, hsig, List.foldl_cons]
    · have hlt : box < d.items.size := lt_size_of_isBox (h.linked.linkedBy.isBox_of_mem htarget)
      exact hplacedf.built he.linked hlt hbuilt hbuiltf

end Coherent

/-! ### The step itself -/

/-- The items that a step puts into the document. -/
def stepItems (rule : Rule) (cites : List ItemId) : Step → List (ItemKind × List ItemKind)
  | .derive f premises =>
    premises.flatMap premiseItems ++ [(.line f (.byRule rule cites) 0, [])]
  | .justify premises => premises.flatMap premiseItems

/-- A step concludes a formula at a target: it derives the formula at an empty line, or the target is
a goal with this formula. -/
def Concludes (d : Document) (target : ItemId) (f : Formula) : Step → Prop
  | .derive g _ => d.isEmptyLine target = true ∧ g = f
  | .justify _ => d.line? target = some (f, .goal)

/-- Justifying a goal succeeds and changes nothing else. -/
theorem WellLinked.setJust_rejustified (h : d.WellLinked) {f : Formula}
    (hgoal : d.line? id = some (f, .goal)) (rule : Rule) (cites : List ItemId) :
    ∃ e, d.setJust id (.byRule rule cites) = .ok e ∧ Rejustified d e id f rule cites ∧
      e.signature = d.signature := by
  obtain ⟨e, hok, hp, hpr, hnx, hhd, hcore, -, hsig⟩ := setJust_eq_ok d hgoal (.byRule rule cites)
  have hbox : ∀ j, e.isBox j = d.isBox j := by
    intro j
    by_cases hj : j = id
    · rw [hj, isBox_of_line? hgoal, isBox_eq_core, hcore, if_pos rfl]
    · exact isBox_congr (by rw [hcore, if_neg hj])
  have hlinked : e.LinkedBy d.children := h.linkedBy.of_eq hbox hp hpr hnx hhd
  exact ⟨e, hok, ⟨hgoal, hlinked.wellLinked, hlinked.children_eq, hcore⟩, hsig⟩

/-- Unlinking an empty line succeeds and drops it. -/
theorem WellLinked.delete_droppedGap (h : d.WellLinked) (hbox : d.children box = xs ++ id :: ys)
    (hempty : d.isEmptyLine id = true) :
    ∃ e, d.delete id = .ok e ∧ DroppedGap d e box xs id ys ∧ e.signature = d.signature := by
  obtain ⟨e, hok, he, hkids, hsame⟩ := h.delete hbox
  refine ⟨e, hok, ⟨hbox, hempty, he, ?_, fun b hb => ?_, hsame.core⟩, hsame.signature⟩
  · rw [hkids, Function.update_self]
  · rw [hkids, Function.update_of_ne hb]

/-- The empty line before a target is dropped if the target or another empty line follows it, and
otherwise it stays. -/
inductive Ungapped (d e : Document) (box : ItemId) (xs new : List ItemId) (target : ItemId)
    (ys : List ItemId) : Prop
  | dropped {us : List ItemId} {gap : ItemId} (last : xs = us ++ [gap])
      (gone : DroppedGap d e box us gap (new ++ target :: ys))
      (hsig : e.signature = d.signature) (next : ∀ id ∈ new.head?, d.isEmptyLine id = true)
  | kept (same : e = d) (next : ∀ gap ∈ xs.getLast?, d.isEmptyLine gap = true →
      ∃ id ∈ new.head?, d.isEmptyLine id = false)

/-- The empty line before a target is dropped where it is no longer needed. -/
theorem WellLinked.dropGap_ungapped (h : d.WellLinked) {new : List ItemId}
    (hbox : d.children box = xs ++ new ++ target :: ys) :
    ∃ e, d.dropGap target xs.getLast? = .ok e ∧ Ungapped d e box xs new target ys := by
  cases hlast : xs.getLast? with
  | none => exact ⟨d, rfl, .kept rfl (by simp [hlast])⟩
  | some gap =>
    obtain ⟨us, rfl⟩ := List.getLast?_eq_some_iff.1 hlast
    have hsplit : d.children box = us ++ gap :: (new ++ target :: ys) := by simpa using hbox
    have hnext := (h.linkedBy.place hsplit).2.2
    by_cases hempty : d.isEmptyLine gap = true
    · obtain ⟨e, hok, hdropped, hsig⟩ := h.delete_droppedGap hsplit hempty
      cases new with
      | nil =>
        refine ⟨e, ?_, .dropped rfl hdropped hsig (by simp)⟩
        simp only [List.nil_append, List.head?_cons] at hnext
        simp [dropGap, hempty, hnext, hok]
      | cons next new =>
        simp only [List.cons_append, List.head?_cons] at hnext
        have hne : next ≠ target := by
          rintro rfl
          have hnodup := hsplit ▸ h.linkedBy.nodup box
          simp [List.nodup_append] at hnodup
        by_cases hnextEmpty : d.isEmptyLine next = true
        · refine ⟨e, ?_, .dropped rfl hdropped hsig (by simpa using hnextEmpty)⟩
          simp [dropGap, hempty, hnext, hnextEmpty, hok]
        · refine ⟨d, ?_, .kept rfl fun _ _ _ => ⟨next, rfl, by simpa using hnextEmpty⟩⟩
          simp [dropGap, hempty, hnext, hnextEmpty, hne]
    · refine ⟨d, by simp [dropGap, hempty], .kept rfl fun id hid hid' => ?_⟩
      obtain rfl : gap = id := by simpa using hid
      exact absurd hid' hempty

/-- Dropping the empty line before a target is tidying. -/
theorem Ungapped.tidies {new : List ItemId} (h : Ungapped d e box xs new target ys) :
    Tidies V d e := by
  cases h with
  | dropped _ gone hsig _ => exact .single (.dropGap gone hsig) hsig
  | kept same _ =>
    subst same
    exact .refl e

/-- The conclusion of a step is written down where its premises have been placed: as a new line
before the empty line, or by justifying the goal, which makes the empty line before it go. -/
inductive Concluded (V : List Meaning → Formula → Prop) (P : Signature → Formula → Prop)
    (rule : Rule) (cites : List ItemId) (box : ItemId) (xs new : List ItemId) (target : ItemId)
    (ys : List ItemId) (d e : Document) : Step → Prop
  | derive {f : Formula} {premises : List Premise} (hempty : d.isEmptyLine target = true)
      (grown : Grown d e box (xs ++ new) target ys (.line f (.byRule rule cites) 0) [])
      (item : NewItem V P d e.signature target (.line f (.byRule rule cites) 0) [])
      (names : Introduces d e) : Concluded V P rule cites box xs new target ys d e (.derive f premises)
  | justify {mid : Document} {f : Formula} {premises : List Premise}
      (rejustified : Rejustified d mid target f rule cites)
      (hcites : Supported V d target f cites) (hsig : mid.signature = d.signature)
      (ungapped : Ungapped mid e box xs new target ys) :
      Concluded V P rule cites box xs new target ys d e (.justify premises)

namespace Concluded

variable {rule : Rule} {cites new : List ItemId} {step : Step}

/-- Writing down a conclusion is editing. -/
theorem edits (h : Concluded V P rule cites box xs new target ys d e step) : Edits V P d e := by
  cases h with
  | derive hempty grown item names =>
    exact .single (.insert grown (by simp [isOpen, hempty]) item fun _ => names.signature_mono)
  | justify rejustified hcites hsig ungapped =>
    exact .head (.justify rejustified hcites hsig) ungapped.tidies.editsOf

/-- A conclusion is no box. -/
theorem isBox_eq (h : Concluded V P rule cites box xs new target ys d e step) (j : ItemId) :
    e.isBox j = d.isBox j := by
  cases h with
  | derive _ grown item _ =>
    rcases Nat.lt_trichotomy j d.items.size with hlt | rfl | hgt
    · exact isBox_congr (grown.old hlt)
    · rw [isBox_eq_core, grown.new, isBox_eq_core, core?_eq_none (Nat.le_refl _)]
      rfl
    · rw [(grown.core?_deeper item hgt).1, isBox_eq_core, core?_eq_none (Nat.le_of_lt hgt)]
  | justify rejustified _ _ ungapped =>
    rw [← rejustified.isBox_eq j]
    cases ungapped with
    | dropped _ gone _ _ => exact isBox_congr (gone.core j)
    | kept same _ => rw [same]

end Concluded

/-- A step is put into a document: first its premises are placed, and then its conclusion is written
down. -/
structure Spliced (V : List Meaning → Formula → Prop) (P : Signature → Formula → Prop) (rule : Rule)
    (target : ItemId) (step : Step) (d : Document) (cites : List ItemId) (mid e : Document) : Prop where
  premises : d.placePremises target step.premises = .ok (cites, mid)
  inserts : Inserts V P target d mid (step.premises.flatMap premiseItems)
  built : Built d mid step.premises cites
  row : ∃ box xs new ys, d.children box = xs ++ target :: ys ∧
    mid.children box = xs ++ new ++ target :: ys ∧
    Concluded V P rule cites box xs new target ys mid e step

/-- All that a step brings into the document are its items, and then nothing else comes in. -/
theorem Spliced.inserts_tidies {rule : Rule} {step : Step} {cites : List ItemId} {mid : Document}
    (h : Spliced V P rule target step d cites mid e) :
    ∃ mid', Inserts V P target d mid' (stepItems rule cites step) ∧ Tidies V mid' e := by
  obtain ⟨box, xs, new, ys, -, -, hconcluded⟩ := h.row
  have hinserts := h.inserts
  cases hconcluded with
  | derive hempty grown item names =>
    exact ⟨e, hinserts.tail grown (by simp [isOpen, hempty]) item names, .refl e⟩
  | justify rejustified hcites hsig ungapped =>
    exact ⟨mid, hinserts,
      (Tidies.single (.justify rejustified hcites hsig) hsig).trans ungapped.tidies⟩

/-- A step keeps the document coherent. -/
theorem Spliced.coherent {rule : Rule} {step : Step} {cites : List ItemId} {mid : Document}
    (h : Spliced V P rule target step d cites mid e) (hd : Coherent V d) : Coherent V e := by
  obtain ⟨mid', hinserts, htidies⟩ := h.inserts_tidies
  exact htidies.coherent (hinserts.edits.coherent hd)

namespace Coherent

/-- A step whose premises can be placed and are good for its conclusion is put into the document. -/
theorem splice_spliced (h : Coherent V d) (hbox : d.children box = xs ++ target :: ys)
    (hopen : d.isOpen target = true) {rule : Rule} {step : Step} {f : Formula}
    (hstep : d.Concludes target f step)
    (hpremises : AllPlaceable P d target d.signature step.premises) {ms : List Meaning}
    (hms : step.premises.map (premiseMeaning? d) = ms.map some) (hV : V ms f)
    (hf : P (step.premises.foldl premiseSignature d.signature) f) :
    ∃ cites mid e, d.splice rule target step = .ok e ∧
      Spliced V P rule target step d cites mid e := by
  obtain ⟨hparent, hprev, -⟩ := h.linked.linkedBy.place hbox
  obtain ⟨item, hitem, -, -, hitemPrev, -⟩ := item_eq_ok (lt_size_of_parent? hparent)
  obtain ⟨cites, mid, hok, hinserts, hcites, hmeanings, hsig, hbuilt⟩ :=
    h.placePremises hbox hopen hpremises hms
  have hplaced := hinserts.placed h hbox
  obtain ⟨new, hrow, -⟩ := hplaced.row
  have hmid : Coherent V mid := hinserts.edits.coherent h
  have hcore : mid.core? target = d.core? target := hplaced.old (lt_size_of_parent? hparent)
  have hsupported : Supported V mid target f cites := ⟨hcites, ms, hmeanings, hV⟩
  cases step with
  | derive g premises =>
    obtain ⟨hempty, rfl⟩ := hstep
    have hkind : ∀ data, ItemKind.line g (.byRule rule cites) 0 = .box data → data.head = none := by
      simp
    obtain ⟨e, hok', g', hsig'⟩ := hmid.linked.prepend_grown hrow hkind
    have hg : P e.signature g := by rw [hsig', hsig]; exact hf
    refine ⟨cites, mid, e, ?_, hok, hinserts, hbuilt, box, xs, new, ys, hbox, hrow,
      .derive ?_ g' (.derived hg hsupported) (.of_line g' (by simp) hsig')⟩
    · simp only [splice, hitem, bind, Except.bind, hok, hok']
      rfl
    · rwa [isEmptyLine_congr hcore]
  | justify premises =>
    have hgoal : mid.line? target = some (f, .goal) := by rw [line?_congr hcore]; exact hstep
    obtain ⟨mid', hok', hjust, hsig'⟩ := hmid.linked.setJust_rejustified hgoal rule cites
    obtain ⟨e, hok'', hungapped⟩ := hjust.linked.dropGap_ungapped (hjust.children ▸ hrow)
    refine ⟨cites, mid, e, ?_, hok, hinserts, hbuilt, box, xs, new, ys, hbox, hrow,
      .justify hjust hsupported hsig' hungapped⟩
    simp only [splice, hitem, bind, Except.bind, hok, hok', hitemPrev, hprev, hok'']

end Coherent

end NaturalDeduction.Document
