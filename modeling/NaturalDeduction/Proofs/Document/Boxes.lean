import NaturalDeduction.Proofs.Document.Ordered
import NaturalDeduction.Proofs.Document.Visibility

/-!
# The boxes inside a box

The boxes inside a box are listed each once, but not in the order of the tree: the boxes that stand
directly in a box come first, and only then what these hold.  So a box is overtaken by the boxes that
stand further down in a row around it, and by no others (`WellLinked.boxesUnder_order`).  The list is
in the order of the tree just if no box that holds boxes stands before another box.

The list is told by recursion on the tree.  A loop that keeps the boxes it has still to look at on a
stack makes the same list (`WellLinked.unstacks_iff`).
-/

set_option autoImplicit false

namespace NaturalDeduction.Document

variable {d : Document} {id box a b c : ItemId}

/-- All items inside a box in the order of the tree, each box directly before what it holds. -/
def itemsInOrder (d : Document) (box : ItemId) : List ItemId :=
  Outline.idsList (d.outline box)

/-- The boxes inside a box in the order of the tree. -/
def boxesInOrder (d : Document) (box : ItemId) : List ItemId :=
  (d.itemsInOrder box).filter d.isBox

/-- An item stands behind a box of its row in which another item is. -/
def Overtakes (d : Document) (id other : ItemId) : Prop :=
  ∃ box, d.Within other box ∧ d.Precedes box id

/-- A box is listed before another one inside the same box: it comes first in the order of the tree and
is not overtaken, or it overtakes. -/
def ListedBefore (d : Document) (box a b : ItemId) : Prop :=
  ([a, b].Sublist (d.boxesInOrder box) ∧ ¬ d.Overtakes b a) ∨
    ([b, a].Sublist (d.boxesInOrder box) ∧ d.Overtakes a b)

/-- The boxes that stand directly in a box. -/
def boxRow (d : Document) (box : ItemId) : List ItemId :=
  (d.children box).filter d.isBox

/-- What is listed while boxes are taken from a stack until it is empty.  The boxes that stand directly
in the box that is taken are listed, and they go on the stack, so that the first of them is taken
next. -/
inductive Unstacks (d : Document) : (stack listed : List ItemId) → Prop
  | empty : Unstacks d [] []
  | take {box : ItemId} {stack listed : List ItemId}
      (rest : Unstacks d (d.boxRow box ++ stack) listed) :
      Unstacks d (box :: stack) (d.boxRow box ++ listed)

/-- The boxes inside several outlines are those inside each, one after the other. -/
theorem innerBoxesList_eq_flatMap (outlines : List Outline) :
    Outline.innerBoxesList outlines = outlines.flatMap Outline.innerBoxes := by
  induction outlines with
  | nil => rfl
  | cons outline outlines ih => rw [Outline.innerBoxesList, ih, List.flatMap_cons]

/-- The outline of an item is one of a box if the item is a box. -/
theorem boxId?_nodeOf (d : Document) (id : ItemId) :
    (d.nodeOf id).boxId? = if d.isBox id then some id else none := by
  unfold nodeOf
  split <;> rfl

/-- The boxes inside the outline of a box are those listed under the box. -/
theorem innerBoxes_nodeOf (d : Document) (id : ItemId) :
    (d.nodeOf id).innerBoxes = if d.isBox id then d.boxesUnder id else [] := by
  unfold nodeOf
  split <;> rfl

/-- What only boxes contribute to is contributed by the boxes of a row. -/
theorem flatMap_ite_isBox (d : Document) (ids : List ItemId) (f : ItemId → List ItemId) :
    (ids.flatMap fun id => if d.isBox id then f id else []) = (ids.filter d.isBox).flatMap f := by
  induction ids with
  | nil => rfl
  | cons id ids ih => by_cases hbox : d.isBox id <;> simp [hbox, ih]

/-- Two items of a list stand in it in one order only, if no item occurs twice. -/
theorem not_sublist_swap {ids : List ItemId} (hnodup : ids.Nodup) {a b : ItemId}
    (hab : [a, b].Sublist ids) : ¬ [b, a].Sublist ids := by
  intro hba
  obtain ⟨xs, ys, rfl⟩ := List.append_of_mem (hab.subset List.mem_cons_self)
  have hafter := mem_of_sublist_pair hnodup hab
  have hbefore := mem_of_pair_sublist hnodup hba
  exact List.disjoint_of_nodup_append hnodup hbefore (List.mem_cons_of_mem a hafter)

/-- A list of boxes on top of a stack is dealt with before the rest, if this holds of each of them. -/
theorem Unstacks.append {boxes stack listed : List ItemId} (h : d.Unstacks stack listed)
    (hboxes : ∀ box ∈ boxes, ∀ {stack listed}, d.Unstacks stack listed →
      d.Unstacks (box :: stack) (d.boxesUnder box ++ listed)) :
    d.Unstacks (boxes ++ stack) (boxes.flatMap d.boxesUnder ++ listed) := by
  induction boxes with
  | nil => exact h
  | cons box boxes ih =>
    rw [List.cons_append, List.flatMap_cons, List.append_assoc]
    exact hboxes box List.mem_cons_self (ih fun b hb => hboxes b (List.mem_cons_of_mem box hb))

namespace WellLinked

/-! ### The two lists -/

/-- The boxes inside a box are those of its row, followed by those inside each of these. -/
theorem boxesUnder_eq (h : d.WellLinked) (box : ItemId) :
    d.boxesUnder box = d.boxRow box ++ (d.boxRow box).flatMap d.boxesUnder := by
  have hrow : (d.outline box).filterMap Outline.boxId? = d.boxRow box := by
    rw [h.outline_eq_map, List.filterMap_map, boxRow]
    simp only [Function.comp_def, boxId?_nodeOf]
    induction d.children box with
    | nil => rfl
    | cons id ids ih => by_cases hbox : d.isBox id <;> simp [hbox, ih]
  rw [boxesUnder, Outline.innerBoxes, hrow, innerBoxesList_eq_flatMap, h.outline_eq_map,
    List.flatMap_map, boxRow, ← flatMap_ite_isBox]
  simp only [innerBoxes_nodeOf]

/-- A box on top of a stack is dealt with before the rest. -/
theorem unstacks_cons (h : d.WellLinked) (box : ItemId) {stack listed : List ItemId}
    (hrest : d.Unstacks stack listed) : d.Unstacks (box :: stack) (d.boxesUnder box ++ listed) := by
  induction box using h.box_induction generalizing stack listed with
  | step box ih =>
    rw [h.boxesUnder_eq, List.append_assoc]
    exact .take (hrest.append fun c hc {_ _} hrest => ih c (List.mem_of_mem_filter hc) hrest)

/-- Taking boxes from a stack comes to an end, and what is listed on the way are the boxes inside each
box of the stack. -/
theorem unstacks_iff (h : d.WellLinked) {stack listed : List ItemId} :
    d.Unstacks stack listed ↔ listed = stack.flatMap d.boxesUnder := by
  constructor
  · intro hunstacks
    induction hunstacks with
    | empty => rfl
    | @take box stack listed _ ih =>
      rw [ih, List.flatMap_append, List.flatMap_cons, h.boxesUnder_eq box, List.append_assoc]
  · rintro rfl
    have hall : d.Unstacks (stack ++ []) (stack.flatMap d.boxesUnder ++ []) :=
      Unstacks.empty.append fun box _ {_ _} hrest => h.unstacks_cons box hrest
    rwa [List.append_nil, List.append_nil] at hall

/-- In the order of the tree each box of a row is followed by those inside it. -/
theorem boxesInOrder_eq (h : d.WellLinked) (box : ItemId) :
    d.boxesInOrder box = (d.boxRow box).flatMap fun c => c :: d.boxesInOrder c := by
  rw [boxesInOrder, itemsInOrder, h.idsList_outline, List.filter_flatMap, boxRow,
    ← flatMap_ite_isBox]
  refine List.flatMap_congr fun c _ => ?_
  cases hbox : d.isBox c with
  | false => simp [nodeOf, hbox, Outline.ids]
  | true => simp [nodeOf, hbox, Outline.ids, boxesInOrder, itemsInOrder]

/-- The lines under a box are its items in order without the boxes. -/
theorem linesUnder_eq_filter (h : d.WellLinked) (box : ItemId) :
    d.linesUnder box = (d.itemsInOrder box).filter fun id => !d.isBox id := by
  induction box using h.box_induction with
  | step box ih =>
    rw [h.linesUnder_eq, itemsInOrder, h.idsList_outline, List.filter_flatMap]
    refine List.flatMap_congr fun c hc => ?_
    cases hbox : d.isBox c with
    | false => simp [linesOf, nodeOf, hbox, Outline.ids]
    | true => simp [linesOf, nodeOf, hbox, Outline.ids, ih c hc, itemsInOrder]

/-- The list of boxes holds the boxes of the tree, in another order. -/
theorem boxesUnder_perm (h : d.WellLinked) (box : ItemId) :
    (d.boxesUnder box).Perm (d.boxesInOrder box) := by
  induction box using h.box_induction with
  | step box ih =>
    rw [h.boxesUnder_eq, h.boxesInOrder_eq]
    have hsplit := List.map_append_flatMap_perm (d.boxRow box) id d.boxesUnder
    rw [List.map_id] at hsplit
    exact hsplit.trans (List.Perm.flatMap_left _ fun c hc =>
      (ih c (List.mem_of_mem_filter hc)).cons c)

/-- In the order of the tree, the boxes inside a box are listed. -/
theorem mem_boxesInOrder (h : d.WellLinked) :
    id ∈ d.boxesInOrder box ↔ d.isBox id = true ∧ d.Within id box := by
  rw [boxesInOrder, List.mem_filter, and_comm, itemsInOrder, h.idsList_outline, List.mem_flatMap,
    Within, Relation.TransGen.tail'_iff]
  simp only [h.mem_ids_nodeOf, h.standsIn_iff, and_comm]

/-- The list of boxes holds the boxes inside a box. -/
theorem mem_boxesUnder (h : d.WellLinked) :
    id ∈ d.boxesUnder box ↔ d.isBox id = true ∧ d.Within id box :=
  (h.boxesUnder_perm box).mem_iff.trans h.mem_boxesInOrder

/-- In the order of the tree, no box comes twice. -/
theorem nodup_boxesInOrder (h : d.WellLinked) (box : ItemId) : (d.boxesInOrder box).Nodup := by
  cases hbox : d.isBox box with
  | true =>
    have hnodup := h.nodup_ids_nodeOf box
    rw [nodeOf, if_pos hbox, Outline.ids] at hnodup
    exact (List.nodup_cons.1 hnodup).2.filter _
  | false =>
    have hnil : d.boxesInOrder box = [] := by
      refine List.eq_nil_iff_forall_not_mem.2 fun id hid => ?_
      rw [h.isBox_of_within (h.mem_boxesInOrder.1 hid).2] at hbox
      exact absurd hbox (by decide)
    rw [hnil]
    exact List.nodup_nil

/-- No box is listed twice. -/
theorem nodup_boxesUnder (h : d.WellLinked) (box : ItemId) : (d.boxesUnder box).Nodup :=
  (h.boxesUnder_perm box).nodup_iff.2 (h.nodup_boxesInOrder box)

/-! ### Places in the tree -/

/-- No item of a row stands inside another one. -/
theorem not_within_of_mem (h : d.WellLinked) (ha : a ∈ d.children box) (hb : b ∈ d.children box) :
    ¬ d.Within a b := by
  intro hin
  obtain ⟨outer, hstep, hup⟩ := Relation.TransGen.head'_iff.1 hin
  obtain rfl : box = outer := h.linkedBy.box_unique ha (h.standsIn_iff.1 hstep)
  exact h.not_within_self box (Relation.TransGen.tail' hup (h.standsIn_iff.2 hb))

/-- Items of one row stand inside the same boxes. -/
theorem within_of_precedes (h : d.WellLinked) (hab : d.Precedes a b) :
    d.Within a box ↔ d.Within b box := by
  obtain ⟨row, hrow⟩ := hab
  have hstep : ∀ {id}, id ∈ d.children row → (d.Within id box ↔ d.Under box row) := by
    intro id hid
    rw [Within, Relation.TransGen.head'_iff]
    constructor
    · rintro ⟨outer, hstep, hup⟩
      obtain rfl : row = outer := h.linkedBy.box_unique hid (h.standsIn_iff.1 hstep)
      exact hup
    · exact fun hup => ⟨row, h.standsIn_iff.2 hid, hup⟩
  rw [hstep (hrow.subset (by simp)), hstep (hrow.subset (by simp))]

/-- What overtakes an item inside a box also overtakes it inside. -/
theorem within_of_overtakes (h : d.WellLinked) (hover : d.Overtakes b a) (hb : d.Within b c) :
    d.Within a c := by
  obtain ⟨outer, hin, hprec⟩ := hover
  exact hin.trans ((h.within_of_precedes hprec).2 hb)

/-- An item of a row overtakes only what stands inside earlier boxes of the row. -/
theorem not_overtakes_of_mem (h : d.WellLinked) (ha : a ∈ d.children box)
    (hb : b ∈ d.children box) : ¬ d.Overtakes b a := by
  rintro ⟨outer, hin, row, hrow⟩
  obtain rfl : row = box := h.linkedBy.box_unique (hrow.subset (by simp)) hb
  exact h.not_within_of_mem ha (hrow.subset (by simp)) hin

/-! ### The order -/

/-- A box and those inside it come in the order of the tree. -/
theorem cons_boxesInOrder_sublist (h : d.WellLinked) (hc : c ∈ d.boxRow box) :
    (c :: d.boxesInOrder c).Sublist (d.boxesInOrder box) := by
  rw [h.boxesInOrder_eq box]
  simpa using (List.singleton_sublist.2 hc).flatMap fun c => c :: d.boxesInOrder c

/-- Boxes of a row come in the order of the row, each with what it holds. -/
theorem pair_sublist_boxesInOrder (h : d.WellLinked) {e : ItemId}
    (hrow : [c, e].Sublist (d.boxRow box)) (ha : a ∈ c :: d.boxesInOrder c)
    (hb : b ∈ e :: d.boxesInOrder e) : [a, b].Sublist (d.boxesInOrder box) := by
  rw [h.boxesInOrder_eq box]
  have hsub := hrow.flatMap fun c => c :: d.boxesInOrder c
  rw [List.flatMap_cons, List.flatMap_singleton] at hsub
  exact ((List.singleton_sublist.2 ha).append (List.singleton_sublist.2 hb)).trans hsub

/-- Of two boxes in one row, the first precedes the second. -/
theorem precedes_of_sublist (hrow : [a, b].Sublist (d.boxRow box)) : d.Precedes a b :=
  ⟨box, hrow.trans List.filter_sublist⟩

/-- The boxes inside a box are listed in the order of the tree but for those that overtake. -/
theorem boxesUnder_pairwise (h : d.WellLinked) (box : ItemId) :
    (d.boxesUnder box).Pairwise (d.ListedBefore box) := by
  induction box using h.box_induction with
  | step box ih =>
    have hmem : ∀ {c}, c ∈ d.boxRow box → c ∈ d.children box := List.mem_of_mem_filter
    have hinner : ∀ {a c}, a ∈ d.boxesUnder c → a ∈ c :: d.boxesInOrder c := fun ha =>
      List.mem_cons_of_mem _ ((h.boxesUnder_perm _).subset ha)
    have hwithin : ∀ {a c}, a ∈ d.boxesUnder c → d.Within a c := fun ha => (h.mem_boxesUnder.1 ha).2
    have hnodup : (d.boxRow box).Nodup := (h.linkedBy.nodup box).filter _
    rw [h.boxesUnder_eq, List.pairwise_append, List.pairwise_flatMap]
    refine ⟨List.pairwise_iff_forall_sublist.2 fun {a b} hab => Or.inl ⟨?_, ?_⟩,
      ⟨fun c hc => ?_, List.pairwise_iff_forall_sublist.2 fun {c e} hce a ha b hb => Or.inl ⟨?_, ?_⟩⟩,
      fun a ha b hb => ?_⟩
    -- both stand in the row
    · exact h.pair_sublist_boxesInOrder hab List.mem_cons_self List.mem_cons_self
    · exact h.not_overtakes_of_mem (hmem (hab.subset (by simp))) (hmem (hab.subset (by simp)))
    -- both stand inside one box of the row
    · have hsub := (List.sublist_cons_self c _).trans (h.cons_boxesInOrder_sublist hc)
      exact (ih c (hmem hc)).imp fun {a b} hab => hab.imp (And.imp_left (·.trans hsub))
        (And.imp_left (·.trans hsub))
    -- they stand inside different boxes of the row
    · exact h.pair_sublist_boxesInOrder hce (hinner ha) (hinner hb)
    · intro hover
      have heq : c = e := h.eq_of_common (hmem (hce.subset (by simp))) (hmem (hce.subset (by simp)))
        (hwithin ha).to_reflTransGen (h.within_of_overtakes hover (hwithin hb)).to_reflTransGen
      simpa [heq] using hnodup.sublist hce
    -- only the first one stands in the row
    · obtain ⟨c, hc, hb⟩ := List.mem_flatMap.1 hb
      by_cases hac : a = c
      · subst hac
        refine Or.inl ⟨?_, fun hover => h.not_within_self a (h.within_of_overtakes hover (hwithin hb))⟩
        have hafter : b ∈ d.boxesInOrder a := (h.boxesUnder_perm a).subset hb
        exact ((List.singleton_sublist.2 hafter).cons_cons a).trans (h.cons_boxesInOrder_sublist hc)
      · rcases sublist_pair_of_mem ha hc hac with hbefore | hafter
        · exact Or.inl ⟨h.pair_sublist_boxesInOrder hbefore List.mem_cons_self (hinner hb), fun hover =>
            h.not_within_of_mem (hmem ha) (hmem hc) (h.within_of_overtakes hover (hwithin hb))⟩
        · exact Or.inr ⟨h.pair_sublist_boxesInOrder hafter (hinner hb) List.mem_cons_self,
            c, hwithin hb, precedes_of_sublist hafter⟩

/-- Of two boxes, only one is listed before the other. -/
theorem listedBefore_asymm (h : d.WellLinked) (hab : d.ListedBefore box a b) :
    ¬ d.ListedBefore box b a := by
  have hasymm : ∀ {a b}, [a, b].Sublist (d.boxesInOrder box) → ¬ [b, a].Sublist (d.boxesInOrder box) :=
    not_sublist_swap (h.nodup_boxesInOrder box)
  rcases hab with ⟨hab, hnot⟩ | ⟨hba, hover⟩
  · rintro (⟨hba, -⟩ | ⟨-, hover⟩)
    · exact hasymm hab hba
    · exact hnot hover
  · rintro (⟨-, hnot⟩ | ⟨hab, -⟩)
    · exact hnot hover
    · exact hasymm hab hba

/-- One box comes before another in the list exactly if it is listed before it. -/
theorem pair_sublist_boxesUnder_iff (h : d.WellLinked) :
    [a, b].Sublist (d.boxesUnder box) ↔ d.ListedBefore box a b := by
  have hlisted : ∀ {a b}, [a, b].Sublist (d.boxesUnder box) → d.ListedBefore box a b :=
    List.pairwise_iff_forall_sublist.1 (h.boxesUnder_pairwise box)
  refine ⟨hlisted, fun hab => ?_⟩
  obtain ⟨hne, ha, hb⟩ : a ≠ b ∧ a ∈ d.boxesInOrder box ∧ b ∈ d.boxesInOrder box := by
    rcases hab with ⟨hsub, -⟩ | ⟨hsub, -⟩
    · exact ⟨by simpa using (h.nodup_boxesInOrder box).sublist hsub, hsub.subset (by simp),
        hsub.subset (by simp)⟩
    · exact ⟨Ne.symm (by simpa using (h.nodup_boxesInOrder box).sublist hsub), hsub.subset (by simp),
        hsub.subset (by simp)⟩
  have hperm := h.boxesUnder_perm box
  rcases sublist_pair_of_mem (hperm.mem_iff.2 ha) (hperm.mem_iff.2 hb) hne with hsub | hsub
  · exact hsub
  · exact absurd (hlisted hsub) (h.listedBefore_asymm hab)

/-! ### Lists in the order of the tree -/

/-- The boxes inside an inner box come in the order of the tree. -/
theorem boxesInOrder_sublist (h : d.WellLinked) (hup : d.Under box c) (hbox : d.isBox c = true) :
    (d.boxesInOrder c).Sublist (d.boxesInOrder box) := by
  induction hup using Relation.ReflTransGen.head_induction_on with
  | refl => exact List.Sublist.refl _
  | @head c outer hstep _ ih =>
    have hc : c ∈ d.children outer := h.standsIn_iff.1 hstep
    have hrow : c ∈ d.boxRow outer := List.mem_filter.2 ⟨hc, hbox⟩
    exact ((List.sublist_cons_self c _).trans (h.cons_boxesInOrder_sublist hrow)).trans
      (ih (h.linkedBy.isBox_of_mem hc))

/-- What a box holds that stands before another box comes before this one in the order of the tree. -/
theorem pair_sublist_of_precedes (h : d.WellLinked) (hin : d.Within a box) (hab : d.Precedes a b)
    (hb : d.isBox b = true) (hid : id ∈ d.boxesInOrder a) :
    [id, b].Sublist (d.boxesInOrder box) := by
  obtain ⟨row, hrow⟩ := hab
  have ha : a ∈ d.children row := hrow.subset (by simp)
  have hbox : d.isBox a = true := h.isBox_of_within (h.mem_boxesInOrder.1 hid).2
  obtain ⟨outer, hstep, hup⟩ := Relation.TransGen.head'_iff.1 hin
  obtain rfl : row = outer := h.linkedBy.box_unique ha (h.standsIn_iff.1 hstep)
  have hboxes : [a, b].Sublist (d.boxRow row) := by
    simpa [hbox, hb, boxRow] using hrow.filter d.isBox
  exact (h.pair_sublist_boxesInOrder hboxes (List.mem_cons_of_mem a hid) List.mem_cons_self).trans
    (h.boxesInOrder_sublist hup (h.linkedBy.isBox_of_mem ha))

/-- The list is in the order of the tree if no box that holds boxes stands before another box. -/
theorem boxesUnder_eq_boxesInOrder_iff (h : d.WellLinked) :
    d.boxesUnder box = d.boxesInOrder box ↔
      ∀ first next, d.Within first box → d.Precedes first next → d.isBox next = true →
        ∀ inner, d.Within inner first → d.isBox inner = false := by
  constructor
  · intro heq first next hin hprec hnext inner hinner
    by_contra hbox
    have hmem := h.mem_boxesInOrder.2 ⟨by simpa using hbox, hinner⟩
    have hsub := h.pair_sublist_of_precedes hin hprec hnext hmem
    have hover : [next, inner].Sublist (d.boxesUnder box) :=
      h.pair_sublist_boxesUnder_iff.2 (Or.inr ⟨hsub, first, hinner, hprec⟩)
    exact not_sublist_swap (h.nodup_boxesInOrder box) hsub (heq ▸ hover)
  · intro hnone
    have hordered : (d.boxesInOrder box).Pairwise fun a b => [a, b].Sublist (d.boxesInOrder box) :=
      List.pairwise_iff_forall_sublist.2 id
    refine (h.boxesUnder_perm box).eq_of_pairwise
      (fun a b _ _ hab hba => absurd hba (not_sublist_swap (h.nodup_boxesInOrder box) hab))
      (List.pairwise_iff_forall_sublist.2 fun {a b} hab => ?_) hordered
    rcases h.pair_sublist_boxesUnder_iff.1 hab with ⟨hsub, -⟩ | ⟨-, first, hinner, hprec⟩
    · exact hsub
    · obtain ⟨hbox, hin⟩ := h.mem_boxesUnder.1 (hab.subset (show a ∈ [a, b] by simp))
      obtain ⟨hbox', -⟩ := h.mem_boxesUnder.1 (hab.subset (show b ∈ [a, b] by simp))
      have hfirst := (h.within_of_precedes hprec).2 hin
      simp [hnone first a hfirst hprec hbox b hinner] at hbox'

/-- The boxes inside a box are listed each once.  They come in the order of the tree, which is the order
in which the lines are listed, except that a box goes before what stands inside the earlier boxes of
its row.  So the list is in the order of the tree just if no box that holds boxes stands before another
box. -/
theorem boxesUnder_order (h : d.WellLinked) (box : ItemId) :
    (d.boxesUnder box).Nodup ∧
      (∀ id, id ∈ d.boxesUnder box ↔ d.isBox id = true ∧ d.Within id box) ∧
      (d.linesUnder box = (d.itemsInOrder box).filter fun id => !d.isBox id) ∧
      (∀ a b, [a, b].Sublist (d.boxesUnder box) ↔ d.ListedBefore box a b) ∧
      (d.boxesUnder box = d.boxesInOrder box ↔
        ∀ first next, d.Within first box → d.Precedes first next → d.isBox next = true →
          ∀ inner, d.Within inner first → d.isBox inner = false) :=
  ⟨h.nodup_boxesUnder box, fun _ => h.mem_boxesUnder, h.linesUnder_eq_filter box,
    fun _ _ => h.pair_sublist_boxesUnder_iff, h.boxesUnder_eq_boxesInOrder_iff⟩

end WellLinked

/-- A document with two boxes in a row, of which the first holds a third one. -/
theorem exists_wellLinked_boxes :
    ∃ d : Document, d.WellLinked ∧ d.children root = [1, 3, 4, 2] ∧ d.children 3 = [5] ∧
      d.boxesUnder root = [3, 4, 5] ∧ d.boxesInOrder root = [3, 5, 4] := by
  have hfresh : ∀ data, ItemKind.box {} = .box data → data.head = none := by
    rintro _ ⟨⟩
    rfl
  have hrow : (start [] (.prop "C") {}).children root = [1] ++ 2 :: [] := by decide
  obtain ⟨d₁, hd₁, h₁, hkids₁, hadded₁⟩ :=
    (start_linkedBy [] (.prop "C") {}).wellLinked.prepend hrow hfresh
  have hrow₁ : d₁.children root = [1, 3] ++ 2 :: [] := by
    rw [hkids₁, Function.update_self]
    rfl
  obtain ⟨d₂, hd₂, h₂, -, hadded₂⟩ := h₁.prepend hrow₁ hfresh
  have hbox : d₂.isBox 3 = true := by
    rw [isBox_eq_core, hadded₂.core, hadded₁.size, hadded₁.core]
    rfl
  obtain ⟨d₃, hd₃, h₃, -, -⟩ := h₂.pushChild hbox hfresh
  have hbuilt : ((start [] (.prop "C") {}).prepend 2 (.box {}) >>= fun r =>
      r.2.prepend 2 (.box {}) >>= fun r =>
        (r.2.pushChild 3 (.box {})).map Prod.snd).toOption.getD (start [] .top {}) = d₃ := by
    simp only [hd₁, hd₂, hd₃, bind, Except.bind, Except.map]
    rfl
  subst hbuilt
  exact ⟨_, h₃, by rfl, by rfl, by rfl, by rfl⟩

/-- The second box of a row overtakes what the first one holds. -/
theorem WellLinked.boxesUnder_order_overtaken :
    ∃ d : Document, d.WellLinked ∧ d.children root = [1, 3, 4, 2] ∧ d.children 3 = [5] ∧
      (d.boxesUnder root).Nodup ∧ [4, 5].Sublist (d.boxesUnder root) ∧ d.ListedBefore root 4 5 := by
  obtain ⟨d, h, hrow, hinner, hlisted, -⟩ := exists_wellLinked_boxes
  obtain ⟨hnodup, -, -, horder, -⟩ := h.boxesUnder_order root
  have hsub : [4, 5].Sublist (d.boxesUnder root) := by
    rw [hlisted]
    decide
  exact ⟨d, h, hrow, hinner, hnodup, hsub, (horder 4 5).1 hsub⟩

/-- The boxes inside a box need not be listed in the order of the tree. -/
theorem boxesUnder_out_of_order :
    ∃ d : Document, d.WellLinked ∧ d.boxesUnder root = [3, 4, 5] ∧ d.boxesInOrder root = [3, 5, 4] ∧
      d.boxesUnder root ≠ d.boxesInOrder root := by
  obtain ⟨d, h, -, -, hlisted, hordered⟩ := exists_wellLinked_boxes
  exact ⟨d, h, hlisted, hordered, by rw [hlisted, hordered]; decide⟩

end NaturalDeduction.Document
