import NaturalDeduction.Proofs.Document.Links
import Mathlib.Data.List.Flatten

/-!
# The tree of a well-linked document

In a well-linked document the way up from an item ends, and no box is nested deeper than the table
is long.  So the bounded walks of the document are the unbounded ones: `ancestors` lists all boxes
around an item, and `outline` is the whole tree of a box.  What follows about the lines of a box is
by induction on the boxes inside it.

The lines of a document are what stands inside the outermost box and is no box itself, each once;
numbering gives them the numbers 1, 2, 3 and so on and changes nothing else (`WellLinked.renumber`).
-/

set_option autoImplicit false

namespace NaturalDeduction.Document

variable {d e : Document} {id box : ItemId}

/-! ### The way up -/

/-- An item stands in a box, directly or in a box inside it. -/
def Within (d : Document) (id box : ItemId) : Prop := Relation.TransGen d.StandsIn id box

/-- An item is a box itself, or it stands in it. -/
def Under (d : Document) (box id : ItemId) : Prop := Relation.ReflTransGen d.StandsIn id box

/-- The boxes met on the way up from a place. -/
inductive Above (d : Document) : Option ItemId → List ItemId → Prop
  | top : Above d none []
  | step {box : ItemId} {boxes : List ItemId} (h : Above d (d.parent? box) boxes) :
      Above d (some box) (box :: boxes)

/-- Following the links upwards lists the boxes on the way, with enough fuel. -/
theorem Above.boxesFrom_eq {place : Option ItemId} {boxes : List ItemId}
    (h : d.Above place boxes) : ∀ {n : Nat}, boxes.length ≤ n → d.boxesFrom n place = boxes := by
  induction h with
  | top => intro n _; cases n <;> rfl
  | step _ ih =>
    intro n hn
    cases n with
    | zero => simp at hn
    | succ n => rw [boxesFrom, ih (by simpa using hn)]

/-- An item stands in all boxes on the way up from it. -/
theorem Above.within {boxes : List ItemId} :
    ∀ {id : ItemId}, d.Above (d.parent? id) boxes → ∀ box ∈ boxes, d.Within id box := by
  induction boxes with
  | nil => simp
  | cons b boxes ih =>
    intro id h box hbox
    generalize hplace : d.parent? id = place at h
    cases h with
    | step h =>
      have hb : d.Within id b := .single hplace
      rcases List.mem_cons.1 hbox with rfl | hbox
      · exact hb
      · exact hb.trans (ih h box hbox)

namespace WellLinked

/-- An item stands directly in the box that lists it. -/
theorem standsIn_iff (h : d.WellLinked) : d.StandsIn id box ↔ id ∈ d.children box :=
  h.mem_children_iff.symm

/-- The root stands in no box. -/
theorem ne_root_of_mem (h : d.WellLinked) (hmem : id ∈ d.children box) : id ≠ root := by
  rintro rfl
  simpa [h.linkedBy.root_free] using h.mem_children_iff.1 hmem

/-- Items stand in boxes only. -/
theorem isBox_of_within (h : d.WellLinked) (hin : d.Within id box) : d.isBox box = true := by
  obtain ⟨inner, -, hin⟩ := Relation.TransGen.tail'_iff.1 hin
  exact h.linkedBy.isBox_of_mem (h.standsIn_iff.1 hin)

/-- No box stands inside itself. -/
theorem not_within_self (h : d.WellLinked) (id : ItemId) : ¬ d.Within id id := by
  induction h.linkedBy.grounded id with
  | intro id _ ih =>
    intro hin
    obtain ⟨box, hstep, hback⟩ := Relation.TransGen.head'_iff.1 hin
    exact ih box hstep (Relation.TransGen.tail' hback hstep)

/-- The way up from an item comes to an end. -/
theorem exists_above (h : d.WellLinked) (id : ItemId) : ∃ boxes, d.Above (d.parent? id) boxes := by
  induction h.linkedBy.grounded id with
  | intro id _ ih =>
    cases hp : d.parent? id with
    | none => exact ⟨[], .top⟩
    | some box =>
      obtain ⟨boxes, hboxes⟩ := ih box hp
      exact ⟨box :: boxes, .step hboxes⟩

/-- No box is met twice on the way up. -/
theorem above_nodup (h : d.WellLinked) {boxes : List ItemId} :
    ∀ {place : Option ItemId}, d.Above place boxes → boxes.Nodup := by
  intro place hup
  induction hup with
  | top => exact List.nodup_nil
  | step hup ih =>
    exact List.nodup_cons.2 ⟨fun hmem => h.not_within_self _ (hup.within _ hmem), ih⟩

/-- At most as many boxes are met on the way up as there are items. -/
theorem above_length_le (h : d.WellLinked) {boxes : List ItemId}
    (hup : d.Above (d.parent? id) boxes) : boxes.length ≤ d.items.size := by
  have hsub : boxes ⊆ List.range d.items.size := fun box hmem =>
    List.mem_range.2 (lt_size_of_isBox (h.isBox_of_within (hup.within box hmem)))
  simpa using (List.subperm_of_subset (h.above_nodup hup) hsub).length_le

/-- The listed ancestors are all the boxes on the way up. -/
theorem ancestors_above (h : d.WellLinked) (id : ItemId) :
    d.Above (d.parent? id) (d.ancestors id) := by
  obtain ⟨boxes, hup⟩ := h.exists_above id
  rw [ancestors, hup.boxesFrom_eq (h.above_length_le hup)]
  exact hup

/-- Around an item of a box stand the box and what stands around it. -/
theorem ancestors_of_mem (h : d.WellLinked) (hmem : id ∈ d.children box) :
    d.ancestors id = box :: d.ancestors box := by
  have hup := h.ancestors_above id
  rw [h.mem_children_iff.1 hmem] at hup
  generalize hlist : d.ancestors id = boxes at hup
  cases hup with
  | step hup =>
    rw [ancestors, hup.boxesFrom_eq (h.above_length_le hup)]

/-- Nothing stands around an item without a parent. -/
theorem ancestors_of_free (hfree : d.parent? id = none) : d.ancestors id = [] := by
  rw [ancestors, hfree]
  cases d.items.size <;> rfl

/-- The boxes around an item are those it stands in. -/
theorem mem_ancestors_iff (h : d.WellLinked) : box ∈ d.ancestors id ↔ d.Within id box := by
  constructor
  · exact (h.ancestors_above id).within box
  · intro hin
    induction hin using Relation.TransGen.head_induction_on with
    | single hstep => rw [h.ancestors_of_mem (h.standsIn_iff.1 hstep)]; exact List.mem_cons_self
    | head hstep _ ih =>
      rw [h.ancestors_of_mem (h.standsIn_iff.1 hstep)]
      exact List.mem_cons_of_mem _ ih

/-- Boxes are not nested deeper than the table is long. -/
theorem length_ancestors_lt (h : d.WellLinked) (hbox : d.isBox box = true) :
    (d.ancestors box).length < d.items.size := by
  have hself : box ∉ d.ancestors box :=
    fun hmem => h.not_within_self box (h.mem_ancestors_iff.1 hmem)
  have hnodup : (box :: d.ancestors box).Nodup :=
    List.nodup_cons.2 ⟨hself, h.above_nodup (h.ancestors_above box)⟩
  have hsub : box :: d.ancestors box ⊆ List.range d.items.size := by
    intro b hb
    rw [List.mem_range]
    rcases List.mem_cons.1 hb with rfl | hb
    · exact lt_size_of_isBox hbox
    · exact lt_size_of_isBox (h.isBox_of_within (h.mem_ancestors_iff.1 hb))
  have hlen := (List.subperm_of_subset hnodup hsub).length_le
  rw [List.length_cons, List.length_range] at hlen
  exact hlen

/-- What holds of a box when it holds of its items holds of every box. -/
theorem box_induction (h : d.WellLinked) {motive : ItemId → Prop}
    (step : ∀ box, (∀ id ∈ d.children box, motive id) → motive box) (box : ItemId) :
    motive box := by
  have hwf : WellFounded fun a b => d.items.size - (d.ancestors a).length <
      d.items.size - (d.ancestors b).length := (measure _).wf
  induction box using hwf.induction with
  | _ box ih =>
    refine step box fun id hmem => ih id ?_
    have hlt := h.length_ancestors_lt (h.linkedBy.isBox_of_mem hmem)
    rw [h.ancestors_of_mem hmem, List.length_cons]
    omega

/-! ### The tree of a box -/

/-- An outline that is deep enough for the document does not change when it goes deeper. -/
theorem outlineTo_stable (h : d.WellLinked) :
    ∀ {m n : Nat} {box : ItemId}, d.items.size ≤ m + (d.ancestors box).length →
      d.items.size ≤ n + (d.ancestors box).length → d.outlineTo m box = d.outlineTo n box := by
  -- a walk that has gone as deep as the table is long has no box left to look into
  have hnone : ∀ {box : ItemId}, d.items.size ≤ (d.ancestors box).length →
      d.children box = [] := by
    intro box hle
    by_contra hne
    obtain ⟨id, hmem⟩ := List.exists_mem_of_ne_nil _ hne
    have hlt := h.length_ancestors_lt (h.linkedBy.isBox_of_mem hmem)
    omega
  intro m
  induction m with
  | zero =>
    intro n box hm _
    have hnil := hnone (by simpa using hm)
    cases n <;> simp [outlineTo, hnil]
  | succ m ih =>
    intro n box hm hn
    cases n with
    | zero =>
      have hnil := hnone (by simpa using hn)
      simp [outlineTo, hnil]
    | succ n =>
      rw [outlineTo, outlineTo]
      refine List.map_congr_left fun id hmem => ?_
      have hlen : (d.ancestors id).length = (d.ancestors box).length + 1 := by
        rw [h.ancestors_of_mem hmem, List.length_cons]
      rw [ih (n := n) (by omega) (by omega)]

/-- The outline of a box lists its lines, and its boxes with their outlines. -/
theorem outline_eq (h : d.WellLinked) (box : ItemId) :
    d.outline box = (d.children box).map fun id =>
      if d.isBox id then .box id (d.outline id) else .line id := by
  have hstable : d.outline box = d.outlineTo (d.items.size + 1) box :=
    h.outlineTo_stable (by omega) (by omega)
  rw [hstable]
  rfl

end WellLinked

/-- The lines of an item: its own, or those of the box it is. -/
def linesOf (d : Document) (id : ItemId) : List ItemId :=
  if d.isBox id then d.linesUnder id else [id]

/-- The lines of several outlines are those of each, one after the other. -/
theorem linesList_eq_flatMap (outlines : List Outline) :
    Outline.linesList outlines = outlines.flatMap Outline.lines := by
  induction outlines with
  | nil => rfl
  | cons outline outlines ih => rw [Outline.linesList, ih, List.flatMap_cons]

/-- The lines of a box are those under it. -/
theorem linesOf_of_box (hbox : d.isBox id = true) : d.linesOf id = d.linesUnder id := if_pos hbox

/-- A line has itself as its line. -/
theorem linesOf_of_line (hbox : d.isBox id = false) : d.linesOf id = [id] := by
  simp [linesOf, hbox]

namespace WellLinked

/-- The lines under a box are those of its items, one after the other. -/
theorem linesUnder_eq (h : d.WellLinked) (box : ItemId) :
    d.linesUnder box = (d.children box).flatMap d.linesOf := by
  rw [linesUnder, h.outline_eq, linesList_eq_flatMap, List.flatMap_map]
  refine List.flatMap_congr fun id _ => ?_
  cases hbox : d.isBox id
  · simp [hbox, linesOf, Outline.lines]
  · simp [hbox, linesOf, Outline.lines, linesUnder]

/-- The lines under a box are the items in it that are no boxes. -/
theorem mem_linesUnder_iff (h : d.WellLinked) :
    id ∈ d.linesUnder box ↔ d.Within id box ∧ d.isBox id = false := by
  induction box using h.box_induction with
  | step box ih =>
    rw [h.linesUnder_eq, List.mem_flatMap]
    constructor
    · rintro ⟨c, hc, hid⟩
      have hstep : d.StandsIn c box := h.standsIn_iff.2 hc
      cases hbox : d.isBox c with
      | false =>
        rw [linesOf_of_line hbox, List.mem_singleton] at hid
        exact hid ▸ ⟨.single hstep, hbox⟩
      | true =>
        rw [linesOf_of_box hbox] at hid
        obtain ⟨hin, hline⟩ := (ih c hc).1 hid
        exact ⟨hin.tail hstep, hline⟩
    · rintro ⟨hin, hline⟩
      obtain ⟨c, hup, hstep⟩ := Relation.TransGen.tail'_iff.1 hin
      have hc : c ∈ d.children box := h.standsIn_iff.1 hstep
      refine ⟨c, hc, ?_⟩
      rcases Relation.reflTransGen_iff_eq_or_transGen.1 hup with rfl | hup
      · rw [linesOf_of_line hline]
        exact List.mem_singleton_self _
      · rw [linesOf_of_box (h.isBox_of_within hup)]
        exact (ih c hc).2 ⟨hup, hline⟩

/-- A line of an item is the item or stands in it. -/
theorem mem_linesOf (h : d.WellLinked) {line : ItemId} (hmem : line ∈ d.linesOf id) :
    Relation.ReflTransGen d.StandsIn line id := by
  cases hbox : d.isBox id with
  | false =>
    rw [linesOf_of_line hbox, List.mem_singleton] at hmem
    exact hmem ▸ .refl
  | true =>
    rw [linesOf_of_box hbox] at hmem
    exact (h.mem_linesUnder_iff.1 hmem).1.to_reflTransGen

/-- Different items of a box hold different things. -/
theorem eq_of_common (h : d.WellLinked) {a b line : ItemId} (ha : a ∈ d.children box)
    (hb : b ∈ d.children box) (hla : Relation.ReflTransGen d.StandsIn line a)
    (hlb : Relation.ReflTransGen d.StandsIn line b) : a = b := by
  have hunique : Relator.RightUnique d.StandsIn := by
    intro i b c hb hc
    exact Option.some.inj (hb.symm.trans hc)
  -- the way from one to the other would lead through their common box
  have hup : ∀ {a b : ItemId}, a ∈ d.children box → b ∈ d.children box →
      Relation.ReflTransGen d.StandsIn a b → a = b := by
    intro a b ha hb hab
    obtain heq | ⟨c, hac, hcb⟩ := Relation.ReflTransGen.cases_head hab
    · exact heq
    · obtain rfl : box = c := hunique (h.standsIn_iff.2 ha) hac
      exact absurd (Relation.TransGen.tail' hcb (h.standsIn_iff.2 hb)) (h.not_within_self box)
  rcases Relation.ReflTransGen.total_of_right_unique hunique hla hlb with hab | hba
  · exact hup ha hb hab
  · exact (hup hb ha hba).symm

/-- No line under a box comes twice. -/
theorem nodup_linesUnder (h : d.WellLinked) (box : ItemId) : (d.linesUnder box).Nodup := by
  induction box using h.box_induction with
  | step box ih =>
    rw [h.linesUnder_eq, List.nodup_flatMap]
    constructor
    · intro id hid
      rw [linesOf]
      split
      · exact ih id hid
      · exact List.nodup_singleton id
    · refine (h.linkedBy.nodup box).imp_of_mem fun {a b} ha hb hne => ?_
      intro line hla hlb
      exact hne (h.eq_of_common ha hb (h.mem_linesOf hla) (h.mem_linesOf hlb))

end WellLinked

/-- Documents with the same boxes have the same lines. -/
theorem linesUnder_congr (hd : d.WellLinked) (he : e.WellLinked) (hkids : e.children = d.children)
    (hbox : ∀ j, e.isBox j = d.isBox j) (box : ItemId) : e.linesUnder box = d.linesUnder box := by
  induction box using hd.box_induction with
  | step box ih =>
    rw [hd.linesUnder_eq, he.linesUnder_eq, hkids]
    refine List.flatMap_congr fun id hmem => ?_
    rw [linesOf, linesOf, hbox, ih id hmem]

/-! ### Line numbers -/

/-- The lines are numbered from top to bottom. -/
def Numbered (d : Document) : Prop :=
  d.lines.map d.number? = (List.range' 1 d.lines.length).map some

/-- Numbered documents with the same lines give these the same numbers. -/
theorem Numbered.number?_eq (hd : d.Numbered) (he : e.Numbered) (hlines : e.lines = d.lines)
    (hid : id ∈ d.lines) : e.number? id = d.number? id := by
  rw [Numbered, hlines] at he
  exact List.map_inj_left.1 (he.trans hd.symm) id hid

/-- Numbering changes numbers only. -/
theorem core?_numberFrom (ids : List ItemId) :
    ∀ (d : Document) (n : Nat) (j : ItemId), (d.numberFrom n ids).core? j = d.core? j := by
  induction ids with
  | nil => intro d n j; rfl
  | cons id ids ih =>
    intro d n j
    rw [numberFrom, ih, core?, kind?_modifyKind]
    split
    · rw [core?]
      cases d.kind? j <;> simp
    · rfl

/-- Numbering leaves the links to first items as they are. -/
theorem head?_numberFrom (ids : List ItemId) :
    ∀ (d : Document) (n : Nat) (j : ItemId), (d.numberFrom n ids).head? j = d.head? j := by
  induction ids with
  | nil => intro d n j; rfl
  | cons id ids ih =>
    intro d n j
    rw [numberFrom, ih, head?, head?, box?, box?, kind?_modifyKind]
    by_cases hj : id = j
    · rw [if_pos hj]
      rcases d.kind? j with _ | (_ | _ | _ | _) <;> rfl
    · rw [if_neg hj]

/-- Numbering changes no link, and neither the size of the table nor the names. -/
theorem links_numberFrom (ids : List ItemId) :
    ∀ (d : Document) (n : Nat), (∀ j, (d.numberFrom n ids).parent? j = d.parent? j) ∧
      (∀ j, (d.numberFrom n ids).prev? j = d.prev? j) ∧
      (∀ j, (d.numberFrom n ids).next? j = d.next? j) ∧
      (d.numberFrom n ids).items.size = d.items.size ∧
      (d.numberFrom n ids).signature = d.signature := by
  induction ids with
  | nil => intro d n; exact ⟨fun _ => rfl, fun _ => rfl, fun _ => rfl, rfl, rfl⟩
  | cons id ids ih =>
    intro d n
    obtain ⟨hp, hpr, hnx, hsize, hsig⟩ := ih (d.modifyKind id (ItemKind.withNumber n)) (n + 1)
    exact ⟨by simp [numberFrom, hp], by simp [numberFrom, hpr], by simp [numberFrom, hnx],
      by simp [numberFrom, hsize], by rw [numberFrom, hsig]; rfl⟩

/-- Numbering leaves the items the same. -/
theorem sameItems_numberFrom (d : Document) (n : Nat) (ids : List ItemId) :
    SameItems d (d.numberFrom n ids) := by
  obtain ⟨-, -, -, hsize, hsig⟩ := links_numberFrom ids d n
  exact ⟨core?_numberFrom ids d n, hsize, hsig⟩

/-- Numbering leaves the other lines their numbers. -/
theorem number?_numberFrom_of_notMem {ids : List ItemId} :
    ∀ {d : Document} {n : Nat}, id ∉ ids → (d.numberFrom n ids).number? id = d.number? id := by
  induction ids with
  | nil => intro d n _; rfl
  | cons a ids ih =>
    intro d n hid
    rw [List.mem_cons, not_or] at hid
    rw [numberFrom, ih hid.2, number?, number?, kind?_modifyKind, if_neg (Ne.symm hid.1)]

/-- Numbering gives each listed line its number, counted from the first. -/
theorem map_number?_numberFrom {ids : List ItemId} :
    ∀ {d : Document} {n : Nat}, ids.Nodup → (∀ id ∈ ids, (d.number? id).isSome) →
      ids.map (d.numberFrom n ids).number? = (List.range' n ids.length).map some := by
  induction ids with
  | nil => intro d n _ _; rfl
  | cons id ids ih =>
    intro d n hnodup hlines
    obtain ⟨hid, hnodup⟩ := List.nodup_cons.1 hnodup
    have hnumber : ∀ j, ((d.modifyKind id (ItemKind.withNumber n)).number? j) =
        if j = id then (d.number? j).map fun _ => n else d.number? j := by
      intro j
      rw [number?, number?, kind?_modifyKind]
      by_cases hj : j = id
      · rw [if_pos hj, if_pos hj.symm]
        rcases d.kind? j with _ | (_ | _ | _ | _) <;> rfl
      · rw [if_neg hj, if_neg (Ne.symm hj)]
    have hhead : (d.numberFrom n (id :: ids)).number? id = some n := by
      obtain ⟨m, hm⟩ := Option.isSome_iff_exists.1 (hlines id List.mem_cons_self)
      rw [numberFrom, number?_numberFrom_of_notMem hid, hnumber, if_pos rfl, hm]
      rfl
    have hrest : ∀ j ∈ ids, ((d.modifyKind id (ItemKind.withNumber n)).number? j).isSome := by
      intro j hj
      have hne : j ≠ id := by rintro rfl; exact hid hj
      rw [hnumber, if_neg hne]
      exact hlines j (List.mem_cons_of_mem id hj)
    rw [List.map_cons, hhead, List.length_cons, List.range'_succ, List.map_cons, numberFrom,
      ih hnodup hrest]

/-- Every item that is no box has a number. -/
theorem number?_isSome_of_line (hlt : id < d.items.size) (hbox : d.isBox id = false) :
    (d.number? id).isSome := by
  obtain ⟨item, -, hget, -⟩ := item_eq_ok hlt
  have hkind : d.kind? id = some item.kind := by rw [kind?, hget]; rfl
  rw [number?, hkind]
  rw [isBox, box?, hkind] at hbox
  rcases hitem : item.kind with _ | _ | _ | _
  · rfl
  · rfl
  · rfl
  · simp [hitem] at hbox

namespace WellLinked

/-- What stands in a box is an item. -/
theorem lt_size_of_within (h : d.WellLinked) (hin : d.Within id box) : id < d.items.size := by
  obtain ⟨b, hstep, -⟩ := Relation.TransGen.head'_iff.1 hin
  exact h.linkedBy.lt_size (h.standsIn_iff.1 hstep)

/-- Numbering the lines leaves the boxes as they are. -/
theorem renumber (h : d.WellLinked) :
    d.renumber.WellLinked ∧ d.renumber.children = d.children ∧ SameItems d d.renumber ∧
      d.renumber.Numbered := by
  have hsame : SameItems d d.renumber := sameItems_numberFrom d 1 d.lines
  have hbox : ∀ j, d.renumber.isBox j = d.isBox j := fun j => isBox_congr (hsame.core j)
  obtain ⟨hp, hpr, hnx, -, -⟩ := links_numberFrom d.lines d 1
  have hlinked : d.renumber.LinkedBy d.children :=
    h.linkedBy.of_eq hbox hp hpr hnx (head?_numberFrom d.lines d 1)
  have hlines : d.renumber.lines = d.lines :=
    linesUnder_congr h hlinked.wellLinked hlinked.children_eq hbox root
  refine ⟨hlinked.wellLinked, hlinked.children_eq, hsame, ?_⟩
  rw [Numbered, hlines]
  refine map_number?_numberFrom (h.nodup_linesUnder root) fun id hid => ?_
  obtain ⟨hin, hline⟩ := h.mem_linesUnder_iff.1 hid
  exact number?_isSome_of_line (h.lt_size_of_within hin) hline

end WellLinked

end NaturalDeduction.Document
