import NaturalDeduction.Proofs.Document.Scope
import NaturalDeduction.Proofs.Document.Start

/-!
# Changes to the tree of a document

The tree of a well-linked document is changed by linking an item before or after another one, by
adding an item at the end of a box, and by unlinking an item.  Each of these changes one row of the
tree and leaves the rest as it was (`Rewired`): the rows of all other boxes, the boxes that all other
items stand in, and the content of every item.  Unlinking undoes adding, down to the single links.

An item that is added may be a box that already names a first item.  The links of such a document are
not in step any more, but the rows of the items it had before are, which is all that the operations
read.
-/

set_option autoImplicit false

namespace NaturalDeduction.Document

variable {d e : Document} {box id anchor : ItemId} {xs ys : List ItemId} {kind : ItemKind}

/-- The second document is the first with another row in one box.  Of the items that the first
document has, only `id` may have come to stand elsewhere. -/
structure Rewired (d e : Document) (box : ItemId) (row : List ItemId) (id : ItemId) : Prop where
  row : e.children box = row
  rows : ∀ b < d.items.size, b ≠ box → e.children b = d.children b
  parents : ∀ j < d.items.size, j ≠ id → e.parent? j = d.parent? j
  contents : ∀ j < d.items.size, e.content? j = d.content? j

/-- An operation on the links succeeds: they stay in step, one box has another row, and `id` has come
to stand in `place`. -/
def Rewires (d : Document) (result : Except Fault Document) (box : ItemId) (row : List ItemId)
    (id : ItemId) (place : Option ItemId) : Prop :=
  ∃ e, result = .ok e ∧ e.WellLinked ∧ e.items.size = d.items.size ∧ e.parent? id = place ∧
    Rewired d e box row id

/-- A new item is added, and once it is unlinked again all earlier items are exactly as they were. -/
def Restores (d : Document) (result : Except Fault (ItemId × Document)) : Prop :=
  ∃ e f, result = .ok (d.items.size, e) ∧ e.delete d.items.size = .ok f ∧
    ∀ j < d.items.size, f.items[j]? = d.items[j]?

/-- An insertion rewires the row it goes to.  It may follow on the creation of an item, which is not
in the first document yet. -/
theorem Inserted.rewired {mid : Document} (hins : Inserted mid e box xs id ys) (hd : d.WellLinked)
    (hrow : d.children box = xs ++ ys) (hbox : box < d.items.size) (hfree : mid.parent? id = none)
    (hrows : ∀ {b row}, b < d.items.size → d.LinkedRow b row → mid.LinkedRow b row)
    (hparents : ∀ j, mid.parent? j = d.parent? j)
    (hcontents : ∀ j < d.items.size, mid.content? j = d.content? j) :
    Rewired d e box (xs ++ id :: ys) id := by
  have hmid : mid.LinkedRow box (xs ++ ys) := hrow ▸ hrows hbox (hd.row box)
  have hnew : id ∉ xs ++ ys := fun hmem => by simp [hmid.parent? hmem] at hfree
  constructor
  case row => exact (hins.linkedRow hmid hnew).children_eq
  case rows =>
    intro b hb hne
    exact (hins.linkedRow_of_ne hmid hfree (hrows hb (hd.row b)) hne).children_eq
  case parents =>
    intro j _ hj
    rw [hins.parent, if_neg hj, hparents]
  case contents =>
    intro j hj
    rw [hins.relinked.content, hcontents j hj]

/-- A removal rewires the row it takes from. -/
theorem Removed.rewired (hrem : Removed d e box xs id ys) (hd : d.WellLinked)
    (hrow : d.children box = xs ++ id :: ys) : Rewired d e box (xs ++ ys) id where
  row := (hrem.linkedRow (hrow ▸ hd.row box)).children_eq
  rows b _ hb := (hrem.linkedRow_of_ne (hrow ▸ hd.row box) (hd.row b) hb).children_eq
  parents j _ hj := by rw [hrem.parent, if_neg hj]
  contents j _ := hrem.relinked.content j

/-- Taking an item out again leaves every other item as it was before the item was put in. -/
theorem Inserted.restored {f : Document} (hins : Inserted d e box xs id ys)
    (hrem : Removed e f box xs id ys) (h : d.LinkedRow box (xs ++ ys)) {j : ItemId} (hj : j ≠ id) :
    f.items[j]? = d.items[j]? := by
  -- the neighbours of the item are linked to each other again, as they were in the row before
  refine getElem?_eq_of_links ?_ ?_ ?_ ?_ ?_
  · rw [hrem.parent, if_neg hj, hins.parent, if_neg hj]
  · rw [hrem.prev, if_neg hj, hins.prev, if_neg hj]
    split
    · rename_i hhead
      obtain ⟨vs, rfl⟩ := List.head?_eq_some_iff.1 hhead
      exact (h.place rfl).2.1.symm
    · rfl
  · rw [hrem.next, if_neg hj, hins.next, if_neg hj]
    split
    · rename_i hlast
      obtain ⟨us, rfl⟩ := List.getLast?_eq_some_iff.1 hlast
      exact (h.place (List.append_assoc us [j] ys)).2.2.symm
    · rfl
  · rw [hrem.head, hins.head]
    split
    · rename_i hbox
      obtain ⟨rfl, rfl⟩ := hbox
      exact h.head.symm
    · rfl
  · rw [hrem.relinked.content, hins.relinked.content]

/-- A new item that has been put in and taken out again has left no trace on the items before it. -/
theorem LinkedRow.restored (h : d.LinkedRow box (xs ++ ys)) (hbox : box < d.items.size)
    (hins : Inserted (d.alloc kind).2 e box xs d.items.size ys) :
    ∃ f, e.delete d.items.size = .ok f ∧ ∀ j < d.items.size, f.items[j]? = d.items[j]? := by
  have hmid : (d.alloc kind).2.LinkedRow box (xs ++ ys) := h.alloc hbox kind
  have hnew : d.items.size ∉ xs ++ ys := fun hmem => Nat.lt_irrefl _ (h.lt_size hmem)
  obtain ⟨f, hok, hrem⟩ := (hins.linkedRow hmid hnew).delete_removed
  refine ⟨f, hok, fun j hj => ?_⟩
  rw [hins.restored hrem hmid (Nat.ne_of_lt hj)]
  simp [Document.alloc, Array.getElem?_push, Nat.ne_of_lt hj]

/-- A new item keeps its kind when it is linked. -/
theorem kind?_new (hbox : d.isBox box = true)
    (hins : Inserted (d.alloc kind).2 e box xs d.items.size ys) :
    e.kind? d.items.size = some kind := by
  have hne : d.items.size ≠ box := Nat.ne_of_gt (lt_size_of_isBox hbox)
  have hkept := kind?_eq_of_content? (by rw [hins.head, if_neg fun hb => hne hb.1])
    (hins.relinked.content d.items.size)
  rw [hkept, kind?_alloc, if_pos rfl]

namespace WellLinked

/-- An item that is linked and is not the outermost box stands in the row of a box. -/
theorem exists_row (h : d.WellLinked) (hlinked : d.isLinked id = true) (hroot : id ≠ root) :
    ∃ box xs ys, d.parent? id = some box ∧ d.children box = xs ++ id :: ys := by
  obtain ⟨box, hparent⟩ := (isLinked_iff.1 hlinked).resolve_left hroot
  obtain ⟨xs, ys, hrow⟩ := List.append_of_mem (h.mem_children_iff.2 hparent)
  exact ⟨box, xs, ys, hparent, hrow⟩

/-- The box around an item is an item of the table. -/
theorem lt_size_of_parent (h : d.WellLinked) (hparent : d.parent? id = some box) :
    box < d.items.size :=
  lt_size_of_isBox (h.linkedBy.isBox_of_mem (h.mem_children_iff.2 hparent))

/-- Linking an item that stands in no box and not around the place changes one row. -/
theorem rewires_of_inserted (h : d.WellLinked) (hrow : d.children box = xs ++ ys)
    (hbox : box < d.items.size) (hroot : id ≠ root) (hfree : d.parent? id = none)
    (hcircle : ¬ Relation.ReflTransGen d.StandsIn box id) {result : Except Fault Document}
    (hins : ∃ e, result = .ok e ∧ Inserted d e box xs id ys) :
    d.Rewires result box (xs ++ id :: ys) id (some box) := by
  obtain ⟨e, hok, hins⟩ := hins
  exact ⟨e, hok, (hins.linkedBy h.linkedBy hrow hfree hroot hcircle).wellLinked,
    hins.relinked.size, by rw [hins.parent, if_pos rfl],
    hins.rewired h hrow hbox hfree (fun _ hb => hb) (fun _ => rfl) fun _ _ => rfl⟩

/-- A detached item is linked before or after another one that it does not hold. -/
theorem rewires_link (h : d.WellLinked) (hlinked : d.isLinked anchor = true) (hanchor : anchor ≠ root)
    (hid : id < d.items.size) (hroot : id ≠ root) (hdetached : d.isLinked id = false)
    (haround : ¬ d.Within anchor id) :
    ∃ box xs ys, d.parent? anchor = some box ∧ d.children box = xs ++ anchor :: ys ∧
      d.Rewires (d.linkBefore anchor id) box (xs ++ id :: anchor :: ys) id (some box) ∧
      d.Rewires (d.linkAfter anchor id) box (xs ++ anchor :: id :: ys) id (some box) := by
  obtain ⟨box, xs, ys, hparent, hrow⟩ := h.exists_row hlinked hanchor
  have hbox := h.lt_size_of_parent hparent
  have hfree : d.parent? id = none := by
    by_contra hsome
    obtain ⟨b, hb⟩ := Option.ne_none_iff_exists'.1 hsome
    simp [isLinked_iff.2 (Or.inr ⟨b, hb⟩)] at hdetached
  have hcircle : ¬ Relation.ReflTransGen d.StandsIn box id :=
    fun hup => haround (.head' hparent hup)
  have hlinkedRow : d.LinkedRow box (xs ++ anchor :: ys) := hrow ▸ h.row box
  refine ⟨box, xs, ys, hparent, hrow, ?_, ?_⟩
  · exact h.rewires_of_inserted hrow hbox hroot hfree hcircle
      (hlinkedRow.linkBefore_inserted hid hfree)
  · rw [List.append_cons]
    exact h.rewires_of_inserted (hrow.trans (List.append_cons xs anchor ys)) hbox hroot hfree
      hcircle (hlinkedRow.linkAfter_inserted hid hfree)

/-- An item that stands in a box is taken out of it. -/
theorem rewires_delete (h : d.WellLinked) (hlinked : d.isLinked id = true) (hroot : id ≠ root) :
    ∃ box xs ys, d.parent? id = some box ∧ d.children box = xs ++ id :: ys ∧
      d.Rewires (d.delete id) box (xs ++ ys) id none := by
  obtain ⟨box, xs, ys, hparent, hrow⟩ := h.exists_row hlinked hroot
  obtain ⟨e, hok, hrem⟩ := (hrow ▸ h.row box).delete_removed
  exact ⟨box, xs, ys, hparent, hrow, e, hok, (hrem.linkedBy h.linkedBy hrow).wellLinked,
    hrem.relinked.size, by rw [hrem.parent, if_pos rfl], hrem.rewired h hrow⟩

/-- Adding an item next to another one and unlinking it again changes nothing. -/
theorem restores_beside (h : d.WellLinked) (hlinked : d.isLinked anchor = true)
    (hroot : anchor ≠ root) (kind : ItemKind) :
    d.Restores (d.prepend anchor kind) ∧ d.Restores (d.append anchor kind) := by
  obtain ⟨box, xs, ys, hparent, hrow⟩ := h.exists_row hlinked hroot
  have hbox := h.lt_size_of_parent hparent
  have hlinkedRow : d.LinkedRow box (xs ++ anchor :: ys) := hrow ▸ h.row box
  constructor
  · obtain ⟨e, hok, hins⟩ := hlinkedRow.prepend_inserted
    obtain ⟨f, hdelete, hsame⟩ := hlinkedRow.restored hbox hins
    exact ⟨e, f, hok, hdelete, hsame⟩
  · obtain ⟨e, hok, hins⟩ := hlinkedRow.append_inserted
    rw [List.append_cons] at hlinkedRow
    obtain ⟨f, hdelete, hsame⟩ := hlinkedRow.restored hbox hins
    exact ⟨e, f, hok, hdelete, hsame⟩

/-- A document with a new item is well linked unless the item names a first item of its own. -/
theorem wellLinked_iff_headless (h : d.WellLinked) (hbox : d.isBox box = true)
    (hrow : d.children box = xs ++ ys)
    (hins : Inserted (d.alloc kind).2 e box xs d.items.size ys) :
    e.WellLinked ↔ kind.headless = kind := by
  rw [ItemKind.headless_eq_self_iff]
  refine ⟨fun he data hdata => ?_, fun hkind => (h.of_inserted hkind hbox hrow hins).1⟩
  have hne : d.items.size ≠ box := Nat.ne_of_gt (lt_size_of_isBox hbox)
  have hhead : e.head? d.items.size = data.head := by
    rw [head?, box?, kind?_new hbox hins, hdata]
    rfl
  -- a first item would have to stand in the new box, where nothing stands yet
  by_contra hsome
  obtain ⟨first, hfirst⟩ := Option.ne_none_iff_exists'.1 hsome
  rw [he.linkedBy.head, hfirst] at hhead
  have hparent := he.mem_children_iff.1 (List.mem_of_head? hhead)
  rw [hins.parent] at hparent
  split at hparent
  · exact hne (Option.some.inj hparent).symm
  · rw [parent?_alloc, ← h.mem_children_iff] at hparent
    exact Nat.lt_irrefl _ (lt_size_of_isBox (h.linkedBy.isBox_of_mem hparent))

/-- An item of any kind is added at the end of a box. -/
theorem pushChild_rewired (h : d.WellLinked) (hbox : d.isBox box = true) (kind : ItemKind) :
    ∃ e, d.pushChild box kind = .ok (d.items.size, e) ∧
      (e.WellLinked ↔ kind.headless = kind) ∧ e.items.size = d.items.size + 1 ∧
      e.parent? d.items.size = some box ∧ e.kind? d.items.size = some kind ∧
      Rewired d e box (d.children box ++ [d.items.size]) d.items.size := by
  obtain ⟨e, hok, hins⟩ := (h.row box).pushChild_inserted hbox
  have hrow : d.children box = d.children box ++ [] := (List.append_nil _).symm
  refine ⟨e, hok, h.wellLinked_iff_headless hbox hrow hins, ?_, ?_, kind?_new hbox hins, ?_⟩
  · rw [hins.relinked.size, size_alloc]
  · rw [hins.parent, if_pos rfl]
  · exact hins.rewired h hrow (lt_size_of_isBox hbox) (by simp [parent?_eq_none])
      (fun hb hlinked => hlinked.alloc hb kind) (parent?_alloc d kind)
      fun j hj => content?_alloc d kind hj

/-- The operations on a well-linked document are those on an ordered tree.  Linking an item next to
another one, adding one at the end of a box and unlinking one change the row of one box and leave the
other rows, the boxes around the other items and the contents of all items as they are; and unlinking
an item that has just been added next to another one leaves all earlier items exactly as they were. -/
theorem tree_operations (h : d.WellLinked) :
    (∀ anchor id, d.isLinked anchor = true → anchor ≠ root → id < d.items.size → id ≠ root →
      d.isLinked id = false → ¬ d.Within anchor id →
      ∃ box xs ys, d.parent? anchor = some box ∧ d.children box = xs ++ anchor :: ys ∧
        d.Rewires (d.linkBefore anchor id) box (xs ++ id :: anchor :: ys) id (some box) ∧
        d.Rewires (d.linkAfter anchor id) box (xs ++ anchor :: id :: ys) id (some box)) ∧
    (∀ box kind, d.isBox box = true → ∃ e, d.pushChild box kind = .ok (d.items.size, e) ∧
      (e.WellLinked ↔ kind.headless = kind) ∧ e.items.size = d.items.size + 1 ∧
      e.parent? d.items.size = some box ∧ e.kind? d.items.size = some kind ∧
      Rewired d e box (d.children box ++ [d.items.size]) d.items.size) ∧
    (∀ id, d.isLinked id = true → id ≠ root →
      ∃ box xs ys, d.parent? id = some box ∧ d.children box = xs ++ id :: ys ∧
        d.Rewires (d.delete id) box (xs ++ ys) id none) ∧
    ∀ anchor kind, d.isLinked anchor = true → anchor ≠ root →
      d.Restores (d.prepend anchor kind) ∧ d.Restores (d.append anchor kind) := by
  refine ⟨?link, ?push, ?unlink, ?undo⟩
  case link => exact fun anchor id => h.rewires_link
  case push => exact fun box kind hbox => h.pushChild_rewired hbox kind
  case unlink => exact fun id => h.rewires_delete
  case undo => exact fun anchor kind hlinked hroot => h.restores_beside hlinked hroot kind

/-- An empty box that stands nowhere yet is linked between the two lines of a new document. -/
theorem tree_operations_start :
    let d := ((start [] .bottom {}).alloc (.box {})).2
    d.WellLinked ∧ d.children root = [1, 2] ∧
      ∃ e, d.linkBefore 2 3 = .ok e ∧ e.WellLinked ∧ e.children root = [1, 3, 2] := by
  intro d
  have h : d.WellLinked := ((start_linkedBy [] .bottom {}).wellLinked.alloc (by simp)).1
  have hrow : d.children root = [1, 2] := by decide
  have haround : ¬ d.Within 2 3 := fun hin => by
    have hmem := h.mem_ancestors_iff.2 hin
    revert hmem
    decide
  obtain ⟨box, xs, ys, hparent, hsplit, ⟨e, hok, hlinked, -, -, hrewired⟩, -⟩ :=
    h.tree_operations.1 2 3 (by decide) (by decide) (by decide) (by decide) (by decide) haround
  have hbox : d.parent? 2 = some root := rfl
  obtain rfl := Option.some.inj (hbox.symm.trans hparent)
  have hsplit' : [1] ++ 2 :: [] = xs ++ 2 :: ys := hrow.symm.trans hsplit
  obtain ⟨rfl, rfl⟩ := eq_of_append_cons_eq (by decide) (by decide) hsplit'
  exact ⟨h, hrow, e, hok, hlinked, hrewired.row⟩

end WellLinked

end NaturalDeduction.Document
