import NaturalDeduction.Proofs.Document.Items
import Mathlib.Data.List.Nodup
import Mathlib.Data.List.Perm.Subperm
import Mathlib.Logic.Relation

/-!
# Links that describe boxes

The links of a document are redundant: an item is reached from the head of its box, from its two
neighbours, and it names its box itself.  `LinkedRow d box row` says that all of them describe the
same items in one box, and `children` then reads this list back (`children_eq`).  `LinkedBy d kids`
says so of all boxes, whose items `kids` lists, and a document is well linked when it is linked by its
own `children`.

An insertion and a removal of one item are described by their effect on the links (`Inserted`,
`Removed`), and each keeps the links in step with the list of the box.  The operations that link and
unlink items are insertions and removals, for which only the row they change has to be linked; each
comes with a theorem that it succeeds and what it does to `children`.
-/

set_option autoImplicit false

namespace NaturalDeduction.Document

variable {d e : Document} {kids : ItemId → List ItemId} {box id anchor : ItemId}
  {xs ys : List ItemId}

/-! ### Documents that hold the same items -/

/-- Two documents hold the same items, apart from links and numbers. -/
structure SameItems (d e : Document) : Prop where
  core : ∀ j, e.core? j = d.core? j
  size : e.items.size = d.items.size
  signature : e.signature = d.signature

/-- Two documents hold the same items, apart from links. -/
structure Relinked (d e : Document) : Prop where
  content : ∀ j, e.content? j = d.content? j
  size : e.items.size = d.items.size
  signature : e.signature = d.signature

/-- New links leave the items the same. -/
theorem Relinked.same (h : Relinked d e) : SameItems d e where
  core j := by rw [core?_eq_content?, core?_eq_content?, h.content]
  size := h.size
  signature := h.signature

/-- One document holds the items of another and a new one at the end of the table. -/
structure Added (d e : Document) (kind : ItemKind) : Prop where
  core : ∀ j, e.core? j = if j = d.items.size then some kind.core else d.core? j
  size : e.items.size = d.items.size + 1
  signature : e.signature = d.signature

/-! ### Links in step with the lists of the boxes -/

/-- An item stands directly in a box. -/
def StandsIn (d : Document) (id box : ItemId) : Prop := d.parent? id = some box

/-- The links of a box and of its items describe a row of items. -/
structure LinkedRow (d : Document) (box : ItemId) (row : List ItemId) : Prop where
  head : d.head? box = row.head?
  nodup : row.Nodup
  place : ∀ {id xs ys}, row = xs ++ id :: ys →
    d.parent? id = some box ∧ d.prev? id = xs.getLast? ∧ d.next? id = ys.head?

namespace LinkedRow

variable {row : List ItemId}

/-- All items of a row have its box as their parent. -/
theorem parent? (h : d.LinkedRow box row) (hmem : id ∈ row) : d.parent? id = some box := by
  obtain ⟨xs, ys, hsplit⟩ := List.append_of_mem hmem
  exact (h.place hsplit).1

/-- All items of a row are items of the document. -/
theorem lt_size (h : d.LinkedRow box row) (hmem : id ∈ row) : id < d.items.size :=
  lt_size_of_parent? (h.parent? hmem)

/-- Only boxes have items. -/
theorem isBox_of_mem (h : d.LinkedRow box row) (hmem : id ∈ row) : d.isBox box = true := by
  by_contra hbox
  have hhead := h.head
  rw [head?_eq_none (Bool.eq_false_iff.2 hbox)] at hhead
  rw [List.head?_eq_none_iff.1 hhead.symm] at hmem
  exact List.not_mem_nil hmem

/-- A box is shorter than the table. -/
theorem length_le (h : d.LinkedRow box row) : row.length ≤ d.items.size := by
  have hsub : row ⊆ List.range d.items.size := fun id hmem => List.mem_range.2 (h.lt_size hmem)
  simpa using (List.subperm_of_subset h.nodup hsub).length_le

/-- Following the links from a place in the row lists the rest of the row, with enough fuel. -/
theorem chainFrom_eq (h : d.LinkedRow box row) {ys : List ItemId} :
    ∀ {n : Nat} {xs : List ItemId}, row = xs ++ ys → ys.length ≤ n →
      d.chainFrom n ys.head? = ys := by
  induction ys with
  | nil => intro n xs _ _; cases n <;> rfl
  | cons id ys ih =>
    intro n xs hrow hlen
    obtain ⟨m, rfl⟩ : ∃ m, n = m + 1 := Nat.exists_eq_succ_of_ne_zero (by rintro rfl; simp at hlen)
    have hnext : d.next? id = ys.head? := (h.place hrow).2.2
    have hrest : row = (xs ++ [id]) ++ ys := by simpa using hrow
    simp only [List.head?_cons, chainFrom, hnext]
    rw [ih hrest (by simpa using hlen)]

/-- The items of a box, read along its links, are those of its row. -/
theorem children_eq (h : d.LinkedRow box row) : d.children box = row := by
  have hchain : d.chainFrom d.items.size row.head? = row :=
    h.chainFrom_eq (List.nil_append _).symm h.length_le
  rw [← h.head] at hchain
  exact hchain

/-- Documents that agree in the links of a box and of its items have the same row there. -/
theorem of_eq (h : d.LinkedRow box row) (hhead : e.head? box = d.head? box)
    (hplace : ∀ id ∈ row,
      e.parent? id = d.parent? id ∧ e.prev? id = d.prev? id ∧ e.next? id = d.next? id) :
    e.LinkedRow box row where
  head := hhead.trans h.head
  nodup := h.nodup
  place {id xs ys} hsplit := by
    obtain ⟨hparent, hprev, hnext⟩ := hplace id (by simp [hsplit])
    rw [hparent, hprev, hnext]
    exact h.place hsplit

end LinkedRow

/-- The links describe the boxes whose items are listed by `kids`. -/
structure LinkedBy (d : Document) (kids : ItemId → List ItemId) : Prop where
  root_box : d.isBox root = true
  root_free : d.parent? root = none
  head : ∀ box, d.head? box = (kids box).head?
  nodup : ∀ box, (kids box).Nodup
  place : ∀ {box id xs ys}, kids box = xs ++ id :: ys →
    d.parent? id = some box ∧ d.prev? id = xs.getLast? ∧ d.next? id = ys.head?
  listed : ∀ {id box}, d.parent? id = some box → id ∈ kids box
  free : ∀ {id}, d.parent? id = none → d.prev? id = none ∧ d.next? id = none
  grounded : ∀ id, Acc (fun box inner => d.StandsIn inner box) id

namespace LinkedBy

/-- The links of a box describe its row. -/
theorem row (h : d.LinkedBy kids) (box : ItemId) : d.LinkedRow box (kids box) :=
  ⟨h.head box, h.nodup box, h.place⟩

/-- The parent of an item is the box whose row it is in. -/
theorem parent?_eq_some_iff (h : d.LinkedBy kids) : d.parent? id = some box ↔ id ∈ kids box :=
  ⟨h.listed, (h.row box).parent?⟩

/-- What is in a row is an item of the document. -/
theorem lt_size (h : d.LinkedBy kids) (hmem : id ∈ kids box) : id < d.items.size :=
  (h.row box).lt_size hmem

/-- Only boxes have items. -/
theorem isBox_of_mem (h : d.LinkedBy kids) (hmem : id ∈ kids box) : d.isBox box = true :=
  (h.row box).isBox_of_mem hmem

/-- No link leads out of the table. -/
theorem link_lt_size (h : d.LinkedBy kids) {link : ItemId} (hlink : d.parent? id = some link ∨
      d.prev? id = some link ∨ d.next? id = some link ∨ d.head? id = some link) :
    link < d.items.size := by
  have hbeside : d.prev? id = some link ∨ d.next? id = some link → ∃ box, link ∈ kids box := by
    intro hlink
    cases hid : d.parent? id with
    | none =>
      obtain ⟨hprev, hnext⟩ := h.free hid
      simp [hprev, hnext] at hlink
    | some box =>
      obtain ⟨xs, ys, hsplit⟩ := List.append_of_mem (h.listed hid)
      obtain ⟨-, hprev, hnext⟩ := h.place hsplit
      refine ⟨box, hsplit ▸ ?_⟩
      rcases hlink with hlink | hlink
      · exact List.mem_append_left _ (List.mem_of_getLast? (hprev.symm.trans hlink))
      · exact List.mem_append_right _
          (List.mem_cons_of_mem id (List.mem_of_head? (hnext.symm.trans hlink)))
  rcases hlink with hparent | hprev | hnext | hhead
  · exact lt_size_of_isBox (h.isBox_of_mem (h.listed hparent))
  · obtain ⟨box, hmem⟩ := hbeside (Or.inl hprev)
    exact h.lt_size hmem
  · obtain ⟨box, hmem⟩ := hbeside (Or.inr hnext)
    exact h.lt_size hmem
  · exact h.lt_size (List.mem_of_head? ((h.head id).symm.trans hhead))

/-- An item stands in one box only. -/
theorem box_unique (h : d.LinkedBy kids) {b c : ItemId} (hb : id ∈ kids b) (hc : id ∈ kids c) :
    b = c := by
  rw [← h.parent?_eq_some_iff] at hb hc
  exact Option.some.inj (hb.symm.trans hc)

/-- The rows that the links describe are the items that are found by following them. -/
theorem children_eq (h : d.LinkedBy kids) : d.children = kids :=
  funext fun box => (h.row box).children_eq

end LinkedBy

/-- The links of a document are in step with each other. -/
def WellLinked (d : Document) : Prop := d.LinkedBy d.children

/-- Links that describe some boxes are good. -/
theorem LinkedBy.wellLinked (h : d.LinkedBy kids) : d.WellLinked := by
  rw [WellLinked, h.children_eq]
  exact h

/-- Good links describe the items that are found by following them. -/
theorem WellLinked.linkedBy (h : d.WellLinked) : d.LinkedBy d.children := h

/-- Good links describe the row of every box. -/
theorem WellLinked.row (h : d.WellLinked) (box : ItemId) : d.LinkedRow box (d.children box) :=
  h.linkedBy.row box

/-- Documents that agree in their items and links are linked alike. -/
theorem LinkedBy.of_eq (h : d.LinkedBy kids) (hbox : ∀ j, e.isBox j = d.isBox j)
    (hparent : ∀ j, e.parent? j = d.parent? j) (hprev : ∀ j, e.prev? j = d.prev? j)
    (hnext : ∀ j, e.next? j = d.next? j) (hhead : ∀ j, e.head? j = d.head? j) :
    e.LinkedBy kids where
  root_box := by rw [hbox]; exact h.root_box
  root_free := by rw [hparent]; exact h.root_free
  head box := by rw [hhead]; exact h.head box
  nodup := h.nodup
  place hkids := by rw [hparent, hprev, hnext]; exact h.place hkids
  listed hp := h.listed (by rw [← hparent]; exact hp)
  free hp := by rw [hprev, hnext]; exact h.free (by rw [← hparent]; exact hp)
  grounded id := by
    have hrel : (fun box inner => e.StandsIn inner box) = fun box inner => d.StandsIn inner box := by
      funext box inner
      simp only [StandsIn, hparent]
    rw [hrel]
    exact h.grounded id

/-- Documents with the same rows and the same contents are equal. -/
theorem LinkedBy.eq_of_content? (hd : d.LinkedBy kids) (he : e.LinkedBy kids)
    (hcontent : ∀ id, e.content? id = d.content? id) (hsignature : e.signature = d.signature) :
    e = d := by
  have hparent : ∀ id, e.parent? id = d.parent? id := fun id => Option.ext fun box => by
    rw [hd.parent?_eq_some_iff, he.parent?_eq_some_iff]
  have hlinks : ∀ id, e.prev? id = d.prev? id ∧ e.next? id = d.next? id := by
    intro id
    cases hid : d.parent? id with
    | none =>
      obtain ⟨hprev, hnext⟩ := hd.free hid
      obtain ⟨hprev', hnext'⟩ := he.free ((hparent id).trans hid)
      exact ⟨hprev'.trans hprev.symm, hnext'.trans hnext.symm⟩
    | some box =>
      obtain ⟨xs, ys, hsplit⟩ := List.append_of_mem (hd.listed hid)
      obtain ⟨-, hprev, hnext⟩ := hd.place hsplit
      obtain ⟨-, hprev', hnext'⟩ := he.place hsplit
      exact ⟨hprev'.trans hprev.symm, hnext'.trans hnext.symm⟩
  have hitems : e.items = d.items := Array.ext_getElem? fun id =>
    getElem?_eq_of_links (hparent id) (hlinks id).1 (hlinks id).2
      ((he.head id).trans (hd.head id).symm) (hcontent id)
  obtain ⟨items, signature⟩ := d
  obtain ⟨items', signature'⟩ := e
  obtain rfl : items' = items := hitems
  obtain rfl : signature' = signature := hsignature
  rfl

/-! ### Neighbours in a list -/

/-- A list is split at an item in one way only, if the item occurs once. -/
theorem eq_of_append_cons_eq {us vs : List ItemId} (hxs : id ∉ xs) (hys : id ∉ ys)
    (h : xs ++ id :: ys = us ++ id :: vs) : us = xs ∧ vs = ys := by
  rw [List.append_eq_append_iff] at h
  obtain ⟨ws, hus, hws⟩ | ⟨ws, hxs', hws⟩ := h
  · cases ws with
    | nil => simp_all
    | cons w ws =>
      obtain ⟨-, rfl⟩ := List.cons.inj hws
      simp at hys
  · cases ws with
    | nil => simp_all
    | cons w ws =>
      obtain ⟨rfl, -⟩ := List.cons.inj hws
      simp [hxs'] at hxs

/-- The neighbours of an item after another one has been put in. -/
theorem neighbours_of_insert {i : ItemId} {us vs : List ItemId} (hnodup : (xs ++ ys).Nodup)
    (hi : i ≠ id) (h : xs ++ id :: ys = us ++ i :: vs) :
    ∃ us' vs', xs ++ ys = us' ++ i :: vs' ∧
      us.getLast? = (if ys.head? = some i then some id else us'.getLast?) ∧
      vs.head? = (if xs.getLast? = some i then some id else vs'.head?) := by
  rw [List.append_eq_append_iff] at h
  obtain ⟨ws, rfl, hws⟩ | ⟨ws, rfl, hws⟩ := h
  · -- the item stands after the new one
    obtain ⟨rfl, hvs⟩ | ⟨zs, rfl, rfl⟩ := List.cons_eq_append_iff.1 hws
    · exact absurd (List.cons.inj hvs).1 hi
    have hlast : xs.getLast? ≠ some i := by
      intro he
      have hmem := List.mem_of_getLast? he
      exact (List.disjoint_of_nodup_append hnodup) hmem (by simp)
    refine ⟨xs ++ zs, vs, by simp, ?_, by rw [if_neg hlast]⟩
    cases zs with
    | nil => simp
    | cons z zs =>
      have hz : z ≠ i := by
        rintro rfl
        simp [List.nodup_append] at hnodup
      simp [hz]
  · -- the item stands before the new one
    cases ws with
    | nil => exact absurd (List.cons.inj hws).1 hi
    | cons w ws =>
      obtain ⟨rfl, rfl⟩ := List.cons.inj hws
      have hhead : ys.head? ≠ some i := by
        intro he
        exact (List.disjoint_of_nodup_append hnodup) (by simp) (List.mem_of_head? he)
      refine ⟨us, ws ++ ys, by simp, by rw [if_neg hhead], ?_⟩
      rcases List.eq_nil_or_concat ws with rfl | ⟨zs, z, rfl⟩
      · simp
      · have hz : z ≠ i := by
          rintro rfl
          simp [List.nodup_append] at hnodup
        simp [hz, List.getLast?_cons]

/-- The neighbours of an item after another one has been taken out. -/
theorem neighbours_of_remove {i : ItemId} {us vs : List ItemId} (hnodup : (xs ++ ys).Nodup)
    (h : xs ++ ys = us ++ i :: vs) :
    ∃ us' vs', xs ++ id :: ys = us' ++ i :: vs' ∧
      us.getLast? = (if ys.head? = some i then xs.getLast? else us'.getLast?) ∧
      vs.head? = (if xs.getLast? = some i then ys.head? else vs'.head?) := by
  have hdisj := List.disjoint_of_nodup_append hnodup
  rw [List.append_eq_append_iff] at h
  obtain ⟨zs, rfl, rfl⟩ | ⟨ws, rfl, hws⟩ := h
  · -- the item stands after the one taken out
    have hlast : xs.getLast? ≠ some i :=
      fun he => hdisj (List.mem_of_getLast? he) (by simp)
    refine ⟨xs ++ id :: zs, vs, by simp, ?_, by rw [if_neg hlast]⟩
    cases zs with
    | nil => simp
    | cons z zs =>
      have hz : z ≠ i := by
        rintro rfl
        simp [List.nodup_append] at hnodup
      simp [hz]
  · cases ws with
    | nil =>
      -- the item comes right after
      obtain rfl : ys = i :: vs := by simpa using hws.symm
      have hlast : us.getLast? ≠ some i :=
        fun he => hdisj (by simpa using List.mem_of_getLast? he) (by simp)
      exact ⟨us ++ [id], vs, by simp, by simp, by simp [hlast]⟩
    | cons w ws =>
      obtain ⟨rfl, rfl⟩ := List.cons.inj hws
      have hhead : ys.head? ≠ some i :=
        fun he => hdisj (by simp) (List.mem_of_head? he)
      refine ⟨us, ws ++ id :: ys, by simp, by rw [if_neg hhead], ?_⟩
      rcases List.eq_nil_or_concat ws with rfl | ⟨zs, z, rfl⟩
      · simp
      · have hz : z ≠ i := by
          rintro rfl
          simp [List.nodup_append] at hnodup
        simp [hz, List.getLast?_cons]

/-! ### Linking an item -/

/-- The second document is the first with `id` linked into the box between `xs` and `ys`. -/
structure Inserted (d e : Document) (box : ItemId) (xs : List ItemId) (id : ItemId)
    (ys : List ItemId) : Prop where
  parent : ∀ j, e.parent? j = if j = id then some box else d.parent? j
  prev : ∀ j, e.prev? j =
    if j = id then xs.getLast? else if ys.head? = some j then some id else d.prev? j
  next : ∀ j, e.next? j =
    if j = id then ys.head? else if xs.getLast? = some j then some id else d.next? j
  head : ∀ j, e.head? j = if j = box ∧ xs = [] then some id else d.head? j
  relinked : Relinked d e

namespace Inserted

/-- Linking an item to a box that does not stand inside it makes no circle. -/
theorem acc (hins : Inserted d e box xs id ys)
    (hacc : ∀ j, Acc (fun box inner => d.StandsIn inner box) j)
    (hcircle : ¬ Relation.ReflTransGen d.StandsIn box id) (j : ItemId) :
    Acc (fun box inner => e.StandsIn inner box) j := by
  have hstep : ∀ {i b}, i ≠ id → (e.StandsIn i b ↔ d.StandsIn i b) := by
    intro i b hi
    rw [StandsIn, StandsIn, hins.parent, if_neg hi]
  -- above the box nothing has changed
  have habove : ∀ i, ¬ Relation.ReflTransGen d.StandsIn i id →
      Acc (fun box inner => e.StandsIn inner box) i := by
    intro i
    induction hacc i with
    | intro i _ ih =>
      intro hi
      have hne : i ≠ id := fun he => hi (he ▸ .refl)
      refine Acc.intro i fun b hb => ?_
      have hb' : d.StandsIn i b := (hstep hne).1 hb
      exact ih b hb' fun hup => hi (.head hb' hup)
  have hid : Acc (fun box inner => e.StandsIn inner box) id := by
    refine Acc.intro id fun b hb => ?_
    have hbox : b = box := by
      simp only [StandsIn, hins.parent, if_true] at hb
      exact (Option.some.inj hb).symm
    exact hbox ▸ habove box hcircle
  induction hacc j with
  | intro i _ ih =>
    by_cases hi : i = id
    · exact hi ▸ hid
    · exact Acc.intro i fun b hb => ih b ((hstep hi).1 hb)

/-- An insertion puts the item into its row. -/
theorem linkedRow (hins : Inserted d e box xs id ys) (h : d.LinkedRow box (xs ++ ys))
    (hnew : id ∉ xs ++ ys) : e.LinkedRow box (xs ++ id :: ys) where
  head := by
    rw [hins.head, h.head]
    cases xs <;> simp
  nodup := List.nodup_middle.2 (List.nodup_cons.2 ⟨hnew, h.nodup⟩)
  place {i us vs} hsplit := by
    by_cases hi : i = id
    · subst hi
      obtain ⟨rfl, rfl⟩ := eq_of_append_cons_eq (fun hmem => hnew (List.mem_append_left ys hmem))
        (fun hmem => hnew (List.mem_append_right xs hmem)) hsplit
      simp [hins.parent, hins.prev, hins.next]
    · obtain ⟨us', vs', hsplit', hlast, hhead⟩ := neighbours_of_insert h.nodup hi hsplit
      rw [hins.parent, hins.prev, hins.next, if_neg hi, if_neg hi, if_neg hi, hlast, hhead]
      obtain ⟨hp, hprev, hnext⟩ := h.place hsplit'
      exact ⟨hp, by rw [hprev], by rw [hnext]⟩

/-- An insertion leaves an item alone that stands in another box or in none. -/
theorem links_of_not_mem (hins : Inserted d e box xs id ys) {j : ItemId} (hj : j ∉ xs ++ id :: ys) :
    e.parent? j = d.parent? j ∧ e.prev? j = d.prev? j ∧ e.next? j = d.next? j := by
  obtain ⟨hxs, hne, hys⟩ : j ∉ xs ∧ j ≠ id ∧ j ∉ ys := by simpa [not_or] using hj
  rw [hins.parent, hins.prev, hins.next, if_neg hne, if_neg hne, if_neg hne,
    if_neg fun he => hys (List.mem_of_head? he), if_neg fun he => hxs (List.mem_of_getLast? he)]
  exact ⟨rfl, rfl, rfl⟩

/-- An insertion keeps the rows of the other boxes. -/
theorem linkedRow_of_ne (hins : Inserted d e box xs id ys) (hbox : d.LinkedRow box (xs ++ ys))
    (hfree : d.parent? id = none) {b : ItemId} {row : List ItemId} (h : d.LinkedRow b row)
    (hb : b ≠ box) : e.LinkedRow b row := by
  refine h.of_eq (by simp [hins.head, hb]) fun j hj => hins.links_of_not_mem fun hmem => ?_
  -- an item of another box is neither the new one nor beside it
  have hparent := h.parent? hj
  rcases List.perm_middle.mem_iff.1 hmem with _ | ⟨_, hmem⟩
  · simp [hfree] at hparent
  · exact hb (Option.some.inj (hparent.symm.trans (hbox.parent? hmem)))

/-- An insertion keeps the links in step. -/
theorem linkedBy (hins : Inserted d e box xs id ys) (h : d.LinkedBy kids)
    (hkids : kids box = xs ++ ys) (hfree : d.parent? id = none) (hroot : id ≠ root)
    (hcircle : ¬ Relation.ReflTransGen d.StandsIn box id) :
    e.LinkedBy (Function.update kids box (xs ++ id :: ys)) := by
  have hbox : d.LinkedRow box (xs ++ ys) := hkids ▸ h.row box
  have hnew : id ∉ xs ++ ys := fun hmem => by simp [hbox.parent? hmem] at hfree
  -- each row can be checked on its own; only the order of boxes needs all of them
  have hrow : ∀ b, e.LinkedRow b (Function.update kids box (xs ++ id :: ys) b) := by
    intro b
    by_cases hb : b = box
    · subst hb
      rw [Function.update_self]
      exact hins.linkedRow hbox hnew
    · rw [Function.update_of_ne hb]
      exact hins.linkedRow_of_ne hbox hfree (h.row b) hb
  constructor
  case root_box => rw [isBox_congr (hins.relinked.same.core root)]; exact h.root_box
  case root_free => rw [hins.parent, if_neg hroot.symm]; exact h.root_free
  case head => exact fun b => (hrow b).head
  case nodup => exact fun b => (hrow b).nodup
  case place => exact fun {b} _ _ _ => (hrow b).place
  case listed =>
    intro i b hp
    rw [hins.parent] at hp
    by_cases hi : i = id
    · rw [if_pos hi] at hp
      obtain rfl := Option.some.inj hp
      simp [hi]
    · rw [if_neg hi] at hp
      have hmem := h.listed hp
      by_cases hb : b = box
      · subst hb
        rw [hkids] at hmem
        rw [Function.update_self]
        simp only [List.mem_append, List.mem_cons] at hmem ⊢
        tauto
      · rw [Function.update_of_ne hb]
        exact hmem
  case free =>
    intro i hp
    have hi : i ∉ xs ++ id :: ys := by
      intro hmem
      have hi := (hins.linkedRow hbox hnew).parent? hmem
      simp [hi] at hp
    obtain ⟨hparent, hprev, hnext⟩ := hins.links_of_not_mem hi
    rw [hprev, hnext]
    exact h.free (hparent ▸ hp)
  case grounded => exact hins.acc h.grounded hcircle

end Inserted

/-! ### Unlinking an item -/

/-- The second document is the first with `id` taken out of the box, from between `xs` and `ys`. -/
structure Removed (d e : Document) (box : ItemId) (xs : List ItemId) (id : ItemId)
    (ys : List ItemId) : Prop where
  parent : ∀ j, e.parent? j = if j = id then none else d.parent? j
  prev : ∀ j, e.prev? j =
    if j = id then none else if ys.head? = some j then xs.getLast? else d.prev? j
  next : ∀ j, e.next? j =
    if j = id then none else if xs.getLast? = some j then ys.head? else d.next? j
  head : ∀ j, e.head? j = if j = box ∧ xs = [] then ys.head? else d.head? j
  relinked : Relinked d e

namespace Removed

/-- A removal takes the item out of its row. -/
theorem linkedRow (hrem : Removed d e box xs id ys) (h : d.LinkedRow box (xs ++ id :: ys)) :
    e.LinkedRow box (xs ++ ys) := by
  obtain ⟨hout, hnodup⟩ := List.nodup_cons.1 (List.nodup_middle.1 h.nodup)
  refine ⟨?_, hnodup, fun {i us vs} hsplit => ?_⟩
  · rw [hrem.head, h.head]
    cases xs <;> simp
  · have hi : i ≠ id := fun he => hout (by rw [hsplit, ← he]; simp)
    obtain ⟨us', vs', hsplit', hlast, hhead⟩ := neighbours_of_remove hnodup hsplit
    obtain ⟨hp, hprev, hnext⟩ := h.place hsplit'
    rw [hrem.parent, hrem.prev, hrem.next, if_neg hi, if_neg hi, if_neg hi, hlast, hhead]
    exact ⟨hp, by rw [hprev], by rw [hnext]⟩

/-- A removal leaves an item alone that stands in another box or in none. -/
theorem links_of_not_mem (hrem : Removed d e box xs id ys) {j : ItemId} (hj : j ∉ xs ++ id :: ys) :
    e.parent? j = d.parent? j ∧ e.prev? j = d.prev? j ∧ e.next? j = d.next? j := by
  obtain ⟨hxs, hne, hys⟩ : j ∉ xs ∧ j ≠ id ∧ j ∉ ys := by simpa [not_or] using hj
  rw [hrem.parent, hrem.prev, hrem.next, if_neg hne, if_neg hne, if_neg hne,
    if_neg fun he => hys (List.mem_of_head? he), if_neg fun he => hxs (List.mem_of_getLast? he)]
  exact ⟨rfl, rfl, rfl⟩

/-- A removal keeps the rows of the other boxes. -/
theorem linkedRow_of_ne (hrem : Removed d e box xs id ys)
    (hbox : d.LinkedRow box (xs ++ id :: ys)) {b : ItemId} {row : List ItemId}
    (h : d.LinkedRow b row) (hb : b ≠ box) : e.LinkedRow b row := by
  refine h.of_eq (by simp [hrem.head, hb]) fun j hj => hrem.links_of_not_mem fun hmem => ?_
  exact hb (Option.some.inj ((h.parent? hj).symm.trans (hbox.parent? hmem)))

/-- A removal keeps the links in step. -/
theorem linkedBy (hrem : Removed d e box xs id ys) (h : d.LinkedBy kids)
    (hkids : kids box = xs ++ id :: ys) :
    e.LinkedBy (Function.update kids box (xs ++ ys)) := by
  have hbox : d.LinkedRow box (xs ++ id :: ys) := hkids ▸ h.row box
  have hrow : ∀ b, e.LinkedRow b (Function.update kids box (xs ++ ys) b) := by
    intro b
    by_cases hb : b = box
    · subst hb
      rw [Function.update_self]
      exact hrem.linkedRow hbox
    · rw [Function.update_of_ne hb]
      exact hrem.linkedRow_of_ne hbox (h.row b) hb
  constructor
  case root_box => rw [isBox_congr (hrem.relinked.same.core root)]; exact h.root_box
  case root_free =>
    rw [hrem.parent]
    split
    · rfl
    · exact h.root_free
  case head => exact fun b => (hrow b).head
  case nodup => exact fun b => (hrow b).nodup
  case place => exact fun {b} _ _ _ => (hrow b).place
  case listed =>
    intro i b hp
    rw [hrem.parent] at hp
    have hi : i ≠ id := by rintro rfl; simp at hp
    rw [if_neg hi] at hp
    have hib := h.listed hp
    by_cases hb : b = box
    · subst hb
      rw [Function.update_self]
      simp only [hkids, List.mem_append, List.mem_cons] at hib ⊢
      tauto
    · rw [Function.update_of_ne hb]
      exact hib
  case free =>
    intro i hp
    by_cases hi : i = id
    · simp [hrem.prev, hrem.next, hi]
    · rw [hrem.parent, if_neg hi] at hp
      have hnot : i ∉ xs ++ id :: ys := fun hmem => by simp [hbox.parent? hmem] at hp
      obtain ⟨-, hprev, hnext⟩ := hrem.links_of_not_mem hnot
      rw [hprev, hnext]
      exact h.free hp
  case grounded =>
    intro i
    -- no item has come under a box that it was not under
    refine Subrelation.accessible (fun {b j} hb => ?_) (h.grounded i)
    simp only [StandsIn, hrem.parent] at hb
    split at hb
    · exact absurd hb (by simp)
    · exact hb

end Removed

/-! ### The operations -/

/-- New links make no boxes. -/
@[simp] theorem isBox_relink (id : ItemId) (parent prev next : Option ItemId) (j : ItemId) :
    (d.relink id parent prev next).isBox j = d.isBox j :=
  isBox_congr (core?_relink d id parent prev next j)

/-- A new backward link makes no boxes. -/
@[simp] theorem isBox_setPrev (id : ItemId) (prev : Option ItemId) (j : ItemId) :
    (d.setPrev id prev).isBox j = d.isBox j :=
  isBox_congr (core?_setPrev d id prev j)

/-- Linking before an item writes to the new item, to the anchor and to what was before the
anchor. -/
theorem linkBefore_eq (hid : id < d.items.size) (hfree : d.parent? id = none)
    (hbox : d.parent? anchor = some box) : d.linkBefore anchor id =
      match d.prev? anchor with
      | some prev => .ok (((d.relink id (some box) (some prev) (some anchor)).setPrev anchor
          (some id)).setNext prev (some id))
      | none => ((d.relink id (some box) none (some anchor)).setPrev anchor (some id)).setHead box
          (some id) := by
  obtain ⟨item, hitem, -, hitemParent, -, -⟩ := item_eq_ok hid
  obtain ⟨place, hplace, -, hplaceParent, hplacePrev, -⟩ := item_eq_ok (lt_size_of_parent? hbox)
  simp only [linkBefore, hitem, hitemParent, hfree, hplace, hplaceParent, hbox, hplacePrev, bind,
    Except.bind, Option.isSome_none]
  cases d.prev? anchor <;> rfl

/-- Linking after an item writes to the new item, to the anchor and to what was after the anchor. -/
theorem linkAfter_eq (hid : id < d.items.size) (hfree : d.parent? id = none)
    (hbox : d.parent? anchor = some box) : d.linkAfter anchor id =
      .ok (match d.next? anchor with
        | some next => ((d.relink id (some box) (some anchor) (some next)).setNext anchor
            (some id)).setPrev next (some id)
        | none => (d.relink id (some box) (some anchor) none).setNext anchor (some id)) := by
  obtain ⟨item, hitem, -, hitemParent, -, -⟩ := item_eq_ok hid
  obtain ⟨place, hplace, -, hplaceParent, -, hplaceNext⟩ := item_eq_ok (lt_size_of_parent? hbox)
  simp only [linkAfter, hitem, hitemParent, hfree, hplace, hplaceParent, hbox, hplaceNext, bind,
    Except.bind, Option.isSome_none]
  cases d.next? anchor <;> rfl

/-- Unlinking an item writes to what is before it, to what is after it, and to the item. -/
theorem delete_eq (hbox : d.parent? id = some box) : d.delete id =
    (match d.prev? id with
      | some prev => Except.ok (d.setNext prev (d.next? id))
      | none => d.setHead box (d.next? id)).map fun (mid : Document) =>
        (match d.next? id with
          | some next => mid.setPrev next (d.prev? id)
          | none => mid).relink id none none none := by
  obtain ⟨item, hitem, -, hitemParent, hitemPrev, hitemNext⟩ := item_eq_ok (lt_size_of_parent? hbox)
  simp only [delete, hitem, hitemParent, hbox, hitemPrev, hitemNext, bind, Except.bind]
  cases d.prev? id with
  | none => cases d.setHead box (d.next? id) <;> rfl
  | some prev => rfl

namespace LinkedRow

/-- Linking before an item is an insertion before it. -/
theorem linkBefore_inserted (h : d.LinkedRow box (xs ++ anchor :: ys))
    (hid : id < d.items.size) (hfree : d.parent? id = none) :
    ∃ e, d.linkBefore anchor id = .ok e ∧ Inserted d e box xs id (anchor :: ys) := by
  obtain ⟨hparent, hprev, -⟩ := h.place rfl
  have hanchor : anchor < d.items.size := lt_size_of_parent? hparent
  have hne : anchor ≠ id := fun he => by simp [← he, hparent] at hfree
  rw [linkBefore_eq hid hfree hparent, hprev]
  cases hlast : xs.getLast? with
  | none =>
    -- the anchor was the first item, so the box has to be told of the new one
    obtain rfl := List.getLast?_eq_none_iff.1 hlast
    have hbox : ((d.relink id (some box) none (some anchor)).setPrev anchor (some id)).isBox box :=
      by simpa using h.isBox_of_mem List.mem_cons_self
    obtain ⟨e, hok, hp, hpr, hnx, hhd, hcontent, hsize, hsig⟩ := setHead_eq_ok _ hbox (some id)
    refine ⟨e, by simpa using hok, ⟨?_, ?_, ?_, ?_, ⟨by simp [hcontent], by simp [hsize], hsig⟩⟩⟩
    · intro j
      simp [hp, parent?_relink, hid]
    · intro j
      rw [hpr, prev?_setPrev _ (by simpa using hanchor), prev?_relink _ hid]
      grind
    · intro j
      simp [hnx, next?_relink, hid]
    · intro j
      simp [hhd]
  | some prev =>
    have hmem := List.mem_append_left (anchor :: ys) (List.mem_of_getLast? hlast)
    have hprevId : prev ≠ id := fun he => by
      simp [← he, h.parent? hmem] at hfree
    have hxs : xs ≠ [] := by rintro rfl; simp at hlast
    refine ⟨_, rfl, ⟨?_, ?_, ?_, ?_, ⟨by simp, by simp, rfl⟩⟩⟩
    · intro j
      simp [parent?_relink, hid]
    · intro j
      rw [prev?_setNext, prev?_setPrev _ (by simpa using hanchor), prev?_relink _ hid]
      grind
    · intro j
      rw [next?_setNext _ (by simpa using h.lt_size hmem), next?_setPrev, next?_relink _ hid]
      grind
    · intro j
      simp [hxs]

/-- Linking after an item is an insertion after it. -/
theorem linkAfter_inserted (h : d.LinkedRow box (xs ++ anchor :: ys))
    (hid : id < d.items.size) (hfree : d.parent? id = none) :
    ∃ e, d.linkAfter anchor id = .ok e ∧ Inserted d e box (xs ++ [anchor]) id ys := by
  obtain ⟨hparent, -, hnext⟩ := h.place rfl
  have hanchor : anchor < d.items.size := lt_size_of_parent? hparent
  have hne : anchor ≠ id := fun he => by simp [← he, hparent] at hfree
  rw [linkAfter_eq hid hfree hparent, hnext]
  cases hhead : ys.head? with
  | none =>
    refine ⟨_, rfl, ⟨?_, ?_, ?_, ?_, ⟨by simp, by simp, rfl⟩⟩⟩
    · intro j
      simp [parent?_relink, hid]
    · intro j
      simp [prev?_relink, hid, hhead]
    · intro j
      rw [next?_setNext _ (by simpa using hanchor), next?_relink _ hid]
      grind
    · intro j
      simp
  | some next =>
    have hmem := List.mem_append_right xs (List.mem_cons_of_mem anchor (List.mem_of_head? hhead))
    have hnextId : next ≠ id := fun he => by
      simp [← he, h.parent? hmem] at hfree
    refine ⟨_, rfl, ⟨?_, ?_, ?_, ?_, ⟨by simp, by simp, rfl⟩⟩⟩
    · intro j
      simp [parent?_relink, hid]
    · intro j
      rw [prev?_setPrev _ (by simpa using h.lt_size hmem), prev?_setNext, prev?_relink _ hid]
      grind
    · intro j
      rw [next?_setPrev, next?_setNext _ (by simpa using hanchor), next?_relink _ hid]
      grind
    · intro j
      simp

/-- Linking the first item of a box is an insertion into the empty list. -/
theorem linkFirst_inserted (hbox : d.isBox box = true) (hid : id < d.items.size) :
    ∃ e, (d.relink id (some box) none none).setHead box (some id) = .ok e ∧
      Inserted d e box [] id [] := by
  have hbox' : (d.relink id (some box) none none).isBox box = true := by simpa using hbox
  obtain ⟨e, hok, hp, hpr, hnx, hhd, hcontent, hsize, hsig⟩ := setHead_eq_ok _ hbox' (some id)
  refine ⟨e, hok, ⟨?_, ?_, ?_, ?_, ⟨by simp [hcontent], by simp [hsize], hsig⟩⟩⟩
  · intro j
    simp [hp, parent?_relink, hid]
  · intro j
    simp [hpr, prev?_relink, hid]
  · intro j
    simp [hnx, next?_relink, hid]
  · intro j
    simp [hhd]

/-- The link to an item from what is before it, or from its box, goes on to what is after it. -/
theorem unlink_before (h : d.LinkedRow box (xs ++ id :: ys)) :
    ∃ e, (match xs.getLast? with
        | some prev => Except.ok (d.setNext prev ys.head?)
        | none => d.setHead box ys.head?) = Except.ok e ∧
      (∀ j, e.parent? j = d.parent? j) ∧ (∀ j, e.prev? j = d.prev? j) ∧
      (∀ j, e.next? j = if xs.getLast? = some j then ys.head? else d.next? j) ∧
      (∀ j, e.head? j = if j = box ∧ xs = [] then ys.head? else d.head? j) ∧ Relinked d e := by
  cases hlast : xs.getLast? with
  | none =>
    obtain rfl := List.getLast?_eq_none_iff.1 hlast
    obtain ⟨e, hok, hp, hpr, hnx, hhd, hcontent, hsize, hsig⟩ :=
      setHead_eq_ok d (h.isBox_of_mem List.mem_cons_self) ys.head?
    exact ⟨e, hok, hp, hpr, by simp [hnx], by simp [hhd], ⟨hcontent, hsize, hsig⟩⟩
  | some prev =>
    have hprevMem := List.mem_append_left (id :: ys) (List.mem_of_getLast? hlast)
    have hxs : xs ≠ [] := by rintro rfl; simp at hlast
    refine ⟨_, rfl, by simp, by simp, ?_, by simp [hxs], ⟨by simp, by simp, rfl⟩⟩
    intro j
    rw [next?_setNext _ (h.lt_size hprevMem)]
    grind

/-- Unlinking an item is a removal. -/
theorem delete_removed (h : d.LinkedRow box (xs ++ id :: ys)) :
    ∃ e, d.delete id = .ok e ∧ Removed d e box xs id ys := by
  obtain ⟨hparent, hprev, hnext⟩ := h.place rfl
  have hid : id < d.items.size := lt_size_of_parent? hparent
  have hout : id ∉ xs ++ ys :=
    (List.nodup_cons.1 (List.nodup_middle.1 h.nodup)).1
  -- first the link to the item from before it, then the one from after it
  obtain ⟨e, hok, hp, hpr, hnx, hhd, hmid⟩ := h.unlink_before
  have hid' : id < e.items.size := hmid.size ▸ hid
  rw [delete_eq hparent, hprev, hnext, hok, Except.map]
  cases hhead : ys.head? with
  | none =>
    refine ⟨_, rfl, ⟨?_, ?_, ?_, ?_, ⟨by simp [hmid.content], by simp [hmid.size], hmid.signature⟩⟩⟩
    · intro j
      rw [parent?_relink _ hid', hp]
    · intro j
      rw [prev?_relink _ hid', hpr]
      grind
    · intro j
      rw [next?_relink _ hid', hnx, hhead]
    · intro j
      rw [head?_relink, hhd, hhead]
  | some next =>
    have hnextMem : next ∈ ys := List.mem_of_head? hhead
    have hnextSize : next < e.items.size :=
      hmid.size ▸ h.lt_size (List.mem_append_right xs (List.mem_cons_of_mem id hnextMem))
    refine ⟨_, rfl, ⟨?_, ?_, ?_, ?_, ⟨by simp [hmid.content], by simp [hmid.size], hmid.signature⟩⟩⟩
    · intro j
      rw [parent?_relink _ (by simpa using hid'), parent?_setPrev, hp]
    · intro j
      rw [prev?_relink _ (by simpa using hid'), prev?_setPrev _ hnextSize, hpr]
      grind
    · intro j
      rw [next?_relink _ (by simpa using hid'), next?_setPrev, hnx, hhead]
    · intro j
      rw [head?_relink, head?_setPrev, hhd, hhead]

variable {kind : ItemKind} {row : List ItemId}

/-- A new item leaves the rows of the boxes as they are. -/
theorem alloc (h : d.LinkedRow box row) (hbox : box < d.items.size) (kind : ItemKind) :
    (d.alloc kind).2.LinkedRow box row := by
  refine h.of_eq ?_ (by simp)
  rw [head?, head?, box?, box?, kind?_alloc, if_neg (Nat.ne_of_lt hbox)]

/-- Adding an item before another links a new item there. -/
theorem prepend_inserted (h : d.LinkedRow box (xs ++ anchor :: ys)) :
    ∃ e, d.prepend anchor kind = .ok (d.items.size, e) ∧
      Inserted (d.alloc kind).2 e box xs d.items.size (anchor :: ys) := by
  have hbox : box < d.items.size := lt_size_of_isBox (h.isBox_of_mem (show anchor ∈ _ by simp))
  obtain ⟨e, hok, hins⟩ := (h.alloc hbox kind).linkBefore_inserted
    (show d.items.size < _ by simp) (by simp [parent?_eq_none])
  refine ⟨e, ?_, hins⟩
  simp only [Document.prepend, alloc_fst, hok]
  rfl

/-- Adding an item after another links a new item there. -/
theorem append_inserted (h : d.LinkedRow box (xs ++ anchor :: ys)) :
    ∃ e, d.append anchor kind = .ok (d.items.size, e) ∧
      Inserted (d.alloc kind).2 e box (xs ++ [anchor]) d.items.size ys := by
  have hbox : box < d.items.size := lt_size_of_isBox (h.isBox_of_mem (show anchor ∈ _ by simp))
  obtain ⟨e, hok, hins⟩ := (h.alloc hbox kind).linkAfter_inserted
    (show d.items.size < _ by simp) (by simp [parent?_eq_none])
  refine ⟨e, ?_, hins⟩
  simp only [Document.append, alloc_fst, hok]
  rfl

/-- Adding an item at the end of a box links a new item there. -/
theorem pushChild_inserted (h : d.LinkedRow box row) (hbox : d.isBox box = true) :
    ∃ e, d.pushChild box kind = .ok (d.items.size, e) ∧
      Inserted (d.alloc kind).2 e box row d.items.size [] := by
  obtain ⟨item, hitem, -⟩ := item_eq_ok (lt_size_of_isBox hbox)
  rcases List.eq_nil_or_concat row with rfl | ⟨xs, last, rfl⟩
  · have hbox' : (d.alloc kind).2.isBox box = true := by
      have hcore : (d.alloc kind).2.core? box = d.core? box := by
        rw [core?_alloc, if_neg (Nat.ne_of_lt (lt_size_of_isBox hbox))]
      rw [isBox_congr hcore]
      exact hbox
    obtain ⟨e, hok, hins⟩ := linkFirst_inserted hbox' (show d.items.size < _ by simp)
    refine ⟨e, ?_, hins⟩
    simp only [Document.pushChild, hitem, lastChild?, h.children_eq, List.getLast?_nil, alloc_fst,
      bind, Except.bind, hok]
    rfl
  · rw [List.concat_eq_append] at h ⊢
    obtain ⟨e, hok, hins⟩ : ∃ e, d.append last kind = .ok (d.items.size, e) ∧ _ := h.append_inserted
    refine ⟨e, ?_, hins⟩
    have hlast : d.lastChild? box = some last := by simp [lastChild?, h.children_eq]
    simp only [Document.pushChild, hitem, hlast, bind, Except.bind, hok]

end LinkedRow

/-- A new item that is linked into no box leaves the links in step. -/
theorem LinkedBy.alloc (h : d.LinkedBy kids) {kind : ItemKind}
    (hkind : ∀ data, kind = .box data → data.head = none) : (d.alloc kind).2.LinkedBy kids := by
  have hroot : root < d.items.size := lt_size_of_isBox h.root_box
  constructor
  case root_box =>
    have hcore : (d.alloc kind).2.core? root = d.core? root := by
      rw [core?_alloc, if_neg (Nat.ne_of_lt hroot)]
    rw [isBox_congr hcore]
    exact h.root_box
  case root_free => simpa using h.root_free
  case head => intro b; rw [head?_alloc d hkind]; exact h.head b
  case nodup => exact h.nodup
  case place => intro b i us vs hsplit; simpa using h.place hsplit
  case listed => intro i b hp; exact h.listed (by simpa using hp)
  case free => intro i hp; simpa using h.free (by simpa using hp)
  case grounded =>
    intro i
    have hrel : (fun box inner => (d.alloc kind).2.StandsIn inner box) =
        fun box inner => d.StandsIn inner box := by
      funext box inner
      simp only [StandsIn, parent?_alloc]
    rw [hrel]
    exact h.grounded i

namespace WellLinked

/-- The items of a box are those whose parent it is. -/
theorem mem_children_iff (h : d.WellLinked) : id ∈ d.children box ↔ d.parent? id = some box :=
  h.linkedBy.parent?_eq_some_iff.symm

/-- Unlinking an item succeeds and takes it out of its box. -/
theorem delete (h : d.WellLinked) (hbox : d.children box = xs ++ id :: ys) :
    ∃ e, d.delete id = .ok e ∧ e.WellLinked ∧
      e.children = Function.update d.children box (xs ++ ys) ∧ SameItems d e := by
  obtain ⟨e, hok, hrem⟩ := (hbox ▸ h.row box).delete_removed
  have hlinked := hrem.linkedBy h.linkedBy hbox
  exact ⟨e, hok, hlinked.wellLinked, hlinked.children_eq, hrem.relinked.same⟩

variable {kind : ItemKind}

/-- A new item is in the table, in no box, and around nothing. -/
theorem alloc (h : d.WellLinked) (hkind : ∀ data, kind = .box data → data.head = none) :
    (d.alloc kind).2.WellLinked ∧ (d.alloc kind).2.children = d.children ∧
      Added d (d.alloc kind).2 kind ∧ d.items.size ≠ root ∧
      ∀ box, d.isBox box = true →
        ¬ Relation.ReflTransGen (d.alloc kind).2.StandsIn box d.items.size := by
  have hlinked := h.linkedBy.alloc hkind
  have hroot : d.items.size ≠ root := Nat.ne_of_gt (lt_size_of_isBox h.linkedBy.root_box)
  refine ⟨hlinked.wellLinked, hlinked.children_eq, ⟨core?_alloc d kind, size_alloc d kind, rfl⟩,
    hroot, fun box hbox hup => ?_⟩
  have hne : box ≠ d.items.size := Nat.ne_of_lt (lt_size_of_isBox hbox)
  -- the last step up to the new item would start from one of its items
  obtain heq | ⟨inner, -, hin⟩ := Relation.ReflTransGen.cases_tail hup
  · exact hne heq.symm
  · rw [StandsIn, parent?_alloc, ← h.mem_children_iff] at hin
    exact absurd (lt_size_of_isBox (h.linkedBy.isBox_of_mem hin)) (Nat.lt_irrefl _)

/-- A new item that is linked into a box stands there, and nothing else has changed. -/
theorem of_inserted (h : d.WellLinked) (hkind : ∀ data, kind = .box data → data.head = none)
    (hisBox : d.isBox box = true) (hrow : d.children box = xs ++ ys)
    (hins : Inserted (d.alloc kind).2 e box xs d.items.size ys) :
    e.WellLinked ∧ e.children = Function.update d.children box (xs ++ d.items.size :: ys) ∧
      Added d e kind := by
  obtain ⟨hlinked, hchildren, hadded, hroot, hcircle⟩ := h.alloc hkind
  have he := hins.linkedBy hlinked.linkedBy (hchildren ▸ hrow) (by simp [parent?_eq_none]) hroot
    (hcircle box hisBox)
  refine ⟨he.wellLinked, by rw [he.children_eq, hchildren], ⟨fun j => ?_, ?_, ?_⟩⟩
  · rw [hins.relinked.same.core, hadded.core]
  · rw [hins.relinked.same.size, hadded.size]
  · rw [hins.relinked.same.signature, hadded.signature]

/-- Adding an item before another succeeds and puts it there. -/
theorem prepend (h : d.WellLinked) (hbox : d.children box = xs ++ anchor :: ys)
    (hkind : ∀ data, kind = .box data → data.head = none) :
    ∃ e, d.prepend anchor kind = .ok (d.items.size, e) ∧ e.WellLinked ∧
      e.children = Function.update d.children box (xs ++ d.items.size :: anchor :: ys) ∧
      Added d e kind := by
  obtain ⟨e, hok, hins⟩ := (hbox ▸ h.row box).prepend_inserted
  have hisBox : d.isBox box = true :=
    h.linkedBy.isBox_of_mem (show anchor ∈ d.children box by simp [hbox])
  exact ⟨e, hok, h.of_inserted hkind hisBox hbox hins⟩

/-- Adding an item at the end of a box succeeds and puts it there. -/
theorem pushChild (h : d.WellLinked) (hbox : d.isBox box = true)
    (hkind : ∀ data, kind = .box data → data.head = none) :
    ∃ e, d.pushChild box kind = .ok (d.items.size, e) ∧ e.WellLinked ∧
      e.children = Function.update d.children box (d.children box ++ [d.items.size]) ∧
      Added d e kind := by
  obtain ⟨e, hok, hins⟩ := (h.row box).pushChild_inserted hbox
  exact ⟨e, hok, h.of_inserted hkind hbox (by simp) hins⟩

end WellLinked

end NaturalDeduction.Document
