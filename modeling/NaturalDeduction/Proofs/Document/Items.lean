import NaturalDeduction.Document.Outline
import Mathlib.Logic.Function.Basic

/-!
# Items and their links

What can be read off a document is split into the links (the box around an item, its neighbours, the
first item of a box), the line numbers, and the `core` of an item, which is all the rest.  The number
and the core together, all that is not links, are the content of an item.  For each operation that
writes to the table this module says what it does to each of these, so that no later proof has to look
into the table itself.
-/

set_option autoImplicit false

namespace NaturalDeduction

/-- What an item is, without its number and without the link of a box to its first item. -/
def ItemKind.core : ItemKind → ItemKind
  | .line formula just _ => .line formula just 0
  | .empty _ => .empty 0
  | .constants names _ => .constants names 0
  | .box data => .box { data with head := none }

/-- What an item is, without the link of a box to its first item. -/
def ItemKind.headless (kind : ItemKind) : ItemKind :=
  kind.updateBox fun data => { data with head := none }

/-- The core has no link of a box to its first item to begin with. -/
theorem ItemKind.core_headless (kind : ItemKind) : kind.headless.core = kind.core := by
  cases kind <;> rfl

/-- A box without a first item, or an item that is no box, is headless. -/
theorem ItemKind.headless_eq_self_iff {kind : ItemKind} :
    kind.headless = kind ↔ ∀ data, kind = .box data → data.head = none := by
  cases kind with
  | box data =>
    obtain ⟨head, complete, adjacent, skolems⟩ := data
    simp [headless, updateBox, eq_comm]
  | line | empty | constants => simp [headless, updateBox]

/-- The core has no number. -/
@[simp] theorem ItemKind.core_withNumber (n : Nat) (kind : ItemKind) :
    (kind.withNumber n).core = kind.core := by
  cases kind <;> rfl

namespace Document

/-- The item before an item. -/
def prev? (d : Document) (id : ItemId) : Option ItemId :=
  d.items[id]?.bind Item.prev

/-- The first item of a box. -/
def head? (d : Document) (id : ItemId) : Option ItemId :=
  (d.box? id).bind BoxData.head

/-- What an item is, links aside. -/
def content? (d : Document) (id : ItemId) : Option ItemKind :=
  (d.kind? id).map ItemKind.headless

/-- What an item is, links and number aside. -/
def core? (d : Document) (id : ItemId) : Option ItemKind :=
  (d.kind? id).map ItemKind.core

/-- Whether a box is marked as complete. -/
def isClosed (d : Document) (id : ItemId) : Bool :=
  match d.box? id with
  | some data => data.complete
  | none => false

/-- The Skolem constants that a box introduces. -/
def skolemsOf (d : Document) (id : ItemId) : NameSet :=
  match d.box? id with
  | some data => data.skolems
  | none => ∅

/-- The core is the content without its number. -/
theorem core?_eq_content? (d : Document) (id : ItemId) :
    d.core? id = (d.content? id).map ItemKind.core := by
  rw [core?, content?, Option.map_map]
  exact congrArg (fun f => (d.kind? id).map f) (funext fun kind => kind.core_headless.symm)

/-- What an item is, is its content together with the link to a first item. -/
theorem kind?_eq_of_content? {d e : Document} {id : ItemId} (hhead : e.head? id = d.head? id)
    (hcontent : e.content? id = d.content? id) : e.kind? id = d.kind? id := by
  unfold content? at hcontent
  unfold head? box? at hhead
  rcases he : e.kind? id with _ | kind <;> rcases hd : d.kind? id with _ | kind'
  · rfl
  · simp [he, hd] at hcontent
  · simp [he, hd] at hcontent
  · cases kind <;> cases kind' <;> simp_all [ItemKind.headless, ItemKind.updateBox]
    rename_i data data'
    cases data; cases data'
    simp_all

/-- The links and the content of an item are all of it. -/
theorem getElem?_eq_of_links {d e : Document} {id : ItemId} (hparent : e.parent? id = d.parent? id)
    (hprev : e.prev? id = d.prev? id) (hnext : e.next? id = d.next? id)
    (hhead : e.head? id = d.head? id) (hcontent : e.content? id = d.content? id) :
    e.items[id]? = d.items[id]? := by
  have hkind := kind?_eq_of_content? hhead hcontent
  unfold parent? prev? next? kind? at *
  rcases he : e.items[id]? with _ | ⟨p, q, n, kind⟩ <;>
    rcases hd : d.items[id]? with _ | ⟨p', q', n', kind'⟩
  · rfl
  · simp [he, hd] at hkind
  · simp [he, hd] at hkind
  · simp_all

/-- The core and the number of an item are its content. -/
theorem content?_eq_of_core? {d e : Document} {id : ItemId} (hcore : e.core? id = d.core? id)
    (hnumber : e.number? id = d.number? id) :
    e.content? id = d.content? id := by
  unfold core? at hcore
  unfold number? at hnumber
  unfold content?
  rcases he : e.kind? id with _ | kind <;> rcases hd : d.kind? id with _ | kind'
  · rfl
  · simp [he, hd] at hcore
  · simp [he, hd] at hcore
  · cases kind <;> cases kind' <;>
      simp_all [ItemKind.core, ItemKind.number?, ItemKind.headless, ItemKind.updateBox]

/-- Items with the same core both have a number or both have none. -/
theorem isSome_number?_congr {d e : Document} {id : ItemId} (hcore : e.core? id = d.core? id) :
    (e.number? id).isSome = (d.number? id).isSome := by
  unfold core? at hcore
  unfold number?
  rcases he : e.kind? id with _ | kind <;> rcases hd : d.kind? id with _ | kind'
  · rfl
  · simp [he, hd] at hcore
  · simp [he, hd] at hcore
  · cases kind <;> cases kind' <;> simp_all [ItemKind.core, ItemKind.number?]

/-! ### What the core of an item decides -/

/-- The formula and the justification of a line are in its core. -/
theorem line?_eq_core (d : Document) (id : ItemId) :
    d.line? id = match d.core? id with
      | some (.line formula just _) => some (formula, just)
      | _ => none := by
  unfold line? core?
  rcases d.kind? id with _ | (_ | _ | _ | _) <;> rfl

/-- Whether an item is a box can be told from its core. -/
theorem isBox_eq_core (d : Document) (id : ItemId) :
    d.isBox id = match d.core? id with
      | some (.box _) => true
      | _ => false := by
  unfold isBox box? core?
  rcases d.kind? id with _ | (_ | _ | _ | _) <;> rfl

/-- Whether an item is an empty line can be told from its core. -/
theorem isEmptyLine_eq_core (d : Document) (id : ItemId) :
    d.isEmptyLine id = match d.core? id with
      | some (.empty _) => true
      | _ => false := by
  unfold isEmptyLine core?
  rcases d.kind? id with _ | (_ | _ | _ | _) <;> rfl

/-- The mark of a box is in its core. -/
theorem isClosed_eq_core (d : Document) (id : ItemId) :
    d.isClosed id = match d.core? id with
      | some (.box data) => data.complete
      | _ => false := by
  unfold isClosed box? core?
  rcases d.kind? id with _ | (_ | _ | _ | _) <;> rfl

/-- The Skolem constants of a box are in its core. -/
theorem skolemsOf_eq_core (d : Document) (id : ItemId) :
    d.skolemsOf id = match d.core? id with
      | some (.box data) => data.skolems
      | _ => ∅ := by
  unfold skolemsOf box? core?
  rcases d.kind? id with _ | (_ | _ | _ | _) <;> rfl

section Congruence

variable {d e : Document} {i j : ItemId}

/-- Items with the same core have the same formula and justification. -/
theorem line?_congr (h : d.core? i = e.core? j) : d.line? i = e.line? j := by
  rw [line?_eq_core, line?_eq_core, h]

/-- Items with the same core have the same formula. -/
theorem formula?_congr (h : d.core? i = e.core? j) : d.formula? i = e.formula? j := by
  rw [formula?, formula?, line?_congr h]

/-- Of two items with the same core both or neither are goals. -/
theorem isGoal_congr (h : d.core? i = e.core? j) : d.isGoal i = e.isGoal j := by
  rw [isGoal, isGoal, line?_congr h]

/-- Of two items with the same core both or neither are boxes. -/
theorem isBox_congr (h : d.core? i = e.core? j) : d.isBox i = e.isBox j := by
  rw [isBox_eq_core, isBox_eq_core, h]

/-- Of two items with the same core both or neither are empty lines. -/
theorem isEmptyLine_congr (h : d.core? i = e.core? j) : d.isEmptyLine i = e.isEmptyLine j := by
  rw [isEmptyLine_eq_core, isEmptyLine_eq_core, h]

/-- Of two items with the same core both or neither are complete boxes. -/
theorem isClosed_congr (h : d.core? i = e.core? j) : d.isClosed i = e.isClosed j := by
  rw [isClosed_eq_core, isClosed_eq_core, h]

/-- Items with the same core have the same Skolem constants. -/
theorem skolemsOf_congr (h : d.core? i = e.core? j) : d.skolemsOf i = e.skolemsOf j := by
  rw [skolemsOf_eq_core, skolemsOf_eq_core, h]

end Congruence

/-! ### Items in the table -/

/-- An item with a core stands in the table. -/
theorem lt_size_of_core? {d : Document} {id : ItemId} {kind : ItemKind}
    (h : d.core? id = some kind) : id < d.items.size := by
  unfold core? kind? at h
  by_contra hlt
  rw [Array.getElem?_eq_none (Nat.not_lt.1 hlt)] at h
  simp at h

/-- There is no core beyond the last item. -/
theorem core?_eq_none {d : Document} {id : ItemId} (h : d.items.size ≤ id) :
    d.core? id = none := by
  simp [core?, kind?, Array.getElem?_eq_none h]

/-- A box is an item. -/
theorem lt_size_of_isBox {d : Document} {id : ItemId} (h : d.isBox id = true) :
    id < d.items.size := by
  rw [isBox_eq_core] at h
  cases hcore : d.core? id with
  | none => simp [hcore] at h
  | some kind => exact lt_size_of_core? hcore

/-- What has a parent is an item. -/
theorem lt_size_of_parent? {d : Document} {id box : ItemId} (h : d.parent? id = some box) :
    id < d.items.size := by
  unfold parent? at h
  by_contra hlt
  rw [Array.getElem?_eq_none (Nat.not_lt.1 hlt)] at h
  simp at h

/-- There are no parents beyond the last item. -/
theorem parent?_eq_none {d : Document} {id : ItemId} (h : d.items.size ≤ id) :
    d.parent? id = none := by
  simp [parent?, Array.getElem?_eq_none h]

/-- What is no box has no first item. -/
theorem head?_eq_none {d : Document} {id : ItemId} (h : d.isBox id = false) :
    d.head? id = none := by
  unfold isBox at h
  cases hbox : d.box? id with
  | none => simp [head?, hbox]
  | some data => simp [hbox] at h

/-- Looking an item up, said with what is known about it. -/
theorem item_eq_ok {d : Document} {id : ItemId} (h : id < d.items.size) :
    ∃ item, d.item id = .ok item ∧ d.items[id]? = some item ∧ item.parent = d.parent? id ∧
      item.prev = d.prev? id ∧ item.next = d.next? id := by
  have hget : d.items[id]? = some d.items[id] := Array.getElem?_eq_getElem h
  exact ⟨d.items[id], by simp [item, hget], hget, by simp [parent?, hget], by simp [prev?, hget],
    by simp [next?, hget]⟩

/-! ### Writing to one item -/

section Writes

variable (d : Document) (id : ItemId)

/-- Only the modified item changes. -/
theorem getElem?_modify (f : Item → Item) (j : ItemId) :
    (d.modify id f).items[j]? = if id = j then d.items[j]?.map f else d.items[j]? :=
  Array.getElem?_modify

/-- Modifying an item adds none. -/
@[simp] theorem size_modify (f : Item → Item) : (d.modify id f).items.size = d.items.size :=
  Array.size_modify

/-- Modifying an item leaves the names as they are. -/
@[simp] theorem signature_modify (f : Item → Item) : (d.modify id f).signature = d.signature := rfl

/-- A change of the links leaves every item what it is. -/
theorem kind?_modify {f : Item → Item} (hf : ∀ item, (f item).kind = item.kind) (j : ItemId) :
    (d.modify id f).kind? j = d.kind? j := by
  unfold kind?
  rw [getElem?_modify]
  split
  · cases d.items[j]? <;> simp [hf]
  · rfl

/-- New links change no kinds. -/
@[simp] theorem kind?_relink (parent prev next : Option ItemId) (j : ItemId) :
    (d.relink id parent prev next).kind? j = d.kind? j := by
  unfold relink
  exact kind?_modify d id (by intro item; rfl) j

/-- A new backward link changes no kinds. -/
@[simp] theorem kind?_setPrev (prev : Option ItemId) (j : ItemId) :
    (d.setPrev id prev).kind? j = d.kind? j := by
  unfold setPrev
  exact kind?_modify d id (by intro item; rfl) j

/-- A new forward link changes no kinds. -/
@[simp] theorem kind?_setNext (next : Option ItemId) (j : ItemId) :
    (d.setNext id next).kind? j = d.kind? j := by
  unfold setNext
  exact kind?_modify d id (by intro item; rfl) j

variable {id}

/-- The relinked item has the new parent, and the others keep theirs. -/
theorem parent?_relink (h : id < d.items.size) (parent prev next : Option ItemId) (j : ItemId) :
    (d.relink id parent prev next).parent? j = if j = id then parent else d.parent? j := by
  unfold parent? relink
  rw [getElem?_modify]
  by_cases hj : j = id
  · subst hj
    simp [Array.getElem?_eq_getElem h]
  · rw [if_neg (fun he => hj he.symm), if_neg hj]

/-- The relinked item has the new backward link, and the others keep theirs. -/
theorem prev?_relink (h : id < d.items.size) (parent prev next : Option ItemId) (j : ItemId) :
    (d.relink id parent prev next).prev? j = if j = id then prev else d.prev? j := by
  unfold prev? relink
  rw [getElem?_modify]
  by_cases hj : j = id
  · subst hj
    simp [Array.getElem?_eq_getElem h]
  · rw [if_neg (fun he => hj he.symm), if_neg hj]

/-- The relinked item has the new forward link, and the others keep theirs. -/
theorem next?_relink (h : id < d.items.size) (parent prev next : Option ItemId) (j : ItemId) :
    (d.relink id parent prev next).next? j = if j = id then next else d.next? j := by
  unfold next? relink
  rw [getElem?_modify]
  by_cases hj : j = id
  · subst hj
    simp [Array.getElem?_eq_getElem h]
  · rw [if_neg (fun he => hj he.symm), if_neg hj]

/-- The item has the new backward link, and the others keep theirs. -/
theorem prev?_setPrev (h : id < d.items.size) (prev : Option ItemId) (j : ItemId) :
    (d.setPrev id prev).prev? j = if j = id then prev else d.prev? j := by
  unfold prev? setPrev
  rw [getElem?_modify]
  by_cases hj : j = id
  · subst hj
    simp [Array.getElem?_eq_getElem h]
  · rw [if_neg (fun he => hj he.symm), if_neg hj]

/-- The item has the new forward link, and the others keep theirs. -/
theorem next?_setNext (h : id < d.items.size) (next : Option ItemId) (j : ItemId) :
    (d.setNext id next).next? j = if j = id then next else d.next? j := by
  unfold next? setNext
  rw [getElem?_modify]
  by_cases hj : j = id
  · subst hj
    simp [Array.getElem?_eq_getElem h]
  · rw [if_neg (fun he => hj he.symm), if_neg hj]

variable (id)

/-- A link that a write does not touch is read as before. -/
theorem bind_modify {f : Item → Item} {link : Item → Option ItemId}
    (hf : ∀ item, link (f item) = link item) (j : ItemId) :
    (d.modify id f).items[j]?.bind link = d.items[j]?.bind link := by
  rw [getElem?_modify]
  split
  · cases d.items[j]? <;> simp [hf]
  · rfl

/-- A new backward link changes no parents. -/
@[simp] theorem parent?_setPrev (prev : Option ItemId) (j : ItemId) :
    (d.setPrev id prev).parent? j = d.parent? j := by
  unfold parent? setPrev
  exact bind_modify d id (by intro item; rfl) j

/-- A new backward link changes no forward links. -/
@[simp] theorem next?_setPrev (prev : Option ItemId) (j : ItemId) :
    (d.setPrev id prev).next? j = d.next? j := by
  unfold next? setPrev
  exact bind_modify d id (by intro item; rfl) j

/-- A new forward link changes no parents. -/
@[simp] theorem parent?_setNext (next : Option ItemId) (j : ItemId) :
    (d.setNext id next).parent? j = d.parent? j := by
  unfold parent? setNext
  exact bind_modify d id (by intro item; rfl) j

/-- A new forward link changes no backward links. -/
@[simp] theorem prev?_setNext (next : Option ItemId) (j : ItemId) :
    (d.setNext id next).prev? j = d.prev? j := by
  unfold prev? setNext
  exact bind_modify d id (by intro item; rfl) j

/-- A new kind changes no parents. -/
@[simp] theorem parent?_modifyKind (f : ItemKind → ItemKind) (j : ItemId) :
    (d.modifyKind id f).parent? j = d.parent? j := by
  unfold parent? modifyKind
  exact bind_modify d id (by intro item; rfl) j

/-- A new kind changes no backward links. -/
@[simp] theorem prev?_modifyKind (f : ItemKind → ItemKind) (j : ItemId) :
    (d.modifyKind id f).prev? j = d.prev? j := by
  unfold prev? modifyKind
  exact bind_modify d id (by intro item; rfl) j

/-- A new kind changes no forward links. -/
@[simp] theorem next?_modifyKind (f : ItemKind → ItemKind) (j : ItemId) :
    (d.modifyKind id f).next? j = d.next? j := by
  unfold next? modifyKind
  exact bind_modify d id (by intro item; rfl) j

/-- The item has the new kind, and the others keep theirs. -/
theorem kind?_modifyKind (f : ItemKind → ItemKind) (j : ItemId) :
    (d.modifyKind id f).kind? j = if id = j then (d.kind? j).map f else d.kind? j := by
  unfold kind? modifyKind
  rw [getElem?_modify]
  split
  · cases d.items[j]? <;> rfl
  · rfl

/-- New links add no items. -/
@[simp] theorem size_relink (parent prev next : Option ItemId) :
    (d.relink id parent prev next).items.size = d.items.size :=
  size_modify d id _

/-- A new backward link adds no items. -/
@[simp] theorem size_setPrev (prev : Option ItemId) :
    (d.setPrev id prev).items.size = d.items.size :=
  size_modify d id _

/-- A new forward link adds no items. -/
@[simp] theorem size_setNext (next : Option ItemId) :
    (d.setNext id next).items.size = d.items.size :=
  size_modify d id _

/-- A new kind adds no items. -/
@[simp] theorem size_modifyKind (f : ItemKind → ItemKind) :
    (d.modifyKind id f).items.size = d.items.size :=
  size_modify d id _

/-! ### Writing to the whole table -/

/-- All justifications cite the new item in place of the old one. -/
theorem kind?_redirect (old new j : ItemId) :
    (d.redirect old new).kind? j =
      (d.kind? j).map (ItemKind.updateJust (Justification.redirect old new)) := by
  unfold kind? redirect
  simp only [Array.getElem?_map]
  cases d.items[j]? <;> rfl

/-- A link is read as before when citations are redirected. -/
theorem bind_redirect {link : Item → Option ItemId}
    (hlink : ∀ item kind, link { item with kind := kind } = link item) (old new j : ItemId) :
    (d.redirect old new).items[j]?.bind link = d.items[j]?.bind link := by
  unfold redirect
  simp only [Array.getElem?_map]
  cases d.items[j]? <;> simp [hlink]

/-- Redirecting citations changes no parents. -/
@[simp] theorem parent?_redirect (old new j : ItemId) :
    (d.redirect old new).parent? j = d.parent? j :=
  bind_redirect d (fun _ _ => rfl) old new j

/-- Redirecting citations changes no backward links. -/
@[simp] theorem prev?_redirect (old new j : ItemId) :
    (d.redirect old new).prev? j = d.prev? j :=
  bind_redirect d (fun _ _ => rfl) old new j

/-- Redirecting citations changes no forward links. -/
@[simp] theorem next?_redirect (old new j : ItemId) :
    (d.redirect old new).next? j = d.next? j :=
  bind_redirect d (fun _ _ => rfl) old new j

/-- There is one more item. -/
@[simp] theorem size_alloc (kind : ItemKind) :
    (d.alloc kind).2.items.size = d.items.size + 1 := by
  simp [alloc]

/-- The new item is the last one. -/
@[simp] theorem alloc_fst (kind : ItemKind) : (d.alloc kind).1 = d.items.size := rfl

/-- The new item has no links, and the others are as they were. -/
theorem getElem?_alloc (kind : ItemKind) (j : ItemId) :
    (d.alloc kind).2.items[j]? = if j = d.items.size then some { kind } else d.items[j]? :=
  Array.getElem?_push

/-- A new item has no links, as a place outside the table has none. -/
theorem bind_alloc {link : Item → Option ItemId} (kind : ItemKind)
    (hlink : link { kind } = none) (j : ItemId) :
    (d.alloc kind).2.items[j]?.bind link = d.items[j]?.bind link := by
  rw [getElem?_alloc]
  by_cases hj : j = d.items.size
  · subst hj
    simp [hlink]
  · rw [if_neg hj]

/-- The new item has no parent, and the others keep theirs. -/
@[simp] theorem parent?_alloc (kind : ItemKind) (j : ItemId) :
    (d.alloc kind).2.parent? j = d.parent? j :=
  bind_alloc d kind rfl j

/-- The new item has no backward link, and the others keep theirs. -/
@[simp] theorem prev?_alloc (kind : ItemKind) (j : ItemId) :
    (d.alloc kind).2.prev? j = d.prev? j :=
  bind_alloc d kind rfl j

/-- The new item has no forward link, and the others keep theirs. -/
@[simp] theorem next?_alloc (kind : ItemKind) (j : ItemId) :
    (d.alloc kind).2.next? j = d.next? j :=
  bind_alloc d kind rfl j

/-- The new item has the given kind, and the others keep theirs. -/
theorem kind?_alloc (kind : ItemKind) (j : ItemId) :
    (d.alloc kind).2.kind? j = if j = d.items.size then some kind else d.kind? j := by
  unfold kind?
  rw [getElem?_alloc]
  split <;> rfl

end Writes

/-! ### What the writes do to heads, contents and cores -/

section Views

variable (d : Document) (id : ItemId)

/-- The core depends on the kind only. -/
theorem core?_congr_kind? {d e : Document} {j : ItemId} (h : d.kind? j = e.kind? j) :
    d.core? j = e.core? j := by
  rw [core?, core?, h]

/-- The content depends on the kind only. -/
theorem content?_congr_kind? {d e : Document} {j : ItemId} (h : d.kind? j = e.kind? j) :
    d.content? j = e.content? j := by
  rw [content?, content?, h]

/-- The first item of a box depends on the kind only. -/
theorem head?_congr_kind? {d e : Document} {j : ItemId} (h : d.kind? j = e.kind? j) :
    d.head? j = e.head? j := by
  rw [head?, head?, box?, box?, h]

/-- New links change no cores. -/
@[simp] theorem core?_relink (parent prev next : Option ItemId) (j : ItemId) :
    (d.relink id parent prev next).core? j = d.core? j :=
  core?_congr_kind? (by simp)

/-- New links change no contents. -/
@[simp] theorem content?_relink (parent prev next : Option ItemId) (j : ItemId) :
    (d.relink id parent prev next).content? j = d.content? j :=
  content?_congr_kind? (by simp)

/-- New links of an item change no first items. -/
@[simp] theorem head?_relink (parent prev next : Option ItemId) (j : ItemId) :
    (d.relink id parent prev next).head? j = d.head? j :=
  head?_congr_kind? (by simp)

/-- A new backward link changes no cores. -/
@[simp] theorem core?_setPrev (prev : Option ItemId) (j : ItemId) :
    (d.setPrev id prev).core? j = d.core? j :=
  core?_congr_kind? (by simp)

/-- A new backward link changes no contents. -/
@[simp] theorem content?_setPrev (prev : Option ItemId) (j : ItemId) :
    (d.setPrev id prev).content? j = d.content? j :=
  content?_congr_kind? (by simp)

/-- A new backward link changes no first items. -/
@[simp] theorem head?_setPrev (prev : Option ItemId) (j : ItemId) :
    (d.setPrev id prev).head? j = d.head? j :=
  head?_congr_kind? (by simp)

/-- A new forward link changes no contents. -/
@[simp] theorem content?_setNext (next : Option ItemId) (j : ItemId) :
    (d.setNext id next).content? j = d.content? j :=
  content?_congr_kind? (by simp)

/-- A new forward link changes no first items. -/
@[simp] theorem head?_setNext (next : Option ItemId) (j : ItemId) :
    (d.setNext id next).head? j = d.head? j :=
  head?_congr_kind? (by simp)

variable {id}

/-- The boxes are the items of this kind. -/
theorem isBox_iff_kind? : d.isBox id = true ↔ ∃ data, d.kind? id = some (.box data) := by
  unfold isBox box?
  rcases d.kind? id with _ | (_ | _ | _ | data)
  all_goals simp

/-- Writing to a box succeeds. -/
theorem updateBox_eq_ok (h : d.isBox id = true) (f : BoxData → BoxData) :
    d.updateBox id f = .ok (d.modifyKind id (ItemKind.updateBox f)) := by
  obtain ⟨item, hitem, hget, -⟩ := item_eq_ok (lt_size_of_isBox h)
  obtain ⟨data, hdata⟩ := (isBox_iff_kind? d).1 h
  have hkind : item.kind = .box data := by simpa [kind?, hget] using hdata
  simp only [updateBox, hitem, bind, Except.bind, hkind]
  rfl

/-- Making an item the first one of a box changes the head of that box and nothing else. -/
theorem setHead_eq_ok (h : d.isBox id = true) (head : Option ItemId) :
    ∃ e, d.setHead id head = .ok e ∧ (∀ j, e.parent? j = d.parent? j) ∧
      (∀ j, e.prev? j = d.prev? j) ∧ (∀ j, e.next? j = d.next? j) ∧
      (∀ j, e.head? j = if j = id then head else d.head? j) ∧
      (∀ j, e.content? j = d.content? j) ∧
      e.items.size = d.items.size ∧ e.signature = d.signature := by
  refine ⟨_, updateBox_eq_ok d h _, by simp, by simp, by simp, ?_, ?_, by simp, rfl⟩
  · intro j
    obtain ⟨data, hdata⟩ := (isBox_iff_kind? d).1 h
    by_cases hj : j = id
    · subst hj
      simp [head?, box?, kind?_modifyKind, hdata, ItemKind.updateBox]
    · rw [if_neg hj]
      exact head?_congr_kind? (by rw [kind?_modifyKind, if_neg (fun he => hj he.symm)])
  · intro j
    unfold content?
    rw [kind?_modifyKind]
    split
    · rcases d.kind? j with _ | (_ | _ | _ | _) <;> rfl
    · rfl

/-- Marking a box changes its mark and nothing else. -/
theorem mark_eq_ok (h : d.isBox id = true) (complete : Bool) :
    ∃ e, d.updateBox id (fun data => { data with complete }) = .ok e ∧
      (∀ j, e.parent? j = d.parent? j) ∧ (∀ j, e.prev? j = d.prev? j) ∧
      (∀ j, e.next? j = d.next? j) ∧ (∀ j, e.head? j = d.head? j) ∧
      (∀ j, e.core? j = if j = id then
        (d.core? j).map (ItemKind.updateBox fun data => { data with complete }) else d.core? j) ∧
      e.items.size = d.items.size ∧ e.signature = d.signature := by
  refine ⟨_, updateBox_eq_ok d h _, by simp, by simp, by simp, ?_, ?_, by simp, rfl⟩
  · intro j
    unfold head? box?
    rw [kind?_modifyKind]
    by_cases hj : id = j
    · rw [if_pos hj]
      rcases d.kind? j with _ | (_ | _ | _ | _) <;> rfl
    · rw [if_neg hj]
  · intro j
    unfold core?
    rw [kind?_modifyKind]
    by_cases hj : j = id
    · rw [if_pos hj.symm, if_pos hj]
      rcases d.kind? j with _ | (_ | _ | _ | _) <;> rfl
    · rw [if_neg (fun he => hj he.symm), if_neg hj]

/-- The lines with a formula are the items of this kind. -/
theorem line?_eq_some_iff_kind? {f : Formula} {just : Justification} :
    d.line? id = some (f, just) ↔ ∃ n, d.kind? id = some (.line f just n) := by
  unfold line?
  rcases d.kind? id with _ | (_ | _ | _ | _)
  all_goals simp

/-- Giving a line another justification changes that justification and nothing else. -/
theorem setJust_eq_ok {f : Formula} {old : Justification} (h : d.line? id = some (f, old))
    (just : Justification) :
    ∃ e, d.setJust id just = .ok e ∧ (∀ j, e.parent? j = d.parent? j) ∧
      (∀ j, e.prev? j = d.prev? j) ∧ (∀ j, e.next? j = d.next? j) ∧
      (∀ j, e.head? j = d.head? j) ∧
      (∀ j, e.core? j = if j = id then some (.line f just 0) else d.core? j) ∧
      e.items.size = d.items.size ∧ e.signature = d.signature := by
  obtain ⟨n, hn⟩ := (line?_eq_some_iff_kind? d).1 h
  have hlt : id < d.items.size := by
    by_contra hlt
    rw [kind?, Array.getElem?_eq_none (Nat.not_lt.1 hlt)] at hn
    simp at hn
  obtain ⟨item, hitem, hget, -⟩ := item_eq_ok hlt
  have hkind : item.kind = .line f old n := by simpa [kind?, hget] using hn
  have hok : d.setJust id just = .ok (d.modifyKind id (ItemKind.updateJust fun _ => just)) := by
    simp only [setJust, hitem, bind, Except.bind, hkind]
    rfl
  refine ⟨_, hok, by simp, by simp, by simp, ?_, ?_, by simp, rfl⟩
  · intro j
    unfold head? box?
    rw [kind?_modifyKind]
    by_cases hj : id = j
    · rw [if_pos hj]
      rcases d.kind? j with _ | (_ | _ | _ | _) <;> rfl
    · rw [if_neg hj]
  · intro j
    unfold core?
    rw [kind?_modifyKind]
    by_cases hj : j = id
    · subst hj
      simp [hn, ItemKind.updateJust, ItemKind.core]
    · rw [if_neg (fun he => hj he.symm), if_neg hj]

/-- In the cores, too, the new item is cited in place of the old one. -/
theorem core?_redirect (old new j : ItemId) :
    (d.redirect old new).core? j =
      (d.core? j).map (ItemKind.updateJust (Justification.redirect old new)) := by
  unfold core?
  rw [kind?_redirect]
  rcases d.kind? j with _ | (_ | _ | _ | _) <;> rfl

/-- Redirecting citations changes no first items. -/
@[simp] theorem head?_redirect (old new j : ItemId) :
    (d.redirect old new).head? j = d.head? j := by
  unfold head? box?
  rw [kind?_redirect]
  rcases d.kind? j with _ | (_ | _ | _ | _) <;> rfl

/-- The new item has the core of its kind, and the others keep theirs. -/
theorem core?_alloc (kind : ItemKind) (j : ItemId) :
    (d.alloc kind).2.core? j = if j = d.items.size then some kind.core else d.core? j := by
  unfold core?
  rw [kind?_alloc]
  split <;> rfl

/-- The old items keep their contents. -/
theorem content?_alloc (kind : ItemKind) {j : ItemId} (hj : j < d.items.size) :
    (d.alloc kind).2.content? j = d.content? j := by
  rw [content?, content?, kind?_alloc, if_neg (Nat.ne_of_lt hj)]

/-- A new item has no first item: it is not a box, or a box without one. -/
theorem head?_alloc {kind : ItemKind} (hkind : ∀ data, kind = .box data → data.head = none)
    (j : ItemId) : (d.alloc kind).2.head? j = d.head? j := by
  unfold head? box?
  rw [kind?_alloc]
  by_cases hj : j = d.items.size
  · have hnone : d.kind? j = none := by simp [kind?, hj]
    rw [if_pos hj, hnone]
    cases kind with
    | box data => simp [hkind data rfl]
    | _ => rfl
  · rw [if_neg hj]

end Views

end Document
end NaturalDeduction
