import NaturalDeduction.Proofs.Document.Completion

/-!
# Refreshing again

Closing the goals of a document once need not close all that can be closed: of several goals with one
formula below a line that has it, each refresh closes one.  A document has settled when there is no
goal to close and all marks are honest; then a refresh leaves it as it is, and only then
(`Fresh.refresh_eq_self_iff`).  What is due after several refreshes is told by the document before
them (`Coherent.refreshed`).
-/

set_option autoImplicit false

namespace NaturalDeduction.Document

variable {d e : Document} {id box : ItemId} {V : List Meaning → Formula → Prop}

/-! ### Goals that are due after completion -/

/-- Completing a box leaves one goal less to close wherever there were some. -/
theorem Swept.due_iff (h : d.Swept e box) (he : Coherent V e) (n : Nat) :
    Role.Due (n + 1) (e.roles box) ↔ Role.Due (n + 2) (d.roles box) := by
  rw [← Role.due_close_iff, h.roles]
  cases hclosed : e.isClosed box with
  | false => rfl
  | true =>
    refine iff_of_false (fun hdue => ?_) (fun hdue => ?_)
    · -- a complete box has no empty lines
      simpa [Role.settle] using hdue.mem.1
    · -- nor does it have goals
      obtain ⟨f, hgoal⟩ := hdue.mem.2
      have hmem : .goal f ∈ e.roles box := by
        rw [h.roles, hclosed]
        simpa [Role.settle] using hgoal
      obtain ⟨id, hid, hisGoal⟩ := exists_goal_mem_roles_iff.1 ⟨f, hmem⟩
      have hopen := (he.closed hclosed hid).1
      simp [isOpen, hisGoal] at hopen

/-- Only boxes that stand in the document have goals. -/
theorem Coherent.isBox_of_due (h : Coherent V d) {n : Nat} (hdue : Role.Due n (d.roles box)) :
    d.isBox box = true ∧ d.isLinked box = true := by
  obtain ⟨id, hid⟩ : ∃ id, id ∈ d.children box := by
    refine List.exists_mem_of_length_pos ?_
    have hlen := hdue.lt_length
    rw [roles, List.length_map] at hlen
    omega
  exact ⟨h.linked.linkedBy.isBox_of_mem hid, h.rooted hid⟩

/-- Completion leaves one goal less to close wherever there were some. -/
theorem Coherent.checkCompletion_due (h : Coherent V d) (htick : ∀ f, V [.formula f] f) :
    ∃ complete e, d.checkCompletion = .ok (complete, e) ∧ Moves (fun _ => True) d e ∧
      e.isClosed root = complete ∧
      (∀ {b}, e.isLinked b = true → e.isBox b = true → d.Swept e b) ∧
      ∀ n b, Role.Due (n + 1) (e.roles b) ↔ Role.Due (n + 2) (d.roles b) := by
  obtain ⟨complete, e, hok, hmoves, hclosed, hswept⟩ := h.checkCompletion_swept htick
  have he := hmoves.coherent htick h
  have hshrunk := hmoves.shrunk htick h
  refine ⟨complete, e, hok, hmoves, hclosed, hswept, fun n b => ⟨fun hdue => ?_, fun hdue => ?_⟩⟩
  · obtain ⟨hbox, hlinked⟩ := he.isBox_of_due hdue
    exact ((hswept hlinked hbox).due_iff he n).1 hdue
  · obtain ⟨hbox, hlinked⟩ := h.isBox_of_due hdue
    have hlinked' := hshrunk.isLinked_of_isBox h.linked he.linked hbox hlinked
    exact ((hswept hlinked' (by rwa [hshrunk.isBox])).due_iff he n).2 hdue

/-! ### Writing what is there -/

/-- Nothing changes where the new kind of an item is the old one. -/
theorem modifyKind_eq_self {f : ItemKind → ItemKind}
    (h : ∀ kind, d.kind? id = some kind → f kind = kind) : d.modifyKind id f = d := by
  obtain ⟨items, signature⟩ := d
  simp only [modifyKind, modify, Document.mk.injEq, and_true]
  refine Array.ext_getElem? fun j => ?_
  rw [Array.getElem?_modify]
  split
  · rename_i hj
    subst hj
    cases hitem : items[id]? with
    | none => rfl
    | some item => simp [h item.kind (by simp [kind?, hitem])]
  · rfl

/-- Marking a box as it is marked changes nothing. -/
theorem mark_eq_self (hbox : d.isBox box = true) {complete : Bool}
    (hclosed : d.isClosed box = complete) :
    d.updateBox box (fun data => { data with complete }) = .ok d := by
  rw [updateBox_eq_ok d hbox, modifyKind_eq_self]
  intro kind hkind
  cases kind with
  | box data =>
    have : data.complete = complete := by simpa [isClosed, box?, hkind] using hclosed
    simp [ItemKind.updateBox, ← this]
  | _ => rfl

/-- Numbering lines that have their numbers changes nothing. -/
theorem numberFrom_eq_self {ids : List ItemId} :
    ∀ {n : Nat}, ids.map d.number? = (List.range' n ids.length).map some →
      d.numberFrom n ids = d := by
  induction ids with
  | nil => intro n _; rfl
  | cons id ids ih =>
    intro n h
    rw [List.map_cons, List.length_cons, List.range'_succ, List.map_cons] at h
    obtain ⟨hid, hids⟩ := List.cons.inj h
    have hsame : d.modifyKind id (ItemKind.withNumber n) = d := by
      refine modifyKind_eq_self fun kind hkind => ?_
      rw [number?, hkind] at hid
      cases kind with
      | box _ => rfl
      | _ => simp_all [ItemKind.withNumber, ItemKind.number?]
    rw [numberFrom, hsame, ih hids]

/-- Numbering a document that is numbered changes nothing. -/
theorem Numbered.renumber_eq (h : d.Numbered) : d.renumber = d := numberFrom_eq_self h

/-! ### Documents that have settled -/

/-- Where no goal is due, closing goals changes nothing. -/
theorem closeGoals_eq_self {ids : List ItemId} (h : ¬ Role.Due 1 (ids.map d.role)) :
    d.closeGoals ids = .ok d := by
  induction ids with
  | nil => rfl
  | cons x ids ih =>
    rw [List.map_cons, Role.due_cons_iff, not_or] at h
    have hrest := ih h.2
    match ids, h.1, hrest with
    | [], _, _ => rfl
    | [_], _, _ => rfl
    | gap :: goal :: rest, htop, hrest =>
      have hproves : (d.role x).proves (d.role gap) (d.role goal) = false := by
        rw [Bool.eq_false_iff]
        intro hproves
        obtain ⟨f, hsaid, hgap, hgoal⟩ := Role.proves_iff.1 hproves
        refine htop ⟨f, hsaid, ?_⟩
        simp [Role.stack, List.map_cons, hgap, hgoal, List.cons_prefix_cons]
      rw [closeGoals_skip hproves, hrest]

/-- Marking a box as it is marked and dropping its empty lines if it is complete changes nothing. -/
theorem Coherent.settleBox_eq_self (h : Coherent V d) (hbox : d.isBox box = true) :
    d.settleBox box (d.isClosed box) = .ok d := by
  cases hclosed : d.isClosed box with
  | false => exact mark_eq_self hbox hclosed
  | true =>
    have hnone : (d.children box).filter d.isEmptyLine = [] := by
      refine List.filter_eq_nil_iff.2 fun id hid hempty => ?_
      have hopen := (h.closed hclosed hid).1
      simp [isOpen, hempty] at hopen
    simp only [settleBox, if_true, hnone, deleteAll, bind, Except.bind]
    exact mark_eq_self hbox hclosed

/-- Whether a mark is honest depends on the items and their order only. -/
theorem Honest.congr (h : d.Honest box) (hkids : e.children = d.children)
    (hcore : ∀ j, e.core? j = d.core? j) : e.Honest box := by
  rcases h with hclosed | ⟨id, hid, hunfinished⟩
  · exact Or.inl (by rw [isClosed_congr (hcore box), hclosed])
  · refine Or.inr ⟨id, hkids ▸ hid, ?_⟩
    rwa [isGoal_congr (hcore id), isBox_congr (hcore id), isClosed_congr (hcore id)]

/-- An honest mark tells whether a goal or an unfinished box is left. -/
theorem Coherent.isClosed_iff_children (h : Coherent V d) (hhonest : d.Honest box) :
    d.isClosed box = true ↔ (∀ id ∈ d.children box, d.isBox id = true → d.isClosed id = true) ∧
      ∀ id ∈ d.children box, d.isGoal id = false := by
  constructor
  · intro hclosed
    refine ⟨fun id hid => (h.closed hclosed hid).2, fun id hid => ?_⟩
    have hopen := (h.closed hclosed hid).1
    rw [isOpen, Bool.or_eq_false_iff] at hopen
    exact hopen.2
  · rintro ⟨hboxes, hgoals⟩
    refine hhonest.resolve_right ?_
    rintro ⟨id, hid, hgoal | ⟨hbox, hopen⟩⟩
    · simp [hgoals id hid] at hgoal
    · simp [hboxes id hid hbox] at hopen

/-- A document in which no goal can be closed and all marks are honest. -/
structure Settled (d : Document) : Prop where
  done : ∀ box, ¬ Role.Due 1 (d.roles box)
  honest : ∀ {box}, d.isLinked box = true → d.isBox box = true → d.Honest box

namespace Settled

/-- Completing the items of a box changes nothing if completing each box among them does not. -/
theorem completeItems_eq_self {ids : List ItemId}
    (h : ∀ id ∈ ids, d.isBox id = true →
      d.completeItem (.box id (d.outline id)) = .ok (d.isClosed id, d)) :
    d.completeItems (ids.map fun id =>
        if d.isBox id then .box id (d.outline id) else .line id) =
      .ok (ids.all fun id => !d.isBox id || d.isClosed id, d) := by
  induction ids with
  | nil => rfl
  | cons id ids ih =>
    have hfirst : d.completeItem (if d.isBox id then .box id (d.outline id) else .line id) =
        .ok (!d.isBox id || d.isClosed id, d) := by
      cases hbox : d.isBox id with
      | false => rfl
      | true => simpa using h id List.mem_cons_self hbox
    have hrest := ih fun j hj => h j (List.mem_cons_of_mem id hj)
    simp only [List.map_cons, completeItems, hfirst, bind, Except.bind, hrest, List.all_cons]
    rfl

/-- Completing a box of a settled document changes nothing. -/
theorem completeItem_eq_self (h : d.Settled) (hd : Coherent V d) (box : ItemId) :
    d.isLinked box = true → d.isBox box = true →
      d.completeItem (.box box (d.outline box)) = .ok (d.isClosed box, d) := by
  induction box using hd.linked.box_induction with
  | step box ih =>
    intro hlinked hbox
    have hitems := completeItems_eq_self fun id hid =>
      ih id hid (hd.linked.isLinked_of_mem hid)
    have hcomplete : ((d.children box).all (fun id => !d.isBox id || d.isClosed id) &&
        !(d.children box).any d.isGoal) = d.isClosed box := by
      rw [Bool.eq_iff_iff, hd.isClosed_iff_children (h.honest hlinked hbox), Bool.and_eq_true,
        List.all_eq_true, Bool.not_eq_true', List.any_eq_false]
      simp only [Bool.or_eq_true, Bool.not_eq_true', Bool.not_eq_true]
      refine and_congr_left' (forall₂_congr fun id _ => ?_)
      cases d.isBox id <;> simp
    rw [hd.linked.outline_eq, completeItem]
    simp only [closeGoals_eq_self (h.done box), bind, Except.bind, hitems, hcomplete,
      hd.settleBox_eq_self hbox]
    rfl

/-- A refresh leaves a document that has settled as it is. -/
theorem refresh_eq_self (h : d.Settled) (hd : Coherent V d) (hnumbered : d.Numbered) :
    d.refresh = .ok (d.isClosed root, d) := by
  have hcheck : d.checkCompletion = .ok (d.isClosed root, d) :=
    h.completeItem_eq_self hd root (isLinked_iff.2 (Or.inl rfl)) hd.linked.linkedBy.root_box
  simp only [refresh, hcheck, bind, Except.bind, pure, Except.pure, hnumbered.renumber_eq]

end Settled

/-! ### Refreshing -/

/-- A document as a refresh leaves it. -/
structure Fresh (V : List Meaning → Formula → Prop) (d : Document) : Prop where
  coherent : Coherent V d
  numbered : d.Numbered
  honest : ∀ {box}, d.isLinked box = true → d.isBox box = true → d.Honest box

/-- A refresh leaves one goal less to close wherever there were some, and fewer lines. -/
theorem Coherent.refresh_fresh (h : Coherent V d) (htick : ∀ f, V [.formula f] f) :
    ∃ complete e, d.refresh = .ok (complete, e) ∧ e.Fresh V ∧ e.isClosed root = complete ∧
      (∀ n b, Role.Due (n + 1) (e.roles b) ↔ Role.Due (n + 2) (d.roles b)) ∧
      ∀ b, Role.Due 1 (d.roles b) → (e.roles b).length < (d.roles b).length := by
  obtain ⟨complete, e, hok, hmoves, hclosed, hswept, hdue⟩ := h.checkCompletion_due htick
  have he := hmoves.coherent htick h
  have hshrunk := hmoves.shrunk htick h
  obtain ⟨hlinked, hkids, hsame, hnumbered⟩ := he.linked.renumber
  have hroles := roles_congr hkids hsame.core
  refine ⟨complete, e.renumber, ?_, ⟨?_, hnumbered, ?_⟩, ?_, fun n b => ?_, fun b hb => ?_⟩
  · simp only [refresh, hok, bind, Except.bind]
    rfl
  · exact (he.renumber_move.1.tidies htick).coherent he
  · intro b hb hbox
    rw [(SameShape.of_core hlinked hkids hsame.core).isLinked_eq he.linked] at hb
    rw [isBox_congr (hsame.core b)] at hbox
    exact (hswept hb hbox).honest.congr hkids hsame.core
  · rw [isClosed_congr (hsame.core root), hclosed]
  · rw [hroles, hdue]
  · obtain ⟨hbox, hlinked⟩ := h.isBox_of_due hb
    have hlinked' := hshrunk.isLinked_of_isBox h.linked he.linked hbox hlinked
    rw [hroles, (hswept hlinked' (by rwa [hshrunk.isBox])).roles]
    calc (Role.settle (e.isClosed b) (Role.close (d.roles b))).length
        ≤ (Role.close (d.roles b)).length := Role.length_settle_le _ _
      _ < (d.roles b).length := Role.length_close_lt hb

/-- A refresh changes nothing just if there is no goal to close. -/
theorem Fresh.refresh_eq_self_iff (h : d.Fresh V) (htick : ∀ f, V [.formula f] f) :
    d.refresh = .ok (d.isClosed root, d) ↔ ∀ b, ¬ Role.Due 1 (d.roles b) := by
  constructor
  · intro hself b hdue
    obtain ⟨complete, e, hok, -, -, -, hlen⟩ := h.coherent.refresh_fresh htick
    obtain ⟨-, rfl⟩ := Prod.mk.inj (Except.ok.inj (hok.symm.trans hself))
    exact Nat.lt_irrefl _ (hlen b hdue)
  · intro hdone
    exact Settled.refresh_eq_self ⟨hdone, h.honest⟩ h.coherent h.numbered

/-- So many refreshes one after the other, with the last answer. -/
inductive Refreshed (d : Document) : Nat → Bool → Document → Prop
  | once {complete : Bool} {e : Document} (h : d.refresh = .ok (complete, e)) :
      Refreshed d 1 complete e
  | again {n : Nat} {before complete : Bool} {m e : Document} (hm : Refreshed d n before m)
      (h : m.refresh = .ok (complete, e)) : Refreshed d (n + 1) complete e

/-- Each refresh leaves one goal less to close wherever there were some. -/
theorem Coherent.refreshed (h : Coherent V d) (htick : ∀ f, V [.formula f] f) (n : Nat) :
    ∃ complete e, d.Refreshed (n + 1) complete e ∧ e.Fresh V ∧ e.isClosed root = complete ∧
      ∀ k b, Role.Due (k + 1) (e.roles b) ↔ Role.Due (k + (n + 2)) (d.roles b) := by
  induction n with
  | zero =>
    obtain ⟨complete, e, hok, hfresh, hclosed, hdue, -⟩ := h.refresh_fresh htick
    exact ⟨complete, e, .once hok, hfresh, hclosed, hdue⟩
  | succ n ih =>
    obtain ⟨_, m, hm, hfreshm, -, hduem⟩ := ih
    obtain ⟨complete, e, hok, hfresh, hclosed, hdue, -⟩ := hfreshm.coherent.refresh_fresh htick
    refine ⟨complete, e, .again hm hok, hfresh, hclosed, fun k b => ?_⟩
    rw [hdue, hduem, Nat.add_right_comm k 1]
    rfl

/-- There are no more goals in a row than items in the document. -/
theorem WellLinked.not_due (h : d.WellLinked) {n : Nat} (hn : d.items.size ≤ n) (box : ItemId) :
    ¬ Role.Due n (d.roles box) := by
  intro hdue
  have hlen := hdue.lt_length
  have hle := (h.row box).length_le
  rw [roles, List.length_map] at hlen
  omega

end NaturalDeduction.Document
