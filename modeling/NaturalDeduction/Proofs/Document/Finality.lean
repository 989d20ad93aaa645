import NaturalDeduction.Proofs.Document.Completion

/-!
# Completed boxes are final

In a marked box nothing is open, and edits are only ever made at open lines.  So no edit touches what
stands under a marked box (`Edits.untouched`).  The one edit that reaches further is the one that
drops a goal and lets its citations point to another line; but a goal is only cited in the box it
stands in, which is not marked.

After completion the marks say exactly which boxes hold no goal (`Coherent.isClosed_iff`).
-/

set_option autoImplicit false

namespace NaturalDeduction.Document

variable {d e : Document} {id box : ItemId} {V : List Meaning → Formula → Prop}
  {P : Signature → Formula → Prop}

/-! ### What stands under a marked box -/

/-- Under a box nothing has changed but line numbers. -/
structure Untouched (d e : Document) (box : ItemId) : Prop where
  children : ∀ {id}, d.Under box id → e.children id = d.children id
  core : ∀ {id}, d.Under box id → e.core? id = d.core? id

namespace Untouched

/-- A box that is not touched stays marked as complete. -/
theorem isClosed (h : Untouched d e box) (hclosed : d.isClosed box = true) :
    e.isClosed box = true := by
  rwa [isClosed_congr (h.core .refl)]

/-- What stood under the box stands there still. -/
theorem under (h : Untouched d e box) (hd : d.WellLinked) (he : e.WellLinked)
    (hid : d.Under box id) : e.Under box id := by
  induction hid using Relation.ReflTransGen.head_induction_on with
  | refl => exact .refl
  | head hstep hup ih =>
    refine Relation.ReflTransGen.head (he.standsIn_iff.2 ?_) ih
    rw [h.children hup]
    exact hd.standsIn_iff.1 hstep

/-- A box that is touched by neither of two edits is touched by none. -/
theorem trans {f : Document} (hde : Untouched d e box) (hef : Untouched e f box)
    (hd : d.WellLinked) (he : e.WellLinked) : Untouched d f box where
  children hid := (hef.children (hde.under hd he hid)).trans (hde.children hid)
  core hid := (hef.core (hde.under hd he hid)).trans (hde.core hid)

end Untouched

namespace Coherent

/-- The boxes inside a complete box are complete. -/
theorem isClosed_of_under (h : Coherent V d) (hbox : d.isClosed box = true) (hid : d.Under box id)
    (hisBox : d.isBox id = true) : d.isClosed id = true := by
  obtain rfl | hin := Relation.reflTransGen_iff_eq_or_transGen.1 hid
  · exact hbox
  · exact (h.closed_within hin hbox).2 hisBox

/-- Inside a complete box there are no goals and no empty lines. -/
theorem isOpen_of_under (h : Coherent V d) (hbox : d.isClosed box = true) (hid : d.Under box id) :
    d.isOpen id = false := by
  obtain rfl | hin := Relation.reflTransGen_iff_eq_or_transGen.1 hid
  · rw [Bool.eq_false_iff]
    intro hopen
    have hline := isBox_of_isOpen hopen
    simp [isBox_of_isClosed hbox] at hline
  · exact (h.closed_within hin hbox).1

/-- An open line does not stand under a marked box. -/
theorem ne_of_isOpen (h : Coherent V d) (hbox : d.isClosed box = true) (hid : d.Under box id)
    {anchor place : ItemId} (hmem : anchor ∈ d.children place) (hopen : d.isOpen anchor = true) :
    id ≠ place := by
  rintro rfl
  have hanchor : d.Under box anchor := Relation.ReflTransGen.head (h.linked.standsIn_iff.2 hmem) hid
  simp [h.isOpen_of_under hbox hanchor] at hopen

/-- A line under a marked box does not cite a goal. -/
theorem not_cites_goal (h : Coherent V d) (hbox : d.isClosed box = true) (hid : d.Under box id)
    {f : Formula} {rule : Rule} {cites : List ItemId}
    (hline : d.line? id = some (f, .byRule rule cites)) {goal : ItemId}
    (hgoal : d.isGoal goal = true) : goal ∉ cites := by
  intro hcite
  obtain rfl | hin := Relation.reflTransGen_iff_eq_or_transGen.1 hid
  · have hbox' := isBox_of_isClosed hbox
    simp [isBox_of_line? hline] at hbox'
  · -- the goal would stand beside the line, in a box under the marked one
    obtain ⟨place, hstep, hup⟩ := Relation.TransGen.head'_iff.1 hin
    have hmem := h.linked.standsIn_iff.1 hstep
    obtain ⟨hcites, -⟩ := h.supported (h.linked.isLinked_of_mem hmem) hline
    obtain ⟨place', hgoal', hmem'⟩ := (hcites goal hcite).2 hgoal
    obtain rfl := h.linked.linkedBy.box_unique hmem hmem'
    exact h.ne_of_isOpen hbox hup hgoal' (by simp [isOpen, hgoal]) rfl

end Coherent

/-! ### Edits -/

/-- Marking a box that is marked already changes nothing. -/
theorem Marked.core?_of_isClosed (m : Marked d e box) (hid : d.isBox id = true → d.isClosed id = true) :
    e.core? id = d.core? id := by
  obtain hsame | ⟨data, hd, he⟩ := m.core?_cases id
  · exact hsame
  · have hclosed := hid (by rw [isBox_eq_core, hd])
    rw [isClosed_eq_core, hd] at hclosed
    rw [he, hd, ← hclosed]

/-- Dropping a goal changes no line that does not cite it. -/
theorem DroppedGoal.core?_of_not_cites {us ys : List ItemId} {x goal : ItemId}
    (g : DroppedGoal d e box us x goal ys) {j : ItemId}
    (hj : ∀ f rule cites, d.line? j = some (f, .byRule rule cites) → goal ∉ cites) :
    e.core? j = d.core? j := by
  rw [g.core]
  rcases hcore : d.core? j with _ | (⟨f, _ | _ | _ | ⟨rule, cites⟩, n⟩ | _ | _ | _)
  case some.line.byRule =>
    have hgoal := hj f rule cites (by rw [line?_eq_core, hcore])
    have hmap : cites.map (fun cite => if cite = goal then x else cite) =
        cites.map fun cite => cite := by
      refine List.map_congr_left fun cite hcite => if_neg ?_
      rintro rfl
      exact hgoal hcite
    simp [ItemKind.updateJust, Justification.redirect, hmap]
  all_goals rfl

/-- An edit does not touch a complete box. -/
theorem Edit.untouched (h : Edit V P d e) (hd : Coherent V d) (hbox : d.isClosed box = true) :
    Untouched d e box := by
  have hne : ∀ {id anchor place}, d.Under box id → anchor ∈ d.children place →
      d.isOpen anchor = true → id ≠ place := fun hid => hd.ne_of_isOpen hbox hid
  cases h with
  | @insert box' anchor xs ys kind inner grown hopen new hsig =>
    have hlt : ∀ {id}, d.Under box id → id < d.items.size := by
      intro id hid
      obtain rfl | hin := Relation.reflTransGen_iff_eq_or_transGen.1 hid
      · exact lt_size_of_isBox (isBox_of_isClosed hbox)
      · exact hd.linked.lt_size_of_within hin
    exact ⟨fun hid => grown.elsewhere _ (hne hid grown.anchor_mem hopen) (Nat.ne_of_lt (hlt hid)),
      fun hid => grown.old (hlt hid)⟩
  | @justify goal f rule cites rejustified _ _ =>
    refine ⟨fun _ => by rw [rejustified.children], fun {id} hid => rejustified.core?_of_ne ?_⟩
    rintro rfl
    have hopen := hd.isOpen_of_under hbox hid
    simp [isOpen, isGoal, rejustified.before, Justification.isGoal] at hopen
  | mark marked _ =>
    exact ⟨fun _ => by rw [marked.children],
      fun hid => marked.core?_of_isClosed (hd.isClosed_of_under hbox hid)⟩
  | @dropGap place gap xs ys dropped _ =>
    have hmem : gap ∈ d.children place := by simp [dropped.before]
    have hopen : d.isOpen gap = true := by simp [isOpen, dropped.empty]
    exact ⟨fun hid => dropped.elsewhere _ (hne hid hmem hopen), fun _ => dropped.core _⟩
  | @dropGoal place x goal us ys dropped _ =>
    obtain ⟨f, rule, cites, -, hline⟩ := dropped.same
    have hmem : goal ∈ d.children place := by simp [dropped.before]
    have hgoal : d.isGoal goal = true := by simp [isGoal, hline, Justification.isGoal]
    have hopen : d.isOpen goal = true := by simp [isOpen, hgoal]
    exact ⟨fun hid => dropped.elsewhere _ (hne hid hmem hopen),
      fun hid => dropped.core?_of_not_cites fun _ _ _ hline => hd.not_cites_goal hbox hid hline hgoal⟩
  | relabel _ children core _ => exact ⟨fun _ => by rw [children], fun _ => core _⟩

namespace Edits

/-- A marked box stays in the document, and what stands under it stays as it is. -/
theorem untouched (h : Edits V P d e) (hd : Coherent V d) (hbox : d.isClosed box = true)
    (hlinked : d.isLinked box = true) : e.isLinked box = true ∧ Untouched d e box := by
  induction h with
  | refl => exact ⟨hlinked, fun _ => rfl, fun _ => rfl⟩
  | tail hsteps hstep ih =>
    obtain ⟨hlinked', hsame⟩ := ih
    have hmid := coherent hsteps hd
    have hclosed := hsame.isClosed hbox
    exact ⟨hstep.isLinked_of_isBox hmid (isBox_of_isClosed hclosed) hlinked',
      hsame.trans (hstep.untouched hmid hclosed) hd.linked hmid.linked⟩

end Edits

/-! ### Honest marks -/

/-- Where all marks are honest, the marked boxes are those without a goal. -/
theorem Coherent.isClosed_iff (h : Coherent V d)
    (hhonest : ∀ {b}, d.isLinked b = true → d.isBox b = true → d.Honest b)
    (hlinked : d.isLinked box = true) (hbox : d.isBox box = true) :
    d.isClosed box = true ↔ ∀ id, d.Within id box → d.isGoal id = false := by
  constructor
  · intro hclosed id hin
    have hopen := (h.closed_within hin hclosed).1
    rw [isOpen, Bool.or_eq_false_iff] at hopen
    exact hopen.2
  · induction box using h.linked.box_induction with
    | step box ih =>
      intro hgoals
      have hstands : ∀ {id}, id ∈ d.children box → d.StandsIn id box := h.linked.standsIn_iff.2
      rcases hhonest hlinked hbox with hclosed | ⟨id, hid, hgoal | ⟨hisBox, hunmarked⟩⟩
      · exact hclosed
      · simp [hgoals id (.single (hstands hid))] at hgoal
      · -- a box inside without a mark holds a goal, by induction
        have hmarked := ih id hid (h.linked.isLinked_of_mem hid) hisBox fun j hj =>
          hgoals j (hj.tail (hstands hid))
        simp [hmarked] at hunmarked

end NaturalDeduction.Document
