import NaturalDeduction.Proofs.Document.Roles
import NaturalDeduction.Proofs.Document.Splice
import NaturalDeduction.Document.Completion

/-!
# Completing a document

Completion closes goals, drops empty lines and marks boxes, all by moves at the boxes it comes to.
It goes along the tree of the document as it was at the beginning, while the boxes lose lines; they
lose no boxes, so the boxes met are all the boxes there are.

The mark of a box is settled after the boxes inside it.  If the box is not complete it was not marked
before, since a coherent document has nothing open in a marked box; so no mark is ever taken off.
After completion the marks are honest: in a box without a mark there is a goal or such a box again.
And what stands in a box then is told by what stood in it before (`Coherent.checkCompletion_swept`).
-/

set_option autoImplicit false

namespace NaturalDeduction.Document

variable {d e : Document} {id box : ItemId} {V : List Meaning → Formula → Prop}

/-! ### Closing goals -/

section close

variable {us ys : List ItemId} {x gap goal : ItemId} {f : Formula}

/-- Ticking a goal that is given or assumed. -/
theorem WellLinked.tick_move (h : d.WellLinked)
    (hbox : d.children box = us ++ x :: gap :: goal :: ys) (hempty : d.isEmptyLine gap = true)
    {just : Justification} (hx : d.line? x = some (f, just)) (hpremise : just.isPremise = true)
    (hgoal : d.line? goal = some (f, .goal)) :
    ∃ mid e, d.delete gap = .ok mid ∧ mid.setJust goal (.byRule .tick [x]) = .ok e ∧
      Move d e box ∧ e.children box = (us ++ [x, goal]) ++ ys ∧ e.role goal = .derived f ∧
      ∀ j, j ≠ goal → e.role j = d.role j := by
  have hsplit : d.children box = (us ++ [x]) ++ gap :: goal :: ys := by simpa using hbox
  obtain ⟨mid, hok, hdropped, hsig⟩ := h.delete_droppedGap hsplit hempty
  have hgoal' : mid.line? goal = some (f, .goal) := by rw [line?_congr (hdropped.core goal), hgoal]
  obtain ⟨e, hok', hticked, hsig'⟩ := hdropped.linked.setJust_rejustified hgoal' .tick [x]
  refine ⟨mid, e, hok, hok', .tick hdropped hsig hx hpremise hticked hsig', ?_, ?_, fun j hj => ?_⟩
  · rw [hticked.children, hdropped.here]
    simp
  · exact role_eq_derived_iff.2 ⟨.tick, [x], by rw [hticked.line?_eq, if_pos rfl]⟩
  · rw [role_congr (hticked.core?_of_ne hj), role_congr (hdropped.core j)]

/-- Dropping a goal in favour of the line that proves it. -/
theorem WellLinked.merge_move (h : d.WellLinked)
    (hbox : d.children box = us ++ x :: gap :: goal :: ys) (hempty : d.isEmptyLine gap = true)
    {rule : Rule} {cites : List ItemId} (hx : d.line? x = some (f, .byRule rule cites))
    (hgoal : d.line? goal = some (f, .goal)) :
    ∃ mid e, d.delete gap = .ok mid ∧ mid.delete goal = .ok e ∧ Move d (e.redirect goal x) box ∧
      (e.redirect goal x).children box = (us ++ [x]) ++ ys ∧
      ∀ j, (e.redirect goal x).role j = d.role j := by
  have hsplit : d.children box = (us ++ [x]) ++ gap :: goal :: ys := by simpa using hbox
  obtain ⟨mid, hok, hdropped, hsig⟩ := h.delete_droppedGap hsplit hempty
  obtain ⟨e, hok', he, hkids, hsame⟩ := hdropped.linked.delete hdropped.here
  have hisBox : ∀ j, (e.redirect goal x).isBox j = e.isBox j := by
    intro j
    rw [isBox_eq_core, isBox_eq_core, core?_redirect]
    rcases e.core? j with _ | (_ | _ | _ | _) <;> rfl
  have hlinked : (e.redirect goal x).LinkedBy e.children :=
    he.linkedBy.of_eq hisBox (by simp) (by simp) (by simp) (by simp)
  have hmerged : DroppedGoal mid (e.redirect goal x) box us x goal ys := by
    refine ⟨by simpa using hdropped.here, ⟨f, rule, cites, ?_, ?_⟩, hlinked.wellLinked, ?_,
      fun b hb => ?_, fun j => ?_⟩
    · rw [line?_congr (hdropped.core x), hx]
    · rw [line?_congr (hdropped.core goal), hgoal]
    · rw [hlinked.children_eq, hkids, Function.update_self, List.append_assoc]
      rfl
    · rw [hlinked.children_eq, hkids, Function.update_of_ne hb]
    · rw [core?_redirect, hsame.core]
  refine ⟨mid, e, hok, hok', .merge hdropped hsig hmerged hsame.signature, ?_, fun j => ?_⟩
  · simpa using hmerged.here
  · rw [hmerged.role_eq, role_congr (hdropped.core j)]

/-- Where a line proves a goal, the goal is closed and the search goes on below it. -/
theorem WellLinked.closeGoals_step (h : d.WellLinked)
    (hbox : d.children box = us ++ x :: gap :: goal :: ys)
    (hproves : (d.role x).proves (d.role gap) (d.role goal) = true) :
    ∃ e kept, d.closeGoals (x :: gap :: goal :: ys) = e.closeGoals ys ∧ Move d e box ∧
      e.children box = (us ++ kept) ++ ys ∧ kept.map e.role = (d.role x).kept ∧
      ∀ j ∈ us ++ ys, e.role j = d.role j := by
  obtain ⟨f, hsaid, hgap, hgoal⟩ := Role.proves_iff.1 hproves
  rw [role_eq_gap_iff] at hgap
  rw [role_eq_goal_iff] at hgoal
  have hisGoal : d.isGoal goal = true := by simp [isGoal, hgoal, Justification.isGoal]
  have hformula : d.formula? goal = some f := by rw [formula?, hgoal]; rfl
  rcases hsaid with hx | hx
  · obtain ⟨just, hline, hpremise⟩ := role_eq_premise_iff.1 hx
    have hjust : just.isGoal = false := by
      cases just <;> simp [Justification.isPremise, Justification.isGoal] at hpremise ⊢
    obtain ⟨mid, e, hok, hok', hmove, hrow, hticked, hroles⟩ :=
      h.tick_move hbox hgap hline hpremise hgoal
    have hsplit : d.children box = (us ++ [x, gap]) ++ goal :: ys := by simpa using hbox
    have hnotMem : goal ∉ (us ++ [x, gap]) ++ ys :=
      (List.nodup_cons.1 (List.nodup_middle.1 (hsplit ▸ h.linkedBy.nodup box))).1
    simp only [List.mem_append, List.mem_cons, not_or] at hnotMem
    refine ⟨e, [x, goal], ?_, hmove, hrow, ?_, fun j hj => hroles j ?_⟩
    · simp [closeGoals, hline, hjust, hgap, hisGoal, hformula, hok, hok', hpremise, bind, Except.bind]
    · rw [hx, List.map_cons, List.map_cons, hticked, hroles x (Ne.symm hnotMem.1.2.1), hx]
      rfl
    · rintro rfl
      exact (List.mem_append.1 hj).elim hnotMem.1.1 hnotMem.2
  · obtain ⟨rule, cites, hline⟩ := role_eq_derived_iff.1 hx
    obtain ⟨mid, e, hok, hok', hmove, hrow, hroles⟩ := h.merge_move hbox hgap hline hgoal
    refine ⟨e.redirect goal x, [x], ?_, hmove, hrow, ?_, fun j _ => hroles j⟩
    · simp [closeGoals, hline, hgap, hisGoal, hformula, hok, hok', bind, Except.bind,
        Justification.isGoal, Justification.isPremise]
    · rw [List.map_cons, hroles, hx]
      rfl

/-- Where no goal is proved, the search goes on with the next line. -/
theorem closeGoals_skip (hproves : (d.role x).proves (d.role gap) (d.role goal) = false) :
    d.closeGoals (x :: gap :: goal :: ys) = d.closeGoals (gap :: goal :: ys) := by
  rw [closeGoals]
  split
  · rename_i f just hline
    split
    · rename_i hcond
      simp only [Bool.and_eq_true, Bool.not_eq_true', beq_iff_eq] at hcond
      obtain ⟨⟨⟨hjust, hgap⟩, hgoal⟩, hformula⟩ := hcond
      obtain ⟨g, hgoal⟩ := exists_line?_of_isGoal hgoal
      obtain rfl : g = f := by simpa [formula?, hgoal] using hformula
      rw [Role.proves_iff.2 ⟨g, says_role_iff.2 ⟨just, hline, hjust⟩, role_eq_gap_iff.2 hgap,
        role_eq_goal_iff.2 hgoal⟩] at hproves
      exact absurd hproves (by decide)
    · rfl
  · rfl

end close

namespace Coherent

/-- Closing the goals in the rest of a chain. -/
theorem closeGoals_moves (htick : ∀ f, V [.formula f] f) (n : Nat) :
    ∀ {d : Document} {pre ids : List ItemId}, ids.length = n → Coherent V d →
      d.children box = pre ++ ids →
      ∃ e ids', d.closeGoals ids = .ok e ∧ Moves (· = box) d e ∧ e.children box = pre ++ ids' ∧
        ids'.map e.role = Role.close (ids.map d.role) ∧ ∀ j ∈ pre, e.role j = d.role j := by
  induction n using Nat.strongRecOn with
  | ind n ih =>
    intro d pre ids hn h hbox
    match ids, hn, hbox with
    | [], _, hbox => exact ⟨d, [], rfl, .refl, hbox, rfl, fun _ _ => rfl⟩
    | [x], _, hbox => exact ⟨d, [x], rfl, .refl, hbox, rfl, fun _ _ => rfl⟩
    | [x, y], _, hbox => exact ⟨d, [x, y], rfl, .refl, hbox, rfl, fun _ _ => rfl⟩
    | x :: gap :: goal :: rest, hn, hbox =>
      simp only [List.length_cons] at hn
      simp only [List.map_cons, Role.close]
      cases hproves : (d.role x).proves (d.role gap) (d.role goal) with
      -- the row is taken one item further, or behind the goal that was closed
      | false =>
        have hrest : d.children box = (pre ++ [x]) ++ gap :: goal :: rest := by simpa using hbox
        obtain ⟨e, ids', hok, hmoves, hrow, hclose, hroles⟩ :=
          ih (rest.length + 1 + 1) (by omega) (by simp) h hrest
        refine ⟨e, x :: ids', by rw [closeGoals_skip hproves, hok], hmoves, by simpa using hrow, ?_,
          fun j hj => hroles j (List.mem_append_left [x] hj)⟩
        rw [List.map_cons, hclose, hroles x (by simp)]
        rfl
      | true =>
        obtain ⟨mid, kept, hstep, hmove, hrow, hkept, hroles⟩ := h.linked.closeGoals_step hbox hproves
        have hmoves : Moves (· = box) d mid := .single hmove rfl
        obtain ⟨e, ids', hok, hmoves', hrow', hclose, hroles'⟩ :=
          ih rest.length (by omega) rfl (hmoves.coherent htick h) hrow
        refine ⟨e, kept ++ ids', by rw [hstep, hok], hmoves.trans hmoves', by simpa using hrow', ?_,
          fun j hj => ?_⟩
        · have hkept' : kept.map e.role = kept.map mid.role :=
            List.map_congr_left fun j hj => hroles' j (List.mem_append_right pre hj)
          have hrest : rest.map mid.role = rest.map d.role :=
            List.map_congr_left fun j hj => hroles j (List.mem_append_right pre hj)
          rw [List.map_append, hkept', hkept, hclose, hrest]
          rfl
        · rw [hroles' j (List.mem_append_left kept hj), hroles j (List.mem_append_left rest hj)]

/-- Closing the goals of a box. -/
theorem closeGoals_roles (h : Coherent V d) (htick : ∀ f, V [.formula f] f) (box : ItemId) :
    ∃ e, d.closeGoals (d.children box) = .ok e ∧ Moves (· = box) d e ∧
      e.roles box = Role.close (d.roles box) := by
  obtain ⟨e, ids', hok, hmoves, hrow, hclose, -⟩ :=
    closeGoals_moves htick (d.children box).length rfl h (show _ = [] ++ d.children box from rfl)
  refine ⟨e, hok, hmoves, ?_⟩
  rw [roles, hrow]
  exact hclose

/-- Dropping the empty lines of a box without goals. -/
theorem deleteAll_moves (htick : ∀ f, V [.formula f] f) {ids : List ItemId} :
    ∀ {d : Document}, Coherent V d → ids.Nodup →
      (∀ i ∈ ids, i ∈ d.children box ∧ d.isEmptyLine i = true) →
      (∀ j ∈ d.children box, d.isGoal j = false) →
      ∃ e, d.deleteAll ids = .ok e ∧ Moves (· = box) d e ∧ (∀ j, e.core? j = d.core? j) ∧
        e.children box = (d.children box).filter (· ∉ ids) := by
  induction ids with
  | nil =>
    intro d _ _ _ _
    exact ⟨d, rfl, .refl, fun _ => rfl, by simp⟩
  | cons id ids ih =>
    intro d h hnodup hids hgoalless
    obtain ⟨hid, hnodup⟩ := List.nodup_cons.1 hnodup
    obtain ⟨hmem, hempty⟩ := hids id List.mem_cons_self
    obtain ⟨xs, ys, hsplit⟩ := List.append_of_mem hmem
    obtain ⟨e, hok, hdropped, hsig⟩ := h.linked.delete_droppedGap hsplit hempty
    have hmoves : Moves (· = box) d e := .single (.vacate hgoalless hdropped hsig) rfl
    have htrimmed := hdropped.trimmed h
    have hmem' : ∀ {j}, j ∈ e.children box ↔ j ∈ d.children box ∧ j ≠ id :=
      htrimmed.mem_children_iff h.linked
    have hids' : ∀ i ∈ ids, i ∈ e.children box ∧ e.isEmptyLine i = true := by
      intro i hi
      obtain ⟨himem, hiempty⟩ := hids i (List.mem_cons_of_mem id hi)
      have hne : i ≠ id := by rintro rfl; exact hid hi
      exact ⟨hmem'.2 ⟨himem, hne⟩, by rw [isEmptyLine_congr (hdropped.core i)]; exact hiempty⟩
    have hgoalless' : ∀ j ∈ e.children box, e.isGoal j = false := by
      intro j hj
      rw [isGoal_congr (hdropped.core j)]
      exact hgoalless j (hmem'.1 hj).1
    obtain ⟨f, hokf, hmovesf, hcoref, hgone⟩ :=
      ih (hmoves.coherent htick h) hnodup hids' hgoalless'
    refine ⟨f, ?_, hmoves.trans hmovesf, fun j => (hcoref j).trans (hdropped.core j), ?_⟩
    · simp only [deleteAll, hok, bind, Except.bind, hokf]
    · rw [hgone, htrimmed.children_eq_filter h.linked, List.filter_filter]
      refine List.filter_congr fun j _ => ?_
      simp [Bool.and_comm]

/-! ### Marking boxes -/

/-- Marking a box in which nothing is open succeeds. -/
theorem mark_marked (h : Coherent V d) (hbox : d.isBox box = true)
    (hfinished : ∀ id ∈ d.children box,
      d.isOpen id = false ∧ (d.isBox id = true → d.isClosed id = true)) :
    ∃ e, d.updateBox box (fun data => { data with complete := true }) = .ok e ∧ Marked d e box ∧
      e.signature = d.signature := by
  obtain ⟨e, hok, hp, hpr, hnx, hhd, hcore, -, hsig⟩ := mark_eq_ok d hbox true
  have hisBox : ∀ j, e.isBox j = d.isBox j := by
    intro j
    rw [isBox_eq_core, isBox_eq_core, hcore]
    by_cases hj : j = box
    · rw [if_pos hj]
      rcases d.core? j with _ | (_ | _ | _ | _) <;> rfl
    · rw [if_neg hj]
  have hlinked : e.LinkedBy d.children := h.linked.linkedBy.of_eq hisBox hp hpr hnx hhd
  exact ⟨e, hok, ⟨hlinked.wellLinked, hlinked.children_eq, hcore, hfinished⟩, hsig⟩

/-- Taking the mark off a box that has none changes nothing. -/
theorem unmark_relabel (h : Coherent V d) (hbox : d.isBox box = true)
    (hopen : d.isClosed box = false) :
    ∃ e, d.updateBox box (fun data => { data with complete := false }) = .ok e ∧ e.WellLinked ∧
      e.children = d.children ∧ (∀ j, e.core? j = d.core? j) ∧ e.signature = d.signature := by
  obtain ⟨e, hok, hp, hpr, hnx, hhd, hcore, -, hsig⟩ := mark_eq_ok d hbox false
  have hcore' : ∀ j, e.core? j = d.core? j := by
    intro j
    rw [hcore]
    by_cases hj : j = box
    · rw [if_pos hj, hj]
      rw [isClosed_eq_core] at hopen
      rcases hkind : d.core? box with _ | (_ | _ | _ | data)
      · rfl
      · rfl
      · rfl
      · rfl
      · simp only [hkind] at hopen
        simp [ItemKind.updateBox, ← hopen]
    · rw [if_neg hj]
  have hlinked : e.LinkedBy d.children :=
    h.linked.linkedBy.of_eq (fun j => isBox_congr (hcore' j)) hp hpr hnx hhd
  exact ⟨e, hok, hlinked.wellLinked, hlinked.children_eq, hcore', hsig⟩

end Coherent

/-- The mark of a box is honest: a box without a mark holds a goal or a box without a mark. -/
def Honest (d : Document) (box : ItemId) : Prop :=
  d.isClosed box = true ∨ ∃ id ∈ d.children box,
    d.isGoal id = true ∨ d.isBox id = true ∧ d.isClosed id = false

/-- Settling a box drops its empty lines if it is complete and marks it truly, by moves at this box.
-/
theorem Coherent.settleBox_moves (h : Coherent V d) (htick : ∀ f, V [.formula f] f)
    (hbox : d.isBox box = true) {complete : Bool}
    (hcomplete : complete = true ↔ ∀ id ∈ d.children box,
      d.isGoal id = false ∧ (d.isBox id = true → d.isClosed id = true)) :
    ∃ e, d.settleBox box complete = .ok e ∧ Moves (· = box) d e ∧
      e.isClosed box = complete ∧ e.roles box = Role.settle complete (d.roles box) ∧ e.Honest box := by
  cases complete with
  | true =>
    have hfinished := hcomplete.1 rfl
    have hnodup : ((d.children box).filter d.isEmptyLine).Nodup :=
      (h.linked.linkedBy.nodup box).filter _
    obtain ⟨e, hok, hmoves, hcore, hgone⟩ := h.deleteAll_moves htick hnodup
      (fun i hi => ⟨(List.mem_filter.1 hi).1, (List.mem_filter.1 hi).2⟩)
      (fun j hj => (hfinished j hj).1)
    have hrow : e.children box = (d.children box).filter fun j => d.role j ≠ .gap := by
      rw [hgone]
      refine List.filter_congr fun j hj => ?_
      simp [List.mem_filter, hj, role_eq_gap_iff]
    have he : Coherent V e := hmoves.coherent htick h
    have hbox' : e.isBox box = true := by rw [isBox_congr (hcore box)]; exact hbox
    have hfinished' : ∀ id ∈ e.children box,
        e.isOpen id = false ∧ (e.isBox id = true → e.isClosed id = true) := by
      intro id hid
      rw [hrow, List.mem_filter, decide_eq_true_eq] at hid
      obtain ⟨hmem, hempty⟩ := hid
      obtain ⟨hgoal, hinner⟩ := hfinished id hmem
      have hempty : d.isEmptyLine id = false := by
        rw [Bool.eq_false_iff, Ne, ← role_eq_gap_iff]
        exact hempty
      rw [isOpen_congr (hcore id), isBox_congr (hcore id), isClosed_congr (hcore id), isOpen, hempty,
        hgoal]
      exact ⟨rfl, hinner⟩
    obtain ⟨f, hokf, hmarked, hsig⟩ := he.mark_marked hbox' hfinished'
    have hclosed : f.isClosed box = true := by
      rw [isClosed_eq_core, hmarked.core, if_pos rfl]
      rw [isBox_eq_core] at hbox'
      rcases hkind : e.core? box with _ | (_ | _ | _ | _)
      all_goals simp [hkind] at hbox'
      rfl
    refine ⟨f, ?_, hmoves.trans (Moves.single (.mark hmarked hsig) rfl), hclosed, ?_,
      Or.inl hclosed⟩
    · simp only [settleBox, if_true, hok, bind, Except.bind]
      exact hokf
    · have hroles : ∀ j, f.role j = d.role j := fun j => by
        rw [hmarked.role_eq, role_congr (hcore j)]
      rw [roles, hmarked.children, hrow, funext hroles, Role.settle, if_pos rfl, roles,
        List.filter_map]
      rfl
  | false =>
    obtain ⟨id, hid, hunfinished⟩ : ∃ id ∈ d.children box,
        d.isGoal id = true ∨ d.isBox id = true ∧ d.isClosed id = false := by
      by_contra hnone
      refine absurd (hcomplete.2 fun id hid => ?_) (by decide)
      have hid' := not_or.1 fun hor => hnone ⟨id, hid, hor⟩
      exact ⟨by simpa using hid'.1, by simpa using hid'.2⟩
    -- a marked box would hold nothing open
    have hopen : d.isClosed box = false := by
      rw [Bool.eq_false_iff]
      intro hclosed
      obtain ⟨hopen, hinner⟩ := h.closed hclosed hid
      rw [isOpen, Bool.or_eq_false_iff] at hopen
      rcases hunfinished with hgoal | ⟨hisBox, hunmarked⟩
      · simp [hgoal] at hopen
      · simp [hinner hisBox] at hunmarked
    obtain ⟨e, hok, hlinked, hkids, hcore, hsig⟩ := h.unmark_relabel hbox hopen
    refine ⟨e, ?_, .single (.relabel hlinked hkids hcore hsig) rfl, ?_, ?_,
      Or.inr ⟨id, hkids ▸ hid, ?_⟩⟩
    · simp only [settleBox, bind, Except.bind, pure, Except.pure]
      exact hok
    · rw [isClosed_congr (hcore box), hopen]
    · exact roles_congr hkids hcore box
    · rwa [isGoal_congr (hcore id), isBox_congr (hcore id), isClosed_congr (hcore id)]

/-! ### Going along the tree -/

/-- A box has been completed: its goals have been closed, its empty lines have been dropped if it is
marked, and its mark is honest. -/
structure Swept (d e : Document) (box : ItemId) : Prop where
  roles : e.roles box = Role.settle (e.isClosed box) (Role.close (d.roles box))
  honest : e.Honest box

/-- A completed box stays so while moves are made elsewhere. -/
theorem Swept.moves {start : Document} {inside : ItemId → Prop} {b : ItemId} (h : start.Swept d b)
    (hmoves : Moves inside d e) (htick : ∀ f, V [.formula f] f) (hd : Coherent V d)
    (hb : ¬ inside b) (hkids : ∀ id ∈ d.children b, ¬ inside id) : start.Swept e b := by
  have hsame := hmoves.sameAt htick hd hb
  refine ⟨by rw [hmoves.roles_eq htick hd hb, hsame.isClosed, h.roles], ?_⟩
  rcases h.honest with hclosed | ⟨id, hid, hunfinished⟩
  · exact Or.inl (hsame.isClosed ▸ hclosed)
  · refine Or.inr ⟨id, hsame.children ▸ hid, ?_⟩
    rwa [hsame.isGoal_eq hid, (hmoves.shrunk htick hd).isBox,
      (hmoves.sameAt htick hd (hkids id hid)).isClosed]

/-- Sweeping a box depends only on the roles of its items. -/
theorem Swept.of_roles_eq {b : ItemId} {m : Document} (h : m.Swept e b)
    (hroles : m.roles b = d.roles b) : d.Swept e b :=
  ⟨by rw [h.roles, hroles], h.honest⟩

/-- A box of the document at the beginning can be completed whenever its turn comes; the answer is
whether it is marked, and it is completed afterwards with all boxes in it. -/
def Completable (V : List Meaning → Formula → Prop) (start : Document) (box : ItemId) : Prop :=
  ∀ {d : Document}, Coherent V d → Shrunk start d → start.isBox box = true →
    ∃ complete e, d.completeItem (.box box (start.outline box)) = .ok (complete, e) ∧
      Moves (start.Under box) d e ∧ e.isClosed box = complete ∧
      ∀ b, start.Under box b → start.isBox b = true → d.Swept e b

/-- What is completed under an item stays so while moves are made that do not concern the item. -/
theorem swept_of_moves {start m : Document} {inside : ItemId → Prop} {x : ItemId}
    (hstart : start.WellLinked) (htick : ∀ f, V [.formula f] f) (hm : Coherent V m)
    (hshrunk : Shrunk start m) (hmoves : Moves inside m e)
    (hfar : ∀ b, start.Under x b → ¬ inside b)
    (hswept : ∀ b, start.Under x b → start.isBox b = true → d.Swept m b) :
    ∀ b, start.Under x b → start.isBox b = true → d.Swept e b := by
  intro b hb hbox
  refine (hswept b hb hbox).moves hmoves htick hm (hfar b hb) fun id hid => hfar id ?_
  have hmem : id ∈ start.children b := (hshrunk.children b).subset hid
  exact Relation.ReflTransGen.head (hstart.standsIn_iff.2 hmem) hb

/-- The items of a box are completed one after the other.  None of them holds another, so the marks
of the first stay as they are. -/
theorem WellLinked.completeItems_moves {start : Document} (hstart : start.WellLinked)
    (htick : ∀ f, V [.formula f] f) {ids : List ItemId} :
    ∀ {d : Document}, ids.Sublist (start.children box) →
      (∀ x ∈ ids, Completable V start x) → Coherent V d → Shrunk start d →
      ∃ complete e,
        d.completeItems (ids.map fun id =>
          if start.isBox id then .box id (start.outline id) else .line id) = .ok (complete, e) ∧
        Moves (fun j => ∃ x ∈ ids, start.Under x j) d e ∧
        (complete = true ↔ ∀ x ∈ ids, start.isBox x = true → e.isClosed x = true) ∧
        ∀ x ∈ ids, ∀ b, start.Under x b → start.isBox b = true → d.Swept e b := by
  induction ids with
  | nil =>
    intro d _ _ _ _
    exact ⟨true, d, rfl, .refl, by simp, by simp⟩
  | cons x ids ih =>
    intro d hids hcompletable hd hshrunk
    have hmem : ∀ y ∈ x :: ids, y ∈ start.children box := fun y hy => hids.subset hy
    have hx : x ∉ ids := (List.nodup_cons.1 (hids.nodup (hstart.linkedBy.nodup box))).1
    -- the first item
    obtain ⟨first, e, hok, hmoves, hfirst, hswept⟩ : ∃ first e,
        d.completeItem (if start.isBox x then .box x (start.outline x) else .line x) =
          .ok (first, e) ∧
        Moves (start.Under x) d e ∧
        (first = true ↔ (start.isBox x = true → e.isClosed x = true)) ∧
        ∀ b, start.Under x b → start.isBox b = true → d.Swept e b := by
      cases hbox : start.isBox x with
      | false =>
        refine ⟨true, d, rfl, .refl, by simp, fun b hb hbBox => ?_⟩
        -- nothing stands in a line
        obtain rfl | ⟨c, -, hc⟩ := Relation.ReflTransGen.cases_tail hb
        · simp [hbox] at hbBox
        · simp [hstart.linkedBy.isBox_of_mem (hstart.standsIn_iff.1 hc)] at hbox
      | true =>
        obtain ⟨first, e, hok, hmoves, hclosed, hswept⟩ :=
          hcompletable x List.mem_cons_self hd hshrunk hbox
        exact ⟨first, e, hok, hmoves, by simp [hclosed], hswept⟩
    have he : Coherent V e := hmoves.coherent htick hd
    have hshrunk' : Shrunk start e := hshrunk.trans (hmoves.shrunk htick hd)
    -- the others
    obtain ⟨others, f, hokf, hmovesf, hothers, hsweptf⟩ :=
      ih ((List.sublist_cons_self x ids).trans hids)
        (fun y hy => hcompletable y (List.mem_cons_of_mem x hy)) he hshrunk'
    have hfar : ∀ b, start.Under x b → ¬ ∃ y ∈ ids, start.Under y b := by
      rintro b hb ⟨y, hy, hby⟩
      obtain rfl := hstart.eq_of_common (hmem x List.mem_cons_self)
        (hmem y (List.mem_cons_of_mem x hy)) hb hby
      exact hx hy
    have hkeep : f.isClosed x = e.isClosed x := (hmovesf.sameAt htick he (hfar x .refl)).isClosed
    refine ⟨first && others, f, ?_, ?_, ?_, ?_⟩
    · simp only [List.map_cons, completeItems, hok, bind, Except.bind, hokf]
      rfl
    · refine (hmoves.mono fun hb => ⟨x, List.mem_cons_self, hb⟩).trans (hmovesf.mono ?_)
      rintro b ⟨y, hy, hb⟩
      exact ⟨y, List.mem_cons_of_mem x hy, hb⟩
    · rw [Bool.and_eq_true, hfirst, hothers, List.forall_mem_cons, hkeep]
    · rw [List.forall_mem_cons]
      refine ⟨swept_of_moves hstart htick he hshrunk' hmovesf hfar hswept, fun y hy b hb hbox => ?_⟩
      exact (hsweptf y hy b hb hbox).of_roles_eq
        (hmoves.roles_eq htick hd fun hxb => hfar b hxb ⟨y, hy, hb⟩)

/-- Every box can be completed, from the innermost ones outwards. -/
theorem WellLinked.completable {start : Document} (hstart : start.WellLinked)
    (htick : ∀ f, V [.formula f] f) (box : ItemId) : Completable V start box := by
  induction box using hstart.box_induction with
  | step box ih =>
    intro d hd hshrunk hbox
    obtain ⟨e₁, hok₁, hmoves₁, hrow₁⟩ := hd.closeGoals_roles htick box
    have h₁ : Coherent V e₁ := hmoves₁.coherent htick hd
    have hshrunk₁ : Shrunk start e₁ := hshrunk.trans (hmoves₁.shrunk htick hd)
    obtain ⟨inner, e₂, hok₂, hmoves₂, hinner, hswept₂⟩ :=
      hstart.completeItems_moves htick (List.Sublist.refl (start.children box)) ih h₁ hshrunk₁
    have h₂ : Coherent V e₂ := hmoves₂.coherent htick h₁
    have hshrunk₂ : Shrunk start e₂ := hshrunk₁.trans (hmoves₂.shrunk htick h₁)
    have hbox₂ : e₂.isBox box = true := by rw [hshrunk₂.isBox]; exact hbox
    have hcomplete : (inner && !(e₂.children box).any e₂.isGoal) = true ↔
        ∀ id ∈ e₂.children box,
          e₂.isGoal id = false ∧ (e₂.isBox id = true → e₂.isClosed id = true) := by
      rw [Bool.and_eq_true, hinner, Bool.not_eq_true', List.any_eq_false]
      constructor
      · rintro ⟨hclosed, hgoals⟩ id hid
        refine ⟨Bool.eq_false_iff.2 (hgoals id hid), fun hisBox => ?_⟩
        exact hclosed id ((hshrunk₂.children box).subset hid) (by rwa [← hshrunk₂.isBox])
      · intro hall
        refine ⟨fun x hx hisBox => ?_, fun id hid => Bool.eq_false_iff.1 (hall id hid).1⟩
        exact (hall x (hshrunk₂.boxes hx hisBox)).2 (by rwa [hshrunk₂.isBox])
    obtain ⟨e₃, hok₃, hmoves₃, hclosed, hrow₃, hhonest⟩ := h₂.settleBox_moves htick hbox₂ hcomplete
    -- a box does not stand under its own items
    have hfar : ∀ x ∈ start.children box, ∀ c, start.Under x c → c ≠ box := by
      rintro x hx c hc rfl
      exact hstart.not_within_self c (Relation.TransGen.tail' hc (hstart.standsIn_iff.2 hx))
    refine ⟨_, e₃, ?_, ?_, hclosed, fun b hb hbBox => ?_⟩
    · rw [hstart.outline_eq, completeItem]
      simp only [hok₁, bind, Except.bind, hok₂, hok₃]
      rfl
    · refine ((hmoves₁.mono ?_).trans (hmoves₂.mono ?_)).trans (hmoves₃.mono ?_)
      · rintro _ rfl
        exact .refl
      · rintro b ⟨x, hx, hb⟩
        exact hb.tail (hstart.standsIn_iff.2 hx)
      · rintro _ rfl
        exact .refl
    · obtain rfl | ⟨x, hbx, hx⟩ := Relation.ReflTransGen.cases_tail hb
      · have hrow₂ : e₂.roles box = e₁.roles box :=
          hmoves₂.roles_eq htick h₁ fun ⟨x, hx, hb⟩ => hfar x hx box hb rfl
        exact ⟨by rw [hrow₃, hclosed, hrow₂, hrow₁], hhonest⟩
      · have hx := hstart.standsIn_iff.1 hx
        have hswept := swept_of_moves hstart htick h₂ hshrunk₂ hmoves₃ (hfar x hx) (hswept₂ x hx)
        exact (hswept b hbx hbBox).of_roles_eq (hmoves₁.roles_eq htick hd (hfar x hx b hbx))

/-! ### The whole document -/

/-- The goals of a coherent document are closed by moves; the answer is whether the outermost box is
marked, and all boxes are completed. -/
theorem Coherent.checkCompletion_swept (h : Coherent V d) (htick : ∀ f, V [.formula f] f) :
    ∃ complete e, d.checkCompletion = .ok (complete, e) ∧ Moves (fun _ => True) d e ∧
      e.isClosed root = complete ∧
      ∀ {b}, e.isLinked b = true → e.isBox b = true → d.Swept e b := by
  obtain ⟨complete, e, hok, hmoves, hclosed, hswept⟩ :=
    h.linked.completable htick root h (.refl d) h.linked.linkedBy.root_box
  have hshrunk := hmoves.shrunk htick h
  have he := hmoves.coherent htick h
  refine ⟨complete, e, hok, hmoves.mono fun _ => trivial, hclosed, fun {b} hlinked hbox => ?_⟩
  refine hswept b ?_ (by rwa [← hshrunk.isBox])
  -- the boxes are where they were
  rcases (he.linked.isLinked_iff_within he.rooted).1 hlinked with rfl | hin
  · exact .refl
  · refine Relation.TransGen.to_reflTransGen (Relation.TransGen.mono (fun id b hb => ?_) _ _ hin)
    exact h.linked.standsIn_iff.2 ((hshrunk.children b).subset (he.linked.standsIn_iff.1 hb))

/-- Completion goes through; it is made of moves, and afterwards all boxes are marked truly. -/
theorem Coherent.checkCompletion_moves (h : Coherent V d) (htick : ∀ f, V [.formula f] f) :
    ∃ complete e, d.checkCompletion = .ok (complete, e) ∧ Moves (fun _ => True) d e ∧
      e.isClosed root = complete ∧
      ∀ {b}, e.isLinked b = true → e.isBox b = true → e.Honest b := by
  obtain ⟨complete, e, hok, hmoves, hclosed, hswept⟩ := h.checkCompletion_swept htick
  exact ⟨complete, e, hok, hmoves, hclosed, fun hlinked hbox => (hswept hlinked hbox).honest⟩

/-- Numbering the lines anew changes nothing else. -/
theorem Coherent.renumber_move (h : Coherent V d) :
    Move d d.renumber root ∧ d.renumber.Numbered := by
  obtain ⟨hlinked, hkids, hsame, hnumbered⟩ := h.linked.renumber
  exact ⟨.relabel hlinked hkids hsame.core hsame.signature, hnumbered⟩

/-- The goals of the whole document are closed by moves, and it is numbered; the answer is whether
the outermost box is marked. -/
theorem Coherent.refresh_moves (h : Coherent V d) (htick : ∀ f, V [.formula f] f) :
    ∃ complete e, d.refresh = .ok (complete, e) ∧ Moves (fun _ => True) d e ∧ e.Numbered ∧
      e.isComplete = complete := by
  obtain ⟨complete, e, hok, hmoves, hclosed, -⟩ := h.checkCompletion_moves htick
  have he : Coherent V e := hmoves.coherent htick h
  obtain ⟨-, -, hsame, -⟩ := he.linked.renumber
  obtain ⟨hmove, hnumbered⟩ := he.renumber_move
  refine ⟨complete, e.renumber, ?_, hmoves.trans (Moves.single hmove trivial), hnumbered, ?_⟩
  · simp only [refresh, hok, bind, Except.bind]
    rfl
  · rw [← hclosed]
    exact isClosed_congr (hsame.core root)

/-- Closing the goals of the whole document brings nothing into it. -/
theorem Coherent.refresh_tidies (h : Coherent V d) (htick : ∀ f, V [.formula f] f) :
    ∃ complete e, d.refresh = .ok (complete, e) ∧ Tidies V d e ∧ e.Numbered ∧
      e.isComplete = complete := by
  obtain ⟨complete, e, hok, hmoves, hnumbered, hcomplete⟩ := h.refresh_moves htick
  exact ⟨complete, e, hok, hmoves.tidies htick, hnumbered, hcomplete⟩

end NaturalDeduction.Document
