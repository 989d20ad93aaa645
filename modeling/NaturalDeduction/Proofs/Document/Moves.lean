import NaturalDeduction.Proofs.Document.Edit
import NaturalDeduction.Proofs.Document.Spacing

/-!
# The moves of completion

Completion changes a document by a few kinds of moves, each at one box: it ticks a goal, drops a goal
in favour of the line that proves it, drops an empty line of a box without goals, and marks a box.
`Move` lists them, so that what completion does to a document is read off the moves.

Moves are edits that bring nothing into the document (`Moves.tidies`).  The boxes lose lines but no
boxes (`Moves.shrunk`), and a box at which no move is made stays as it is (`Moves.sameAt`).  A well
spaced document stays well spaced (`Moves.spaced`).
-/

set_option autoImplicit false

namespace NaturalDeduction.Document

variable {d e : Document} {id box : ItemId} {V : List Meaning → Formula → Prop}

/-! ### What moves may change -/

/-- The second document has the boxes of the first, with fewer lines in them. -/
structure Shrunk (d e : Document) : Prop where
  children : ∀ b, (e.children b).Sublist (d.children b)
  isBox : ∀ j, e.isBox j = d.isBox j
  boxes : ∀ {b x}, x ∈ d.children b → d.isBox x = true → x ∈ e.children b

namespace Shrunk

/-- A document has shrunk by nothing. -/
theorem refl (d : Document) : Shrunk d d :=
  ⟨fun _ => List.Sublist.refl _, fun _ => rfl, fun hx _ => hx⟩

/-- A document can shrink further. -/
theorem trans {f : Document} (hde : Shrunk d e) (hef : Shrunk e f) : Shrunk d f where
  children b := (hef.children b).trans (hde.children b)
  isBox j := (hef.isBox j).trans (hde.isBox j)
  boxes hx hbox := hef.boxes (hde.boxes hx hbox) (by rw [hde.isBox]; exact hbox)

/-- Without one of its lines, a document has shrunk. -/
theorem of_trimmed {xs ys : List ItemId} (t : Trimmed d e box xs id ys) (hd : d.WellLinked) :
    Shrunk d e where
  children := t.children_sublist
  isBox := t.isBox
  boxes hx hbox := (t.mem_children_iff hd).2 ⟨hx, t.ne_of_isBox hbox⟩

/-- A document of the same shape has shrunk by nothing. -/
theorem of_sameShape (h : SameShape d e) : Shrunk d e :=
  ⟨fun b => by rw [h.children], h.isBox, fun hx _ => h.children ▸ hx⟩

/-- A box that stands in the document stands in it still. -/
theorem isLinked_of_isBox (h : Shrunk d e) (hd : d.WellLinked) (he : e.WellLinked)
    (hbox : d.isBox id = true) (hlinked : d.isLinked id = true) : e.isLinked id = true := by
  rcases isLinked_iff.1 hlinked with rfl | ⟨b, hb⟩
  · exact isLinked_iff.2 (Or.inl rfl)
  · exact he.isLinked_of_mem (h.boxes (hd.mem_children_iff.2 hb) hbox)

end Shrunk

/-- A box is as it was: it has its items, its mark, and the empty lines and goals among its items. -/
structure SameAt (d e : Document) (b : ItemId) : Prop where
  children : e.children b = d.children b
  isClosed : e.isClosed b = d.isClosed b
  spots : ∀ j ∈ d.children b, e.spot j = d.spot j

/-- In a box that is as it was, the goals are the same. -/
theorem SameAt.isGoal_eq {b : ItemId} (h : SameAt d e b) (hid : id ∈ d.children b) :
    e.isGoal id = d.isGoal id := by
  rw [Bool.eq_iff_iff, ← spot_eq_goal_iff, ← spot_eq_goal_iff, h.spots id hid]

/-- A box that stays as it was twice is as it was. -/
theorem SameAt.trans {f : Document} {b : ItemId} (hde : SameAt d e b) (hef : SameAt e f b) :
    SameAt d f b where
  children := hef.children.trans hde.children
  isClosed := hef.isClosed.trans hde.isClosed
  spots j hj := (hef.spots j (hde.children ▸ hj)).trans (hde.spots j hj)

/-- Marks make no difference to spacing. -/
theorem Marked.spot_eq (m : Marked d e box) (j : ItemId) : e.spot j = d.spot j := by
  obtain hsame | ⟨data, hd, he⟩ := m.core?_cases j
  · exact spot_congr hsame
  · rw [spot, spot, hd, he]
    rfl

/-- Dropping a goal makes no difference to what the items count for. -/
theorem DroppedGoal.spot_eq {us ys : List ItemId} {x goal : ItemId}
    (g : DroppedGoal d e box us x goal ys) (j : ItemId) : e.spot j = d.spot j := by
  rw [spot, spot, g.core]
  rcases d.core? j with _ | (⟨_, _ | _ | _ | _, _⟩ | _ | _ | _) <;> rfl

/-! ### One move -/

/-- What completion does at a time, at one box. -/
inductive Move (d e : Document) (box : ItemId) : Prop
  /-- The goal below an empty line is ticked, since it is given or assumed above, and the empty line
  goes. -/
  | tick {mid : Document} {us ys : List ItemId} {x gap goal : ItemId} {f : Formula}
      {just : Justification} (dropped : DroppedGap d mid box (us ++ [x]) gap (goal :: ys))
      (hsig : mid.signature = d.signature) (hx : d.line? x = some (f, just))
      (hpremise : just.isPremise = true) (ticked : Rejustified mid e goal f .tick [x])
      (hsig' : e.signature = mid.signature)
  /-- The goal below an empty line goes together with it, since it has been derived above. -/
  | merge {mid : Document} {us ys : List ItemId} {x gap goal : ItemId}
      (dropped : DroppedGap d mid box (us ++ [x]) gap (goal :: ys))
      (hsig : mid.signature = d.signature) (merged : DroppedGoal mid e box us x goal ys)
      (hsig' : e.signature = mid.signature)
  /-- An empty line goes from a box in which no goal is left. -/
  | vacate {xs ys : List ItemId} {gap : ItemId} (goalless : ∀ j ∈ d.children box, d.isGoal j = false)
      (dropped : DroppedGap d e box xs gap ys) (hsig : e.signature = d.signature)
  /-- The box is marked. -/
  | mark (marked : Marked d e box) (hsig : e.signature = d.signature)
  /-- Only line numbers change. -/
  | relabel (linked : e.WellLinked) (children : e.children = d.children)
      (core : ∀ j, e.core? j = d.core? j) (hsig : e.signature = d.signature)

namespace Move

/-- A premise may be cited by the goal right below it. -/
theorem supported_tick {mid : Document} {us ys : List ItemId} {x gap goal : ItemId} {f : Formula}
    {just : Justification} (htick : ∀ f, V [.formula f] f)
    (dropped : DroppedGap d mid box (us ++ [x]) gap (goal :: ys))
    (hx : d.line? x = some (f, just)) : Supported V mid goal f [x] := by
  have hrow : mid.children box = us ++ x :: goal :: ys := by simpa using dropped.here
  have hx' : mid.line? x = some (f, just) := by rw [line?_congr (dropped.core x), hx]
  refine ⟨fun c hc => ?_, [.formula f], by simp [meaning?_of_line hx'], htick f⟩
  obtain rfl := List.mem_singleton.1 hc
  refine ⟨.beside (show [c, goal].Sublist (mid.children box) from ?_),
    fun _ => ⟨box, by simp [hrow], by simp [hrow]⟩⟩
  rw [hrow]
  exact ((List.nil_sublist ys).cons_cons goal |>.cons_cons c).trans (List.sublist_append_right us _)

/-- A move is made by edits that bring nothing into the document. -/
theorem tidies (h : Move d e box) (htick : ∀ f, V [.formula f] f) : Tidies V d e := by
  cases h with
  | tick dropped hsig hx _ ticked hsig' =>
    exact (Tidies.single (.dropGap dropped hsig) hsig).trans
      (.single (.justify ticked (supported_tick htick dropped hx) hsig') hsig')
  | merge dropped hsig merged hsig' =>
    exact (Tidies.single (.dropGap dropped hsig) hsig).trans
      (.single (.dropGoal merged hsig') hsig')
  | vacate _ dropped hsig => exact .single (.dropGap dropped hsig) hsig
  | mark marked hsig => exact .single (.mark marked hsig) hsig
  | relabel linked children core hsig =>
    exact .single (.relabel linked children core fun name hname => hsig ▸ hname) hsig

/-- A move lets a document shrink. -/
theorem shrunk (h : Move d e box) (hd : Coherent V d) : Shrunk d e := by
  cases h with
  | tick dropped _ _ _ ticked _ =>
    exact (Shrunk.of_trimmed (dropped.trimmed hd) hd.linked).trans (.of_sameShape ticked.sameShape)
  | merge dropped _ merged _ =>
    exact (Shrunk.of_trimmed (dropped.trimmed hd) hd.linked).trans
      (.of_trimmed merged.trimmed dropped.linked)
  | vacate _ dropped _ => exact .of_trimmed (dropped.trimmed hd) hd.linked
  | mark marked _ => exact .of_sameShape marked.sameShape
  | relabel linked children core _ => exact .of_sameShape (.of_core linked children core)

/-- A move at one box leaves the others as they are. -/
theorem sameAt (h : Move d e box) (hd : d.WellLinked) {b : ItemId} (hb : b ≠ box) :
    SameAt d e b := by
  cases h with
  | @tick mid us ys x gap goal f just dropped _ _ _ ticked _ =>
    refine ⟨?_, ?_, fun j hj => ?_⟩
    · rw [ticked.children, dropped.elsewhere b hb]
    · rw [ticked.isClosed_eq, isClosed_congr (dropped.core b)]
    · have hne : j ≠ goal := by
        rintro rfl
        exact hb (hd.linkedBy.box_unique hj (by simp [dropped.before]))
      rw [spot_congr (ticked.core?_of_ne hne), spot_congr (dropped.core j)]
  | merge dropped _ merged _ =>
    refine ⟨?_, ?_, fun j _ => ?_⟩
    · rw [merged.elsewhere b hb, dropped.elsewhere b hb]
    · rw [merged.isClosed_eq, isClosed_congr (dropped.core b)]
    · rw [merged.spot_eq, spot_congr (dropped.core j)]
  | vacate _ dropped _ =>
    exact ⟨dropped.elsewhere b hb, isClosed_congr (dropped.core b),
      fun j _ => spot_congr (dropped.core j)⟩
  | mark marked _ =>
    exact ⟨by rw [marked.children], marked.isClosed_of_ne hb,
      fun j _ => marked.spot_eq j⟩
  | relabel _ children core _ =>
    exact ⟨by rw [children], isClosed_congr (core b), fun j _ => spot_congr (core j)⟩

/-- A move leaves the chain of its box well spaced. -/
theorem spacedAt (h : Move d e box) (hbox : d.SpacedAt box) : e.SpacedAt box := by
  cases h with
  | @tick mid us ys x gap goal f just dropped _ _ _ ticked _ =>
    -- the goal becomes a line like any other, so what is below it stays in order
    have hgoal : d.spot goal = .goal := by rw [← spot_congr (dropped.core goal), ticked.spot_before]
    have hnodup := List.nodup_middle.1 (dropped.here ▸ dropped.linked.linkedBy.nodup box)
    have hsame : mid.spot = d.spot := funext fun j => spot_congr (dropped.core j)
    obtain ⟨hus, hys⟩ := not_or.1 fun h => (List.nodup_cons.1 hnodup).1 (List.mem_append.2 h)
    rw [SpacedAt, dropped.before, List.map_append, Spot.spaced_append] at hbox
    simp only [List.map_cons, Spot.spaced_cons, hgoal] at hbox
    obtain ⟨habove, -, -, hbelow⟩ := hbox
    rw [SpacedAt, ticked.children, dropped.here, List.map_append, List.map_cons, ticked.map_spot hus,
      ticked.map_spot hys, ticked.spot_after, hsame, Spot.spaced_append]
    exact ⟨habove, Spot.spaced_cons.2 ⟨trivial, hbelow.of_goal⟩⟩
  | @merge mid us ys x gap goal dropped _ merged _ =>
    obtain ⟨f, rule, cites, hx, hgoal⟩ := merged.same
    have hx : d.spot x = .other := by rw [← spot_congr (dropped.core x), spot_of_byRule hx]
    have hgoal : d.spot goal = .goal := by
      rw [← spot_congr (dropped.core goal), spot_eq_goal_iff]
      simp [isGoal, hgoal, Justification.isGoal]
    have hspots : ∀ j, e.spot j = d.spot j := fun j => by
      rw [merged.spot_eq, spot_congr (dropped.core j)]
    rw [SpacedAt, dropped.before, List.map_append, Spot.spaced_append] at hbox
    simp only [List.map_cons, Spot.spaced_cons, hgoal] at hbox
    obtain ⟨habove, -, -, hbelow⟩ := hbox
    have hrow : e.children box = us ++ [x] ++ ys := by simpa using merged.here
    rw [SpacedAt, hrow, funext hspots, List.map_append, Spot.spaced_append]
    refine ⟨habove, ?_⟩
    -- the line that proves the goal is followed by what followed the goal
    have hlast : ((us ++ [x]).map d.spot).getLastD .other = .other := by simp [hx]
    rw [hlast]
    exact hbelow.of_goal
  | @vacate xs ys gap goalless dropped _ =>
    have hspots : ∀ j, e.spot j = d.spot j := fun j => spot_congr (dropped.core j)
    -- without goals there is nothing that an empty line has to stand above
    have hgoal : Spot.goal ∉ ys.map d.spot := by
      intro hmem
      obtain ⟨j, hj, hspot⟩ := List.mem_map.1 hmem
      have hgoal := goalless j (by simp [dropped.before, hj])
      simp [spot_eq_goal_iff.1 hspot] at hgoal
    rw [SpacedAt, dropped.before, List.map_append, Spot.spaced_append] at hbox
    simp only [List.map_cons, Spot.spaced_cons, spot_eq_gap_iff.2 dropped.empty] at hbox
    obtain ⟨habove, -, hbelow⟩ := hbox
    rw [SpacedAt, dropped.here, funext hspots, List.map_append, Spot.spaced_append]
    exact ⟨habove, hbelow.of_gap hgoal⟩
  | mark marked _ => exact hbox.congr (by rw [marked.children]) fun j _ => marked.spot_eq j
  | relabel _ children core _ => exact hbox.congr (by rw [children]) fun j _ => spot_congr (core j)

/-- A move keeps a document well spaced. -/
theorem spaced (h : Move d e box) (hd : d.WellLinked) (hspaced : d.Spaced) : e.Spaced := by
  intro b
  by_cases hb : b = box
  · rw [hb]
    exact h.spacedAt (hspaced box)
  · have hsame := h.sameAt hd hb
    exact (hspaced b).congr hsame.children hsame.spots

end Move

/-! ### Several moves -/

/-- Moves one after the other, at boxes of which something holds. -/
abbrev Moves (inside : ItemId → Prop) : Document → Document → Prop :=
  Relation.ReflTransGen fun d e => ∃ box, inside box ∧ Move d e box

namespace Moves

variable {inside inside' : ItemId → Prop}

/-- One move is a sequence of moves. -/
theorem single (h : Move d e box) (hbox : inside box) : Moves inside d e :=
  Relation.ReflTransGen.single ⟨box, hbox, h⟩

/-- Moves at some boxes are moves at more boxes. -/
theorem mono (h : Moves inside d e) (himp : ∀ {b}, inside b → inside' b) : Moves inside' d e := by
  induction h with
  | refl => exact .refl
  | tail _ hstep ih =>
    obtain ⟨box, hbox, hmove⟩ := hstep
    exact ih.tail ⟨box, himp hbox, hmove⟩

/-- Moves are tidying. -/
theorem tidies (h : Moves inside d e) (htick : ∀ f, V [.formula f] f) : Tidies V d e := by
  induction h with
  | refl => exact .refl _
  | tail _ hstep ih =>
    obtain ⟨box, -, hmove⟩ := hstep
    exact ih.trans (hmove.tidies htick)

/-- Moves keep a document coherent. -/
theorem coherent (h : Moves inside d e) (htick : ∀ f, V [.formula f] f) (hd : Coherent V d) :
    Coherent V e :=
  (h.tidies htick).coherent hd

/-- Moves let a document shrink. -/
theorem shrunk (h : Moves inside d e) (htick : ∀ f, V [.formula f] f) (hd : Coherent V d) :
    Shrunk d e := by
  induction h with
  | refl => exact .refl _
  | tail hsteps hstep ih =>
    obtain ⟨box, -, hmove⟩ := hstep
    exact ih.trans (hmove.shrunk (coherent hsteps htick hd))

/-- A box at which no move is made stays as it is. -/
theorem sameAt (h : Moves inside d e) (htick : ∀ f, V [.formula f] f) (hd : Coherent V d)
    {b : ItemId} (hb : ¬ inside b) : SameAt d e b := by
  induction h with
  | refl => exact ⟨rfl, rfl, fun _ _ => rfl⟩
  | tail hsteps hstep ih =>
    obtain ⟨box, hbox, hmove⟩ := hstep
    refine ih.trans (hmove.sameAt (coherent hsteps htick hd).linked ?_)
    rintro rfl
    exact hb hbox

/-- Moves keep a document well spaced. -/
theorem spaced (h : Moves inside d e) (htick : ∀ f, V [.formula f] f) (hd : Coherent V d)
    (hspaced : d.Spaced) : e.Spaced := by
  induction h with
  | refl => exact hspaced
  | tail hsteps hstep ih =>
    obtain ⟨box, -, hmove⟩ := hstep
    exact hmove.spaced (coherent hsteps htick hd).linked ih

end Moves

end NaturalDeduction.Document
