import Mathlib.Data.List.Chain
import NaturalDeduction.Proofs.Document.Coherent
import NaturalDeduction.Proofs.Document.Start

/-!
# The spacing of a document

In the chain of a box every goal stands right below an empty line, and no empty line stands right
below another one: the document is `Spaced`.  For this only the row of empty lines, goals and other
items of each box counts, so it is stated for rows of `Spot`s.  Completion finds a goal to close by
this pattern, and it is the pattern in which rules leave their new goals.
-/

set_option autoImplicit false

namespace NaturalDeduction

/-- What an item counts for in the spacing of a chain. -/
inductive Spot where
  /-- An empty line. -/
  | gap
  /-- A goal. -/
  | goal
  /-- Any other line, or a box. -/
  | other

namespace Spot

variable {a : Spot} {row row' : List Spot}

/-- What may stand right below what: an empty line not below another one, and a goal only below an
empty line. -/
def Precedes : Spot → Spot → Prop
  | a, gap => a ≠ gap
  | a, goal => a = gap
  | _, other => True

/-- A row that stands below something is well spaced. -/
def Spaced (a : Spot) (row : List Spot) : Prop := (a :: row).IsChain Precedes

/-- An empty row is well spaced. -/
@[simp] theorem spaced_nil : Spaced a [] := List.isChain_singleton a

/-- A row is well spaced if its first item may stand where it stands and the others are well spaced
below it. -/
@[simp] theorem spaced_cons {b : Spot} : Spaced a (b :: row) ↔ Precedes a b ∧ Spaced b row :=
  List.isChain_cons_cons

/-- Two rows are well spaced together if the second one is below the end of the first. -/
theorem spaced_append : Spaced a (row ++ row') ↔ Spaced a row ∧ Spaced (row.getLastD a) row' := by
  induction row generalizing a with
  | nil => simp
  | cons b row ih => rw [List.cons_append, spaced_cons, spaced_cons, ih, List.getLastD_cons, and_assoc]

/-- What may stand below a goal may stand below any other line. -/
theorem Spaced.of_goal (h : Spaced goal row) : Spaced other row := by
  cases row with
  | nil => exact spaced_nil
  | cons b row =>
    obtain ⟨hb, hrow⟩ := spaced_cons.1 h
    refine spaced_cons.2 ⟨?_, hrow⟩
    cases b <;> simp [Precedes] at hb ⊢

/-- What stands below an empty line and holds no goal may stand below anything. -/
theorem Spaced.of_gap (h : Spaced gap row) (hgoal : goal ∉ row) : Spaced a row := by
  cases row with
  | nil => exact spaced_nil
  | cons b row =>
    obtain ⟨hb, hrow⟩ := spaced_cons.1 h
    refine spaced_cons.2 ⟨?_, hrow⟩
    cases b <;> simp [Precedes] at hb hgoal ⊢

end Spot

/-- What an item of this kind counts for in the spacing of a chain. -/
def ItemKind.spot : ItemKind → Spot
  | .empty _ => .gap
  | .line _ .goal _ => .goal
  | _ => .other

/-- Links and numbers make no difference to spacing. -/
theorem ItemKind.spot_core (kind : ItemKind) : kind.core.spot = kind.spot := by
  rcases kind with ⟨_, _ | _ | _ | _, _⟩ | _ | _ | _ <;> rfl

namespace Document

variable {d e : Document} {id box : ItemId}

/-- What an item counts for in the spacing of its chain. -/
def spot (d : Document) (id : ItemId) : Spot := ((d.core? id).map ItemKind.spot).getD .other

/-- Items that agree apart from links and numbers count for the same. -/
theorem spot_congr {i j : ItemId} (h : e.core? i = d.core? j) : e.spot i = d.spot j := by
  rw [spot, spot, h]

/-- The gaps are the empty lines. -/
theorem spot_eq_gap_iff : d.spot id = .gap ↔ d.isEmptyLine id = true := by
  rw [spot, isEmptyLine_eq_core]
  rcases d.core? id with _ | (⟨_, _ | _ | _ | _, _⟩ | _ | _ | _) <;> simp [ItemKind.spot]

/-- The goals are the goals of the document. -/
theorem spot_eq_goal_iff : d.spot id = .goal ↔ d.isGoal id = true := by
  rw [spot, isGoal, line?_eq_core]
  rcases d.core? id with _ | (⟨_, _ | _ | _ | _, _⟩ | _ | _ | _) <;>
    simp [ItemKind.spot, Justification.isGoal]

/-- A line that a rule justifies is neither gap nor goal. -/
theorem spot_of_byRule {f : Formula} {rule : Rule} {cites : List ItemId}
    (h : d.line? id = some (f, .byRule rule cites)) : d.spot id = .other := by
  rw [line?_eq_core] at h
  rw [spot]
  rcases hcore : d.core? id with _ | (⟨_, _ | _ | _ | _, _⟩ | _ | _ | _)
  all_goals simp [hcore, ItemKind.spot] at h ⊢

namespace Rejustified

variable {f : Formula} {rule : Rule} {cites : List ItemId}

/-- The line that gets justified was a goal. -/
theorem spot_before (r : Rejustified d e id f rule cites) : d.spot id = .goal := by
  rw [spot_eq_goal_iff]
  simp [isGoal, r.before, Justification.isGoal]

/-- The line that got justified is neither gap nor goal. -/
theorem spot_after (r : Rejustified d e id f rule cites) : e.spot id = .other :=
  spot_of_byRule (by rw [r.line?_eq, if_pos rfl])

/-- All other items count for what they did. -/
theorem map_spot (r : Rejustified d e id f rule cites) {ids : List ItemId} (hids : id ∉ ids) :
    ids.map e.spot = ids.map d.spot := by
  refine List.map_congr_left fun j hj => ?_
  have hne : j ≠ id := by rintro rfl; exact hids hj
  exact spot_congr (r.core?_of_ne hne)

end Rejustified

/-- The spacing of items can be read off their kinds. -/
theorem map_spot_of_core {ids : List ItemId} {kinds : List ItemKind}
    (h : ids.map d.core? = kinds.map fun kind => some kind.core) :
    ids.map d.spot = kinds.map ItemKind.spot := by
  have hspot : ∀ ids : List ItemId,
      ids.map d.spot = (ids.map d.core?).map fun core => (core.map ItemKind.spot).getD .other := by
    intro ids
    rw [List.map_map]
    rfl
  rw [hspot, h, List.map_map]
  exact List.map_congr_left fun kind _ => kind.spot_core

/-- The chain of a box is well spaced. -/
def SpacedAt (d : Document) (box : ItemId) : Prop :=
  Spot.Spaced .other ((d.children box).map d.spot)

/-- All chains are well spaced. -/
def Spaced (d : Document) : Prop := ∀ box, d.SpacedAt box

/-- The spacing of a box depends on its items only. -/
theorem SpacedAt.congr (h : d.SpacedAt box) (hkids : e.children box = d.children box)
    (hspots : ∀ j ∈ d.children box, e.spot j = d.spot j) : e.SpacedAt box := by
  rw [SpacedAt, hkids, List.map_congr_left hspots]
  exact h

/-- A chain that is spelled out is well spaced if its kinds are. -/
theorem spacedAt_of_core {kinds : List ItemKind}
    (h : (d.children box).map d.core? = kinds.map fun kind => some kind.core)
    (hspaced : Spot.Spaced .other (kinds.map ItemKind.spot)) : d.SpacedAt box := by
  rwa [SpacedAt, map_spot_of_core h]

/-- What is no box has nothing to space. -/
theorem spacedAt_of_line (hd : d.WellLinked) (hbox : d.isBox box = false) : d.SpacedAt box := by
  have hnil : d.children box = [] := List.eq_nil_iff_forall_not_mem.2 fun id hmem => by
    simp [hd.linkedBy.isBox_of_mem hmem] at hbox
  simp [SpacedAt, hnil]

namespace Spaced

/-- A goal stands right below an empty line. -/
theorem prev?_of_isGoal (h : d.Spaced) (hd : d.WellLinked) (hmem : id ∈ d.children box)
    (hgoal : d.isGoal id = true) : ∃ gap, d.prev? id = some gap ∧ d.isEmptyLine gap = true := by
  obtain ⟨xs, ys, hrow⟩ := List.append_of_mem hmem
  have hspaced := h box
  rw [SpacedAt, hrow, List.map_append, List.map_cons, Spot.spaced_append, Spot.spaced_cons,
    spot_eq_goal_iff.2 hgoal] at hspaced
  obtain ⟨-, hlast, -⟩ := hspaced
  rw [(hd.linkedBy.place hrow).2.1]
  rcases List.eq_nil_or_concat xs with rfl | ⟨us, gap, rfl⟩
  · simp [Spot.Precedes] at hlast
  · refine ⟨gap, by simp, spot_eq_gap_iff.1 ?_⟩
    simpa [Spot.Precedes] using hlast

/-- No empty line stands right below another one. -/
theorem next?_of_isEmptyLine (h : d.Spaced) (hd : d.WellLinked) (hmem : id ∈ d.children box)
    (hempty : d.isEmptyLine id = true) {next : ItemId} (hnext : d.next? id = some next) :
    d.isEmptyLine next = false := by
  obtain ⟨xs, ys, hrow⟩ := List.append_of_mem hmem
  rw [(hd.linkedBy.place hrow).2.2] at hnext
  obtain ⟨zs, rfl⟩ := List.head?_eq_some_iff.1 hnext
  have hspaced := h box
  rw [SpacedAt, hrow, List.map_append, List.map_cons, List.map_cons, Spot.spaced_append,
    Spot.spaced_cons, Spot.spaced_cons, spot_eq_gap_iff.2 hempty] at hspaced
  obtain ⟨-, -, hprecedes, -⟩ := hspaced
  rw [Bool.eq_false_iff]
  intro hempty'
  rw [spot_eq_gap_iff.2 hempty'] at hprecedes
  exact hprecedes rfl

end Spaced

/-- A chain that begins with other lines, an empty line and a goal is well spaced. -/
theorem spaced_opening {opening : List ItemKind} (h : ∀ kind ∈ opening, kind.spot = .other)
    (goal : Formula) :
    Spot.Spaced .other ((opening ++ [ItemKind.empty 0, .line goal .goal 0]).map ItemKind.spot) := by
  induction opening with
  | nil => simp [ItemKind.spot, Spot.Precedes]
  | cons kind opening ih =>
    obtain ⟨hkind, hopening⟩ := List.forall_mem_cons.1 h
    rw [List.cons_append, List.map_cons, hkind]
    exact Spot.spaced_cons.2 ⟨trivial, ih hopening⟩

/-- A new document is well spaced. -/
theorem start_spaced (givens : List Formula) (goal : Formula) (sig : Signature) :
    (start givens goal sig).Spaced := by
  have hlinked := start_linkedBy givens goal sig
  intro box
  by_cases hbox : box = root
  · subst hbox
    refine spacedAt_of_core (map_core?_start givens goal sig) (spaced_opening ?_ goal)
    simp [ItemKind.spot]
  · exact spacedAt_of_line hlinked.wellLinked
      (Bool.eq_false_iff.2 fun h => hbox ((isBox_start givens goal sig).1 h))

end Document
end NaturalDeduction
