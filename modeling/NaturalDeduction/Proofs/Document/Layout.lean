import NaturalDeduction.Proofs.Document.Frames
import NaturalDeduction.Proofs.Document.Moves
import NaturalDeduction.Proofs.Document.Splice

/-!
# The layout that steps leave behind

A step leaves a well spaced document well spaced (`Spliced.spaced`), though not each of its edits
does: a new goal comes with an empty line of its own, and then the empty line above the goal that has
been justified goes.  A box that is new after a step has the frame its plan gives it.  Together: what
rules and completion do leaves a document `Arranged`.
-/

set_option autoImplicit false

namespace NaturalDeduction

/-! ### Rows of spots -/

namespace Spot

variable {row below new : List Spot}

/-- A line is derived at an empty line, after its premises have been put there. -/
theorem Spaced.derive (h : Spaced other (row ++ gap :: below)) (hnew : ∀ {a}, a ≠ gap → Spaced a new) :
    Spaced other (row ++ new ++ other :: gap :: below) := by
  rw [spaced_append, spaced_cons] at h
  obtain ⟨hrow, hlast, hbelow⟩ := h
  rw [List.append_assoc, spaced_append, spaced_append]
  refine ⟨hrow, hnew hlast, ?_⟩
  simp only [spaced_cons]
  exact ⟨trivial, by simp [Precedes], hbelow⟩

/-- A goal is justified, and the empty line above it goes. -/
theorem Spaced.justify (h : Spaced other (row ++ gap :: goal :: below))
    (hnew : ∀ {a}, a ≠ gap → Spaced a new) : Spaced other (row ++ new ++ other :: below) := by
  simp only [spaced_append, spaced_cons] at h
  obtain ⟨hrow, hlast, -, hbelow⟩ := h
  rw [List.append_assoc, spaced_append, spaced_append, spaced_cons]
  exact ⟨hrow, hnew hlast, trivial, hbelow.of_goal⟩

/-- A goal is justified, and the empty line above it stays above what is no empty line. -/
theorem Spaced.justify_below_gap (h : Spaced other (row ++ goal :: below))
    (hnew : ∀ {a}, a ≠ gap → Spaced a new) (hhead : ∃ a ∈ new.head?, a ≠ gap) :
    Spaced other (row ++ new ++ other :: below) := by
  rw [spaced_append, spaced_cons] at h
  obtain ⟨hrow, hlast, hbelow⟩ := h
  obtain ⟨a, ha, hne⟩ := hhead
  obtain ⟨rest, rfl⟩ := List.head?_eq_some_iff.1 ha
  rw [List.append_assoc, spaced_append, spaced_append]
  refine ⟨hrow, ?_, spaced_cons.2 ⟨trivial, hbelow.of_goal⟩⟩
  -- above the new items stands the empty line, so they do not begin with a goal either
  obtain ⟨hfirst, hrest⟩ := spaced_cons.1 (hnew (show other ≠ gap by simp))
  refine spaced_cons.2 ⟨?_, hrest⟩
  cases a <;> simp [Precedes] at hfirst hne ⊢

end Spot

namespace Document

/-! ### The frame of a planned box -/

/-- The lines that a planned box begins with. -/
def planOpening (plan : BoxPlan) : List ItemKind :=
  (plan.skolem.map fun name => .constants [name] 0).toList ++
    (plan.assumption.map fun f => .line f .assumption 0).toList

/-- What a planned box opens with are assumptions and lines of constants. -/
theorem mem_planOpening {plan : BoxPlan} {kind : ItemKind} (h : kind ∈ planOpening plan) :
    kind.opens = true ∧ kind.core = kind ∧ kind.spot = .other := by
  simp only [planOpening, List.mem_append, Option.mem_toList, Option.map_eq_some_iff] at h
  obtain ⟨name, -, rfl⟩ | ⟨f, -, rfl⟩ := h
  · exact ⟨rfl, rfl, rfl⟩
  · exact ⟨rfl, rfl, rfl⟩

variable {d e mid : Document} {id box target : ItemId} {V : List Meaning → Formula → Prop}
  {P : Signature → Formula → Prop} {rule : Rule} {step : Step} {cites : List ItemId}

/-- A box that has been built after a plan begins with what is named and assumed, and ends in the goal
of the plan. -/
theorem Built.framed {premises : List Premise} (h : Built d mid premises cites)
    (hle : d.items.size ≤ box) (hbox : mid.isBox box = true) :
    ∃ plan, (Premise.box plan, box) ∈ premises.zip cites ∧
      mid.Framed box (planOpening plan) plan.goal := by
  obtain ⟨plan, hplan, hkids⟩ := h box hle hbox
  refine ⟨plan, hplan, framed_of_core hkids fun kind hkind => ?_⟩
  obtain ⟨hopens, hcore, -⟩ := mem_planOpening hkind
  exact ⟨hopens, hcore⟩

/-! ### Steps keep the spacing -/

/-- The items of premises are well spaced below anything but an empty line. -/
theorem spaced_premiseItems (premises : List Premise) {a : Spot} (ha : a ≠ .gap) :
    Spot.Spaced a ((premises.flatMap premiseItems).map fun item => item.1.spot) := by
  induction premises generalizing a with
  | nil => exact Spot.spaced_nil
  | cons premise premises ih =>
    rw [List.flatMap_cons, List.map_append]
    cases premise with
    | cite _ => exact ih ha
    | goal f =>
      exact Spot.spaced_cons.2 ⟨ha, Spot.spaced_cons.2 ⟨rfl, ih (by simp [ItemKind.spot])⟩⟩
    | box plan => exact Spot.spaced_cons.2 ⟨trivial, ih (by simp [ItemKind.spot])⟩

/-- After premises have been placed, all chains but the one of the target are well spaced. -/
theorem Built.spacedAt {premises : List Premise} {xs ys : List ItemId}
    {items : List (ItemKind × List ItemKind)} (h : Built d mid premises cites)
    (hplaced : Placed d mid box xs target ys items) (hd : d.WellLinked) (hmid : mid.WellLinked)
    (hspaced : d.Spaced) {b : ItemId} (hb : b ≠ box) : mid.SpacedAt b := by
  by_cases hlt : b < d.items.size
  · exact (hspaced b).congr (hplaced.elsewhere b hlt hb)
      fun j hj => spot_congr (hplaced.old (hd.linkedBy.lt_size hj))
  · cases hbox : mid.isBox b with
    | false => exact spacedAt_of_line hmid hbox
    | true =>
      obtain ⟨plan, -, hkids⟩ := h b (Nat.not_lt.1 hlt) hbox
      exact spacedAt_of_core hkids
        (spaced_opening (fun kind hkind => (mem_planOpening hkind).2.2) plan.goal)

/-- Items have been put right above a target: without them all is well spaced, and they are well spaced
below anything but an empty line. -/
structure SpacedAround (d : Document) (box : ItemId) (xs new : List ItemId) (target : ItemId)
    (ys : List ItemId) : Prop where
  row : d.children box = xs ++ new ++ target :: ys
  elsewhere : ∀ {b}, b ≠ box → d.SpacedAt b
  without : Spot.Spaced .other ((xs ++ target :: ys).map d.spot)
  new : ∀ {a}, a ≠ .gap → Spot.Spaced a (new.map d.spot)

namespace SpacedAround

variable {xs new ys : List ItemId} {f : Formula}

/-- A line is derived below the new items, above the empty line that is the target. -/
theorem derive (h : SpacedAround d box xs new target ys) (hd : d.WellLinked)
    (hempty : d.isEmptyLine target = true)
    (grown : Grown d e box (xs ++ new) target ys (.line f (.byRule rule cites) 0) []) : e.Spaced := by
  intro b
  have hspots : ∀ j ∈ d.children b, e.spot j = d.spot j := fun j hj =>
    spot_congr (grown.old (hd.linkedBy.lt_size hj))
  by_cases hb : b = box
  · subst hb
    have hline : e.spot d.items.size = .other := by rw [spot, grown.new]; rfl
    have habove : (xs ++ new).map e.spot = (xs ++ new).map d.spot :=
      List.map_congr_left fun j hj => hspots j (h.row ▸ List.mem_append_left _ hj)
    have hbelow : (target :: ys).map e.spot = (target :: ys).map d.spot :=
      List.map_congr_left fun j hj => hspots j (h.row ▸ List.mem_append_right _ hj)
    have hwithout := h.without
    rw [List.map_append, List.map_cons, spot_eq_gap_iff.2 hempty] at hwithout
    rw [SpacedAt, grown.here, List.map_append, List.map_cons, hline, habove, hbelow,
      List.map_append, List.map_cons, spot_eq_gap_iff.2 hempty]
    exact hwithout.derive h.new
  · by_cases hn : b = d.items.size
    · have hnil : e.children b = [] := by rw [hn, grown.inside]; rfl
      simp [SpacedAt, hnil]
    · exact (h.elsewhere hb).congr (grown.elsewhere b hb hn) hspots

/-- The target does not stand elsewhere in its chain. -/
theorem not_mem (h : SpacedAround d box xs new target ys) (hd : d.WellLinked) :
    target ∉ xs ∧ target ∉ new ∧ target ∉ ys := by
  have hnodup := List.nodup_middle.1 (h.row ▸ hd.linkedBy.nodup box)
  simpa [and_assoc] using (List.nodup_cons.1 hnodup).1

/-- The goal that is the target is justified; the other chains stay well spaced. -/
theorem justify_elsewhere (h : SpacedAround d box xs new target ys) (hd : d.WellLinked)
    (rejustified : Rejustified d e target f rule cites) {b : ItemId} (hb : b ≠ box) :
    e.SpacedAt b := by
  refine (h.elsewhere hb).congr (by rw [rejustified.children]) fun j hj => ?_
  have hne : j ≠ target := by
    rintro rfl
    exact hb (hd.linkedBy.box_unique hj (by simp [h.row]))
  exact spot_congr (rejustified.core?_of_ne hne)

/-- The goal that is the target is justified, and the empty line above the new items stays: then they
do not begin with an empty line. -/
theorem justify_kept (h : SpacedAround d box xs new target ys) (hd : d.WellLinked)
    (rejustified : Rejustified d e target f rule cites)
    (next : ∀ gap ∈ xs.getLast?, e.isEmptyLine gap = true →
      ∃ id ∈ new.head?, e.isEmptyLine id = false) : e.Spaced := by
  intro b
  by_cases hb : b = box
  · subst hb
    obtain ⟨hxs, hnew, hys⟩ := h.not_mem hd
    have hwithout := h.without
    rw [List.map_append, List.map_cons, rejustified.spot_before] at hwithout
    rw [SpacedAt, rejustified.children, h.row, List.map_append, List.map_append, List.map_cons,
      rejustified.map_spot hxs, rejustified.map_spot hnew, rejustified.map_spot hys,
      rejustified.spot_after]
    refine hwithout.justify_below_gap h.new ?_
    -- an empty line stands right above the goal, and it stays only if no other one follows it
    obtain ⟨-, hlast⟩ := Spot.spaced_append.1 hwithout
    obtain ⟨hlast, -⟩ := Spot.spaced_cons.1 hlast
    rcases List.eq_nil_or_concat xs with rfl | ⟨us, gap, rfl⟩
    · simp [Spot.Precedes] at hlast
    · have hgap : e.isEmptyLine gap = true := by
        have hne : gap ≠ target := by rintro rfl; exact hxs (by simp)
        rw [← spot_eq_gap_iff, spot_congr (rejustified.core?_of_ne hne)]
        simpa [Spot.Precedes] using hlast
      obtain ⟨first, hfirst, hempty⟩ := next gap (by simp) hgap
      have hne : first ≠ target := by rintro rfl; exact hnew (List.mem_of_mem_head? hfirst)
      refine ⟨d.spot first, by simp [Option.mem_def.1 hfirst], fun hspot => ?_⟩
      rw [← spot_congr (rejustified.core?_of_ne hne), spot_eq_gap_iff, hempty] at hspot
      exact absurd hspot (by decide)
  · exact h.justify_elsewhere hd rejustified hb

/-- The goal that is the target is justified, and the empty line above the new items goes. -/
theorem justify_dropped {us : List ItemId} {gap : ItemId}
    (h : SpacedAround d box (us ++ [gap]) new target ys) (hd : d.WellLinked)
    (rejustified : Rejustified d mid target f rule cites)
    (gone : DroppedGap mid e box us gap (new ++ target :: ys)) : e.Spaced := by
  intro b
  have hcore : ∀ j, e.spot j = mid.spot j := fun j => spot_congr (gone.core j)
  by_cases hb : b = box
  · subst hb
    obtain ⟨hxs, hnew, hys⟩ := h.not_mem hd
    obtain ⟨hus, hne⟩ : target ∉ us ∧ target ≠ gap := by simpa using hxs
    have hgap : d.spot gap = .gap := by
      rw [← spot_congr (rejustified.core?_of_ne hne.symm), spot_eq_gap_iff.2 gone.empty]
    have hwithout := h.without
    rw [List.map_append, List.map_append, List.map_singleton, List.map_cons, hgap,
      rejustified.spot_before, List.append_assoc] at hwithout
    rw [SpacedAt, gone.here, funext hcore, List.map_append, List.map_append, List.map_cons,
      rejustified.map_spot hus, rejustified.map_spot hnew, rejustified.map_spot hys,
      rejustified.spot_after, ← List.append_assoc]
    exact hwithout.justify h.new
  · exact (h.justify_elsewhere hd rejustified hb).congr (gone.elsewhere b hb) fun j _ => hcore j

end SpacedAround

/-- Writing down the conclusion of a step below the items of its premises leaves the document well
spaced. -/
theorem Concluded.spaced {xs new ys : List ItemId}
    (h : Concluded V P rule cites box xs new target ys d e step) (hd : d.WellLinked)
    (haround : SpacedAround d box xs new target ys) : e.Spaced := by
  cases h with
  | derive hempty grown _ _ => exact haround.derive hd hempty grown
  | justify rejustified _ _ ungapped =>
    cases ungapped with
    | dropped last gone _ _ =>
      subst last
      exact haround.justify_dropped hd rejustified gone
    | kept same next =>
      subst same
      exact haround.justify_kept hd rejustified next

/-- A step leaves a well spaced document well spaced. -/
theorem Spliced.spaced (h : Spliced V P rule target step d cites mid e) (hd : Coherent V d)
    (hspaced : d.Spaced) : e.Spaced := by
  obtain ⟨box, xs, new, ys, hbox, hrow, hconcluded⟩ := h.row
  have hmid : Coherent V mid := h.inserts.edits.coherent hd
  have hplaced := h.inserts.placed hd hbox
  refine hconcluded.spaced hmid.linked ⟨hrow,
    fun hb => h.built.spacedAt hplaced hd.linked hmid.linked hspaced hb, ?_, fun ha => ?_⟩
  · have hold : (d.children box).map mid.spot = (d.children box).map d.spot :=
      List.map_congr_left fun j hj => spot_congr (hplaced.old (hd.linked.linkedBy.lt_size hj))
    rw [← hbox, hold]
    exact hspaced box
  · obtain ⟨new', hrow', hcores⟩ := hplaced.row
    obtain rfl : new' = new := by simpa using hrow'.symm.trans hrow
    have hkinds : new'.map mid.spot =
        ((step.premises.flatMap premiseItems).map Prod.fst).map ItemKind.spot :=
      map_spot_of_core (hcores.trans (by rw [List.map_map]; rfl))
    rw [hkinds, List.map_map]
    exact spaced_premiseItems step.premises ha

/-! ### Arranged documents -/

/-- All chains are well spaced, and each box in the outermost one has the frame of its plan. -/
structure Arranged (d : Document) (plans : ItemId → BoxPlan → Prop) : Prop where
  spaced : d.Spaced
  framed : ∀ box, d.isBox box = true → box ≠ root →
    ∃ plan, plans box plan ∧ d.Framed box (planOpening plan) plan.goal

variable {plans plans' : ItemId → BoxPlan → Prop}

/-- A new document has no boxes besides the outermost one, and is arranged. -/
theorem start_arranged (givens : List Formula) (goal : Formula) (sig : Signature)
    (plans : ItemId → BoxPlan → Prop) : (start givens goal sig).Arranged plans where
  spaced := start_spaced givens goal sig
  framed _ hbox hne := absurd ((isBox_start givens goal sig).1 hbox) hne

/-- A document that is arranged by some plans is arranged by more. -/
theorem Arranged.mono (h : d.Arranged plans) (himp : ∀ {box plan}, plans box plan → plans' box plan) :
    d.Arranged plans' where
  spaced := h.spaced
  framed box hbox hne := by
    obtain ⟨plan, hplan, hframed⟩ := h.framed box hbox hne
    exact ⟨plan, himp hplan, hframed⟩

/-- Names may become known. -/
theorem Arranged.withSignature (h : d.Arranged plans) (hd : Coherent V d) {sig : Signature}
    (hsig : ∀ name ∈ d.signature.constants, name ∈ sig.constants) :
    ({ d with signature := sig } : Document).Arranged plans where
  spaced box := (h.spaced box).congr (by rw [(hd.linked.withSignature sig).2]) fun _ _ => rfl
  framed box hbox hne := by
    obtain ⟨plan, hplan, hframed⟩ := h.framed box hbox hne
    obtain ⟨hlinked, hkids⟩ := hd.linked.withSignature sig
    have hedit : Edit V (fun _ _ => True) d { d with signature := sig } :=
      .relabel hlinked hkids (fun _ => rfl) hsig
    exact ⟨plan, hplan, hedit.framed hd hframed⟩

/-- Completion leaves a document arranged. -/
theorem Arranged.moves {inside : ItemId → Prop} (h : d.Arranged plans) (hd : Coherent V d)
    (htick : ∀ f, V [.formula f] f) (hmoves : Moves inside d e) : e.Arranged plans where
  spaced := hmoves.spaced htick hd h.spaced
  framed box hbox hne := by
    rw [(hmoves.shrunk htick hd).isBox] at hbox
    obtain ⟨plan, hplan, hframed⟩ := h.framed box hbox hne
    exact ⟨plan, hplan, Edits.framed (hmoves.tidies htick).edits hd hframed⟩

/-- A step leaves a document arranged, with the plans of its premises for the new boxes. -/
theorem Spliced.arranged (h : Spliced V P rule target step d cites mid e) (hd : Coherent V d)
    (harranged : d.Arranged plans) :
    e.Arranged fun box plan => plans box plan ∨ (Premise.box plan, box) ∈ step.premises.zip cites where
  spaced := h.spaced hd harranged.spaced
  framed box hbox hne := by
    have hmid : Coherent V mid := h.inserts.edits.coherent hd
    obtain ⟨place, xs, new, ys, hplace, -, hconcluded⟩ := h.row
    rw [hconcluded.isBox_eq] at hbox
    by_cases hlt : box < d.items.size
    · rw [isBox_congr ((h.inserts.placed hd hplace).old hlt)] at hbox
      obtain ⟨plan, hplan, hframed⟩ := harranged.framed box hbox hne
      exact ⟨plan, Or.inl hplan, Edits.framed (h.inserts.edits.trans hconcluded.edits) hd hframed⟩
    · obtain ⟨plan, hplan, hframed⟩ := h.built.framed (Nat.not_lt.1 hlt) hbox
      exact ⟨plan, Or.inr hplan, Edits.framed hconcluded.edits hmid hframed⟩

end Document
end NaturalDeduction
