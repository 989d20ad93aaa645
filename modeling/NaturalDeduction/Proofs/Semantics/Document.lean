import NaturalDeduction.Proofs.Document.Hypotheses
import NaturalDeduction.Proofs.Document.Ordered
import NaturalDeduction.Proofs.Semantics.Calculus

/-!
# Lines are consequences

In a document whose lines follow from what they cite, every line is a consequence of what it depends
on, as soon as the open goals are: from line to line, since citations go back.  A cited box holds
because its last line does, in the structure where its Skolem constants have been given other objects;
what the box depends on does not mention them.
-/

set_option autoImplicit false

namespace NaturalDeduction.Document

universe u

variable {d : Document} {givens : List Formula} {id box : ItemId} {f : Formula}

/-- An item that stands for a formula is a line with it. -/
theorem line?_of_meaning? (h : d.meaning? id = some (.formula f)) :
    ∃ just, d.line? id = some (f, just) := by
  unfold meaning? at h
  split at h
  · obtain ⟨_, -, heq⟩ := Option.map_eq_some_iff.1 h
    exact absurd heq (by simp)
  · obtain ⟨g, hg, heq⟩ := Option.map_eq_some_iff.1 h
    obtain rfl := Meaning.formula.inj heq
    obtain ⟨⟨g', just⟩, hline, rfl⟩ := Option.map_eq_some_iff.1 hg
    exact ⟨just, hline⟩

/-- The line that ends a box. -/
theorem exists_last_of_ending? (h : d.ending? box = some f) :
    ∃ last ∈ d.children box, ∃ just, d.line? last = some (f, just) := by
  obtain ⟨last, hlast, hf⟩ := Option.bind_eq_some_iff.1 h
  obtain ⟨⟨g, just⟩, hline, rfl⟩ := Option.map_eq_some_iff.1 hf
  exact ⟨last, List.mem_of_getLast? hlast, just, hline⟩

/-- An assumption is among the hypotheses it stands under. -/
theorem mem_hypotheses_of_assumption (hd : d.WellLinked) (hmem : id ∈ d.children box)
    (hline : d.line? id = some (f, .assumption)) : f ∈ d.hypotheses givens id := by
  refine (mem_hypotheses_of_mem hd hmem).2 (Or.inl ?_)
  exact List.mem_filterMap.2 ⟨id, hmem, by rw [assumption?, hline]⟩

/-- A box holds if its last line is a consequence of what it depends on. -/
theorem Scoped.holds_box (hscoped : Scoped givens d) (hd : d.WellLinked)
    (hlinked : d.isLinked box = true) (hbox : d.isBox box = true) {last : ItemId}
    (hlast : last ∈ d.children box) (hf : Entails.{u} (d.hypotheses givens last) f) {α : Type u}
    {M : Structure α} {v : String → α} (hhyps : ∀ g ∈ d.hypotheses givens box, g.Holds M v) :
    (Meaning.box (d.skolemsOf box) (d.assumptionsIn box) f).Holds M v := by
  intro κ hκ hassumptions
  refine hf α (M.withConst κ) v fun g hg => ?_
  rcases (mem_hypotheses_of_mem hd hlast).1 hg with hg | hg
  · exact hassumptions g hg
  · -- the constants of the box do not occur in `g`
    refine (Formula.holds_withConst fun c hc => hκ c fun hskolem => ?_).2 (hhyps g hg)
    exact hscoped.fresh hbox hlinked c hskolem g hg hc

/-- If all goals are consequences of what they depend on, then so are all lines. -/
theorem Coherent.entails (hd : Coherent Warrants.{u} d) (hnum : d.Numbered)
    (hscoped : Scoped givens d)
    (hgoals : ∀ id f, d.isLinked id = true → d.line? id = some (f, .goal) →
      Entails.{u} (d.hypotheses givens id) f) {just : Justification}
    (hlinked : d.isLinked id = true) (hline : d.line? id = some (f, just)) :
    Entails.{u} (d.hypotheses givens id) f := by
  have hlines : id ∈ d.lines :=
    (hd.linked.mem_lines_iff hd.rooted).2 ⟨hlinked, isBox_of_line? hline⟩
  obtain ⟨n, hn⟩ := Option.isSome_iff_exists.1 (hd.linked.number?_isSome hlines)
  induction n using Nat.strongRecOn generalizing id f just with
  | ind n ih =>
    -- a line among the lines of a cited item comes before the citing one
    have hbefore : ∀ {seen line g just}, d.Visible seen id → line ∈ d.linesOf seen →
        d.line? line = some (g, just) → Entails.{u} (d.hypotheses givens line) g := by
      intro seen line g just hvis hmem hg
      have hsub := hd.linked.linesOf_visible (hd.linked.under_root hd.rooted hlinked) hvis
      have hid : id ∈ d.linesOf id := by
        rw [linesOf_of_line (isBox_of_line? hline)]
        exact List.mem_singleton_self id
      obtain ⟨m, n', hm, hn', hlt⟩ := hnum.lt_of_sublist hsub hmem hid
      obtain rfl := Option.some.inj (hn.symm.trans hn')
      have hline' := hsub.subset (List.mem_append_left _ hmem)
      have hlinked' := ((hd.linked.mem_lines_iff hd.rooted).1 hline').1
      exact ih m hlt hlinked' hg hline' hm
    cases just with
    | given => exact fun α M v h => h f (List.mem_append_left _ (hscoped.given hline))
    | assumption =>
      rcases isLinked_iff.1 hlinked with rfl | ⟨box, hbox⟩
      · exact absurd (isBox_of_line? hline) (by simp [hd.linked.linkedBy.root_box])
      · have hmem := hd.linked.mem_children_iff.2 hbox
        exact fun α M v h => h f (mem_hypotheses_of_assumption hd.linked hmem hline)
    | goal => exact hgoals id f hlinked hline
    | byRule rule cites =>
      obtain ⟨hcites, ms, hms, hwarrants⟩ := hd.supported hlinked hline
      have hvis : ∀ cite ∈ cites, d.Visible cite id := fun cite hcite => (hcites cite hcite).1
      intro α M v hhyps
      refine hwarrants α M v fun m hm => ?_
      obtain ⟨cite, hcite, hmeaning⟩ : ∃ cite ∈ cites, d.meaning? cite = some m := by
        have hmem : some m ∈ cites.map d.meaning? := hms ▸ List.mem_map_of_mem hm
        simpa using hmem
      have hhyps' : ∀ g ∈ d.hypotheses givens cite, g.Holds M v := fun g hg =>
        hhyps g ((hvis cite hcite).hypotheses_subset hd.linked hg)
      cases m with
      | formula g =>
        obtain ⟨just', hg⟩ := line?_of_meaning? hmeaning
        refine hbefore (hvis cite hcite) ?_ hg α M v hhyps'
        rw [linesOf_of_line (isBox_of_line? hg)]
        exact List.mem_singleton_self cite
      | box skolems assumptions goal =>
        obtain ⟨hbox, rfl, rfl, hending⟩ := box_of_meaning? hmeaning
        obtain ⟨last, hlast, just', hg⟩ := exists_last_of_ending? hending
        refine hscoped.holds_box hd.linked (hd.rooted hlast) hbox hlast ?_ hhyps'
        refine hbefore (hvis cite hcite) ?_ hg
        rw [linesOf_of_box hbox, hd.linked.mem_linesUnder_iff]
        exact ⟨.single (hd.linked.standsIn_iff.2 hlast), isBox_of_line? hg⟩

/-- In a complete document nothing is open. -/
theorem Coherent.isOpen_eq_false {V : List Meaning → Formula → Prop} (hd : Coherent V d)
    (hcomplete : d.isComplete = true) (hlinked : d.isLinked id = true) : d.isOpen id = false := by
  have hroot : d.isClosed root = true := by
    unfold isComplete at hcomplete
    unfold isClosed
    cases hdata : d.box? root with
    | some data => simpa [hdata] using hcomplete
    | none => simp [hdata] at hcomplete
  rcases (hd.linked.isLinked_iff_within hd.rooted).1 hlinked with rfl | hin
  · rw [Bool.eq_false_iff]
    intro hopen
    have hbox := isBox_of_isOpen hopen
    rw [hd.linked.linkedBy.root_box] at hbox
    exact absurd hbox (by decide)
  · exact (hd.closed_within hin hroot).1

/-- The goal of a complete document is a consequence of its givens. -/
theorem Coherent.entails_goal (hd : Coherent Warrants.{u} d) (hnum : d.Numbered)
    (hscoped : Scoped givens d) (hcomplete : d.isComplete = true) {goal : Formula}
    (hgoal : d.meaning? root = some (.box ∅ [] goal)) : Entails.{u} givens goal := by
  obtain ⟨hbox, -, hassumptions, hending⟩ := box_of_meaning? hgoal
  obtain ⟨last, hlast, just, hline⟩ := exists_last_of_ending? hending
  have hlinked := hd.linked.isLinked_of_mem hlast
  have hentails := hd.entails hnum hscoped (fun id f hlinked hline => ?_) hlinked hline
  · intro α M v hgivens
    refine hentails α M v fun g hg => hgivens g ?_
    rw [mem_hypotheses_of_mem hd.linked hlast, hassumptions, hypotheses_root hd.linked] at hg
    exact hg.resolve_left (by simp)
  · have hopen := hd.isOpen_eq_false hcomplete hlinked
    simp [isOpen, isGoal, hline, Justification.isGoal] at hopen

end NaturalDeduction.Document
