import NaturalDeduction.Proofs.Document.Edit
import NaturalDeduction.Proofs.Document.Start
import NaturalDeduction.Proofs.Occurrence

/-!
# What a line depends on

An item depends on the givens and on what the boxes around it assume.  Edits never make an item depend
on more than before.  The Skolem constants of a box are new when the box is built, so they occur in
nothing that the box itself depends on; this is what the eigenvariable conditions of the quantifier
rules come to, and it stays so.
-/

set_option autoImplicit false

namespace NaturalDeduction.Document

variable {d e : Document} {id box : ItemId} {givens : List Formula} {f : Formula}
  {V : List Meaning → Formula → Prop} {P : Signature → Formula → Prop}

/-- The givens, and what the boxes around an item assume. -/
def hypotheses (d : Document) (givens : List Formula) (id : ItemId) : List Formula :=
  givens ++ (d.ancestors id).flatMap d.assumptionsIn

/-- An item depends on the givens and on what is assumed in the boxes that it stands in. -/
theorem mem_hypotheses_iff (hd : d.WellLinked) :
    f ∈ d.hypotheses givens id ↔ f ∈ givens ∨ ∃ box, d.Within id box ∧ f ∈ d.assumptionsIn box := by
  simp only [hypotheses, List.mem_append, List.mem_flatMap, hd.mem_ancestors_iff]

/-- In a box, an item depends on what the box depends on and on what it assumes. -/
theorem mem_hypotheses_of_mem (hd : d.WellLinked) (hmem : id ∈ d.children box) :
    f ∈ d.hypotheses givens id ↔ f ∈ d.assumptionsIn box ∨ f ∈ d.hypotheses givens box := by
  simp only [hypotheses, hd.ancestors_of_mem hmem, List.flatMap_cons, List.mem_append]
  exact or_left_comm

/-- The document depends on the givens only. -/
theorem hypotheses_root (hd : d.WellLinked) : d.hypotheses givens root = givens := by
  rw [hypotheses, WellLinked.ancestors_of_free hd.linkedBy.root_free, List.flatMap_nil,
    List.append_nil]

/-- An item depends on all that the items it sees depend on. -/
theorem Visible.hypotheses_subset (hd : d.WellLinked) {seen : ItemId} (h : d.Visible seen id)
    (hf : f ∈ d.hypotheses givens seen) : f ∈ d.hypotheses givens id := by
  induction h with
  | beside h =>
    rw [mem_hypotheses_of_mem hd (h.subset List.mem_cons_self)] at hf
    rwa [mem_hypotheses_of_mem hd (h.subset (List.mem_cons_of_mem _ List.mem_cons_self))]
  | around hmem _ ih => exact (mem_hypotheses_of_mem hd hmem).2 (Or.inr ih)

/-- The formula of every line that a box assumes is a formula of the document. -/
theorem formula?_of_mem_assumptionsIn (h : f ∈ d.assumptionsIn box) :
    ∃ id ∈ d.children box, d.formula? id = some f := by
  obtain ⟨id, hmem, hid⟩ := List.mem_filterMap.1 h
  refine ⟨id, hmem, ?_⟩
  unfold assumption? at hid
  split at hid
  · rename_i g hline
    obtain rfl := Option.some.inj hid
    rw [formula?, hline]
    rfl
  · simp at hid

/-- A box stands for its Skolem constants, its assumptions and some goal. -/
theorem Coherent.meaning?_box (hd : Coherent V d) (hbox : d.isBox box = true)
    (hlinked : d.isLinked box = true) :
    ∃ goal, d.meaning? box = some (.box (d.skolemsOf box) (d.assumptionsIn box) goal) := by
  obtain ⟨goal, hgoal⟩ := hd.ends hbox hlinked
  exact ⟨goal, by rw [meaning?, if_pos hbox, hgoal]; rfl⟩

/-! ### Hypotheses after an edit -/

namespace Edit

/-- An edit moves no item into another box. -/
theorem mem_children_of_lt (h : Edit V P d e) (hd : Coherent V d) (hlt : id < d.items.size)
    (hmem : id ∈ e.children box) : id ∈ d.children box := by
  cases h with
  | insert grown _ _ _ => exact (grown.mem_children_iff hd.linked hlt).1 hmem
  | justify rejustified _ _ => exact rejustified.children ▸ hmem
  | mark marked _ => exact marked.children ▸ hmem
  | dropGap dropped _ => exact ((dropped.trimmed hd).children_sublist box).subset hmem
  | dropGoal dropped _ => exact (dropped.trimmed.children_sublist box).subset hmem
  | relabel _ children _ _ => exact children ▸ hmem

/-- An item that is in a box after an edit was in it before, unless it is new. -/
theorem within_of_lt (h : Edit V P d e) (hd : Coherent V d) (hlt : id < d.items.size)
    (hin : e.Within id box) : d.Within id box := by
  have he := (h.coherent hd).linked
  induction hin using Relation.TransGen.head_induction_on with
  | single hstep =>
    exact .single (hd.linked.standsIn_iff.2 (h.mem_children_of_lt hd hlt (he.standsIn_iff.1 hstep)))
  | head hstep _ ih =>
    have hmem := h.mem_children_of_lt hd hlt (he.standsIn_iff.1 hstep)
    exact .head (hd.linked.standsIn_iff.2 hmem)
      (ih (lt_size_of_isBox (hd.linked.linkedBy.isBox_of_mem hmem)))

/-- An item that stands in the document after an edit stood in it before, unless it is new. -/
theorem isLinked_of_lt (h : Edit V P d e) (hd : Coherent V d) (hlt : id < d.items.size)
    (hlinked : e.isLinked id = true) : d.isLinked id = true := by
  rcases isLinked_iff.1 hlinked with rfl | ⟨box, hbox⟩
  · exact isLinked_iff.2 (Or.inl rfl)
  · have hmem := (h.coherent hd).linked.mem_children_iff.2 hbox
    exact hd.linked.isLinked_of_mem (h.mem_children_of_lt hd hlt hmem)

/-- A box keeps its Skolem constants and its assumptions. -/
theorem box_eq (h : Edit V P d e) (hd : Coherent V d) (hbox : d.isBox box = true)
    (hlinked : d.isLinked box = true) :
    e.skolemsOf box = d.skolemsOf box ∧ e.assumptionsIn box = d.assumptionsIn box := by
  obtain ⟨goal, hgoal⟩ := hd.meaning?_box hbox hlinked
  obtain ⟨-, hskolems, hassumptions, -⟩ := box_of_meaning? (h.meaning?_eq hd hgoal)
  exact ⟨hskolems, hassumptions⟩

/-- An edit lets no old item depend on more. -/
theorem mem_hypotheses_of_lt (h : Edit V P d e) (hd : Coherent V d) (hlt : id < d.items.size)
    (hf : f ∈ e.hypotheses givens id) : f ∈ d.hypotheses givens id := by
  rw [mem_hypotheses_iff (h.coherent hd).linked] at hf
  rw [mem_hypotheses_iff hd.linked]
  rcases hf with hf | ⟨box, hin, hf⟩
  · exact Or.inl hf
  · have hin' := h.within_of_lt hd hlt hin
    obtain ⟨inner, -, hstep⟩ := Relation.TransGen.tail'_iff.1 hin'
    have hbox := hd.linked.isBox_of_within hin'
    have hlinked := hd.rooted (hd.linked.standsIn_iff.1 hstep)
    exact Or.inr ⟨box, hin', (h.box_eq hd hbox hlinked).2 ▸ hf⟩

/-- A box was there before an edit, or it is new: it stands in an old box, and its Skolem constants
were not known. -/
theorem isBox_cases (h : Edit V P d e) (hd : Coherent V d) (hbox : e.isBox id = true) :
    d.isBox id = true ∨
      ∃ box, id ∈ e.children box ∧ d.isBox box = true ∧ d.isLinked box = true ∧
        ∀ name ∈ e.skolemsOf id, name ∉ d.signature.constants := by
  cases h with
  | @insert box anchor xs ys kind inner grown hopen new _ =>
    rcases Nat.lt_trichotomy id d.items.size with hlt | rfl | hgt
    · exact Or.inl (isBox_congr (grown.old hlt) ▸ hbox)
    · refine Or.inr ⟨box, grown.new_mem, hd.linked.linkedBy.isBox_of_mem grown.anchor_mem,
        hd.rooted grown.anchor_mem, ?_⟩
      rw [isBox_eq_core, grown.new] at hbox
      rw [skolemsOf_eq_core, grown.new]
      cases new with
      | box hfresh _ _ => exact hfresh
      | _ => simp [ItemKind.core] at hbox
    · rw [(grown.core?_deeper new hgt).1] at hbox
      exact absurd hbox (by decide)
  | justify rejustified _ _ => exact Or.inl (rejustified.isBox_eq id ▸ hbox)
  | mark marked _ => exact Or.inl (marked.isBox_eq id ▸ hbox)
  | dropGap dropped _ => exact Or.inl (isBox_congr (dropped.core id) ▸ hbox)
  | dropGoal dropped _ => exact Or.inl (dropped.isBox_eq id ▸ hbox)
  | relabel _ _ core _ => exact Or.inl (isBox_congr (core id) ▸ hbox)

/-- An edit makes no line a given. -/
theorem line?_given (h : Edit V P d e) (hline : e.line? id = some (f, .given)) :
    d.line? id = some (f, .given) := by
  cases h with
  | insert grown _ new _ =>
    rcases Nat.lt_trichotomy id d.items.size with hlt | rfl | hgt
    · exact line?_congr (grown.old hlt) ▸ hline
    · rw [line?_eq_core, grown.new] at hline
      cases new <;> simp [ItemKind.core] at hline
    · exact absurd hline ((grown.core?_deeper new hgt).2.2 f)
  | justify rejustified _ _ =>
    rw [rejustified.line?_eq] at hline
    split at hline
    · simp at hline
    · exact hline
  | mark marked _ => exact marked.line?_eq id ▸ hline
  | dropGap dropped _ => exact line?_congr (dropped.core id) ▸ hline
  | dropGoal dropped _ =>
    rw [dropped.line?_eq] at hline
    obtain ⟨⟨g, just⟩, hold, heq⟩ := Option.map_eq_some_iff.1 hline
    obtain ⟨rfl, hjust⟩ := Prod.mk.inj heq
    cases just with
    | given => exact hold
    | _ => simp [Justification.redirect] at hjust
  | relabel _ _ core _ => exact line?_congr (core id) ▸ hline

end Edit

/-! ### New constants -/

/-- The given lines are givens, the constants of the givens are known, and the Skolem constants of a
box occur in nothing that the box depends on. -/
structure Scoped (givens : List Formula) (d : Document) : Prop where
  given : ∀ {id f}, d.line? id = some (f, .given) → f ∈ givens
  known : ∀ f ∈ givens, ∀ c ∈ f.constants, c ∈ d.signature.constants
  fresh : ∀ {box}, d.isBox box = true → d.isLinked box = true → ∀ name ∈ d.skolemsOf box,
    ∀ f ∈ d.hypotheses givens box, name ∉ f.constants

/-- All constants of what an item depends on are known. -/
theorem Scoped.known_hypotheses (h : Scoped givens d) (hd : d.WellLinked)
    (hformulas : ∀ {id f}, d.formula? id = some f → ∀ c ∈ f.constants, c ∈ d.signature.constants)
    (hf : f ∈ d.hypotheses givens id) : ∀ c ∈ f.constants, c ∈ d.signature.constants := by
  rcases (mem_hypotheses_iff hd).1 hf with hf | ⟨box, -, hf⟩
  · exact h.known f hf
  · obtain ⟨_, -, hline⟩ := formula?_of_mem_assumptionsIn hf
    exact hformulas hline

/-- An edit keeps Skolem constants out of what their boxes depend on. -/
theorem Edit.scoped (h : Edit V P d e) (hd : Coherent V d) (hscoped : Scoped givens d)
    (hformulas : ∀ {id f}, d.formula? id = some f → ∀ c ∈ f.constants, c ∈ d.signature.constants) :
    Scoped givens e where
  given hline := hscoped.given (h.line?_given hline)
  known f hf c hc := h.signature_mono (hscoped.known f hf c hc)
  fresh {box} hbox hlinked name hname f hf := by
    rcases h.isBox_cases hd hbox with hold | ⟨outer, hmem, houter, houterLinked, hnew⟩
    · have hlt := lt_size_of_isBox hold
      have hlinked' := h.isLinked_of_lt hd hlt hlinked
      rw [(h.box_eq hd hold hlinked').1] at hname
      exact hscoped.fresh hold hlinked' name hname f (h.mem_hypotheses_of_lt hd hlt hf)
    · -- what a new box depends on was there before, and its constant was not
      refine fun hc => hnew name hname ?_
      rcases (mem_hypotheses_of_mem (h.coherent hd).linked hmem).1 hf with hf | hf
      · rw [(h.box_eq hd houter houterLinked).2] at hf
        obtain ⟨_, -, hline⟩ := formula?_of_mem_assumptionsIn hf
        exact hformulas hline name hc
      · have hold := h.mem_hypotheses_of_lt hd (lt_size_of_isBox houter) hf
        exact hscoped.known_hypotheses hd.linked hformulas hold name hc

/-- Edits keep Skolem constants out of what their boxes depend on, if all formulas have known
constants. -/
theorem Edits.scoped (h : Edits V P d e) (hd : Coherent V d) (hscoped : Scoped givens d)
    (hmono : ∀ {sig sig' : Signature} {f : Formula},
      (∀ name ∈ sig.constants, name ∈ sig'.constants) → P sig f → P sig' f)
    (hknown : ∀ {sig : Signature} {f : Formula}, P sig f → ∀ c ∈ f.constants, c ∈ sig.constants)
    (hformulas : ∀ {id f}, d.formula? id = some f → P d.signature f) : Scoped givens e := by
  induction h with
  | refl => exact hscoped
  | tail hsteps hstep ih =>
    exact hstep.scoped (Edits.coherent hsteps hd) ih fun hf =>
      hknown (Edits.formulas hsteps hmono hformulas hf)

/-- At the beginning of a task there are only givens and no Skolem constants. -/
theorem start_scoped {goal : Formula} {sig : Signature}
    (hknown : ∀ f ∈ givens, ∀ c ∈ f.constants, c ∈ sig.constants) :
    Scoped givens (start givens goal sig) where
  given hline := by
    rcases line?_start givens goal sig hline with ⟨-, hmem⟩ | ⟨hjust, -⟩
    · exact hmem
    · simp at hjust
  known := hknown
  fresh {box} hbox _ name hname := by
    obtain rfl := (isBox_start givens goal sig).1 hbox
    obtain ⟨-, hskolems, -, -⟩ := box_of_meaning? (meaning?_start_root givens goal sig)
    rw [hskolems] at hname
    exact absurd hname (NameSet.not_mem_empty name)

end NaturalDeduction.Document
