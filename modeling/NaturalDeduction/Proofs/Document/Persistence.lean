import NaturalDeduction.Proofs.Document.Finality
import NaturalDeduction.Proofs.Document.Ordered
import NaturalDeduction.Proofs.Document.Skolems

/-!
# What selected lines become

Lines are selected in one document and may be worked on in a later one.  Edits do not bring back what
they have taken out of the document, they do not open a line again, and an empty line remains one.  So
what was selected can still be worked on as long as its lines stand in the document and its target is
open (`Edits.selects`); and a target that is no longer open was a goal.
-/

set_option autoImplicit false

namespace NaturalDeduction.Document

variable {d e : Document} {id : ItemId} {V : List Meaning → Formula → Prop}
  {P : Signature → Formula → Prop}

/-- An open line is an item. -/
theorem lt_size_of_isOpen (h : d.isOpen id = true) : id < d.items.size := by
  cases hcore : d.core? id with
  | some kind => exact lt_size_of_core? hcore
  | none => simp [isOpen, isGoal, line?_eq_core, isEmptyLine_eq_core, hcore] at h

/-! ### One edit -/

namespace Edit

/-- The table does not get shorter. -/
theorem lt_size (h : Edit V P d e) (hlt : id < d.items.size) : id < e.items.size := by
  obtain ⟨kind, hkind⟩ : ∃ kind, d.core? id = some kind := by simp [core?, kind?, hlt]
  suffices hstill : ∃ kind', e.core? id = some kind' by
    obtain ⟨kind', hkind'⟩ := hstill
    exact lt_size_of_core? hkind'
  cases h with
  | insert grown _ _ _ => exact ⟨kind, (grown.old hlt).trans hkind⟩
  | justify rejustified _ _ =>
    rw [rejustified.core]
    split
    · exact ⟨_, rfl⟩
    · exact ⟨kind, hkind⟩
  | mark marked _ =>
    obtain hsame | ⟨data, -, hbox⟩ := marked.core?_cases id
    · exact ⟨kind, hsame.trans hkind⟩
    · exact ⟨_, hbox⟩
  | dropGap dropped _ => exact ⟨kind, (dropped.core id).trans hkind⟩
  | dropGoal dropped _ => exact ⟨_, by rw [dropped.core, hkind]; rfl⟩
  | relabel _ _ core _ => exact ⟨kind, (core id).trans hkind⟩

/-- An old item that is open has not been changed. -/
theorem core?_of_isOpen (h : Edit V P d e) (hlt : id < d.items.size) (hopen : e.isOpen id = true) :
    e.core? id = d.core? id := by
  cases h with
  | insert grown _ _ _ => exact grown.old hlt
  | @justify goal f rule cites rejustified _ _ =>
    refine rejustified.core?_of_ne ?_
    rintro rfl
    have hline : e.line? id = some (f, .byRule rule cites) := by rw [rejustified.line?_eq, if_pos rfl]
    have hempty : e.isEmptyLine id = false := by
      rw [isEmptyLine_eq_core, rejustified.core, if_pos rfl]
    simp [isOpen, isGoal, hline, hempty, Justification.isGoal] at hopen
  | mark marked _ =>
    obtain hsame | ⟨data, -, hbox⟩ := marked.core?_cases id
    · exact hsame
    · have hline := isBox_of_isOpen hopen
      simp [isBox_eq_core, hbox] at hline
  | dropGap dropped _ => exact dropped.core id
  | dropGoal dropped _ =>
    refine dropped.core?_of_not_cites fun f rule cites hline => ?_
    rw [dropped.isOpen_eq, isOpen, isGoal, hline] at hopen
    have hempty : d.isEmptyLine id = true := by simpa [Justification.isGoal] using hopen
    simp [line?_of_isEmptyLine hempty] at hline
  | relabel _ _ core _ => exact core id

/-- An empty line remains one. -/
theorem isEmptyLine (h : Edit V P d e) (hempty : d.isEmptyLine id = true) :
    e.isEmptyLine id = true := by
  have hopen : d.isOpen id = true := by simp [isOpen, hempty]
  rw [← hempty]
  cases h with
  | insert grown _ _ _ => exact isEmptyLine_congr (grown.old (lt_size_of_isOpen hopen))
  | justify rejustified _ _ =>
    refine isEmptyLine_congr (rejustified.core?_of_ne ?_)
    rintro rfl
    have hline := rejustified.before
    simp [line?_of_isEmptyLine hempty] at hline
  | mark marked _ =>
    obtain hsame | ⟨data, hbox, -⟩ := marked.core?_cases id
    · exact isEmptyLine_congr hsame
    · simp [isEmptyLine_eq_core, hbox] at hempty
  | dropGap dropped _ => exact isEmptyLine_congr (dropped.core id)
  | dropGoal dropped _ =>
    refine isEmptyLine_congr (dropped.core?_of_not_cites fun f rule cites hline => ?_)
    simp [line?_of_isEmptyLine hempty] at hline
  | relabel _ _ core _ => exact isEmptyLine_congr (core id)

/-- A line keeps its formula. -/
theorem formula?_eq (h : Edit V P d e) {f : Formula} (hf : d.formula? id = some f) :
    e.formula? id = some f := by
  rw [← hf]
  cases h with
  | insert grown _ _ _ => exact grown.formula?_eq (lt_size_of_formula? hf)
  | justify rejustified _ _ => exact rejustified.sameShape.formula id
  | mark marked _ => exact marked.sameShape.formula id
  | dropGap dropped _ => exact formula?_congr (dropped.core id)
  | dropGoal dropped _ => exact dropped.trimmed.formula id
  | relabel _ _ core _ => exact formula?_congr (core id)

/-- What an item sees it sees still, as long as both stand in the document. -/
theorem visible (h : Edit V P d e) (hd : Coherent V d) {seen : ItemId} (hvis : d.Visible seen id)
    (hseen : e.isLinked seen = true) (hid : e.isLinked id = true) : e.Visible seen id := by
  cases h with
  | insert grown _ _ _ => exact grown.visible hd.linked hvis
  | justify rejustified _ _ => exact (visible_congr rejustified.children).2 hvis
  | mark marked _ => exact (visible_congr marked.children).2 hvis
  | dropGap dropped _ =>
    have htrimmed := dropped.trimmed hd
    rw [htrimmed.isLinked_iff hd.linked] at hseen hid
    exact htrimmed.visible hd.linked hseen.2 hid.2 hvis
  | dropGoal dropped _ =>
    have htrimmed := dropped.trimmed
    rw [htrimmed.isLinked_iff hd.linked] at hseen hid
    exact htrimmed.visible hd.linked hseen.2 hid.2 hvis
  | relabel _ children _ _ => exact (visible_congr children).2 hvis

/-- What was selected can still be worked on if its lines stand in the document and its target is
open. -/
theorem selects (h : Edit V P d e) (hd : Coherent V d) {selection : Selection}
    (hsel : d.Selects selection) (htarget : e.isLinked selection.target = true)
    (hcites : ∀ cite ∈ selection.cites, e.isLinked cite = true)
    (hopen : e.isOpen selection.target = true) : e.Selects selection := by
  have he := h.coherent hd
  refine ⟨(he.linked.mem_lines_iff he.rooted).2 ⟨htarget, isBox_of_isOpen hopen⟩, hopen,
    fun cite hcite => ?_, fun cite hcite => ?_, fun cite hcite => ?_⟩
  · exact h.visible hd (hsel.visible cite hcite) (hcites cite hcite) htarget
  · obtain ⟨f, hf⟩ := Option.isSome_iff_exists.1 (hsel.formula cite hcite)
    rw [h.formula?_eq hf]
    rfl
  · obtain ⟨f, hf⟩ := Option.isSome_iff_exists.1 (hsel.formula cite hcite)
    have hproved := hsel.proved cite hcite
    rw [Bool.eq_false_iff] at hproved ⊢
    intro hgoal
    have hcore := h.core?_of_isOpen (lt_size_of_formula? hf) (by simp [isOpen, hgoal])
    exact hproved (isGoal_congr hcore ▸ hgoal)

end Edit

/-! ### Several edits -/

namespace Edits

/-- Edits keep all items. -/
theorem lt_size (h : Edits V P d e) (hlt : id < d.items.size) : id < e.items.size := by
  induction h with
  | refl => exact hlt
  | tail _ hstep ih => exact hstep.lt_size ih

/-- A line that is open after edits has not been changed by them. -/
theorem core?_of_isOpen (h : Edits V P d e) (hlt : id < d.items.size) (hopen : e.isOpen id = true) :
    e.core? id = d.core? id := by
  induction h with
  | refl => rfl
  | tail hsteps hstep ih =>
    have hcore := hstep.core?_of_isOpen (lt_size hsteps hlt) hopen
    exact hcore.trans (ih (isOpen_congr hcore ▸ hopen))

/-- An empty line stays an empty line. -/
theorem isEmptyLine (h : Edits V P d e) (hempty : d.isEmptyLine id = true) :
    e.isEmptyLine id = true := by
  induction h with
  | refl => exact hempty
  | tail _ hstep ih => exact hstep.isEmptyLine ih

/-- A line keeps its formula. -/
theorem formula?_eq (h : Edits V P d e) {f : Formula} (hf : d.formula? id = some f) :
    e.formula? id = some f := by
  induction h with
  | refl => exact hf
  | tail _ hstep ih => exact hstep.formula?_eq ih

/-- An open line that is no longer open was a goal. -/
theorem isGoal_of_not_isOpen (h : Edits V P d e) (hopen : d.isOpen id = true)
    (hclosed : e.isOpen id = false) : d.isGoal id = true := by
  rw [isOpen, Bool.or_eq_true] at hopen
  refine hopen.resolve_left fun hempty => ?_
  simp [isOpen, isEmptyLine h hempty] at hclosed

/-- A selection can still be made after edits if its lines still stand in the document and its
target is still open. -/
theorem selects (h : Edits V P d e) (hd : Coherent V d) {selection : Selection}
    (hsel : d.Selects selection) (htarget : e.isLinked selection.target = true)
    (hcites : ∀ cite ∈ selection.cites, e.isLinked cite = true)
    (hopen : e.isOpen selection.target = true) : e.Selects selection := by
  induction h with
  | refl => exact hsel
  | @tail mid e hsteps hstep ih =>
    have hmid := coherent hsteps hd
    -- the last edit has brought none of the lines into the document, and has not opened the target
    have hlt := lt_size hsteps (lt_size_of_isOpen hsel.target_open)
    have hcore := hstep.core?_of_isOpen hlt hopen
    have hbefore : ∀ cite ∈ selection.cites, mid.isLinked cite = true := by
      intro cite hcite
      obtain ⟨f, hf⟩ := Option.isSome_iff_exists.1 (hsel.formula cite hcite)
      exact hstep.isLinked_of_lt hmid (lt_size hsteps (lt_size_of_formula? hf)) (hcites cite hcite)
    have hselects := ih (hstep.isLinked_of_lt hmid hlt htarget) hbefore (isOpen_congr hcore ▸ hopen)
    exact hstep.selects hmid hselects htarget hcites hopen

end Edits

end NaturalDeduction.Document
