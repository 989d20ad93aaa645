import NaturalDeduction.Proofs.Document.Scope

/-!
# Coherent documents

A document is `Coherent` when its links are in step, every box ends in a line with a formula, every
line that follows by a rule cites what it may cite, and complete boxes hold nothing open.  What makes a
citation good is left open: it is a relation between the meanings of the cited items and the formula
of the line.

The changes that add nothing to a document keep it coherent: justifying a goal, marking a box as
complete, dropping an empty line, and dropping a goal in favour of the line before it.  Each is
described by what it does to the boxes and to the items, whatever operation brings it about.
-/

set_option autoImplicit false

namespace NaturalDeduction

/-- What a cited item stands for. -/
inductive Meaning where
  /-- The formula of a line. -/
  | formula (f : Formula)
  /-- The passage from the assumptions of a box to its last line, whatever its constants are. -/
  | box (skolems : NameSet) (assumptions : List Formula) (goal : Formula)

namespace Document

variable {d e : Document} {id box : ItemId}

/-! ### Meanings -/

/-- What a line assumes. -/
def assumption? (d : Document) (id : ItemId) : Option Formula :=
  match d.line? id with
  | some (f, .assumption) => some f
  | _ => none

/-- What a box assumes. -/
def assumptionsIn (d : Document) (box : ItemId) : List Formula :=
  (d.children box).filterMap d.assumption?

/-- The formula of the last line of a box. -/
def ending? (d : Document) (box : ItemId) : Option Formula :=
  (d.lastChild? box).bind d.formula?

/-- What an item stands for when it is cited. -/
def meaning? (d : Document) (id : ItemId) : Option Meaning :=
  if d.isBox id then (d.ending? id).map (.box (d.skolemsOf id) (d.assumptionsIn id))
  else (d.formula? id).map .formula

/-- A line stands for its formula. -/
theorem meaning?_of_line {f : Formula} {just : Justification} (h : d.line? id = some (f, just)) :
    d.meaning? id = some (.formula f) := by
  simp [meaning?, isBox_of_line? h, formula?, h]

/-- An item that stands for a box is a box with these Skolem constants, assumptions and goal. -/
theorem box_of_meaning? {skolems : NameSet} {assumptions : List Formula} {goal : Formula}
    (h : d.meaning? box = some (.box skolems assumptions goal)) :
    d.isBox box = true ∧ d.skolemsOf box = skolems ∧ d.assumptionsIn box = assumptions ∧
      d.ending? box = some goal := by
  unfold meaning? at h
  split at h
  · rename_i hbox
    obtain ⟨goal', hgoal, heq⟩ := Option.map_eq_some_iff.1 h
    obtain ⟨rfl, rfl, rfl⟩ := Meaning.box.inj heq
    exact ⟨hbox, rfl, rfl, hgoal⟩
  · obtain ⟨_, -, heq⟩ := Option.map_eq_some_iff.1 h
    exact absurd heq (by simp)

/-- What stands for something is an item. -/
theorem lt_size_of_meaning? {m : Meaning} (h : d.meaning? id = some m) : id < d.items.size := by
  by_contra hlt
  have hcore : d.core? id = none := core?_eq_none (Nat.not_lt.1 hlt)
  have hbox : d.isBox id = false := by rw [isBox_eq_core, hcore]
  have hline : d.line? id = none := by rw [line?_eq_core, hcore]
  simp [meaning?, hbox, formula?, hline] at h

/-- Whether an item is an assumption depends on its kind only. -/
theorem assumption?_congr {i j : ItemId} (h : e.core? i = d.core? j) :
    e.assumption? i = d.assumption? j := by
  rw [assumption?, assumption?, line?_congr h]

/-- Whether a line is open depends on its kind only. -/
theorem isOpen_congr {i j : ItemId} (h : e.core? i = d.core? j) : e.isOpen i = d.isOpen j := by
  rw [isOpen, isOpen, isEmptyLine_congr h, isGoal_congr h]

/-- Items that agree in all that matters for citing them stand for the same. -/
theorem meaning?_congr (hbox : e.isBox id = d.isBox id) (hformula : e.formula? id = d.formula? id)
    (hskolems : e.skolemsOf id = d.skolemsOf id) (hending : e.ending? id = d.ending? id)
    (hassumptions : e.assumptionsIn id = d.assumptionsIn id) : e.meaning? id = d.meaning? id := by
  rw [meaning?, meaning?, hbox, hformula, hskolems, hending, hassumptions]

/-- Two documents with the same boxes give an item the same meaning if they agree on what matters
for it. -/
theorem meaning?_congr_children (hkids : e.children = d.children)
    (hbox : ∀ j, e.isBox j = d.isBox j) (hformula : ∀ j, e.formula? j = d.formula? j)
    (hskolems : ∀ j, e.skolemsOf j = d.skolemsOf j)
    (hassumption : ∀ j, e.assumption? j = d.assumption? j) (id : ItemId) :
    e.meaning? id = d.meaning? id := by
  refine meaning?_congr (hbox id) (hformula id) (hskolems id) ?_ ?_
  · rw [ending?, ending?, lastChild?, lastChild?, hkids, funext hformula]
  · rw [assumptionsIn, assumptionsIn, hkids, funext hassumption]

/-! ### Coherent documents -/

/-- A line may cite what it cites, and its citations are good for its formula. -/
def Supported (V : List Meaning → Formula → Prop) (d : Document) (id : ItemId) (f : Formula)
    (cites : List ItemId) : Prop :=
  (∀ cite ∈ cites, d.Citable cite id) ∧
    ∃ meanings, cites.map d.meaning? = meanings.map some ∧ V meanings f

/-- A document that holds together. -/
structure Coherent (V : List Meaning → Formula → Prop) (d : Document) : Prop where
  linked : d.WellLinked
  rooted : d.Rooted
  ends : ∀ {box}, d.isBox box = true → d.isLinked box = true → ∃ f, d.ending? box = some f
  supported : ∀ {id f rule cites}, d.isLinked id = true →
    d.line? id = some (f, .byRule rule cites) → Supported V d id f cites
  closed : ∀ {box id}, d.isClosed box = true → id ∈ d.children box →
    d.isOpen id = false ∧ (d.isBox id = true → d.isClosed id = true)

/-- Marks go down: in a marked box nothing is open, and all boxes are marked. -/
theorem Coherent.closed_within {V : List Meaning → Formula → Prop} (h : Coherent V d)
    (hin : d.Within id box) (hbox : d.isClosed box = true) :
    d.isOpen id = false ∧ (d.isBox id = true → d.isClosed id = true) := by
  induction hin with
  | single hstep => exact h.closed hbox (h.linked.standsIn_iff.1 hstep)
  | tail hin hstep ih =>
    have hinner := (h.closed hbox (h.linked.standsIn_iff.1 hstep)).2
    exact ih (hinner (h.linked.isBox_of_within hin))

/-- What is visible depends on the items of the boxes only. -/
theorem visible_congr (hkids : e.children = d.children) {seen : ItemId} :
    e.Visible seen id ↔ d.Visible seen id := by
  constructor
  · intro h
    induction h with
    | beside h => exact .beside (hkids ▸ h)
    | around hmem _ ih => exact .around (hkids ▸ hmem) ih
  · intro h
    induction h with
    | beside h => exact .beside (hkids ▸ h)
    | around hmem _ ih => exact .around (hkids ▸ hmem) ih

/-! ### Changes that leave the boxes as they are -/

/-- Two documents have the same boxes with the same formulas and assumptions in them, and the second
has no new goals. -/
structure SameShape (d e : Document) : Prop where
  linked : e.WellLinked
  children : e.children = d.children
  isBox : ∀ j, e.isBox j = d.isBox j
  formula : ∀ j, e.formula? j = d.formula? j
  skolems : ∀ j, e.skolemsOf j = d.skolemsOf j
  assumption : ∀ j, e.assumption? j = d.assumption? j
  goal : ∀ j, e.isGoal j = true → d.isGoal j = true

namespace SameShape

variable {V : List Meaning → Formula → Prop}

/-- Documents with the same items in the same boxes have the same shape. -/
theorem of_core (hlinked : e.WellLinked) (hkids : e.children = d.children)
    (hcore : ∀ j, e.core? j = d.core? j) : SameShape d e :=
  ⟨hlinked, hkids, fun j => isBox_congr (hcore j), fun j => formula?_congr (hcore j),
    fun j => skolemsOf_congr (hcore j), fun j => assumption?_congr (hcore j),
    fun j hj => isGoal_congr (hcore j) ▸ hj⟩

/-- In a document of the same shape items stand for the same. -/
theorem meaning?_eq (s : SameShape d e) (id : ItemId) : e.meaning? id = d.meaning? id :=
  meaning?_congr_children s.children s.isBox s.formula s.skolems s.assumption id

/-- In a document of the same shape the same items are linked. -/
theorem isLinked_eq (s : SameShape d e) (hd : d.WellLinked) (id : ItemId) :
    e.isLinked id = d.isLinked id := by
  rw [Bool.eq_iff_iff, isLinked_iff, isLinked_iff]
  simp only [← hd.mem_children_iff, ← s.linked.mem_children_iff, s.children]

/-- In a document of the same shape still only linked boxes have items. -/
theorem rooted (s : SameShape d e) (hd : d.WellLinked) (hrooted : d.Rooted) : e.Rooted := by
  intro id b hmem
  rw [s.isLinked_eq hd]
  exact hrooted (s.children ▸ hmem)

/-- In a document of the same shape boxes end in the same formulas. -/
theorem ending?_eq (s : SameShape d e) (b : ItemId) : e.ending? b = d.ending? b := by
  rw [ending?, ending?, lastChild?, lastChild?, s.children, funext s.formula]

/-- In a document of the same shape all that could be cited still can. -/
theorem citable (s : SameShape d e) {cite : ItemId} (h : d.Citable cite id) : e.Citable cite id := by
  refine ⟨(visible_congr s.children).2 h.1, fun hgoal => ?_⟩
  rw [Beside, s.children]
  exact h.2 (s.goal cite hgoal)

/-- In a document of the same shape citations are as good as before. -/
theorem supported (s : SameShape d e) {f : Formula} {cites : List ItemId}
    (h : Supported V d id f cites) : Supported V e id f cites := by
  obtain ⟨hcites, ms, hms, hV⟩ := h
  refine ⟨fun c hc => s.citable (hcites c hc), ms, ?_, hV⟩
  rw [← hms]
  exact List.map_congr_left fun c _ => s.meaning?_eq c

/-- A document with the same boxes is coherent if its citations are good and its marks true. -/
theorem coherent (s : SameShape d e) (h : Coherent V d)
    (hsupported : ∀ {id f rule cites}, d.isLinked id = true →
      e.line? id = some (f, .byRule rule cites) → Supported V d id f cites)
    (hclosed : ∀ {box id}, e.isClosed box = true → id ∈ d.children box →
      e.isOpen id = false ∧ (d.isBox id = true → e.isClosed id = true)) : Coherent V e where
  linked := s.linked
  rooted := s.rooted h.linked h.rooted
  ends {b} hb hlinked := by
    rw [s.isBox] at hb
    rw [s.isLinked_eq h.linked] at hlinked
    rw [s.ending?_eq]
    exact h.ends hb hlinked
  supported {id f rule cites} hlinked hline := by
    rw [s.isLinked_eq h.linked] at hlinked
    exact s.supported (hsupported hlinked hline)
  closed {b id} hb hmem := by
    rw [s.isBox]
    exact hclosed hb (s.children ▸ hmem)

end SameShape

/-- The second document is the first with a goal justified. -/
structure Rejustified (d e : Document) (id : ItemId) (f : Formula) (rule : Rule)
    (cites : List ItemId) : Prop where
  before : d.line? id = some (f, .goal)
  linked : e.WellLinked
  children : e.children = d.children
  core : ∀ j, e.core? j = if j = id then some (.line f (.byRule rule cites) 0) else d.core? j

namespace Rejustified

variable {V : List Meaning → Formula → Prop} {f : Formula} {rule : Rule} {cites : List ItemId}

/-- The justified line has the new justification, and the others are as they were. -/
theorem line?_eq (r : Rejustified d e id f rule cites) (j : ItemId) :
    e.line? j = if j = id then some (f, .byRule rule cites) else d.line? j := by
  rw [line?_eq_core, r.core]
  by_cases hj : j = id
  · rw [if_pos hj, if_pos hj]
  · rw [if_neg hj, if_neg hj, line?_eq_core]

/-- The other items are as they were. -/
theorem core?_of_ne (r : Rejustified d e id f rule cites) {j : ItemId} (hj : j ≠ id) :
    e.core? j = d.core? j := by
  rw [r.core, if_neg hj]

/-- At the goal itself both documents have a line. -/
theorem isBox_eq (r : Rejustified d e id f rule cites) (j : ItemId) : e.isBox j = d.isBox j := by
  by_cases hj : j = id
  · rw [hj, isBox_of_line? r.before, isBox_of_line? (by rw [r.line?_eq, if_pos rfl])]
  · exact isBox_congr (r.core?_of_ne hj)

/-- Justifying a line marks no box. -/
theorem isClosed_eq (r : Rejustified d e id f rule cites) (j : ItemId) :
    e.isClosed j = d.isClosed j := by
  by_cases hj : j = id
  · have hbox := isBox_of_line? r.before
    have hbox' := r.isBox_eq id
    rw [hbox] at hbox'
    subst hj
    rw [isClosed, isClosed]
    rw [isBox, Option.isSome_eq_false_iff, Option.isNone_iff_eq_none] at hbox hbox'
    rw [hbox, hbox']
  · exact isClosed_congr (r.core?_of_ne hj)

/-- Justifying a line leaves the boxes their Skolem constants. -/
theorem skolemsOf_eq (r : Rejustified d e id f rule cites) (j : ItemId) :
    e.skolemsOf j = d.skolemsOf j := by
  by_cases hj : j = id
  · have hbox := isBox_of_line? r.before
    have hbox' := r.isBox_eq id
    rw [hbox] at hbox'
    subst hj
    rw [skolemsOf, skolemsOf]
    rw [isBox, Option.isSome_eq_false_iff, Option.isNone_iff_eq_none] at hbox hbox'
    rw [hbox, hbox']
  · exact skolemsOf_congr (r.core?_of_ne hj)

/-- Justifying a line keeps the shape. -/
theorem sameShape (r : Rejustified d e id f rule cites) : SameShape d e := by
  refine ⟨r.linked, r.children, r.isBox_eq, fun j => ?_, r.skolemsOf_eq, fun j => ?_,
    fun j hgoal => ?_⟩
  · by_cases hj : j = id
    · rw [formula?, formula?, r.line?_eq, if_pos hj, hj, r.before]
      rfl
    · exact formula?_congr (r.core?_of_ne hj)
  · by_cases hj : j = id
    · rw [assumption?, assumption?, r.line?_eq, if_pos hj, hj, r.before]
    · exact assumption?_congr (r.core?_of_ne hj)
  · by_cases hj : j = id
    · simp [hj, isGoal, r.before, Justification.isGoal]
    · rwa [isGoal_congr (r.core?_of_ne hj)] at hgoal

/-- Justifying a line opens none. -/
theorem isOpen_of_isOpen (r : Rejustified d e id f rule cites) {j : ItemId}
    (hj : e.isOpen j = true) : d.isOpen j = true := by
  by_cases hid : j = id
  · simp [hid, isOpen, isGoal, r.before, Justification.isGoal]
  · rwa [isOpen_congr (r.core?_of_ne hid)] at hj

/-- Justifying a goal by good citations keeps a document coherent. -/
theorem coherent (r : Rejustified d e id f rule cites) (h : Coherent V d)
    (hcites : Supported V d id f cites) : Coherent V e := by
  refine r.sameShape.coherent h (fun {j f' rule' cites'} hlinked hline => ?_)
    (fun {b j} hb hmem => ?_)
  · rw [r.line?_eq] at hline
    by_cases hj : j = id
    · rw [if_pos hj] at hline
      obtain ⟨rfl, hjust⟩ := Prod.mk.inj (Option.some.inj hline)
      obtain ⟨-, rfl⟩ := Justification.byRule.inj hjust
      exact hj ▸ hcites
    · rw [if_neg hj] at hline
      exact h.supported hlinked hline
  · rw [r.isClosed_eq] at hb
    obtain ⟨hopen, hinner⟩ := h.closed hb hmem
    refine ⟨?_, fun hbox => by rw [r.isClosed_eq]; exact hinner hbox⟩
    rw [Bool.eq_false_iff] at hopen ⊢
    exact fun hj => hopen (r.isOpen_of_isOpen hj)

end Rejustified

/-- The second document is the first with a box marked as complete, in which nothing is open. -/
structure Marked (d e : Document) (box : ItemId) : Prop where
  linked : e.WellLinked
  children : e.children = d.children
  core : ∀ j, e.core? j = if j = box then
    (d.core? j).map (ItemKind.updateBox fun data => { data with complete := true }) else d.core? j
  finished : ∀ id ∈ d.children box,
    d.isOpen id = false ∧ (d.isBox id = true → d.isClosed id = true)

namespace Marked

variable {V : List Meaning → Formula → Prop}

/-- An item stays what it is, or it is the box and gets its mark. -/
theorem core?_cases (m : Marked d e box) (j : ItemId) :
    e.core? j = d.core? j ∨ ∃ data, d.core? j = some (.box data) ∧
      e.core? j = some (.box { data with complete := true }) := by
  rw [m.core]
  split
  · rcases hcore : d.core? j with _ | (_ | _ | _ | data)
    · exact Or.inl rfl
    · exact Or.inl rfl
    · exact Or.inl rfl
    · exact Or.inl rfl
    · exact Or.inr ⟨data, rfl, rfl⟩
  · exact Or.inl rfl

/-- Marking a box leaves the lines as they are. -/
theorem line?_eq (m : Marked d e box) (j : ItemId) : e.line? j = d.line? j := by
  obtain hsame | ⟨data, hd, he⟩ := m.core?_cases j
  · exact line?_congr hsame
  · rw [line?_eq_core, line?_eq_core, hd, he]

/-- Marking a box makes no boxes. -/
theorem isBox_eq (m : Marked d e box) (j : ItemId) : e.isBox j = d.isBox j := by
  obtain hsame | ⟨data, hd, he⟩ := m.core?_cases j
  · exact isBox_congr hsame
  · rw [isBox_eq_core, isBox_eq_core, hd, he]

/-- Marking a box leaves the open lines as they are. -/
theorem isOpen_eq (m : Marked d e box) (j : ItemId) : e.isOpen j = d.isOpen j := by
  obtain hsame | ⟨data, hd, he⟩ := m.core?_cases j
  · exact isOpen_congr hsame
  · rw [isOpen, isOpen, isEmptyLine_eq_core, isEmptyLine_eq_core, isGoal, isGoal, m.line?_eq, hd, he]

/-- Marking a box keeps the shape. -/
theorem sameShape (m : Marked d e box) : SameShape d e := by
  refine ⟨m.linked, m.children, m.isBox_eq, fun j => ?_, fun j => ?_, fun j => ?_,
    fun j hgoal => ?_⟩
  · rw [formula?, formula?, m.line?_eq]
  · obtain hsame | ⟨data, hd, he⟩ := m.core?_cases j
    · exact skolemsOf_congr hsame
    · rw [skolemsOf_eq_core, skolemsOf_eq_core, hd, he]
  · rw [assumption?, assumption?, m.line?_eq]
  · rwa [isGoal, m.line?_eq] at hgoal

/-- Marking a box takes no mark away. -/
theorem isClosed_mono (m : Marked d e box) {b : ItemId} (hb : d.isClosed b = true) :
    e.isClosed b = true := by
  obtain hsame | ⟨data, hd, he⟩ := m.core?_cases b
  · rwa [isClosed_congr hsame]
  · rw [isClosed_eq_core, he]

/-- The other boxes keep their marks. -/
theorem isClosed_of_ne (m : Marked d e box) {b : ItemId} (hb : b ≠ box) :
    e.isClosed b = d.isClosed b :=
  isClosed_congr (by rw [m.core, if_neg hb])

/-- Marking a box keeps a document coherent. -/
theorem coherent (m : Marked d e box) (h : Coherent V d) : Coherent V e := by
  refine m.sameShape.coherent h (fun {j f rule cites} hlinked hline => ?_)
    (fun {b j} hb hmem => ?_)
  · rw [m.line?_eq] at hline
    exact h.supported hlinked hline
  · rw [m.isOpen_eq]
    by_cases hbox : b = box
    · obtain ⟨hopen, hinner⟩ := m.finished j (hbox ▸ hmem)
      exact ⟨hopen, fun hj => m.isClosed_mono (hinner hj)⟩
    · rw [m.isClosed_of_ne hbox] at hb
      obtain ⟨hopen, hinner⟩ := h.closed hb hmem
      exact ⟨hopen, fun hj => m.isClosed_mono (hinner hj)⟩

end Marked

/-! ### Dropping a line -/

/-- The second document is the first without a line, of which the meaning of no box depends. -/
structure Trimmed (d e : Document) (box : ItemId) (xs : List ItemId) (id : ItemId)
    (ys : List ItemId) : Prop where
  before : d.children box = xs ++ id :: ys
  linked : e.WellLinked
  here : e.children box = xs ++ ys
  elsewhere : ∀ b, b ≠ box → e.children b = d.children b
  line : d.isBox id = false
  isBox : ∀ j, e.isBox j = d.isBox j
  formula : ∀ j, e.formula? j = d.formula? j
  skolems : ∀ j, e.skolemsOf j = d.skolemsOf j
  assumption : ∀ j, e.assumption? j = d.assumption? j
  noAssumption : d.assumption? id = none
  goal : ∀ j, e.isGoal j = d.isGoal j
  ending : e.ending? box = d.ending? box

namespace Trimmed

variable {V : List Meaning → Formula → Prop} {xs ys : List ItemId}

/-- The line was an item of the box. -/
theorem mem (t : Trimmed d e box xs id ys) : id ∈ d.children box := by simp [t.before]

/-- The line does not come twice in the box. -/
theorem notMem (t : Trimmed d e box xs id ys) (hd : d.WellLinked) : id ∉ xs ++ ys :=
  (List.nodup_cons.1 (List.nodup_middle.1 (t.before ▸ hd.linkedBy.nodup box))).1

/-- All boxes keep their items except for the line. -/
theorem mem_children_iff (t : Trimmed d e box xs id ys) (hd : d.WellLinked) {j b : ItemId} :
    j ∈ e.children b ↔ j ∈ d.children b ∧ j ≠ id := by
  by_cases hb : b = box
  · subst hb
    rw [t.here, t.before]
    have hid := t.notMem hd
    constructor
    · intro hj
      refine ⟨?_, fun he => hid (he ▸ hj)⟩
      simp only [List.mem_append, List.mem_cons] at hj ⊢
      tauto
    · rintro ⟨hj, hne⟩
      simp only [List.mem_append, List.mem_cons] at hj ⊢
      tauto
  · rw [t.elsewhere b hb]
    constructor
    · intro hj
      exact ⟨hj, fun he => hb (hd.linkedBy.box_unique (he ▸ hj) t.mem)⟩
    · exact And.left

/-- Every box keeps the order of its items. -/
theorem children_sublist (t : Trimmed d e box xs id ys) (b : ItemId) :
    (e.children b).Sublist (d.children b) := by
  by_cases hb : b = box
  · rw [hb, t.here, t.before]
    exact (List.Sublist.refl xs).append (List.sublist_cons_self id ys)
  · rw [t.elsewhere b hb]

/-- Nothing is taken out of a list that does not have it. -/
theorem filter_ne_eq_self {ids : List ItemId} (h : id ∉ ids) : ids.filter (· ≠ id) = ids := by
  refine List.filter_eq_self.2 fun j hj => ?_
  have hj : j ≠ id := by rintro rfl; exact h hj
  simpa using hj

/-- The box has its items without the line. -/
theorem children_eq_filter (t : Trimmed d e box xs id ys) (hd : d.WellLinked) :
    e.children box = (d.children box).filter (· ≠ id) := by
  have hnot := t.notMem hd
  rw [List.mem_append, not_or] at hnot
  rw [t.here, t.before, List.filter_append, List.filter_cons_of_neg (by simp),
    filter_ne_eq_self hnot.1, filter_ne_eq_self hnot.2]

/-- What is left of a box keeps its order. -/
theorem sublist_children (t : Trimmed d e box xs id ys) (hd : d.WellLinked) {ids : List ItemId}
    {b : ItemId} (h : ids.Sublist (d.children b)) (hid : id ∉ ids) :
    ids.Sublist (e.children b) := by
  by_cases hb : b = box
  · subst hb
    rw [t.children_eq_filter hd, ← filter_ne_eq_self hid]
    exact h.filter _
  · rwa [t.elsewhere b hb]

/-- The line is no box. -/
theorem ne_of_isBox (t : Trimmed d e box xs id ys) {b : ItemId} (hb : d.isBox b = true) :
    b ≠ id := by
  rintro rfl
  rw [t.line] at hb
  exact absurd hb (by decide)

/-- All other items see each other as before. -/
theorem visible (t : Trimmed d e box xs id ys) (hd : d.WellLinked) {seen j : ItemId}
    (hseen : seen ≠ id) (hj : j ≠ id) (h : d.Visible seen j) : e.Visible seen j := by
  induction h with
  | beside h => exact .beside (t.sublist_children hd h (by simp [hseen.symm, hj.symm]))
  | around hmem _ ih =>
    exact .around ((t.mem_children_iff hd).2 ⟨hmem, hj⟩)
      (ih (t.ne_of_isBox (hd.linkedBy.isBox_of_mem hmem)))

/-- All other items can cite each other as before. -/
theorem citable (t : Trimmed d e box xs id ys) (hd : d.WellLinked) {cite j : ItemId}
    (hcite : cite ≠ id) (hj : j ≠ id) (h : d.Citable cite j) : e.Citable cite j := by
  refine ⟨t.visible hd hcite hj h.1, fun hgoal => ?_⟩
  obtain ⟨b, hmem, hmem'⟩ := h.2 (t.goal cite ▸ hgoal)
  exact ⟨b, (t.mem_children_iff hd).2 ⟨hmem, hcite⟩, (t.mem_children_iff hd).2 ⟨hmem', hj⟩⟩

/-- What saw the dropped line sees the line before it. -/
theorem visible_before {us : List ItemId} {x : ItemId} (t : Trimmed d e box (us ++ [x]) id ys)
    (hd : d.WellLinked) {j : ItemId} (hj : j ≠ id) (h : d.Visible id j) : e.Visible x j := by
  induction h with
  | @beside j b h =>
    obtain rfl : b = box := hd.linkedBy.box_unique (h.subset (by simp)) t.mem
    have hnodup := hd.linkedBy.nodup b
    rw [t.before] at h hnodup
    have hys : j ∈ ys := mem_of_sublist_pair hnodup h
    refine .beside (show [x, j].Sublist (e.children b) from ?_)
    rw [t.here]
    exact (List.sublist_append_right us [x]).append (List.singleton_sublist.2 hys)
  | around hmem _ ih =>
    exact .around ((t.mem_children_iff hd).2 ⟨hmem, hj⟩)
      (ih (t.ne_of_isBox (hd.linkedBy.isBox_of_mem hmem)))

/-- Boxes end in the same formulas. -/
theorem ending?_eq (t : Trimmed d e box xs id ys) (b : ItemId) : e.ending? b = d.ending? b := by
  by_cases hb : b = box
  · rw [hb, t.ending]
  · rw [ending?, ending?, lastChild?, lastChild?, t.elsewhere b hb, funext t.formula]

/-- Items stand for the same. -/
theorem meaning?_eq (t : Trimmed d e box xs id ys) (j : ItemId) : e.meaning? j = d.meaning? j := by
  refine meaning?_congr (t.isBox j) (t.formula j) (t.skolems j) (t.ending?_eq j) ?_
  rw [assumptionsIn, assumptionsIn, funext t.assumption]
  by_cases hj : j = box
  · rw [hj, t.here, t.before, List.filterMap_append, List.filterMap_append,
      List.filterMap_cons_none t.noAssumption]
  · rw [t.elsewhere j hj]

/-- All items are linked as before, except for the line. -/
theorem isLinked_iff (t : Trimmed d e box xs id ys) (hd : d.WellLinked) {j : ItemId} :
    e.isLinked j = true ↔ d.isLinked j = true ∧ j ≠ id := by
  rw [Document.isLinked_iff, Document.isLinked_iff]
  simp only [← hd.mem_children_iff, ← t.linked.mem_children_iff, t.mem_children_iff hd]
  have hroot : root ≠ id := t.ne_of_isBox hd.linkedBy.root_box
  constructor
  · rintro (rfl | ⟨b, hj, hne⟩)
    · exact ⟨Or.inl rfl, hroot⟩
    · exact ⟨Or.inr ⟨b, hj⟩, hne⟩
  · rintro ⟨rfl | ⟨b, hj⟩, hne⟩
    · exact Or.inl rfl
    · exact Or.inr ⟨b, hj, hne⟩

/-- A document that has lost a line is coherent if its citations are good and its marks true. -/
theorem coherent (t : Trimmed d e box xs id ys) (h : Coherent V d)
    (hsupported : ∀ {j f rule cites}, d.isLinked j = true → j ≠ id →
      e.line? j = some (f, .byRule rule cites) → Supported V e j f cites)
    (hclosed : ∀ {b j}, e.isClosed b = true → j ∈ d.children b →
      e.isOpen j = false ∧ (d.isBox j = true → e.isClosed j = true)) : Coherent V e where
  linked := t.linked
  rooted {j b} hmem := by
    have hmem' := ((t.mem_children_iff h.linked).1 hmem).1
    exact (t.isLinked_iff h.linked).2
      ⟨h.rooted hmem', t.ne_of_isBox (h.linked.linkedBy.isBox_of_mem hmem')⟩
  ends {b} hb hlinked := by
    rw [t.isBox] at hb
    rw [t.ending?_eq]
    exact h.ends hb ((t.isLinked_iff h.linked).1 hlinked).1
  supported {j f rule cites} hlinked hline := by
    obtain ⟨hlinked, hj⟩ := (t.isLinked_iff h.linked).1 hlinked
    exact hsupported hlinked hj hline
  closed {b j} hb hmem := by
    rw [t.isBox]
    exact hclosed hb ((t.mem_children_iff h.linked).1 hmem).1

end Trimmed

/-- The second document is the first without an empty line. -/
structure DroppedGap (d e : Document) (box : ItemId) (xs : List ItemId) (id : ItemId)
    (ys : List ItemId) : Prop where
  before : d.children box = xs ++ id :: ys
  empty : d.isEmptyLine id = true
  linked : e.WellLinked
  here : e.children box = xs ++ ys
  elsewhere : ∀ b, b ≠ box → e.children b = d.children b
  core : ∀ j, e.core? j = d.core? j

/-- An empty line has no formula. -/
theorem line?_of_isEmptyLine (h : d.isEmptyLine id = true) : d.line? id = none := by
  rw [isEmptyLine_eq_core] at h
  rw [line?_eq_core]
  rcases hcore : d.core? id with _ | (_ | _ | _ | _)
  all_goals simp [hcore] at h ⊢

/-- A goal has a formula. -/
theorem exists_line?_of_isGoal (h : d.isGoal id = true) : ∃ f, d.line? id = some (f, .goal) := by
  rw [isGoal] at h
  rcases hline : d.line? id with _ | ⟨f, _ | _ | _ | _⟩
  all_goals simp [hline, Justification.isGoal] at h ⊢

namespace DroppedGap

variable {V : List Meaning → Formula → Prop} {xs ys : List ItemId}

/-- Without an empty line, the document is one without a line that no box depends on. -/
theorem trimmed (g : DroppedGap d e box xs id ys) (h : Coherent V d) :
    Trimmed d e box xs id ys := by
  have hopen : d.isOpen id = true := by simp [isOpen, g.empty]
  have hline := line?_of_isEmptyLine g.empty
  have hmem : id ∈ d.children box := by simp [g.before]
  refine ⟨g.before, g.linked, g.here, g.elsewhere, isBox_of_isOpen hopen,
    fun j => isBox_congr (g.core j), fun j => formula?_congr (g.core j),
    fun j => skolemsOf_congr (g.core j), fun j => assumption?_congr (g.core j),
    by simp [assumption?, hline], fun j => isGoal_congr (g.core j), ?_⟩
  -- a box does not end in an empty line
  obtain ⟨f, hf⟩ := h.ends (h.linked.linkedBy.isBox_of_mem hmem) (h.rooted hmem)
  have hys : ys ≠ [] := by
    rintro rfl
    simp [ending?, lastChild?, g.before, formula?, hline] at hf
  have hlast : e.lastChild? box = d.lastChild? box := by
    obtain ⟨y, hy⟩ : ∃ y, ys.getLast? = some y := by
      cases hlast : ys.getLast? with
      | none => exact absurd (List.getLast?_eq_none_iff.1 hlast) hys
      | some y => exact ⟨y, rfl⟩
    rw [lastChild?, lastChild?, g.here, g.before]
    simp [List.getLast?_append, List.getLast?_cons, hy]
  have hformula : e.formula? = d.formula? := funext fun j => formula?_congr (g.core j)
  rw [ending?, ending?, hlast, hformula]

/-- A coherent document without one of its empty lines is coherent. -/
theorem coherent (g : DroppedGap d e box xs id ys) (h : Coherent V d) : Coherent V e := by
  have t := g.trimmed h
  refine t.coherent h (fun {j f rule cites} hlinked hj hline => ?_) (fun {b j} hb hmem => ?_)
  · rw [line?_congr (g.core j)] at hline
    obtain ⟨hcites, ms, hms, hV⟩ := h.supported hlinked hline
    refine ⟨fun c hc => t.citable h.linked ?_ hj (hcites c hc), ms, ?_, hV⟩
    · -- an empty line stands for nothing
      rintro rfl
      have hsome : d.meaning? c ∈ ms.map some := hms ▸ List.mem_map_of_mem hc
      simp [meaning?, t.line, formula?, line?_of_isEmptyLine g.empty] at hsome
    · rw [← hms]
      exact List.map_congr_left fun c _ => t.meaning?_eq c
  · rw [isClosed_congr (g.core b)] at hb
    rw [isOpen_congr (g.core j), isClosed_congr (g.core j)]
    exact h.closed hb hmem

end DroppedGap

/-- The second document is the first without a goal, which is cited no more: the line before it
follows by a rule, has the same formula and is cited in its place. -/
structure DroppedGoal (d e : Document) (box : ItemId) (us : List ItemId) (x goal : ItemId)
    (ys : List ItemId) : Prop where
  before : d.children box = us ++ x :: goal :: ys
  same : ∃ f rule cites, d.line? x = some (f, .byRule rule cites) ∧ d.line? goal = some (f, .goal)
  linked : e.WellLinked
  here : e.children box = us ++ x :: ys
  elsewhere : ∀ b, b ≠ box → e.children b = d.children b
  core : ∀ j, e.core? j = (d.core? j).map (ItemKind.updateJust (Justification.redirect goal x))

namespace DroppedGoal

variable {V : List Meaning → Formula → Prop} {us ys : List ItemId} {x goal : ItemId}

/-- The lines are as they were, but cite the line before the goal in its place. -/
theorem line?_eq (g : DroppedGoal d e box us x goal ys) (j : ItemId) :
    e.line? j = (d.line? j).map fun line => (line.1, line.2.redirect goal x) := by
  rw [line?_eq_core, line?_eq_core, g.core]
  rcases d.core? j with _ | (_ | _ | _ | _) <;> rfl

/-- Dropping a goal makes no boxes. -/
theorem isBox_eq (g : DroppedGoal d e box us x goal ys) (j : ItemId) : e.isBox j = d.isBox j := by
  rw [isBox_eq_core, isBox_eq_core, g.core]
  rcases d.core? j with _ | (_ | _ | _ | _) <;> rfl

/-- Dropping a goal leaves all marks as they are. -/
theorem isClosed_eq (g : DroppedGoal d e box us x goal ys) (j : ItemId) :
    e.isClosed j = d.isClosed j := by
  rw [isClosed_eq_core, isClosed_eq_core, g.core]
  rcases d.core? j with _ | (_ | _ | _ | _) <;> rfl

/-- Dropping a goal opens and closes no line. -/
theorem isOpen_eq (g : DroppedGoal d e box us x goal ys) (j : ItemId) :
    e.isOpen j = d.isOpen j := by
  rw [isOpen, isOpen, isGoal, isGoal, line?_eq_core, line?_eq_core, isEmptyLine_eq_core,
    isEmptyLine_eq_core, g.core]
  rcases d.core? j with _ | (⟨_, _ | _ | _ | _, _⟩ | _ | _ | _) <;> rfl

/-- Dropping a goal makes no other line a goal. -/
theorem isGoal_eq (g : DroppedGoal d e box us x goal ys) (j : ItemId) :
    e.isGoal j = d.isGoal j := by
  rw [isGoal, isGoal, g.line?_eq]
  rcases d.line? j with _ | ⟨_, _ | _ | _ | _⟩ <;> rfl

/-- Without a proved goal, the document is one without a line that no box depends on. -/
theorem trimmed (g : DroppedGoal d e box us x goal ys) : Trimmed d e box (us ++ [x]) goal ys := by
  obtain ⟨f, rule, cites, hx, hgoal⟩ := g.same
  have hformula : ∀ j, e.formula? j = d.formula? j := by
    intro j
    rw [formula?, formula?, g.line?_eq]
    cases d.line? j <;> rfl
  refine ⟨by simp [g.before], g.linked, by simp [g.here], g.elsewhere, isBox_of_line? hgoal,
    g.isBox_eq, hformula, fun j => ?_, fun j => ?_, by simp [assumption?, hgoal], g.isGoal_eq, ?_⟩
  · rw [skolemsOf_eq_core, skolemsOf_eq_core, g.core]
    rcases d.core? j with _ | (_ | _ | _ | _) <;> rfl
  · rw [assumption?, assumption?, g.line?_eq]
    rcases d.line? j with _ | ⟨_, _ | _ | _ | _⟩ <;> rfl
  · -- the line before the goal ends the box as the goal did
    rw [ending?, ending?, lastChild?, lastChild?, g.here, g.before, funext hformula]
    cases hlast : ys.getLast? with
    | none =>
      obtain rfl := List.getLast?_eq_none_iff.1 hlast
      simp [formula?, hx, hgoal]
    | some y => simp [List.getLast?_append, List.getLast?_cons, hlast]

/-- A coherent document without a proved goal is coherent. -/
theorem coherent (g : DroppedGoal d e box us x goal ys) (h : Coherent V d) : Coherent V e := by
  have t := g.trimmed
  obtain ⟨f₀, rule₀, cites₀, hx, hgoal⟩ := g.same
  have hmeaning : d.meaning? x = d.meaning? goal := by
    rw [meaning?_of_line hx, meaning?_of_line hgoal]
  refine t.coherent h (fun {j f rule cites} hlinked hj hline => ?_) (fun {b j} hb hmem => ?_)
  · rw [g.line?_eq] at hline
    obtain ⟨⟨f', just⟩, hold, hline⟩ := Option.map_eq_some_iff.1 hline
    obtain ⟨rfl, hjust⟩ := Prod.mk.inj hline
    cases just with
    | byRule rule' cites' =>
      obtain ⟨rfl, rfl⟩ := Justification.byRule.inj hjust
      obtain ⟨hcites, ms, hms, hV⟩ := h.supported hlinked hold
      refine ⟨?_, ms, ?_, hV⟩
      · intro c hc
        obtain ⟨c', hc', rfl⟩ := List.mem_map.1 hc
        by_cases hc : c' = goal
        · rw [if_pos hc]
          refine ⟨t.visible_before h.linked hj (hc ▸ (hcites c' hc').1), fun hx' => ?_⟩
          -- the line that takes the place of the goal is none itself
          rw [g.isGoal_eq, isGoal, hx] at hx'
          simp [Justification.isGoal] at hx'
        · rw [if_neg hc]
          exact t.citable h.linked hc hj (hcites c' hc')
      · rw [← hms, List.map_map]
        refine List.map_congr_left fun c _ => ?_
        rw [Function.comp, t.meaning?_eq]
        split
        · rename_i hc
          rw [hmeaning, hc]
        · rfl
    | _ => simp [Justification.redirect] at hjust
  · rw [g.isClosed_eq] at hb
    rw [g.isOpen_eq, g.isClosed_eq]
    exact h.closed hb hmem

end DroppedGoal

end Document
end NaturalDeduction
