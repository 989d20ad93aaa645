import Mathlib.Data.List.Flatten
import NaturalDeduction.Proofs.Document.Moves
import NaturalDeduction.Proofs.Document.Ordered

/-!
# What completion keeps

Completion takes lines out of a document but nothing of what they say.  `Survives` lists what is kept:
only empty lines and goals go, a goal goes only if a line before it in its box says the same and stays,
and the lines that stay keep their formulas and their order.  A line that stays has its justification,
unless it was a goal that is given or assumed before, or unless it cited a goal that is gone; then it
cites what proves this goal.  In any case what it cites stands in the document.

Each move of completion is of this kind, and so are several (`Moves.survives`).
-/

set_option autoImplicit false

namespace NaturalDeduction

/-- The items that a justification cites. -/
def Justification.cites : Justification → List ItemId
  | .byRule _ cites => cites
  | _ => []

namespace Document

variable {d e : Document} {id box : ItemId} {V : List Meaning → Formula → Prop}

/-! ### Justifications that follow -/

/-- An item that stands in the document is cited as before, or in place of one that is gone and has the
same formula. -/
def Recited (d e : Document) (old new : ItemId) : Prop :=
  e.isLinked new = true ∧ (new = old ∨ d.isLinked old = true ∧ e.isLinked old = false ∧
    ∃ f, d.formula? old = some f ∧ e.formula? new = some f)

/-- What may become of the justification of a line with the formula `f`. -/
inductive Follows (d e : Document) (id : ItemId) (f : Formula) : Justification → Justification → Prop
  /-- All that is cited stands in the document still. -/
  | keep {just : Justification} (linked : ∀ cite ∈ just.cites, e.isLinked cite = true) :
      Follows d e id f just just
  /-- A goal is ticked that is given or assumed before it in its box. -/
  | tick {box x : ItemId} {just : Justification} (before : [x, id].Sublist (d.children box))
      (hx : d.line? x = some (f, just)) (premise : just.isPremise = true)
      (linked : e.isLinked x = true) :
      Follows d e id f .goal (.byRule .tick [x])
  | recite {rule : Rule} {cites cites' : List ItemId}
      (hcites : List.Forall₂ (Recited d e) cites cites') :
      Follows d e id f (.byRule rule cites) (.byRule rule cites')

/-- A line that a rule justifies keeps its rule, and its citations are recited. -/
theorem Follows.recited {f : Formula} {rule : Rule} {cites : List ItemId} {just : Justification}
    (h : Follows d e id f (.byRule rule cites) just) :
    ∃ cites', just = .byRule rule cites' ∧ List.Forall₂ (Recited d e) cites cites' := by
  cases h with
  | keep linked => exact ⟨cites, rfl, List.forall₂_same.2 fun c hc => ⟨linked c hc, Or.inl rfl⟩⟩
  | recite hcites => exact ⟨_, rfl, hcites⟩

/-- In a coherent document all that is cited stands in the document, so a justification may stay as it
is. -/
theorem Coherent.follows_keep (h : Coherent V e) (hlinked : e.isLinked id = true) {f : Formula}
    {just : Justification} (hline : e.line? id = some (f, just)) : Follows d e id f just just := by
  refine .keep fun cite hcite => ?_
  cases just with
  | byRule rule cites => exact (h.cited hlinked hline hcite).1
  | _ => simp [Justification.cites] at hcite

/-- Premises are neither made nor lost. -/
theorem Follows.eq_of_isPremise {f : Formula} {just just' : Justification}
    (h : Follows d e id f just just') (hpremise : just.isPremise = true ∨ just'.isPremise = true) :
    just' = just := by
  cases h with
  | keep => rfl
  | tick | recite => simp [Justification.isPremise] at hpremise

/-! ### What survives -/

/-- The second document has lost empty lines and proved goals of the first, and nothing else. -/
structure Survives (d e : Document) : Prop where
  shrunk : Shrunk d e
  /-- Nothing comes into the document. -/
  linked : ∀ {id}, e.isLinked id = true → d.isLinked id = true
  /-- What goes is an empty line or a goal. -/
  gone : ∀ {id}, d.isLinked id = true → e.isLinked id = false → d.isOpen id = true
  /-- A goal that goes is proved before it in its box, by a line that stays. -/
  proved : ∀ {id box f}, id ∈ d.children box → d.line? id = some (f, .goal) →
    e.isLinked id = false → ∃ x just, [x, id].Sublist (d.children box) ∧
      d.line? x = some (f, just) ∧ just ≠ .goal ∧ e.isLinked x = true
  formula : ∀ id, e.formula? id = d.formula? id
  follows : ∀ {id f just}, e.isLinked id = true → d.line? id = some (f, just) →
    ∃ just', e.line? id = some (f, just') ∧ Follows d e id f just just'
  isOpen : ∀ {id}, e.isOpen id = true → d.isOpen id = true
  meaning : ∀ id, e.meaning? id = d.meaning? id
  ending : ∀ box, e.ending? box = d.ending? box

/-- A line with a formula is open if it is a goal. -/
theorem isOpen_of_line? {f : Formula} {just : Justification} (h : d.line? id = some (f, just)) :
    d.isOpen id = just.isGoal := by
  have hempty : d.isEmptyLine id = false := by
    rw [Bool.eq_false_iff]
    intro hempty
    simp [line?_of_isEmptyLine hempty] at h
  simp [isOpen, hempty, isGoal, h]

/-- A line with a formula has a justification. -/
theorem exists_line?_of_formula? {f : Formula} (h : d.formula? id = some f) :
    ∃ just, d.line? id = some (f, just) := by
  rw [formula?] at h
  obtain ⟨⟨f', just⟩, hline, rfl⟩ := Option.map_eq_some_iff.1 h
  exact ⟨just, hline⟩

/-- What stands before something that stands before an item stands before the item. -/
theorem WellLinked.before_trans (h : d.WellLinked) {x y z : ItemId}
    (hxy : [x, y].Sublist (d.children box)) (hyz : [y, z].Sublist (d.children box)) :
    [x, z].Sublist (d.children box) := by
  have hnodup := h.linkedBy.nodup box
  obtain ⟨us, vs, hsplit⟩ := List.append_of_mem (hyz.subset (by simp : y ∈ [y, z]))
  rw [hsplit] at hxy hyz hnodup ⊢
  have hx := mem_of_pair_sublist hnodup hxy
  have hz := mem_of_sublist_pair hnodup hyz
  exact (List.singleton_sublist.2 hx).append (List.singleton_sublist.2 (List.mem_cons_of_mem y hz))

namespace Survives

/-- Two documents with the same boxes, of which the second has every justification of the first or
one that follows. -/
theorem of_sameShape (h : SameShape d e) (hd : d.WellLinked)
    (hfollows : ∀ {id f just}, e.isLinked id = true → d.line? id = some (f, just) →
      ∃ just', e.line? id = some (f, just') ∧ Follows d e id f just just')
    (hopen : ∀ {id}, e.isOpen id = true → d.isOpen id = true) : Survives d e where
  shrunk := .of_sameShape h
  linked hlinked := h.isLinked_eq hd _ ▸ hlinked
  gone hlinked hgone := by simp [h.isLinked_eq hd, hlinked] at hgone
  proved hmem _ hgone := by simp [h.isLinked_eq hd, hd.isLinked_of_mem hmem] at hgone
  formula := h.formula
  follows := hfollows
  isOpen := hopen
  meaning := h.meaning?_eq
  ending := h.ending?_eq

/-- A document that has lost an open line, which is proved before it if it is a goal. -/
theorem of_trimmed {xs ys : List ItemId} (t : Trimmed d e box xs id ys) (hd : d.WellLinked)
    (hopen : d.isOpen id = true)
    (hproved : ∀ {f}, d.line? id = some (f, .goal) →
      ∃ x ∈ xs, ∃ just, d.line? x = some (f, just) ∧ just ≠ .goal)
    (hfollows : ∀ {j f just}, e.isLinked j = true → d.line? j = some (f, just) →
      ∃ just', e.line? j = some (f, just') ∧ Follows d e j f just just')
    (hopens : ∀ j, e.isOpen j = d.isOpen j) : Survives d e where
  shrunk := .of_trimmed t hd
  linked hlinked := ((t.isLinked_iff hd).1 hlinked).1
  gone {j} hlinked hgone := by
    obtain rfl : j = id := by
      by_contra hne
      simp [(t.isLinked_iff hd).2 ⟨hlinked, hne⟩] at hgone
    exact hopen
  proved {j b f} hmem hline hgone := by
    obtain rfl : j = id := by
      by_contra hne
      simp [(t.isLinked_iff hd).2 ⟨hd.isLinked_of_mem hmem, hne⟩] at hgone
    obtain rfl := hd.linkedBy.box_unique hmem t.mem
    obtain ⟨x, hx, just, hxline, hjust⟩ := hproved hline
    have hxmem : x ∈ d.children b := by simp [t.before, hx]
    have hne : x ≠ j := by
      rintro rfl
      exact t.notMem hd (List.mem_append_left ys hx)
    refine ⟨x, just, ?_, hxline, hjust, (t.isLinked_iff hd).2 ⟨hd.isLinked_of_mem hxmem, hne⟩⟩
    rw [t.before]
    exact (List.singleton_sublist.2 hx).append (List.singleton_sublist.2 List.mem_cons_self)
  formula := t.formula
  follows := hfollows
  isOpen {j} h := hopens j ▸ h
  meaning := t.meaning?_eq
  ending := t.ending?_eq

/-- A coherent document survives as it is. -/
theorem refl (hd : Coherent V d) : Survives d d :=
  of_sameShape (.of_core hd.linked rfl fun _ => rfl) hd.linked
    (fun hlinked hline => ⟨_, hline, hd.follows_keep hlinked hline⟩) id

/-! ### One after the other -/

section trans

variable {m : Document} {f : Formula} {just : Justification} {x : ItemId}

/-- What is given or assumed was so before. -/
theorem line?_of_isPremise (h : Survives d e) (hlinked : e.isLinked x = true)
    (hline : e.line? x = some (f, just)) (hpremise : just.isPremise = true) :
    d.line? x = some (f, just) := by
  have hformula : d.formula? x = some f := by rw [← h.formula, formula?, hline]; rfl
  obtain ⟨old, hold⟩ := exists_line?_of_formula? hformula
  obtain ⟨new, hnew, hfollows⟩ := h.follows hlinked hold
  obtain ⟨-, rfl⟩ := Prod.mk.inj (Option.some.inj (hnew.symm.trans hline))
  rw [hold, hfollows.eq_of_isPremise (Or.inr hpremise)]

/-- A line that is no goal stays in the document and does not become one. -/
theorem stays (h : Survives d e) (hlinked : d.isLinked x = true)
    (hline : d.line? x = some (f, just)) (hjust : just ≠ .goal) :
    e.isLinked x = true ∧ ∃ just', e.line? x = some (f, just') ∧ just' ≠ .goal := by
  have hclosed : d.isOpen x = false := by
    rw [isOpen_of_line? hline]
    cases just with
    | goal => exact absurd rfl hjust
    | _ => rfl
  have hstays : e.isLinked x = true := by
    by_contra hgone
    simp [h.gone hlinked (by simpa using hgone)] at hclosed
  obtain ⟨just', hline', hfollows⟩ := h.follows hstays hline
  refine ⟨hstays, just', hline', ?_⟩
  cases hfollows with
  | keep => exact hjust
  | tick | recite => simp

/-- A line that stays stays in its box. -/
theorem mem_children (h : Survives d e) (hd : d.WellLinked) (he : e.WellLinked)
    (hmem : x ∈ d.children box) (hlinked : e.isLinked x = true) : x ∈ e.children box := by
  rcases isLinked_iff.1 hlinked with rfl | ⟨b, hb⟩
  · exact h.shrunk.boxes hmem hd.linkedBy.root_box
  · rw [← he.mem_children_iff] at hb
    exact hd.linkedBy.box_unique ((h.shrunk.children b).subset hb) hmem ▸ hb

/-- Citations can be moved twice. -/
theorem recited_trans (hdm : Survives d m) (hme : Survives m e) {a b c : ItemId}
    (hab : Recited d m a b) (hbc : Recited m e b c) : Recited d e a c := by
  obtain ⟨hc, hbc⟩ := hbc
  refine ⟨hc, ?_⟩
  rcases hab.2 with rfl | ⟨ha, hgone, f, hfa, hfb⟩
  · rcases hbc with rfl | ⟨hb, hgone, f, hfb, hfc⟩
    · exact Or.inl rfl
    · exact Or.inr ⟨hdm.linked hb, hgone, f, hdm.formula b ▸ hfb, hfc⟩
  · have hgone' : e.isLinked a = false := by
      rw [Bool.eq_false_iff] at hgone ⊢
      exact fun ha => hgone (hme.linked ha)
    refine Or.inr ⟨ha, hgone', f, hfa, ?_⟩
    rcases hbc with rfl | ⟨-, -, g, hgb, hgc⟩
    · rw [hme.formula, hfb]
    · rw [hgc, ← hgb, hfb]

/-- All citations of a line can be moved twice. -/
theorem forall₂_recited_trans (hdm : Survives d m) (hme : Survives m e) {as bs cs : List ItemId}
    (hab : List.Forall₂ (Recited d m) as bs) (hbc : List.Forall₂ (Recited m e) bs cs) :
    List.Forall₂ (Recited d e) as cs := by
  induction hab generalizing cs with
  | nil => cases hbc with | nil => exact .nil
  | cons hab _ ih =>
    cases hbc with
    | cons hbc hrest => exact .cons (recited_trans hdm hme hab hbc) (ih hrest)

/-- A line that is still there after both changes has followed through both. -/
theorem follows_trans (hdm : Survives d m) (hme : Survives m e) (hm : m.WellLinked) {id : ItemId}
    (hlinked : e.isLinked id = true) (hline : d.line? id = some (f, just)) :
    ∃ just', e.line? id = some (f, just') ∧ Follows d e id f just just' := by
  obtain ⟨mid, hmid, hfirst⟩ := hdm.follows (hme.linked hlinked) hline
  obtain ⟨last, hlast, hsecond⟩ := hme.follows hlinked hmid
  refine ⟨last, hlast, ?_⟩
  cases hfirst with
  | keep hkept =>
    cases hsecond with
    | keep linked => exact .keep linked
    | @tick b x _ before hx premise linked =>
      have hxm : m.isLinked x = true := hm.isLinked_of_mem (before.subset List.mem_cons_self)
      exact .tick (before.trans (hdm.shrunk.children b)) (hdm.line?_of_isPremise hxm hx premise)
        premise linked
    | recite hcites =>
      exact .recite (forall₂_recited_trans hdm hme
        (List.forall₂_same.2 fun c hc => ⟨hkept c hc, Or.inl rfl⟩) hcites)
  | @tick b x _ before hx premise _ =>
    obtain ⟨cites, rfl, hcites⟩ := hsecond.recited
    obtain ⟨x', ⟨hx', hsame⟩, rfl⟩ : ∃ x', Recited m e x x' ∧ cites = [x'] := by
      cases hcites with
      | cons hx' hrest => cases hrest with | nil => exact ⟨_, hx', rfl⟩
    -- a premise does not go, so it is still cited itself
    obtain rfl : x' = x := by
      refine hsame.resolve_right fun hrecited => ?_
      obtain ⟨hxm, hgone, -⟩ := hrecited
      obtain ⟨just', hline', hfollows⟩ := hdm.follows hxm hx
      obtain rfl := hfollows.eq_of_isPremise (Or.inl premise)
      have hstays := (hme.stays hxm hline' (by rintro rfl; simp [Justification.isPremise] at premise)).1
      simp [hstays] at hgone
    exact .tick before hx premise hx'
  | recite hcites =>
    obtain ⟨cites', rfl, hcites'⟩ := hsecond.recited
    exact .recite (forall₂_recited_trans hdm hme hcites hcites')

/-- A goal that is lost in one of two changes is proved by a line above it that survives both. -/
theorem proved_trans (hdm : Survives d m) (hme : Survives m e) (hd : d.WellLinked)
    (hm : m.WellLinked) {id : ItemId} (hmem : id ∈ d.children box)
    (hline : d.line? id = some (f, .goal)) (hgone : e.isLinked id = false) :
    ∃ x just, [x, id].Sublist (d.children box) ∧ d.line? x = some (f, just) ∧ just ≠ .goal ∧
      e.isLinked x = true := by
  cases hmid : m.isLinked id with
  | false =>
    obtain ⟨x, just, before, hx, hjust, hxm⟩ := hdm.proved hmem hline hmid
    obtain ⟨-, just', hx', hjust'⟩ := hdm.stays (hdm.linked hxm) hx hjust
    exact ⟨x, just, before, hx, hjust, (hme.stays hxm hx' hjust').1⟩
  | true =>
    -- the goal has not been ticked, for it goes later
    have hline' : m.line? id = some (f, .goal) := by
      obtain ⟨just', hline', hfollows⟩ := hdm.follows hmid hline
      have hopen := hme.gone hmid hgone
      rw [isOpen_of_line? hline'] at hopen
      cases just' with
      | goal => exact hline'
      | _ => simp [Justification.isGoal] at hopen
    have hmem' := hdm.mem_children hd hm hmem hmid
    obtain ⟨x, just, before, hx, hjust, hxe⟩ := hme.proved hmem' hline' hgone
    have hxm : m.isLinked x = true := hm.isLinked_of_mem (before.subset List.mem_cons_self)
    have before := before.trans (hdm.shrunk.children box)
    have hformula : d.formula? x = some f := by rw [← hdm.formula, formula?, hx]; rfl
    obtain ⟨old, hold⟩ := exists_line?_of_formula? hformula
    obtain ⟨just', hx', hfollows⟩ := hdm.follows hxm hold
    obtain ⟨-, rfl⟩ := Prod.mk.inj (Option.some.inj (hx'.symm.trans hx))
    by_cases hgoal : old = .goal
    · -- the line that proves it was a goal and has been ticked, so there is a premise before it
      subst hgoal
      cases hfollows with
      | keep => exact absurd rfl hjust
      | @tick b y premiseOf before' hy premise _ =>
        obtain rfl := hd.linkedBy.box_unique (before'.subset (by simp : x ∈ [y, x]))
          (before.subset List.mem_cons_self)
        have hne : premiseOf ≠ .goal := by rintro rfl; simp [Justification.isPremise] at premise
        have hyd : d.isLinked y = true := hd.isLinked_of_mem (before'.subset List.mem_cons_self)
        obtain ⟨hym, _, hy', hne'⟩ := hdm.stays hyd hy hne
        exact ⟨y, premiseOf, hd.before_trans before' before, hy, hne, (hme.stays hym hy' hne').1⟩
    · exact ⟨x, old, before, hold, hgoal, hxe⟩

/-- What survives two changes one after the other survives. -/
theorem trans (hdm : Survives d m) (hme : Survives m e) (hd : d.WellLinked) (hm : m.WellLinked) :
    Survives d e where
  shrunk := hdm.shrunk.trans hme.shrunk
  linked hlinked := hdm.linked (hme.linked hlinked)
  gone {id} hlinked hgone := by
    cases hmid : m.isLinked id with
    | false => exact hdm.gone hlinked hmid
    | true => exact hdm.isOpen (hme.gone hmid hgone)
  proved hmem hline hgone := proved_trans hdm hme hd hm hmem hline hgone
  formula id := (hme.formula id).trans (hdm.formula id)
  follows hlinked hline := follows_trans hdm hme hm hlinked hline
  isOpen hopen := hdm.isOpen (hme.isOpen hopen)
  meaning id := (hme.meaning id).trans (hdm.meaning id)
  ending box := (hme.ending box).trans (hdm.ending box)

end trans

/-- What a line cites stands for what it stood for. -/
theorem recited_meaning (h : Survives d e) {old new : ItemId} (hrecited : Recited d e old new) :
    e.meaning? new = d.meaning? old := by
  rcases hrecited.2 with rfl | ⟨-, -, f, hold, hnew⟩
  · exact h.meaning new
  · obtain ⟨_, hold⟩ := exists_line?_of_formula? hold
    obtain ⟨_, hnew⟩ := exists_line?_of_formula? hnew
    rw [meaning?_of_line hold, meaning?_of_line hnew]

/-- Recited citations stand for what they stood for. -/
theorem map_meaning?_eq (h : Survives d e) {cites cites' : List ItemId}
    (hcites : List.Forall₂ (Recited d e) cites cites') :
    cites'.map e.meaning? = cites.map d.meaning? := by
  induction hcites with
  | nil => rfl
  | cons hrecited _ ih => rw [List.map_cons, List.map_cons, h.recited_meaning hrecited, ih]

/-- Citations are kept in number and order, and each stands for what it stood for. -/
theorem cites_meanings (h : Survives d e) (hlinked : e.isLinked id = true) {f : Formula}
    {rule : Rule} {cites : List ItemId} (hline : d.line? id = some (f, .byRule rule cites)) :
    ∃ cites', e.line? id = some (f, .byRule rule cites') ∧
      cites'.map e.meaning? = cites.map d.meaning? := by
  obtain ⟨_, hline', hfollows⟩ := h.follows hlinked hline
  obtain ⟨cites', rfl, hcites⟩ := hfollows.recited
  exact ⟨cites', hline', h.map_meaning?_eq hcites⟩

end Survives

/-- The lines of a document with fewer lines are in the same order. -/
theorem Shrunk.linesUnder_sublist (h : Shrunk d e) (hd : d.WellLinked) (he : e.WellLinked)
    (box : ItemId) : (e.linesUnder box).Sublist (d.linesUnder box) := by
  induction box using hd.box_induction with
  | step box ih =>
    rw [hd.linesUnder_eq, he.linesUnder_eq]
    refine ((h.children box).flatMap e.linesOf).trans (List.Sublist.flatMap_right _ fun x hx => ?_)
    rw [linesOf, linesOf, h.isBox]
    split
    · exact ih x hx
    · exact List.Sublist.refl _

/-! ### The moves -/

/-- Dropping an empty line. -/
theorem DroppedGap.survives {xs ys : List ItemId} (g : DroppedGap d e box xs id ys)
    (hd : Coherent V d) (he : Coherent V e) : Survives d e := by
  refine .of_trimmed (g.trimmed hd) hd.linked (by simp [Document.isOpen, g.empty]) ?_ ?_
    fun j => isOpen_congr (g.core j)
  · intro f hline
    simp [line?_of_isEmptyLine g.empty] at hline
  · intro j f just hlinked hline
    have hline' : e.line? j = some (f, just) := by rw [line?_congr (g.core j), hline]
    exact ⟨just, hline', he.follows_keep hlinked hline'⟩

/-- Dropping a goal in favour of the line that proves it. -/
theorem DroppedGoal.survives {us ys : List ItemId} {x goal : ItemId}
    (g : DroppedGoal d e box us x goal ys) (hd : d.WellLinked) (he : Coherent V e) :
    Survives d e := by
  obtain ⟨f, rule, cites, hx, hgoal⟩ := g.same
  have t := g.trimmed
  have hmem : goal ∈ d.children box := t.mem
  have hgone : e.isLinked goal = false := by
    rw [Bool.eq_false_iff]
    exact fun hlinked => ((t.isLinked_iff hd).1 hlinked).2 rfl
  -- who cited the goal cites the line that proves it
  have hrecited : ∀ c, e.isLinked (if c = goal then x else c) = true →
      Recited d e c (if c = goal then x else c) := by
    intro c hc
    refine ⟨hc, ?_⟩
    split
    · rename_i hc
      subst hc
      refine Or.inr ⟨hd.isLinked_of_mem hmem, hgone, f, by rw [formula?, hgoal]; rfl, ?_⟩
      rw [t.formula, formula?, hx]
      rfl
    · exact Or.inl rfl
  refine .of_trimmed t hd (by rw [isOpen_of_line? hgoal]; rfl) ?_ ?_ g.isOpen_eq
  · intro f' hline
    obtain ⟨rfl, -⟩ := Prod.mk.inj (Option.some.inj (hgoal.symm.trans hline))
    exact ⟨x, by simp, _, hx, by simp⟩
  · intro j f' just hlinked hline
    have hline' : e.line? j = some (f', just.redirect goal x) := by rw [g.line?_eq, hline]; rfl
    refine ⟨just.redirect goal x, hline', ?_⟩
    cases just with
    | byRule rule' cites' =>
      refine .recite (List.forall₂_map_right_iff.2 (List.forall₂_same.2 fun c hc => hrecited c ?_))
      exact (he.cited hlinked hline' (List.mem_map_of_mem hc)).1
    | _ => exact he.follows_keep hlinked hline'

/-- Ticking a goal. -/
theorem Rejustified.survives {goal x : ItemId} {f : Formula} {just : Justification}
    (r : Rejustified d e goal f .tick [x]) (hd : d.WellLinked) (he : Coherent V e)
    (before : [x, goal].Sublist (d.children box)) (hx : d.line? x = some (f, just))
    (hpremise : just.isPremise = true) : Survives d e := by
  refine .of_sameShape r.sameShape hd (fun {j f' just'} hlinked hline => ?_) r.isOpen_of_isOpen
  have hline' := r.line?_eq j
  split at hline'
  · rename_i hj
    subst hj
    obtain ⟨rfl, rfl⟩ := Prod.mk.inj (Option.some.inj (r.before.symm.trans hline))
    refine ⟨_, hline', .tick before hx hpremise ?_⟩
    exact (he.cited hlinked hline' List.mem_cons_self).1
  · rw [hline] at hline'
    exact ⟨just', hline', he.follows_keep hlinked hline'⟩

/-- A move loses only empty lines and proved goals. -/
theorem Move.survives (h : Move d e box) (htick : ∀ f, V [.formula f] f) (hd : Coherent V d) :
    Survives d e := by
  have he : Coherent V e := (h.tidies htick).coherent hd
  cases h with
  | @tick mid us ys x gap goal f just dropped hsig hx hpremise ticked _ =>
    have hmid : Coherent V mid := (Tidies.single (.dropGap dropped hsig) hsig).coherent hd
    have hrow : mid.children box = us ++ x :: goal :: ys := by simpa using dropped.here
    have before : [x, goal].Sublist (mid.children box) := by
      rw [hrow]
      exact (((List.nil_sublist ys).cons_cons goal).cons_cons x).trans
        (List.sublist_append_right us _)
    have hx' : mid.line? x = some (f, just) := by rw [line?_congr (dropped.core x), hx]
    exact (dropped.survives hd hmid).trans (ticked.survives hmid.linked he before hx' hpremise)
      hd.linked hmid.linked
  | merge dropped hsig merged _ =>
    have hmid := (Tidies.single (.dropGap dropped hsig) hsig).coherent hd
    exact (dropped.survives hd hmid).trans (merged.survives hmid.linked he) hd.linked hmid.linked
  | vacate _ dropped _ => exact dropped.survives hd he
  | mark marked _ =>
    refine .of_sameShape marked.sameShape hd.linked (fun {j _ just} hlinked hline => ?_)
      fun {j} hopen => marked.isOpen_eq j ▸ hopen
    have hline' := (marked.line?_eq j).trans hline
    exact ⟨just, hline', he.follows_keep hlinked hline'⟩
  | relabel linked children core _ =>
    refine .of_sameShape (.of_core linked children core) hd.linked
      (fun {j _ just} hlinked hline => ?_) fun {j} hopen => isOpen_congr (core j) ▸ hopen
    have hline' := (line?_congr (core j)).trans hline
    exact ⟨just, hline', he.follows_keep hlinked hline'⟩

/-- Moves lose only empty lines and proved goals. -/
theorem Moves.survives {inside : ItemId → Prop} (h : Moves inside d e)
    (htick : ∀ f, V [.formula f] f) (hd : Coherent V d) : Survives d e := by
  induction h with
  | refl => exact .refl hd
  | tail hsteps hstep ih =>
    obtain ⟨box, -, hmove⟩ := hstep
    have hmid := coherent hsteps htick hd
    exact ih.trans (hmove.survives htick hmid) hd.linked hmid.linked

end Document
end NaturalDeduction
