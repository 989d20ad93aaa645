import NaturalDeduction.Proofs.Document.Edit
import NaturalDeduction.Proofs.Document.Start

/-!
# The frames of chains

Every chain has a frame: it begins with the lines its box was built with, nothing is given, assumed or
named in it afterwards, and it ends in a line with the formula the box is for (`Framed`).  Edits are
made at open lines, which come after the beginning, and they leave the last formula as it is, so they
leave all frames as they are (`Edits.framed`).
-/

set_option autoImplicit false

namespace NaturalDeduction

/-- Whether items of this kind only stand at the beginning of a box: what is given, assumed or
named. -/
def ItemKind.opens : ItemKind → Bool
  | .constants _ _ => true
  | .line _ just _ => just.isPremise
  | _ => false

namespace Document

variable {d e : Document} {id box : ItemId} {V : List Meaning → Formula → Prop}
  {P : Signature → Formula → Prop} {opening : List ItemKind} {goal : Formula}

/-! ### Items at the beginning -/

/-- Whether something is given, assumed or named in a line. -/
def opens (d : Document) (id : ItemId) : Bool := (d.core? id).any ItemKind.opens

/-- Whether an item opens a box depends only on its kind. -/
theorem opens_congr {i j : ItemId} (h : e.core? i = d.core? j) : e.opens i = d.opens j := by
  rw [opens, opens, h]

/-- Nothing is given, assumed or named in an open line. -/
theorem opens_of_isOpen (h : d.isOpen id = true) : d.opens id = false := by
  rw [isOpen, isEmptyLine_eq_core, isGoal, line?_eq_core] at h
  rw [opens]
  rcases hcore : d.core? id with _ | (⟨_, _ | _ | _ | _, _⟩ | _ | _ | _)
  all_goals simp [hcore, Justification.isGoal] at h
  all_goals rfl

/-- Nothing is given, assumed or named in a line that a rule justifies. -/
theorem opens_of_byRule {f : Formula} {rule : Rule} {cites : List ItemId}
    (h : d.line? id = some (f, .byRule rule cites)) : d.opens id = false := by
  rw [line?_eq_core] at h
  rw [opens]
  rcases hcore : d.core? id with _ | (⟨_, _ | _ | _ | _, _⟩ | _ | _ | _)
  all_goals simp [hcore] at h
  rfl

/-- Nothing is given, assumed or named in a goal. -/
theorem opens_of_goal {f : Formula} (h : d.line? id = some (f, .goal)) : d.opens id = false :=
  opens_of_isOpen (by simp [isOpen, isGoal, h, Justification.isGoal])

/-- What may be put before an open line is not given, assumed or named. -/
theorem NewItem.opens_eq {sig : Signature} {anchor : ItemId} {kind : ItemKind}
    {inner : List ItemKind} (h : NewItem V P d sig anchor kind inner) : kind.core.opens = false := by
  cases h <;> rfl

namespace Edit

/-- An edit does not change a line in which something is given, assumed or named. -/
theorem core?_of_opens (h : Edit V P d e) (hid : d.opens id = true) : e.core? id = d.core? id := by
  have hne : ∀ {j}, d.opens j = false → id ≠ j := by
    rintro j hj rfl
    simp [hid] at hj
  rw [opens, Option.any_eq_true] at hid
  obtain ⟨kind, hkind, hopens⟩ := hid
  cases h with
  | insert grown _ _ _ => exact grown.old (lt_size_of_core? hkind)
  | justify rejustified _ _ => exact rejustified.core?_of_ne (hne (opens_of_goal rejustified.before))
  | mark marked _ =>
    obtain hsame | ⟨data, hcore, -⟩ := marked.core?_cases id
    · exact hsame
    · obtain rfl := Option.some.inj (hkind.symm.trans hcore)
      simp [ItemKind.opens] at hopens
  | dropGap dropped _ => exact dropped.core id
  | dropGoal dropped _ =>
    rw [dropped.core, hkind]
    rcases kind with ⟨_, _ | _ | _ | _, _⟩ | _ | _ | _
    all_goals first | rfl | simp [ItemKind.opens, Justification.isPremise] at hopens
  | relabel _ _ core _ => exact core id

/-- An edit does not turn another item into such a line. -/
theorem opens_eq (h : Edit V P d e) (hlt : id < d.items.size) : e.opens id = d.opens id := by
  cases h with
  | insert grown _ _ _ => exact opens_congr (grown.old hlt)
  | @justify goal f rule cites rejustified _ _ =>
    by_cases hid : id = goal
    · subst hid
      rw [opens_of_goal rejustified.before, opens_of_byRule (by rw [rejustified.line?_eq, if_pos rfl])]
    · exact opens_congr (rejustified.core?_of_ne hid)
  | mark marked _ =>
    obtain hsame | ⟨data, hd, he⟩ := marked.core?_cases id
    · exact opens_congr hsame
    · rw [opens, opens, hd, he]
      rfl
  | dropGap dropped _ => exact opens_congr (dropped.core id)
  | dropGoal dropped _ =>
    rw [opens, opens, dropped.core]
    rcases d.core? id with _ | (⟨_, _ | _ | _ | _, _⟩ | _ | _ | _) <;> rfl
  | relabel _ _ core _ => exact opens_congr (core id)

end Edit

/-! ### Frames -/

/-- A box begins with some lines, after which nothing is given, assumed or named, and it ends in a
line with a formula. -/
structure Framed (d : Document) (box : ItemId) (opening : List ItemKind) (goal : Formula) : Prop where
  kinds : ∀ kind ∈ opening, kind.opens = true
  row : ∃ pre rest, d.children box = pre ++ rest ∧ rest ≠ [] ∧
    pre.map d.core? = opening.map some ∧ ∀ id ∈ rest, d.opens id = false
  ending : d.ending? box = some goal

/-- A chain that holds some opening lines, an empty line and a goal is framed. -/
theorem framed_of_core
    (h : (d.children box).map d.core? =
      (opening ++ [ItemKind.empty 0, .line goal .goal 0]).map fun kind => some kind.core)
    (hopening : ∀ kind ∈ opening, kind.opens = true ∧ kind.core = kind) :
    Framed d box opening goal := by
  rw [List.map_append, List.map_eq_append_iff] at h
  obtain ⟨pre, rest, hrow, hpre, hrest⟩ := h
  obtain ⟨gap, tail, rfl, hgap, htail⟩ := List.map_eq_cons_iff.1 hrest
  obtain ⟨last, tail', rfl, hlast, htail'⟩ := List.map_eq_cons_iff.1 htail
  obtain rfl := List.map_eq_nil_iff.1 htail'
  refine ⟨fun kind hkind => (hopening kind hkind).1, ⟨pre, [gap, last], hrow, by simp, ?_, ?_⟩, ?_⟩
  · rw [hpre]
    exact List.map_congr_left fun kind hkind => by rw [(hopening kind hkind).2]
  · simp [opens, hgap, hlast, ItemKind.core, ItemKind.opens, Justification.isPremise]
  · rw [ending?, lastChild?, hrow]
    simp [formula?, line?_eq_core, hlast, ItemKind.core]

/-- The outermost box of a new document begins with the givens and ends in the goal. -/
theorem start_framed (givens : List Formula) (goal : Formula) (sig : Signature) :
    (start givens goal sig).Framed root (givens.map fun f => .line f .given 0) goal :=
  framed_of_core (map_core?_start givens goal sig) (by simp [ItemKind.opens, Justification.isPremise,
    ItemKind.core])

/-- Only boxes are framed. -/
theorem Framed.isBox (h : Framed d box opening goal) (hd : d.WellLinked) : d.isBox box = true := by
  obtain ⟨pre, rest, hrow, hrest, -⟩ := h.row
  obtain ⟨id, hid⟩ := List.exists_mem_of_ne_nil _ hrest
  exact hd.linkedBy.isBox_of_mem (show id ∈ d.children box by simp [hrow, hid])

/-- A row is split after its beginning, if the item to split at does not stand there. -/
theorem exists_split {pre rest xs ys : List ItemId} (h : pre ++ rest = xs ++ id :: ys)
    (hid : id ∉ pre) : ∃ us, xs = pre ++ us ∧ rest = us ++ id :: ys := by
  rw [List.append_eq_append_iff] at h
  obtain ⟨us, hxs, hrest⟩ | ⟨us, rfl, hus⟩ := h
  · exact ⟨us, hxs, hrest⟩
  · cases us with
    | nil => exact ⟨[], by simp, by simpa using hus.symm⟩
    | cons u us =>
      obtain ⟨rfl, -⟩ := List.cons.inj hus
      simp at hid

section Rest

variable {place : ItemId} {pre rest xs ys : List ItemId}

/-- A new item is put after the beginning of a chain. -/
theorem Grown.exists_rest {anchor : ItemId} {kind : ItemKind} {inner : List ItemKind}
    (g : Grown d e place xs anchor ys kind inner) (hrow : d.children box = pre ++ rest)
    (hrest : rest ≠ []) (hanchor : anchor ∉ pre) (hbox : box < d.items.size) :
    ∃ rest', e.children box = pre ++ rest' ∧ rest' ≠ [] ∧
      ∀ id ∈ rest', id ∈ rest ∨ id = d.items.size := by
  by_cases hplace : box = place
  · subst hplace
    obtain ⟨us, rfl, rfl⟩ := exists_split (hrow.symm.trans g.before) hanchor
    refine ⟨us ++ d.items.size :: anchor :: ys, by simp [g.here], by simp, fun id hid => ?_⟩
    simp only [List.mem_append, List.mem_cons] at hid ⊢
    tauto
  · exact ⟨rest, (g.elsewhere box hplace (Nat.ne_of_lt hbox)).trans hrow, hrest, fun _ => Or.inl⟩

/-- An empty line goes, which is not the last line. -/
theorem DroppedGap.exists_rest {gap : ItemId} (g : DroppedGap d e place xs gap ys)
    (hrow : d.children box = pre ++ rest) (hrest : rest ≠ []) (hgap : gap ∉ pre)
    (hending : d.ending? box = some goal) :
    ∃ rest', e.children box = pre ++ rest' ∧ rest' ≠ [] ∧ ∀ id ∈ rest', id ∈ rest := by
  by_cases hplace : box = place
  · subst hplace
    obtain ⟨us, rfl, rfl⟩ := exists_split (hrow.symm.trans g.before) hgap
    refine ⟨us ++ ys, by simp [g.here], fun hnil => ?_, fun id hid => ?_⟩
    · obtain ⟨-, rfl⟩ := List.append_eq_nil_iff.1 hnil
      simp [ending?, lastChild?, g.before, formula?, line?_of_isEmptyLine g.empty] at hending
    · simp only [List.mem_append, List.mem_cons] at hid ⊢
      tauto
  · exact ⟨rest, (g.elsewhere box hplace).trans hrow, hrest, fun _ => id⟩

/-- A goal goes, and the line above it that proves it is not at the beginning either. -/
theorem DroppedGoal.exists_rest {x last : ItemId} (g : DroppedGoal d e place xs x last ys)
    (hrow : d.children box = pre ++ rest) (hrest : rest ≠ []) (hx : x ∉ pre) (hlast : last ∉ pre) :
    ∃ rest', e.children box = pre ++ rest' ∧ rest' ≠ [] ∧ ∀ id ∈ rest', id ∈ rest := by
  by_cases hplace : box = place
  · subst hplace
    have hsplit : d.children box = (xs ++ [x]) ++ last :: ys := by simp [g.before]
    obtain ⟨us, hus, rfl⟩ := exists_split (hrow.symm.trans hsplit) hlast
    refine ⟨us ++ ys, ?_, fun hnil => ?_, fun id hid => ?_⟩
    · rw [g.here, ← List.append_assoc, ← hus]
      simp
    · obtain ⟨rfl, -⟩ := List.append_eq_nil_iff.1 hnil
      have hmem : x ∈ xs ++ [x] := by simp
      rw [hus, List.append_nil] at hmem
      exact hx hmem
    · simp only [List.mem_append, List.mem_cons] at hid ⊢
      tauto
  · exact ⟨rest, (g.elsewhere box hplace).trans hrow, hrest, fun _ => id⟩

/-- What is left of a chain after its beginning changes with an edit, but nothing in it is given,
assumed or named. -/
theorem Edit.exists_rest (h : Edit V P d e) (hd : Coherent V d) (hrow : d.children box = pre ++ rest)
    (hrest : rest ≠ []) (hpre : ∀ id ∈ pre, d.opens id = true)
    (hopens : ∀ id ∈ rest, d.opens id = false) (hending : d.ending? box = some goal) :
    ∃ rest', e.children box = pre ++ rest' ∧ rest' ≠ [] ∧ ∀ id ∈ rest', e.opens id = false := by
  have hold : ∀ id ∈ rest, e.opens id = false := by
    intro id hid
    rw [h.opens_eq (hd.linked.linkedBy.lt_size (show id ∈ d.children box by simp [hrow, hid]))]
    exact hopens id hid
  have hnotMem : ∀ {id}, d.opens id = false → id ∉ pre := by
    intro id hid hmem
    simp [hpre id hmem] at hid
  have hsame : e.children box = d.children box →
      ∃ rest', e.children box = pre ++ rest' ∧ rest' ≠ [] ∧ ∀ id ∈ rest', e.opens id = false :=
    fun hkids => ⟨rest, hkids.trans hrow, hrest, hold⟩
  cases h with
  | insert grown hopen new _ =>
    have hbox : box < d.items.size := by
      obtain ⟨id, hid⟩ := List.exists_mem_of_ne_nil _ hrest
      exact lt_size_of_isBox (hd.linked.linkedBy.isBox_of_mem
        (show id ∈ d.children box by simp [hrow, hid]))
    obtain ⟨rest', hrow', hrest', hmem⟩ :=
      grown.exists_rest hrow hrest (hnotMem (opens_of_isOpen hopen)) hbox
    refine ⟨rest', hrow', hrest', fun id hid => ?_⟩
    rcases hmem id hid with hid | rfl
    · exact hold id hid
    · rw [opens, grown.new]
      exact new.opens_eq
  -- an empty line never ends a box, so something is left behind the opening lines
  | @dropGap _ gap _ _ dropped _ =>
    have hopen : d.isOpen gap = true := by simp [isOpen, dropped.empty]
    obtain ⟨rest', hrow', hrest', hmem⟩ :=
      dropped.exists_rest hrow hrest (hnotMem (opens_of_isOpen hopen)) hending
    exact ⟨rest', hrow', hrest', fun id hid => hold id (hmem id hid)⟩
  | dropGoal dropped _ =>
    obtain ⟨f, rule, cites, hx, hgoal⟩ := dropped.same
    obtain ⟨rest', hrow', hrest', hmem⟩ := dropped.exists_rest hrow hrest
      (hnotMem (opens_of_byRule hx)) (hnotMem (opens_of_goal hgoal))
    exact ⟨rest', hrow', hrest', fun id hid => hold id (hmem id hid)⟩
  | justify rejustified _ _ => exact hsame (by rw [rejustified.children])
  | mark marked _ => exact hsame (by rw [marked.children])
  | relabel _ children _ _ => exact hsame (by rw [children])

end Rest

/-- An edit leaves a frame as it is. -/
theorem Edit.framed (h : Edit V P d e) (hd : Coherent V d) (hframed : Framed d box opening goal) :
    Framed e box opening goal := by
  obtain ⟨pre, rest, hrow, hrest, hcores, hopens⟩ := hframed.row
  have hpre : ∀ id ∈ pre, d.opens id = true := by
    intro id hid
    have hmem : d.core? id ∈ opening.map some := hcores ▸ List.mem_map_of_mem hid
    obtain ⟨kind, hkind, hcore⟩ := List.mem_map.1 hmem
    rw [opens, ← hcore]
    exact hframed.kinds kind hkind
  obtain ⟨rest', hrow', hrest', hopens'⟩ :=
    h.exists_rest hd hrow hrest hpre hopens hframed.ending
  refine ⟨hframed.kinds, ⟨pre, rest', hrow', hrest', ?_, hopens'⟩, ?_⟩
  · rw [← hcores]
    exact List.map_congr_left fun id hid => h.core?_of_opens (hpre id hid)
  · have hmeaning : d.meaning? box =
        some (.box (d.skolemsOf box) (d.assumptionsIn box) goal) := by
      rw [meaning?, if_pos (hframed.isBox hd.linked), hframed.ending]
      rfl
    exact (box_of_meaning? (h.meaning?_eq hd hmeaning)).2.2.2

/-- Edits keep the opening lines of a box and its last line. -/
theorem Edits.framed (h : Edits V P d e) (hd : Coherent V d) (hframed : Framed d box opening goal) :
    Framed e box opening goal := by
  induction h with
  | refl => exact hframed
  | tail hsteps hstep ih => exact hstep.framed (coherent hsteps hd) ih

end Document
end NaturalDeduction
