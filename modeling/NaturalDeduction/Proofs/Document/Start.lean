import NaturalDeduction.Proofs.Document.Splice

/-!
# The document of a new proof

A new document has one box, in which the givens, an empty line and the goal follow each other.  It is
coherent: nothing in it follows by a rule yet, and its box ends in the goal.  The table of a new
document is written down at once; it is the one that comes about when the lines are added to an empty
box one after the other and then numbered (`pushChildren_openingKinds`).
-/

set_option autoImplicit false

namespace NaturalDeduction.Document

variable (givens : List Formula) (goal : Formula) (sig : Signature)

/-- The first item is the outermost box, whose chain holds all other items. -/
theorem getElem?_start_zero :
    (start givens goal sig).items[0]? = some { kind := .box { head := some 1 } } := rfl

/-- Behind the outermost box stand the opening lines in their order, each linked with its
neighbours. -/
theorem getElem?_start_succ (i : Nat) :
    (start givens goal sig).items[i + 1]? = (openingKinds givens goal)[i]?.map fun kind =>
      { parent := some root
        prev := if i = 0 then none else some i
        next := if i + 1 < (openingKinds givens goal).length then some (i + 2) else none
        kind := kind.withNumber (i + 1) : Item } := by
  simp [start, List.getElem?_mapIdx]

/-- The items of the boxes of a new document. -/
def startChildren (givens : List Formula) (goal : Formula) (box : ItemId) : List ItemId :=
  if box = root then List.range' 1 (openingKinds givens goal).length else []

/-- The items behind the outermost box are the opening lines. -/
theorem core?_start_succ (i : Nat) :
    (start givens goal sig).core? (i + 1) = (openingKinds givens goal)[i]?.map ItemKind.core := by
  rw [core?, kind?, getElem?_start_succ]
  rcases (openingKinds givens goal)[i]? with _ | (_ | _ | _ | _) <;> rfl

/-- An opening line is a given, the empty line or the goal. -/
theorem mem_openingKinds {kind : ItemKind} (h : kind ∈ openingKinds givens goal) :
    (∃ f ∈ givens, kind = .line f .given 0) ∨ kind = .empty 0 ∨ kind = .line goal .goal 0 := by
  rcases List.mem_append.1 h with h | h
  · obtain ⟨f, hf, rfl⟩ := List.mem_map.1 h
    exact Or.inl ⟨f, hf, rfl⟩
  · exact Or.inr (by simpa using h)

/-- Besides the outermost box there are only givens, an empty line and the goal. -/
theorem core?_start {id : ItemId} {kind : ItemKind}
    (h : (start givens goal sig).core? id = some kind) (hid : id ≠ root) :
    (∃ f ∈ givens, kind = .line f .given 0) ∨ kind = .empty 0 ∨ kind = .line goal .goal 0 := by
  obtain ⟨i, rfl⟩ := Nat.exists_eq_succ_of_ne_zero hid
  rw [core?_start_succ] at h
  obtain ⟨kind', hkind', rfl⟩ := Option.map_eq_some_iff.1 h
  rcases mem_openingKinds givens goal (List.mem_of_getElem? hkind') with ⟨f, hf, rfl⟩ | rfl | rfl
  · exact Or.inl ⟨f, hf, rfl⟩
  · exact Or.inr (Or.inl rfl)
  · exact Or.inr (Or.inr rfl)

/-- The only box is the outermost one. -/
theorem isBox_start {id : ItemId} : (start givens goal sig).isBox id = true ↔ id = root := by
  constructor
  · intro h
    by_contra hid
    rw [isBox_eq_core] at h
    rcases hcore : (start givens goal sig).core? id with _ | kind
    · simp [hcore] at h
    · rcases core?_start givens goal sig hcore hid with ⟨f, -, rfl⟩ | rfl | rfl
      all_goals simp [hcore] at h
  · rintro rfl
    rfl

/-- Every item stands in the outermost box. -/
theorem parent?_start {id box : ItemId} (h : (start givens goal sig).parent? id = some box) :
    box = root ∧ id ∈ startChildren givens goal root := by
  rcases id with _ | i
  · simp [parent?, getElem?_start_zero] at h
  · rw [parent?, getElem?_start_succ] at h
    obtain ⟨item, hitem, hparent⟩ := Option.bind_eq_some_iff.1 h
    obtain ⟨kind, hkind, rfl⟩ := Option.map_eq_some_iff.1 hitem
    refine ⟨(Option.some.inj hparent).symm, ?_⟩
    rw [startChildren, if_pos rfl, List.mem_range'_1]
    have hlt := (List.getElem?_eq_some_iff.1 hkind).1
    omega

/-- The links of the new document are in step: the opening lines follow each other. -/
theorem start_linkedBy : (start givens goal sig).LinkedBy (startChildren givens goal) where
  root_box := rfl
  root_free := rfl
  head := by
    intro box
    by_cases hbox : box = root
    · subst hbox
      have hhead : (start givens goal sig).head? root = some 1 := rfl
      simp [hhead, startChildren, openingKinds, List.range'_succ]
    · rw [head?_eq_none (Bool.eq_false_iff.2 fun h => hbox ((isBox_start givens goal sig).1 h)),
        startChildren, if_neg hbox]
      rfl
  nodup := by
    intro box
    rw [startChildren]
    split
    · exact List.nodup_range'
    · exact List.nodup_nil
  place := by
    intro box id xs ys hsplit
    have hbox : box = root := by
      by_contra hne
      rw [startChildren, if_neg hne] at hsplit
      simp at hsplit
    rw [startChildren, if_pos hbox] at hsplit
    -- the items are numbered along the row, so a place in it is a number
    obtain ⟨k, hk, rfl, hrest⟩ := List.range'_eq_append_iff.1 hsplit
    obtain ⟨rfl, hpos, -, rfl⟩ := List.range'_eq_cons_iff.1 hrest.symm
    have hlt : k < (openingKinds givens goal).length := by omega
    have hitem := getElem?_start_succ givens goal sig k
    rw [List.getElem?_eq_getElem hlt, Option.map_some] at hitem
    have hid : 1 + k * 1 = k + 1 := by omega
    rw [hid, parent?, prev?, next?, hitem, hbox]
    refine ⟨rfl, ?_, ?_⟩
    · rw [List.getLast?_range', Option.bind_some]
      split <;> simp_all
    · rw [List.head?_range', Option.bind_some]
      show (if k + 1 < (openingKinds givens goal).length then some (k + 2) else none) = _
      by_cases hnext : k + 1 < (openingKinds givens goal).length
      · rw [if_pos hnext, if_neg (by omega)]
      · rw [if_neg hnext, if_pos (by omega)]
  listed := by
    intro id box h
    obtain ⟨rfl, hmem⟩ := parent?_start givens goal sig h
    exact hmem
  free := by
    intro id h
    rcases id with _ | i
    · exact ⟨rfl, rfl⟩
    · rw [parent?, getElem?_start_succ] at h
      rw [prev?, next?, getElem?_start_succ]
      cases hkind : (openingKinds givens goal)[i]? with
      | none => exact ⟨rfl, rfl⟩
      | some kind => simp [hkind] at h
  grounded := by
    have hroot : Acc (fun box inner => (start givens goal sig).StandsIn inner box) root :=
      .intro _ fun box hbox => by simp [StandsIn, parent?, getElem?_start_zero, root] at hbox
    intro id
    refine .intro _ fun box hbox => ?_
    rw [(parent?_start givens goal sig hbox).1]
    exact hroot

/-- The outermost box holds all other items, in their order. -/
theorem children_start_root : (start givens goal sig).children root =
    List.range' 1 (openingKinds givens goal).length := by
  rw [(start_linkedBy givens goal sig).children_eq, startChildren, if_pos rfl]

/-- The outermost box holds the opening lines. -/
theorem map_core?_start : ((start givens goal sig).children root).map (start givens goal sig).core? =
    (openingKinds givens goal).map fun kind => some kind.core := by
  rw [children_start_root]
  refine List.ext_getElem? fun i => ?_
  by_cases hi : i < (openingKinds givens goal).length
  · simp [hi, Nat.add_comm 1 i, core?_start_succ]
  · simp [hi]

/-- The lines with formulas are the givens and the goal. -/
theorem line?_start {id : ItemId} {f : Formula} {just : Justification}
    (h : (start givens goal sig).line? id = some (f, just)) :
    just = .given ∧ f ∈ givens ∨ just = .goal ∧ f = goal := by
  have hid : id ≠ root := by
    rintro rfl
    exact absurd (isBox_of_line? h) (by simp [isBox_start])
  rw [line?_eq_core] at h
  rcases hcore : (start givens goal sig).core? id with _ | kind
  · simp [hcore] at h
  · rcases core?_start givens goal sig hcore hid with ⟨g, hg, rfl⟩ | rfl | rfl
    · simp only [hcore, Option.some.injEq, Prod.mk.injEq] at h
      obtain ⟨rfl, rfl⟩ := h
      exact Or.inl ⟨rfl, hg⟩
    · simp [hcore] at h
    · simp only [hcore, Option.some.injEq, Prod.mk.injEq] at h
      obtain ⟨rfl, rfl⟩ := h
      exact Or.inr ⟨rfl, rfl⟩

/-- The formulas are those of the task. -/
theorem mem_of_formula?_start {id : ItemId} {f : Formula}
    (h : (start givens goal sig).formula? id = some f) : f ∈ goal :: givens := by
  obtain ⟨⟨g, just⟩, hline, rfl⟩ := Option.map_eq_some_iff.1 h
  rcases line?_start givens goal sig hline with ⟨-, hmem⟩ | ⟨-, rfl⟩
  · exact List.mem_cons_of_mem _ hmem
  · exact List.mem_cons_self

/-- The outermost box ends in the goal. -/
theorem ending?_start : (start givens goal sig).ending? root = some goal := by
  have hlast : (openingKinds givens goal)[givens.length + 1]? = some (.line goal .goal 0) := by
    simp [openingKinds]
  have hlength : (openingKinds givens goal).length = givens.length + 2 := by
    simp [openingKinds]
  rw [ending?, lastChild?, children_start_root, List.getLast?_range', hlength, if_neg (by omega),
    Option.bind_some, formula?, line?_eq_core]
  have hid : 1 + (givens.length + 2) - 1 = givens.length + 1 + 1 := by omega
  rw [hid, core?_start_succ, hlast]
  rfl

/-- The outermost box assumes nothing. -/
theorem meaning?_start_root :
    (start givens goal sig).meaning? root = some (.box ∅ [] goal) := by
  have hassumptions : (start givens goal sig).assumptionsIn root = [] := by
    refine List.filterMap_eq_nil_iff.2 fun id _ => ?_
    rw [assumption?]
    split
    · rename_i f hline
      rcases line?_start givens goal sig hline with ⟨h, -⟩ | ⟨h, -⟩ <;> simp at h
    · rfl
  rw [meaning?, if_pos ((isBox_start givens goal sig).2 rfl), ending?_start, hassumptions]
  rfl

/-- The lines are numbered from one. -/
theorem number?_start_succ {i : Nat} (hi : i < (openingKinds givens goal).length) :
    (start givens goal sig).number? (i + 1) = some (i + 1) := by
  rw [number?, kind?, getElem?_start_succ, List.getElem?_eq_getElem hi]
  rcases mem_openingKinds givens goal (List.getElem_mem hi) with ⟨f, -, hkind⟩ | hkind | hkind
  all_goals rw [hkind]; rfl

/-- The lines of a new document are its opening lines. -/
theorem lines_start :
    (start givens goal sig).lines = List.range' 1 (openingKinds givens goal).length := by
  have hline : ∀ id ∈ List.range' 1 (openingKinds givens goal).length,
      (start givens goal sig).linesOf id = [id] := by
    intro id hid
    refine linesOf_of_line (Bool.eq_false_iff.2 fun hbox => ?_)
    rw [(isBox_start givens goal sig).1 hbox] at hid
    simp [root] at hid
  rw [lines, (start_linkedBy givens goal sig).wellLinked.linesUnder_eq, children_start_root,
    List.flatMap_congr hline]
  simp

/-- What has a number in a new document is one of its lines. -/
theorem mem_lines_of_number?_start {id : ItemId} {n : Nat}
    (h : (start givens goal sig).number? id = some n) : id ∈ (start givens goal sig).lines := by
  rcases id with _ | i
  · simp [number?, kind?, getElem?_start_zero, ItemKind.number?] at h
  · rw [lines_start, List.mem_range'_1]
    by_contra hout
    rw [number?, kind?, getElem?_start_succ, List.getElem?_eq_none (by omega)] at h
    simp at h

/-- The lines of a new document are numbered. -/
theorem start_numbered : (start givens goal sig).Numbered := by
  rw [Numbered, lines_start, List.length_range']
  refine List.map_congr_left fun id hid => ?_
  obtain ⟨hpos, hlt⟩ := List.mem_range'_1.1 hid
  obtain ⟨i, rfl⟩ := Nat.exists_eq_add_of_le' hpos
  exact number?_start_succ givens goal sig (by omega)

/-- A new document is coherent. -/
theorem start_coherent (V : List Meaning → Formula → Prop) :
    Coherent V (start givens goal sig) where
  linked := (start_linkedBy givens goal sig).wellLinked
  rooted := by
    intro id box hmem
    have hlinked := start_linkedBy givens goal sig
    rw [hlinked.children_eq, ← hlinked.parent?_eq_some_iff] at hmem
    rw [(parent?_start givens goal sig hmem).1]
    rfl
  ends := by
    intro box hbox _
    obtain rfl := (isBox_start givens goal sig).1 hbox
    exact ⟨goal, ending?_start givens goal sig⟩
  supported := by
    intro id f rule cites _ hline
    rcases line?_start givens goal sig hline with ⟨h, -⟩ | ⟨h, -⟩ <;> simp at h
  closed := by
    intro box id hclosed _
    have hbox : box = root := by
      rw [← isBox_start givens goal sig]
      rw [isClosed] at hclosed
      rw [isBox]
      cases hdata : (start givens goal sig).box? box with
      | none => simp [hdata] at hclosed
      | some data => rfl
    have hopen : (start givens goal sig).isClosed root = false := rfl
    rw [hbox, hopen] at hclosed
    exact absurd hclosed (by decide)

/-! ### How a new document is built -/

/-- A document that has nothing but its outermost box. -/
def blank (signature : Signature) : Document :=
  { items := #[{ kind := .box {} }], signature }

/-- A blank document has nothing in its box. -/
theorem blank_linkedBy (sig : Signature) : (blank sig).LinkedBy fun _ => [] where
  root_box := rfl
  root_free := rfl
  head := by
    rintro (_ | id) <;> rfl
  nodup _ := List.nodup_nil
  place h := by simp at h
  listed := by
    rintro (_ | id) box h <;> simp [blank, parent?] at h
  free := by
    rintro (_ | id) - <;> exact ⟨rfl, rfl⟩
  grounded id := .intro _ fun box hbox => by
    rcases id with _ | id <;> simp [blank, StandsIn, parent?] at hbox

/-- A new document comes about by adding its opening lines to an empty box, one after the other, and
numbering them. -/
theorem pushChildren_openingKinds :
    ((blank sig).pushChildren root (openingKinds givens goal)).map renumber =
      .ok (start givens goal sig) := by
  have hblank := blank_linkedBy sig
  have hkinds : ∀ kind ∈ openingKinds givens goal, ∀ data, kind = .box data → data.head = none := by
    rintro kind hmem data rfl
    rcases mem_openingKinds givens goal hmem with ⟨f, -, h⟩ | h | h <;> simp at h
  obtain ⟨e, hpush, he, hkids, hold, hnew, -, hsig⟩ :=
    hblank.wellLinked.pushChildren hblank.root_box hkinds
  obtain ⟨hlinked, hkids', hsame, hnumbered⟩ := he.renumber
  have hstart := start_linkedBy givens goal sig
  have hchildren : e.renumber.children = startChildren givens goal := by
    funext box
    rw [hkids', hkids, hblank.children_eq, startChildren, Function.update_apply]
    rfl
  have hcores : ∀ id, e.renumber.core? id = (start givens goal sig).core? id := by
    intro id
    rw [hsame.core]
    rcases id with _ | id
    · exact hold root Nat.zero_lt_one
    · rw [core?_start_succ, ← hnew id, Nat.add_comm id 1]
      rfl
  -- lines are numbered along the tree, and both trees are the same
  have hlines : e.renumber.lines = (start givens goal sig).lines :=
    linesUnder_congr hstart.wellLinked hlinked (hchildren.trans hstart.children_eq.symm)
      (fun id => isBox_congr (hcores id)) root
  have hnumber : ∀ id, e.renumber.number? id = (start givens goal sig).number? id := by
    intro id
    cases hid : (start givens goal sig).number? id with
    | none =>
      have hnone := isSome_number?_congr (hcores id)
      rwa [hid, Option.isSome_none, Option.isSome_eq_false_iff, Option.isNone_iff_eq_none] at hnone
    | some n =>
      have hmem := mem_lines_of_number?_start givens goal sig hid
      rw [(start_numbered givens goal sig).number?_eq hnumbered hlines hmem, hid]
  -- links, kinds and numbers are all there is to an item
  rw [hpush]
  refine congrArg Except.ok (hstart.eq_of_content? (hchildren ▸ hlinked.linkedBy)
    (fun id => content?_eq_of_core? (hcores id) (hnumber id)) ?_)
  exact hsame.signature.trans hsig

end NaturalDeduction.Document
