import NaturalDeduction.Proofs.Document.Scope
import NaturalDeduction.Proofs.Document.Start
import Mathlib.Data.List.Forall2

/-!
# What can be cited

Selecting lines looks at two things only: whether a line stands in a box around the target, and
whether its number is smaller.  In a document whose lines are numbered from one on these two together
say where the line stands in the tree: it comes before the target in the target's box, or before a box
around the target in the box of that one.
-/

set_option autoImplicit false

namespace NaturalDeduction.Document

variable {d : Document} {id box seen target : ItemId} {number : Nat} {numbers : List Nat}
  {ids : List ItemId}

/-- Two items stand in one box, the first one earlier. -/
def Precedes (d : Document) (id other : ItemId) : Prop :=
  ∃ box, [id, other].Sublist (d.children box)

/-- The item is a line that introduces constants. -/
def isConstants (d : Document) (id : ItemId) : Bool :=
  match d.kind? id with
  | some (.constants _ _) => true
  | _ => false

namespace WellLinked

/-- What is visible precedes the item or a box around it. -/
theorem visible_iff_precedes (h : d.WellLinked) : d.Visible seen id ↔
    d.Precedes seen id ∨ ∃ box, d.Within id box ∧ d.Precedes seen box := by
  constructor
  · intro hvis
    induction hvis with
    | beside hbeside => exact Or.inl ⟨_, hbeside⟩
    | @around id box hmem _ ih =>
      have hstep : d.StandsIn id box := h.standsIn_iff.2 hmem
      obtain hbefore | ⟨outer, hup, hbefore⟩ := ih
      · exact Or.inr ⟨box, .single hstep, hbefore⟩
      · exact Or.inr ⟨outer, .head hstep hup, hbefore⟩
  · rintro (⟨b, hbeside⟩ | ⟨box, hup, b, hbeside⟩)
    · exact .beside hbeside
    · -- from the box inwards, one box at a time
      induction hup using Relation.TransGen.head_induction_on with
      | single hstep => exact .around (h.standsIn_iff.1 hstep) (.beside hbeside)
      | head hstep _ ih => exact .around (h.standsIn_iff.1 hstep) ih

/-- A box around what is visible is around the item that sees it. -/
theorem within_of_visible (h : d.WellLinked) (hvis : d.Visible seen id) (hin : d.Within seen box) :
    d.Within id box := by
  induction hvis with
  | @beside id b hbeside =>
    have hseen : d.StandsIn seen b := h.standsIn_iff.2 (hbeside.subset (by simp))
    have hid : d.StandsIn id b := h.standsIn_iff.2 (hbeside.subset (by simp))
    obtain ⟨c, hstep, hup⟩ := Relation.TransGen.head'_iff.1 hin
    obtain rfl := Option.some.inj (hstep.symm.trans hseen)
    exact .head' hid hup
  | around hmem _ ih => exact .head (h.standsIn_iff.2 hmem) ih

end WellLinked

/-! ### The lines that are listed -/

/-- No two lines of a numbered document have the same number, so a line is found by its number. -/
theorem Numbered.findLine?_eq (h : d.Numbered) (hline : id ∈ d.lines)
    (hnumber : d.number? id = some number) : d.findLine? number = some id := by
  obtain ⟨xs, ys, hsplit⟩ := List.append_of_mem hline
  rw [findLine?, hsplit, List.find?_eq_some_iff_append]
  refine ⟨by simp [hnumber], xs, ys, rfl, fun a ha => ?_⟩
  have hsub : (xs ++ id :: ys).Sublist d.lines := by rw [hsplit]
  obtain ⟨m, n, hm, hn, hlt⟩ := h.lt_of_sublist hsub ha List.mem_cons_self
  obtain rfl := Option.some.inj (hnumber.symm.trans hn)
  simp [hm, Nat.ne_of_lt hlt]

/-- The line found for a number has it. -/
theorem number?_of_findLine? (h : d.findLine? number = some id) : d.number? id = some number := by
  simpa using List.find?_some h

/-- Numbers are looked up one by one, and a repeated number counts once. -/
theorem resolve_eq_ok {numbers : List Nat} {ids : List ItemId}
    (h : List.Forall₂ (fun number id => d.findLine? number = some id) numbers ids) :
    d.resolve numbers = .ok ids.eraseDups := by
  cases h with
  | nil => rfl
  | @cons number id numbers ids hfind hrest =>
    -- the repetitions of the first number are the repetitions of its line
    have hrepeated : ∀ m j, d.findLine? m = some j → ((!m == number) ↔ (!j == id)) := by
      intro m j hj
      have hiff : m = number ↔ j = id := by
        constructor
        · rintro rfl
          exact Option.some.inj (hj.symm.trans hfind)
        · rintro rfl
          exact Option.some.inj ((number?_of_findLine? hj).symm.trans (number?_of_findLine? hfind))
      simp [hiff]
    have hothers := resolve_eq_ok (List.rel_filter hrepeated hrest)
    rw [resolve] at hothers ⊢
    rw [List.eraseDups_cons, List.eraseDups_cons, resolve.go, hfind]
    simp only [hothers]
    rfl
termination_by numbers.length
decreasing_by exact Nat.lt_succ_of_le (List.length_filter_le _ _)

/-- A list without its repetitions has every item once. -/
theorem nodup_eraseDups (ids : List ItemId) : ids.eraseDups.Nodup := by
  cases ids with
  | nil => exact List.nodup_nil
  | cons id ids =>
    rw [List.eraseDups_cons, List.nodup_cons, List.mem_eraseDups]
    exact ⟨by simp, nodup_eraseDups (ids.filter fun j => !j == id)⟩
termination_by ids.length
decreasing_by exact Nat.lt_succ_of_le (List.length_filter_le _ _)

/-- One item alone satisfies a condition. -/
theorem filter_eraseDups_eq_singleton_iff {p : ItemId → Bool} :
    ids.eraseDups.filter p = [target] ↔
      target ∈ ids ∧ p target = true ∧ ∀ id ∈ ids, p id = true → id = target := by
  constructor
  · intro heq
    have hiff : ∀ id, (id ∈ ids ∧ p id = true) ↔ id = target := by
      intro id
      rw [← List.mem_eraseDups, ← List.mem_filter, heq, List.mem_singleton]
    obtain ⟨hmem, hp⟩ := (hiff target).2 rfl
    exact ⟨hmem, hp, fun id hid hpid => (hiff id).1 ⟨hid, hpid⟩⟩
  · rintro ⟨hmem, hp, honly⟩
    refine List.perm_singleton.1 ((List.perm_ext_iff_of_nodup ((nodup_eraseDups ids).filter p)
      (List.nodup_singleton target)).2 fun id => ?_)
    rw [List.mem_filter, List.mem_eraseDups, List.mem_singleton]
    constructor
    · exact fun ⟨hid, hpid⟩ => honly id hid hpid
    · rintro rfl
      exact ⟨hmem, hp⟩

/-- A line is open, has a formula that can be cited, or introduces constants. -/
theorem WellLinked.isOpen_or_formula?_iff (h : d.WellLinked) (hline : id ∈ d.lines) :
    (d.isOpen id = true ∨ (d.formula? id).isSome) ↔ d.isConstants id = false := by
  obtain ⟨hin, hbox⟩ := h.mem_linesUnder_iff.1 hline
  have hkind : (d.kind? id).isSome := by
    simp [kind?, h.lt_size_of_within hin]
  rw [isBox, box?] at hbox
  rw [isOpen, isEmptyLine, isGoal, formula?, line?, isConstants]
  rcases hk : d.kind? id with _ | (_ | _ | _ | _)
  all_goals simp [hk] at hkind hbox ⊢

/-- The other lines, once each. -/
theorem filter_eraseDups_congr {p : ItemId → Bool} (htarget : p target = true)
    (honly : ∀ id ∈ ids, p id = true → id = target) :
    (ids.eraseDups.filter fun id => !p id) = ids.eraseDups.filter (· ≠ target) := by
  refine List.filter_congr fun id hid => ?_
  have hid' : id ∈ ids := List.mem_eraseDups.1 hid
  by_cases heq : id = target
  · simp [heq, htarget]
  · have hclosed : p id = false := by
      by_contra hopen
      exact heq (honly id hid' (by simpa using hopen))
    simp [heq, hclosed]

/-- Lines that have been found are selected if one of them is open, none introduces constants, and the
open line sees the others, which are then cited once each. -/
theorem WellLinked.select_iff_visible (h : d.WellLinked) (hnum : d.Numbered)
    (hfound : d.resolve numbers = .ok ids.eraseDups) {cites : List ItemId} :
    d.select numbers = .ok { target, cites } ↔
      (target ∈ ids ∧ d.isOpen target = true ∧ ∀ id ∈ ids, d.isOpen id = true → id = target) ∧
      (∀ id ∈ ids, d.isConstants id = false) ∧ (∀ id ∈ ids, id ≠ target → d.Visible id target) ∧
      cites = ids.eraseDups.filter (· ≠ target) := by
  have hlines : ∀ id ∈ ids, id ∈ d.lines :=
    fun id hid => mem_lines_of_resolve hfound id (List.mem_eraseDups.2 hid)
  have hkind : ∀ id ∈ ids, (d.isOpen id = true ∨ (d.formula? id).isSome) ↔ d.isConstants id = false :=
    fun id hid => h.isOpen_or_formula?_iff (hlines id hid)
  constructor
  · intro hsel
    obtain ⟨_, hids, hkinds, hopen, rfl, -⟩ := select_eq_ok_iff.1 hsel
    obtain rfl := Except.ok.inj (hfound.symm.trans hids)
    obtain ⟨hmem, htarget, honly⟩ := filter_eraseDups_eq_singleton_iff.1 hopen
    have hcites := filter_eraseDups_congr htarget honly
    refine ⟨⟨hmem, htarget, honly⟩, fun id hid => ?_, fun id hid hne => ?_, hcites⟩
    · exact (hkind id hid).1 (hkinds id (List.mem_eraseDups.2 hid))
    · refine (h.select_selects hnum hsel).visible id ?_
      rw [hcites]
      exact List.mem_filter.2 ⟨List.mem_eraseDups.2 hid, decide_eq_true hne⟩
  · rintro ⟨⟨hmem, htarget, honly⟩, hconstants, hvisible, rfl⟩
    obtain ⟨number, hnumber⟩ := Option.isSome_iff_exists.1 (h.number?_isSome (hlines target hmem))
    have hnumber' := citeNumber_of_line hnumber
    refine select_eq_ok_iff.2 ⟨_, hfound, fun id hid => ?_,
      filter_eraseDups_eq_singleton_iff.2 ⟨hmem, htarget, honly⟩,
      filter_eraseDups_congr htarget honly, number, hnumber', fun cite hcite => ?_⟩
    · have hid' := List.mem_eraseDups.1 hid
      exact (hkind id hid').2 (hconstants id hid')
    · obtain ⟨hin, hne⟩ := List.mem_filter.1 hcite
      have hin' := List.mem_eraseDups.1 hin
      have hvis := hvisible cite hin' (of_decide_eq_true hne)
      obtain ⟨hscope, m, n, hm, hn, hlt⟩ :=
        (h.visible_iff hnum (hlines target hmem) (hlines cite hin')).1 hvis
      obtain rfl := Except.ok.inj (hnumber'.symm.trans hn)
      exact ⟨hscope, m, hm, hlt⟩

/-- Lines are selected if one of them is open, none introduces constants, and each of the others comes
before the open line in its box or before a box around it.  They are cited once each, in the order in
which they are first listed, and no line in a box that is not around the open line is among them. -/
theorem WellLinked.select_iff_precedes (h : d.WellLinked) (hnum : d.Numbered)
    (hlisted : List.Forall₂ (fun number id => id ∈ d.lines ∧ d.number? id = some number)
      numbers ids) :
    (∀ target cites, d.select numbers = .ok { target, cites } ↔
      (target ∈ ids ∧ d.isOpen target = true ∧ ∀ id ∈ ids, d.isOpen id = true → id = target) ∧
      (∀ id ∈ ids, d.isConstants id = false) ∧
      (∀ id ∈ ids, id ≠ target →
        d.Precedes id target ∨ ∃ box, d.Within target box ∧ d.Precedes id box) ∧
      cites = ids.eraseDups.filter (· ≠ target)) ∧
    ∀ target cites, d.select numbers = .ok { target, cites } →
      ∀ cite ∈ cites, ∀ box, d.Within cite box → d.Within target box := by
  have hfound : d.resolve numbers = .ok ids.eraseDups :=
    resolve_eq_ok (hlisted.imp fun _ _ hid => hnum.findLine?_eq hid.1 hid.2)
  constructor
  · intro target cites
    rw [h.select_iff_visible hnum hfound]
    simp only [h.visible_iff_precedes]
  · intro target cites hsel cite hcite box hin
    exact h.within_of_visible ((h.select_selects hnum hsel).visible cite hcite) hin

/-- The goal inside a box is selected, twice, together with a line before the box. -/
theorem select_iff_precedes_nested :
    ∃ d : Document, d.WellLinked ∧ d.Numbered ∧ d.children root = [1, 2, 4, 3] ∧
      d.children 4 = [5] ∧ d.select [3, 1, 3, 1] = .ok { target := 5, cites := [1] } := by
  have hrow : (start [.prop "P"] (.prop "Q") {}).children root = [1, 2] ++ 3 :: [] := by decide
  obtain ⟨d₁, hd₁, h₁, -, hnew⟩ := (start_linkedBy [.prop "P"] (.prop "Q") {}).wellLinked.prepend
    hrow (show ∀ data, ItemKind.box {} = .box data → data.head = none by simp)
  have hbox : d₁.isBox 4 = true := by
    rw [isBox_eq_core, hnew.core]
    rfl
  obtain ⟨d₂, hd₂, h₂, -⟩ := h₁.pushChild hbox
    (show ∀ data, ItemKind.line (.prop "R") .goal 0 = .box data → data.head = none by simp)
  obtain ⟨h, -, -, hnum⟩ := h₂.renumber
  have hbuilt : ((start [.prop "P"] (.prop "Q") {}).prepend 3 (.box {}) >>= fun r =>
      (r.2.pushChild 4 (.line (.prop "R") .goal 0)).map fun r => r.2.renumber).toOption.getD
        (start [] .top {}) = d₂.renumber := by
    simp only [hd₁, hd₂, bind, Except.bind, Except.map]
    rfl
  generalize d₂.renumber = d at h hnum hbuilt
  subst hbuilt
  refine ⟨_, h, hnum, by rfl, by rfl, ?_⟩
  have hselect := (h.select_iff_precedes hnum
    (.cons (b := 5) ⟨by decide +kernel, by rfl⟩ (.cons (b := 1) ⟨by decide +kernel, by rfl⟩
      (.cons (b := 5) ⟨by decide +kernel, by rfl⟩
        (.cons (b := 1) ⟨by decide +kernel, by rfl⟩ .nil))))).1
  refine (hselect 5 [1]).2 ⟨by decide +kernel, by decide +kernel, fun id hid hne => ?_, by rfl⟩
  obtain rfl : id = 1 := by simpa [hne] using hid
  exact Or.inr ⟨4, .single (by rfl), root, by decide +kernel⟩

end NaturalDeduction.Document
