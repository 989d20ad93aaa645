import NaturalDeduction.Proofs.Document.Tree
import NaturalDeduction.Document.Selection

/-!
# What can be seen from where

An item is visible to the items after it in its box and to all that stands inside these.  This is
the order in which a proof may cite: a visible item is in scope, and its lines come before those of
the item it is visible to, so in a numbered document it has the smaller number.  Selecting lines
checks scope and number, and what passes is visible (`WellLinked.select_selects`).
-/

set_option autoImplicit false

namespace NaturalDeduction

/-- Two computations in a row succeed if the first does and the second does with its result. -/
theorem bind_eq_ok {ε α β : Type} {x : Except ε α} {f : α → Except ε β} {b : β} :
    (x >>= f) = .ok b ↔ ∃ a, x = .ok a ∧ f a = .ok b := by
  cases x with
  | error e => simp [bind, Except.bind]
  | ok a => simp [bind, Except.bind]

/-- A computation that cannot refuse succeeds as it did. -/
theorem Refusal.lift_eq_ok {α : Type} {x : Except Fault α} {a : α} :
    Refusal.lift x = .ok a ↔ x = .ok a := by
  cases x <;> simp [Refusal.lift]

/-- If all are found, the list of the findings is complete. -/
theorem map_eq_map_some {α β : Type} {f : α → Option β} {xs : List α}
    (h : ∀ x ∈ xs, (f x).isSome) : xs.map f = (xs.filterMap f).map some := by
  induction xs with
  | nil => rfl
  | cons x xs ih =>
    obtain ⟨y, hy⟩ := Option.isSome_iff_exists.1 (h x List.mem_cons_self)
    have hrest := ih fun z hz => h z (List.mem_cons_of_mem x hz)
    rw [List.map_cons, hrest, List.filterMap_cons_some hy, List.map_cons, hy]

namespace Document

variable {d e : Document} {id box seen : ItemId}

/-- An item stands before another one in its box, or before a box around that one. -/
inductive Visible (d : Document) (seen : ItemId) : ItemId → Prop
  | beside {id box : ItemId} (h : [seen, id].Sublist (d.children box)) : Visible d seen id
  | around {id box : ItemId} (hmem : id ∈ d.children box) (h : Visible d seen box) :
      Visible d seen id

/-- Two items stand in one box. -/
def Beside (d : Document) (id other : ItemId) : Prop :=
  ∃ box, id ∈ d.children box ∧ other ∈ d.children box

/-- A line may cite what is visible to it, but goals only if they stand in its own box. -/
def Citable (d : Document) (cite id : ItemId) : Prop :=
  d.Visible cite id ∧ (d.isGoal cite = true → d.Beside cite id)

/-- Only linked boxes have items. -/
def Rooted (d : Document) : Prop :=
  ∀ {id box : ItemId}, id ∈ d.children box → d.isLinked box = true

/-- Besides the root, the items with a parent stand in the document. -/
theorem isLinked_iff : d.isLinked id = true ↔ id = root ∨ ∃ box, d.parent? id = some box := by
  simp [isLinked, Option.isSome_iff_exists]

namespace WellLinked

/-- The items of a box stand in the document. -/
theorem isLinked_of_mem (h : d.WellLinked) (hmem : id ∈ d.children box) : d.isLinked id = true :=
  isLinked_iff.2 (Or.inr ⟨box, h.mem_children_iff.1 hmem⟩)

/-- What is linked stands in the outermost box. -/
theorem isLinked_iff_within (h : d.WellLinked) (hrooted : d.Rooted) :
    d.isLinked id = true ↔ id = root ∨ d.Within id root := by
  constructor
  · induction h.linkedBy.grounded id with
    | intro id _ ih =>
      intro hlinked
      obtain hroot | ⟨box, hbox⟩ := isLinked_iff.1 hlinked
      · exact Or.inl hroot
      · have hmem := h.mem_children_iff.2 hbox
        obtain rfl | hin := ih box hbox (hrooted hmem)
        · exact Or.inr (.single hbox)
        · exact Or.inr (hin.head hbox)
  · rintro (rfl | hin)
    · exact isLinked_iff.2 (Or.inl rfl)
    · obtain ⟨box, hstep, -⟩ := Relation.TransGen.head'_iff.1 hin
      exact isLinked_iff.2 (Or.inr ⟨box, hstep⟩)

/-- All that stands in the document is under the root. -/
theorem under_root (h : d.WellLinked) (hrooted : d.Rooted) (hlinked : d.isLinked id = true) :
    d.Under root id :=
  Relation.reflTransGen_iff_eq_or_transGen.2
    (((h.isLinked_iff_within hrooted).1 hlinked).imp_left Eq.symm)

/-- The lines of the document are the linked items that are no boxes. -/
theorem mem_lines_iff (h : d.WellLinked) (hrooted : d.Rooted) :
    id ∈ d.lines ↔ d.isLinked id = true ∧ d.isBox id = false := by
  rw [lines, h.mem_linesUnder_iff, h.isLinked_iff_within hrooted]
  constructor
  · rintro ⟨hin, hline⟩
    exact ⟨Or.inr hin, hline⟩
  · rintro ⟨rfl | hin, hline⟩
    · rw [h.linkedBy.root_box] at hline
      exact absurd hline (by decide)
    · exact ⟨hin, hline⟩

/-! ### The order of the lines -/

/-- The lines of an item are among those of its box, in their order. -/
theorem linesOf_sublist (h : d.WellLinked) (hmem : id ∈ d.children box) :
    (d.linesOf id).Sublist (d.linesOf box) := by
  rw [linesOf_of_box (h.linkedBy.isBox_of_mem hmem), h.linesUnder_eq]
  have hone : [id].Sublist (d.children box) := List.singleton_sublist.2 hmem
  simpa using hone.flatMap d.linesOf

/-- The lines of an item are among those of the document, in their order. -/
theorem linesOf_sublist_lines (h : d.WellLinked) (hup : d.Under root id) :
    (d.linesOf id).Sublist d.lines := by
  induction hup using Relation.ReflTransGen.head_induction_on with
  | refl =>
    rw [linesOf_of_box h.linkedBy.root_box]
    exact List.Sublist.refl _
  | head hstep _ ih => exact (h.linesOf_sublist (h.standsIn_iff.1 hstep)).trans ih

/-- The lines of an item come before those of a later item of the same box. -/
theorem linesOf_append_sublist (h : d.WellLinked) (hup : d.Under root box)
    (hbeside : [seen, id].Sublist (d.children box)) :
    (d.linesOf seen ++ d.linesOf id).Sublist d.lines := by
  have hmem : id ∈ d.children box := hbeside.subset (by simp)
  have hsub : (d.linesOf seen ++ d.linesOf id).Sublist (d.linesOf box) := by
    rw [linesOf_of_box (h.linkedBy.isBox_of_mem hmem), h.linesUnder_eq]
    simpa using hbeside.flatMap d.linesOf
  exact hsub.trans (h.linesOf_sublist_lines hup)

/-- The box of an item that is under the outermost box is under it, too. -/
theorem under_root_of_mem (h : d.WellLinked) (hmem : id ∈ d.children box)
    (hup : d.Under root id) : d.Under root box := by
  obtain rfl | ⟨b, hb, hup⟩ := Relation.ReflTransGen.cases_head hup
  · exact absurd rfl (h.ne_root_of_mem hmem)
  · exact h.linkedBy.box_unique (h.standsIn_iff.1 hb) hmem ▸ hup

/-- The lines of a visible item come first. -/
theorem linesOf_visible (h : d.WellLinked) (hup : d.Under root id) (hvis : d.Visible seen id) :
    (d.linesOf seen ++ d.linesOf id).Sublist d.lines := by
  induction hvis with
  | beside hbeside =>
    exact h.linesOf_append_sublist (h.under_root_of_mem (hbeside.subset (by simp)) hup) hbeside
  | around hmem _ ih =>
    exact ((List.Sublist.refl _).append (h.linesOf_sublist hmem)).trans
      (ih (h.under_root_of_mem hmem hup))

end WellLinked

/-- In a numbered document numbers increase from line to line. -/
theorem Numbered.pairwise (h : d.Numbered) :
    d.lines.Pairwise fun a b => ∃ m n, d.number? a = some m ∧ d.number? b = some n ∧ m < n := by
  have hlt : (d.lines.map d.number?).Pairwise fun x y =>
      ∃ m n, x = some m ∧ y = some n ∧ m < n := by
    rw [h, List.pairwise_map]
    exact (List.pairwise_lt_range' 1).imp fun {m n} hmn => ⟨m, n, rfl, rfl, hmn⟩
  exact List.pairwise_map.1 hlt

/-- Lines that come earlier have smaller numbers. -/
theorem Numbered.lt_of_sublist (h : d.Numbered) {a b : ItemId} {xs ys : List ItemId}
    (hsub : (xs ++ ys).Sublist d.lines) (ha : a ∈ xs) (hb : b ∈ ys) :
    ∃ m n, d.number? a = some m ∧ d.number? b = some n ∧ m < n :=
  (List.pairwise_append.1 (h.pairwise.sublist hsub)).2.2 a ha b hb

/-- Of two items of a list one comes first. -/
theorem sublist_pair_of_mem {a b : ItemId} {ids : List ItemId} (ha : a ∈ ids) (hb : b ∈ ids)
    (hne : a ≠ b) : [a, b].Sublist ids ∨ [b, a].Sublist ids := by
  obtain ⟨xs, ys, rfl⟩ := List.append_of_mem ha
  rcases List.mem_append.1 hb with hb | hb
  · right
    exact (List.singleton_sublist.2 hb).append (List.singleton_sublist.2 List.mem_cons_self)
  · left
    have hys : b ∈ ys := (List.mem_cons.1 hb).resolve_left (Ne.symm hne)
    exact ((List.singleton_sublist.2 hys).cons_cons a).trans (List.sublist_append_right xs _)

/-- What comes before an item of a list comes before its only occurrence. -/
theorem mem_of_pair_sublist {a b : ItemId} {xs ys : List ItemId} (hnodup : (xs ++ b :: ys).Nodup)
    (h : [a, b].Sublist (xs ++ b :: ys)) : a ∈ xs := by
  induction xs with
  | nil =>
    have hb : b ∉ ys := (List.nodup_cons.1 hnodup).1
    cases h with
    | cons _ h => exact absurd (h.subset (by simp)) hb
    | cons_cons _ h => exact absurd (h.subset (by simp)) hb
  | cons x xs ih =>
    cases h with
    | cons _ h => exact List.mem_cons_of_mem x (ih (List.nodup_cons.1 hnodup).2 h)
    | cons_cons _ _ => exact List.mem_cons_self

/-- What comes after an item of a list comes after its only occurrence. -/
theorem mem_of_sublist_pair {a b : ItemId} {xs ys : List ItemId} (hnodup : (xs ++ a :: ys).Nodup)
    (h : [a, b].Sublist (xs ++ a :: ys)) : b ∈ ys := by
  induction xs with
  | nil =>
    have ha : a ∉ ys := (List.nodup_cons.1 hnodup).1
    cases h with
    | cons _ h => exact absurd (h.subset (by simp)) ha
    | cons_cons _ h => exact h.subset (by simp)
  | cons x xs ih =>
    obtain ⟨hx, hnodup⟩ := List.nodup_cons.1 hnodup
    cases h with
    | cons _ h => exact ih hnodup h
    | cons_cons _ _ => exact absurd (by simp) hx

/-! ### Numbers of citations -/

/-- Boxes have no numbers. -/
theorem isBox_of_number? {n : Nat} (h : d.number? id = some n) : d.isBox id = false := by
  rw [number?] at h
  rw [isBox, box?]
  rcases hkind : d.kind? id with _ | (_ | _ | _ | _)
  all_goals simp [hkind, ItemKind.number?] at h ⊢

/-- A box with numbered lines goes from the number of its first line to that of its last one. -/
theorem boxRange_eq_ok (hlines : ∀ line ∈ d.linesUnder id, (d.number? line).isSome)
    (hne : d.linesUnder id ≠ []) :
    ∃ first last m n, (d.linesUnder id).head? = some first ∧
      (d.linesUnder id).getLast? = some last ∧ d.number? first = some m ∧
      d.number? last = some n ∧ d.boxRange id = .ok (m, n) := by
  have hmap := map_eq_map_some hlines
  have hhead := congrArg List.head? hmap
  have hlast := congrArg List.getLast? hmap
  rw [boxRange]
  cases hnumbers : (d.linesUnder id).filterMap d.number? with
  | nil => simp [hnumbers, hne] at hmap
  | cons m rest =>
    rw [hnumbers, List.head?_map] at hhead
    rw [hnumbers, List.getLast?_map, List.getLast?_map, List.getLast?_cons] at hlast
    obtain ⟨first, hfirst, hm⟩ := Option.map_eq_some_iff.1 hhead
    obtain ⟨last, hlast, hn⟩ := Option.map_eq_some_iff.1 hlast
    exact ⟨first, last, m, rest.getLast?.getD m, hfirst, hlast, hm, hn, rfl⟩

/-- An item goes by the number of one of its lines. -/
theorem citeNumber_eq_ok (hlines : ∀ line ∈ d.linesOf id, (d.number? line).isSome)
    (hne : d.linesOf id ≠ []) :
    ∃ n, d.citeNumber id = .ok n ∧ ∃ line ∈ d.linesOf id, d.number? line = some n := by
  cases hnumber : d.number? id with
  | some n =>
    have hbox := isBox_of_number? hnumber
    exact ⟨n, by rw [citeNumber, hnumber], id, by simp [linesOf_of_line hbox], hnumber⟩
  | none =>
    have hbox : d.isBox id = true := by
      by_contra hbox
      rw [linesOf_of_line (Bool.eq_false_iff.2 hbox)] at hlines
      simp [hnumber] at hlines
    rw [linesOf_of_box hbox] at hlines hne ⊢
    obtain ⟨_, last, m, n, -, hlast, -, hn, hrange⟩ := boxRange_eq_ok hlines hne
    exact ⟨n, by rw [citeNumber, hnumber, hrange]; rfl, last, List.mem_of_getLast? hlast, hn⟩

namespace WellLinked

/-- Every line of the document has a number. -/
theorem number?_isSome (h : d.WellLinked) (hmem : id ∈ d.lines) : (d.number? id).isSome := by
  obtain ⟨hin, hline⟩ := h.mem_linesUnder_iff.1 hmem
  exact number?_isSome_of_line (h.lt_size_of_within hin) hline

/-- What is visible to a line has the smaller number. -/
theorem citeNumber_lt (h : d.WellLinked) (hnum : d.Numbered) (hup : d.Under root id)
    (hvis : d.Visible seen id) (hne : d.linesOf seen ≠ []) (hline : d.isBox id = false) :
    ∃ m n, d.citeNumber seen = .ok m ∧ d.number? id = some n ∧ m < n := by
  have hsub := h.linesOf_visible hup hvis
  have hnumbers : ∀ line ∈ d.linesOf seen, (d.number? line).isSome := fun line hmem =>
    h.number?_isSome (hsub.subset (List.mem_append_left _ hmem))
  obtain ⟨m, hm, line, hmem, hlineNumber⟩ := citeNumber_eq_ok hnumbers hne
  rw [linesOf_of_line hline] at hsub
  obtain ⟨m', n, hm', hn, hlt⟩ := hnum.lt_of_sublist hsub hmem (List.mem_singleton_self id)
  rw [hlineNumber] at hm'
  exact ⟨m, n, hm, hn, Option.some.inj hm' ▸ hlt⟩

/-- What is visible stands in the box of the item or in a box around it. -/
theorem inScope_of_visible (h : d.WellLinked) (hvis : d.Visible seen id) :
    d.inScope seen id = true := by
  rw [inScope, List.any_eq_true]
  induction hvis with
  | @beside id box hbeside =>
    have hmem : id ∈ d.children box := hbeside.subset (by simp)
    refine ⟨box, ?_, by simpa using hbeside.subset (by simp)⟩
    rw [h.ancestors_of_mem hmem]
    exact List.mem_cons_self
  | around hmem _ ih =>
    obtain ⟨b, hb, hseen⟩ := ih
    refine ⟨b, ?_, hseen⟩
    rw [h.ancestors_of_mem hmem]
    exact List.mem_cons_of_mem _ hb

/-- An item in scope that does not come later is visible. -/
theorem visible_of_inScope (h : d.WellLinked) (hnum : d.Numbered) (hup : d.Under root id)
    (hscope : d.inScope seen id = true) (hseen : d.isBox seen = false) (hline : d.isBox id = false)
    {m n : Nat} (hm : d.number? seen = some m) (hn : d.number? id = some n) (hlt : m < n) :
    d.Visible seen id := by
  obtain ⟨box, hbox, hmem⟩ : ∃ box ∈ d.ancestors id, seen ∈ d.children box := by
    simpa [inScope] using hscope
  -- walk up from the line to the item `top` beside which the seen one stands
  have hwalk : ∀ top, Relation.ReflTransGen d.StandsIn id top → d.Under root top →
      box ∈ d.ancestors top → d.Visible seen top := by
    intro top
    induction h.linkedBy.grounded top with
    | intro top _ ih =>
      intro hid hup htop
      obtain ⟨b, hb⟩ : ∃ b, top ∈ d.children b := by
        cases hp : d.parent? top with
        | none => simp [ancestors_of_free hp] at htop
        | some b => exact ⟨b, h.mem_children_iff.2 hp⟩
      rw [h.ancestors_of_mem hb] at htop
      have hstep : d.StandsIn top b := h.standsIn_iff.2 hb
      rcases List.mem_cons.1 htop with rfl | htop
      · have hidLines : id ∈ d.linesOf top := by
          rcases Relation.reflTransGen_iff_eq_or_transGen.1 hid with rfl | hin
          · simp [linesOf_of_line hline]
          · rw [linesOf_of_box (h.isBox_of_within hin)]
            exact h.mem_linesUnder_iff.2 ⟨hin, hline⟩
        have hne : seen ≠ top := by
          rintro rfl
          rw [linesOf_of_line hseen, List.mem_singleton] at hidLines
          rw [← hidLines, hn] at hm
          exact Nat.lt_irrefl _ (Option.some.inj hm ▸ hlt)
        rcases sublist_pair_of_mem hmem hb hne with hbefore | hafter
        · exact .beside hbefore
        · have hsub := h.linesOf_append_sublist (h.under_root_of_mem hb hup) hafter
          obtain ⟨n', m', hn', hm', hlt'⟩ := hnum.lt_of_sublist hsub hidLines
            (show seen ∈ d.linesOf seen by simp [linesOf_of_line hseen])
          rw [hn] at hn'
          rw [hm] at hm'
          obtain rfl := Option.some.inj hn'
          obtain rfl := Option.some.inj hm'
          exact absurd hlt (Nat.lt_asymm hlt')
      · exact .around hb (ih b hstep (hid.tail hstep) (h.under_root_of_mem hb hup) htop)
  exact hwalk id .refl hup hbox

end WellLinked

/-! ### Selecting lines -/

/-- What is found by a number is a line of the document. -/
theorem mem_lines_of_findLine? {number : Nat} (h : d.findLine? number = some id) : id ∈ d.lines :=
  List.mem_of_find?_eq_some h

/-- Every number is looked up, and a repeated one once. -/
theorem resolve_eq_ok_iff {numbers : List Nat} {ids : List ItemId} :
    d.resolve numbers = .ok ids ↔ numbers.eraseDups.map d.findLine? = ids.map some := by
  rw [resolve]
  generalize numbers.eraseDups = numbers
  induction numbers generalizing ids with
  | nil => cases ids <;> simp [resolve.go]
  | cons number numbers ih =>
    rw [resolve.go, List.map_cons]
    cases hfind : d.findLine? number with
    | none => cases ids <;> simp
    | some id =>
      simp only [bind_eq_ok, ih]
      cases ids <;> simp [pure, Except.pure, and_comm]

/-- The lines that are looked up are those with the given numbers. -/
theorem mem_resolve_iff {numbers : List Nat} {ids : List ItemId} (h : d.resolve numbers = .ok ids) :
    id ∈ ids ↔ ∃ number ∈ numbers, d.findLine? number = some id := by
  have hmem : some id ∈ ids.map some ↔ ∃ number ∈ numbers, d.findLine? number = some id := by
    simp [← resolve_eq_ok_iff.1 h]
  simpa using hmem

/-- All numbers that are resolved belong to lines. -/
theorem findLine?_isSome_of_resolve {numbers : List Nat} {ids : List ItemId}
    (h : d.resolve numbers = .ok ids) : ∀ number ∈ numbers, (d.findLine? number).isSome := by
  intro number hnumber
  have hmem : d.findLine? number ∈ ids.map some := by
    rw [← resolve_eq_ok_iff.1 h]
    exact List.mem_map_of_mem (List.mem_eraseDups.2 hnumber)
  obtain ⟨id, -, hid⟩ := List.mem_map.1 hmem
  exact hid ▸ rfl

/-- Numbers are resolved to lines of the document. -/
theorem mem_lines_of_resolve {numbers : List Nat} {ids : List ItemId}
    (h : d.resolve numbers = .ok ids) : ∀ id ∈ ids, id ∈ d.lines := by
  intro id hid
  obtain ⟨number, -, hfind⟩ := (mem_resolve_iff h).1 hid
  exact mem_lines_of_findLine? hfind

/-- A line that is still to be filled in or proved. -/
def isOpen (d : Document) (id : ItemId) : Bool := d.isEmptyLine id || d.isGoal id

/-- The open lines are targets and the other lines with a formula are citations; nothing else can be
selected. -/
theorem sortOut_eq_ok_iff {ids : List ItemId} :
    ∀ {targets cites ts cs : List ItemId}, d.sortOut targets cites ids = .ok (ts, cs) ↔
      (∀ id ∈ ids, d.isOpen id = true ∨ (d.formula? id).isSome) ∧
        ts = targets.reverse ++ ids.filter d.isOpen ∧
        cs = cites.reverse ++ ids.filter fun id => !d.isOpen id := by
  induction ids with
  | nil =>
    intro targets cites ts cs
    rw [sortOut, Except.ok.injEq, Prod.mk.injEq]
    simp [eq_comm (a := ts), eq_comm (a := cs)]
  | cons id ids ih =>
    intro targets cites ts cs
    rw [sortOut]
    rcases hkind : d.kind? id with _ | (⟨f, just, n⟩ | n | ⟨names, n⟩ | data)
    · simp [isOpen, isEmptyLine, isGoal, formula?, line?, hkind]
    · cases hgoal : just.isGoal with
      | true =>
        have hopen : d.isOpen id = true := by simp [isOpen, isGoal, line?, hkind, hgoal]
        simp [ih, hopen, hgoal]
      | false =>
        have hopen : d.isOpen id = false := by
          simp [isOpen, isEmptyLine, isGoal, line?, hkind, hgoal]
        simp [ih, hopen, hgoal, formula?, line?, hkind]
    · have hopen : d.isOpen id = true := by simp [isOpen, isEmptyLine, hkind]
      simp [ih, hopen]
    · simp [isOpen, isEmptyLine, isGoal, formula?, line?, hkind]
    · simp [isOpen, isEmptyLine, isGoal, formula?, line?, hkind]

/-- A line can be cited if it is in scope and goes by a smaller number. -/
theorem checkCite_eq_ok_iff {target cite : ItemId} {number : Nat} :
    d.checkCite target number cite = .ok () ↔
      d.inScope cite target = true ∧ ∃ n, d.citeNumber cite = .ok n ∧ n < number := by
  unfold checkCite
  rw [bind_eq_ok]
  simp only [Refusal.lift_eq_ok]
  constructor
  · rintro ⟨n, hn, hcheck⟩
    by_cases hle : number ≤ n
    · simp [hle, bind, Except.bind, throw, throwThe, MonadExceptOf.throw] at hcheck
    · rw [if_neg hle] at hcheck
      cases hscope : d.inScope cite target with
      | true => exact ⟨rfl, n, hn, Nat.not_le.1 hle⟩
      | false => simp [hscope, throw, throwThe, MonadExceptOf.throw] at hcheck
  · rintro ⟨hscope, n, hn, hlt⟩
    exact ⟨n, hn, by rw [if_neg (Nat.not_le.2 hlt), hscope]; rfl⟩

/-- Lines can be cited if each of them is in scope and goes by a smaller number. -/
theorem checkCites_eq_ok_iff {target : ItemId} {number : Nat} {cites : List ItemId} :
    d.checkCites target number cites = .ok () ↔ ∀ cite ∈ cites,
      d.inScope cite target = true ∧ ∃ n, d.citeNumber cite = .ok n ∧ n < number := by
  induction cites with
  | nil => simp [checkCites]
  | cons cite cites ih =>
    rw [checkCites, bind_eq_ok, List.forall_mem_cons, ← ih, ← checkCite_eq_ok_iff]
    constructor
    · rintro ⟨_, hcite, hrest⟩
      exact ⟨hcite, hrest⟩
    · rintro ⟨hcite, hrest⟩
      exact ⟨(), hcite, hrest⟩

/-- Lines are selected if one of them is open, all others have a formula, are in scope and have
smaller numbers. -/
theorem select_eq_ok_iff {numbers : List Nat} {target : ItemId} {cites : List ItemId} :
    d.select numbers = .ok { target, cites } ↔ ∃ ids, d.resolve numbers = .ok ids ∧
      (∀ id ∈ ids, d.isOpen id = true ∨ (d.formula? id).isSome) ∧
      ids.filter d.isOpen = [target] ∧ (ids.filter fun id => !d.isOpen id) = cites ∧
      ∃ number, d.citeNumber target = .ok number ∧ ∀ cite ∈ cites,
        d.inScope cite target = true ∧ ∃ n, d.citeNumber cite = .ok n ∧ n < number := by
  unfold select
  rw [bind_eq_ok]
  refine exists_congr fun ids => and_congr Refusal.lift_eq_ok ?_
  rw [bind_eq_ok]
  constructor
  · rintro ⟨⟨targets, cs⟩, hsort, hsel⟩
    obtain ⟨hlines, rfl, rfl⟩ := sortOut_eq_ok_iff.1 hsort
    simp only [List.reverse_nil, List.nil_append] at hsel
    match hopen : ids.filter d.isOpen, hsel with
    | [], hsel => simp [throw, throwThe, MonadExceptOf.throw] at hsel
    | _ :: _ :: _, hsel => simp [throw, throwThe, MonadExceptOf.throw] at hsel
    | [t], hsel =>
      obtain ⟨number, hnumber, hsel⟩ := bind_eq_ok.1 hsel
      obtain ⟨_, hcheck, hsel⟩ := bind_eq_ok.1 hsel
      obtain ⟨rfl, rfl⟩ := Selection.mk.inj (Except.ok.inj hsel)
      exact ⟨hlines, rfl, rfl, number, Refusal.lift_eq_ok.1 hnumber,
        checkCites_eq_ok_iff.1 hcheck⟩
  · rintro ⟨hlines, hopen, hcites, number, hnumber, hcheck⟩
    refine ⟨(ids.filter d.isOpen, ids.filter fun id => !d.isOpen id),
      sortOut_eq_ok_iff.2 ⟨hlines, rfl, rfl⟩, ?_⟩
    simp only [hopen, hcites]
    rw [bind_eq_ok]
    refine ⟨number, Refusal.lift_eq_ok.2 hnumber, ?_⟩
    rw [bind_eq_ok]
    exact ⟨(), checkCites_eq_ok_iff.2 hcheck, rfl⟩

/-- The lines of a selection are those with the given numbers. -/
theorem mem_selection_iff {numbers : List Nat} {selection : Selection}
    (h : d.select numbers = .ok selection) :
    id ∈ selection.target :: selection.cites ↔
      ∃ number ∈ numbers, d.findLine? number = some id := by
  obtain ⟨target, cites⟩ := selection
  obtain ⟨ids, hids, -, htarget, hcites, -⟩ := select_eq_ok_iff.1 h
  rw [← mem_resolve_iff hids, ← List.singleton_append, ← htarget, ← hcites, List.mem_append,
    List.mem_filter, List.mem_filter]
  cases hopen : d.isOpen id <;> simp

/-- All numbers of a selection belong to lines. -/
theorem findLine?_isSome_of_select {numbers : List Nat} {selection : Selection}
    (h : d.select numbers = .ok selection) : ∀ number ∈ numbers, (d.findLine? number).isSome := by
  obtain ⟨ids, hids, -⟩ := select_eq_ok_iff.1 h
  exact findLine?_isSome_of_resolve hids

/-- The lines of a selection can be worked on: the target is open, and the citations are lines
that are visible to it. -/
structure Selects (d : Document) (selection : Selection) : Prop where
  target_line : selection.target ∈ d.lines
  target_open : d.isOpen selection.target = true
  visible : ∀ cite ∈ selection.cites, d.Visible cite selection.target
  formula : ∀ cite ∈ selection.cites, (d.formula? cite).isSome
  proved : ∀ cite ∈ selection.cites, d.isGoal cite = false

/-- Lines with formulas are no boxes. -/
theorem isBox_of_line? {f : Formula} {just : Justification} (h : d.line? id = some (f, just)) :
    d.isBox id = false := by
  obtain ⟨n, hkind⟩ := (line?_eq_some_iff_kind? d).1 h
  simp [isBox, box?, hkind]

/-- Open lines are no boxes. -/
theorem isBox_of_isOpen (h : d.isOpen id = true) : d.isBox id = false := by
  rw [isOpen, isEmptyLine, isGoal, line?] at h
  rw [isBox, box?]
  rcases hkind : d.kind? id with _ | (_ | _ | _ | _)
  all_goals simp [hkind] at h ⊢

/-- A line goes by its own number. -/
theorem citeNumber_of_line {n : Nat} (h : d.number? id = some n) : d.citeNumber id = .ok n := by
  rw [citeNumber, h]

/-- To a line those lines are visible that are in scope and have a smaller number. -/
theorem WellLinked.visible_iff (h : d.WellLinked) (hnum : d.Numbered) (hid : id ∈ d.lines)
    (hseen : seen ∈ d.lines) : d.Visible seen id ↔ d.inScope seen id = true ∧
      ∃ m n, d.citeNumber seen = .ok m ∧ d.citeNumber id = .ok n ∧ m < n := by
  obtain ⟨hin, hline⟩ := h.mem_linesUnder_iff.1 hid
  obtain ⟨-, hseenLine⟩ := h.mem_linesUnder_iff.1 hseen
  have hup : d.Under root id := hin.to_reflTransGen
  constructor
  · intro hvis
    obtain ⟨m, n, hm, hn, hlt⟩ :=
      h.citeNumber_lt hnum hup hvis (by simp [linesOf_of_line hseenLine]) hline
    exact ⟨h.inScope_of_visible hvis, m, n, hm, citeNumber_of_line hn, hlt⟩
  · rintro ⟨hscope, m, n, hm, hn, hlt⟩
    obtain ⟨m', hm'⟩ := Option.isSome_iff_exists.1 (h.number?_isSome hseen)
    obtain ⟨n', hn'⟩ := Option.isSome_iff_exists.1 (h.number?_isSome hid)
    obtain rfl := Except.ok.inj ((citeNumber_of_line hm').symm.trans hm)
    obtain rfl := Except.ok.inj ((citeNumber_of_line hn').symm.trans hn)
    exact h.visible_of_inScope hnum hup hscope hseenLine hline hm' hn' hlt

/-- What selecting finds can be worked on. -/
theorem WellLinked.select_selects (h : d.WellLinked) (hnum : d.Numbered) {numbers : List Nat}
    {selection : Selection} (hsel : d.select numbers = .ok selection) : d.Selects selection := by
  obtain ⟨target, cites⟩ := selection
  obtain ⟨ids, hids, hkinds, hopen, hcites, number, hnumber, hcheck⟩ := select_eq_ok_iff.1 hsel
  have hlines := mem_lines_of_resolve hids
  obtain ⟨hmem, htarget⟩ : target ∈ ids ∧ d.isOpen target = true :=
    List.mem_filter.1 (hopen ▸ List.mem_singleton_self target)
  have hcite : ∀ {cite}, cite ∈ cites → cite ∈ ids ∧ d.isOpen cite = false := by
    intro cite hcite
    obtain ⟨hmem, hclosed⟩ := List.mem_filter.1 (hcites.symm ▸ hcite)
    exact ⟨hmem, by simpa using hclosed⟩
  have hline : target ∈ d.lines := hlines target hmem
  refine ⟨hline, htarget, fun cite hc => ?_, fun cite hc => ?_, fun cite hc => ?_⟩
  · obtain ⟨hscope, m, hm, hlt⟩ := hcheck cite hc
    exact (h.visible_iff hnum hline (hlines cite (hcite hc).1)).2
      ⟨hscope, m, number, hm, hnumber, hlt⟩
  · obtain ⟨hmem, hclosed⟩ := hcite hc
    exact (hkinds cite hmem).resolve_left (by simp [hclosed])
  · have hclosed := (hcite hc).2
    rw [isOpen, Bool.or_eq_false_iff] at hclosed
    exact hclosed.2

end Document
end NaturalDeduction
