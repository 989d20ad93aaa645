import NaturalDeduction.Proofs.Document.Ordered
import NaturalDeduction.Snapshot.Basic

/-!
# Rows of a snapshot

Every document that holds together can be shown: all its items have rows, because the citations of
its lines name items of the table, and a cited box has a first and a last line.
-/

set_option autoImplicit false

namespace NaturalDeduction.Document

variable {d : Document} {id : ItemId} {V : List Meaning → Formula → Prop}

/-- What an item that is in the table is. -/
theorem kind?_of_item {item : Item} (h : d.item id = .ok item) : d.kind? id = some item.kind := by
  rw [Document.item] at h
  rw [kind?]
  cases hget : d.items[id]? with
  | none => simp [hget] at h
  | some other =>
    rw [hget] at h
    obtain rfl := Except.ok.inj h
    rfl

/-- A line is cited by its number. -/
theorem citeText_of_number? {n : Nat} (h : d.number? id = some n) :
    d.citeText id = .ok n.repr := by
  obtain ⟨kind, hkind, hn⟩ := Option.bind_eq_some_iff.1 h
  obtain ⟨item, hitem, rfl⟩ := Option.map_eq_some_iff.1 hkind
  simp [citeText, Document.item, hitem, hn, bind, Except.bind, pure, Except.pure]

/-- A box is cited by its first and its last number. -/
theorem citeText_of_isBox {m n : Nat} (h : d.isBox id = true) (hrange : d.boxRange id = .ok (m, n)) :
    d.citeText id = .ok (m.repr ++ "–" ++ n.repr) := by
  obtain ⟨data, hkind⟩ := (isBox_iff_kind? d).1 h
  obtain ⟨item, hitem, hdata⟩ := Option.map_eq_some_iff.1 hkind
  simp [citeText, Document.item, hitem, hdata, ItemKind.number?, hrange, bind, Except.bind, pure,
    Except.pure]

namespace Coherent

/-- A linked item with a meaning can be cited: a line has a number, and a box has lines. -/
theorem citeText_total (h : Coherent V d) (hlinked : d.isLinked id = true) {m : Meaning}
    (hm : d.meaning? id = some m) : ∃ text, d.citeText id = .ok text := by
  cases hbox : d.isBox id with
  | false =>
    obtain ⟨n, hn⟩ := Option.isSome_iff_exists.1
      (number?_isSome_of_line (lt_size_of_meaning? hm) hbox)
    exact ⟨n.repr, citeText_of_number? hn⟩
  | true =>
    have hne := h.linesOf_ne_nil hm
    have hsub := h.linked.linesOf_sublist_lines (h.linked.under_root h.rooted hlinked)
    rw [linesOf_of_box hbox] at hne hsub
    obtain ⟨_, _, m, n, -, -, -, -, hrange⟩ := boxRange_eq_ok
      (fun line hline => h.linked.number?_isSome (hsub.subset hline)) hne
    exact ⟨_, citeText_of_isBox hbox hrange⟩

/-- Linked items that have a meaning can all be cited. -/
theorem citeTexts_total (h : Coherent V d) {cites : List ItemId}
    (hcites : ∀ cite ∈ cites, d.isLinked cite = true ∧ ∃ m, d.meaning? cite = some m) :
    ∃ texts, d.citeTexts cites = .ok texts := by
  induction cites with
  | nil => exact ⟨[], rfl⟩
  | cons cite cites ih =>
    obtain ⟨hlinked, m, hm⟩ := hcites cite List.mem_cons_self
    obtain ⟨text, htext⟩ := h.citeText_total hlinked hm
    obtain ⟨texts, htexts⟩ := ih fun c hc => hcites c (List.mem_cons_of_mem cite hc)
    exact ⟨text :: texts, by rw [citeTexts, htext, htexts]; rfl⟩

/-- The justification of a linked line can be written out. -/
theorem justText_total (h : Coherent V d) {f : Formula} {just : Justification}
    (hlinked : d.isLinked id = true) (hline : d.line? id = some (f, just)) :
    ∃ text, d.justText just = .ok text := by
  cases just with
  | given => exact ⟨_, rfl⟩
  | assumption => exact ⟨_, rfl⟩
  | goal => exact ⟨_, rfl⟩
  | byRule rule cites =>
    obtain ⟨texts, htexts⟩ := h.citeTexts_total fun cite hcite => h.cited hlinked hline hcite
    cases cites with
    | nil => exact ⟨_, rfl⟩
    | cons cite cites => exact ⟨_, by simp only [justText, htexts]; rfl⟩

/-- Items have rows together if each of them has one. -/
theorem rows_total (d : Document) (style : Style) (ids : List ItemId)
    (h : ∀ id ∈ ids, ∃ row, d.row style (d.nodeOf id) = .ok row) :
    ∃ rows, d.rows style (ids.map d.nodeOf) = .ok rows := by
  induction ids with
  | nil => exact ⟨[], by rw [List.map_nil, rows]⟩
  | cons id ids ih =>
    obtain ⟨row, hrow⟩ := h id List.mem_cons_self
    obtain ⟨rest, hrest⟩ := ih fun j hj => h j (List.mem_cons_of_mem id hj)
    exact ⟨row :: rest, by rw [List.map_cons, rows, hrow, hrest]; rfl⟩

/-- Every linked item has a row, from the innermost boxes outwards. -/
theorem row_total (h : Coherent V d) (style : Style) (hlinked : d.isLinked id = true) :
    ∃ row, d.row style (d.nodeOf id) = .ok row := by
  induction id using h.linked.box_induction with
  | step id ih =>
    cases hbox : d.isBox id with
    | true =>
      obtain ⟨data, hdata⟩ := Option.isSome_iff_exists.1 hbox
      obtain ⟨rows, hrows⟩ := rows_total d style (d.children id)
        fun c hc => ih c hc (h.linked.isLinked_of_mem hc)
      refine ⟨.box data.complete data.adjacent rows, ?_⟩
      rw [nodeOf, if_pos hbox, h.linked.outline_eq_map, row, hrows]
      simp [hdata, bind, Except.bind, pure, Except.pure]
    | false =>
      have hlt : id < d.items.size := by
        rcases isLinked_iff.1 hlinked with rfl | ⟨box, hparent⟩
        · exact lt_size_of_isBox h.linked.linkedBy.root_box
        · exact lt_size_of_parent? hparent
      obtain ⟨item, hitem, -⟩ := item_eq_ok hlt
      have hkind := kind?_of_item hitem
      rw [nodeOf, hbox, if_neg (by decide), row]
      simp only [hitem, bind, Except.bind]
      rcases hcase : item.kind with ⟨f, just, n⟩ | n | ⟨names, n⟩ | data
      · have hline : d.line? id = some (f, just) := by simp [line?, hkind, hcase]
        obtain ⟨text, htext⟩ := h.justText_total hlinked hline
        exact ⟨_, by simp only [htext]; rfl⟩
      · exact ⟨_, rfl⟩
      · exact ⟨_, rfl⟩
      · exact ⟨_, rfl⟩

/-- A document that holds together can be shown. -/
theorem snapshot_total (h : Coherent V d) (style : Style) :
    ∃ snapshot, d.snapshot style = .ok snapshot := by
  obtain ⟨rows, hrows⟩ := rows_total d style (d.children root)
    fun id hid => h.row_total style (h.linked.isLinked_of_mem hid)
  exact ⟨_, by rw [snapshot, h.linked.outline_eq_map, hrows]; rfl⟩

end Coherent

end NaturalDeduction.Document
