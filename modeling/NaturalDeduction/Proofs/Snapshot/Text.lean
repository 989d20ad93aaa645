import NaturalDeduction.Proofs.Document.Visibility
import NaturalDeduction.Proofs.Snapshot.Rows

/-!
# Snapshots as text

The text of a snapshot has one row for each line of the document, and the numbers in it are those by
which the lines are found: the number a row begins with is the number of its line, and the numbers in
the justification of a row are those of the cited line, or of the first and the last line of the cited
box, which all stand in rows above.  Three computations agree here: the rows are written along the
outline, citations are looked up in the boxes, and lines are searched by their numbers.
-/

set_option autoImplicit false

namespace NaturalDeduction.Document

variable {d : Document} {id box cite : ItemId} {row : Nat} {style : Style}
  {V : List Meaning → Formula → Prop}

/-! ### What a row says -/

/-- The text by which a line in the given row cites an item: the number of a line above, or the numbers
of the first and the last line of a box above. -/
inductive Names (d : Document) (row : Nat) : ItemId → String → Prop
  | line {cite : ItemId} {n : Nat} (hline : d.isBox cite = false)
      (hfind : d.findLine? n = some cite) (habove : n < row) : Names d row cite n.repr
  | box {cite first last : ItemId} {m n : Nat} (hbox : d.isBox cite = true)
      (hfirst : (d.linesUnder cite).head? = some first) (hm : d.findLine? m = some first)
      (hlast : (d.linesUnder cite).getLast? = some last) (hn : d.findLine? n = some last)
      (hle : m ≤ n) (habove : n < row) : Names d row cite (m.repr ++ "–" ++ n.repr)

/-- The text of the justification of a line in the given row. -/
inductive Justifies (d : Document) (row : Nat) : Justification → String → Prop
  | given : Justifies d row .given "Given"
  | assumption : Justifies d row .assumption "Ass"
  | goal : Justifies d row .goal "Goal"
  | bare {rule : Rule} : Justifies d row (.byRule rule []) rule.name
  | citing {rule : Rule} {cites : List ItemId} {texts : List String} (hne : cites ≠ [])
      (htexts : List.Forall₂ (d.Names row) cites texts) :
      Justifies d row (.byRule rule cites) (rule.name ++ " " ++ ", ".intercalate texts)

/-- What a line in the given row says behind the bars. -/
inductive Says (d : Document) (style : Style) (row : Nat) : ItemId → String → Prop
  | line {id : ItemId} {f : Formula} {just : Justification} {text : String}
      (hline : d.line? id = some (f, just)) (htext : d.Justifies row just text) :
      Says d style row id (f.render style ++ "  " ++ text)
  | empty {id : ItemId} (hempty : d.isEmptyLine id = true) : Says d style row id "(empty)"
  | constants {id : ItemId} {names : List String} {n : Nat}
      (hkind : d.kind? id = some (.constants names n)) :
      Says d style row id (", ".intercalate names ++ "  Constants")

/-- The text of a line in the given row: the number of the row, a bar for each box around the line but
the outermost one, and what the line says. -/
def ShownAs (d : Document) (style : Style) (row : Nat) (id : ItemId) (text : String) : Prop :=
  ∃ (boxes : List ItemId) (content : String), boxes.Nodup ∧
    (∀ box, box ∈ boxes ↔ d.Within id box ∧ box ≠ root) ∧
    d.Says style row id content ∧ text = row.repr ++ " " ++ Row.bars boxes.length ++ content

/-! ### Citations -/

/-- The first of some lines has at most the number of the last. -/
theorem Numbered.head?_le_getLast? (h : d.Numbered) {lines : List ItemId}
    (hsub : lines.Sublist d.lines) {first last : ItemId} {m n : Nat}
    (hfirst : lines.head? = some first) (hlast : lines.getLast? = some last)
    (hm : d.number? first = some m) (hn : d.number? last = some n) : m ≤ n := by
  obtain ⟨rest, rfl⟩ := List.head?_eq_some_iff.1 hfirst
  rcases List.mem_cons.1 (List.mem_of_getLast? hlast) with rfl | hmem
  · exact Nat.le_of_eq (Option.some.inj (hm.symm.trans hn))
  · have hsub' : ([first] ++ rest).Sublist d.lines := hsub
    obtain ⟨m', n', hm', hn', hlt⟩ := h.lt_of_sublist hsub' (List.mem_singleton_self first) hmem
    obtain rfl := Option.some.inj (hm.symm.trans hm')
    obtain rfl := Option.some.inj (hn.symm.trans hn')
    exact Nat.le_of_lt hlt

/-- What holds of every citation on its own holds of a list of citations. -/
theorem forall₂_citeTexts {P : ItemId → String → Prop} {cites : List ItemId}
    (hcites : ∀ cite ∈ cites, ∀ text, d.citeText cite = .ok text → P cite text) :
    ∀ {texts : List String}, d.citeTexts cites = .ok texts → List.Forall₂ P cites texts := by
  induction cites with
  | nil =>
    intro texts h
    obtain rfl := Except.ok.inj h
    exact .nil
  | cons cite cites ih =>
    intro texts h
    obtain ⟨text, htext, h⟩ := bind_eq_ok.1 h
    obtain ⟨rest, hrest, h⟩ := bind_eq_ok.1 h
    obtain rfl := Except.ok.inj h
    exact .cons (hcites cite List.mem_cons_self text htext)
      (ih (fun c hc => hcites c (List.mem_cons_of_mem cite hc)) hrest)

namespace Coherent

/-- The numbers in a citation are those of the cited lines, which come before the citing one. -/
theorem names_of_citeText (h : Coherent V d) (hnum : d.Numbered) (hup : d.Under root id)
    (hline : d.isBox id = false) (hrow : d.number? id = some row) (hvis : d.Visible cite id)
    (hne : d.linesOf cite ≠ []) {text : String} (htext : d.citeText cite = .ok text) :
    d.Names row cite text := by
  have hsub := h.linked.linesOf_visible hup hvis
  have hlines : ∀ line ∈ d.linesOf cite, line ∈ d.lines := fun line hmem =>
    hsub.subset (List.mem_append_left _ hmem)
  have habove : ∀ line ∈ d.linesOf cite, ∀ n, d.number? line = some n → n < row := by
    intro line hmem n hn
    obtain ⟨n', row', hn', hrow', hlt⟩ :=
      hnum.lt_of_sublist hsub hmem (show id ∈ d.linesOf id by simp [linesOf_of_line hline])
    obtain rfl := Option.some.inj (hn.symm.trans hn')
    obtain rfl := Option.some.inj (hrow.symm.trans hrow')
    exact hlt
  cases hbox : d.isBox cite with
  | false =>
    rw [linesOf_of_line hbox] at hlines habove
    have hmem := hlines cite (List.mem_singleton_self cite)
    obtain ⟨n, hn⟩ := Option.isSome_iff_exists.1 (h.linked.number?_isSome hmem)
    obtain rfl := Except.ok.inj ((citeText_of_number? hn).symm.trans htext)
    exact .line hbox (hnum.findLine?_eq hmem hn) (habove cite (List.mem_singleton_self cite) n hn)
  | true =>
    rw [linesOf_of_box hbox] at hlines habove hne
    obtain ⟨first, last, m, n, hfirst, hlast, hm, hn, hrange⟩ := boxRange_eq_ok
      (fun line hmem => h.linked.number?_isSome (hlines line hmem)) hne
    obtain rfl := Except.ok.inj ((citeText_of_isBox hbox hrange).symm.trans htext)
    have hmemFirst := List.mem_of_head? hfirst
    have hmemLast := List.mem_of_getLast? hlast
    refine .box hbox hfirst (hnum.findLine?_eq (hlines first hmemFirst) hm) hlast
      (hnum.findLine?_eq (hlines last hmemLast) hn) ?_ (habove last hmemLast n hn)
    refine hnum.head?_le_getLast? ?_ hfirst hlast hm hn
    rw [linesOf_of_box hbox] at hsub
    exact (List.sublist_append_left _ _).trans hsub

/-- A justification names what it cites. -/
theorem justifies_of_justText (h : Coherent V d) (hnum : d.Numbered) (hlinked : d.isLinked id = true)
    {f : Formula} {just : Justification} (hline : d.line? id = some (f, just))
    (hrow : d.number? id = some row) {text : String} (htext : d.justText just = .ok text) :
    d.Justifies row just text := by
  cases just with
  | given => exact Except.ok.inj htext ▸ .given
  | assumption => exact Except.ok.inj htext ▸ .assumption
  | goal => exact Except.ok.inj htext ▸ .goal
  | byRule rule cites =>
    have hnames : ∀ cite ∈ cites, ∀ text, d.citeText cite = .ok text → d.Names row cite text := by
      intro cite hcite text htext
      obtain ⟨-, m, hm⟩ := h.cited hlinked hline hcite
      obtain ⟨hvis, -⟩ := (h.supported hlinked hline).1 cite hcite
      exact h.names_of_citeText hnum (h.linked.under_root h.rooted hlinked) (isBox_of_line? hline) hrow
        hvis (h.linesOf_ne_nil hm) htext
    cases cites with
    | nil => exact Except.ok.inj htext ▸ .bare
    | cons cite cites =>
      obtain ⟨texts, htexts, htext⟩ := bind_eq_ok.1 htext
      exact Except.ok.inj htext ▸ .citing (List.cons_ne_nil cite cites)
        (forall₂_citeTexts hnames htexts)

/-! ### Rows -/

/-- The row of a line has its number, and says what the line says. -/
theorem says_of_row (h : Coherent V d) (hnum : d.Numbered) (hlinked : d.isLinked id = true)
    (hbox : d.isBox id = false) {r : Row} (hr : d.row style (.line id) = .ok r) :
    ∃ n content, d.number? id = some n ∧ d.Says style n id content ∧
      ∀ depth, r.textAt depth = [n.repr ++ " " ++ Row.bars depth ++ content] := by
  rw [Document.row] at hr
  obtain ⟨item, hitem, hr⟩ := bind_eq_ok.1 hr
  have hkind := kind?_of_item hitem
  rcases hcase : item.kind with ⟨f, just, n⟩ | n | ⟨names, n⟩ | data
  all_goals rw [hcase] at hkind hr
  · have hn : d.number? id = some n := by rw [number?, hkind]; rfl
    have hline : d.line? id = some (f, just) := (line?_eq_some_iff_kind? d).2 ⟨n, hkind⟩
    obtain ⟨text, htext, hr⟩ := bind_eq_ok.1 hr
    obtain rfl := Except.ok.inj hr
    refine ⟨n, _, hn, .line hline (h.justifies_of_justText hnum hlinked hline hn htext), ?_⟩
    intro depth
    simp [Row.textAt, String.append_assoc]
  · obtain rfl := Except.ok.inj hr
    exact ⟨n, _, by rw [number?, hkind]; rfl, .empty (by rw [isEmptyLine, hkind]), fun _ => rfl⟩
  · obtain rfl := Except.ok.inj hr
    refine ⟨n, _, by rw [number?, hkind]; rfl, .constants hkind, fun depth => ?_⟩
    simp [Row.textAt, String.append_assoc]
  · rw [(isBox_iff_kind? d).2 ⟨data, hkind⟩] at hbox
    exact absurd hbox (by decide)

end Coherent

/-- The boxes around an item but the outermost one, from the inside out. -/
def boxesAround (d : Document) (id : ItemId) : List ItemId :=
  (d.ancestors id).filter (· ≠ root)

namespace WellLinked

/-- The boxes around an item are those it stands in, except the outermost one. -/
theorem mem_boxesAround_iff (h : d.WellLinked) :
    box ∈ d.boxesAround id ↔ d.Within id box ∧ box ≠ root := by
  simp [boxesAround, h.mem_ancestors_iff]

/-- Every box around an item is listed once. -/
theorem nodup_boxesAround (h : d.WellLinked) (id : ItemId) : (d.boxesAround id).Nodup :=
  (h.above_nodup (h.ancestors_above id)).filter _

/-- No box is drawn around the items of the outermost one. -/
theorem boxesAround_root (h : d.WellLinked) (hmem : id ∈ d.children root) :
    d.boxesAround id = [] := by
  simp [boxesAround, h.ancestors_of_mem hmem, ancestors_of_free h.linkedBy.root_free]

/-- Around an item of a box there are the box and those around it. -/
theorem boxesAround_of_mem (h : d.WellLinked) (hmem : id ∈ d.children box) (hne : box ≠ root) :
    d.boxesAround id = box :: d.boxesAround box := by
  simp [boxesAround, h.ancestors_of_mem hmem, hne]

end WellLinked

/-- A line is shown by a text that begins with its number. -/
def Shows (d : Document) (style : Style) (id : ItemId) (text : String) : Prop :=
  ∃ n, d.number? id = some n ∧ d.ShownAs style n id text

/-- The rows of items show their lines, one after the other, if the row of each item does. -/
theorem shows_rows {depth : Nat} {ids : List ItemId}
    (hids : ∀ id ∈ ids, ∀ r, d.row style (d.nodeOf id) = .ok r →
      List.Forall₂ (d.Shows style) (d.linesOf id) (r.textAt depth)) :
    ∀ {rs : List Row}, d.rows style (ids.map d.nodeOf) = .ok rs →
      List.Forall₂ (d.Shows style) (ids.flatMap d.linesOf) (Row.textListAt depth rs) := by
  induction ids with
  | nil =>
    intro rs h
    rw [List.map_nil, Document.rows] at h
    obtain rfl := Except.ok.inj h
    exact .nil
  | cons id ids ih =>
    intro rs h
    rw [List.map_cons, Document.rows] at h
    obtain ⟨r, hr, h⟩ := bind_eq_ok.1 h
    obtain ⟨rest, hrest, h⟩ := bind_eq_ok.1 h
    obtain rfl := Except.ok.inj h
    rw [List.flatMap_cons, Row.textListAt]
    exact List.rel_append (hids id List.mem_cons_self r hr)
      (ih (fun j hj => hids j (List.mem_cons_of_mem id hj)) hrest)

namespace Coherent

/-- The row of an item shows its lines, from the innermost boxes outwards. -/
theorem shows_row (h : Coherent V d) (hnum : d.Numbered) (hne : id ≠ root)
    (hlinked : d.isLinked id = true) {r : Row} (hr : d.row style (d.nodeOf id) = .ok r) :
    List.Forall₂ (d.Shows style) (d.linesOf id) (r.textAt (d.boxesAround id).length) := by
  induction id using h.linked.box_induction generalizing r with
  | step id ih =>
    cases hbox : d.isBox id with
    | false =>
      rw [nodeOf, hbox, if_neg (by decide)] at hr
      obtain ⟨n, content, hn, hsays, htext⟩ := h.says_of_row hnum hlinked hbox hr
      rw [linesOf_of_line hbox, htext]
      exact .cons ⟨n, hn, d.boxesAround id, content, h.linked.nodup_boxesAround id,
        fun box => h.linked.mem_boxesAround_iff, hsays, rfl⟩ .nil
    | true =>
      rw [nodeOf, if_pos hbox, Document.row, h.linked.outline_eq_map] at hr
      obtain ⟨rs, hrs, hr⟩ := bind_eq_ok.1 hr
      obtain ⟨data, hdata⟩ := Option.isSome_iff_exists.1 hbox
      rw [hdata] at hr
      obtain rfl := Except.ok.inj hr
      rw [linesOf_of_box hbox, h.linked.linesUnder_eq, Row.textAt]
      refine shows_rows (fun c hc r hr => ?_) hrs
      have hshows := ih c hc (h.linked.ne_root_of_mem hc) (h.linked.isLinked_of_mem hc) hr
      rwa [h.linked.boxesAround_of_mem hc hne, List.length_cons] at hshows

/-- The text of a snapshot shows the lines of the document. -/
theorem shows_lines (h : Coherent V d) (hnum : d.Numbered) {snapshot : Snapshot}
    (hsnapshot : d.snapshot style = .ok snapshot) :
    List.Forall₂ (d.Shows style) d.lines snapshot.lines := by
  obtain ⟨rs, hrs, hsnapshot⟩ := bind_eq_ok.1 hsnapshot
  obtain rfl := Except.ok.inj hsnapshot
  rw [h.linked.outline_eq_map] at hrs
  rw [Document.lines, h.linked.linesUnder_eq]
  refine shows_rows (fun c hc r hr => ?_) hrs
  have hshows := h.shows_row hnum (h.linked.ne_root_of_mem hc) (h.linked.isLinked_of_mem hc) hr
  rwa [h.linked.boxesAround_root hc] at hshows

end Coherent

/-! ### The text as a whole -/

/-- Rows of text show a document: there is one for each linked line, the lines are found by the numbers
of their rows, and each row shows its line. -/
structure Displayed (d : Document) (style : Style) (texts : List String) : Prop where
  lines : ∀ id, id ∈ d.lines ↔ d.isLinked id = true ∧ d.isBox id = false
  once : d.lines.Nodup
  count : texts.length = d.lines.length
  unnumbered : d.findLine? 0 = none
  found : ∀ k, d.findLine? (k + 1) = d.lines[k]?
  rows : ∀ k id, d.findLine? (k + 1) = some id →
    ∃ text, texts[k]? = some text ∧ d.ShownAs style (k + 1) id text

/-- Lines are found by the numbers of the rows and by no others. -/
theorem Displayed.mem_range'_iff {texts : List String} (h : d.Displayed style texts) {k : Nat} :
    k ∈ List.range' 1 texts.length ↔ (d.findLine? k).isSome := by
  rw [List.mem_range'_1, h.count]
  cases k with
  | zero => simp [h.unnumbered]
  | succ k =>
    rw [h.found, isSome_getElem?]
    omega

/-- Lines have their places as numbers, counted from one. -/
theorem Numbered.number?_of_getElem? (h : d.Numbered) {k : Nat} (hk : d.lines[k]? = some id) :
    d.number? id = some (k + 1) := by
  obtain ⟨hlt, rfl⟩ := List.getElem?_eq_some_iff.1 hk
  have hget := congrArg (fun numbers => numbers[k]?) h
  simpa [hlt, Nat.add_comm] using hget

/-- The line with a number stands at the place of this number, counted from one. -/
theorem Numbered.getElem?_of_findLine? (h : d.Numbered) {k : Nat} (hfind : d.findLine? k = some id) :
    ∃ j, k = j + 1 ∧ d.lines[j]? = some id := by
  obtain ⟨j, hj⟩ := List.mem_iff_getElem?.1 (mem_lines_of_findLine? hfind)
  have hnumber := (number?_of_findLine? hfind).symm.trans (h.number?_of_getElem? hj)
  exact ⟨j, Option.some.inj hnumber, hj⟩

/-- A line is found by its place. -/
theorem Numbered.findLine?_succ (h : d.Numbered) (k : Nat) : d.findLine? (k + 1) = d.lines[k]? := by
  ext id
  constructor
  · intro hfind
    obtain ⟨j, hk, hj⟩ := h.getElem?_of_findLine? hfind
    exact Nat.succ.inj hk ▸ hj
  · intro hk
    exact h.findLine?_eq (List.mem_of_getElem? hk) (h.number?_of_getElem? hk)

/-- No line has the number zero. -/
theorem Numbered.findLine?_zero (h : d.Numbered) : d.findLine? 0 = none := by
  by_contra hne
  obtain ⟨id, hfind⟩ := Option.ne_none_iff_exists'.1 hne
  obtain ⟨j, hj, -⟩ := h.getElem?_of_findLine? hfind
  exact absurd hj (Nat.succ_ne_zero j).symm

/-- A document that holds together and whose lines are numbered is displayed by its snapshot. -/
theorem Coherent.displayed (h : Coherent V d) (hnum : d.Numbered) {snapshot : Snapshot}
    (hsnapshot : d.snapshot style = .ok snapshot) : d.Displayed style snapshot.lines := by
  have hshows := h.shows_lines hnum hsnapshot
  refine ⟨fun id => h.linked.mem_lines_iff h.rooted, h.linked.nodup_linesUnder root,
    hshows.length_eq.symm, hnum.findLine?_zero, hnum.findLine?_succ, fun k id hfind => ?_⟩
  rw [hnum.findLine?_succ] at hfind
  obtain ⟨hlt, rfl⟩ := List.getElem?_eq_some_iff.1 hfind
  have hlt' : k < snapshot.lines.length := hshows.length_eq ▸ hlt
  obtain ⟨n, hn, hshown⟩ := hshows.get hlt hlt'
  obtain rfl := Option.some.inj (hn.symm.trans (hnum.number?_of_getElem? hfind))
  exact ⟨_, List.getElem?_eq_getElem hlt', hshown⟩

end NaturalDeduction.Document
