import NaturalDeduction.Proofs.Document.Coherent

/-!
# Documents as ordered trees

A document that holds together and whose lines are numbered is `Orderly`: its links spell out one
ordered tree, the lines of the tree carry the numbers from one on, and every citation goes back to an
earlier item of a box around the citing line.
-/

set_option autoImplicit false

namespace NaturalDeduction

namespace Outline

/-- The item an outline begins with. -/
def id : Outline → ItemId
  | .line id => id
  | .box id _ => id

mutual

/-- All items of an outline, each box before what it holds. -/
def ids : Outline → List ItemId
  | .line id => [id]
  | .box id items => id :: idsList items

/-- All items of several outlines. -/
def idsList : List Outline → List ItemId
  | [] => []
  | outline :: outlines => outline.ids ++ idsList outlines

end

/-- The items of several outlines are those of each, one after the other. -/
theorem idsList_eq_flatMap (outlines : List Outline) :
    idsList outlines = outlines.flatMap ids := by
  induction outlines with
  | nil => rfl
  | cons outline outlines ih => rw [idsList, ih, List.flatMap_cons]

end Outline

namespace Document

variable {d : Document} {id box : ItemId}

mutual

/-- The links of an item, and of all items inside it, are those of an outline that stands in the box
`parent` between `prev` and `next`. -/
def Describes (d : Document) (parent prev next : Option ItemId) : Outline → Prop
  | .line id =>
    d.isBox id = false ∧ d.parent? id = parent ∧ d.prev? id = prev ∧ d.next? id = next
  | .box id items =>
    d.isBox id = true ∧ d.parent? id = parent ∧ d.prev? id = prev ∧ d.next? id = next ∧
      d.head? id = items.head?.map Outline.id ∧ d.DescribesRow (some id) none items

/-- The links of the items of a row, which stands in the box `parent` behind `prev`. -/
def DescribesRow (d : Document) (parent prev : Option ItemId) : List Outline → Prop
  | [] => True
  | outline :: outlines =>
    d.Describes parent prev (outlines.head?.map Outline.id) outline ∧
      d.DescribesRow parent (some outline.id) outlines

end

/-- The tree of an item. -/
def nodeOf (d : Document) (id : ItemId) : Outline :=
  if d.isBox id then .box id (d.outline id) else .line id

/-- The outline of an item begins with the item. -/
@[simp] theorem id_nodeOf (d : Document) (id : ItemId) : (d.nodeOf id).id = id := by
  unfold nodeOf
  split <;> rfl

/-- The outline of the root is that of the document. -/
theorem nodeOf_root (h : d.WellLinked) : d.nodeOf root = .box root (d.outline root) :=
  if_pos h.linkedBy.root_box

namespace WellLinked

/-- The outline of a box lists the outlines of its items. -/
theorem outline_eq_map (h : d.WellLinked) (box : ItemId) :
    d.outline box = (d.children box).map d.nodeOf := h.outline_eq box

/-- The rows of the boxes are described by their trees, from the innermost boxes outwards. -/
theorem describesRow (h : d.WellLinked) (box : ItemId) :
    d.DescribesRow (some box) none (d.outline box) := by
  induction box using h.box_induction with
  | step box ih =>
    -- a row is described item by item, knowing what stands before it
    have hrow : ∀ ys xs, d.children box = xs ++ ys →
        d.DescribesRow (some box) xs.getLast? (ys.map d.nodeOf) := by
      intro ys
      induction ys with
      | nil => intro xs _; trivial
      | cons id ys ihys =>
        intro xs hsplit
        obtain ⟨hparent, hprev, hnext⟩ := h.linkedBy.place hsplit
        have hmem : id ∈ d.children box := by simp [hsplit]
        have hhead : (ys.map d.nodeOf).head?.map Outline.id = ys.head? := by
          cases ys <;> simp
        have hrest := ihys (xs ++ [id]) (by simpa using hsplit)
        rw [List.getLast?_concat] at hrest
        refine ⟨?_, by rwa [id_nodeOf]⟩
        rw [hhead]
        cases hbox : d.isBox id with
        | false =>
          rw [nodeOf, hbox]
          exact ⟨hbox, hparent, hprev, hnext⟩
        | true =>
          rw [nodeOf, hbox, if_pos rfl]
          refine ⟨hbox, hparent, hprev, hnext, ?_, ih id hmem⟩
          rw [h.linkedBy.head, h.outline_eq_map]
          cases d.children id <;> simp
    rw [h.outline_eq_map]
    exact hrow (d.children box) [] rfl

/-- The links describe the tree of the whole document. -/
theorem describes (h : d.WellLinked) :
    d.Describes none none none (.box root (d.outline root)) := by
  obtain ⟨hprev, hnext⟩ := h.linkedBy.free h.linkedBy.root_free
  refine ⟨h.linkedBy.root_box, h.linkedBy.root_free, hprev, hnext, ?_, h.describesRow root⟩
  rw [h.linkedBy.head, h.outline_eq_map]
  cases d.children root <;> simp

/-- The items of a box are listed one after the other, each with all that stands in it. -/
theorem idsList_outline (h : d.WellLinked) (box : ItemId) :
    Outline.idsList (d.outline box) = (d.children box).flatMap fun id => (d.nodeOf id).ids := by
  rw [Outline.idsList_eq_flatMap, h.outline_eq_map, List.flatMap_map]

/-- The outline of an item holds the item and all that stands in it. -/
theorem mem_ids_nodeOf (h : d.WellLinked) {j : ItemId} :
    j ∈ (d.nodeOf id).ids ↔ Relation.ReflTransGen d.StandsIn j id := by
  induction id using h.box_induction with
  | step id ih =>
    have hinside : j ∈ Outline.idsList (d.outline id) ↔
        ∃ c ∈ d.children id, Relation.ReflTransGen d.StandsIn j c := by
      rw [h.idsList_outline, List.mem_flatMap]
      exact exists_congr fun c => and_congr_right fun hc => ih c hc
    rw [Relation.ReflTransGen.cases_tail_iff]
    simp only [h.standsIn_iff]
    cases hbox : d.isBox id with
    | false =>
      have hnil : d.children id = [] := by
        by_contra hne
        obtain ⟨c, hc⟩ := List.exists_mem_of_ne_nil _ hne
        rw [h.linkedBy.isBox_of_mem hc] at hbox
        exact absurd hbox (by decide)
      rw [nodeOf, hbox, if_neg (by decide), Outline.ids, List.mem_singleton]
      simp [hnil, eq_comm]
    | true =>
      rw [nodeOf, if_pos hbox, Outline.ids, List.mem_cons, hinside]
      refine or_congr eq_comm ?_
      exact exists_congr fun c => and_comm

/-- No item stands in the tree twice. -/
theorem nodup_ids_nodeOf (h : d.WellLinked) (id : ItemId) : (d.nodeOf id).ids.Nodup := by
  induction id using h.box_induction with
  | step id ih =>
    rw [nodeOf]
    split
    · rw [Outline.ids, List.nodup_cons, h.idsList_outline]
      constructor
      · intro hmem
        obtain ⟨c, hc, hin⟩ := List.mem_flatMap.1 hmem
        have hup := h.mem_ids_nodeOf.1 hin
        exact h.not_within_self id (Relation.TransGen.tail' hup (h.standsIn_iff.2 hc))
      · rw [List.nodup_flatMap]
        refine ⟨ih, (h.linkedBy.nodup id).imp_of_mem fun {a b} ha hb hne => ?_⟩
        intro j hja hjb
        exact hne (h.eq_of_common ha hb (h.mem_ids_nodeOf.1 hja) (h.mem_ids_nodeOf.1 hjb))
    · exact List.nodup_singleton id

/-- The items of the tree are the linked ones. -/
theorem mem_ids_iff (h : d.WellLinked) (hrooted : d.Rooted) :
    id ∈ (Outline.box root (d.outline root)).ids ↔ d.isLinked id = true := by
  rw [← nodeOf_root h, h.mem_ids_nodeOf, h.isLinked_iff_within hrooted,
    Relation.reflTransGen_iff_eq_or_transGen]
  exact or_congr_left eq_comm

end WellLinked

/-! ### Orderly documents -/

/-- The cited items are linked, stand in a box around the citing line, and come before it. -/
def Cites (d : Document) (id cite : ItemId) : Prop :=
  d.isLinked cite = true ∧ d.inScope cite id = true ∧
    ∃ m n, d.citeNumber cite = .ok m ∧ d.number? id = some n ∧ m < n

/-- The document is one ordered tree whose lines are numbered from one on and cite what comes before
them in the boxes around. -/
structure Orderly (d : Document) : Prop where
  tree : d.Describes none none none (.box root (d.outline root))
  distinct : (Outline.box root (d.outline root)).ids.Nodup
  linked : ∀ id, d.isLinked id = true ↔ id ∈ (Outline.box root (d.outline root)).ids
  lines : ∀ id, id ∈ d.lines ↔ d.isLinked id = true ∧ d.isBox id = false
  numbers : d.lines.map d.number? = (List.range' 1 d.lines.length).map some
  citations : ∀ {id f rule cites}, d.isLinked id = true →
    d.line? id = some (f, .byRule rule cites) → ∀ cite ∈ cites, d.Cites id cite

variable {V : List Meaning → Formula → Prop}

/-- What is visible stands in the document. -/
theorem Visible.isLinked {seen : ItemId} (h : d.Visible seen id) (hlinked : d.WellLinked) :
    d.isLinked seen = true := by
  induction h with
  | beside h => exact hlinked.isLinked_of_mem (h.subset List.mem_cons_self)
  | around _ _ ih => exact ih

/-- An item with a meaning holds a line. -/
theorem Coherent.linesOf_ne_nil (h : Coherent V d) {m : Meaning} (hm : d.meaning? id = some m) :
    d.linesOf id ≠ [] := by
  cases hbox : d.isBox id with
  | false => simp [linesOf_of_line hbox]
  | true =>
    rw [meaning?, if_pos hbox] at hm
    obtain ⟨f, hf, -⟩ := Option.map_eq_some_iff.1 hm
    obtain ⟨last, hlast, hformula⟩ := Option.bind_eq_some_iff.1 hf
    obtain ⟨⟨g, just⟩, hline, -⟩ := Option.map_eq_some_iff.1 hformula
    rw [linesOf_of_box hbox]
    refine List.ne_nil_of_mem (h.linked.mem_linesUnder_iff.2 ⟨.single ?_, isBox_of_line? hline⟩)
    exact h.linked.standsIn_iff.2 (List.mem_of_getLast? hlast)

/-- What a linked line cites is linked and has a meaning. -/
theorem Coherent.cited (h : Coherent V d) {f : Formula} {rule : Rule} {cites : List ItemId}
    (hlinked : d.isLinked id = true) (hline : d.line? id = some (f, .byRule rule cites))
    {cite : ItemId} (hcite : cite ∈ cites) :
    d.isLinked cite = true ∧ ∃ m, d.meaning? cite = some m := by
  obtain ⟨hcites, meanings, hmeanings, -⟩ := h.supported hlinked hline
  have hmem : d.meaning? cite ∈ meanings.map some := hmeanings ▸ List.mem_map_of_mem hcite
  obtain ⟨m, -, hm⟩ := List.mem_map.1 hmem
  exact ⟨(hcites cite hcite).1.isLinked h.linked, m, hm.symm⟩

/-- A coherent document whose lines are numbered is orderly. -/
theorem Coherent.orderly (h : Coherent V d) (hnum : d.Numbered) : d.Orderly where
  tree := h.linked.describes
  distinct := nodeOf_root h.linked ▸ h.linked.nodup_ids_nodeOf root
  linked _ := (h.linked.mem_ids_iff h.rooted).symm
  lines _ := h.linked.mem_lines_iff h.rooted
  numbers := hnum
  citations := by
    intro id f rule cites hlinked hline cite hcite
    obtain ⟨hlinked', m, hm⟩ := h.cited hlinked hline hcite
    obtain ⟨hvis, -⟩ := (h.supported hlinked hline).1 cite hcite
    exact ⟨hlinked', h.linked.inScope_of_visible hvis,
      h.linked.citeNumber_lt hnum (h.linked.under_root h.rooted hlinked) hvis (h.linesOf_ne_nil hm)
        (isBox_of_line? hline)⟩

end Document
end NaturalDeduction
