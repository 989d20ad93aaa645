import NaturalDeduction.Proofs.Document.Coherent
import NaturalDeduction.Inference.Splice

/-!
# Documents that grow

New items are only ever put just before an open line: an empty line, a goal, a line that follows
from what the open line sees, or a box built after a plan.  A document that grows in this way stays
coherent, and its items keep their meaning and go on seeing what they saw.
-/

set_option autoImplicit false

namespace NaturalDeduction.Document

variable {d e : Document} {id box : ItemId}

/-! ### Putting an item before an open line -/

/-- The second document is the first with a new item before `anchor`; if the new item is a box, it
has new items inside. -/
structure Grown (d e : Document) (box : ItemId) (xs : List ItemId) (anchor : ItemId)
    (ys : List ItemId) (kind : ItemKind) (inner : List ItemKind) : Prop where
  before : d.children box = xs ++ anchor :: ys
  linked : e.WellLinked
  here : e.children box = xs ++ d.items.size :: anchor :: ys
  inside : e.children d.items.size = List.range' (d.items.size + 1) inner.length
  elsewhere : ∀ b, b ≠ box → b ≠ d.items.size → e.children b = d.children b
  old : ∀ {j}, j < d.items.size → e.core? j = d.core? j
  new : e.core? d.items.size = some kind.core
  deeper : ∀ k, e.core? (d.items.size + 1 + k) = inner[k]?.map ItemKind.core
  size : e.items.size = d.items.size + 1 + inner.length

namespace Grown

variable {xs ys : List ItemId} {anchor : ItemId} {kind : ItemKind} {inner : List ItemKind}

/-- The anchor is an item of the box. -/
theorem anchor_mem (g : Grown d e box xs anchor ys kind inner) : anchor ∈ d.children box := by
  simp [g.before]

/-- The new item is an item of the box. -/
theorem new_mem (g : Grown d e box xs anchor ys kind inner) : d.items.size ∈ e.children box := by
  simp [g.here]

/-- The box is an old item. -/
theorem box_lt (g : Grown d e box xs anchor ys kind inner) (hd : d.WellLinked) :
    box < d.items.size :=
  lt_size_of_isBox (hd.linkedBy.isBox_of_mem g.anchor_mem)

/-- The new item comes right before the anchor. -/
theorem new_visible (g : Grown d e box xs anchor ys kind inner) :
    e.Visible d.items.size anchor := by
  refine .beside (show [d.items.size, anchor].Sublist (e.children box) from ?_)
  rw [g.here]
  exact ((List.nil_sublist ys).cons_cons anchor |>.cons_cons _).trans (List.sublist_append_right xs _)

/-- The anchor may cite the new item. -/
theorem new_citable (g : Grown d e box xs anchor ys kind inner) : e.Citable d.items.size anchor :=
  ⟨g.new_visible, fun _ => ⟨box, g.new_mem, by simp [g.here]⟩⟩

/-- An item that is not yet there holds nothing. -/
theorem children_of_new (hd : d.WellLinked) : d.children d.items.size = [] := by
  by_contra hne
  obtain ⟨id, hmem⟩ := List.exists_mem_of_ne_nil _ hne
  exact Nat.lt_irrefl _ (lt_size_of_isBox (hd.linkedBy.isBox_of_mem hmem))

/-- Every box keeps its items in their order. -/
theorem children_sublist (g : Grown d e box xs anchor ys kind inner) (hd : d.WellLinked)
    (b : ItemId) : (d.children b).Sublist (e.children b) := by
  by_cases hb : b = box
  · rw [hb, g.before, g.here]
    exact (List.Sublist.refl xs).append (List.sublist_cons_self _ _)
  · by_cases hn : b = d.items.size
    · rw [hn, children_of_new hd]
      exact List.nil_sublist _
    · rw [g.elsewhere b hb hn]

/-- What was visible stays visible. -/
theorem visible (g : Grown d e box xs anchor ys kind inner) (hd : d.WellLinked) {seen : ItemId}
    (h : d.Visible seen id) : e.Visible seen id := by
  induction h with
  | beside h => exact .beside (h.trans (g.children_sublist hd _))
  | around hmem _ ih => exact .around ((g.children_sublist hd _).subset hmem) ih

/-- What the anchor sees, the new item sees. -/
theorem visible_new (g : Grown d e box xs anchor ys kind inner) (hd : d.WellLinked)
    {seen : ItemId} (h : d.Visible seen anchor) : e.Visible seen d.items.size := by
  cases h with
  | @beside _ b hbeside =>
    obtain rfl : b = box := hd.linkedBy.box_unique (hbeside.subset (by simp)) g.anchor_mem
    have hxs : seen ∈ xs := by
      rw [g.before] at hbeside
      have hnodup := hd.linkedBy.nodup b
      rw [g.before] at hnodup
      exact mem_of_pair_sublist hnodup hbeside
    refine .beside (show [seen, d.items.size].Sublist (e.children b) from ?_)
    rw [g.here]
    exact (List.singleton_sublist.2 hxs).append (List.singleton_sublist.2 List.mem_cons_self)
  | @around _ b hmem hup =>
    obtain rfl : b = box := hd.linkedBy.box_unique hmem g.anchor_mem
    exact .around g.new_mem (g.visible hd hup)

/-- What could be cited still can. -/
theorem citable (g : Grown d e box xs anchor ys kind inner) (hd : d.WellLinked) {cite : ItemId}
    (hlt : cite < d.items.size) (h : d.Citable cite id) : e.Citable cite id := by
  refine ⟨g.visible hd h.1, fun hgoal => ?_⟩
  obtain ⟨b, hmem, hmem'⟩ := h.2 (isGoal_congr (g.old hlt) ▸ hgoal)
  exact ⟨b, (g.children_sublist hd b).subset hmem, (g.children_sublist hd b).subset hmem'⟩

/-- What the anchor may cite, the new item may. -/
theorem citable_new (g : Grown d e box xs anchor ys kind inner) (hd : d.WellLinked) {cite : ItemId}
    (hlt : cite < d.items.size) (h : d.Citable cite anchor) : e.Citable cite d.items.size := by
  refine ⟨g.visible_new hd h.1, fun hgoal => ?_⟩
  obtain ⟨b, hmem, hmem'⟩ := h.2 (isGoal_congr (g.old hlt) ▸ hgoal)
  obtain rfl : b = box := hd.linkedBy.box_unique hmem' g.anchor_mem
  exact ⟨b, (g.children_sublist hd b).subset hmem, g.new_mem⟩

/-- An old item stands where it stood. -/
theorem mem_children_iff (g : Grown d e box xs anchor ys kind inner) (hd : d.WellLinked)
    (hlt : id < d.items.size) {b : ItemId} : id ∈ e.children b ↔ id ∈ d.children b := by
  constructor
  · intro hmem
    by_cases hb : b = box
    · subst hb
      rw [g.here] at hmem
      rw [g.before]
      simp only [List.mem_append, List.mem_cons] at hmem ⊢
      rcases hmem with hmem | rfl | hmem
      · exact Or.inl hmem
      · exact absurd hlt (Nat.lt_irrefl _)
      · exact Or.inr hmem
    · by_cases hn : b = d.items.size
      · rw [hn, g.inside, List.mem_range'_1] at hmem
        exact absurd hlt (Nat.not_lt.2 (Nat.le_of_succ_le hmem.1))
      · rwa [g.elsewhere b hb hn] at hmem
  · intro hmem
    exact (g.children_sublist hd b).subset hmem

/-- Old items stand in the document exactly if they did. -/
theorem isLinked_iff (g : Grown d e box xs anchor ys kind inner) (hd : d.WellLinked)
    (hlt : id < d.items.size) : e.isLinked id = true ↔ d.isLinked id = true := by
  rw [Document.isLinked_iff, Document.isLinked_iff]
  simp only [← hd.mem_children_iff, ← g.linked.mem_children_iff, g.mem_children_iff hd hlt]

/-- Still only linked boxes have items. -/
theorem rooted (g : Grown d e box xs anchor ys kind inner) (hd : d.WellLinked)
    (hrooted : d.Rooted) : e.Rooted := by
  intro id b hmem
  by_cases hn : b = d.items.size
  · subst hn
    exact g.linked.isLinked_of_mem g.new_mem
  · by_cases hb : b = box
    · subst hb
      exact (g.isLinked_iff hd (g.box_lt hd)).2 (hrooted g.anchor_mem)
    · rw [g.elsewhere b hb hn] at hmem
      have hlt := lt_size_of_isBox (hd.linkedBy.isBox_of_mem hmem)
      exact (g.isLinked_iff hd hlt).2 (hrooted hmem)

/-- The new item holds the items it was to begin with. -/
theorem map_core?_inside (g : Grown d e box xs anchor ys kind inner) :
    (e.children d.items.size).map e.core? = inner.map fun kind => some kind.core := by
  rw [g.inside]
  refine List.ext_getElem? fun k => ?_
  by_cases hk : k < inner.length
  · simp [hk, g.deeper]
  · simp [hk]

/-- Old lines keep their formulas. -/
theorem formula?_eq (g : Grown d e box xs anchor ys kind inner) (hlt : id < d.items.size) :
    e.formula? id = d.formula? id :=
  formula?_congr (g.old hlt)

/-- An old item keeps its meaning, unless the new one is an assumption. -/
theorem meaning?_eq (g : Grown d e box xs anchor ys kind inner) (hd : d.WellLinked)
    (hnew : e.assumption? d.items.size = none) (hlt : id < d.items.size) :
    e.meaning? id = d.meaning? id := by
  have hold : ∀ {j b}, j ∈ d.children b → j < d.items.size := fun hmem =>
    hd.linkedBy.lt_size hmem
  have hlast : ∀ {b}, e.lastChild? b = d.lastChild? b → e.ending? b = d.ending? b := by
    intro b hb
    rw [ending?, ending?, hb]
    cases hlast : d.lastChild? b with
    | none => rfl
    | some last => exact g.formula?_eq (hold (List.mem_of_getLast? hlast))
  have hassume : ∀ ids : List ItemId, (∀ j ∈ ids, j < d.items.size) →
      ids.filterMap e.assumption? = ids.filterMap d.assumption? := by
    intro ids hids
    exact List.filterMap_congr fun j hj => assumption?_congr (g.old (hids j hj))
  refine meaning?_congr (isBox_congr (g.old hlt)) (g.formula?_eq hlt) (skolemsOf_congr (g.old hlt))
    ?_ ?_
  · apply hlast
    by_cases hb : id = box
    · subst hb
      simp [lastChild?, g.here, g.before]
    · rw [lastChild?, lastChild?, g.elsewhere id hb (Nat.ne_of_lt hlt)]
  · rw [assumptionsIn, assumptionsIn]
    by_cases hb : id = box
    · subst hb
      have hxs : ∀ j ∈ xs, j < d.items.size := fun j hj => hold (by rw [g.before]; simp [hj])
      have hys : ∀ j ∈ anchor :: ys, j < d.items.size := fun j hj =>
        hold (by rw [g.before]; exact List.mem_append_right xs hj)
      rw [g.here, g.before, List.filterMap_append, List.filterMap_append, List.filterMap_cons_none hnew,
        hassume xs hxs, hassume _ hys]
    · rw [g.elsewhere id hb (Nat.ne_of_lt hlt)]
      exact hassume _ fun j hj => hold hj

end Grown

/-! ### The items of a planned box -/

/-- What a line of this kind assumes. -/
def kindAssumption? : ItemKind → Option Formula
  | .line f .assumption _ => some f
  | _ => none

/-- Whether an item is an assumption depends on its kind only. -/
theorem assumption?_eq_core (d : Document) (id : ItemId) :
    d.assumption? id = (d.core? id).bind kindAssumption? := by
  rw [assumption?, line?_eq_core]
  rcases d.core? id with _ | (⟨_, _ | _ | _ | _, _⟩ | _ | _ | _) <;> rfl

/-- A planned box holds no boxes and no lines that follow by a rule. -/
theorem plannedKinds_mem {plan : BoxPlan} {kind : ItemKind} (h : kind ∈ plannedKinds plan) :
    (∃ name, kind = .constants [name] 0) ∨ (∃ f ∈ plan.assumption, kind = .line f .assumption 0) ∨
      kind = .empty 0 ∨ kind = .line plan.goal .goal 0 := by
  simp only [plannedKinds, List.mem_append, Option.mem_toList, Option.map_eq_some_iff,
    List.mem_cons, List.not_mem_nil, or_false] at h
  rcases h with (⟨name, -, rfl⟩ | ⟨f, hf, rfl⟩) | h | h
  · exact Or.inl ⟨name, rfl⟩
  · exact Or.inr (Or.inl ⟨f, hf, rfl⟩)
  · exact Or.inr (Or.inr (Or.inl h))
  · exact Or.inr (Or.inr (Or.inr h))

/-- A planned box ends in its goal. -/
theorem getLast?_plannedKinds (plan : BoxPlan) :
    (plannedKinds plan).getLast? = some (.line plan.goal .goal 0) := by
  simp [plannedKinds]

/-- The assumptions of a planned box are those of the plan. -/
theorem filterMap_plannedKinds (plan : BoxPlan) :
    (plannedKinds plan).filterMap kindAssumption? = plan.assumption.toList := by
  unfold plannedKinds
  cases plan.skolem <;> cases plan.assumption <;> rfl

/-- A list of consecutive places read off one by one. -/
theorem filterMap_range'_eq {α : Type} {read : ItemId → Option α} {g : ItemKind → Option α}
    {kinds : List ItemKind} :
    ∀ {n : Nat}, (∀ k, read (n + k) = kinds[k]?.bind g) →
      (List.range' n kinds.length).filterMap read = kinds.filterMap g := by
  induction kinds with
  | nil => intro n _; rfl
  | cons kind kinds ih =>
    intro n hread
    have hhead : read n = g kind := by simpa using hread 0
    have htail : ∀ k, read (n + 1 + k) = kinds[k]?.bind g := by
      intro k
      have := hread (k + 1)
      rwa [List.getElem?_cons_succ, ← Nat.add_assoc, Nat.add_right_comm] at this
    rw [List.length_cons, List.range'_succ, List.filterMap_cons, List.filterMap_cons, hhead,
      ih htail]

/-- The Skolem constants of a planned box. -/
def planSkolems (plan : BoxPlan) : NameSet :=
  match plan.skolem with
  | none => ∅
  | some name => (∅ : NameSet).add name

/-- What may be put before an open line: an empty line, a goal, a line that follows from what the
open line sees, or a planned box whose Skolem constants are new.  The formulas satisfy `P` with the
signature of the document afterwards. -/
inductive NewItem (V : List Meaning → Formula → Prop) (P : Signature → Formula → Prop)
    (d : Document) (sig : Signature) (anchor : ItemId) : ItemKind → List ItemKind → Prop
  | gap : NewItem V P d sig anchor (.empty 0) []
  | goal {f : Formula} (hf : P sig f) : NewItem V P d sig anchor (.line f .goal 0) []
  | derived {f : Formula} {rule : Rule} {cites : List ItemId} (hf : P sig f)
      (hcites : Supported V d anchor f cites) :
      NewItem V P d sig anchor (.line f (.byRule rule cites) 0) []
  | box {plan : BoxPlan} (hfresh : ∀ name ∈ planSkolems plan, name ∉ d.signature.constants)
      (hassumption : ∀ f ∈ plan.assumption, P sig f) (hgoal : P sig plan.goal) :
      NewItem V P d sig anchor
        (.box { adjacent := plan.adjacent, skolems := planSkolems plan }) (plannedKinds plan)

/-- What may be put in may be put in under every weaker condition on formulas. -/
theorem NewItem.mono {V : List Meaning → Formula → Prop} {P Q : Signature → Formula → Prop}
    {sig : Signature} {anchor : ItemId} {kind : ItemKind} {inner : List ItemKind}
    (h : NewItem V P d sig anchor kind inner) (himp : ∀ {sig f}, P sig f → Q sig f) :
    NewItem V Q d sig anchor kind inner := by
  cases h with
  | gap => exact .gap
  | goal hf => exact .goal (himp hf)
  | derived hf hcites => exact .derived (himp hf) hcites
  | box hfresh hassumption hgoal =>
    exact .box hfresh (fun f hf => himp (hassumption f hf)) (himp hgoal)

namespace Grown

variable {V : List Meaning → Formula → Prop} {P : Signature → Formula → Prop} {sig : Signature}
  {xs ys : List ItemId} {anchor : ItemId} {kind : ItemKind} {inner : List ItemKind}

/-- The new item is no assumption. -/
theorem assumption?_new (g : Grown d e box xs anchor ys kind inner)
    (hnew : NewItem V P d sig anchor kind inner) : e.assumption? d.items.size = none := by
  rw [assumption?_eq_core, g.new]
  cases hnew <;> rfl

/-- The new item is no complete box. -/
theorem isClosed_new (g : Grown d e box xs anchor ys kind inner)
    (hnew : NewItem V P d sig anchor kind inner) : e.isClosed d.items.size = false := by
  rw [isClosed_eq_core, g.new]
  cases hnew <;> rfl

/-- What stands inside a new item: constants, an assumption, an empty line or a goal. -/
theorem deeper_cases (g : Grown d e box xs anchor ys kind inner)
    (hnew : NewItem V P d sig anchor kind inner) (hid : d.items.size < id) :
    e.core? id = none ∨ (∃ name, e.core? id = some (.constants [name] 0)) ∨
      (∃ f, P sig f ∧ e.core? id = some (.line f .assumption 0)) ∨ e.core? id = some (.empty 0) ∨
      ∃ f, P sig f ∧ e.core? id = some (.line f .goal 0) := by
  obtain ⟨k, rfl⟩ := Nat.exists_eq_add_of_lt hid
  have hcore := g.deeper k
  rw [Nat.add_right_comm] at hcore
  rw [hcore]
  cases hk : inner[k]? with
  | none => exact Or.inl rfl
  | some kind' =>
    have hmem := List.mem_of_getElem? hk
    cases hnew with
    | box _ hassumption hgoal =>
      rcases plannedKinds_mem hmem with ⟨name, rfl⟩ | ⟨f, hf, rfl⟩ | rfl | rfl
      · exact Or.inr (Or.inl ⟨name, rfl⟩)
      · exact Or.inr (Or.inr (Or.inl ⟨f, hassumption f hf, rfl⟩))
      · exact Or.inr (Or.inr (Or.inr (Or.inl rfl)))
      · exact Or.inr (Or.inr (Or.inr (Or.inr ⟨_, hgoal, rfl⟩)))
    | _ => simp at hmem

/-- What stands inside a new item is neither a box nor a line that is given or follows by a rule. -/
theorem core?_deeper (g : Grown d e box xs anchor ys kind inner)
    (hnew : NewItem V P d sig anchor kind inner) (hid : d.items.size < id) :
    e.isBox id = false ∧ (∀ f rule cites, e.line? id ≠ some (f, .byRule rule cites)) ∧
      ∀ f, e.line? id ≠ some (f, .given) := by
  rw [isBox_eq_core, line?_eq_core]
  rcases g.deeper_cases hnew hid with hcore | ⟨_, hcore⟩ | ⟨_, -, hcore⟩ | hcore | ⟨_, -, hcore⟩
  all_goals simp [hcore]

/-- A formula of the grown document was there before, or it is new and satisfies `P`. -/
theorem formula?_cases (g : Grown d e box xs anchor ys kind inner)
    (hnew : NewItem V P d sig anchor kind inner) {f : Formula} (hf : e.formula? id = some f) :
    d.formula? id = some f ∨ P sig f := by
  rcases Nat.lt_trichotomy id d.items.size with hlt | rfl | hgt
  · exact Or.inl (g.formula?_eq hlt ▸ hf)
  · right
    rw [formula?, line?_eq_core, g.new] at hf
    cases hnew with
    | gap => simp [ItemKind.core] at hf
    | goal hg =>
      obtain rfl : _ = f := by simpa [ItemKind.core] using hf
      exact hg
    | derived hg _ =>
      obtain rfl : _ = f := by simpa [ItemKind.core] using hf
      exact hg
    | box _ _ _ => simp [ItemKind.core] at hf
  · right
    rw [formula?, line?_eq_core] at hf
    rcases g.deeper_cases hnew hgt with
      hcore | ⟨_, hcore⟩ | ⟨g, hg, hcore⟩ | hcore | ⟨g, hg, hcore⟩
    all_goals simp [hcore] at hf
    · exact hf ▸ hg
    · exact hf ▸ hg

/-- The meaning of a new box is the plan it was built after. -/
theorem meaning?_box {plan : BoxPlan}
    (g : Grown d e box xs anchor ys
      (.box { adjacent := plan.adjacent, skolems := planSkolems plan }) (plannedKinds plan)) :
    e.meaning? d.items.size =
      some (.box (planSkolems plan) plan.assumption.toList plan.goal) := by
  have hbox : e.isBox d.items.size = true := by rw [isBox_eq_core, g.new]; rfl
  have hskolems : e.skolemsOf d.items.size = planSkolems plan := by
    rw [skolemsOf_eq_core, g.new]; rfl
  have hassume : e.assumptionsIn d.items.size = plan.assumption.toList := by
    rw [assumptionsIn, g.inside, ← filterMap_plannedKinds]
    refine filterMap_range'_eq fun k => ?_
    rw [assumption?_eq_core, g.deeper]
    rcases (plannedKinds plan)[k]? with _ | (⟨_, _ | _ | _ | _, _⟩ | _ | _ | _) <;> rfl
  have hending : e.ending? d.items.size = some plan.goal := by
    have hlast := getLast?_plannedKinds plan
    rw [List.getLast?_eq_getElem?] at hlast
    obtain ⟨n, hn⟩ : ∃ n, (plannedKinds plan).length = n + 1 :=
      Nat.exists_eq_succ_of_ne_zero (by simp [plannedKinds])
    rw [hn, Nat.add_sub_cancel] at hlast
    have hlastChild : e.lastChild? d.items.size = some (d.items.size + 1 + n) := by
      rw [lastChild?, g.inside, hn, List.range'_concat]
      simp
    rw [ending?, hlastChild, Option.bind_some, formula?, line?_eq_core, g.deeper, hlast]
    rfl
  rw [meaning?, if_pos hbox, hskolems, hassume, hending]
  rfl

/-- A coherent document with a new item before an open line is coherent. -/
theorem coherent (g : Grown d e box xs anchor ys kind inner) (h : Coherent V d)
    (hopen : d.isOpen anchor = true) (hnew : NewItem V P d sig anchor kind inner) :
    Coherent V e := by
  have hd := h.linked
  have hmeaning : ∀ {j}, j < d.items.size → e.meaning? j = d.meaning? j :=
    fun hlt => g.meaning?_eq hd (g.assumption?_new hnew) hlt
  have hlt : ∀ {cites : List ItemId} {ms : List Meaning}, cites.map d.meaning? = ms.map some →
      ∀ c ∈ cites, c < d.items.size := by
    intro cites ms hms c hc
    have hsome : d.meaning? c ∈ ms.map some := hms ▸ List.mem_map_of_mem hc
    obtain ⟨m, -, hm⟩ := List.mem_map.1 hsome
    exact lt_size_of_meaning? hm.symm
  have hmeanings : ∀ {cites : List ItemId} {ms : List Meaning},
      cites.map d.meaning? = ms.map some → cites.map e.meaning? = ms.map some := by
    intro cites ms hms
    rw [← hms]
    exact List.map_congr_left fun c hc => hmeaning (hlt hms c hc)
  -- an item is old, the new one, or inside the new one
  refine ⟨g.linked, g.rooted hd h.rooted, ?_, ?_, ?_⟩
  · intro b hb hlinked
    rcases Nat.lt_trichotomy b d.items.size with hlt | rfl | hgt
    · rw [isBox_congr (g.old hlt)] at hb
      obtain ⟨f, hf⟩ := h.ends hb ((g.isLinked_iff hd hlt).1 hlinked)
      have hm := hmeaning hlt
      rw [meaning?, meaning?, isBox_congr (g.old hlt), if_pos hb, if_pos hb, hf] at hm
      obtain ⟨f', hf', -⟩ := Option.map_eq_some_iff.1 hm
      exact ⟨f', hf'⟩
    · cases hnew with
      | box =>
        have hm := g.meaning?_box
        rw [meaning?, if_pos hb] at hm
        obtain ⟨f, hf, -⟩ := Option.map_eq_some_iff.1 hm
        exact ⟨f, hf⟩
      | _ => rw [isBox_eq_core, g.new] at hb; exact absurd hb (by simp [ItemKind.core])
    · rw [(g.core?_deeper hnew hgt).1] at hb
      exact absurd hb (by decide)
  · intro id f rule cites hlinked hline
    rcases Nat.lt_trichotomy id d.items.size with hlt' | rfl | hgt
    · rw [line?_congr (g.old hlt')] at hline
      obtain ⟨hcites, ms, hms, hV⟩ := h.supported ((g.isLinked_iff hd hlt').1 hlinked) hline
      exact ⟨fun c hc => g.citable hd (hlt hms c hc) (hcites c hc), ms, hmeanings hms, hV⟩
    · rw [line?_eq_core, g.new] at hline
      cases hnew with
      | derived _ hcites =>
        obtain ⟨rfl, rfl, rfl⟩ : _ = f ∧ _ = rule ∧ _ = cites := by
          simpa [ItemKind.core] using hline
        obtain ⟨hcites, ms, hms, hV⟩ := hcites
        exact ⟨fun c hc => g.citable_new hd (hlt hms c hc) (hcites c hc), ms, hmeanings hms, hV⟩
      | _ => simp [ItemKind.core] at hline
    · exact absurd hline ((g.core?_deeper hnew hgt).2.1 f rule cites)
  · intro b id hclosed hmem
    rcases Nat.lt_trichotomy b d.items.size with hlt | rfl | hgt
    · rw [isClosed_congr (g.old hlt)] at hclosed
      -- a complete box has no open lines, so nothing was put into it
      have hb : b ≠ box := by
        rintro rfl
        rw [(h.closed hclosed g.anchor_mem).1] at hopen
        exact absurd hopen (by decide)
      rw [g.elsewhere b hb (Nat.ne_of_lt hlt)] at hmem
      have hid := g.old (hd.linkedBy.lt_size hmem)
      rw [isOpen_congr hid, isBox_congr hid, isClosed_congr hid]
      exact h.closed hclosed hmem
    · rw [g.isClosed_new hnew] at hclosed
      exact absurd hclosed (by decide)
    · have hbox := g.linked.linkedBy.isBox_of_mem hmem
      rw [(g.core?_deeper hnew hgt).1] at hbox
      exact absurd hbox (by decide)

end Grown

end NaturalDeduction.Document
