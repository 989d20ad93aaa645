import NaturalDeduction.Proofs.Document.Hypotheses
import NaturalDeduction.Proofs.Document.Splice

/-!
# The boxes of Skolem constants

Every Skolem constant of a document belongs to one box (`Owned`), and a document is `Confined` if its
lines mention a Skolem constant only inside that box.

Nothing but a new box brings a Skolem constant, so a constant keeps its box.  Where items are put
before an open line, the document stays confined if they mention only what is `Seen` at that line;
inside a new box this is so of its own constant as well (`Inserts.confined`).
-/

set_option autoImplicit false

namespace NaturalDeduction.Document

variable {d e : Document} {id box target : ItemId} {xs ys : List ItemId} {kind : ItemKind}
  {inner : List ItemKind} {items : List (ItemKind × List ItemKind)} {f : Formula} {c : String}
  {V : List Meaning → Formula → Prop} {P : Signature → Formula → Prop} {sig : Signature}

/-- A line with a formula is an item. -/
theorem lt_size_of_formula? (h : d.formula? id = some f) : id < d.items.size := by
  obtain ⟨line, hline, -⟩ := Option.map_eq_some_iff.1 h
  exact lt_size_of_meaning? (meaning?_of_line hline)

/-- Skolem constants belong to boxes. -/
theorem isBox_of_mem_skolemsOf (h : c ∈ d.skolemsOf box) : d.isBox box = true := by
  rw [skolemsOf_eq_core] at h
  rw [isBox_eq_core]
  rcases hcore : d.core? box with _ | (_ | _ | _ | _)
  all_goals simp only [hcore] at h ⊢
  all_goals exact absurd h (NameSet.not_mem_empty c)

/-! ### Boxes around an item -/

/-- An item stands in every box in which an item beside it stands. -/
theorem WellLinked.within_of_beside (hd : d.WellLinked) {other outer : ItemId}
    (hid : id ∈ d.children box) (hother : other ∈ d.children box) (h : d.Within other outer) :
    d.Within id outer := by
  obtain ⟨b, hstep, hup⟩ := Relation.TransGen.head'_iff.1 h
  obtain rfl : b = box := hd.linkedBy.box_unique (hd.standsIn_iff.1 hstep) hother
  exact Relation.TransGen.head' (hd.standsIn_iff.2 hid) hup

/-- An item stands in every box in which an item that it sees stands. -/
theorem Visible.within (hd : d.WellLinked) {seen outer : ItemId} (h : d.Visible seen id)
    (hin : d.Within seen outer) : d.Within id outer := by
  induction h with
  | beside h =>
    exact hd.within_of_beside (h.subset (List.mem_cons_of_mem _ List.mem_cons_self))
      (h.subset List.mem_cons_self) hin
  | around hmem _ ih => exact ih.head (hd.standsIn_iff.2 hmem)

/-- An item stays in the boxes that it stood in. -/
theorem Grown.within (g : Grown d e box xs target ys kind inner) (hd : d.WellLinked)
    {outer : ItemId} (h : d.Within id outer) : e.Within id outer := by
  refine Relation.TransGen.mono (fun a b hab => ?_) _ _ h
  exact g.linked.standsIn_iff.2 ((g.children_sublist hd b).subset (hd.standsIn_iff.1 hab))

namespace Edit

/-- An item that is still there stands in all the boxes in which it stood. -/
theorem within_of_isLinked (h : Edit V P d e) (hd : Coherent V d) (hlt : id < d.items.size)
    (hlinked : e.isLinked id = true) {outer : ItemId} (hin : d.Within id outer) :
    e.Within id outer := by
  have he := (h.coherent hd).linked
  obtain ⟨box, hstep, hup⟩ := Relation.TransGen.head'_iff.1 hin
  have hmem := hd.linked.standsIn_iff.1 hstep
  have hfirst : e.StandsIn id box := by
    rcases isLinked_iff.1 hlinked with rfl | ⟨box', hparent⟩
    · exact absurd rfl (hd.linked.ne_root_of_mem hmem)
    · have hmem' := h.mem_children_of_lt hd hlt (he.mem_children_iff.2 hparent)
      obtain rfl := hd.linked.linkedBy.box_unique hmem hmem'
      exact he.standsIn_iff.2 (he.mem_children_iff.2 hparent)
  -- from the box around the item upwards there are boxes only, and these are not moved
  refine Relation.TransGen.head' hfirst ?_
  have hbox := hd.linked.linkedBy.isBox_of_mem hmem
  clear hstep hmem hfirst
  induction hup using Relation.ReflTransGen.head_induction_on with
  | refl => exact .refl
  | head hstep _ ih =>
    have hmem := hd.linked.standsIn_iff.1 hstep
    exact .head (he.standsIn_iff.2 (h.mem_children_of_isBox hd hbox hmem))
      (ih (hd.linked.linkedBy.isBox_of_mem hmem))

/-- An edit that brings no formula brings no Skolem constant either. -/
theorem skolemsOf_eq (h : Edit V (fun _ _ => False) d e) (id : ItemId) :
    e.skolemsOf id = d.skolemsOf id := by
  cases h with
  | @insert box anchor xs ys kind inner grown _ new _ =>
    rcases Nat.lt_trichotomy id d.items.size with hlt | rfl | hgt
    · exact skolemsOf_congr (grown.old hlt)
    · rw [skolemsOf_eq_core, skolemsOf_eq_core, grown.new, core?_eq_none (Nat.le_refl _)]
      cases new with
      | gap => rfl
      | goal hf | derived hf _ => exact hf.elim
      | box _ _ hgoal => exact hgoal.elim
    · rw [skolemsOf_eq_core, skolemsOf_eq_core, core?_eq_none (Nat.le_of_lt hgt)]
      rcases grown.deeper_cases new hgt with hcore | ⟨_, hcore⟩ | ⟨_, _, hcore⟩ | hcore | ⟨_, _, hcore⟩
      all_goals rw [hcore]
  | justify rejustified _ _ => exact rejustified.skolemsOf_eq id
  | mark marked _ => exact marked.sameShape.skolems id
  | dropGap dropped _ => exact skolemsOf_congr (dropped.core id)
  | dropGoal dropped _ => exact dropped.trimmed.skolems id
  | relabel _ _ core _ => exact skolemsOf_congr (core id)

end Edit

/-- The box that a Skolem constant belongs to stands around an item. -/
def EnclosedBy (d : Document) (c : String) (id : ItemId) : Prop :=
  ∃ box, c ∈ d.skolemsOf box ∧ d.Within id box

/-- Every Skolem constant is a known constant that belongs to exactly one box, and this box stands in
the document. -/
structure Owned (d : Document) : Prop where
  skolem : ∀ {box c}, c ∈ d.skolemsOf box → c ∈ d.signature.skolems
  known : ∀ {c}, c ∈ d.signature.skolems → c ∈ d.signature.constants
  unique : ∀ {box box' c}, c ∈ d.skolemsOf box → c ∈ d.skolemsOf box' → box = box'
  owner : ∀ {c}, c ∈ d.signature.skolems → ∃ box, d.isLinked box = true ∧ c ∈ d.skolemsOf box

/-- A known constant may be mentioned at an item: if it is a Skolem constant, its box stands around the
item. -/
structure Seen (d : Document) (id : ItemId) (c : String) : Prop where
  known : c ∈ d.signature.constants
  enclosed : c ∈ d.signature.skolems → d.EnclosedBy c id

/-- The lines of the document mention only what is seen there. -/
def Confined (d : Document) : Prop :=
  ∀ ⦃id f c⦄, d.isLinked id = true → d.formula? id = some f → c ∈ f.constants → d.Seen id c

/-! ### New documents and new names -/

/-- At the beginning of a task no Skolem constant belongs to a box. -/
theorem not_mem_skolemsOf_start (givens : List Formula) (goal : Formula) (sig : Signature)
    (box : ItemId) (c : String) : c ∉ (start givens goal sig).skolemsOf box := by
  intro hc
  obtain rfl := (isBox_start givens goal sig).1 (isBox_of_mem_skolemsOf hc)
  obtain ⟨-, hskolems, -, -⟩ := box_of_meaning? (meaning?_start_root givens goal sig)
  rw [hskolems] at hc
  exact NameSet.not_mem_empty c hc

/-- At the beginning of a task there are no Skolem constants to belong to boxes. -/
theorem start_owned (givens : List Formula) (goal : Formula) (hskolems : ∀ c, c ∉ sig.skolems) :
    (start givens goal sig).Owned where
  skolem hc := absurd hc (not_mem_skolemsOf_start givens goal sig _ _)
  known hc := absurd hc (hskolems _)
  unique hc := absurd hc (not_mem_skolemsOf_start givens goal sig _ _)
  owner hc := absurd hc (hskolems _)

section Learn

variable (hskolems : sig.skolems = d.signature.skolems)
  (hmono : ∀ c ∈ d.signature.constants, c ∈ sig.constants)
include hskolems hmono

/-- Reading formulas makes no Skolem constants. -/
theorem Owned.learn (h : d.Owned) : ({ d with signature := sig } : Document).Owned := by
  refine ⟨fun hc => ?_, fun {c} hc => ?_, fun hc hc' => h.unique hc hc', fun {c} hc => ?_⟩
  · exact hskolems ▸ h.skolem hc
  · exact hmono c (h.known (hskolems ▸ hc))
  · exact h.owner (hskolems ▸ hc)

/-- Lines mention what is seen also when more names are known. -/
theorem Confined.learn (h : d.Confined) : ({ d with signature := sig } : Document).Confined := by
  intro id f c hlinked hf hc
  obtain ⟨hknown, henclosed⟩ := h hlinked hf hc
  exact ⟨hmono c hknown, fun hskolem => henclosed (hskolems ▸ hskolem)⟩

end Learn

/-! ### Bringing a document in order -/

section Tidies

variable (h : Edits V (fun _ _ => False) d e)
include h

/-- Boxes keep their Skolem constants. -/
theorem Edits.skolemsOf_eq (id : ItemId) : e.skolemsOf id = d.skolemsOf id := by
  induction h with
  | refl => rfl
  | tail _ hstep ih => rw [hstep.skolemsOf_eq, ih]

/-- A box with Skolem constants stays in the document. -/
theorem Edits.isLinked_of_mem_skolemsOf (hd : Coherent V d) (hc : c ∈ d.skolemsOf box)
    (hlinked : d.isLinked box = true) : e.isLinked box = true := by
  induction h with
  | refl => exact hlinked
  | tail hsteps hstep ih =>
    rw [← Edits.skolemsOf_eq hsteps] at hc
    exact hstep.isLinked_of_isBox (Edits.coherent hsteps hd) (isBox_of_mem_skolemsOf hc) ih

/-- A line that is still there was there before, in the same boxes. -/
theorem Edits.line_kept (hd : Coherent V d) (hf : e.formula? id = some f)
    (hlinked : e.isLinked id = true) :
    d.formula? id = some f ∧ d.isLinked id = true ∧ ∀ box, d.Within id box → e.Within id box := by
  induction h with
  | refl => exact ⟨hf, hlinked, fun _ hin => hin⟩
  | tail hsteps hstep ih =>
    have hmid := Edits.coherent hsteps hd
    have hfmid := (hstep.formula?_cases hf).resolve_right not_false
    have hlt := lt_size_of_formula? hfmid
    obtain ⟨hfd, hlinkedd, hwithin⟩ := ih hfmid (hstep.isLinked_of_lt hmid hlt hlinked)
    exact ⟨hfd, hlinkedd, fun box hin => hstep.within_of_isLinked hmid hlt hlinked (hwithin box hin)⟩

end Tidies

/-- Tidying leaves the Skolem constants with their boxes. -/
theorem Tidies.owned (h : Tidies V d e) (hd : Coherent V d) (howned : d.Owned) : e.Owned := by
  obtain ⟨hedits, hsig⟩ := h
  have hskolems := Edits.skolemsOf_eq hedits
  refine ⟨fun {box c} hc => ?_, fun hc => ?_, fun {b b' c} hc hc' => ?_, fun {c} hc => ?_⟩
  · rw [hsig]
    exact howned.skolem (hskolems box ▸ hc)
  · rw [hsig] at hc ⊢
    exact howned.known hc
  · exact howned.unique (hskolems b ▸ hc) (hskolems b' ▸ hc')
  · rw [hsig] at hc
    obtain ⟨box, hlinked, hbox⟩ := howned.owner hc
    exact ⟨box, Edits.isLinked_of_mem_skolemsOf hedits hd hbox hlinked, hskolems box ▸ hbox⟩

/-- Tidying keeps a document confined. -/
theorem Tidies.confined (h : Tidies V d e) (hd : Coherent V d) (hconfined : d.Confined) :
    e.Confined := by
  obtain ⟨hedits, hsig⟩ := h
  intro id f c hlinked hf hc
  obtain ⟨hfd, hlinkedd, hwithin⟩ := Edits.line_kept hedits hd hf hlinked
  obtain ⟨hknown, henclosed⟩ := hconfined hlinkedd hfd hc
  rw [← hsig] at hknown henclosed
  refine ⟨hknown, fun hskolem => ?_⟩
  obtain ⟨box, hbox, hin⟩ := henclosed hskolem
  exact ⟨box, Edits.skolemsOf_eq hedits box ▸ hbox, hwithin box hin⟩

/-! ### New items -/

namespace Grown

/-- A box keeps its Skolem constants when an item is put in. -/
theorem mem_skolemsOf (g : Grown d e box xs target ys kind inner) (hc : c ∈ d.skolemsOf id) :
    c ∈ e.skolemsOf id := by
  rw [skolemsOf_congr (g.old (lt_size_of_isBox (isBox_of_mem_skolemsOf hc)))]
  exact hc

/-- A Skolem constant belongs to the new box, or it belonged to its box before. -/
theorem skolemsOf_cases (g : Grown d e box xs target ys kind inner)
    (new : NewItem V P d sig target kind inner) (hc : c ∈ e.skolemsOf id) :
    id = d.items.size ∨ c ∈ d.skolemsOf id := by
  rcases Nat.lt_trichotomy id d.items.size with hlt | rfl | hgt
  · exact Or.inr (skolemsOf_congr (g.old hlt) ▸ hc)
  · exact Or.inl rfl
  · have hbox := isBox_of_mem_skolemsOf hc
    rw [(g.core?_deeper new hgt).1] at hbox
    exact absurd hbox (by decide)

/-- With a new item, every Skolem constant still belongs to one box. -/
theorem owned (g : Grown d e box xs target ys kind inner) (hd : d.WellLinked)
    (new : NewItem V P d sig target kind inner) (names : Introduces d e) (h : d.Owned) :
    e.Owned := by
  have hunknown : ∀ {b c}, c ∈ e.skolemsOf d.items.size → c ∉ d.skolemsOf b :=
    fun hc hold => names.unknown _ hc (h.known (h.skolem hold))
  refine ⟨fun {b c} hc => (names.skolems c).2 ?_, fun {c} hc => (names.constants c).2 ?_,
    fun {b b' c} hc hc' => ?_, fun {c} hc => ?_⟩
  · rcases g.skolemsOf_cases new hc with rfl | hold
    · exact Or.inl hc
    · exact Or.inr (h.skolem hold)
  · exact ((names.skolems c).1 hc).imp id h.known
  · rcases g.skolemsOf_cases new hc with rfl | hold <;>
      rcases g.skolemsOf_cases new hc' with rfl | hold'
    · rfl
    · exact absurd hold' (hunknown hc)
    · exact absurd hold (hunknown hc')
    · exact h.unique hold hold'
  · rcases (names.skolems c).1 hc with hnew | hold
    · exact ⟨_, g.linked.isLinked_of_mem g.new_mem, hnew⟩
    · obtain ⟨b, hlinked, hb⟩ := h.owner hold
      have hlt := lt_size_of_isBox (isBox_of_mem_skolemsOf hb)
      exact ⟨b, (g.isLinked_iff hd hlt).2 hlinked, g.mem_skolemsOf hb⟩

/-- The box of a Skolem constant still stands around the items that it stood around. -/
theorem enclosedBy (g : Grown d e box xs target ys kind inner) (hd : d.WellLinked)
    (h : d.EnclosedBy c id) : e.EnclosedBy c id := by
  obtain ⟨b, hb, hin⟩ := h
  exact ⟨b, g.mem_skolemsOf hb, g.within hd hin⟩

/-- What could be mentioned at an item still can. -/
theorem seen (g : Grown d e box xs target ys kind inner) (hd : d.WellLinked)
    (names : Introduces d e) (h : d.Seen id c) : e.Seen id c := by
  refine ⟨names.signature_mono h.known, fun hc => ?_⟩
  rcases (names.skolems c).1 hc with hnew | hold
  · exact absurd h.known (names.unknown c hnew)
  · exact g.enclosedBy hd (h.enclosed hold)

end Grown

/-- The formula of a line of this kind. -/
def kindFormula? : ItemKind → Option Formula
  | .line f _ _ => some f
  | _ => none

/-- The formula of a line depends on its kind only. -/
theorem formula?_eq_core (d : Document) (id : ItemId) :
    d.formula? id = (d.core? id).bind kindFormula? := by
  rw [formula?, line?_eq_core]
  rcases d.core? id with _ | (_ | _ | _ | _) <;> rfl

/-- The formula of a kind does not depend on links and numbers. -/
@[simp] theorem kindFormula?_core (kind : ItemKind) : kindFormula? kind.core = kindFormula? kind := by
  cases kind <;> rfl

/-- A new item mentions only constants that satisfy `p`, except that what stands inside a box may
mention the Skolem constants of the box. -/
structure Mentions (p : String → Prop) (item : ItemKind × List ItemKind) : Prop where
  line : ∀ f ∈ kindFormula? item.1, ∀ c ∈ f.constants, p c
  inside : ∀ kind ∈ item.2, ∀ f ∈ kindFormula? kind, ∀ c ∈ f.constants,
    p c ∨ ∃ data, item.1 = .box data ∧ c ∈ data.skolems

/-- A new item that mentions only some constants mentions only constants of a larger class. -/
theorem Mentions.imp {p q : String → Prop} {item : ItemKind × List ItemKind} (h : Mentions p item)
    (himp : ∀ c, p c → q c) : Mentions q item where
  line f hf c hc := himp c (h.line f hf c hc)
  inside kind hkind f hf c hc := (h.inside kind hkind f hf c hc).imp_left (himp c)

namespace Grown

/-- A confined document stays so if the new item mentions what is seen at the line it is put
before. -/
theorem confined (g : Grown d e box xs target ys kind inner) (hd : d.WellLinked)
    (names : Introduces d e) (hmentions : Mentions (d.Seen target) (kind, inner))
    (h : d.Confined) : e.Confined := by
  -- what is seen at the target is seen at the new item, which stands beside it, and inside it
  have hbeside : ∀ {c}, d.Seen target c → e.Seen d.items.size c := by
    intro c hseen
    obtain ⟨hknown, henclosed⟩ := g.seen hd names hseen
    refine ⟨hknown, fun hc => ?_⟩
    obtain ⟨b, hb, hin⟩ := henclosed hc
    exact ⟨b, hb, g.linked.within_of_beside g.new_mem (by simp [g.here]) hin⟩
  intro id f c hlinked hf hc
  rcases Nat.lt_trichotomy id d.items.size with hlt | rfl | hgt
  · rw [g.formula?_eq hlt] at hf
    exact g.seen hd names (h ((g.isLinked_iff hd hlt).1 hlinked) hf hc)
  · rw [formula?_eq_core, g.new, Option.bind_some, kindFormula?_core] at hf
    exact hbeside (hmentions.line f hf c hc)
  · obtain ⟨k, rfl⟩ := Nat.exists_eq_add_of_lt hgt
    rw [Nat.add_right_comm] at hf ⊢
    rw [formula?_eq_core, g.deeper, Option.bind_map] at hf
    obtain ⟨kind', hk, hf⟩ := Option.bind_eq_some_iff.1 hf
    have hinside : e.StandsIn (d.items.size + 1 + k) d.items.size := by
      rw [g.linked.standsIn_iff, g.inside, List.mem_range'_1]
      have := (List.getElem?_eq_some_iff.1 hk).1
      omega
    have hmem := List.mem_of_getElem? hk
    rcases hmentions.inside kind' hmem f (by simpa using hf) c hc with hseen | ⟨data, hdata, hown⟩
    · obtain ⟨hknown, henclosed⟩ := hbeside hseen
      refine ⟨hknown, fun hc => ?_⟩
      obtain ⟨b, hb, hin⟩ := henclosed hc
      exact ⟨b, hb, hin.head hinside⟩
    · have hskolem : c ∈ e.skolemsOf d.items.size := by
        rw [skolemsOf_eq_core, g.new, show kind = .box data from hdata]
        exact hown
      exact ⟨(names.constants c).2 (Or.inl hskolem), fun _ => ⟨_, hskolem, .single hinside⟩⟩

end Grown

namespace Inserts

/-- Names that were known stay known. -/
theorem signature_mono (h : Inserts V P target d e items) (hc : c ∈ d.signature.constants) :
    c ∈ e.signature.constants := by
  induction h with
  | refl => exact hc
  | tail _ _ _ _ names ih => exact names.signature_mono ih

/-- With new items, every Skolem constant still belongs to one box. -/
theorem owned (h : Inserts V P target d e items) (hd : Coherent V d) (howned : d.Owned) :
    e.Owned := by
  induction h with
  | refl => exact howned
  | tail h grown _ new names ih => exact grown.owned (h.edits.coherent hd).linked new names ih

/-- What could be mentioned at an item still can. -/
theorem seen (h : Inserts V P target d e items) (hd : Coherent V d) (hseen : d.Seen id c) :
    e.Seen id c := by
  induction h with
  | refl => exact hseen
  | tail h grown _ _ names ih => exact grown.seen (h.edits.coherent hd).linked names ih

/-- A Skolem constant that a box gets was not known before. -/
theorem unknown (h : Inserts V P target d e items) (hnew : c ∈ e.skolemsOf box)
    (hold : c ∉ d.skolemsOf box) : c ∉ d.signature.constants := by
  induction h with
  | refl => exact absurd hnew hold
  | @tail mid e items _ _ _ _ _ h grown _ new names ih =>
    rcases grown.skolemsOf_cases new hnew with rfl | hmid
    · exact fun hc => names.unknown c hnew (h.signature_mono hc)
    · exact ih hmid

/-- A confined document stays so if the new items mention what is seen at the line they are put
before. -/
theorem confined (h : Inserts V P target d e items) (hd : Coherent V d)
    (hmentions : ∀ item ∈ items, Mentions (d.Seen target) item) (hconfined : d.Confined) :
    e.Confined := by
  induction h with
  | refl => exact hconfined
  | @tail mid e items _ _ _ _ _ h grown _ _ names ih =>
    have hlast := hmentions _ (List.mem_append_right items List.mem_cons_self)
    have hfirst : mid.Confined := ih fun item hitem => hmentions item (List.mem_append_left _ hitem)
    refine grown.confined (h.edits.coherent hd).linked names ?_ hfirst
    exact hlast.imp fun c => h.seen hd

end Inserts

end NaturalDeduction.Document
