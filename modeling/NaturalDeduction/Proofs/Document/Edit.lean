import NaturalDeduction.Proofs.Document.Growth

/-!
# Edits of a document

All that rules and the completion of boxes do to a document is a sequence of a few kinds of edits.
`Edit` lists them with the conditions under which they are made, so that a property of documents is
kept by every operation as soon as it is kept by each kind of edit.

Some such properties are settled here: edits keep a document coherent, they keep the meaning of its
items, and they keep its boxes.
-/

set_option autoImplicit false

namespace NaturalDeduction.Document

variable {d e : Document} {id box : ItemId} {V : List Meaning → Formula → Prop}
  {P : Signature → Formula → Prop}

/-- One change of a document.  New lines follow from what they cite by the relation `V`, and new
formulas satisfy `P` with the signature after the change. -/
inductive Edit (V : List Meaning → Formula → Prop) (P : Signature → Formula → Prop)
    (d e : Document) : Prop
  | insert {box anchor : ItemId} {xs ys : List ItemId} {kind : ItemKind} {inner : List ItemKind}
      (grown : Grown d e box xs anchor ys kind inner) (hopen : d.isOpen anchor = true)
      (new : NewItem V P d e.signature anchor kind inner)
      (hsig : ∀ name ∈ d.signature.constants, name ∈ e.signature.constants)
  | justify {id : ItemId} {f : Formula} {rule : Rule} {cites : List ItemId}
      (rejustified : Rejustified d e id f rule cites) (hcites : Supported V d id f cites)
      (hsig : e.signature = d.signature)
  | mark {box : ItemId} (marked : Marked d e box) (hsig : e.signature = d.signature)
  | dropGap {box id : ItemId} {xs ys : List ItemId} (dropped : DroppedGap d e box xs id ys)
      (hsig : e.signature = d.signature)
  | dropGoal {box x goal : ItemId} {us ys : List ItemId}
      (dropped : DroppedGoal d e box us x goal ys) (hsig : e.signature = d.signature)
  /-- Only line numbers change, and names become known. -/
  | relabel (linked : e.WellLinked) (children : e.children = d.children)
      (core : ∀ j, e.core? j = d.core? j)
      (hsig : ∀ name ∈ d.signature.constants, name ∈ e.signature.constants)

/-- Only boxes are complete. -/
theorem isBox_of_isClosed (h : d.isClosed id = true) : d.isBox id = true := by
  rw [isClosed_eq_core] at h
  rw [isBox_eq_core]
  rcases hcore : d.core? id with _ | (_ | _ | _ | _)
  all_goals simp [hcore] at h ⊢

namespace Edit

/-- An edit keeps a document coherent. -/
theorem coherent (h : Edit V P d e) (hd : Coherent V d) : Coherent V e := by
  cases h with
  | insert grown hopen new _ => exact grown.coherent hd hopen new
  | justify rejustified hcites _ => exact rejustified.coherent hd hcites
  | mark marked _ => exact marked.coherent hd
  | dropGap dropped _ => exact dropped.coherent hd
  | dropGoal dropped _ => exact dropped.coherent hd
  | relabel linked children core _ =>
    refine (SameShape.of_core linked children core).coherent hd
      (fun hlinked hline => hd.supported hlinked (by rwa [← line?_congr (core _)]))
      (fun {b j} hb hmem => ?_)
    rw [isClosed_congr (core b)] at hb
    rw [isOpen_congr (core j), isClosed_congr (core j)]
    exact hd.closed hb hmem

/-- An edit is one for every weaker condition on formulas. -/
theorem mono {Q : Signature → Formula → Prop} (h : Edit V P d e)
    (himp : ∀ {sig f}, P sig f → Q sig f) : Edit V Q d e := by
  cases h with
  | insert grown hopen new hsig => exact .insert grown hopen (new.mono himp) hsig
  | justify rejustified hcites hsig => exact .justify rejustified hcites hsig
  | mark marked hsig => exact .mark marked hsig
  | dropGap dropped hsig => exact .dropGap dropped hsig
  | dropGoal dropped hsig => exact .dropGoal dropped hsig
  | relabel linked children core hsig => exact .relabel linked children core hsig

/-- An edit leaves all items their meaning. -/
theorem meaning?_eq (h : Edit V P d e) (hd : Coherent V d) {m : Meaning}
    (hm : d.meaning? id = some m) : e.meaning? id = some m := by
  rw [← hm]
  cases h with
  | insert grown _ new _ =>
    exact grown.meaning?_eq hd.linked (grown.assumption?_new new) (lt_size_of_meaning? hm)
  | justify rejustified _ _ => exact rejustified.sameShape.meaning?_eq id
  | mark marked _ => exact marked.sameShape.meaning?_eq id
  | dropGap dropped _ => exact (dropped.trimmed hd).meaning?_eq id
  | dropGoal dropped _ => exact dropped.trimmed.meaning?_eq id
  | relabel linked children core _ => exact (SameShape.of_core linked children core).meaning?_eq id

/-- An edit takes no box out of the box around it. -/
theorem mem_children_of_isBox (h : Edit V P d e) (hd : Coherent V d) (hbox : d.isBox id = true)
    (hmem : id ∈ d.children box) : id ∈ e.children box := by
  cases h with
  | insert grown _ _ _ => exact (grown.children_sublist hd.linked box).subset hmem
  | justify rejustified _ _ => exact rejustified.children ▸ hmem
  | mark marked _ => exact marked.children ▸ hmem
  | dropGap dropped _ =>
    have htrimmed := dropped.trimmed hd
    exact (htrimmed.mem_children_iff hd.linked).2 ⟨hmem, htrimmed.ne_of_isBox hbox⟩
  | dropGoal dropped _ =>
    exact (dropped.trimmed.mem_children_iff hd.linked).2 ⟨hmem, dropped.trimmed.ne_of_isBox hbox⟩
  | relabel _ children _ _ => exact children ▸ hmem

/-- An edit takes no box out of the document. -/
theorem isLinked_of_isBox (h : Edit V P d e) (hd : Coherent V d) (hbox : d.isBox id = true)
    (hlinked : d.isLinked id = true) : e.isLinked id = true := by
  rcases isLinked_iff.1 hlinked with rfl | ⟨box, hparent⟩
  · exact isLinked_iff.2 (Or.inl rfl)
  · have hmem := h.mem_children_of_isBox hd hbox (hd.linked.mem_children_iff.2 hparent)
    exact (h.coherent hd).linked.isLinked_of_mem hmem

/-- An edit forgets no constant. -/
theorem signature_mono (h : Edit V P d e) {name : String} (hname : name ∈ d.signature.constants) :
    name ∈ e.signature.constants := by
  cases h with
  | insert _ _ _ hsig | relabel _ _ _ hsig => exact hsig name hname
  | justify _ _ hsig | mark _ hsig | dropGap _ hsig | dropGoal _ hsig => exact hsig ▸ hname

/-- A formula was there before an edit, or it satisfies `P`. -/
theorem formula?_cases (h : Edit V P d e) {f : Formula} (hf : e.formula? id = some f) :
    d.formula? id = some f ∨ P e.signature f := by
  cases h with
  | insert grown _ new _ => exact grown.formula?_cases new hf
  | justify rejustified _ _ => exact Or.inl (rejustified.sameShape.formula id ▸ hf)
  | mark marked _ => exact Or.inl (marked.sameShape.formula id ▸ hf)
  | dropGap dropped _ => exact Or.inl (formula?_congr (dropped.core id) ▸ hf)
  | dropGoal dropped _ => exact Or.inl (dropped.trimmed.formula id ▸ hf)
  | relabel _ _ core _ => exact Or.inl (formula?_congr (core id) ▸ hf)

end Edit

/-- Several edits one after the other. -/
abbrev Edits (V : List Meaning → Formula → Prop) (P : Signature → Formula → Prop) :
    Document → Document → Prop :=
  Relation.ReflTransGen (Edit V P)

/-- Edits that bring no formula into the document and leave its names as they are. -/
structure Tidies (V : List Meaning → Formula → Prop) (d e : Document) : Prop where
  edits : Edits V (fun _ _ => False) d e
  signature : e.signature = d.signature

namespace Edits

/-- Edits keep a document coherent. -/
theorem coherent (h : Edits V P d e) (hd : Coherent V d) : Coherent V e := by
  induction h with
  | refl => exact hd
  | tail _ hstep ih => exact hstep.coherent ih

/-- What stands for something stands for it after edits. -/
theorem meaning?_eq (h : Edits V P d e) (hd : Coherent V d) {m : Meaning}
    (hm : d.meaning? id = some m) : e.meaning? id = some m := by
  induction h with
  | refl => exact hm
  | tail hsteps hstep ih => exact hstep.meaning?_eq (coherent hsteps hd) ih

/-- Edits are edits for every weaker condition on formulas. -/
theorem mono {Q : Signature → Formula → Prop} (h : Edits V P d e)
    (himp : ∀ {sig f}, P sig f → Q sig f) : Edits V Q d e := by
  induction h with
  | refl => exact .refl
  | tail _ hstep ih => exact .tail ih (hstep.mono himp)

/-- If all formulas of a document satisfy `P`, so they do after edits. -/
theorem formulas (h : Edits V P d e)
    (hmono : ∀ {sig sig' : Signature} {f : Formula},
      (∀ name ∈ sig.constants, name ∈ sig'.constants) → P sig f → P sig' f)
    (hd : ∀ {id f}, d.formula? id = some f → P d.signature f) :
    ∀ {id f}, e.formula? id = some f → P e.signature f := by
  induction h with
  | refl => exact hd
  | tail _ hstep ih =>
    intro id f hf
    rcases hstep.formula?_cases hf with hold | hnew
    · exact hmono (fun name hname => hstep.signature_mono hname) (ih hold)
    · exact hnew

end Edits

namespace Tidies

/-- Doing nothing is tidying. -/
theorem refl (d : Document) : Tidies V d d := ⟨.refl, rfl⟩

/-- An edit without new formulas and names is tidying. -/
theorem single (h : Edit V (fun _ _ => False) d e) (hsig : e.signature = d.signature) :
    Tidies V d e :=
  ⟨.single h, hsig⟩

/-- Tidying can go on. -/
theorem trans {f : Document} (hde : Tidies V d e) (hef : Tidies V e f) : Tidies V d f :=
  ⟨hde.edits.trans hef.edits, hef.signature.trans hde.signature⟩

/-- Tidying keeps a document coherent. -/
theorem coherent (h : Tidies V d e) (hd : Coherent V d) : Coherent V e :=
  Edits.coherent h.edits hd

/-- Tidying is a kind of editing, whatever is asked of new formulas. -/
theorem editsOf (h : Tidies V d e) : Edits V P d e :=
  Edits.mono h.edits False.elim

end Tidies

end NaturalDeduction.Document
