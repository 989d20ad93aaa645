import NaturalDeduction.Proofs.Inference.Run
import NaturalDeduction.Proofs.Reading.Recording

/-!
# What rules record

Rules work with the labels they are given: whatever is true of the labels of the cited lines, of the
goal and of the answer is true of the labels of all that a rule writes down, up to the Skolem constant
of a new box.  The signature is written by one function alone, the one that introduces this constant;
so a rule loses nothing that is recorded, and leaves the numbers of arguments as they were.
-/

set_option autoImplicit false

namespace NaturalDeduction

/-! ### Formulas with given labels -/

/-- The formulas and terms whose labels satisfy `p`. -/
def Vocabulary.labelled (p : Label → Prop) (skolem : String) : Vocabulary where
  formula f := ∀ l ∈ f.labels, p l
  term t := ∀ l ∈ t.labels, p l
  extended f := ∀ l ∈ f.labels, l = .const skolem ∨ p l
  skolem := skolem
  extend h l hl := Or.inr (h l hl)
  top := by simp [Formula.labels]
  bottom := by simp [Formula.labels]
  neg := Iff.rfl
  binary := List.forall_mem_append
  eq := List.forall_mem_append
  generic h l hl := by
    rcases Formula.mem_labels_subst hl with hl | ⟨x, t, hx, hl⟩
    · exact Or.inr (h l (List.mem_cons_of_mem _ hl))
    · unfold Substitution.set at hx
      split at hx
      · obtain rfl := Option.some.inj hx
        exact Or.inl (List.mem_singleton.1 hl)
      · simp [Substitution.none] at hx
  instantiate hf hts h l hl := by
    rcases Formula.mem_labels_of_instantiate? h hl with hl | ⟨t, ht, hl⟩
    · exact hf l hl
    · exact hts t ht l hl
  replace _ hb hf l hl := (Formula.mem_labels_replace hl).elim (hf l) (hb l)

namespace Document

variable {d e : Document} {id target : ItemId}

/-! ### Functions that leave the signature -/

/-- Changing a box brings no names. -/
theorem updateBox_signature {g : BoxData → BoxData} (h : d.updateBox id g = .ok e) :
    e.signature = d.signature := by
  obtain ⟨item, -, h⟩ := bind_eq_ok.1 h
  split at h
  · obtain rfl := Except.ok.inj h
    rfl
  · simp [throw, throwThe, MonadExceptOf.throw] at h

/-- Justifying a line brings no names. -/
theorem setJust_signature {just : Justification} (h : d.setJust id just = .ok e) :
    e.signature = d.signature := by
  obtain ⟨item, -, h⟩ := bind_eq_ok.1 h
  split at h
  · obtain rfl := Except.ok.inj h
    rfl
  · simp [throw, throwThe, MonadExceptOf.throw] at h

/-- Linking an item before another brings no names. -/
theorem linkBefore_signature {anchor : ItemId} (h : d.linkBefore anchor id = .ok e) :
    e.signature = d.signature := by
  obtain ⟨item, -, h⟩ := bind_eq_ok.1 h
  split at h
  · simp [throw, throwThe, MonadExceptOf.throw, bind, Except.bind] at h
  · obtain ⟨place, -, h⟩ := bind_eq_ok.1 h
    split at h
    · simp [throw, throwThe, MonadExceptOf.throw] at h
    · dsimp only at h
      split at h
      · obtain rfl := Except.ok.inj h
        rfl
      · exact (updateBox_signature h).trans rfl

/-- Linking an item after another brings no names. -/
theorem linkAfter_signature {anchor : ItemId} (h : d.linkAfter anchor id = .ok e) :
    e.signature = d.signature := by
  obtain ⟨item, -, h⟩ := bind_eq_ok.1 h
  split at h
  · simp [throw, throwThe, MonadExceptOf.throw, bind, Except.bind] at h
  · obtain ⟨place, -, h⟩ := bind_eq_ok.1 h
    split at h
    · simp [throw, throwThe, MonadExceptOf.throw] at h
    · dsimp only at h
      split at h <;>
      · obtain rfl := Except.ok.inj h
        rfl

/-- Putting an item before another brings no names. -/
theorem prepend_signature {kind : ItemKind} (h : d.prepend target kind = .ok (id, e)) :
    e.signature = d.signature := by
  obtain ⟨mid, hlink, h⟩ := bind_eq_ok.1 h
  obtain ⟨-, rfl⟩ := Prod.mk.inj (Except.ok.inj h)
  exact (linkBefore_signature hlink).trans rfl

/-- Putting an item at the end of a box brings no names. -/
theorem pushChild_signature {box : ItemId} {kind : ItemKind}
    (h : d.pushChild box kind = .ok (id, e)) : e.signature = d.signature := by
  obtain ⟨item, -, h⟩ := bind_eq_ok.1 h
  split at h
  · obtain ⟨mid, hlink, h⟩ := bind_eq_ok.1 h
    obtain ⟨-, rfl⟩ := Prod.mk.inj (Except.ok.inj h)
    exact (linkAfter_signature hlink).trans rfl
  · obtain ⟨mid, hhead, h⟩ := bind_eq_ok.1 h
    obtain ⟨-, rfl⟩ := Prod.mk.inj (Except.ok.inj h)
    exact (updateBox_signature hhead).trans rfl

/-- Putting items at the end of a box brings no names. -/
theorem pushChildren_signature {box : ItemId} {kinds : List ItemKind}
    (h : d.pushChildren box kinds = .ok e) : e.signature = d.signature := by
  induction kinds generalizing d with
  | nil =>
    obtain rfl := Except.ok.inj h
    rfl
  | cons kind kinds ih =>
    obtain ⟨⟨id, mid⟩, hpush, h⟩ := bind_eq_ok.1 h
    exact (ih h).trans (pushChild_signature hpush)

/-- Deleting an item brings no names. -/
theorem delete_signature (h : d.delete id = .ok e) : e.signature = d.signature := by
  obtain ⟨item, -, h⟩ := bind_eq_ok.1 h
  split at h
  · simp [throw, throwThe, MonadExceptOf.throw] at h
  · dsimp only at h
    split at h
    · obtain ⟨mid, hmid, h⟩ := bind_eq_ok.1 h
      obtain rfl := Except.ok.inj hmid
      obtain rfl := Except.ok.inj h
      cases item.next <;> rfl
    · obtain ⟨mid, hmid, h⟩ := bind_eq_ok.1 h
      obtain rfl := Except.ok.inj h
      have hsig := updateBox_signature hmid
      cases item.next <;> exact hsig

/-- Dropping an empty line brings no names. -/
theorem dropGap_signature {before : Option ItemId} (h : d.dropGap target before = .ok e) :
    e.signature = d.signature := by
  unfold dropGap at h
  have hsame : (Except.ok d : Except Fault Document) = .ok e → e.signature = d.signature :=
    fun h => Except.ok.inj h ▸ rfl
  split at h
  · exact hsame h
  · split at h
    · split at h
      · simp at h
      · split at h
        · exact delete_signature h
        · exact hsame h
    · exact hsame h

/-! ### Functions that introduce Skolem constants -/

/-- Only Skolem constants have become known: nothing that is recorded is lost, and no numbers of
arguments are added. -/
structure Renamed (d e : Document) : Prop where
  grows : d.signature.Extends e.signature
  arity : e.signature.arity? = d.signature.arity?

namespace Renamed

/-- Where the names are the same, nothing has become known. -/
theorem of_eq (h : e.signature = d.signature) : Renamed d e :=
  ⟨h ▸ .refl _, by rw [h]⟩

/-- Skolem constants can become known one after the other. -/
theorem trans {mid : Document} (h : Renamed d mid) (h' : Renamed mid e) : Renamed d e :=
  ⟨h.grows.trans h'.grows, h'.arity.trans h.arity⟩

end Renamed

/-- Introducing a Skolem constant makes it known and nothing else. -/
theorem introduceSkolem_renamed {skolem : Option String} {names : NameSet}
    (h : d.introduceSkolem skolem = .ok (names, e)) : Renamed d e := by
  cases skolem with
  | none =>
    obtain ⟨-, rfl⟩ := Prod.mk.inj (Except.ok.inj h)
    exact .of_eq rfl
  | some name =>
    simp only [introduceSkolem] at h
    split at h
    · obtain ⟨-, rfl⟩ := Prod.mk.inj (Except.ok.inj h)
      refine ⟨d.signature.extends_freshSkolem, funext fun kind => ?_⟩
      cases kind <;> rfl
    · simp at h

/-- Placing a premise makes at most its Skolem constant known. -/
theorem placePremise_renamed {premise : Premise}
    (h : d.placePremise target premise = .ok (id, e)) : Renamed d e := by
  cases premise with
  | cite id =>
    obtain ⟨-, rfl⟩ := Prod.mk.inj (Except.ok.inj h)
    exact .of_eq rfl
  | goal f =>
    obtain ⟨⟨gap, mid⟩, hgap, h⟩ := bind_eq_ok.1 h
    exact .of_eq ((prepend_signature h).trans (prepend_signature hgap))
  | box plan =>
    obtain ⟨⟨names, mid⟩, hskolem, h⟩ := bind_eq_ok.1 h
    obtain ⟨⟨box, mid'⟩, hbox, h⟩ := bind_eq_ok.1 h
    obtain ⟨last, hpush, h⟩ := bind_eq_ok.1 h
    obtain ⟨-, rfl⟩ := Prod.mk.inj (Except.ok.inj h)
    exact (introduceSkolem_renamed hskolem).trans
      (.of_eq ((pushChildren_signature hpush).trans (prepend_signature hbox)))

/-- Placing premises makes at most their Skolem constants known. -/
theorem placePremises_renamed {premises : List Premise} {cites : List ItemId}
    (h : d.placePremises target premises = .ok (cites, e)) : Renamed d e := by
  induction premises generalizing d cites with
  | nil =>
    obtain ⟨-, rfl⟩ := Prod.mk.inj (Except.ok.inj h)
    exact .of_eq rfl
  | cons premise premises ih =>
    obtain ⟨⟨cite, mid⟩, hfirst, h⟩ := bind_eq_ok.1 h
    obtain ⟨⟨rest, last⟩, hrest, h⟩ := bind_eq_ok.1 h
    obtain ⟨-, rfl⟩ := Prod.mk.inj (Except.ok.inj h)
    exact (placePremise_renamed hfirst).trans (ih hrest)

/-- A step makes at most Skolem constants known. -/
theorem splice_renamed {rule : Rule} {step : Step} (h : d.splice rule target step = .ok e) :
    Renamed d e := by
  obtain ⟨item, -, h⟩ := bind_eq_ok.1 h
  obtain ⟨⟨cites, mid⟩, hplace, h⟩ := bind_eq_ok.1 h
  refine (placePremises_renamed hplace).trans (.of_eq ?_)
  cases step with
  | derive f premises =>
    obtain ⟨⟨line, last⟩, hline, h⟩ := bind_eq_ok.1 h
    obtain rfl := Except.ok.inj h
    exact prepend_signature hline
  | justify premises =>
    obtain ⟨last, hjust, h⟩ := bind_eq_ok.1 h
    exact (dropGap_signature h).trans (setJust_signature hjust)

/-- A rule that runs on a good selection introduces Skolem constants and records nothing else. -/
theorem Coherent.run_renamed (h : Coherent (fun _ _ => True) d) {selection : Selection}
    (hsel : d.Selects selection) {input : Option Input} {settings : Settings} {rule : Rule}
    {outcome : Outcome} (hrun : d.run settings rule selection input = .ok (outcome, e)) :
    Renamed d e := by
  have hoffers : Offers (.all d.signature.nextSkolem) d selection input :=
    ⟨fun _ _ => trivial, fun i _ => by cases i <;> simp [Input.Speaks, Vocabulary.all]⟩
  obtain ⟨request, -, rfl⟩ | ⟨-, s, step, cites, mid, spliced, -, -, hsplice, hspliced, hsettle⟩ :=
    h.run_spliced (Vocabulary.all_fits d) (fun _ => trivial) hsel hoffers hrun
  · exact .of_eq rfl
  · obtain ⟨settled, hok, htidies, -⟩ :=
      (hspliced.coherent h).settle_tidies (fun _ => trivial) settings
    obtain rfl := Except.ok.inj (hok.symm.trans hsettle)
    exact (splice_renamed hsplice).trans (.of_eq htidies.signature)

end Document
end NaturalDeduction
