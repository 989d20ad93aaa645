import NaturalDeduction.Proofs.Labels
import NaturalDeduction.Proofs.Reading.Names
import NaturalDeduction.Proofs.Reading.Terms

/-!
# What reading records

Of a text that is read, every name is a name, every constant gets known, and the number of arguments
of every relation and function is recorded; nothing that was known or recorded before is lost, and no
other numbers of arguments are recorded.  So the labels of what is read are `Known` afterwards, and
stay so as long as the signature is only extended.
-/

set_option autoImplicit false

namespace NaturalDeduction

variable {sig sig' : Signature}

/-! ### Signatures that grow -/

/-- Nothing that the first signature holds is lost or changed in the second. -/
structure Signature.Extends (sig sig' : Signature) : Prop where
  constants : ∀ c ∈ sig.constants, c ∈ sig'.constants
  skolems : ∀ c ∈ sig.skolems, c ∈ sig'.skolems
  arity : ∀ kind name count, sig.arity? kind name = some count → sig'.arity? kind name = some count
  skolemNext : sig.skolemNext ≤ sig'.skolemNext

namespace Signature

/-- A signature extends itself. -/
theorem Extends.refl (sig : Signature) : sig.Extends sig :=
  ⟨fun _ hc => hc, fun _ hc => hc, fun _ _ _ h => h, Nat.le_refl _⟩

/-- A signature can be extended further. -/
theorem Extends.trans {mid : Signature} (h : sig.Extends mid) (h' : mid.Extends sig') :
    sig.Extends sig' where
  constants c hc := h'.constants c (h.constants c hc)
  skolems c hc := h'.skolems c (h.skolems c hc)
  arity kind name count hcount := h'.arity kind name count (h.arity kind name count hcount)
  skolemNext := Nat.le_trans h.skolemNext h'.skolemNext

/-- Nothing is lost or changed, and no Skolem constants have come in. -/
structure Augments (sig sig' : Signature) : Prop where
  grows : sig.Extends sig'
  skolems : sig'.skolems = sig.skolems
  skolemNext : sig'.skolemNext = sig.skolemNext

/-- A signature adds nothing to itself. -/
theorem Augments.refl (sig : Signature) : sig.Augments sig :=
  ⟨.refl sig, rfl, rfl⟩

/-- More can be added to a signature. -/
theorem Augments.trans {mid : Signature} (h : sig.Augments mid) (h' : mid.Augments sig') :
    sig.Augments sig' :=
  ⟨h.grows.trans h'.grows, h'.skolems.trans h.skolems, h'.skolemNext.trans h.skolemNext⟩

/-- A new constant is added. -/
theorem augments_addConstant (sig : Signature) (name : String) :
    sig.Augments (sig.addConstant name) where
  grows.constants c hc := NameSet.mem_add.2 (Or.inr hc)
  grows.skolems _ hc := hc
  grows.arity kind _ _ h := by cases kind <;> exact h
  grows.skolemNext := Nat.le_refl _
  skolems := rfl
  skolemNext := rfl

/-- The search for a Skolem constant only goes forward. -/
theorem le_firstUnused (constants : NameSet) (bound index : Nat) :
    index ≤ firstUnused constants bound index := by
  induction bound generalizing index with
  | zero => exact Nat.le_refl _
  | succ bound ih =>
    rw [firstUnused]
    split
    · exact Nat.le_trans (Nat.le_succ index) (ih (index + 1))
    · exact Nat.le_refl _

/-- Introducing a Skolem constant loses nothing. -/
theorem extends_freshSkolem (sig : Signature) : sig.Extends sig.freshSkolem.2 where
  constants c hc := mem_freshSkolem_constants.2 (Or.inr hc)
  skolems c hc := mem_freshSkolem_skolems.2 (Or.inr hc)
  arity kind _ _ h := by cases kind <;> exact h
  skolemNext := Nat.le_succ_of_le (le_firstUnused _ _ _)

/-- After a use has been recorded, the number of arguments is the one of the use, and all others are
as they were. -/
theorem recordArity_spec {kind : SymbolKind} {name : String} {count : Nat}
    (h : sig.recordArity kind name count = .ok sig') :
    sig.Augments sig' ∧ sig'.arity? kind name = some count ∧
      ∀ kind' name', ¬ (kind = kind' ∧ name = name') →
        sig'.arity? kind' name' = sig.arity? kind' name' := by
  unfold recordArity at h
  split at h
  · rename_i expected hfound
    split at h
    · rename_i hsame
      obtain rfl := Except.ok.inj h
      exact ⟨.refl sig, hsame ▸ hfound, fun _ _ _ => rfl⟩
    · simp at h
  · rename_i hnone
    obtain rfl := Except.ok.inj h
    have hconstants : (sig.setArity kind name count).constants = sig.constants := by cases kind <;> rfl
    have hskolems : (sig.setArity kind name count).skolems = sig.skolems := by cases kind <;> rfl
    have hnext : (sig.setArity kind name count).skolemNext = sig.skolemNext := by cases kind <;> rfl
    refine ⟨⟨⟨?_, ?_, fun kind' name' count' hcount => ?_, ?_⟩, hskolems, hnext⟩,
      by simp [arity?_setArity], fun kind' name' hne => by rw [arity?_setArity, if_neg hne]⟩
    · rw [hconstants]
      exact fun _ hc => hc
    · rw [hskolems]
      exact fun _ hc => hc
    · rw [arity?_setArity, if_neg]
      · exact hcount
      · rintro ⟨rfl, rfl⟩
        simp [hnone] at hcount
    · rw [hnext]

end Signature

/-! ### Labels that are known -/

/-- The name of a label is a name; a constant is among the known ones, and a symbol has arguments, as
many as are recorded for it. -/
def Label.Known (arity : SymbolKind → String → Option Nat) (constants : NameSet) : Label → Prop
  | .const name => IsName name ∧ name ∈ constants
  | .symbol kind name count => IsName name ∧ 0 < count ∧ arity kind name = some count
  | .var name | .prop name | .binder name => IsName name

/-- A label that is known is known when more is. -/
theorem Label.Known.mono {arity arity' : SymbolKind → String → Option Nat}
    {constants constants' : NameSet} {l : Label} (h : l.Known arity constants)
    (harity : ∀ kind name count, arity kind name = some count → arity' kind name = some count)
    (hconstants : ∀ c ∈ constants, c ∈ constants') : l.Known arity' constants' := by
  cases l with
  | const name => exact ⟨h.1, hconstants name h.2⟩
  | symbol kind name count => exact ⟨h.1, h.2.1, harity kind name count h.2.2⟩
  | var name | prop name | binder name => exact h

/-- The name of a label that is known is a name. -/
theorem Label.Known.isName {arity : SymbolKind → String → Option Nat} {constants : NameSet}
    {l : Label} (h : l.Known arity constants) : IsName l.name := by
  cases l with
  | const name | symbol kind name count => exact h.1
  | var name | prop name | binder name => exact h

/-- A reading that ends in the second signature has extended the first, and has recorded the labels
and no other numbers of arguments. -/
structure Records (sig sig' : Signature) (labels : List Label) : Prop where
  grows : sig.Extends sig'
  known : ∀ l ∈ labels, l.Known sig'.arity? sig'.constants
  arity : ∀ kind name count, sig'.arity? kind name = some count →
    sig.arity? kind name = some count ∨ .symbol kind name count ∈ labels

namespace Records

/-- Nothing is recorded for no labels. -/
theorem nil (sig : Signature) : Records sig sig [] :=
  ⟨.refl sig, by simp, fun _ _ _ h => Or.inl h⟩

/-- A label without anything to record. -/
theorem one {l : Label} (h : l.Known sig.arity? sig.constants) : Records sig sig [l] :=
  ⟨.refl sig, by simpa using h, fun _ _ _ h => Or.inl h⟩

/-- Labels can be recorded one after the other. -/
theorem trans {mid : Signature} {labels labels' : List Label} (h : Records sig mid labels)
    (h' : Records mid sig' labels') : Records sig sig' (labels ++ labels') where
  grows := h.grows.trans h'.grows
  known l hl := by
    rcases List.mem_append.1 hl with hl | hl
    · exact (h.known l hl).mono h'.grows.arity h'.grows.constants
    · exact h'.known l hl
  arity kind name count hcount := by
    rcases h'.arity kind name count hcount with hmid | hl
    · exact (h.arity kind name count hmid).imp_right (List.mem_append_left labels')
    · exact Or.inr (List.mem_append_right labels hl)

/-- Labels can be left out as long as all symbols are kept. -/
theorem subset {labels labels' : List Label} (h : Records sig sig' labels)
    (hsub : ∀ l ∈ labels', l ∈ labels)
    (hsymbols : ∀ kind name count, .symbol kind name count ∈ labels →
      .symbol kind name count ∈ labels') : Records sig sig' labels' :=
  ⟨h.grows, fun l hl => h.known l (hsub l hl), fun kind name count hcount =>
    (h.arity kind name count hcount).imp_right (hsymbols kind name count)⟩

/-- Only the labels count, not their order. -/
theorem congr {labels labels' : List Label} (h : Records sig sig' labels)
    (hmem : ∀ l, l ∈ labels' ↔ l ∈ labels) : Records sig sig' labels' :=
  h.subset (fun l => (hmem l).1) fun _ _ _ => (hmem _).2

end Records

/-- A constant that is learned is recorded. -/
theorem records_addConstant {name : String} (hname : IsName name) :
    Records sig (sig.addConstant name) [.const name] where
  grows := (sig.augments_addConstant name).grows
  known l hl := by
    obtain rfl := List.mem_singleton.1 hl
    exact ⟨hname, NameSet.mem_add.2 (Or.inl rfl)⟩
  arity kind _ _ hcount := by cases kind <;> exact Or.inl hcount

/-- Arguments have been read from as many pieces, and their labels recorded. -/
structure RecordsArgs (sig sig' : Signature) (pieces : List (List Char)) (ts : List Term) : Prop where
  records : Records sig sig' (ts.flatMap Term.labels)
  length : ts.length = pieces.length

/-- A symbol is recorded after its arguments, of which there is at least one. -/
theorem RecordsArgs.applied {mid : Signature} {kind : SymbolKind} {name : String}
    {args : List Char} {ts : List Term} {u : Unit}
    (h : RecordsArgs sig mid (Application.split ',' args) ts) (hname : IsName name)
    (harity : Reader.recordArity kind name ts.length mid = .ok u sig') :
    Records sig sig' (.symbol kind name ts.length :: ts.flatMap Term.labels) := by
  obtain ⟨haugments, hcount, hothers⟩ :=
    Signature.recordArity_spec (Reader.recordArity_eq_ok.1 harity)
  have hpos : 0 < ts.length :=
    h.length ▸ List.length_pos_iff.2 (Application.splitFrom_ne_nil ',' 0 args)
  have hsymbol : Records mid sig' [.symbol kind name ts.length] := by
    refine ⟨haugments.grows, List.forall_mem_singleton.2 ⟨hname, hpos, hcount⟩, ?_⟩
    intro kind' name' count' hcount'
    by_cases hsame : kind = kind' ∧ name = name'
    · obtain ⟨rfl, rfl⟩ := hsame
      obtain rfl := Option.some.inj (hcount.symm.trans hcount')
      exact Or.inr List.mem_cons_self
    · rw [hothers kind' name' hsame] at hcount'
      exact Or.inl hcount'
  exact (h.records.trans hsymbol).congr fun l => (List.perm_append_singleton _ _).symm.mem_iff

/-! ### Terms -/

/-- What passes the check of names is a name. -/
theorem isName_of_checkName {text : List Char} {name : String} (h : checkName text = .ok name) :
    IsName name := by
  unfold checkName at h
  split at h
  · rename_i htext
    obtain rfl := Except.ok.inj h
    exact isName_iff.2 (by simpa using htext)
  · simp at h

namespace Term

mutual

/-- Reading a term records its labels. -/
theorem read_records {bound : List String} {text : List Char} {t : Term} {sig sig' : Signature}
    (h : read bound text sig = .ok t sig') : Records sig sig' t.labels := by
  rw [read_eq] at h
  match hparts : Application.parts? (Text.trim text) with
  | .error e =>
    rw [hparts] at h
    exact absurd h Reader.throw_ne_ok
  | .ok none =>
    simp only [hparts] at h
    obtain ⟨name, mid, hname, h⟩ := Reader.bind_eq_ok.1 h
    obtain ⟨hcheck, rfl⟩ := Reader.ofExcept_eq_ok.1 hname
    by_cases hbound : bound.contains name = true
    · rw [if_pos hbound] at h
      obtain ⟨rfl, rfl⟩ := Reader.pure_eq_ok.1 h
      exact .one (l := .var name) (isName_of_checkName hcheck)
    · rw [if_neg hbound] at h
      obtain ⟨u, last, hadd, h⟩ := Reader.bind_eq_ok.1 h
      obtain ⟨rfl, rfl⟩ := Reader.pure_eq_ok.1 h
      obtain ⟨-, rfl⟩ := EStateM.Result.ok.inj hadd
      exact records_addConstant (isName_of_checkName hcheck)
  | .ok (some (head, args)) =>
    simp only [hparts] at h
    have hlt : Application.weight (Application.split ',' args) < text.length := by
      have := Application.length_parts hparts
      have := Text.length_trim_le text
      rw [Application.weight_split]
      omega
    obtain ⟨name, mid, hname, h⟩ := Reader.bind_eq_ok.1 h
    obtain ⟨hcheck, rfl⟩ := Reader.ofExcept_eq_ok.1 hname
    obtain ⟨ts, mid, hts, h⟩ := Reader.bind_eq_ok.1 h
    obtain ⟨u, last, harity, h⟩ := Reader.bind_eq_ok.1 h
    obtain ⟨rfl, rfl⟩ := Reader.pure_eq_ok.1 h
    rw [labels_app]
    exact (readArgs_records hts).applied (isName_of_checkName hcheck) harity
termination_by text.length

/-- Reading arguments records their labels. -/
theorem readArgs_records {bound : List String} {whole : List Char} {pieces : List (List Char)}
    {ts : List Term} {sig sig' : Signature} (h : readArgs bound whole pieces sig = .ok ts sig') :
    RecordsArgs sig sig' pieces ts := by
  cases pieces with
  | nil =>
    rw [readArgs] at h
    obtain ⟨rfl, rfl⟩ := Reader.pure_eq_ok.1 h
    exact ⟨.nil sig, rfl⟩
  | cons piece pieces =>
    have hlt : piece.length < Application.weight (piece :: pieces) ∧
        Application.weight pieces < Application.weight (piece :: pieces) := by
      rw [Application.weight_cons]
      omega
    obtain ⟨-, t, us, mid, rfl, ht, hus⟩ := readArgs_cons_eq_ok.1 h
    obtain ⟨hrecords, hlength⟩ := readArgs_records hus
    exact ⟨(read_records ht).trans hrecords, congrArg (· + 1) hlength⟩
termination_by Application.weight pieces

end

/-- Reading terms records their labels. -/
theorem readEach_records {bound : List String} {pieces : List (List Char)} {ts : List Term}
    (h : readEach bound pieces sig = .ok ts sig') : Records sig sig' (ts.flatMap labels) := by
  induction pieces generalizing ts sig with
  | nil =>
    obtain ⟨rfl, rfl⟩ := Reader.pure_eq_ok.1 h
    exact .nil sig
  | cons piece pieces ih =>
    obtain ⟨t, mid, ht, h⟩ := Reader.bind_eq_ok.1 h
    obtain ⟨us, last, hus, h⟩ := Reader.bind_eq_ok.1 h
    obtain ⟨rfl, rfl⟩ := Reader.pure_eq_ok.1 h
    exact (read_records ht).trans (ih hus)

end Term

/-! ### Formulas -/

namespace Formula

/-- Reading an atomic formula records its labels. -/
theorem readAtom_records {bound : List String} {text : List Char} {f : Formula}
    (h : readAtom bound text sig = .ok f sig') : Records sig sig' f.labels := by
  unfold readAtom at h
  split at h
  · obtain ⟨rfl, rfl⟩ := Reader.pure_eq_ok.1 h
    exact .nil sig
  · split at h
    · obtain ⟨rfl, rfl⟩ := Reader.pure_eq_ok.1 h
      exact .nil sig
    · match hsplit : Application.split '=' text with
      | [] =>
        simp only [hsplit] at h
        exact absurd h Reader.throw_ne_ok
      | [_] =>
        simp only [hsplit] at h
        obtain ⟨parts, mid, hparts, h⟩ := Reader.bind_eq_ok.1 h
        obtain ⟨-, rfl⟩ := Reader.ofExcept_eq_ok.1 hparts
        cases parts with
        | none =>
          obtain ⟨name, mid, hname, h⟩ := Reader.bind_eq_ok.1 h
          obtain ⟨hcheck, rfl⟩ := Reader.ofExcept_eq_ok.1 hname
          obtain ⟨rfl, rfl⟩ := Reader.pure_eq_ok.1 h
          exact .one (l := .prop name) (isName_of_checkName hcheck)
        | some parts =>
          obtain ⟨head, args⟩ := parts
          obtain ⟨name, mid, hname, h⟩ := Reader.bind_eq_ok.1 h
          obtain ⟨hcheck, rfl⟩ := Reader.ofExcept_eq_ok.1 hname
          obtain ⟨ts, mid, hts, h⟩ := Reader.bind_eq_ok.1 h
          obtain ⟨u, last, harity, h⟩ := Reader.bind_eq_ok.1 h
          obtain ⟨rfl, rfl⟩ := Reader.pure_eq_ok.1 h
          exact (Term.readArgs_records hts).applied (isName_of_checkName hcheck) harity
      | [left, right] =>
        simp only [hsplit] at h
        split at h
        · obtain ⟨u, mid, hthrow, -⟩ := Reader.bind_eq_ok.1 h
          exact absurd hthrow Reader.throw_ne_ok
        · obtain ⟨a, mid, ha, h⟩ := Reader.bind_eq_ok.1 h
          obtain ⟨b, last, hb, h⟩ := Reader.bind_eq_ok.1 h
          obtain ⟨rfl, rfl⟩ := Reader.pure_eq_ok.1 h
          exact (Term.read_records ha).trans (Term.read_records hb)
      | _ :: _ :: _ :: _ =>
        simp only [hsplit] at h
        exact absurd h Reader.throw_ne_ok

/-- The labels of what is finished, with those of the quantifiers that wait. -/
def Finished.labels (done : Finished) : List Label :=
  done.bound.map .binder ++ done.formulas.flatMap Formula.labels

/-- Building a formula from finished ones neither brings in labels nor loses any. -/
theorem Commits.mem_labels_iff {done done' : Finished} {op : Operator} (h : Commits op done done')
    (l : Label) : l ∈ done'.labels ↔ l ∈ done.labels := by
  cases h with
  | not f fs bound => exact Iff.rfl
  | binary op left right fs bound =>
    simp only [Finished.labels, List.flatMap_cons, Formula.labels, List.mem_append]
    tauto
  | quantifier q var body fs bound =>
    simp only [Finished.labels, List.flatMap_cons, List.map_cons, Formula.labels, List.mem_append,
      List.mem_cons]
    tauto

/-- Committing operators keeps the labels. -/
theorem Settles.mem_labels_iff {level : Nat} {stack stack' : List Waiting} {done done' : Finished}
    (h : Settles level stack done stack' done') (l : Label) :
    l ∈ done'.labels ↔ l ∈ done.labels := by
  induction h with
  | refl => exact Iff.rfl
  | commit _ hcommit _ ih => exact ih.trans ((Finished.commits hcommit).mem_labels_iff l)

end Formula

/-- The variables of quantifiers are names. -/
theorem Token.isName_of_mem_scan {text : List Char} {q : Quantifier} {var : String}
    (h : .quantifier q var ∈ (scan text).1) : IsName var := by
  fun_induction scan text with
  | case1 | case4 | case5 | case9 | case10 => simp at h
  | case6 =>
    rename_i hcheck ih
    rcases List.mem_cons.1 h with heq | h
    · obtain ⟨-, rfl⟩ := Token.quantifier.inj heq
      exact isName_of_checkName hcheck
    · exact ih h
  | case2 | case3 | case7 | case8 | case11 =>
    rename_i ih
    exact ih (by simpa [followedBy] using h)

namespace Formula

/-- Taking in a token records the labels of the new finished formulas. -/
theorem readToken_records {stack stack' : List Waiting} {done done' : Finished} {token : Token}
    {base : Signature} (hbase : Records base sig done.labels)
    (hname : ∀ q var, token = .quantifier q var → IsName var)
    (h : readToken stack done token sig = .ok (stack', done') sig') :
    Records base sig' done'.labels := by
  cases token with
  | not | opening =>
    obtain ⟨heq, rfl⟩ := Reader.pure_eq_ok.1 h
    obtain ⟨-, rfl⟩ := Prod.mk.inj heq
    exact hbase
  | quantifier q var =>
    obtain ⟨heq, rfl⟩ := Reader.pure_eq_ok.1 h
    obtain ⟨-, rfl⟩ := Prod.mk.inj heq
    have hbinder : Records sig sig [.binder var] := .one (l := .binder var) (hname q var rfl)
    exact (hbase.trans hbinder).congr fun l => (List.perm_append_singleton _ _).symm.mem_iff
  | connective op =>
    obtain ⟨⟨mid, done₁⟩, last, hread, h⟩ := Reader.bind_eq_ok.1 h
    obtain ⟨hcommit, rfl⟩ := Reader.ofExcept_eq_ok.1 hread
    obtain ⟨heq, rfl⟩ := Reader.pure_eq_ok.1 h
    obtain ⟨-, rfl⟩ := Prod.mk.inj heq
    exact hbase.congr (settles_of_commitTighter hcommit).1.mem_labels_iff
  | closing bracket =>
    obtain ⟨hclose, rfl⟩ := Reader.ofExcept_eq_ok.1 h
    obtain ⟨level, hsettles⟩ := settles_of_closeGroup hclose
    exact hbase.congr hsettles.mem_labels_iff
  | operand text =>
    obtain ⟨f, mid, hf, h⟩ := Reader.bind_eq_ok.1 h
    obtain ⟨heq, rfl⟩ := Reader.pure_eq_ok.1 h
    obtain ⟨-, rfl⟩ := Prod.mk.inj heq
    refine (hbase.trans (readAtom_records hf)).congr fun l => ?_
    simp only [Finished.labels, List.flatMap_cons, List.mem_append]
    tauto

/-- Reading tokens records the labels of what has been finished. -/
theorem readTokens_records {tokens : List Token} {stack stack' : List Waiting}
    {done done' : Finished} {base : Signature} (hbase : Records base sig done.labels)
    (hnames : ∀ q var, .quantifier q var ∈ tokens → IsName var)
    (h : readTokens stack done tokens sig = .ok (stack', done') sig') :
    Records base sig' done'.labels := by
  induction tokens generalizing stack done sig with
  | nil =>
    obtain ⟨heq, rfl⟩ := Reader.pure_eq_ok.1 h
    obtain ⟨-, rfl⟩ := Prod.mk.inj heq
    exact hbase
  | cons token tokens ih =>
    obtain ⟨⟨stack₁, done₁⟩, mid, htoken, h⟩ := Reader.bind_eq_ok.1 h
    have hfirst := readToken_records hbase
      (fun q var heq => hnames q var (heq ▸ List.mem_cons_self)) htoken
    exact ih hfirst (fun q var hmem => hnames q var (List.mem_cons_of_mem _ hmem)) h

/-- Reading a formula records its labels. -/
theorem parse_records {text : String} {f : Formula} (h : parse text sig = .ok f sig') :
    Records sig sig' f.labels := by
  obtain ⟨stack, done, done', level, htokens, hsettles, hresult⟩ := settles_of_parse h
  have hrecords : Records sig sig' done.labels :=
    readTokens_records (.nil sig) (fun _ _ => Token.isName_of_mem_scan) htokens
  -- quantifiers that still wait for a formula have no symbols
  refine (hrecords.congr hsettles.mem_labels_iff).subset (fun l hl => ?_) fun kind name count hl => ?_
  · exact List.mem_append_right _ (by simpa [hresult] using hl)
  · simpa [Finished.labels, hresult] using hl

/-- Reading several formulas records the labels of those that can be read. -/
theorem parseEach_records {texts : List String} {results : List (Except ParseError Formula)}
    (h : parseEach texts sig = (results, sig')) :
    sig.Extends sig' ∧ ∀ f, .ok f ∈ results → ∀ l ∈ f.labels, l.Known sig'.arity? sig'.constants := by
  induction texts generalizing sig results with
  | nil =>
    obtain ⟨rfl, rfl⟩ := Prod.mk.inj h
    exact ⟨.refl sig, by simp⟩
  | cons text texts ih =>
    rw [parseEach] at h
    cases hparse : parse text sig with
    | ok f mid =>
      simp only [hparse] at h
      obtain ⟨rfl, rfl⟩ := Prod.mk.inj h
      have hfirst := parse_records hparse
      obtain ⟨hgrows, hrest⟩ := ih rfl
      refine ⟨hfirst.grows.trans hgrows, fun g hg l hl => ?_⟩
      rcases List.mem_cons.1 hg with heq | hg
      · obtain rfl := Except.ok.inj heq
        exact (hfirst.known l hl).mono hgrows.arity hgrows.constants
      · exact hrest g hg l hl
    | error e mid =>
      simp only [hparse] at h
      obtain ⟨rfl, rfl⟩ := Prod.mk.inj h
      obtain ⟨hgrows, hrest⟩ := ih rfl
      exact ⟨hgrows, fun g hg => hrest g (by simpa using hg)⟩

end Formula

end NaturalDeduction
