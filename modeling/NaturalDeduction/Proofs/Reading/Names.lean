import NaturalDeduction.Proofs.Reading.Settling
import NaturalDeduction.Proofs.Reading.WellFormed

/-!
# What reading learns

A text that is read adds names to the signature.  Of the constants it adds exactly those of the term
or formula that was read, and whether a bare name in a term is a variable is decided by the names
bound around it; so a term that is read where nothing is bound is closed.
-/

set_option autoImplicit false

namespace NaturalDeduction

variable {α β : Type} {sig sig' : Signature}

namespace Reader

/-! ### Readings that succeed -/

/-- Two readings in a row succeed if the first does and the second does with its answer and
signature. -/
theorem bind_eq_ok {x : Reader α} {f : α → Reader β} {b : β} :
    (x >>= f) sig = .ok b sig' ↔ ∃ a mid, x sig = .ok a mid ∧ f a mid = .ok b sig' := by
  show EStateM.bind x f sig = .ok b sig' ↔ _
  unfold EStateM.bind
  cases hx : x sig with
  | ok a mid =>
    constructor
    · intro h
      exact ⟨a, mid, rfl, h⟩
    · rintro ⟨a', mid', h, hf⟩
      obtain ⟨rfl, rfl⟩ := EStateM.Result.ok.inj h
      exact hf
  | error e mid => simp

/-- Reading nothing gives the answer and keeps the signature. -/
@[simp] theorem pure_eq_ok {a b : α} : (pure a : Reader α) sig = .ok b sig' ↔ a = b ∧ sig = sig' :=
  ⟨EStateM.Result.ok.inj, fun ⟨ha, hsig⟩ => ha ▸ hsig ▸ rfl⟩

/-- An error is no answer. -/
@[simp] theorem throw_ne_ok {e : ParseError} {a : α} :
    (throw e : Reader α) sig ≠ .ok a sig' := nofun

/-- What is done without the signature keeps it. -/
theorem ofExcept_eq_ok {x : Except ParseError α} {a : α} :
    Reader.ofExcept x sig = .ok a sig' ↔ x = .ok a ∧ sig = sig' := by
  cases x with
  | ok b => simp [Reader.ofExcept]
  | error e => simp [Reader.ofExcept]

/-- The outcome of a reading that succeeds is its answer. -/
theorem outcome_eq_ok {x : Reader α} {a : α} :
    x.outcome sig = (.ok a, sig') ↔ x sig = .ok a sig' := by
  unfold outcome
  cases x sig <;> simp

/-- A number of arguments is recorded in the signature. -/
theorem recordArity_eq_ok {kind : SymbolKind} {name : String} {count : Nat} {u : Unit} :
    Reader.recordArity kind name count sig = .ok u sig' ↔
      sig.recordArity kind name count = .ok sig' := by
  unfold Reader.recordArity
  cases sig.recordArity kind name count <;> simp

end Reader

/-! ### Constants -/

/-- Between two signatures exactly the given constants were added, and none of them as a Skolem
constant. -/
structure Learns (sig sig' : Signature) (new : String → Prop) : Prop where
  mem_constants : ∀ c, c ∈ sig'.constants ↔ c ∈ sig.constants ∨ new c
  skolems : sig'.skolems = sig.skolems

namespace Learns

/-- Nothing is learned where nothing happens. -/
theorem refl (sig : Signature) : Learns sig sig fun _ => False :=
  ⟨by simp, rfl⟩

/-- Constants can be learned one after the other. -/
theorem trans {mid : Signature} {new new' : String → Prop} (h : Learns sig mid new)
    (h' : Learns mid sig' new') : Learns sig sig' fun c => new c ∨ new' c where
  mem_constants c := by rw [h'.mem_constants c, h.mem_constants c, or_assoc]
  skolems := h'.skolems.trans h.skolems

/-- Only the constants count, not how they are described. -/
theorem congr {new new' : String → Prop} (h : Learns sig sig' new) (hnew : ∀ c, new c ↔ new' c) :
    Learns sig sig' new' where
  mem_constants c := by rw [h.mem_constants c, hnew c]
  skolems := h.skolems

/-- Known constants stay known. -/
theorem mono {new : String → Prop} (h : Learns sig sig' new) {c : String}
    (hc : c ∈ sig.constants) : c ∈ sig'.constants :=
  (h.mem_constants c).2 (Or.inl hc)

/-- New constants are known. -/
theorem mem {new : String → Prop} (h : Learns sig sig' new) {c : String} (hc : new c) :
    c ∈ sig'.constants :=
  (h.mem_constants c).2 (Or.inr hc)

end Learns

/-- Adding a constant is learning it. -/
theorem learns_addConstant (sig : Signature) (name : String) :
    Learns sig (sig.addConstant name) (· = name) where
  mem_constants c := by rw [Signature.addConstant, NameSet.mem_add, or_comm]
  skolems := rfl

/-- Recording a number of arguments is learning no constant. -/
theorem learns_recordArity {kind : SymbolKind} {name : String} {count : Nat}
    (h : sig.recordArity kind name count = .ok sig') : Learns sig sig' fun _ => False := by
  unfold Signature.recordArity at h
  split at h
  · split at h
    · obtain rfl := Except.ok.inj h
      exact .refl sig
    · simp at h
  · obtain rfl := Except.ok.inj h
    cases kind <;> exact ⟨by simp [Signature.setArity], rfl⟩

namespace Term

/-- Reading a term, said without the proof that it ends. -/
theorem read_eq (bound : List String) (text : List Char) :
    read bound text =
      match Application.parts? (Text.trim text) with
      | .error e => throw e
      | .ok none => do
        let name ← Reader.ofExcept (checkName (Text.trim text))
        if bound.contains name then
          return .var name
        else
          Reader.addConstant name
          return .const name
      | .ok (some (name, args)) => do
        let name ← Reader.ofExcept (checkName name)
        let args ← readArgs bound (Text.trim text) (Application.split ',' args)
        Reader.recordArity .function name args.length
        return .app name args := by
  rw [read]
  split <;> (rename_i h; rw [h])

/-- Arguments are read one after the other, and none of them is blank. -/
theorem readArgs_cons_eq_ok {bound : List String} {whole piece : List Char}
    {pieces : List (List Char)} {ts : List Term} :
    readArgs bound whole (piece :: pieces) sig = .ok ts sig' ↔
      Text.allBlank piece = false ∧ ∃ t us mid, ts = t :: us ∧ read bound piece sig = .ok t mid ∧
        readArgs bound whole pieces mid = .ok us sig' := by
  rw [readArgs]
  cases hblank : Text.allBlank piece with
  | true =>
    simp only [if_true]
    constructor
    · intro h
      obtain ⟨u, mid, h, -⟩ := Reader.bind_eq_ok.1 h
      exact absurd h Reader.throw_ne_ok
    · rintro ⟨h, -⟩
      exact absurd h (by simp)
  | false =>
    simp only [Bool.false_eq_true, if_false, Reader.bind_eq_ok, Reader.pure_eq_ok, true_and]
    constructor
    · rintro ⟨t, mid, ht, us, last, hus, rfl, rfl⟩
      exact ⟨t, us, mid, rfl, ht, hus⟩
    · rintro ⟨t, us, mid, rfl, ht, hus⟩
      exact ⟨t, mid, ht, us, sig', hus, rfl, rfl⟩

mutual

/-- Reading a term adds its constants, and the bound names are its variables. -/
theorem read_learns {bound : List String} {text : List Char} {t : Term} {sig sig' : Signature}
    (h : read bound text sig = .ok t sig') :
    Learns sig sig' (· ∈ t.constants) ∧ t.BoundIn bound := by
  rw [read_eq] at h
  match hparts : Application.parts? (Text.trim text) with
  | .error e =>
    rw [hparts] at h
    exact absurd h Reader.throw_ne_ok
  | .ok none =>
    simp only [hparts] at h
    obtain ⟨name, mid, hname, h⟩ := Reader.bind_eq_ok.1 h
    obtain ⟨-, rfl⟩ := Reader.ofExcept_eq_ok.1 hname
    by_cases hbound : bound.contains name = true
    · rw [if_pos hbound] at h
      obtain ⟨rfl, rfl⟩ := Reader.pure_eq_ok.1 h
      exact ⟨(Learns.refl sig).congr (by simp), boundIn_iff.2 (by simpa using hbound)⟩
    · rw [if_neg hbound] at h
      obtain ⟨u, last, hadd, h⟩ := Reader.bind_eq_ok.1 h
      obtain ⟨rfl, rfl⟩ := Reader.pure_eq_ok.1 h
      obtain ⟨-, rfl⟩ := EStateM.Result.ok.inj hadd
      exact ⟨(learns_addConstant sig name).congr (by simp), boundIn_iff.2 (by simpa using hbound)⟩
  | .ok (some (head, args)) =>
    simp only [hparts] at h
    have hlt : Application.weight (Application.split ',' args) < text.length := by
      have := Application.length_parts hparts
      have := Text.length_trim_le text
      rw [Application.weight_split]
      omega
    obtain ⟨name, mid, hname, h⟩ := Reader.bind_eq_ok.1 h
    obtain ⟨-, rfl⟩ := Reader.ofExcept_eq_ok.1 hname
    obtain ⟨ts, mid, hts, h⟩ := Reader.bind_eq_ok.1 h
    obtain ⟨u, last, harity, h⟩ := Reader.bind_eq_ok.1 h
    obtain ⟨rfl, rfl⟩ := Reader.pure_eq_ok.1 h
    obtain ⟨hlearns, hbound⟩ := readArgs_learns hts
    have hrecord := learns_recordArity (Reader.recordArity_eq_ok.1 harity)
    exact ⟨(hlearns.trans hrecord).congr (by simp), boundIn_app.2 hbound⟩
termination_by text.length

/-- Reading arguments adds their constants, and the bound names are their variables. -/
theorem readArgs_learns {bound : List String} {whole : List Char} {pieces : List (List Char)}
    {ts : List Term} {sig sig' : Signature} (h : readArgs bound whole pieces sig = .ok ts sig') :
    Learns sig sig' (fun c => ∃ t ∈ ts, c ∈ t.constants) ∧ ∀ t ∈ ts, t.BoundIn bound := by
  cases pieces with
  | nil =>
    rw [readArgs] at h
    obtain ⟨rfl, rfl⟩ := Reader.pure_eq_ok.1 h
    simpa using Learns.refl sig
  | cons piece pieces =>
    have hlt : piece.length < Application.weight (piece :: pieces) ∧
        Application.weight pieces < Application.weight (piece :: pieces) := by
      rw [Application.weight_cons]
      omega
    obtain ⟨-, t, us, mid, rfl, ht, hus⟩ := readArgs_cons_eq_ok.1 h
    obtain ⟨hlearns, hbound⟩ := read_learns ht
    obtain ⟨hlearns', hbound'⟩ := readArgs_learns hus
    exact ⟨(hlearns.trans hlearns').congr (by simp), List.forall_mem_cons.2 ⟨hbound, hbound'⟩⟩
termination_by Application.weight pieces

end

/-- Reading terms is learning their constants, and their variables are bound. -/
theorem readEach_learns {bound : List String} {pieces : List (List Char)} {ts : List Term}
    (h : readEach bound pieces sig = .ok ts sig') :
    Learns sig sig' (fun c => ∃ t ∈ ts, c ∈ t.constants) ∧ ∀ t ∈ ts, t.BoundIn bound := by
  induction pieces generalizing ts sig with
  | nil =>
    obtain ⟨rfl, rfl⟩ := Reader.pure_eq_ok.1 h
    simpa using Learns.refl sig
  | cons piece pieces ih =>
    obtain ⟨t, mid, ht, h⟩ := Reader.bind_eq_ok.1 h
    obtain ⟨us, last, hus, h⟩ := Reader.bind_eq_ok.1 h
    obtain ⟨rfl, rfl⟩ := Reader.pure_eq_ok.1 h
    obtain ⟨hlearns, hbound⟩ := read_learns ht
    obtain ⟨hlearns', hbound'⟩ := ih hus
    exact ⟨(hlearns.trans hlearns').congr (by simp), List.forall_mem_cons.2 ⟨hbound, hbound'⟩⟩

/-- A list of terms read from a text holds closed terms, and their constants are what is learnt. -/
theorem parseList_learns {text : String} {ts : List Term} (h : parseList text sig = .ok ts sig') :
    Learns sig sig' (fun c => ∃ t ∈ ts, c ∈ t.constants) ∧ ∀ t ∈ ts, t.vars = [] := by
  obtain ⟨hlearns, hbound⟩ := readEach_learns h
  exact ⟨hlearns, fun t ht => List.eq_nil_iff_forall_not_mem.2 fun x hx =>
    List.not_mem_nil ((boundIn_iff.1 (hbound t ht)).1 x hx)⟩

end Term

namespace Formula

/-- Reading an atomic formula adds its constants, and the bound names are its variables. -/
theorem readAtom_learns {bound : List String} {text : List Char} {f : Formula}
    (h : readAtom bound text sig = .ok f sig') :
    Learns sig sig' (· ∈ f.constants) ∧ f.precedence = 0 ∧ f.BoundIn bound := by
  unfold readAtom at h
  split at h
  · obtain ⟨rfl, rfl⟩ := Reader.pure_eq_ok.1 h
    exact ⟨(Learns.refl sig).congr (by simp), rfl, trivial⟩
  · split at h
    · obtain ⟨rfl, rfl⟩ := Reader.pure_eq_ok.1 h
      exact ⟨(Learns.refl sig).congr (by simp), rfl, trivial⟩
    · match hsplit : Application.split '=' text with
      | [] =>
        simp only [hsplit] at h
        exact absurd h Reader.throw_ne_ok
      | [_] =>
        simp only [hsplit] at h
        obtain ⟨parts, mid, hparts, h⟩ := Reader.bind_eq_ok.1 h
        obtain ⟨-, rfl⟩ := Reader.ofExcept_eq_ok.1 hparts
        cases parts with
        -- a name alone is a proposition, whether it is bound or not
        | none =>
          obtain ⟨name, mid, hname, h⟩ := Reader.bind_eq_ok.1 h
          obtain ⟨-, rfl⟩ := Reader.ofExcept_eq_ok.1 hname
          obtain ⟨rfl, rfl⟩ := Reader.pure_eq_ok.1 h
          exact ⟨(Learns.refl sig).congr (by simp), rfl, trivial⟩
        | some parts =>
          obtain ⟨head, args⟩ := parts
          obtain ⟨name, mid, hname, h⟩ := Reader.bind_eq_ok.1 h
          obtain ⟨-, rfl⟩ := Reader.ofExcept_eq_ok.1 hname
          obtain ⟨ts, mid, hts, h⟩ := Reader.bind_eq_ok.1 h
          obtain ⟨u, last, harity, h⟩ := Reader.bind_eq_ok.1 h
          obtain ⟨rfl, rfl⟩ := Reader.pure_eq_ok.1 h
          obtain ⟨hlearns, hbound⟩ := Term.readArgs_learns hts
          have hrecord := learns_recordArity (Reader.recordArity_eq_ok.1 harity)
          exact ⟨(hlearns.trans hrecord).congr (by simp), rfl, hbound⟩
      | [left, right] =>
        simp only [hsplit] at h
        split at h
        · obtain ⟨u, mid, hthrow, -⟩ := Reader.bind_eq_ok.1 h
          exact absurd hthrow Reader.throw_ne_ok
        · obtain ⟨a, mid, ha, h⟩ := Reader.bind_eq_ok.1 h
          obtain ⟨b, last, hb, h⟩ := Reader.bind_eq_ok.1 h
          obtain ⟨rfl, rfl⟩ := Reader.pure_eq_ok.1 h
          obtain ⟨hlearns, hbound⟩ := Term.read_learns ha
          obtain ⟨hlearns', hbound'⟩ := Term.read_learns hb
          exact ⟨(hlearns.trans hlearns').congr (by simp), rfl, hbound, hbound'⟩
      | _ :: _ :: _ :: _ =>
        simp only [hsplit] at h
        exact absurd h Reader.throw_ne_ok

/-! ### The machine -/

/-- A constant occurs in one of the finished formulas. -/
def Finished.Mentions (done : Finished) (c : String) : Prop :=
  ∃ f ∈ done.formulas, c ∈ f.constants

/-- Building a formula from finished ones keeps their constants. -/
theorem Commits.mentions_iff {done done' : Finished} {op : Operator} (h : Commits op done done')
    (c : String) : done'.Mentions c ↔ done.Mentions c := by
  cases h with
  | not f fs bound => simp [Finished.Mentions]
  | binary op left right fs bound =>
    simp only [Finished.Mentions, List.mem_cons, exists_eq_or_imp, mem_constants_binary]
    rw [or_assoc, or_left_comm]
  | quantifier q var body fs bound => simp [Finished.Mentions]

/-- Committing operators keeps the constants. -/
theorem Settles.mentions_iff {level : Nat} {stack stack' : List Waiting} {done done' : Finished}
    (h : Settles level stack done stack' done') (c : String) :
    done'.Mentions c ↔ done.Mentions c := by
  induction h with
  | refl => rfl
  | commit _ hcommit _ ih => rw [ih, (Finished.commits hcommit).mentions_iff]

/-- The constants learnt by taking in a token are those of the new finished formulas. -/
theorem readToken_learns {stack stack' : List Waiting} {done done' : Finished} {token : Token}
    {base : Signature} (hbase : Learns base sig done.Mentions)
    (h : readToken stack done token sig = .ok (stack', done') sig') :
    Learns base sig' done'.Mentions := by
  cases token with
  | not | opening | quantifier =>
    obtain ⟨heq, rfl⟩ := Reader.pure_eq_ok.1 h
    obtain ⟨-, rfl⟩ := Prod.mk.inj heq
    exact hbase
  | connective op =>
    obtain ⟨⟨mid, done₁⟩, last, hread, h⟩ := Reader.bind_eq_ok.1 h
    obtain ⟨hcommit, rfl⟩ := Reader.ofExcept_eq_ok.1 hread
    obtain ⟨heq, rfl⟩ := Reader.pure_eq_ok.1 h
    obtain ⟨-, rfl⟩ := Prod.mk.inj heq
    exact hbase.congr fun c => ((settles_of_commitTighter hcommit).1.mentions_iff c).symm
  | closing bracket =>
    obtain ⟨hclose, rfl⟩ := Reader.ofExcept_eq_ok.1 h
    obtain ⟨level, hsettles⟩ := settles_of_closeGroup hclose
    exact hbase.congr fun c => (hsettles.mentions_iff c).symm
  | operand text =>
    obtain ⟨f, mid, hf, h⟩ := Reader.bind_eq_ok.1 h
    obtain ⟨heq, rfl⟩ := Reader.pure_eq_ok.1 h
    obtain ⟨-, rfl⟩ := Prod.mk.inj heq
    refine (hbase.trans (readAtom_learns hf).1).congr fun c => ?_
    simp [Finished.Mentions, or_comm]

/-- Reading tokens is learning the constants of what has been finished. -/
theorem readTokens_learns {tokens : List Token} {stack stack' : List Waiting}
    {done done' : Finished} {base : Signature} (hbase : Learns base sig done.Mentions)
    (h : readTokens stack done tokens sig = .ok (stack', done') sig') :
    Learns base sig' done'.Mentions := by
  induction tokens generalizing stack done sig with
  | nil =>
    obtain ⟨heq, rfl⟩ := Reader.pure_eq_ok.1 h
    obtain ⟨-, rfl⟩ := Prod.mk.inj heq
    exact hbase
  | cons token tokens ih =>
    obtain ⟨⟨stack₁, done₁⟩, mid, htoken, h⟩ := Reader.bind_eq_ok.1 h
    exact ih (readToken_learns hbase htoken) h

/-- A formula is the result if it is the only one that has been finished. -/
theorem result_eq_ok {done : Finished} {f : Formula} :
    done.result = .ok f ↔ done.formulas = [f] := by
  unfold Finished.result
  split <;> simp_all

/-- A formula is read if all tokens can be cut off and taken in, and then all operators be
committed, with one formula left. -/
theorem parse_eq_ok {text : String} {f : Formula} :
    parse text sig = .ok f sig' ↔
      (Token.scan text.toList).2 = none ∧ ∃ stack done last,
        readTokens [] {} (Token.scan text.toList).1 sig = .ok (stack, done) sig' ∧
          commitAll stack done = .ok last ∧ last.formulas = [f] := by
  unfold parse read
  rw [Reader.bind_eq_ok]
  cases hscan : (Token.scan text.toList).2 with
  | some e => simp
  | none =>
    simp only [Reader.bind_eq_ok, Reader.ofExcept_eq_ok, result_eq_ok, true_and]
    constructor
    · rintro ⟨⟨stack, done⟩, mid, htokens, last, mid', ⟨hcommit, rfl⟩, hresult, rfl⟩
      exact ⟨stack, done, last, htokens, hcommit, hresult⟩
    · rintro ⟨stack, done, last, htokens, hcommit, hresult⟩
      exact ⟨(stack, done), sig', htokens, last, sig', ⟨hcommit, rfl⟩, hresult, rfl⟩

/-- A formula that is read is the one left when the machine has taken in all tokens and committed
all operators. -/
theorem settles_of_parse {text : String} {f : Formula} (h : parse text sig = .ok f sig') :
    ∃ stack done done' level,
      readTokens [] {} (Token.scan text.toList).1 sig = .ok (stack, done) sig' ∧
        Settles level stack done [] done' ∧ done'.formulas = [f] := by
  obtain ⟨-, stack, done, last, htokens, hcommit, hresult⟩ := parse_eq_ok.1 h
  obtain ⟨level, hsettles⟩ := settles_of_commitAll hcommit
  exact ⟨stack, done, last, level, htokens, hsettles, hresult⟩

/-- Reading a formula adds its constants to the signature. -/
theorem parse_learns {text : String} {f : Formula} (h : parse text sig = .ok f sig') :
    Learns sig sig' (· ∈ f.constants) := by
  obtain ⟨stack, done, done', level, htokens, hsettles, hresult⟩ := settles_of_parse h
  have hbase : Learns sig sig ({} : Finished).Mentions :=
    (Learns.refl sig).congr (by simp [Finished.Mentions])
  refine (readTokens_learns hbase htokens).congr fun c => ?_
  rw [← hsettles.mentions_iff, Finished.Mentions, hresult]
  simp

/-- Every text has its result. -/
theorem length_parseEach (texts : List String) (sig : Signature) :
    (parseEach texts sig).1.length = texts.length := by
  induction texts generalizing sig with
  | nil => rfl
  | cons text texts ih =>
    rw [parseEach]
    cases parse text sig with
    | ok f mid => exact congrArg (· + 1) (ih mid)
    | error e mid => exact congrArg (· + 1) (ih sig)

/-- Reading several formulas adds the constants of those that can be read. -/
theorem parseEach_learns {texts : List String} {results : List (Except ParseError Formula)}
    (h : parseEach texts sig = (results, sig')) :
    Learns sig sig' fun c => ∃ f, .ok f ∈ results ∧ c ∈ f.constants := by
  induction texts generalizing sig results with
  | nil =>
    obtain ⟨rfl, rfl⟩ := Prod.mk.inj h
    exact (Learns.refl sig).congr (by simp)
  | cons text texts ih =>
    rw [parseEach] at h
    cases hparse : parse text sig with
    | ok f mid =>
      simp only [hparse] at h
      obtain ⟨rfl, rfl⟩ := Prod.mk.inj h
      refine ((parse_learns hparse).trans (ih rfl)).congr fun c => ?_
      simp [or_and_right, exists_or]
    | error e mid =>
      simp only [hparse] at h
      obtain ⟨rfl, rfl⟩ := Prod.mk.inj h
      exact (ih rfl).congr (by simp)

end Formula

end NaturalDeduction
