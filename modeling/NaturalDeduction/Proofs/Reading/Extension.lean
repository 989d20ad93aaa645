import NaturalDeduction.Proofs.Reading.Recording

/-!
# What reading does to the signature

A reading only adds to the signature: whether it succeeds or fails, every constant and every number of
arguments stays, and Skolem constants are left alone.  This holds of the single steps and is kept when
steps follow each other (`Reader.Augments`).

A reading that succeeds has added the constants and symbols of what it read, and nothing else
(`Widened`).  Where formulas are read one after the other, those that cannot be read might as well not
be there.
-/

set_option autoImplicit false

namespace NaturalDeduction

variable {α β : Type} {sig sig' : Signature}

/-! ### Readings that succeed or fail -/

namespace Reader

/-- Whatever comes of it, the reading only adds to the signature. -/
def Augments (reader : Reader α) : Prop :=
  ∀ sig : Signature, sig.Augments (reader.outcome sig).2

/-- Two readings in a row end where the first fails, and otherwise as the second does. -/
theorem outcome_bind (x : Reader α) (f : α → Reader β) (sig : Signature) :
    (x >>= f).outcome sig =
      match x sig with
      | .ok a mid => (f a).outcome mid
      | .error e mid => (.error e, mid) := by
  show (match EStateM.bind x f sig with
    | .ok b last => (Except.ok b, last)
    | .error e last => (.error e, last)) = _
  unfold EStateM.bind
  cases x sig <;> rfl

namespace Augments

/-- Reading nothing adds nothing. -/
theorem pure (a : α) : Augments (Pure.pure a) := Signature.Augments.refl

/-- An error adds nothing. -/
theorem throw (e : ParseError) : Augments (throw e : Reader α) := Signature.Augments.refl

/-- Two readings that only add do so one after the other. -/
theorem bind {x : Reader α} {f : α → Reader β} (hx : Augments x) (hf : ∀ a, Augments (f a)) :
    Augments (x >>= f) := by
  intro sig
  have hfirst := hx sig
  rw [outcome_bind]
  unfold outcome at hfirst
  cases h : x sig with
  | ok a mid =>
    rw [h] at hfirst
    exact hfirst.trans (hf a mid)
  | error e mid =>
    rw [h] at hfirst
    exact hfirst

/-- What is done without the signature adds nothing to it. -/
theorem ofExcept (x : Except ParseError α) : Augments (Reader.ofExcept x) := by
  cases x with
  | ok a => exact .pure a
  | error e => exact .throw e

/-- To learn a constant is to add it. -/
theorem addConstant (name : String) : Augments (Reader.addConstant name) :=
  fun sig => sig.augments_addConstant name

/-- To record a number of arguments is to add it, if there is no other. -/
theorem recordArity (kind : SymbolKind) (name : String) (count : Nat) :
    Augments (Reader.recordArity kind name count) := by
  intro sig
  unfold outcome Reader.recordArity
  cases h : sig.recordArity kind name count with
  | error e => exact .refl sig
  | ok last => exact (Signature.recordArity_spec h).1

end Augments

end Reader

namespace Term

mutual

/-- Reading a term only adds to the signature. -/
theorem augments_read (bound : List String) (text : List Char) :
    Reader.Augments (read bound text) := by
  rw [read_eq]
  match hparts : Application.parts? (Text.trim text) with
  | .error e => exact .throw e
  | .ok none =>
    refine .bind (.ofExcept _) fun name => ?_
    split
    · exact .pure _
    · exact .bind (.addConstant name) fun _ => .pure _
  | .ok (some (head, args)) =>
    have hlt : Application.weight (Application.split ',' args) < text.length := by
      have := Application.length_parts hparts
      have := Text.length_trim_le text
      rw [Application.weight_split]
      omega
    exact .bind (.ofExcept _) fun name => .bind (augments_readArgs bound _ _) fun ts =>
      .bind (.recordArity _ name _) fun _ => .pure _
termination_by text.length

/-- Reading arguments only adds to the signature. -/
theorem augments_readArgs (bound : List String) (whole : List Char) (pieces : List (List Char)) :
    Reader.Augments (readArgs bound whole pieces) := by
  cases pieces with
  | nil =>
    rw [readArgs]
    exact .pure []
  | cons piece pieces =>
    have hlt : piece.length < Application.weight (piece :: pieces) ∧
        Application.weight pieces < Application.weight (piece :: pieces) := by
      rw [Application.weight_cons]
      omega
    rw [readArgs]
    have hrest : Reader.Augments (do
        let t ← read bound piece
        let ts ← readArgs bound whole pieces
        return t :: ts) :=
      .bind (augments_read bound piece) fun _ => .bind (augments_readArgs bound whole pieces)
        fun _ => .pure _
    split
    · exact .bind (.throw _) fun _ => hrest
    · exact hrest
termination_by Application.weight pieces

end

end Term

namespace Formula

/-- Reading an atomic formula only adds to the signature. -/
theorem augments_readAtom (bound : List String) (text : List Char) :
    Reader.Augments (readAtom bound text) := by
  unfold readAtom
  split
  · exact .pure _
  · split
    · exact .pure _
    · split
      · refine .bind (.ofExcept _) fun parts => ?_
        cases parts with
        | none => exact .bind (.ofExcept _) fun _ => .pure _
        | some parts =>
          exact .bind (.ofExcept _) fun name => .bind (Term.augments_readArgs bound text _)
            fun ts => .bind (.recordArity _ name _) fun _ => .pure _
      · rename_i left right _
        have hsides : Reader.Augments (do
            let left ← Term.read bound left
            let right ← Term.read bound right
            return Formula.eq left right) :=
          .bind (Term.augments_read bound left) fun _ =>
            .bind (Term.augments_read bound right) fun _ => .pure _
        split
        · exact .bind (.throw _) fun _ => hsides
        · exact hsides
      · exact .throw _

/-- Reading a token only adds to the signature. -/
theorem augments_readToken (stack : List Waiting) (done : Finished) (token : Token) :
    Reader.Augments (readToken stack done token) := by
  cases token with
  | not | quantifier | opening => exact .pure _
  | connective op => exact .bind (.ofExcept _) fun _ => .pure _
  | closing bracket => exact .ofExcept _
  | operand text => exact .bind (augments_readAtom done.bound text) fun _ => .pure _

/-- Reading tokens only adds to the signature. -/
theorem augments_readTokens (tokens : List Token) (stack : List Waiting) (done : Finished) :
    Reader.Augments (readTokens stack done tokens) := by
  induction tokens generalizing stack done with
  | nil => exact .pure _
  | cons token tokens ih => exact .bind (augments_readToken stack done token) fun _ => ih _ _

/-- Reading a formula only adds to the signature, whatever comes of it. -/
theorem augments_parse (text : String) : Reader.Augments (parse text) := by
  unfold parse read
  refine .bind (augments_readTokens _ _ _) fun _ => ?_
  cases (Token.scan text.toList).2 with
  | some e => exact .throw e
  | none => exact .bind (.ofExcept _) fun _ => .ofExcept _

end Formula

/-! ### Readings that succeed -/

/-- The second signature is the first with the constants and symbols among the labels, and nothing
else. -/
structure Widened (sig sig' : Signature) (labels : List Label) : Prop where
  constants : ∀ c, c ∈ sig'.constants ↔ c ∈ sig.constants ∨ .const c ∈ labels
  arity : ∀ kind name count, sig'.arity? kind name = some count ↔
    sig.arity? kind name = some count ∨ .symbol kind name count ∈ labels
  skolems : sig'.skolems = sig.skolems
  skolemNext : sig'.skolemNext = sig.skolemNext

/-- A reading that records labels, learns their constants and only adds to the signature adds the
labels and nothing else. -/
theorem Records.widened {labels : List Label} (h : Records sig sig' labels)
    (hlearns : Learns sig sig' fun c => .const c ∈ labels) (haugments : sig.Augments sig') :
    Widened sig sig' labels where
  constants := hlearns.mem_constants
  arity kind name count := by
    refine ⟨h.arity kind name count, fun hcount => ?_⟩
    rcases hcount with hcount | hlabel
    · exact h.grows.arity kind name count hcount
    · exact (h.known _ hlabel).2.2
  skolems := haugments.skolems
  skolemNext := haugments.skolemNext

/-- A reading that only adds has added when it succeeds. -/
theorem Reader.Augments.of_ok {x : Reader α} (h : x.Augments) {a : α} (hx : x sig = .ok a sig') :
    sig.Augments sig' := by
  have hsig := h sig
  rwa [Reader.outcome_eq_ok.2 hx] at hsig

namespace Formula

/-- Reading a formula adds its labels and nothing else. -/
theorem parse_widened {text : String} {f : Formula} (h : parse text sig = .ok f sig') :
    Widened sig sig' f.labels :=
  (parse_records h).widened ((parse_learns h).congr fun _ => mem_constants_iff)
    ((augments_parse text).of_ok h)

/-! ### Reading formulas one after the other -/

/-- The texts that are read when texts are read one after the other. -/
def readable (texts : List String) (sig : Signature) : List String :=
  ((texts.zip (parseEach texts sig).1).filter fun entry => entry.2.isOk).map Prod.fst

/-- The texts that cannot be read make no difference to the others. -/
theorem parseEach_readable (texts : List String) (sig : Signature) :
    parseEach (readable texts sig) sig =
      ((parseEach texts sig).1.filter Except.isOk, (parseEach texts sig).2) := by
  unfold readable
  induction texts generalizing sig with
  | nil => rfl
  | cons text texts ih =>
    rw [parseEach]
    cases hparse : parse text sig with
    | ok f mid =>
      -- the text is kept, and reading it again goes to the same signature
      have hread : ∀ rest, parseEach (text :: rest) sig =
          (.ok f :: (parseEach rest mid).1, (parseEach rest mid).2) := by
        intro rest
        rw [parseEach, hparse]
      simp only [List.zip_cons_cons, List.filter_cons, Except.isOk, Except.toBool, if_true,
        List.map_cons, hread]
      exact congrArg (fun last => (.ok f :: last.1, last.2)) (ih mid)
    | error e mid => exact ih sig

/-- Reading a formula keeps what the signature holds and leaves Skolem constants alone, whether it
succeeds or fails.  If it succeeds, the constants and the numbers of arguments of the formula have been
added and nothing else, and all of them agree with the signature reached.  So, of formulas that are
read one after the other, those that cannot be read make no difference to the others. -/
theorem parse_augments_exactly (sig : Signature) :
    (∀ text : String, sig.Augments ((parse text).outcome sig).2 ∧
      ∀ f, ((parse text).outcome sig).1 = .ok f →
        Widened sig ((parse text).outcome sig).2 f.labels ∧
        ∀ kind name count, .symbol kind name count ∈ f.labels →
          ((parse text).outcome sig).2.arity? kind name = some count) ∧
    ∀ texts : List String, (parseEach texts sig).1.length = texts.length ∧
      parseEach (readable texts sig) sig =
        ((parseEach texts sig).1.filter Except.isOk, (parseEach texts sig).2) := by
  refine ⟨fun text => ⟨augments_parse text sig, fun f hf => ?_⟩,
    fun texts => ⟨length_parseEach texts sig, parseEach_readable texts sig⟩⟩
  have hparse : parse text sig = .ok f ((parse text).outcome sig).2 :=
    Reader.outcome_eq_ok.1 (Prod.ext hf rfl)
  have hwidened := parse_widened hparse
  exact ⟨hwidened, fun kind name count hl => (hwidened.arity kind name count).2 (Or.inr hl)⟩

/-- A formula with a relation and a function, and a batch in which the second text uses a relation with
another number of arguments and the third one lacks a bracket; the last one is read as if they were
not there, with two arguments for the relation that the second text gives one. -/
theorem parse_augments_exactly_batch :
    (((parse "P(a) → f(b) = a").outcome {}).1 =
        .ok (.binary .implies (.rel "P" [.const "a"]) (.eq (.app "f" [.const "b"]) (.const "a"))) ∧
      Widened {} ((parse "P(a) → f(b) = a").outcome {}).2
        [.symbol .relation "P" 1, .const "a", .symbol .function "f" 1, .const "b", .const "a"] ∧
      ((parse "P(a) → f(b) = a").outcome {}).2.arity? .relation "P" = some 1 ∧
      ((parse "P(a) → f(b) = a").outcome {}).2.arity? .function "f" = some 1) ∧
    ∃ texts results sig, texts = ["P(a)", "Q(c) ∧ P(a, b)", "(R(d)", "Q(a, f(a))"] ∧
      parseEach texts {} = (results, sig) ∧ readable texts {} = ["P(a)", "Q(a, f(a))"] ∧
      parseEach ["P(a)", "Q(a, f(a))"] {} = (results.filter Except.isOk, sig) ∧
      results.filter Except.isOk =
        [.ok (.rel "P" [.const "a"]), .ok (.rel "Q" [.const "a", .app "f" [.const "a"]])] ∧
      sig.arity? .relation "P" = some 1 ∧ sig.arity? .relation "Q" = some 2 ∧
      sig.arity? .function "f" = some 1 ∧ sig.arity? .relation "R" = none := by
  obtain ⟨hparse, hbatch⟩ := parse_augments_exactly {}
  have hread : ((parse "P(a) → f(b) = a").outcome {}).1 =
      .ok (.binary .implies (.rel "P" [.const "a"]) (.eq (.app "f" [.const "b"]) (.const "a"))) := by
    decide +kernel
  obtain ⟨hwidened, harity⟩ := (hparse "P(a) → f(b) = a").2 _ hread
  have hreadable : readable ["P(a)", "Q(c) ∧ P(a, b)", "(R(d)", "Q(a, f(a))"] {} =
      ["P(a)", "Q(a, f(a))"] := by decide +kernel
  refine ⟨⟨hread, hwidened, harity .relation "P" 1 (by decide), harity .function "f" 1 (by decide)⟩,
    _, _, _, rfl, rfl, hreadable, hreadable ▸ (hbatch _).2, ?_⟩
  decide +kernel

end Formula

end NaturalDeduction
