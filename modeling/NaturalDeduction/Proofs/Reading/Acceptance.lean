import Mathlib.Data.List.TakeWhile
import NaturalDeduction.Proofs.Reading.Binding

/-!
# Which texts are read

The machine never looks at where an operand stands.  It counts: an operator that is committed takes
the formulas finished last, whether they stand beside it or not.  So a text is read if its operands
can be read, its brackets match, there is one operand more than there are connectives, and every
token that ends the wait of operators comes late enough for them to find their operands.  Texts in
which operands and connectives alternate are among these, but they are not all of them.
-/

set_option autoImplicit false

namespace NaturalDeduction

namespace Token

/-! ### Counting operands and connectives -/

/-- Whether the token is an operand. -/
def isOperand : Token → Bool
  | .operand _ => true
  | _ => false

/-- Whether the token is a connective. -/
def isConnective : Token → Bool
  | .connective _ => true
  | _ => false

/-- Whether the token is a negation or a quantifier. -/
def isUnary : Token → Bool
  | .not | .quantifier _ _ => true
  | _ => false

/-- The bracket that a token opens. -/
def opens? : Token → Option Bracket
  | .opening b => some b
  | _ => none

/-- Brackets are closed in the order in which they were opened, each by one of its kind.  `expected`
holds the brackets to be closed, innermost first. -/
def matched (expected : List Bracket) : List Token → Bool
  | [] => expected.isEmpty
  | .opening b :: tokens => matched (b :: expected) tokens
  | .closing b :: tokens => expected.head? == some b && matched expected.tail tokens
  | _ :: tokens => matched expected tokens

/-- The tokens that wait on when a token arrives. -/
def keep (waiting : List Token) : Token → List Token
  | .connective op => waiting.dropWhile (yields op.precedence)
  | .closing _ => waiting.dropWhile fun token => !token.isOpening
  | _ => waiting

/-- A token can be taken in where these tokens wait and so many formulas are finished: a closing
bracket has its opening bracket, and the connectives that no longer wait leave at least one formula
behind. -/
structure Ready (waiting : List Token) (finished : Nat) (token : Token) : Prop where
  matches_opening : ∀ b, token = .closing b → (waiting.filterMap opens?).head? = some b
  enough : keep waiting token ≠ waiting →
    waiting.countP isConnective < finished + (keep waiting token).countP isConnective

/-- Tokens supply each other with operands, where these tokens wait and so many formulas are
finished before the first of them. -/
structure Supplied (waiting : List Token) (finished : Nat) (tokens : List Token) : Prop where
  /-- The brackets match. -/
  matched : matched (waiting.filterMap opens?) tokens = true
  /-- There is one operand more than there are connectives. -/
  total : finished + tokens.countP isOperand =
    waiting.countP isConnective + tokens.countP isConnective + 1
  /-- Whenever a token ends the wait of others, more operands have been read than there are
  connectives that no longer wait. -/
  enough : ∀ taken token rest, tokens = taken ++ token :: rest →
    keep (taken.foldl wait waiting) token ≠ taken.foldl wait waiting →
      waiting.countP isConnective + taken.countP isConnective <
        finished + taken.countP isOperand +
          (keep (taken.foldl wait waiting) token).countP isConnective

end Token

/-- Whether a connective waits. -/
def Formula.Waiting.isConnective : Waiting → Bool
  | .operator (.binary _) => true
  | _ => false

namespace Token

variable {waiting tokens : List Token} {token : Token} {finished finished' : Nat}

/-- Tokens that open no brackets can be left out when brackets are counted. -/
theorem filterMap_opens_dropWhile {p : Token → Bool}
    (hp : ∀ token, p token = true → opens? token = none) (waiting : List Token) :
    (waiting.dropWhile p).filterMap opens? = waiting.filterMap opens? := by
  induction waiting with
  | nil => rfl
  | cons token waiting ih =>
    rw [List.dropWhile_cons]
    split
    · rename_i htoken
      rw [ih, List.filterMap_cons_none (hp token htoken)]
    · rfl

/-- A token whose wait a connective ends opens no bracket. -/
theorem opens_of_yields {precedence : Nat} (token : Token) (h : token.yields precedence = true) :
    opens? token = none := by
  cases token with
  | opening b => simp [yields] at h
  | _ => rfl

/-- A token that is no opening bracket opens none. -/
theorem opens_of_not_isOpening (token : Token) (h : (!token.isOpening) = true) :
    opens? token = none := by
  cases token with
  | opening b => simp [isOpening] at h
  | _ => rfl

/-- What waits after the tokens in front of the first opening bracket is that bracket. -/
theorem dropWhile_isOpening_eq (waiting : List Token) :
    (waiting.dropWhile fun token => !token.isOpening) = [] ∨
      ∃ b outer, (waiting.dropWhile fun token => !token.isOpening) = .opening b :: outer := by
  induction waiting with
  | nil => exact Or.inl rfl
  | cons token waiting ih =>
    cases token with
    | opening b => exact Or.inr ⟨b, waiting, rfl⟩
    | _ => exact ih

/-- Brackets match if the first token closes no bracket but the innermost one, and the brackets of
the others match where it has been taken in. -/
theorem matched_cons : matched (waiting.filterMap opens?) (token :: tokens) = true ↔
    (∀ b, token = .closing b → (waiting.filterMap opens?).head? = some b) ∧
      matched ((wait waiting token).filterMap opens?) tokens = true := by
  cases token with
  | closing b =>
    have htail : (wait waiting (.closing b)).filterMap opens? =
        (waiting.filterMap opens?).tail := by
      rw [← filterMap_opens_dropWhile opens_of_not_isOpening waiting, wait]
      obtain hnil | ⟨b', outer, hcons⟩ := dropWhile_isOpening_eq waiting
      · rw [hnil]; rfl
      · rw [hcons]; rfl
    simp [matched, htail]
  | connective op =>
    have hsame : (wait waiting (.connective op)).filterMap opens? = waiting.filterMap opens? :=
      filterMap_opens_dropWhile opens_of_yields waiting
    simp [matched, hsame]
  | not | quantifier | opening | operand => simp [matched, wait, opens?, List.filterMap_cons]

/-- The connectives that wait after a token are those that it keeps and itself. -/
theorem countP_wait : (wait waiting token).countP isConnective =
    (keep waiting token).countP isConnective + [token].countP isConnective := by
  cases token with
  | closing b =>
    obtain hnil | ⟨b', outer, hcons⟩ := dropWhile_isOpening_eq waiting
    · simp [wait, keep, hnil, isConnective]
    · simp [wait, keep, hcons, isConnective]
  | not | quantifier | opening | operand | connective =>
    simp [wait, keep, isConnective, List.countP_cons]

/-- The first of tokens that supply each other can be taken in. -/
theorem Supplied.ready (h : Supplied waiting finished (token :: tokens)) :
    Ready waiting finished token := by
  refine ⟨(matched_cons.1 h.matched).1, fun hkeep => ?_⟩
  simpa using h.enough [] token tokens rfl hkeep

/-- The tokens supply each other if the first can be taken in and the others, behind it, supply each
other. -/
theorem supplied_cons (hcount : finished' + waiting.countP isConnective =
    finished + [token].countP isOperand + (keep waiting token).countP isConnective) :
    Supplied waiting finished (token :: tokens) ↔
      Ready waiting finished token ∧ Supplied (wait waiting token) finished' tokens := by
  have hwait := @countP_wait waiting token
  have hoperands : (token :: tokens).countP isOperand =
      [token].countP isOperand + tokens.countP isOperand := by
    rw [← List.singleton_append, List.countP_append]
  have hconnectives : (token :: tokens).countP isConnective =
      [token].countP isConnective + tokens.countP isConnective := by
    rw [← List.singleton_append, List.countP_append]
  constructor
  · intro h
    have htotal := h.total
    refine ⟨h.ready, (matched_cons.1 h.matched).2, by omega, ?_⟩
    · intro taken next rest htokens hkeep
      have := h.enough (token :: taken) next rest (congrArg (token :: ·) htokens) hkeep
      rw [List.foldl_cons, ← List.singleton_append, List.countP_append, List.countP_append] at this
      omega
  · rintro ⟨⟨hclosing, hready⟩, hmatched, htotal, henough⟩
    refine ⟨matched_cons.2 ⟨hclosing, hmatched⟩, by omega, ?_⟩
    rintro (_ | ⟨first, taken⟩) next rest htokens hkeep
    · obtain ⟨rfl, rfl⟩ := List.cons.inj htokens
      simpa using hready hkeep
    · obtain ⟨rfl, hrest⟩ := List.cons.inj htokens
      have := henough taken next rest hrest hkeep
      rw [List.foldl_cons, ← List.singleton_append, List.countP_append, List.countP_append]
      omega

/-- Behind tokens that alternate, an operand is expected again or not, and the operands read are as
many as the connectives or one more. -/
theorem alternate_append {expected : Bool} {taken rest : List Token}
    (h : alternate expected ((taken ++ rest).filter fun token => !token.isUnary) = true) :
    ∃ expected', alternate expected' (rest.filter fun token => !token.isUnary) = true ∧
      taken.countP isOperand + (!expected).toNat =
        taken.countP isConnective + (!expected').toNat := by
  induction taken generalizing expected with
  | nil => exact ⟨expected, h, by simp⟩
  | cons token taken ih =>
    cases token with
    | not | quantifier =>
      obtain ⟨expected', hrest, hcount⟩ := ih h
      exact ⟨expected', hrest, by simpa [isOperand, isConnective] using hcount⟩
    | opening | operand =>
      obtain ⟨rfl, h⟩ := Bool.and_eq_true_iff.1 h
      obtain ⟨expected', hrest, hcount⟩ := ih h
      exact ⟨expected', hrest, by simp [isOperand, isConnective, List.countP_cons] at hcount ⊢; omega⟩
    | connective | closing =>
      obtain ⟨hexpected, h⟩ := Bool.and_eq_true_iff.1 h
      obtain rfl : expected = false := by simpa using hexpected
      obtain ⟨expected', hrest, hcount⟩ := ih h
      exact ⟨expected', hrest, by simp [isOperand, isConnective, List.countP_cons] at hcount ⊢; omega⟩

/-- Where operands and connectives alternate, the tokens supply each other. -/
theorem supplied_of_alternate (hmatched : matched [] tokens = true)
    (halternate : alternate true (tokens.filter fun token => !token.isUnary) = true) :
    Supplied [] 0 tokens := by
  refine ⟨hmatched, ?_, ?_⟩
  · obtain ⟨expected, hend, hcount⟩ := @alternate_append true tokens [] (by simpa using halternate)
    obtain rfl : expected = false := by simpa [alternate] using hend
    simpa using hcount
  · rintro taken token rest rfl hkeep
    obtain ⟨expected, hrest, hcount⟩ := alternate_append halternate
    -- Only a connective and a closing bracket end a wait, and neither stands where an operand is
    -- expected.
    obtain rfl : expected = false := by
      cases token with
      | connective | closing => simpa using (Bool.and_eq_true_iff.1 hrest).1
      | _ => exact absurd rfl hkeep
    simp at hcount ⊢
    omega

end Token

namespace Formula

/-! ### What is committed -/

variable {level : Nat} {waiting : List Token} {stack stack' : List Waiting}
  {done done' : Finished} {sig sig' : Signature}

/-- As many connectives wait on the stack as there are among the waiting tokens. -/
theorem Waits.countP_eq {bound : List String} (h : Waits waiting stack bound) :
    waiting.countP Token.isConnective = stack.countP Waiting.isConnective := by
  induction h with
  | nil => rfl
  | _ => simp_all [List.countP_cons, Token.isConnective, Waiting.isConnective]

/-- A committed connective makes one formula of two; what is committed leaves a formula behind. -/
theorem Commits.length_eq {op : Operator} (h : Commits op done done') :
    done'.formulas ≠ [] ∧ done'.formulas.length +
      [Waiting.operator op].countP Waiting.isConnective = done.formulas.length := by
  cases h <;> simp [Waiting.isConnective, List.countP_cons]

/-- Each connective that is committed makes one formula of two, and one formula is always left. -/
theorem Settles.length_eq (h : Settles level stack done stack' done') :
    (done.formulas ≠ [] → done'.formulas ≠ []) ∧ (stack = stack' ∨ done'.formulas ≠ []) ∧
      done'.formulas.length + stack.countP Waiting.isConnective =
        done.formulas.length + stack'.countP Waiting.isConnective := by
  induction h with
  | refl => exact ⟨id, Or.inl rfl, rfl⟩
  | commit _ hcommit _ ih =>
    obtain ⟨hne, hlength⟩ := (Finished.commits hcommit).length_eq
    obtain ⟨hkeeps, -, hcount⟩ := ih
    refine ⟨fun _ => hkeeps hne, Or.inr (hkeeps hne), ?_⟩
    rw [← List.singleton_append, List.countP_append]
    omega

/-- As many operators and brackets are on the stack as tokens wait. -/
theorem Waits.length_eq {bound : List String} (h : Waits waiting stack bound) :
    waiting.length = stack.length := by
  induction h with
  | nil => rfl
  | _ => simp_all

/-- What is committed leaves a formula behind, and the formulas are counted by the connectives that
no longer wait. -/
theorem Waits.count_of_settles {kept : List Token} (h : Waits waiting stack done.bound)
    (hkept : Waits kept stack' done'.bound) (hsuffix : kept <:+ waiting)
    (hsettles : Settles level stack done stack' done') :
    (kept ≠ waiting → waiting.countP Token.isConnective <
        done.formulas.length + kept.countP Token.isConnective) ∧
      done'.formulas.length + waiting.countP Token.isConnective =
        done.formulas.length + kept.countP Token.isConnective := by
  obtain ⟨-, hleft, hcount⟩ := hsettles.length_eq
  rw [← h.countP_eq, ← hkept.countP_eq] at hcount
  refine ⟨fun hne => ?_, hcount⟩
  have hstack : stack ≠ stack' := fun heq => hne (hsuffix.eq_of_length (by
    rw [hkept.length_eq, h.length_eq, heq]))
  have hpos := List.length_pos_iff.2 (hleft.resolve_left hstack)
  omega

/-- The first token that waits can be committed if it leaves a formula behind. -/
theorem Waits.exists_commit {token : Token} {rest : List Token}
    (h : Waits (token :: rest) stack done.bound) (hyields : token.yields level = true)
    (henough : [token].countP Token.isConnective < done.formulas.length) :
    ∃ op outer mid, stack = .operator op :: outer ∧ op.priority ≤ level ∧
      done.commit op = .ok mid ∧ Waits rest outer mid.bound ∧
        mid.formulas.length + [token].countP Token.isConnective = done.formulas.length := by
  obtain ⟨formulas, bound⟩ := done
  cases h with
  | not h =>
    rcases formulas with _ | ⟨f, fs⟩
    · simp at henough
    · exact ⟨.not, _, ⟨.neg f :: fs, bound⟩, rfl, of_decide_eq_true hyields, rfl, h, rfl⟩
  | connective op h =>
    rcases formulas with _ | ⟨g, _ | ⟨f, fs⟩⟩
    · simp at henough
    · simp [Token.isConnective] at henough
    · exact ⟨.binary op, _, ⟨.binary op f g :: fs, bound⟩, rfl, of_decide_eq_true hyields, rfl, h,
        rfl⟩
  | quantifier q var h =>
    rcases formulas with _ | ⟨f, fs⟩
    · simp at henough
    · exact ⟨.quantifier q, _, ⟨.quant q var f :: fs, _⟩, rfl, of_decide_eq_true hyields, rfl, h,
        rfl⟩
  | opening b h => simp [Token.yields] at hyields

/-- Operators can be committed as long as they leave a formula behind. -/
theorem Waits.exists_settles {dropped rest : List Token}
    (h : Waits (dropped ++ rest) stack done.bound)
    (hyields : ∀ token ∈ dropped, token.yields level = true)
    (henough : dropped ≠ [] → dropped.countP Token.isConnective < done.formulas.length) :
    ∃ stack' done', Settles level stack done stack' done' ∧ Waits rest stack' done'.bound := by
  induction dropped generalizing stack done with
  | nil => exact ⟨stack, done, .refl _ _, h⟩
  | cons token dropped ih =>
    obtain ⟨hfirst, hothers⟩ := List.forall_mem_cons.1 hyields
    have hlt := henough (List.cons_ne_nil _ _)
    rw [← List.singleton_append, List.countP_append] at hlt
    obtain ⟨op, outer, mid, rfl, hle, hcommit, hwaits, hlength⟩ :=
      h.exists_commit hfirst (by omega)
    obtain ⟨stack', done', hsettles, hwaits'⟩ := ih hwaits hothers fun _ => by omega
    exact ⟨stack', done', .commit hle hcommit hsettles, hwaits'⟩

/-- The case that the committed operators are the first ones with a property. -/
theorem Waits.exists_settles_dropWhile {p : Token → Bool} (h : Waits waiting stack done.bound)
    (hyields : ∀ token ∈ waiting, p token = true → token.yields level = true)
    (henough : waiting.dropWhile p ≠ waiting → waiting.countP Token.isConnective <
      done.formulas.length + (waiting.dropWhile p).countP Token.isConnective) :
    ∃ stack' done', Settles level stack done stack' done' ∧
      Waits (waiting.dropWhile p) stack' done'.bound := by
  have hsplit := @List.takeWhile_append_dropWhile _ p waiting
  have hcount := congrArg (List.countP Token.isConnective) hsplit
  rw [List.countP_append] at hcount
  refine Waits.exists_settles (hsplit.symm ▸ h) (fun token hmem => ?_) fun hne => ?_
  · exact hyields token ((List.takeWhile_sublist p).subset hmem) (List.mem_takeWhile_imp hmem)
  · have hdrop : waiting.dropWhile p ≠ waiting := fun heq => hne (by simpa [heq] using hsplit)
    have := henough hdrop
    omega

/-- A connective can be taken in if what it commits leaves a formula behind. -/
theorem Waits.exists_commitTighter (h : Waits waiting stack done.bound)
    (henough : waiting.dropWhile (Token.yields level) ≠ waiting →
      waiting.countP Token.isConnective <
        done.formulas.length + (waiting.dropWhile (Token.yields level)).countP Token.isConnective) :
    ∃ stack' done', commitTighter level stack done = .ok (stack', done') := by
  obtain ⟨stack', done', hsettles, hwaits⟩ :=
    h.exists_settles_dropWhile (fun token _ hyields => hyields) henough
  refine ⟨stack', done', ?_⟩
  rw [hsettles.commitTighter_eq (Nat.le_refl _)]
  have hhead := @List.head?_dropWhile_not _ (Token.yields level) waiting
  generalize waiting.dropWhile (Token.yields level) = kept, done'.bound = bound at hwaits hhead
  cases hwaits with
  | nil | opening => rw [commitTighter]; simp
  | not h | connective op h | quantifier q var h =>
    rw [commitTighter, if_neg]
    simpa [Token.yields, Operator.priority] using hhead

/-- The wait of everything but opening brackets is ended by the weakest connective. -/
theorem Waits.yields_of_not_isOpening {bound : List String} (h : Waits waiting stack bound)
    {token : Token} (hmem : token ∈ waiting) (hopening : (!token.isOpening) = true) :
    token.yields Connective.iff.precedence = true := by
  induction h with
  | nil => simp at hmem
  | not _ ih | quantifier _ _ _ ih =>
    obtain rfl | hmem := List.mem_cons.1 hmem
    · rfl
    · exact ih hmem
  | connective op _ ih =>
    obtain rfl | hmem := List.mem_cons.1 hmem
    · cases op <;> rfl
    · exact ih hmem
  | opening b _ ih =>
    obtain rfl | hmem := List.mem_cons.1 hmem
    · simp [Token.isOpening] at hopening
    · exact ih hmem

/-- A closing bracket can be taken in if it has its opening bracket and what it commits leaves a
formula behind. -/
theorem Waits.exists_closeGroup {b : Bracket} (h : Waits waiting stack done.bound)
    (hready : Token.Ready waiting done.formulas.length (.closing b)) :
    ∃ stack' done', closeGroup b stack done = .ok (stack', done') := by
  obtain ⟨stack', done', hsettles, hwaits⟩ :=
    h.exists_settles_dropWhile (fun token => h.yields_of_not_isOpening) hready.enough
  have hopens := hready.matches_opening b rfl
  rw [← Token.filterMap_opens_dropWhile Token.opens_of_not_isOpening] at hopens
  obtain hnil | ⟨b', outer, hcons⟩ := Token.dropWhile_isOpening_eq waiting
  · simp [hnil] at hopens
  · rw [hcons] at hopens hwaits
    obtain rfl : b' = b := by simpa [Token.opens?] using hopens
    generalize done'.bound = bound at hwaits
    cases hwaits with
    | @opening _ behind _ b hwaits =>
      refine ⟨behind, done', ?_⟩
      rw [hsettles.closeGroup_eq, closeGroup, if_pos rfl]

/-! ### Reading operands -/

/-- Reads the operands among the tokens, each with the names that wait. -/
def readOperands (waiting : List Token) : List Token → Reader (List Formula)
  | [] => pure []
  | .operand text :: tokens => do
    let f ← readAtom (waiting.filterMap Token.binder?) text
    let fs ← readOperands waiting tokens
    return f :: fs
  | token :: tokens => readOperands (Token.wait waiting token) tokens

/-- Operands are read one after the other, each with the names that wait then. -/
theorem readOperands_cons_eq_ok {token : Token} {tokens : List Token} {fs : List Formula} :
    readOperands waiting (token :: tokens) sig = .ok fs sig' ↔
      ∃ new rest mid, fs = new ++ rest ∧ readOperands waiting [token] sig = .ok new mid ∧
        readOperands (Token.wait waiting token) tokens mid = .ok rest sig' := by
  cases token with
  | operand text =>
    simp only [readOperands, Reader.bind_eq_ok, Reader.pure_eq_ok]
    constructor
    · rintro ⟨f, mid, hf, rest, last, hrest, rfl, rfl⟩
      exact ⟨[f], rest, mid, rfl, ⟨f, mid, hf, [], mid, ⟨rfl, rfl⟩, rfl, rfl⟩, hrest⟩
    · rintro ⟨new, rest, mid, rfl, ⟨f, mid', hf, _, _, ⟨rfl, rfl⟩, rfl, rfl⟩, hrest⟩
      exact ⟨f, _, hf, rest, sig', hrest, rfl, rfl⟩
  | _ =>
    simp only [readOperands, Reader.pure_eq_ok]
    constructor
    · intro h
      exact ⟨[], fs, sig, rfl, ⟨rfl, rfl⟩, h⟩
    · rintro ⟨_, rest, _, rfl, ⟨rfl, rfl⟩, h⟩
      exact h

/-- What a token that was taken in needed, and what it leaves. -/
theorem Waits.readToken_of_ok {token : Token} (h : Waits waiting stack done.bound)
    (hread : readToken stack done token sig = .ok (stack', done') sig') :
    Token.Ready waiting done.formulas.length token ∧
      Waits (Token.wait waiting token) stack' done'.bound ∧
      done'.formulas.length + waiting.countP Token.isConnective =
        done.formulas.length + [token].countP Token.isOperand +
          (Token.keep waiting token).countP Token.isConnective ∧
      ∃ new, readOperands waiting [token] sig = .ok new sig' ∧ done'.atoms = done.atoms ++ new := by
  cases token with
  | not =>
    obtain ⟨heq, rfl⟩ := Reader.pure_eq_ok.1 hread
    obtain ⟨rfl, rfl⟩ := Prod.mk.inj heq
    exact ⟨⟨by rintro _ ⟨⟩, fun hne => absurd rfl hne⟩, .not h, rfl, [], rfl, by simp⟩
  | opening b =>
    obtain ⟨heq, rfl⟩ := Reader.pure_eq_ok.1 hread
    obtain ⟨rfl, rfl⟩ := Prod.mk.inj heq
    exact ⟨⟨by rintro _ ⟨⟩, fun hne => absurd rfl hne⟩, .opening b h, rfl, [], rfl, by simp⟩
  | quantifier q var =>
    obtain ⟨heq, rfl⟩ := Reader.pure_eq_ok.1 hread
    obtain ⟨rfl, rfl⟩ := Prod.mk.inj heq
    exact ⟨⟨by rintro _ ⟨⟩, fun hne => absurd rfl hne⟩, .quantifier q var h, rfl, [], rfl,
      by simp [Finished.atoms]⟩
  | connective op =>
    obtain ⟨⟨mid, done₁⟩, last, hfirst, hread⟩ := Reader.bind_eq_ok.1 hread
    obtain ⟨hcommit, rfl⟩ := Reader.ofExcept_eq_ok.1 hfirst
    obtain ⟨heq, rfl⟩ := Reader.pure_eq_ok.1 hread
    obtain ⟨rfl, rfl⟩ := Prod.mk.inj heq
    obtain ⟨hsettles, -⟩ := settles_of_commitTighter hcommit
    have hwaits := h.connective_of_ok hcommit
    obtain ⟨henough, hcount⟩ := h.count_of_settles hwaits (List.dropWhile_suffix _) hsettles
    exact ⟨⟨by rintro _ ⟨⟩, henough⟩, .connective op hwaits, hcount, [], rfl,
      by simpa [Finished.atoms] using hsettles.atoms_eq⟩
  | closing b =>
    obtain ⟨hclose, rfl⟩ := Reader.ofExcept_eq_ok.1 hread
    obtain ⟨level, hsettles⟩ := settles_of_closeGroup hclose
    obtain ⟨outer, houter, hwaits⟩ := h.closing_of_ok hclose
    -- the opening bracket is kept until the group has been counted
    have hkept : Waits (Token.keep waiting (.closing b)) (.bracket b :: stack') done'.bound := by
      rw [Token.keep, houter]
      exact .opening b hwaits
    obtain ⟨henough, hcount⟩ := h.count_of_settles hkept (List.dropWhile_suffix _) hsettles
    refine ⟨⟨?_, henough⟩, ?_, hcount, [], rfl, by simpa using hsettles.atoms_eq⟩
    · rintro _ ⟨⟩
      rw [← Token.filterMap_opens_dropWhile Token.opens_of_not_isOpening, houter]
      rfl
    · rw [Token.wait, houter]
      exact hwaits
  | operand text =>
    obtain ⟨f, mid, hf, hread⟩ := Reader.bind_eq_ok.1 hread
    obtain ⟨heq, rfl⟩ := Reader.pure_eq_ok.1 hread
    obtain ⟨rfl, rfl⟩ := Prod.mk.inj heq
    obtain ⟨-, hatom, -⟩ := readAtom_learns hf
    refine ⟨⟨by rintro _ ⟨⟩, fun hne => absurd rfl hne⟩, h, rfl, [f], ?_, ?_⟩
    · rw [h.bound_eq] at hf
      exact Reader.bind_eq_ok.2 ⟨f, _, hf, rfl⟩
    · simp [Finished.atoms, atoms_of_precedence hatom]

/-- A token that is ready, and whose operand can be read, is taken in. -/
theorem Waits.exists_readToken {token : Token} {new : List Formula}
    (h : Waits waiting stack done.bound) (hready : Token.Ready waiting done.formulas.length token)
    (hnew : readOperands waiting [token] sig = .ok new sig') :
    ∃ stack' done', readToken stack done token sig = .ok (stack', done') sig' := by
  cases token with
  | not | opening b | quantifier q var =>
    obtain ⟨-, rfl⟩ := Reader.pure_eq_ok.1 hnew
    exact ⟨_, _, rfl⟩
  | connective op =>
    obtain ⟨-, rfl⟩ := Reader.pure_eq_ok.1 hnew
    obtain ⟨stack', done', hcommit⟩ := h.exists_commitTighter hready.enough
    exact ⟨_, done', Reader.bind_eq_ok.2
      ⟨(stack', done'), sig, Reader.ofExcept_eq_ok.2 ⟨hcommit, rfl⟩, rfl⟩⟩
  | closing b =>
    obtain ⟨-, rfl⟩ := Reader.pure_eq_ok.1 hnew
    obtain ⟨stack', done', hclose⟩ := h.exists_closeGroup hready
    exact ⟨stack', done', Reader.ofExcept_eq_ok.2 ⟨hclose, rfl⟩⟩
  | operand text =>
    obtain ⟨f, mid, hf, hrest⟩ := Reader.bind_eq_ok.1 hnew
    obtain ⟨-, rfl⟩ := Reader.pure_eq_ok.1 hrest
    rw [← h.bound_eq] at hf
    exact ⟨stack, _, Reader.bind_eq_ok.2 ⟨f, mid, hf, rfl⟩⟩

/-! ### All tokens -/

/-- At the end one formula is left if no bracket is open and the formulas are one more than the
connectives that wait. -/
theorem Waits.exists_commitAll_iff (h : Waits waiting stack done.bound) :
    (∃ last f, commitAll stack done = .ok last ∧ last.formulas = [f]) ↔
      Token.Supplied waiting done.formulas.length [] := by
  constructor
  · rintro ⟨last, f, hcommit, hlast⟩
    obtain ⟨level, hsettles⟩ := settles_of_commitAll hcommit
    obtain ⟨dropped, rest, rfl, hwaits, hyields⟩ := h.settle hsettles
    obtain ⟨-, hcount⟩ := h.count_of_settles hwaits (List.suffix_append _ _) hsettles
    obtain rfl : rest = [] := List.length_eq_zero_iff.1 hwaits.length_eq
    rw [hlast, List.append_nil] at hcount
    refine ⟨?_, ?_, by simp⟩
    · have hopens : dropped.filterMap Token.opens? = [] :=
        List.filterMap_eq_nil_iff.2 fun token hmem => Token.opens_of_yields token (hyields token hmem)
      simp [Token.matched, hopens]
    · simp at hcount ⊢
      omega
  · rintro ⟨hmatched, htotal, -⟩
    have hopens : waiting.filterMap Token.opens? = [] := by simpa [Token.matched] using hmatched
    have hkeep : waiting.dropWhile (fun token => !token.isOpening) = [] := by
      rw [← Token.filterMap_opens_dropWhile Token.opens_of_not_isOpening] at hopens
      obtain hnil | ⟨b, outer, hcons⟩ := Token.dropWhile_isOpening_eq waiting
      · exact hnil
      · simp [hcons, Token.opens?] at hopens
    obtain ⟨stack', done', hsettles, hwaits⟩ :=
      h.exists_settles_dropWhile (fun token => h.yields_of_not_isOpening) fun _ => by
        simp at htotal
        omega
    obtain ⟨-, hcount⟩ := h.count_of_settles hwaits (List.dropWhile_suffix _) hsettles
    rw [hkeep] at hwaits hcount
    obtain rfl : stack' = [] := List.length_eq_zero_iff.1 hwaits.length_eq.symm
    obtain ⟨f, hf⟩ : ∃ f, done'.formulas = [f] := List.length_eq_one_iff.1 (by
      simp at htotal hcount
      omega)
    exact ⟨done', f, by rw [hsettles.commitAll_eq, commitAll], hf⟩

/-- If the machine takes in tokens and is left with one formula, the operands were read in their
order and the tokens supply each other. -/
theorem Waits.supplied_of_ok {tokens : List Token} {last : Finished} {f : Formula}
    (h : Waits waiting stack done.bound)
    (hread : readTokens stack done tokens sig = .ok (stack', done') sig')
    (hcommit : commitAll stack' done' = .ok last) (hlast : last.formulas = [f]) :
    (∃ fs, f.atoms = done.atoms ++ fs ∧ readOperands waiting tokens sig = .ok fs sig') ∧
      Token.Supplied waiting done.formulas.length tokens := by
  induction tokens generalizing waiting stack done sig with
  | nil =>
    obtain ⟨heq, rfl⟩ := Reader.pure_eq_ok.1 hread
    obtain ⟨rfl, rfl⟩ := Prod.mk.inj heq
    obtain ⟨level, hsettles⟩ := settles_of_commitAll hcommit
    have hatoms := hsettles.atoms_eq
    refine ⟨⟨[], ?_, rfl⟩, h.exists_commitAll_iff.1 ⟨last, f, hcommit, hlast⟩⟩
    simpa [Finished.atoms, hlast] using hatoms
  | cons token tokens ih =>
    obtain ⟨⟨mid, done₁⟩, sig₁, htoken, hread⟩ := Reader.bind_eq_ok.1 hread
    obtain ⟨hready, hwaits, hcount, new, hnew, hatoms⟩ := h.readToken_of_ok htoken
    obtain ⟨⟨rest, hrest, hoperands⟩, hsupplied⟩ := ih hwaits hread
    refine ⟨⟨new ++ rest, ?_, ?_⟩, (Token.supplied_cons hcount).2 ⟨hready, hsupplied⟩⟩
    · rw [hrest, hatoms, List.append_assoc]
    · exact readOperands_cons_eq_ok.2 ⟨new, rest, sig₁, rfl, hnew, hoperands⟩

/-- If the operands can be read and the tokens supply each other, the machine takes in the tokens
and is left with one formula. -/
theorem Waits.exists_readTokens {tokens : List Token} {fs : List Formula}
    (h : Waits waiting stack done.bound)
    (hoperands : readOperands waiting tokens sig = .ok fs sig')
    (hsupplied : Token.Supplied waiting done.formulas.length tokens) :
    ∃ stack' done' last f, readTokens stack done tokens sig = .ok (stack', done') sig' ∧
      commitAll stack' done' = .ok last ∧ last.formulas = [f] := by
  induction tokens generalizing waiting stack done sig fs with
  | nil =>
    obtain ⟨-, rfl⟩ := Reader.pure_eq_ok.1 hoperands
    obtain ⟨last, f, hcommit, hlast⟩ := h.exists_commitAll_iff.2 hsupplied
    exact ⟨stack, done, last, f, rfl, hcommit, hlast⟩
  | cons token tokens ih =>
    obtain ⟨new, rest, sig₁, rfl, hnew, hrest⟩ := readOperands_cons_eq_ok.1 hoperands
    have hready : Token.Ready waiting done.formulas.length token := hsupplied.ready
    obtain ⟨mid, done₁, htoken⟩ := h.exists_readToken hready hnew
    obtain ⟨-, hwaits, hcount, -⟩ := h.readToken_of_ok htoken
    obtain ⟨stack', done', last, f, hread, hcommit, hlast⟩ :=
      ih hwaits hrest ((Token.supplied_cons hcount).1 hsupplied).2
    exact ⟨stack', done', last, f, Reader.bind_eq_ok.2 ⟨(mid, done₁), sig₁, htoken, hread⟩,
      hcommit, hlast⟩

/-- A text is read exactly if it can be cut into tokens, its operands can be read and its tokens
supply each other; the formula then has these operands in their order.  Tokens supply each other
wherever, negations and quantifiers aside, operands and connectives alternate. -/
theorem parse_ok_iff_supplied (text : String) (sig : Signature) :
    (∀ fs sig', (∃ f, parse text sig = .ok f sig' ∧ f.atoms = fs) ↔
      (Token.scan text.toList).2 = none ∧
        readOperands [] (Token.scan text.toList).1 sig = .ok fs sig' ∧
        Token.Supplied [] 0 (Token.scan text.toList).1) ∧
    (Token.matched [] (Token.scan text.toList).1 = true →
      Token.alternate true ((Token.scan text.toList).1.filter fun token => !token.isUnary) = true →
        Token.Supplied [] 0 (Token.scan text.toList).1) := by
  have hstart : Waits [] [] ({} : Finished).bound := .nil
  refine ⟨fun fs sig' => ⟨?_, ?_⟩, Token.supplied_of_alternate⟩
  · rintro ⟨f, hparse, rfl⟩
    obtain ⟨hscan, stack, done, last, hread, hcommit, hlast⟩ := parse_eq_ok.1 hparse
    obtain ⟨⟨fs, hfs, hoperands⟩, hsupplied⟩ := hstart.supplied_of_ok hread hcommit hlast
    rw [hfs]
    exact ⟨hscan, hoperands, hsupplied⟩
  · rintro ⟨hscan, hoperands, hsupplied⟩
    obtain ⟨stack, done, last, f, hread, hcommit, hlast⟩ :=
      hstart.exists_readTokens hoperands hsupplied
    obtain ⟨⟨fs', hfs, hoperands'⟩, -⟩ := hstart.supplied_of_ok hread hcommit hlast
    obtain ⟨rfl, -⟩ := EStateM.Result.ok.inj (hoperands.symm.trans hoperands')
    exact ⟨f, parse_eq_ok.2 ⟨hscan, stack, done, last, hread, hcommit, hlast⟩, hfs⟩

/-- Operands that alternate with connectives, in and around a group under a quantifier and a
negation. -/
theorem parse_ok_iff_supplied_grouped :
    ∃ f sig, parse "∀x ¬[P(x) & Q] → R" {} = .ok f sig ∧
      f.atoms = [.rel "P" [.var "x"], .prop "Q", .prop "R"] := by
  have hoperands : (readOperands [] (Token.scan "∀x ¬[P(x) & Q] → R".toList).1).outcome {} =
      (.ok [.rel "P" [.var "x"], .prop "Q", .prop "R"],
        ({} : Signature).setArity .relation "P" 1) := by decide +kernel
  have haccepts := parse_ok_iff_supplied "∀x ¬[P(x) & Q] → R" {}
  obtain ⟨f, hparse, hatoms⟩ := (haccepts.1 _ _).2 ⟨by decide +kernel,
    Reader.outcome_eq_ok.1 hoperands, haccepts.2 (by decide +kernel) (by decide +kernel)⟩
  exact ⟨f, _, hparse, hatoms⟩

/-- A connective without a left operand, one whose left operand stands outside its group, and an
empty group are all read; in none of these texts do operands and connectives alternate. -/
theorem parse_operands_out_of_place :
    (∃ sig, parse "& (a) (b)" {} = .ok (.binary .and (.prop "a") (.prop "b")) sig) ∧
    (∃ sig, parse "(a)(& b)" {} = .ok (.binary .and (.prop "a") (.prop "b")) sig) ∧
    (∃ sig, parse "a ()" {} = .ok (.prop "a") sig) ∧
    ∀ text ∈ ["& (a) (b)", "(a)(& b)", "a ()"],
      Token.alternate true ((Token.scan text.toList).1.filter fun token => !token.isUnary) =
        false := by
  have hleft : (parse "& (a) (b)").outcome {} =
      (.ok (.binary .and (.prop "a") (.prop "b")), {}) := by decide +kernel
  have hacross : (parse "(a)(& b)").outcome {} =
      (.ok (.binary .and (.prop "a") (.prop "b")), {}) := by decide +kernel
  have hempty : (parse "a ()").outcome {} = (.ok (.prop "a"), {}) := by decide +kernel
  exact ⟨⟨_, Reader.outcome_eq_ok.1 hleft⟩, ⟨_, Reader.outcome_eq_ok.1 hacross⟩,
    ⟨_, Reader.outcome_eq_ok.1 hempty⟩, by decide +kernel⟩

end Formula

end NaturalDeduction
