import NaturalDeduction.Proofs.Reading.Terms

/-!
# The machine reads the grammar

`Sentence` is the grammar of formulas, over tokens: a level for each precedence, chains that group
to the left, negations and quantifiers that cover one operand.  After the tokens of a sentence the
machine holds operators that still wait, and committing them gives the formula of the sentence.  So
what the machine reads is the formula that the grammar assigns to the tokens.
-/

set_option autoImplicit false

namespace NaturalDeduction.Formula

variable {arity : SymbolKind → String → Nat}

/-- The tokens form a formula, of the given precedence or tighter, where the given names are
bound. -/
inductive Sentence (arity : SymbolKind → String → Nat) :
    List String → Nat → List Token → Formula → Prop
  | atom {bound : List String} {text : List Char} {f : Formula}
      (hread : Reader.Gives arity (readAtom bound text) f) :
      Sentence arity bound 0 [.operand text] f
  | group {bound : List String} {level : Nat} {tokens : List Token} {f : Formula}
      (b : Bracket) (hbody : Sentence arity bound level tokens f) :
      Sentence arity bound 0 (.opening b :: (tokens ++ [.closing b])) f
  | neg {bound : List String} {tokens : List Token} {f : Formula}
      (hbody : Sentence arity bound prefixPrecedence tokens f) :
      Sentence arity bound prefixPrecedence (.not :: tokens) (.neg f)
  | quant {bound : List String} {tokens : List Token} {f : Formula} (q : Quantifier) {var : String}
      (hbody : Sentence arity (var :: bound) prefixPrecedence tokens f) :
      Sentence arity bound prefixPrecedence (.quantifier q var :: tokens) (.quant q var f)
  | binary {bound : List String} {tokens tokens' : List Token} {f g : Formula} {op : Connective}
      (hleft : Sentence arity bound op.precedence tokens f)
      (hright : Sentence arity bound (op.precedence - 1) tokens' g) :
      Sentence arity bound op.precedence (tokens ++ .connective op :: tokens') (.binary op f g)
  | loosen {bound : List String} {level level' : Nat} {tokens : List Token} {f : Formula}
      (hle : level ≤ level') (hbody : Sentence arity bound level tokens f) :
      Sentence arity bound level' tokens f

/-! ### Operators that are kept -/

/-- No connective of at most the given precedence commits anything on the stack. -/
def Guards (stack : List Waiting) (level : Nat) : Prop :=
  ∀ op : Connective, op.precedence ≤ level → ∀ done,
    commitTighter op.precedence stack done = .ok (stack, done)

/-- Nothing is committed across a bracket. -/
theorem guards_bracket (b : Bracket) (stack : List Waiting) (level : Nat) :
    Guards (.bracket b :: stack) level := by
  intro op _ done
  rw [commitTighter]
  simp

/-- On an empty stack there is nothing to commit. -/
theorem guards_nil (level : Nat) : Guards [] level := by
  intro op _ done
  rw [commitTighter]
  simp

/-- There is no connective as tight as negation. -/
theorem guards_unary (stack : List Waiting) : Guards stack prefixPrecedence := by
  intro op hle
  exact absurd hle (by cases op <;> decide)

/-- A connective that waits is not committed by one that binds more tightly. -/
theorem guards_binary (op : Connective) (stack : List Waiting) :
    Guards (.operator (.binary op) :: stack) (op.precedence - 1) := by
  intro op' hle done
  have hpos : 0 < op.precedence := by cases op <;> decide
  have hlt : ¬ (Operator.binary op).priority ≤ op'.precedence := by
    show ¬ op.precedence ≤ op'.precedence
    omega
  rw [commitTighter, if_neg hlt]

/-- What is safe from connectives up to a level is safe from those up to a lower level. -/
theorem Guards.mono {stack : List Waiting} {level level' : Nat} (h : Guards stack level')
    (hle : level ≤ level') : Guards stack level :=
  fun op hop => h op (Nat.le_trans hop hle)

/-! ### Running the machine -/

/-- Tokens in two parts are read one part after the other. -/
theorem readTokens_append (stack : List Waiting) (done : Finished) (tokens tokens' : List Token) :
    readTokens stack done (tokens ++ tokens') =
      readTokens stack done tokens >>= fun state => readTokens state.1 state.2 tokens' := by
  induction tokens generalizing stack done with
  | nil => simp [readTokens]
  | cons token tokens ih => simp [readTokens, ih]

/-- After the tokens of a sentence the machine holds its formula, up to operators that wait. -/
theorem Sentence.gives_readTokens {bound : List String} {level : Nat} {tokens : List Token}
    {f : Formula} (h : Sentence arity bound level tokens f) {stack : List Waiting}
    {done : Finished} (hguards : Guards stack level) (hbound : done.bound = bound) :
    ∃ stack' done', Reader.Gives arity (readTokens stack done tokens) (stack', done') ∧
      Settles level stack' done' stack { done with formulas := f :: done.formulas } := by
  induction h generalizing stack done with
  | @atom bound text f hread =>
    subst hbound
    exact ⟨_, _, .bind (.bind hread (.pure _)) (.pure _), .refl _ _⟩
  | @group bound level tokens f b _ ih =>
    obtain ⟨stack', done', hgives, hsettles⟩ := ih (guards_bracket b stack level) hbound
    have hclose : closeGroup b stack' done' =
        .ok (stack, { done with formulas := f :: done.formulas }) := by
      rw [hsettles.closeGroup_eq, closeGroup, if_pos rfl]
    refine ⟨_, _, .bind (.pure _) ?_, .refl _ _⟩
    show Reader.Gives arity (readTokens (.bracket b :: stack) done (tokens ++ [.closing b])) _
    rw [readTokens_append]
    exact .bind hgives (.bind (.ofExcept hclose) (.pure _))
  | @neg bound tokens f _ ih =>
    obtain ⟨stack', done', hgives, hsettles⟩ := ih (guards_unary (.operator .not :: stack)) hbound
    exact ⟨stack', done', .bind (.pure _) hgives,
      hsettles.trans (.commit (Nat.le_refl _) rfl (.refl _ _))⟩
  | @quant bound tokens f q var _ ih =>
    obtain ⟨stack', done', hgives, hsettles⟩ :=
      @ih (.operator (.quantifier q) :: stack) { done with bound := var :: done.bound }
        (guards_unary _) (congrArg (var :: ·) hbound)
    exact ⟨stack', done', .bind (.pure _) hgives,
      hsettles.trans (.commit (Nat.le_refl _) rfl (.refl _ _))⟩
  | @binary bound tokens tokens' f g op _ _ ihl ihr =>
    obtain ⟨stack₁, done₁, hleft, hsettles₁⟩ := ihl hguards hbound
    have hcommit : commitTighter op.precedence stack₁ done₁ =
        .ok (stack, { done with formulas := f :: done.formulas }) := by
      rw [hsettles₁.commitTighter_eq (Nat.le_refl _), hguards op (Nat.le_refl _)]
    obtain ⟨stack₂, done₂, hright, hsettles₂⟩ :=
      @ihr _ { done with formulas := f :: done.formulas } (guards_binary op stack) hbound
    refine ⟨stack₂, done₂, ?_, ?_⟩
    · rw [readTokens_append]
      exact .bind hleft (.bind (.bind (.ofExcept hcommit) (.pure _)) hright)
    · exact (hsettles₂.loosen (Nat.sub_le _ _)).trans (.commit (Nat.le_refl _) rfl (.refl _ _))
  | loosen hle _ ih =>
    obtain ⟨stack', done', hgives, hsettles⟩ := ih (hguards.mono hle) hbound
    exact ⟨stack', done', hgives, hsettles.loosen hle⟩

/-- A text that is cut into the tokens of a sentence is read as the formula of the sentence. -/
theorem Sentence.gives_read {level : Nat} {tokens : List Token} {f : Formula}
    (h : Sentence arity [] level tokens f) {text : List Char}
    (hscan : Token.scan text = (tokens, none)) : Reader.Gives arity (read text) f := by
  obtain ⟨stack, done, hgives, hsettles⟩ := h.gives_readTokens (guards_nil level)
    (show ({} : Finished).bound = [] from rfl)
  have hcommit : commitAll stack done = .ok { formulas := [f] } := by
    rw [hsettles.commitAll_eq, commitAll]
  unfold read
  rw [hscan]
  exact .bind hgives (.bind (.ofExcept hcommit) (.ofExcept rfl))

end NaturalDeduction.Formula
