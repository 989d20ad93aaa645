import NaturalDeduction.Proofs.Reading.Machine
import NaturalDeduction.Proofs.Reading.Tokens

/-!
# Every text of the grammar is read

A text that is a formula by the grammar is cut into tokens, the tokens form the same formula, and so
the text is read as this formula.  It follows that the grammar is unambiguous.
-/

set_option autoImplicit false

namespace NaturalDeduction.Formula

open Token

variable {arity : SymbolKind → String → Nat} {bound : List String} {level : Nat} {w : List Char}
  {f : Formula}

/-! ### How a formula begins -/

/-- A spelling of a unary operator begins with a character that belongs to no conjunction or
disjunction. -/
theorem exists_cons_of_spelling {s : String} {op : Operator} (h : (s, op) ∈ Operator.spellings)
    (hunary : op.isUnary = true) (rest : List Char) :
    ∃ c cs, s.toList ++ rest = c :: cs ∧ c ≠ '&' ∧ c ≠ '|' := by
  obtain ⟨c, cs, hcs, hc⟩ := Operator.head_of_mem
    (p := fun op c => !op.isUnary || (c != '&' && c != '|')) (by decide) h
  exact ⟨c, cs ++ rest, by rw [hcs, List.cons_append], by simpa [hunary] using hc⟩

/-- No formula begins with a connective that could make an operator before it longer. -/
theorem Written.exists_cons (h : Written arity bound level w f) :
    ∃ c cs, w = c :: cs ∧ c ≠ '&' ∧ c ≠ '|' := by
  induction h with
  | atom h =>
    obtain ⟨c, cs, rfl, -, -, hlead⟩ := h.atomText.exists_cons
    refine ⟨c, cs, rfl, ?_⟩
    constructor <;> (rintro rfl; exact absurd hlead (by decide))
  | group b _ _ _ => exact ⟨_, _, rfl, by cases b <;> decide⟩
  | neg hs _ _ => exact exists_cons_of_spelling hs rfl _
  | quant hs _ _ _ _ _ => exact exists_cons_of_spelling hs rfl _
  | binary _ _ _ ihl _ =>
    obtain ⟨c, cs, rfl, hc⟩ := ihl
    exact ⟨c, _, rfl, hc⟩
  | @pad bound level before after w f hbefore _ _ ih =>
    cases before with
    | nil =>
      obtain ⟨c, cs, rfl, hc⟩ := ih
      exact ⟨c, _, rfl, hc⟩
    | cons b before =>
      have hb := isBlank_of_allBlank hbefore b List.mem_cons_self
      refine ⟨b, _, rfl, ?_⟩
      constructor <;> (rintro rfl; exact absurd hb (by decide))
  | loosen _ _ ih => exact ih

/-- A written formula does not run together with an operator before it. -/
theorem Written.separate (h : Written arity bound level w f) (rest : List Char) :
    Operator.Separate (w ++ rest) := by
  obtain ⟨c, cs, rfl, hc⟩ := h.exists_cons
  rintro d ⟨⟩
  exact hc

/-- A bracket before a formula opens a group, unless the grammar forbids it. -/
theorem Written.scan?_opening (h : Written arity bound level w f) (b : Bracket)
    (hbracket : ∀ s ∈ ["(A)", "(E)"], ¬ s.toList <+: b.opening :: (w ++ [b.closing]))
    (rest : List Char) : Operator.scan? (b.opening :: (w ++ b.closing :: rest)) = none := by
  obtain ⟨c, cs, rfl, -⟩ := h.exists_cons
  cases b with
  | square => exact Operator.scan?_of_not_lead (by decide) (by decide)
  | round =>
    have hpart : ∀ x : Char, [x, ')'] <+: c :: cs ++ ')' :: rest →
        ['(', x, ')'] <+: '(' :: (c :: cs ++ [')']) := by
      intro x hx
      refine List.cons_prefix_cons.2 ⟨rfl, List.prefix_of_prefix_length_le hx ?_ (by simp)⟩
      exact ⟨rest, by simp⟩
    exact Operator.scan?_opening (fun hall => hbracket "(A)" (by simp) (hpart 'A' hall))
      fun hex => hbracket "(E)" (by simp) (hpart 'E' hex)

/-! ### Reading the text of a formula -/

/-- The text of a formula is cut into tokens that form this formula. -/
theorem Written.exists_sentence (h : Written arity bound level w f) :
    ∃ tokens, CutInto w tokens ∧ Sentence arity bound level tokens f := by
  induction h with
  | atom h => exact ⟨_, .operand h.atomText, .atom h.gives_readAtom⟩
  | group b hbracket h ih =>
    obtain ⟨tokens, hcut, hsentence⟩ := ih
    exact ⟨_, hcut.group (h.scan?_opening b hbracket), .group b hsentence⟩
  | neg hs h ih =>
    obtain ⟨tokens, hcut, hsentence⟩ := ih
    exact ⟨_, hcut.not hs h.separate, .neg hsentence⟩
  | @quant bound gap w f q s var hs hgap hvar hbehind h ih =>
    obtain ⟨tokens, hcut, hsentence⟩ := ih
    have hstop : ∀ rest, ∀ c ∈ (w ++ rest).head?, isVariableChar c = false := by
      obtain ⟨c, cs, rfl, -⟩ := h.exists_cons
      rintro rest d ⟨⟩
      rcases hbehind c rfl with hc | hc | hc <;> simp [isVariableChar, hc]
    exact ⟨_, hcut.quantifier hs hgap hvar hstop, .quant q hsentence⟩
  | binary hs _ hright ihl ihr =>
    obtain ⟨tokens, hcut, hsentence⟩ := ihl
    obtain ⟨tokens', hcut', hsentence'⟩ := ihr
    exact ⟨_, hcut.connective hcut' hs hright.separate, .binary hsentence hsentence'⟩
  | pad hbefore hafter _ ih =>
    obtain ⟨tokens, hcut, hsentence⟩ := ih
    exact ⟨tokens, hcut.pad hbefore hafter, hsentence⟩
  | loosen hle _ ih =>
    obtain ⟨tokens, hcut, hsentence⟩ := ih
    exact ⟨tokens, hcut, .loosen hle hsentence⟩

/-- A formula that is written without free variables is read from what is written. -/
theorem Written.gives_read (h : Written arity [] level w f) : Reader.Gives arity (read w) f := by
  obtain ⟨tokens, hcut, hsentence⟩ := h.exists_sentence
  exact hsentence.gives_read hcut.scan_eq

/-- A text that is a formula by the grammar is read as this formula, if the signature has no other
numbers of arguments, and it is no other formula by the grammar. -/
theorem parse_written {sig : Signature} (hsig : sig.Agrees arity) {text : String}
    (h : Written arity [] level text.toList f) :
    (∃ sig', parse text sig = .ok f sig' ∧ sig'.Agrees arity) ∧
      ∀ level' g, Written arity [] level' text.toList g → g = f := by
  obtain ⟨sig', hparse, hsig'⟩ := h.gives_read sig hsig
  refine ⟨⟨sig', hparse, hsig'⟩, fun level' g hg => ?_⟩
  -- the reader is a function, so it cannot read the text as both
  obtain ⟨sig'', hparse', -⟩ := hg.gives_read sig hsig
  exact (EStateM.Result.ok.inj (hparse'.symm.trans hparse)).1

/-- A chain of implications in which a name is first bound and then free. -/
def mixedChain : Formula :=
  .binary .implies
    (.binary .implies
      (.quant .all "x" (.binary .and (.rel "P" [.var "x", .app "f" [.var "x"]])
        (.neg (.quant .ex "y" (.eq (.var "y") (.var "x"))))))
      (.prop "q"))
    (.eq (.const "x") (.app "f" [.const "c"]))

/-- A text of the chain that mixes spellings, brackets and blanks. -/
def mixedText : String :=
  "(A) x[P[ x,f (x)]&&!∃y y=x]->q>x =f(c)"

/-- The numbers of arguments in the chain. -/
def mixedArity : SymbolKind → String → Nat
  | .relation, _ => 2
  | .function, _ => 1

/-- A sentence with operators of several kinds that is written by the rules. -/
theorem written_mixedChain :
    Written mixedArity [] Connective.implies.precedence mixedText.toList mixedChain := by
  have hx : Term.Written mixedArity ["x"] false "x".toList (.var "x") :=
    .var (by decide) (by decide)
  have hf : Term.Written mixedArity ["x"] false "f (x)".toList (.app "f" [.var "x"]) :=
    @Term.Written.app _ _ _ "f" [' '] [("x".toList, .var "x")] .round (by decide) (by decide)
      (by simp) (by simp) rfl (by simpa using hx)
  have hrel : WrittenAtom mixedArity ["x"] "P[ x,f (x)]".toList
      (.rel "P" [.var "x", .app "f" [.var "x"]]) :=
    @WrittenAtom.rel _ _ "P" [(" x".toList, .var "x"), ("f (x)".toList, .app "f" [.var "x"])]
      .square (by decide) (by simp) rfl
      (by simpa using ⟨@Term.Written.pad _ _ [' '] [] _ _ (by decide) rfl hx, hf⟩)
  have hex : Written mixedArity ["x"] prefixPrecedence "∃y y=x".toList
      (.quant .ex "y" (.eq (.var "y") (.var "x"))) := by
    have heq : WrittenAtom mixedArity ["y", "x"] "y=x".toList (.eq (.var "y") (.var "x")) :=
      @WrittenAtom.eq _ _ "y".toList "x".toList [] [] _ _ (.var (by decide) (by decide)) rfl rfl
        (.var (by decide) (by decide))
    have hblank : Written mixedArity ["y", "x"] prefixPrecedence (' ' :: "y=x".toList) _ :=
      .loosen (Nat.zero_le _) (@Written.pad _ _ _ [' '] [] _ _ (by decide) rfl (.atom heq))
    refine @Written.quant _ _ [] _ _ .ex "∃" "y" (by decide) rfl (by decide) ?_ hblank
    rintro c ⟨⟩
    decide
  have hbody : Written mixedArity ["x"] Connective.and.precedence _ _ :=
    @Written.binary _ _ _ _ _ _ .and "&&" (by decide) (.loosen (Nat.zero_le _) (.atom hrel))
      (@Written.neg _ _ _ _ "!" (by decide) hex)
  have hall : Written mixedArity [] prefixPrecedence _ _ :=
    @Written.quant _ _ [' '] _ _ .all "(A)" "x" (by decide) (by decide) (by decide)
      (by rintro c ⟨⟩; decide) (.loosen (Nat.zero_le _) (.group .square (by decide) hbody))
  have hfree : WrittenAtom mixedArity [] "x =f(c)".toList
      (.eq (.const "x") (.app "f" [.const "c"])) := by
    have hc : Term.Written mixedArity [] false "c".toList (.const "c") :=
      .const (by decide) (by decide)
    exact @WrittenAtom.eq _ _ "x".toList "f(c)".toList [' '] [] _ _ (.const (by decide) (by decide))
      (by decide) rfl (@Term.Written.app _ _ _ "f" [] [("c".toList, .const "c")] .round (by decide)
        rfl (fun _ => rfl) (by simp) rfl (by simpa using hc))
  have hchain : Written mixedArity [] Connective.implies.precedence _ _ :=
    @Written.binary _ _ _ _ _ _ .implies "->" (by decide) (.loosen (by decide) hall)
      (.loosen (Nat.zero_le _) (.atom (@WrittenAtom.prop _ _ "q" (by decide))))
  have hwhole : Written mixedArity [] Connective.implies.precedence _ mixedChain :=
    @Written.binary _ _ _ _ _ _ .implies ">" (by decide) hchain
      (.loosen (Nat.zero_le _) (.atom hfree))
  refine (congrArg (Written _ _ _ · _) ?_).mpr hwhole
  decide +kernel

/-- The signature already holds the relation, and the text is read as the chain. -/
theorem parse_written_mixedChain :
    (({} : Signature).setArity .relation "P" 2).Agrees mixedArity ∧
      Written mixedArity [] Connective.implies.precedence mixedText.toList mixedChain ∧
      (∃ sig', parse mixedText (({} : Signature).setArity .relation "P" 2) = .ok mixedChain sig' ∧
        sig'.Agrees mixedArity) ∧
      ∀ level g, Written mixedArity [] level mixedText.toList g → g = mixedChain := by
  have hsig : (({} : Signature).setArity .relation "P" 2).Agrees mixedArity :=
    (Signature.agrees_empty mixedArity).setArity rfl
  exact ⟨hsig, written_mixedChain, parse_written hsig written_mixedChain⟩

end NaturalDeduction.Formula
