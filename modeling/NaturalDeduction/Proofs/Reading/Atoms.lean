import NaturalDeduction.Formula.Reader
import NaturalDeduction.Proofs.Reading.Terms

/-!
# Reading atomic formulas

The text of an atomic formula is a phrase, two phrases with `=` between them, or the sign of truth or
falsehood.  It is cut out of a longer text as one operand, and it is read as the formula that the
grammar assigns to it.
-/

set_option autoImplicit false

namespace NaturalDeduction

/-- The shapes of the texts of atomic formulas. -/
inductive AtomText : List Char → Prop
  | phrase {w : List Char} (hw : Phrase true w) : AtomText w
  | equation {u w before after : List Char} (hu : Phrase true u)
      (hbefore : Text.allBlank before = true) (hafter : Text.allBlank after = true)
      (hw : Phrase true w) : AtomText (u ++ (before ++ '=' :: (after ++ w)))
  | truth {c : Char} (hc : c = '⊤' ∨ c = '⊥') : AtomText [c]

namespace AtomText

variable {w : List Char}

/-- An atomic formula begins with a character that is no blank, no bracket and does not begin an
operator. -/
theorem exists_cons (h : AtomText w) : ∃ c cs, w = c :: cs ∧ Text.isBlank c = false ∧
    isBracket c = false ∧ Operator.isLead c = false := by
  have hphrase : ∀ {u}, Phrase true u → ∀ rest, ∃ c cs, u ++ rest = c :: cs ∧
      Text.isBlank c = false ∧ isBracket c = false ∧ Operator.isLead c = false := by
    intro u hu rest
    obtain ⟨c, cs, rfl, hc⟩ := hu.exists_cons
    exact ⟨c, cs ++ rest, rfl, isBlank_of_isNameChar hc, isBracket_of_isNameChar hc,
      isLead_of_isNameChar hc⟩
  cases h with
  | phrase hw => simpa using hphrase hw []
  | equation hu _ _ _ => exact hphrase hu _
  | truth hc => rcases hc with rfl | rfl <;> exact ⟨_, [], rfl, by decide, by decide, by decide⟩

/-- An atomic formula has no blanks around it. -/
theorem solid (h : AtomText w) : Solid w := by
  obtain ⟨c, cs, hcs, hc, -⟩ := h.exists_cons
  refine ⟨⟨c, cs, hcs, hc⟩, ?_⟩
  cases h with
  | phrase hw => exact hw.solid.last
  | equation _ _ _ hw =>
    obtain ⟨ds, d, rfl, hd⟩ := hw.solid.last
    exact ⟨_, d, by simp only [← List.append_assoc, ← List.cons_append]; rfl, hd⟩
  | truth =>
    obtain ⟨rfl, -⟩ := List.cons.inj hcs
    exact ⟨[], _, rfl, hc⟩

/-- The brackets in an atomic formula match. -/
theorem nested (h : AtomText w) : Nested w := by
  cases h with
  | phrase hw => exact hw.nested
  | equation hu hbefore hafter hw =>
    exact hu.nested.append ((nested_of_allBlank hbefore).append
      (.char (by decide) ((nested_of_allBlank hafter).append hw.nested)))
  | truth hc => rcases hc with rfl | rfl <;> exact .char (by decide) .nil

/-- An atomic formula is one operand. -/
theorem operandRest_append (h : AtomText w) (before : Char) (rest : List Char) :
    Token.operandRest before [] (w ++ rest) =
      Token.passing w (Token.operandRest (w.getLastD before) [] rest) := by
  cases h with
  | phrase hw => exact hw.operandRest_append before rest
  | @equation u w gap gap' hu hgap hgap' hw =>
    have hsign : ∀ c ∈ gap ++ '=' :: gap', isBracket c = false ∧ Operator.isLead c = false := by
      have hblank : ∀ {c : Char}, Text.isBlank c = true →
          isBracket c = false ∧ Operator.isLead c = false :=
        fun h => ⟨Operator.isBracket_of_isBlank h, Operator.isLead_of_isBlank h⟩
      intro c hc
      rcases List.mem_append.1 hc with hc | hc
      · exact hblank (isBlank_of_allBlank hgap c hc)
      · rcases List.mem_cons.1 hc with rfl | hc
        · decide
        · exact hblank (isBlank_of_allBlank hgap' c hc)
    have htext : u ++ (gap ++ '=' :: (gap' ++ w)) = u ++ ((gap ++ '=' :: gap') ++ w) := by simp
    rw [htext, List.append_assoc, List.append_assoc, hu.operandRest_append,
      Token.operandRest_append hsign, hw.operandRest_append]
    obtain ⟨c, cs, rfl, -⟩ := hw.exists_cons
    simp [List.getLast?_append, List.getLast?_cons]
  | truth hc =>
    rcases hc with rfl | rfl
    all_goals
      rw [List.singleton_append, Token.operandRest_other (by decide) (Or.inr (by decide))]
      rfl

end AtomText

/-- The only equality sign of an equation outside brackets is the one between its sides. -/
theorem split_equation {u w before after : List Char} (hu : Phrase true u)
    (hbefore : Text.allBlank before = true) (hafter : Text.allBlank after = true)
    (hw : Phrase true w) :
    Application.split '=' (u ++ (before ++ '=' :: (after ++ w))) = [u ++ before, after ++ w] := by
  have hleft : Application.Whole '=' (u ++ before) :=
    (hu.whole (by decide) (by decide)).append (whole_of_allBlank (by decide) hbefore)
  have hright : Application.Whole '=' (after ++ w) :=
    (whole_of_allBlank (by decide) hafter).append (hw.whole (by decide) (by decide))
  rw [← List.append_assoc, hleft.split_append (by decide), hright.split_eq]

/-- The text of a term is neither of the truth values. -/
theorem ne_truth_of_phrase {w : List Char} (hw : Phrase true w) : w ≠ ['⊤'] ∧ w ≠ ['⊥'] := by
  obtain ⟨c, cs, rfl, hc⟩ := hw.exists_cons
  have htop := ne_of_isNameChar hc (r := '⊤') (by decide)
  have hbottom := ne_of_isNameChar hc (r := '⊥') (by decide)
  simp [htop, hbottom]

namespace Formula.WrittenAtom

variable {arity : SymbolKind → String → Nat} {bound : List String} {f : Formula} {w : List Char}

/-- The grammar writes atomic formulas in the shapes of atomic formulas. -/
theorem atomText (h : WrittenAtom arity bound w f) : AtomText w := by
  cases h with
  | top => exact .truth (Or.inl rfl)
  | bottom => exact .truth (Or.inr rfl)
  | prop hname => exact .phrase (.name hname)
  | rel b hname _ _ hargs =>
    exact .phrase (phrase_applicationText b hname rfl (fun _ => rfl)
      fun arg harg => (hargs arg harg).phrase.nested)
  | eq hleft hbefore hafter hright => exact .equation hleft.phrase hbefore hafter hright.phrase

/-- A text that is an atomic formula by the grammar is read as this formula. -/
theorem gives_readAtom (h : WrittenAtom arity bound w f) :
    Reader.Gives arity (readAtom bound w) f := by
  unfold readAtom
  cases h with
  | top => exact .pure _
  | bottom => exact .pure _
  | @prop name hname =>
    have hphrase : Phrase true name.toList := .name hname
    obtain ⟨htop, hbottom⟩ := ne_truth_of_phrase hphrase
    rw [if_neg htop, if_neg hbottom, (hphrase.whole (by decide) (by decide)).split_eq]
    exact .bind (.ofExcept (parts?_name hname)) (.bind (.ofExcept hname.checkName_eq) (.pure _))
  | @rel name args b hname hne hcount hargs =>
    have hnested : ∀ arg ∈ args, Nested arg.1 := fun arg harg => (hargs arg harg).phrase.nested
    have hphrase : Phrase true (applicationText name [] b (args.map Prod.fst)) :=
      phrase_applicationText b hname rfl (fun _ => rfl) hnested
    obtain ⟨htop, hbottom⟩ := ne_truth_of_phrase hphrase
    have hparts : Application.parts? (applicationText name [] b (args.map Prod.fst)) =
        .ok (some (name.toList, [','].intercalate (args.map Prod.fst))) :=
      parts?_applied hname rfl b (.intercalate (by decide) (List.forall_mem_map.2 hnested))
    rw [if_neg htop, if_neg hbottom, (hphrase.whole (by decide) (by decide)).split_eq]
    refine .bind (.ofExcept hparts) (.bind (.ofExcept hname.checkName_eq)
      (.bind (Term.gives_arguments hne hargs fun arg harg => (hargs arg harg).gives_read)
        (.bind (.recordArity ?_) (.pure _))))
    rw [List.length_map, hcount]
  | @eq u v before after left right hleft hbefore hafter hright =>
    have hu := hleft.phrase
    have hv := hright.phrase
    have hne : ∀ c, u ++ (before ++ '=' :: (after ++ v)) ≠ [c] := by
      obtain ⟨c, cs, rfl, -⟩ := hu.exists_cons
      simp
    have htrimL : Text.trim (u ++ before) = Text.trim u :=
      trim_pad (u := []) rfl hbefore hu.allBlank_eq_false
    have htrimR : Text.trim (after ++ v) = Text.trim v := by
      simpa using trim_pad (v := []) hafter rfl hv.allBlank_eq_false
    have hblankL : Text.allBlank (u ++ before) = false := allBlank_pad hu.allBlank_eq_false [] before
    have hblankR : Text.allBlank (after ++ v) = false := by
      simpa using allBlank_pad hv.allBlank_eq_false after []
    rw [if_neg (hne _), if_neg (hne _), split_equation hu hbefore hafter hv]
    simp only [hblankL, hblankR, Bool.or_self, Bool.false_eq_true, if_false,
      Term.read_eq_of_trim htrimL, Term.read_eq_of_trim htrimR]
    exact .bind hleft.gives_read (.bind hright.gives_read (.pure _))

end Formula.WrittenAtom

end NaturalDeduction
