import NaturalDeduction.Proofs.Reading.Scan

/-!
# Cutting a text into tokens

A text that may stand for a formula is cut into the same tokens whatever follows it, as long as what
follows can follow a formula.  Such texts are put together as formulas are.
-/

set_option autoImplicit false

namespace NaturalDeduction.Token

variable {text rest : List Char} {tokens : List Token}

/-! ### What follows a formula -/

/-- At the end of the text an operand ends. -/
theorem ends_nil : Ends [] :=
  ⟨[], [], rfl, rfl, by simp⟩

/-- Before a closing bracket an operand ends. -/
theorem ends_closing (b : Bracket) (rest : List Char) : Ends (b.closing :: rest) := by
  refine ⟨[], _, rfl, rfl, ?_⟩
  rintro c ⟨⟩
  exact Or.inr ⟨b, rfl⟩

/-- Before a connective an operand ends. -/
theorem ends_connective {s : String} {op : Connective}
    (h : (s, .binary op) ∈ Operator.spellings) (rest : List Char) : Ends (s.toList ++ rest) := by
  obtain ⟨c, cs, hcs, hc⟩ := Operator.head_of_mem
    (p := fun op c => op.isUnary || Operator.isLead c) (by decide) h
  refine ⟨[], s.toList ++ rest, rfl, rfl, ?_⟩
  rw [hcs]
  rintro d ⟨⟩
  exact Or.inl hc

/-- An operand may end some blanks earlier. -/
theorem Ends.blanks (h : Ends rest) {blanks : List Char} (hblanks : Text.allBlank blanks = true) :
    Ends (blanks ++ rest) := by
  obtain ⟨blanks', rest', rfl, hblanks', hend⟩ := h
  refine ⟨blanks ++ blanks', rest', (List.append_assoc _ _ _).symm, ?_, hend⟩
  simpa [Text.allBlank] using And.intro hblanks hblanks'

/-! ### Texts and their tokens -/

/-- A text that is cut into these tokens, whatever follows it. -/
def CutInto (text : List Char) (tokens : List Token) : Prop :=
  ∀ rest, Ends rest → scan (text ++ rest) = tokens.foldr followedBy (scan rest)

namespace CutInto

/-- A text that is cut into tokens is scanned as them, without an error. -/
theorem scan_eq (h : CutInto text tokens) : scan text = (tokens, none) := by
  have hfold : tokens.foldr followedBy ([], none) = (tokens, none) := by
    clear h
    induction tokens with
    | nil => rfl
    | cons token tokens ih => rw [List.foldr_cons, ih, followedBy]
  have hscan := h [] ends_nil
  rw [List.append_nil, scan_nil, hfold] at hscan
  exact hscan

/-- An atomic formula is one operand. -/
theorem operand (h : AtomText text) : CutInto text [.operand text] :=
  fun _ hrest => scan_operand h hrest

/-- Brackets around a text are cut into brackets around its tokens. -/
theorem group (h : CutInto text tokens) {b : Bracket}
    (hopening : ∀ rest, Operator.scan? (b.opening :: (text ++ b.closing :: rest)) = none) :
    CutInto (b.opening :: (text ++ [b.closing])) (.opening b :: (tokens ++ [.closing b])) := by
  intro rest _
  rw [List.cons_append, List.append_assoc, List.singleton_append, scan_opening (hopening rest),
    h _ (ends_closing b rest), scan_closing, List.foldr_cons, List.foldr_append, List.foldr_cons,
    List.foldr_nil]

/-- A negation sign before a text is one more token, unless it runs together with the text. -/
theorem not (h : CutInto text tokens) {s : String} (hs : (s, .not) ∈ Operator.spellings)
    (hseparate : ∀ rest, Operator.Separate (text ++ rest)) :
    CutInto (s.toList ++ text) (.not :: tokens) := by
  intro rest hrest
  rw [List.append_assoc, scan_not hs (hseparate rest), h rest hrest, List.foldr_cons]

/-- A quantifier and its variable before a text are one more token, unless the variable runs on into
the text. -/
theorem quantifier (h : CutInto text tokens) {q : Quantifier} {s var : String} {gap : List Char}
    (hs : (s, .quantifier q) ∈ Operator.spellings) (hgap : Text.allBlank gap = true)
    (hvar : IsName var) (hbehind : ∀ rest, ∀ c ∈ (text ++ rest).head?, isVariableChar c = false) :
    CutInto (s.toList ++ (gap ++ (var.toList ++ text))) (.quantifier q var :: tokens) := by
  intro rest hrest
  rw [List.append_assoc, List.append_assoc, List.append_assoc,
    scan_quantifier hs hgap hvar (hbehind rest), h rest hrest, List.foldr_cons]

/-- Two texts with a connective between them are cut into the tokens of both with the connective
between them. -/
theorem connective (h : CutInto text tokens) {text' : List Char} {tokens' : List Token}
    (h' : CutInto text' tokens') {op : Connective} {s : String}
    (hs : (s, .binary op) ∈ Operator.spellings)
    (hseparate : ∀ rest, Operator.Separate (text' ++ rest)) :
    CutInto (text ++ (s.toList ++ text')) (tokens ++ .connective op :: tokens') := by
  intro rest hrest
  rw [List.append_assoc, List.append_assoc, h _ (ends_connective hs _),
    scan_connective hs (hseparate rest), h' rest hrest, List.foldr_append, List.foldr_cons]

/-- Blanks around a text are no tokens. -/
theorem pad (h : CutInto text tokens) {before after : List Char}
    (hbefore : Text.allBlank before = true) (hafter : Text.allBlank after = true) :
    CutInto (before ++ (text ++ after)) tokens := by
  intro rest hrest
  rw [List.append_assoc, scan_blanks hbefore, List.append_assoc, h _ (hrest.blanks hafter),
    scan_blanks hafter]

end CutInto

end NaturalDeduction.Token
