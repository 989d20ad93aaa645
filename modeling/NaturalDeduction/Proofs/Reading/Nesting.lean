import NaturalDeduction.Token
import NaturalDeduction.Proofs.Reading.WellFormed

/-!
# Texts with matched brackets

Whoever looks for the end of an argument, of a list of arguments or of an operand passes over a text
in which brackets match as if it were a single character.  So a text is split only at separators
outside brackets, and splitting undoes joining.
-/

set_option autoImplicit false

namespace NaturalDeduction

/-! ### Characters of names -/

/-- A character that is no bracket neither opens nor closes one. -/
theorem isBracket_eq_false_iff {c : Char} :
    isBracket c = false ↔ Bracket.ofOpening? c = none ∧ Bracket.ofClosing? c = none := by
  simp [isBracket]

namespace IsName

variable {name : String} {c : Char}

/-- All characters of a name are characters of names. -/
theorem isNameChar (h : IsName name) (hc : c ∈ name.toList) : isNameChar c = true :=
  (isName_iff.1 h).2 c hc

end IsName

section NameChar

variable {c : Char} (h : isNameChar c = true)

include h

/-- A character of names is no blank. -/
theorem isBlank_of_isNameChar : Text.isBlank c = false := by
  simp only [isNameChar, Bool.not_eq_true', Bool.or_eq_false_iff] at h
  exact h.1.1

/-- A character of names is not reserved. -/
theorem ne_of_isNameChar {r : Char} (hr : r ∈ reservedChars) : c ≠ r := by
  rintro rfl
  simp [isNameChar, hr] at h

/-- A character of names does not begin an operator. -/
theorem isLead_of_isNameChar : Operator.isLead c = false := by
  simp only [isNameChar, Bool.not_eq_true', Bool.or_eq_false_iff] at h
  exact h.2

/-- A character of names is no bracket. -/
theorem isBracket_of_isNameChar : isBracket c = false := by
  have hround := ne_of_isNameChar h (r := '(') (by decide)
  have hround' := ne_of_isNameChar h (r := ')') (by decide)
  have hsquare := ne_of_isNameChar h (r := '[') (by decide)
  have hsquare' := ne_of_isNameChar h (r := ']') (by decide)
  simp [isBracket, Bracket.ofOpening?, Bracket.ofClosing?, hround, hround', hsquare, hsquare']

end NameChar

/-! ### First characters of operators -/

namespace Operator

variable {op : Operator} {s : String} {c : Char}

/-- A spelling has a first character, with every property that all first characters have. -/
theorem head_of_mem {p : Operator → Char → Bool}
    (hp : (spellings.all fun entry => entry.1.toList.head?.any (p entry.2)) = true)
    (h : (s, op) ∈ spellings) : ∃ c cs, s.toList = c :: cs ∧ p op c = true := by
  obtain ⟨c, hc, hpc⟩ := (Option.any_eq_true _ _).1 (List.all_eq_true.1 hp _ h)
  obtain ⟨cs, hcs⟩ := List.head?_eq_some_iff.1 hc
  exact ⟨c, cs, hcs, hpc⟩

/-- Every spelling of an operator begins with a character that is no blank. -/
theorem exists_cons_of_mem (h : (s, op) ∈ spellings) :
    ∃ c cs, s.toList = c :: cs ∧ Text.isBlank c = false := by
  simpa using head_of_mem (p := fun _ c => !Text.isBlank c) (by decide) h

/-- The characters that begin operators are the first ones of their spellings, except for the round
bracket. -/
theorem isLead_iff :
    isLead c = true ↔ c ≠ '(' ∧ ∃ entry ∈ spellings, entry.1.toList.head? = some c := by
  simp [isLead]

/-- No operator begins with a blank. -/
theorem isLead_of_isBlank (h : Text.isBlank c = true) : isLead c = false := by
  rw [Bool.eq_false_iff]
  intro hlead
  obtain ⟨-, ⟨s, op⟩, hmem, hhead⟩ := isLead_iff.1 hlead
  obtain ⟨d, ds, hds, hd⟩ := exists_cons_of_mem hmem
  rw [hds, List.head?_cons, Option.some.injEq] at hhead
  subst hhead
  exact absurd (h.symm.trans hd) (by decide)

/-- A blank is no bracket. -/
theorem isBracket_of_isBlank (h : Text.isBlank c = true) : isBracket c = false := by
  have hne : ∀ d : Char, Text.isBlank d = false → c ≠ d := by
    rintro d hd rfl
    exact absurd (h.symm.trans hd) (by decide)
  have hround := hne '(' (by decide)
  have hround' := hne ')' (by decide)
  have hsquare := hne '[' (by decide)
  have hsquare' := hne ']' (by decide)
  simp [isBracket, Bracket.ofOpening?, Bracket.ofClosing?, hround, hround', hsquare, hsquare']

end Operator

/-! ### One character at a time -/

section Steps

variable {c : Char} {cs : List Char}

/-- An opening bracket is recognized. -/
theorem Bracket.ofOpening?_opening (b : Bracket) : Bracket.ofOpening? b.opening = some b := by
  cases b <;> rfl

/-- A closing bracket is not taken for an opening one. -/
theorem Bracket.ofOpening?_closing (b : Bracket) : Bracket.ofOpening? b.closing = none := by
  cases b <;> rfl

/-- A closing bracket is recognized. -/
theorem Bracket.ofClosing?_closing (b : Bracket) : Bracket.ofClosing? b.closing = some b := by
  cases b <;> rfl

namespace Application

/-- An opening bracket goes to the first piece, and what follows is one level deeper. -/
theorem splitFrom_opening (b : Bracket) (separator : Char) (depth : Nat) :
    splitFrom separator depth (b.opening :: cs) =
      extendFirst b.opening (splitFrom separator (depth + 1) cs) := by
  rw [splitFrom, b.ofOpening?_opening]
  rfl

/-- A closing bracket goes to the first piece, and what follows is one level higher. -/
theorem splitFrom_closing (b : Bracket) (separator : Char) (depth : Nat) :
    splitFrom separator (depth + 1) (b.closing :: cs) =
      extendFirst b.closing (splitFrom separator depth cs) := by
  rw [splitFrom, b.ofOpening?_closing, b.ofClosing?_closing]
  rfl

/-- Any other character goes to the first piece, unless it separates pieces outside brackets. -/
theorem splitFrom_other (hc : isBracket c = false) {separator : Char} {depth : Nat}
    (hsep : c ≠ separator ∨ depth ≠ 0) :
    splitFrom separator depth (c :: cs) = extendFirst c (splitFrom separator depth cs) := by
  obtain ⟨hopen, hclose⟩ := isBracket_eq_false_iff.1 hc
  rw [splitFrom, hopen, hclose, if_neg (by decide), if_neg (by decide), if_neg]
  rcases hsep with h | h <;> simp [h]

/-- The search for the closing bracket goes one level deeper at an opening bracket. -/
theorem untilClosed_opening (b : Bracket) (depth : Nat) :
    untilClosed depth (b.opening :: cs) =
      (untilClosed (depth + 1) cs).map fun found => (b.opening :: found.1, found.2) := by
  rw [untilClosed.eq_def]
  simp only [b.ofOpening?_opening]

/-- Inside brackets, the search for the closing bracket goes one level higher at a closing bracket.
-/
theorem untilClosed_closing (b : Bracket) (depth : Nat) :
    untilClosed (depth + 1) (b.closing :: cs) =
      (untilClosed depth cs).map fun found => (b.closing :: found.1, found.2) := by
  rw [untilClosed.eq_def]
  simp only [b.ofOpening?_closing, b.ofClosing?_closing]

/-- Outside brackets, the search for the closing bracket ends at a closing bracket. -/
theorem untilClosed_end (b : Bracket) : untilClosed 0 (b.closing :: cs) = some ([], b, cs) := by
  rw [untilClosed.eq_def]
  simp only [b.ofOpening?_closing, b.ofClosing?_closing]

/-- The search for the closing bracket passes over any other character. -/
theorem untilClosed_other (hc : isBracket c = false) (depth : Nat) :
    untilClosed depth (c :: cs) =
      (untilClosed depth cs).map fun found => (c :: found.1, found.2) := by
  obtain ⟨hopen, hclose⟩ := isBracket_eq_false_iff.1 hc
  rw [untilClosed.eq_def]
  simp only [hopen, hclose]

end Application

namespace Token

/-- The rest of an operand that begins with `w`. -/
def passing (w : List Char) (rest : Except ParseError (List Char × List Char)) :
    Except ParseError (List Char × List Char) :=
  rest.map fun found => (w ++ found.1, found.2)

/-- Passing over nothing changes nothing. -/
@[simp] theorem passing_nil (rest : Except ParseError (List Char × List Char)) :
    passing [] rest = rest := by
  cases rest <;> rfl

/-- Passing over two texts is passing over both at once. -/
@[simp] theorem passing_passing (u w : List Char)
    (rest : Except ParseError (List Char × List Char)) :
    passing u (passing w rest) = passing (u ++ w) rest := by
  cases rest with
  | error e => rfl
  | ok found => simp [passing, Except.map]

/-- The search for the end of an operand enters a bracket inside another one, or one
that opens a list of arguments. -/
theorem operandRest_opening (b : Bracket) {before : Char} {expected : List Bracket}
    (h : expected ≠ [] ∨ opensArguments before = true) :
    operandRest before expected (b.opening :: cs) =
      passing [b.opening] (operandRest b.opening (b :: expected) cs) := by
  rw [operandRest.eq_def]
  cases expected with
  | nil =>
    simp only [b.ofOpening?_opening, if_pos (h.resolve_left (by simp))]
    rfl
  | cons =>
    simp only [b.ofOpening?_opening]
    rfl

/-- The search for the end of an operand leaves a bracket where it is closed. -/
theorem operandRest_closing (b : Bracket) {before : Char} {expected : List Bracket} :
    operandRest before (b :: expected) (b.closing :: cs) =
      passing [b.closing] (operandRest b.closing expected cs) := by
  rw [operandRest.eq_def]
  simp only [b.ofOpening?_closing, b.ofClosing?_closing, if_true]
  rfl

/-- The search for the end of an operand passes over any other character, unless it begins an
operator outside brackets. -/
theorem operandRest_other (hc : isBracket c = false) {before : Char} {expected : List Bracket}
    (h : expected ≠ [] ∨ Operator.isLead c = false) :
    operandRest before expected (c :: cs) = passing [c] (operandRest c expected cs) := by
  obtain ⟨hopen, hclose⟩ := isBracket_eq_false_iff.1 hc
  rw [operandRest.eq_def]
  cases expected with
  | nil =>
    simp only [hopen, hclose, h.resolve_left (by simp)]
    rfl
  | cons =>
    simp only [hopen, hclose]
    rfl

/-- Outside brackets an operand goes on up to a bracket or an operator. -/
theorem operandRest_append {w : List Char}
    (h : ∀ c ∈ w, isBracket c = false ∧ Operator.isLead c = false) (before : Char)
    (rest : List Char) :
    operandRest before [] (w ++ rest) =
      passing w (operandRest (w.getLastD before) [] rest) := by
  induction w generalizing before with
  | nil => simp
  | cons c cs ih =>
    obtain ⟨hbracket, hlead⟩ := h c List.mem_cons_self
    rw [List.cons_append, operandRest_other hbracket (Or.inr hlead),
      ih (fun x hx => h x (List.mem_cons_of_mem _ hx)), passing_passing]
    simp [List.getLast?_cons]

end Token

end Steps

/-! ### Matched brackets -/

/-- A text in which every bracket is matched by one of its kind. -/
inductive Nested : List Char → Prop
  | nil : Nested []
  | char {c : Char} {w : List Char} (hc : isBracket c = false) (hw : Nested w) : Nested (c :: w)
  | group {u w : List Char} (b : Bracket) (hu : Nested u) (hw : Nested w) :
      Nested (b.opening :: (u ++ b.closing :: w))

namespace Nested

variable {u w : List Char}

/-- Where the brackets of two texts match, those of both together do. -/
theorem append (hu : Nested u) (hw : Nested w) : Nested (u ++ w) := by
  induction hu with
  | nil => exact hw
  | char hc _ ih => exact .char hc ih
  | @group u v b hu _ _ ih =>
    rw [List.cons_append, List.append_assoc, List.cons_append]
    exact .group b hu ih

/-- Where there are no brackets, they match. -/
theorem of_forall (h : ∀ c ∈ w, isBracket c = false) : Nested w := by
  induction w with
  | nil => exact .nil
  | cons c w ih =>
    exact .char (h c List.mem_cons_self) (ih fun x hx => h x (List.mem_cons_of_mem _ hx))

/-- Inside brackets no separator counts. -/
theorem splitFrom_append (hw : Nested w) (separator : Char) (depth : Nat) (rest : List Char) :
    Application.splitFrom separator (depth + 1) (w ++ rest) =
      w.foldr Application.extendFirst (Application.splitFrom separator (depth + 1) rest) := by
  induction hw generalizing depth rest with
  | nil => rfl
  | char hc _ ih =>
    rw [List.cons_append, Application.splitFrom_other hc (Or.inr (by simp)), ih, List.foldr_cons]
  | group b _ _ ihu ihw =>
    rw [List.cons_append, List.append_assoc, List.cons_append, Application.splitFrom_opening, ihu,
      Application.splitFrom_closing, ihw, List.foldr_cons, List.foldr_append, List.foldr_cons]

/-- The search for the closing bracket passes over a text in which brackets match. -/
theorem untilClosed_append (hw : Nested w) (depth : Nat) (rest : List Char) :
    Application.untilClosed depth (w ++ rest) =
      (Application.untilClosed depth rest).map fun found => (w ++ found.1, found.2) := by
  induction hw generalizing depth rest with
  | nil => simp
  | char hc _ ih =>
    rw [List.cons_append, Application.untilClosed_other hc, ih, Option.map_map]
    rfl
  | group b _ _ ihu ihw =>
    rw [List.cons_append, List.append_assoc, List.cons_append, Application.untilClosed_opening, ihu,
      Application.untilClosed_closing, ihw, Option.map_map, Option.map_map, Option.map_map]
    simp [Function.comp_def]

/-- Inside brackets an operand goes on whatever comes. -/
theorem operandRest_append (hw : Nested w) (before : Char) (top : Bracket) (outer : List Bracket)
    (rest : List Char) :
    Token.operandRest before (top :: outer) (w ++ rest) =
      Token.passing w (Token.operandRest (w.getLastD before) (top :: outer) rest) := by
  induction hw generalizing before top outer rest with
  | nil => simp
  | char hc _ ih =>
    rw [List.cons_append, Token.operandRest_other hc (Or.inl (by simp)), ih, Token.passing_passing]
    simp [List.getLast?_cons]
  | group b _ _ ihu ihw =>
    rw [List.cons_append, List.append_assoc, List.cons_append,
      Token.operandRest_opening b (Or.inl (by simp)), ihu, Token.operandRest_closing, ihw]
    simp [List.getLast?_cons, List.getLast?_append]

/-- The brackets match in texts in which they match, with separators between them. -/
theorem intercalate {separator : Char} (hsep : isBracket separator = false)
    {pieces : List (List Char)} (h : ∀ piece ∈ pieces, Nested piece) :
    Nested ([separator].intercalate pieces) := by
  induction pieces with
  | nil => exact .nil
  | cons piece pieces ih =>
    have hpiece := h piece List.mem_cons_self
    have hpieces := ih fun p hp => h p (List.mem_cons_of_mem _ hp)
    cases pieces with
    | nil => simpa using hpiece
    | cons next pieces =>
      rw [List.intercalate_cons_cons]
      exact (hpiece.append (.char hsep .nil)).append hpieces

/-- A first character that is no bracket can be left out. -/
theorem tail {c : Char} (hw : Nested (c :: w)) (hc : isBracket c = false) : Nested w := by
  cases hw with
  | char _ hw => exact hw
  | group b _ _ => simp [isBracket, b.ofOpening?_opening] at hc

/-- A closing bracket has an opening bracket before it. -/
theorem head_ne_closing (hw : Nested w) (b : Bracket) : w.head? ≠ some b.closing := by
  cases hw with
  | nil => simp
  | char hc _ =>
    rintro ⟨⟩
    simp [isBracket, b.ofClosing?_closing] at hc
  | group b' _ _ =>
    rw [List.head?_cons]
    cases b <;> cases b' <;> decide

end Nested

/-! ### Separators outside brackets -/

namespace Application

/-- Characters that are put in front of pieces go to the first one. -/
theorem foldr_extendFirst_cons (w piece : List Char) (pieces : List (List Char)) :
    w.foldr extendFirst (piece :: pieces) = (w ++ piece) :: pieces := by
  induction w with
  | nil => rfl
  | cons c w ih => rw [List.foldr_cons, ih, List.cons_append, extendFirst]

/-- A text that belongs to one piece, whatever stands around it. -/
def Whole (separator : Char) (w : List Char) : Prop :=
  ∀ depth rest, splitFrom separator depth (w ++ rest) =
    w.foldr extendFirst (splitFrom separator depth rest)

variable {separator : Char} {u w : List Char}

/-- Two texts that are not split are not split together. -/
theorem Whole.append (hu : Whole separator u) (hw : Whole separator w) :
    Whole separator (u ++ w) := by
  intro depth rest
  rw [List.append_assoc, hu, hw, List.foldr_append]

/-- A text without brackets and separators is not split. -/
theorem whole_of_forall (h : ∀ c ∈ w, isBracket c = false ∧ c ≠ separator) :
    Whole separator w := by
  intro depth rest
  induction w with
  | nil => rfl
  | cons c w ih =>
    obtain ⟨hbracket, hne⟩ := h c List.mem_cons_self
    rw [List.cons_append, splitFrom_other hbracket (Or.inl hne),
      ih fun x hx => h x (List.mem_cons_of_mem _ hx), List.foldr_cons]

/-- Inside brackets no separator counts. -/
theorem whole_group (hu : Nested u) (b : Bracket) :
    Whole separator (b.opening :: (u ++ [b.closing])) := by
  intro depth rest
  rw [List.cons_append, List.append_assoc, List.singleton_append, splitFrom_opening,
    hu.splitFrom_append, splitFrom_closing, List.foldr_cons, List.foldr_append]
  rfl

/-- A text that is not split is its only piece. -/
theorem Whole.split_eq (h : Whole separator w) : split separator w = [w] := by
  have hsplit := h 0 []
  rw [List.append_nil, splitFrom, foldr_extendFirst_cons, List.append_nil] at hsplit
  exact hsplit

/-- A text that is not split is the first piece where a separator follows it. -/
theorem Whole.split_append (h : Whole separator w) (hsep : isBracket separator = false)
    (rest : List Char) :
    split separator (w ++ separator :: rest) = w :: split separator rest := by
  obtain ⟨hopen, hclose⟩ := isBracket_eq_false_iff.1 hsep
  have hcut : splitFrom separator 0 (separator :: rest) = [] :: splitFrom separator 0 rest := by
    rw [splitFrom, hopen, hclose]
    simp
  rw [split, h, hcut, foldr_extendFirst_cons, List.append_nil, split]

/-- Splitting undoes joining. -/
theorem split_intercalate (hsep : isBracket separator = false) {pieces : List (List Char)}
    (hne : pieces ≠ []) (h : ∀ piece ∈ pieces, Whole separator piece) :
    split separator ([separator].intercalate pieces) = pieces := by
  induction pieces with
  | nil => exact absurd rfl hne
  | cons piece pieces ih =>
    have hpiece := h piece List.mem_cons_self
    cases pieces with
    | nil => simpa using hpiece.split_eq
    | cons next pieces =>
      rw [List.intercalate_cons_cons, List.append_assoc, List.singleton_append,
        hpiece.split_append hsep, ih (by simp) fun p hp => h p (List.mem_cons_of_mem _ hp)]

end Application

end NaturalDeduction
