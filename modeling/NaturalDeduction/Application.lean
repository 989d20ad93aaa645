import NaturalDeduction.ParseError
import NaturalDeduction.Text.Blank

/-!
# Names, lists and applications in a text

The outer shape of a text: whether it is a name, how it splits at separators that stand in no
bracket, and whether it is a name followed by bracketed arguments.
-/

set_option autoImplicit false

namespace NaturalDeduction

/-- The characters that no name holds, besides blanks and the first characters of operators. -/
def reservedChars : List Char := ['(', ')', '[', ']', ',', '=', '⊤', '⊥']

/-- Whether a character can stand in a name. -/
def isNameChar (c : Char) : Bool :=
  !(Text.isBlank c || reservedChars.contains c || Operator.isLead c)

/-- The text as a name: at least one character, each fit for a name. -/
def checkName (text : List Char) : Except ParseError String :=
  if !text.isEmpty && text.all isNameChar then .ok (String.ofList text)
  else .error (.invalidName (String.ofList text))

namespace Application

/-- Puts a character in front of the first piece. -/
def extendFirst (c : Char) : List (List Char) → List (List Char)
  | [] => [[c]]
  | piece :: pieces => (c :: piece) :: pieces

/-- Splits a text at the separators that stand in no bracket, `depth` brackets being open already.
A closing bracket too many is passed over. -/
def splitFrom (separator : Char) : (depth : Nat) → List Char → List (List Char)
  | _, [] => [[]]
  | depth, c :: cs =>
    if (Bracket.ofOpening? c).isSome then extendFirst c (splitFrom separator (depth + 1) cs)
    else if (Bracket.ofClosing? c).isSome then extendFirst c (splitFrom separator (depth - 1) cs)
    else if c = separator && depth = 0 then [] :: splitFrom separator depth cs
    else extendFirst c (splitFrom separator depth cs)

/-- Splits a text at the separators that stand in no bracket. -/
def split (separator : Char) (text : List Char) : List (List Char) :=
  splitFrom separator 0 text

/-- The text up to the bracket that closes a group, that bracket, and the text behind it.  Inside
the group `depth` further brackets, of either kind, are open. -/
def untilClosed : (depth : Nat) → List Char → Option (List Char × Bracket × List Char)
  | _, [] => none
  | depth, c :: cs =>
    match Bracket.ofOpening? c, Bracket.ofClosing? c, depth with
    | some _, _, _ => (untilClosed (depth + 1) cs).map fun found => (c :: found.1, found.2)
    | none, some bracket, 0 => some ([], bracket, cs)
    | none, some _, depth + 1 => (untilClosed depth cs).map fun found => (c :: found.1, found.2)
    | none, none, _ => (untilClosed depth cs).map fun found => (c :: found.1, found.2)

/-- Takes a text apart into a name and the text between the brackets that follow it.  A text
without an opening bracket is no application. -/
def parts? (text : List Char) : Except ParseError (Option (List Char × List Char)) :=
  let name := text.takeWhile fun c => (Bracket.ofOpening? c).isNone
  match text.dropWhile fun c => (Bracket.ofOpening? c).isNone with
  | [] => .ok none
  | c :: cs =>
    match Bracket.ofOpening? c with
    | none => .ok none
    | some opening =>
      match untilClosed 0 cs with
      | none => .error (.unmatchedBracket c)
      | some (args, closing, rest) =>
        if closing ≠ opening then .error (.mismatchedBracket opening closing)
        else if rest ≠ [] then .error (.invalidName (String.ofList text))
        else .ok (some (Text.trimEnd name, args))

/-! ### How long the pieces are

Reading an application reads its arguments in turn.  The arguments are shorter than the
application, which is why that ends. -/

/-- The number of characters of a list of pieces, and one more for each piece. -/
def weight : List (List Char) → Nat
  | [] => 0
  | piece :: pieces => piece.length + 1 + weight pieces

/-- No pieces weigh nothing. -/
@[simp] theorem weight_nil : weight [] = 0 := rfl

/-- A piece weighs one more than it is long, for the separator behind it. -/
@[simp] theorem weight_cons (piece : List Char) (pieces : List (List Char)) :
    weight (piece :: pieces) = piece.length + 1 + weight pieces := rfl

/-- Splitting a text gives at least one piece, which may be empty. -/
theorem splitFrom_ne_nil (separator : Char) (depth : Nat) (text : List Char) :
    splitFrom separator depth text ≠ [] := by
  have hextend : ∀ (c : Char) (pieces : List (List Char)), extendFirst c pieces ≠ [] := by
    intro c pieces
    cases pieces <;> simp [extendFirst]
  cases text with
  | nil => simp [splitFrom]
  | cons c cs =>
    simp only [splitFrom]
    split
    · exact hextend _ _
    · split
      · exact hextend _ _
      · split
        · simp
        · exact hextend _ _

/-- The pieces of a text make up the text and its separators. -/
theorem weight_splitFrom (separator : Char) (depth : Nat) (text : List Char) :
    weight (splitFrom separator depth text) = text.length + 1 := by
  have hextend : ∀ (c : Char) (pieces : List (List Char)), pieces ≠ [] →
      weight (extendFirst c pieces) = weight pieces + 1 := by
    intro c pieces h
    cases pieces with
    | nil => exact absurd rfl h
    | cons piece pieces => simp [extendFirst]; omega
  induction text generalizing depth with
  | nil => simp [splitFrom]
  | cons c cs ih =>
    have hsplit : ∀ depth, weight (extendFirst c (splitFrom separator depth cs)) =
        (c :: cs).length + 1 := by
      intro depth
      rw [hextend c _ (splitFrom_ne_nil separator depth cs), ih]
      simp
    simp only [splitFrom]
    split
    · exact hsplit _
    · split
      · exact hsplit _
      · split
        · simp [ih]; omega
        · exact hsplit _

/-- The pieces of a text and one for each piece weigh one more than the text. -/
theorem weight_split (separator : Char) (text : List Char) :
    weight (split separator text) = text.length + 1 :=
  weight_splitFrom separator 0 text

/-- The arguments, the closing bracket and what stands behind it make up the text. -/
theorem length_untilClosed {depth : Nat} {text args rest : List Char} {closing : Bracket}
    (h : untilClosed depth text = some (args, closing, rest)) :
    args.length + 1 + rest.length = text.length := by
  induction text generalizing depth args with
  | nil => simp [untilClosed] at h
  | cons c cs ih =>
    have hstep : ∀ {depth : Nat},
        (untilClosed depth cs).map (fun found => (c :: found.1, found.2)) =
          some (args, closing, rest) → args.length + 1 + rest.length = (c :: cs).length := by
      intro depth h
      obtain ⟨⟨inner, closing', rest'⟩, hfound, heq⟩ := Option.map_eq_some_iff.1 h
      simp only [Prod.mk.injEq] at heq
      obtain ⟨rfl, rfl, rfl⟩ := heq
      have := ih hfound
      simp only [List.length_cons]
      omega
    simp only [untilClosed] at h
    split at h
    · exact hstep h
    · simp only [Option.some.injEq, Prod.mk.injEq] at h
      obtain ⟨rfl, -, rfl⟩ := h
      simp [Nat.add_comm]
    · exact hstep h
    · exact hstep h

/-- The arguments of an application are shorter than the application by its two brackets. -/
theorem length_parts {text name args : List Char} (h : parts? text = .ok (some (name, args))) :
    args.length + 2 ≤ text.length := by
  have hdrop := (List.dropWhile_suffix (l := text)
    (fun c => (Bracket.ofOpening? c).isNone)).length_le
  simp only [parts?] at h
  split at h
  · simp at h
  · rename_i c cs hcs
    rw [hcs, List.length_cons] at hdrop
    split at h
    · simp at h
    · split at h
      · simp at h
      · rename_i args' closing rest huntil
        have hlength := length_untilClosed huntil
        split at h
        · simp at h
        · split at h
          · simp at h
          · simp only [Except.ok.injEq, Option.some.injEq, Prod.mk.injEq] at h
            obtain ⟨-, rfl⟩ := h
            omega

end Application
end NaturalDeduction
