/-!
# Blank characters

A blank is a character with the Unicode property `White_Space`.  Texts are handled as lists of
characters; this module drops blanks at the ends of a text, splits a text into its words and a
stream into its lines.
-/

set_option autoImplicit false

namespace NaturalDeduction.Text

/-- The code points with the Unicode property `White_Space`, as closed intervals. -/
def blankRanges : List (Nat × Nat) :=
  [(0x09, 0x0D), (0x20, 0x20), (0x85, 0x85), (0xA0, 0xA0), (0x1680, 0x1680), (0x2000, 0x200A),
   (0x2028, 0x2029), (0x202F, 0x202F), (0x205F, 0x205F), (0x3000, 0x3000)]

/-- Whether the character has the Unicode property `White_Space`. -/
def isBlank (c : Char) : Bool :=
  blankRanges.any fun range => range.1 ≤ c.toNat && c.toNat ≤ range.2

/-- The text without the blanks it begins with. -/
def trimStart (text : List Char) : List Char :=
  text.dropWhile isBlank

/-- The text without the blanks it ends with. -/
def trimEnd (text : List Char) : List Char :=
  (text.reverse.dropWhile isBlank).reverse

/-- The text without the blanks at either end. -/
def trim (text : List Char) : List Char :=
  trimEnd (trimStart text)

/-- Whether a text holds nothing but blanks. -/
def allBlank (text : List Char) : Bool :=
  text.all isBlank

/-- The pieces between the characters that satisfy `p`; there is always at least one piece. -/
def splitAll (p : Char → Bool) : List Char → List (List Char)
  | [] => [[]]
  | c :: cs =>
    if p c then [] :: splitAll p cs
    else
      match splitAll p cs with
      | [] => [[c]]
      | piece :: pieces => (c :: piece) :: pieces

/-- The maximal blank-free runs of a text, in order. -/
def words (text : List Char) : List (List Char) :=
  (splitAll isBlank text).filter fun word => !word.isEmpty

/-- The lines of a stream, without the line feeds.  A last line need not be ended by one. -/
def lines (text : List Char) : List (List Char) :=
  let pieces := splitAll (· == '\n') text
  if pieces.getLast? == some [] then pieces.dropLast else pieces

/-! ### Trimming never lengthens a text -/

/-- Taking blanks off the start makes no text longer. -/
theorem length_trimStart_le (text : List Char) : (trimStart text).length ≤ text.length :=
  (List.dropWhile_suffix isBlank).length_le

/-- Taking blanks off the end makes no text longer. -/
theorem length_trimEnd_le (text : List Char) : (trimEnd text).length ≤ text.length := by
  have h := (List.dropWhile_suffix (l := text.reverse) isBlank).length_le
  simpa [trimEnd] using h

/-- Taking blanks off both ends makes no text longer. -/
theorem length_trim_le (text : List Char) : (trim text).length ≤ text.length :=
  Nat.le_trans (length_trimEnd_le _) (length_trimStart_le _)

end NaturalDeduction.Text
