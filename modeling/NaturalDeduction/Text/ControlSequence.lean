/-!
# Control sequences

A terminal does not show every character it is sent: control characters, and the sequences that
begin with an escape character, tell it what to do.  This module keeps of a text what is shown.
-/

set_option autoImplicit false

namespace NaturalDeduction.Text

/-- The place within a control sequence. -/
inductive Phase where
  /-- Outside every sequence. -/
  | ground
  /-- After an escape character. -/
  | escape
  /-- After an escape character and a mark between blank and `/`. -/
  | escapeMark
  /-- In a command, which begins with `[` and lasts up to its letter. -/
  | command
  /-- At the beginning of a message to the device, which begins with `P`. -/
  | message
  /-- In the numbers of a message to the device. -/
  | messageNumbers
  /-- In the marks of a message to the device. -/
  | messageMarks
  /-- In the body of a message, which the terminal does not read. -/
  | body
  /-- In a title, which begins with `]` and lasts up to the bell. -/
  | title
deriving DecidableEq

/-- Whether a character stands between two others in the order of code points. -/
def isBetween (low high c : Char) : Bool :=
  low ≤ c && c ≤ high

/-- Whether the byte `0x9C`, which ends the body of a message, is in the UTF-8 form of a
character. -/
def endsBody (c : Char) : Bool :=
  (String.utf8EncodeChar c).contains 0x9C

/-- Whether a control character moves on the place of writing. -/
def isSpacing (c : Char) : Bool :=
  c == '\t' || c == '\n' || c == '\x0c' || c == '\r'

namespace Phase

/-- The place after one more character.  An escape character begins a new sequence everywhere,
and the characters `0x18` and `0x1A` break off any. -/
def next (phase : Phase) (c : Char) : Phase :=
  if c == '\x1b' then .escape
  else if c == '\x18' || c == '\x1a' then .ground
  else
    match phase with
    | .ground => .ground
    | .escape =>
      if isBetween ' ' '/' c then .escapeMark
      else if c == '[' then .command
      else if c == ']' then .title
      else if c == 'P' then .message
      else if c == 'X' || c == '^' || c == '_' then .body
      else if isBetween '0' '~' c then .ground
      else .escape
    | .escapeMark => if isBetween '0' '~' c then .ground else .escapeMark
    | .command => if isBetween '@' '~' c then .ground else .command
    | .message =>
      if isBetween ' ' '/' c then .messageMarks
      else if isBetween '0' '?' c then .messageNumbers
      else if isBetween '@' '~' c then .body
      else .message
    | .messageNumbers =>
      if isBetween ' ' '/' c then .messageMarks
      else if isBetween '<' '~' c then .body
      else .messageNumbers
    | .messageMarks => if isBetween '0' '~' c then .body else .messageMarks
    | .body => if endsBody c then .ground else .body
    | .title => if c == '\x07' then .ground else .title

/-- Whether a character is shown at a place.  Those that move on the place of writing are obeyed
also within a short sequence. -/
def shows (phase : Phase) (c : Char) : Bool :=
  match phase with
  | .ground => isSpacing c || (' ' ≤ c && c ≠ '\x7f')
  | .escape | .escapeMark | .command => isSpacing c
  | _ => false

end Phase

/-- The characters of a text that are shown.  After a character that is shown, `running` holds:
those that follow are shown too, up to a control character, and the sequence they stand in, if
any, goes on from there. -/
def shownFrom (phase : Phase) (running : Bool) : List Char → List Char
  | [] => []
  | c :: cs =>
    if running && Phase.ground.shows c then
      c :: shownFrom (if c ≤ '\x7f' then phase else .ground) true cs
    else if phase.shows c then c :: shownFrom (phase.next c) true cs
    else shownFrom (phase.next c) false cs

/-- What a terminal shows of a text. -/
def shown (text : String) : String :=
  String.ofList (shownFrom .ground false text.toList)

end NaturalDeduction.Text
