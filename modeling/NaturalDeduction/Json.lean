/-!
# JSON values

Values of the JSON data model, with the fields of an object in order, and their text in the
indented layout: two blanks for each level, one field or element to a line, nothing between the
brackets of an empty list or object.
-/

set_option autoImplicit false

namespace NaturalDeduction

/-- A JSON value. -/
inductive Json where
  | null
  | bool (value : Bool)
  /-- A number written without fraction and exponent. -/
  | integer (value : Int)
  /-- Any other number: `mantissa` divided by ten `exponent` times. -/
  | decimal (mantissa : Int) (exponent : Nat)
  | string (value : String)
  | array (items : List Json)
  | object (fields : List (String × Json))

namespace Json

instance : Inhabited Json := ⟨.null⟩

/-- The value of a field of an object. -/
def field? (name : String) : List (String × Json) → Option Json
  | [] => none
  | (key, value) :: rest => if key = name then some value else field? name rest

/-- A digit in base sixteen. -/
def hexDigit (n : Nat) : Char :=
  if n < 10 then Char.ofNat (0x30 + n) else Char.ofNat (0x57 + n)

/-- How a character is written inside a string.  Quote and backslash are escaped, and so are the
control characters below the blank; five of these have escapes of their own. -/
def escape (c : Char) : List Char :=
  match c with
  | '"' => ['\\', '"']
  | '\\' => ['\\', '\\']
  | '\n' => ['\\', 'n']
  | '\r' => ['\\', 'r']
  | '\t' => ['\\', 't']
  | '\x08' => ['\\', 'b']
  | '\x0c' => ['\\', 'f']
  | c =>
    if c.toNat < 0x20 then
      ['\\', 'u', '0', '0', hexDigit (c.toNat / 16), hexDigit (c.toNat % 16)]
    else [c]

/-- A string with its quotes. -/
def quote (text : String) : String :=
  "\"" ++ String.ofList (text.toList.flatMap escape) ++ "\""

/-- An integer in base ten. -/
def integerText : Int → String
  | .ofNat n => n.repr
  | .negSucc n => "-" ++ (n + 1).repr

/-- A line feed and the indentation of a level. -/
def newline (level : Nat) : String :=
  "\n" ++ String.ofList (List.replicate (2 * level) ' ')

/-- Elements between brackets, one to a line. -/
def layout (opening closing : String) (level : Nat) (elements : List String) : String :=
  match elements with
  | [] => opening ++ closing
  | elements =>
    opening ++ newline (level + 1) ++ ("," ++ newline (level + 1)).intercalate elements ++
      newline level ++ closing

mutual

/-- The value as text, `level` levels deep. -/
def prettyAt (level : Nat) : Json → String
  | .null => "null"
  | .bool true => "true"
  | .bool false => "false"
  | .integer value => integerText value
  | .decimal mantissa exponent => integerText mantissa ++ "e-" ++ exponent.repr
  | .string value => quote value
  | .array items => layout "[" "]" level (prettyItems (level + 1) items)
  | .object fields => layout "\x7b" "\x7d" level (prettyFields (level + 1) fields)

/-- The elements of a list as texts. -/
def prettyItems (level : Nat) : List Json → List String
  | [] => []
  | item :: items => item.prettyAt level :: prettyItems level items

/-- The fields of an object as texts. -/
def prettyFields (level : Nat) : List (String × Json) → List String
  | [] => []
  | (key, value) :: fields =>
    (quote key ++ ": " ++ value.prettyAt level) :: prettyFields level fields

end

/-- The value as text. -/
def pretty (value : Json) : String :=
  value.prettyAt 0

end Json
end NaturalDeduction
