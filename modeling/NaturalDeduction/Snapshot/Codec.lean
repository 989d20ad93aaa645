import NaturalDeduction.Json
import NaturalDeduction.Snapshot.Basic

/-!
# Snapshots as JSON

A snapshot is an object with the fields `complete` and `items`.  A row is an object with one field,
named for what the row is, whose value is an object with the row's own fields.  A flag `goal` or
`adjacent` is left out when it is false.

Decoding wants each required field with a value of the right type; line numbers have 32 bits.  The
order of the fields does not matter, and unknown fields are passed over.  A snapshot may also be
given as the list of its two fields.
-/

set_option autoImplicit false

namespace NaturalDeduction

/-- A flag as a field that is left out when it is false. -/
def Json.flag (name : String) (value : Bool) : List (String × Json) :=
  if value then [(name, .bool true)] else []

/-- A number as a JSON value. -/
def Json.nat (n : Nat) : Json := .integer (.ofNat n)

mutual

/-- A row as a JSON value. -/
def Row.toJson : Row → Json
  | .line number formula justification goal =>
    .object [("Line", .object (
      [("number", .nat number), ("formula", .string formula),
       ("justification", .string justification)] ++ Json.flag "goal" goal))]
  | .empty number => .object [("Empty", .object [("number", .nat number)])]
  | .constants number names =>
    .object [("Constants", .object
      [("number", .nat number), ("names", .array (names.map .string))])]
  | .box complete adjacent rows =>
    .object [("Box", .object (
      [("complete", .bool complete)] ++ Json.flag "adjacent" adjacent ++
        [("items", .array (Row.listToJson rows))]))]

/-- Rows as JSON values. -/
def Row.listToJson : List Row → List Json
  | [] => []
  | row :: rows => row.toJson :: Row.listToJson rows

end

/-- A snapshot as a JSON value. -/
def Snapshot.toJson (snapshot : Snapshot) : Json :=
  .object [("complete", .bool snapshot.complete), ("items", .array (Row.listToJson snapshot.rows))]

namespace Json

/-- The value as a truth value. -/
def toBool? : Json → Option Bool
  | .bool value => some value
  | _ => none

/-- The value as a text. -/
def toString? : Json → Option String
  | .string value => some value
  | _ => none

/-- The value as a line number. -/
def toLineNumber? : Json → Option Nat
  | .integer (.ofNat n) => if n < lineLimit then some n else none
  | _ => none

/-- The value as a list of texts. -/
def toStrings? : Json → Option (List String)
  | .array items => items.mapM toString?
  | _ => none

/-- A field that must be there. -/
def required {α : Type} (fields : List (String × Json)) (name : String)
    (decode : Json → Option α) : Option α :=
  (field? name fields).bind decode

/-- A flag that is false when it is not there. -/
def optionalFlag (fields : List (String × Json)) (name : String) : Option Bool :=
  match field? name fields with
  | some value => value.toBool?
  | none => some false

end Json

/-- The row of a kind that holds no rows itself, from the fields of its body. -/
def Row.ofFields? (kind : String) (fields : List (String × Json)) : Option Row :=
  match kind with
  | "Line" => do
    return .line (← Json.required fields "number" Json.toLineNumber?)
      (← Json.required fields "formula" Json.toString?)
      (← Json.required fields "justification" Json.toString?)
      (← Json.optionalFlag fields "goal")
  | "Empty" => do return .empty (← Json.required fields "number" Json.toLineNumber?)
  | "Constants" => do
    return .constants (← Json.required fields "number" Json.toLineNumber?)
      (← Json.required fields "names" Json.toStrings?)
  | _ => none

mutual

/-- The row that a JSON value encodes. -/
def Row.ofJson? : Json → Option Row
  | .object [(kind, .object fields)] =>
    if kind = "Box" then do
      return .box (← Json.required fields "complete" Json.toBool?)
        (← Json.optionalFlag fields "adjacent") (← Row.itemsOfFields? fields)
    else Row.ofFields? kind fields
  | _ => none

/-- The rows in the field `items` of an object. -/
def Row.itemsOfFields? : List (String × Json) → Option (List Row)
  | [] => none
  | (key, value) :: fields =>
    if key = "items" then Row.itemsOfJson? value else Row.itemsOfFields? fields

/-- The rows that a JSON list encodes. -/
def Row.itemsOfJson? : Json → Option (List Row)
  | .array items => Row.listOfJson? items
  | _ => none

/-- The rows that JSON values encode. -/
def Row.listOfJson? : List Json → Option (List Row)
  | [] => some []
  | item :: items => do return (← Row.ofJson? item) :: (← Row.listOfJson? items)

end

/-- The snapshot that a JSON value encodes. -/
def Snapshot.ofJson? : Json → Option Snapshot
  | .object fields => do
    return { complete := ← Json.required fields "complete" Json.toBool?
             rows := ← Json.required fields "items" Row.itemsOfJson? }
  | .array [complete, items] => do
    return { complete := ← complete.toBool?, rows := ← Row.itemsOfJson? items }
  | _ => none

end NaturalDeduction
