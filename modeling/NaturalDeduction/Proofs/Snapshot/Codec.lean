import NaturalDeduction.Snapshot.Codec
import Mathlib.Data.List.Nodup
import Mathlib.Logic.Relation

/-!
# Decoding what was encoded

A snapshot whose line numbers have 32 bits is decoded from its own encoding
(`Snapshot.ofJson?_toJson_iff`), although flags that are not set are left out of it.

The objects of a snapshot and of its rows may be worded in other ways: with their fields in another
order, and with other fields among them.  Only named fields are looked up, and no two fields of an
object share a name, so a rewording of one object makes no difference to what is decoded, and neither
do any number of rewordings one after the other.
-/

set_option autoImplicit false

namespace NaturalDeduction

namespace Json

variable {name : String} {value : Json} {fields fields' : List (String × Json)}

/-- A flag stands among the fields just if it is set. -/
def HasFlag (fields : List (String × Json)) (name : String) (flag : Bool) : Prop :=
  field? name fields = if flag then some (.bool true) else none

/-- The fields in another order, with more fields that are none of the known ones.  No two fields share
a name. -/
def Rewords (known : List String) (fields fields' : List (String × Json)) : Prop :=
  (fields'.map Prod.fst).Nodup ∧
    ∃ extra, fields'.Perm (fields ++ extra) ∧ ∀ field ∈ extra, field.1 ∉ known

/-- Where no key comes twice, a field is found exactly if it is there. -/
theorem field?_eq_some_iff (h : (fields.map Prod.fst).Nodup) :
    field? name fields = some value ↔ (name, value) ∈ fields := by
  induction fields with
  | nil => simp [field?]
  | cons field fields ih =>
    obtain ⟨key, first⟩ := field
    obtain ⟨hkey, hrest⟩ := List.nodup_cons.1 h
    by_cases hname : key = name
    · subst hname
      have hnot : (key, value) ∉ fields := fun hmem => hkey (List.mem_map.2 ⟨_, hmem, rfl⟩)
      simp [field?, hnot, eq_comm]
    · simp [field?, hname, Ne.symm hname, ih hrest]

/-- A rewording keeps what the known names stand for. -/
theorem Rewords.field?_eq {known : List String} (h : Rewords known fields fields')
    (hname : name ∈ known) : field? name fields' = field? name fields := by
  obtain ⟨hnodup, extra, hperm, hextra⟩ := h
  have hkeys : ((fields ++ extra).map Prod.fst).Nodup := (hperm.map Prod.fst).nodup_iff.1 hnodup
  rw [List.map_append] at hkeys
  refine Option.ext fun value => ?_
  rw [field?_eq_some_iff hnodup, field?_eq_some_iff (List.nodup_append.1 hkeys).1, hperm.mem_iff,
    List.mem_append]
  exact or_iff_left fun hmem => hextra _ hmem hname

/-- The value of one field makes no difference to the others. -/
theorem field?_append_cons_of_ne {pre post : List (String × Json)} {key : String} {v w : Json}
    (hkey : key ≠ name) :
    field? name (pre ++ (key, w) :: post) = field? name (pre ++ (key, v) :: post) := by
  induction pre with
  | nil => simp [field?, hkey]
  | cons field pre ih => simp only [List.cons_append, field?, ih]

/-- One value in place of another makes no difference to what is decoded alike from both. -/
theorem required_append_cons {α : Type} {decode : Json → Option α} {pre post : List (String × Json)}
    {key : String} {v w : Json} (h : decode w = decode v) :
    required (pre ++ (key, w) :: post) name decode =
      required (pre ++ (key, v) :: post) name decode := by
  induction pre with
  | nil =>
    by_cases hkey : key = name <;> simp [required, field?, hkey, h]
  | cons field pre ih =>
    by_cases hkey : field.1 = name
    · simp [required, field?, hkey]
    · simpa [required, field?, hkey] using ih

end Json

/-! ### Encoded rows -/

mutual

/-- The line numbers of a row and of the rows inside it. -/
def Row.numbers : Row → List Nat
  | .line number _ _ _ | .empty number | .constants number _ => [number]
  | .box _ _ rows => Row.numbersList rows

/-- The line numbers of several rows. -/
def Row.numbersList : List Row → List Nat
  | [] => []
  | row :: rows => row.numbers ++ Row.numbersList rows

end

/-- All line numbers of a snapshot have 32 bits. -/
def Snapshot.Fits (s : Snapshot) : Prop :=
  ∀ number ∈ Row.numbersList s.rows, number < lineLimit

instance (s : Snapshot) : Decidable s.Fits :=
  inferInstanceAs (Decidable (∀ number ∈ Row.numbersList s.rows, number < lineLimit))

/-- A number is a line number if it is below the limit. -/
theorem Json.toLineNumber?_nat {n m : Nat} :
    (Json.nat n).toLineNumber? = some m ↔ n = m ∧ n < lineLimit := by
  by_cases hn : n < lineLimit <;> simp [Json.nat, Json.toLineNumber?, hn]

/-- A list of names is read back. -/
theorem Json.toStrings?_map (names : List String) :
    (Json.array (names.map .string)).toStrings? = some names := by
  rw [Json.toStrings?]
  induction names with
  | nil => rfl
  | cons name names ih => simp [Json.toString?, ih]

/-- The rows of a box are read from its items, which have to be there. -/
theorem Row.itemsOfFields?_eq (fields : List (String × Json)) :
    Row.itemsOfFields? fields = Json.required fields "items" Row.itemsOfJson? := by
  induction fields with
  | nil => rfl
  | cons field fields ih =>
    obtain ⟨key, value⟩ := field
    by_cases hkey : key = "items"
    · simp [Row.itemsOfFields?, Json.required, Json.field?, hkey]
    · simpa [Row.itemsOfFields?, Json.required, Json.field?, hkey] using ih

/-! ### Decoding an encoded snapshot -/

/-- A flag that is left out when it is not set is read as not set. -/
theorem Json.optionalFlag_eq {fields : List (String × Json)} {name : String} {flag : Bool}
    (h : Json.HasFlag fields name flag) : Json.optionalFlag fields name = some flag := by
  rw [Json.optionalFlag, show Json.field? name fields = _ from h]
  cases flag <;> rfl

/-- The body of a line is encoded with the flag `goal` just if the line is a goal. -/
theorem Row.toJson_line (number : Nat) (formula justification : String) (goal : Bool) :
    ∃ body, (Row.line number formula justification goal).toJson = .object [("Line", .object body)] ∧
      Json.HasFlag body "goal" goal ∧ Json.field? "number" body = some (.nat number) ∧
      Json.field? "formula" body = some (.string formula) ∧
      Json.field? "justification" body = some (.string justification) := by
  refine ⟨_, by rw [Row.toJson], ?_⟩
  cases goal <;> simp [Json.HasFlag, Json.flag, Json.field?]

/-- The body of a box is encoded with the flag `adjacent` just if the box is adjacent to the next. -/
theorem Row.toJson_box (complete adjacent : Bool) (rows : List Row) :
    ∃ body, (Row.box complete adjacent rows).toJson = .object [("Box", .object body)] ∧
      Json.HasFlag body "adjacent" adjacent ∧ Json.field? "complete" body = some (.bool complete) ∧
      Json.field? "items" body = some (.array (Row.listToJson rows)) := by
  refine ⟨_, by rw [Row.toJson], ?_⟩
  cases adjacent <;> simp [Json.HasFlag, Json.flag, Json.field?]

mutual

/-- A row is decoded from its encoding if its line numbers have 32 bits. -/
theorem Row.ofJson?_toJson_iff : (row : Row) →
    (Row.ofJson? row.toJson = some row ↔ ∀ number ∈ row.numbers, number < lineLimit)
  | .line number formula justification goal => by
    obtain ⟨body, hbody, hgoal, hnumber, hformula, hjustification⟩ :=
      Row.toJson_line number formula justification goal
    simp [hbody, Row.ofJson?, Row.ofFields?, Row.numbers, Json.required, Json.toString?, hnumber,
      hformula, hjustification, Json.optionalFlag_eq hgoal, Json.toLineNumber?_nat,
      Option.bind_eq_some_iff]
  | .empty number => by
    simp [Row.toJson, Row.ofJson?, Row.ofFields?, Row.numbers, Json.required, Json.field?,
      Json.toLineNumber?_nat, Option.bind_eq_some_iff]
  | .constants number names => by
    simp [Row.toJson, Row.ofJson?, Row.ofFields?, Row.numbers, Json.required, Json.field?,
      Json.toLineNumber?_nat, Json.toStrings?_map, Option.bind_eq_some_iff]
  | .box complete adjacent rows => by
    obtain ⟨body, hbody, hadjacent, hcomplete, hitems⟩ := Row.toJson_box complete adjacent rows
    rw [Row.numbers, ← Row.listOfJson?_listToJson_iff rows]
    simp [hbody, Row.ofJson?, Row.itemsOfFields?_eq, Row.itemsOfJson?, Json.required, Json.toBool?,
      hcomplete, hitems, Json.optionalFlag_eq hadjacent, Option.bind_eq_some_iff]

/-- Rows are read back exactly if all their numbers are below the limit. -/
theorem Row.listOfJson?_listToJson_iff : (rows : List Row) →
    (Row.listOfJson? (Row.listToJson rows) = some rows ↔
      ∀ number ∈ Row.numbersList rows, number < lineLimit)
  | [] => by simp [Row.listToJson, Row.listOfJson?, Row.numbersList]
  | row :: rows => by
    rw [Row.numbersList, List.forall_mem_append, ← Row.ofJson?_toJson_iff row,
      ← Row.listOfJson?_listToJson_iff rows]
    simp [Row.listToJson, Row.listOfJson?, Option.bind_eq_some_iff]

end

/-- A snapshot is read back exactly if its numbers fit. -/
theorem Snapshot.ofJson?_toJson_iff (s : Snapshot) :
    Snapshot.ofJson? s.toJson = some s ↔ s.Fits := by
  obtain ⟨complete, rows⟩ := s
  rw [Snapshot.Fits, ← Row.listOfJson?_listToJson_iff rows]
  simp [Snapshot.toJson, Snapshot.ofJson?, Json.required, Json.field?, Json.toBool?,
    Row.itemsOfJson?, Option.bind_eq_some_iff]

/-! ### Rewordings -/

/-- The names of the fields in the body of a row, by the kind of the row. -/
def Row.fieldNames (kind : String) : List String :=
  match kind with
  | "Line" => ["number", "formula", "justification", "goal"]
  | "Empty" => ["number"]
  | "Constants" => ["number", "names"]
  | "Box" => ["complete", "adjacent", "items"]
  | _ => []

/-- The names of the fields of a snapshot. -/
def Snapshot.fieldNames : List String := ["complete", "items"]

/-- The body of a row is reworded, or the body of a row inside it. -/
inductive Row.Reworded : Json → Json → Prop
  | body {kind : String} {fields fields' : List (String × Json)}
      (h : Json.Rewords (Row.fieldNames kind) fields fields') :
      Row.Reworded (.object [(kind, .object fields)]) (.object [(kind, .object fields')])
  | inside {v w : Json} {pre post : List (String × Json)} {above below : List Json}
      (h : Row.Reworded v w) :
      Row.Reworded
        (.object [("Box", .object (pre ++ ("items", .array (above ++ v :: below)) :: post))])
        (.object [("Box", .object (pre ++ ("items", .array (above ++ w :: below)) :: post))])

/-- A snapshot is reworded as a whole, or one of its rows is. -/
inductive Snapshot.Reworded : Json → Json → Prop
  | whole {fields fields' : List (String × Json)}
      (h : Json.Rewords Snapshot.fieldNames fields fields') :
      Snapshot.Reworded (.object fields) (.object fields')
  | row {v w : Json} {pre post : List (String × Json)} {above below : List Json}
      (h : Row.Reworded v w) :
      Snapshot.Reworded (.object (pre ++ ("items", .array (above ++ v :: below)) :: post))
        (.object (pre ++ ("items", .array (above ++ w :: below)) :: post))

/-- The body of a row is decoded from its named fields. -/
theorem Row.ofJson?_congr {kind : String} {fields fields' : List (String × Json)}
    (h : ∀ name ∈ Row.fieldNames kind, Json.field? name fields' = Json.field? name fields) :
    Row.ofJson? (.object [(kind, .object fields')]) =
      Row.ofJson? (.object [(kind, .object fields)]) := by
  rw [Row.ofJson?, Row.ofJson?]
  by_cases hbox : kind = "Box"
  · subst hbox
    rw [if_pos rfl, if_pos rfl]
    simp only [Row.itemsOfFields?_eq, Json.required, Json.optionalFlag]
    rw [h "complete" (by decide), h "adjacent" (by decide), h "items" (by decide)]
  · rw [if_neg hbox, if_neg hbox]
    unfold Row.ofFields? Json.required Json.optionalFlag
    split
    · rw [h "number" (by decide), h "formula" (by decide), h "justification" (by decide),
        h "goal" (by decide)]
    · rw [h "number" (by decide)]
    · rw [h "number" (by decide), h "names" (by decide)]
    · rfl

/-- One row may be replaced by another that is read in the same way. -/
theorem Row.itemsOfJson?_replace {v w : Json} (above below : List Json)
    (h : Row.ofJson? w = Row.ofJson? v) :
    Row.itemsOfJson? (.array (above ++ w :: below)) =
      Row.itemsOfJson? (.array (above ++ v :: below)) := by
  rw [Row.itemsOfJson?, Row.itemsOfJson?]
  induction above with
  | nil => simp only [List.nil_append, Row.listOfJson?, h]
  | cons item above ih => simp only [List.cons_append, Row.listOfJson?, ih]

/-- A rewording makes no difference to the row that is decoded. -/
theorem Row.Reworded.ofJson?_eq {v w : Json} (h : Row.Reworded v w) :
    Row.ofJson? w = Row.ofJson? v := by
  induction h with
  | body h => exact Row.ofJson?_congr fun name hname => h.field?_eq hname
  | @inside v w pre post above below _ ih =>
    have hitems := Row.itemsOfJson?_replace above below ih
    simp only [Row.ofJson?, if_true, Row.itemsOfFields?_eq, Json.required_append_cons hitems]
    have hother : ∀ {name}, "items" ≠ name →
        Json.field? name (pre ++ ("items", .array (above ++ w :: below)) :: post) =
          Json.field? name (pre ++ ("items", .array (above ++ v :: below)) :: post) :=
      Json.field?_append_cons_of_ne
    simp only [Json.required, Json.optionalFlag, hother (by decide : "items" ≠ "complete"),
      hother (by decide : "items" ≠ "adjacent")]

/-- A rewording makes no difference to the snapshot that is decoded. -/
theorem Snapshot.Reworded.ofJson?_eq {v w : Json} (h : Snapshot.Reworded v w) :
    Snapshot.ofJson? w = Snapshot.ofJson? v := by
  cases h with
  | whole h =>
    simp only [Snapshot.ofJson?, Json.required]
    rw [h.field?_eq (by decide), h.field?_eq (by decide)]
  | @row v w pre post above below h =>
    have hitems := Row.itemsOfJson?_replace above below h.ofJson?_eq
    simp only [Snapshot.ofJson?, Json.required_append_cons hitems]
    have hcomplete : Json.field? "complete" (pre ++ ("items", .array (above ++ w :: below)) :: post) =
        Json.field? "complete" (pre ++ ("items", .array (above ++ v :: below)) :: post) :=
      Json.field?_append_cons_of_ne (by decide)
    simp only [Json.required, hcomplete]

/-- Rewording makes no difference to what is read. -/
theorem Snapshot.ofJson?_of_reworded {v w : Json} (h : Relation.ReflTransGen Snapshot.Reworded v w) :
    Snapshot.ofJson? w = Snapshot.ofJson? v := by
  induction h with
  | refl => rfl
  | tail _ hstep ih => rw [hstep.ofJson?_eq, ih]

/-- A snapshot is decoded from its encoding if and only if its line numbers have 32 bits.  The flags
`goal` and `adjacent` are left out of the encoding when they are not set.  Any number of rewordings, of
the snapshot or of its rows at any depth, make no difference to what is decoded. -/
theorem Snapshot.ofJson?_toJson_reworded :
    (∀ s : Snapshot, Snapshot.ofJson? s.toJson = some s ↔ s.Fits) ∧
      (∀ number formula justification goal, ∃ body,
        (Row.line number formula justification goal).toJson = .object [("Line", .object body)] ∧
          Json.HasFlag body "goal" goal) ∧
      (∀ complete adjacent rows, ∃ body,
        (Row.box complete adjacent rows).toJson = .object [("Box", .object body)] ∧
          Json.HasFlag body "adjacent" adjacent) ∧
      ∀ v w, Relation.ReflTransGen Snapshot.Reworded v w →
        Snapshot.ofJson? w = Snapshot.ofJson? v := by
  refine ⟨Snapshot.ofJson?_toJson_iff, fun number formula justification goal => ?_,
    fun complete adjacent rows => ?_, fun _ _ => Snapshot.ofJson?_of_reworded⟩
  · obtain ⟨body, hbody, hgoal, -⟩ := Row.toJson_line number formula justification goal
    exact ⟨body, hbody, hgoal⟩
  · obtain ⟨body, hbody, hadjacent, -⟩ := Row.toJson_box complete adjacent rows
    exact ⟨body, hbody, hadjacent⟩

/-- A snapshot with a goal inside a box.  The goal is reworded with its fields in another order and a
field that rows of another kind have, and then the snapshot with a field more. -/
theorem Snapshot.ofJson?_toJson_reworded_nested :
    ∃ s v, s = { complete := false, rows := [.box false true [.empty 1, .line 2 "A" "Goal" true]] } ∧
      s.Fits ∧ Relation.ReflTransGen Snapshot.Reworded s.toJson v ∧
      v = .object [("items", .array [.object [("Box", .object [("complete", .bool false),
          ("adjacent", .bool true), ("items", .array [.object [("Empty", .object [("number", .nat 1)])],
            .object [("Line", .object [("formula", .string "A"), ("justification", .string "Goal"),
              ("goal", .bool true), ("complete", .null), ("number", .nat 2)])]])])]]),
        ("version", .nat 7), ("complete", .bool false)] ∧
      Snapshot.ofJson? v = some s := by
  obtain ⟨hencoded, -, -, hreworded⟩ := Snapshot.ofJson?_toJson_reworded
  have hfits : Snapshot.Fits ⟨false, [.box false true [.empty 1, .line 2 "A" "Goal" true]]⟩ := by
    decide
  have hgoal : Row.Reworded (Row.line 2 "A" "Goal" true).toJson
      (.object [("Line", .object [("formula", .string "A"), ("justification", .string "Goal"),
        ("goal", .bool true), ("complete", .null), ("number", .nat 2)])]) :=
    .body ⟨by decide, [("complete", .null)],
      List.perm_append_singleton ("number", Json.nat 2) [("formula", .string "A"),
        ("justification", .string "Goal"), ("goal", .bool true), ("complete", .null)],
      by simp [Row.fieldNames]⟩
  have hrow := @Snapshot.Reworded.row _ _ [("complete", .bool false)] [] [] []
    (@Row.Reworded.inside _ _ [("complete", .bool false), ("adjacent", .bool true)] []
      [(Row.empty 1).toJson] [] hgoal)
  have hwhole : ∀ items, Snapshot.Reworded (.object [("complete", .bool false), ("items", items)])
      (.object [("items", items), ("version", .nat 7), ("complete", .bool false)]) := fun items =>
    .whole ⟨by simp, [("version", .nat 7)], List.perm_append_singleton ("complete", Json.bool false)
      [("items", items), ("version", .nat 7)], by simp [Snapshot.fieldNames]⟩
  have hsteps := Relation.ReflTransGen.head hrow (.single (hwhole _))
  exact ⟨_, _, rfl, hfits, hsteps, rfl, (hreworded _ _ hsteps).trans ((hencoded _).2 hfits)⟩

end NaturalDeduction
