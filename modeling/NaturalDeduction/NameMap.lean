/-!
# Finite maps and sets of names

A `NameMap` stores values under names.  Its entries stand in increasing order of the names (by code
point), each name once, so two maps with the same content are equal and a listing of a map needs no
sorting.  A `NameSet` is a map that stores nothing but the names.

Reading after writing is settled by `NameMap.get?_insert` and `NameSet.mem_add`.
-/

set_option autoImplicit false

namespace NaturalDeduction

/-- A finite map from names to values, kept in increasing order of the names. -/
structure NameMap (β : Type) where
  /-- The entries, smallest name first. -/
  entries : List (String × β)
  /-- Names increase strictly from entry to entry. -/
  increasing : entries.Pairwise fun a b => a.1 < b.1
deriving DecidableEq

namespace NameMap

variable {β : Type}

/-- The value stored under a name in a list of entries. -/
def lookup (name : String) : List (String × β) → Option β
  | [] => none
  | (key, value) :: rest => if key = name then some value else lookup name rest

/-- Writes an entry at its place in an ordered list, over an entry of the same name. -/
def place (name : String) (value : β) : List (String × β) → List (String × β)
  | [] => [(name, value)]
  | (key, old) :: rest =>
    if name < key then (name, value) :: (key, old) :: rest
    else if name = key then (name, value) :: rest
    else (key, old) :: place name value rest

/-- Every name in the list after writing is the new one or was there before. -/
theorem key_of_mem_place {name : String} {value : β} {entries : List (String × β)}
    {entry : String × β} (h : entry ∈ place name value entries) :
    entry.1 = name ∨ entry ∈ entries := by
  induction entries with
  | nil =>
    simp only [place, List.mem_singleton] at h
    exact .inl (by rw [h])
  | cons head rest ih =>
    obtain ⟨key, old⟩ := head
    simp only [place] at h
    split at h
    · rcases List.mem_cons.1 h with rfl | h
      · exact .inl rfl
      · exact .inr h
    · split at h
      · rcases List.mem_cons.1 h with rfl | h
        · exact .inl rfl
        · exact .inr (List.mem_cons_of_mem _ h)
      · rcases List.mem_cons.1 h with rfl | h
        · exact .inr List.mem_cons_self
        · rcases ih h with h | h
          · exact .inl h
          · exact .inr (List.mem_cons_of_mem _ h)

/-- Writing an entry at its place keeps the names in increasing order. -/
theorem increasing_place {name : String} {value : β} {entries : List (String × β)}
    (h : entries.Pairwise fun a b => a.1 < b.1) :
    (place name value entries).Pairwise fun a b => a.1 < b.1 := by
  induction entries with
  | nil => simp [place]
  | cons head rest ih =>
    obtain ⟨key, old⟩ := head
    obtain ⟨hhead, hrest⟩ := List.pairwise_cons.1 h
    simp only [place]
    split
    · rename_i hlt
      refine List.pairwise_cons.2 ⟨fun entry hentry => ?_, h⟩
      rcases List.mem_cons.1 hentry with rfl | hentry
      · exact hlt
      · exact String.lt_trans hlt (hhead entry hentry)
    · rename_i hnot
      split
      · rename_i heq
        exact List.pairwise_cons.2 ⟨fun entry hentry => heq ▸ hhead entry hentry, hrest⟩
      · rename_i hne
        refine List.pairwise_cons.2 ⟨fun entry hentry => ?_, ih hrest⟩
        rcases key_of_mem_place hentry with hkey | hold
        · rw [hkey]
          apply Decidable.byContradiction
          intro hge
          exact hne (String.le_antisymm (String.not_lt.1 hge) (String.not_lt.1 hnot))
        · exact hhead entry hold

/-- Looking up a name after an entry was written finds the new value under its name and what was
there before under every other. -/
theorem lookup_place (name name' : String) (value : β) (entries : List (String × β)) :
    lookup name' (place name value entries) =
      if name = name' then some value else lookup name' entries := by
  induction entries with
  | nil => simp [place, lookup]
  | cons head rest ih =>
    obtain ⟨key, old⟩ := head
    simp only [place]
    split
    · simp [lookup]
    · split
      · rename_i heq
        subst heq
        by_cases h : name = name' <;> simp [lookup, h]
      · rename_i hne
        by_cases h : name = name'
        · subst h
          have hkey : key ≠ name := fun hk => hne hk.symm
          simp [lookup, ih, hkey]
        · simp [lookup, ih, h]

/-- The map without entries. -/
def empty : NameMap β := ⟨[], .nil⟩

instance : EmptyCollection (NameMap β) := ⟨empty⟩
instance : Inhabited (NameMap β) := ⟨empty⟩

/-- The value stored under a name. -/
def get? (m : NameMap β) (name : String) : Option β :=
  lookup name m.entries

/-- Stores a value under a name, in place of the one stored before. -/
def insert (m : NameMap β) (name : String) (value : β) : NameMap β :=
  ⟨place name value m.entries, increasing_place m.increasing⟩

/-- The names with an entry, in increasing order. -/
def keys (m : NameMap β) : List String :=
  m.entries.map Prod.fst

/-- Nothing is stored in the empty map. -/
@[simp] theorem get?_empty (name : String) : (∅ : NameMap β).get? name = none := rfl

/-- A value that was written is read under its name, and all other names are read as before. -/
theorem get?_insert (m : NameMap β) (name name' : String) (value : β) :
    (m.insert name value).get? name' = if name = name' then some value else m.get? name' :=
  lookup_place name name' value m.entries

end NameMap

/-- A finite set of names. -/
abbrev NameSet := NameMap Unit

namespace NameSet

/-- Whether a name belongs to the set. -/
def contains (s : NameSet) (name : String) : Bool :=
  (s.get? name).isSome

instance : Membership String NameSet := ⟨fun s name => s.contains name = true⟩

instance (name : String) (s : NameSet) : Decidable (name ∈ s) :=
  inferInstanceAs (Decidable (s.contains name = true))

/-- The set with one more name. -/
def add (s : NameSet) (name : String) : NameSet :=
  s.insert name ()

/-- The set of the names in a list. -/
def ofList (names : List String) : NameSet :=
  names.foldl add ∅

/-- The names of the set, in increasing order. -/
def toList (s : NameSet) : List String :=
  s.keys

/-- Being in a set of names is what the test says. -/
theorem mem_iff {s : NameSet} {name : String} : name ∈ s ↔ s.contains name = true := Iff.rfl

/-- No name is in the empty set. -/
@[simp] theorem not_mem_empty (name : String) : name ∉ (∅ : NameSet) := by
  simp [mem_iff, contains]

/-- The names of a set with one more name are that name and those of the set. -/
@[simp] theorem mem_add {s : NameSet} {name name' : String} :
    name' ∈ s.add name ↔ name' = name ∨ name' ∈ s := by
  simp only [mem_iff, contains, add, NameMap.get?_insert]
  by_cases h : name = name'
  · simp [h]
  · have h' : ¬ name' = name := fun h' => h h'.symm
    simp [h, h']

end NameSet
end NaturalDeduction
