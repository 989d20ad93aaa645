import Mathlib.Order.Bounds.Basic
import NaturalDeduction.Proofs.Reading.Extension
import NaturalDeduction.Text.Numeral

/-!
# The supply of Skolem constants

The search for the next Skolem constant tries one index after the other, without a bound of its own
(`Signature.Search`).  It ends because there are only finitely many constants, and it ends at the least
index that is free, which is `Signature.nextIndex`.  The index can be read off the name again.

A signature is used for recording constants and symbols, for reading formulas and for introducing
Skolem constants.  Only the last moves `skolemNext`, to just beyond the index it has found, so along any
sequence of uses the indices go up and no name comes twice (`Signature.useAll_skolems_new`).
-/

set_option autoImplicit false

namespace NaturalDeduction

/-! ### Reading numbers back -/

namespace Text

/-- A digit is read back. -/
theorem digit?_digitChar {d : Nat} (h : d < 10) : digit? d.digitChar = some d := by
  have hall : ∀ d < 10, digit? d.digitChar = some d := by decide
  exact hall d h

/-- Digits are read from left to right. -/
theorem digitsFrom_append (value : Nat) (cs ds : List Char) :
    digitsFrom value (cs ++ ds) = (digitsFrom value cs).bind fun v => digitsFrom v ds := by
  induction cs generalizing value with
  | nil => rfl
  | cons c cs ih =>
    rw [List.cons_append, digitsFrom, digitsFrom]
    cases digit? c with
    | none => rfl
    | some d => exact ih (10 * value + d)

/-- The digits of a number have its value: from the last digit on, as they are written. -/
theorem digitsFrom_toDigits (n : Nat) : digitsFrom 0 (Nat.toDigits 10 n) = some n := by
  induction n using Nat.strongRecOn with
  | ind n ih =>
    rcases Nat.lt_or_ge n 10 with hn | hn
    · simp [Nat.toDigits_of_lt_base hn, digitsFrom, digit?_digitChar hn]
    · have hlast : n % 10 < 10 := Nat.mod_lt n (by decide)
      rw [Nat.toDigits_of_base_le (by decide) hn, digitsFrom_append, ih (n / 10) (by omega)]
      simp [digitsFrom, digit?_digitChar hlast, Nat.div_add_mod]

/-- Digits are read as a number: they do not begin with a plus sign. -/
theorem number?_of_digits? {limit n : Nat} {cs : List Char} (h : digits? cs = some n)
    (hlt : n < limit) : number? limit cs = some n := by
  unfold number?
  split
  · exact absurd h (by simp [digits?, digitsFrom, digit?])
  · simp [h, hlt]

/-- A number below the limit is read back from its digits. -/
theorem number?_toDigits {limit n : Nat} (hlt : n < limit) :
    number? limit (Nat.toDigits 10 n) = some n := by
  refine number?_of_digits? ?_ hlt
  cases hdigits : Nat.toDigits 10 n with
  | nil => exact absurd hdigits Nat.toDigits_ne_nil
  | cons c cs =>
    have hvalue : digitsFrom 0 (c :: cs) = some n := hdigits ▸ digitsFrom_toDigits n
    simpa [digits?] using hvalue

end Text

namespace Signature

variable {sig : Signature} {constants : NameSet} {index n : Nat} {name : String}

/-- The limit that the indices of Skolem constants stay below: they have 32 bits. -/
def indexLimit : Nat := 4294967296

/-- The name of a Skolem constant is a letter and the digits of its index. -/
theorem toList_skolemName (index : Nat) :
    (skolemName index).toList = 'c' :: Nat.toDigits 10 index := by
  simp [skolemName, Nat.toList_repr]

/-- The index is read off the name. -/
theorem number?_skolemName {limit : Nat} (h : index < limit) :
    Text.number? limit ((skolemName index).toList.drop 1) = some index := by
  rw [toList_skolemName]
  exact Text.number?_toDigits h

/-! ### The search -/

/-- The search that begins at `index` ends at `found`: it goes on to the next index as long as the name
is in use. -/
inductive Search (constants : NameSet) : (index found : Nat) → Prop where
  | found {index : Nat} (hfree : skolemName index ∉ constants) : Search constants index index
  | next {index found : Nat} (hused : skolemName index ∈ constants)
    (hrest : Search constants (index + 1) found) : Search constants index found

/-- The search ends at the least index that is free, if there is one. -/
theorem search_iff_isLeast :
    Search constants index n ↔ IsLeast {k | index ≤ k ∧ skolemName k ∉ constants} n := by
  constructor
  · intro h
    induction h with
    | found hfree => exact ⟨⟨Nat.le_refl _, hfree⟩, fun k hk => hk.1⟩
    | @next index found hused _ ih =>
      obtain ⟨⟨hle, hfree⟩, hleast⟩ := ih
      refine ⟨⟨Nat.le_of_succ_le hle, hfree⟩, fun k hk => hleast ⟨?_, hk.2⟩⟩
      exact Nat.lt_of_le_of_ne hk.1 fun hindex => hk.2 (hindex ▸ hused)
  · rintro ⟨⟨hle, hfree⟩, hleast⟩
    -- by the number of indices that are tried in vain
    induction hle using Nat.decreasingInduction with
    | self => exact .found hfree
    | of_succ index hlt ih =>
      have hused : skolemName index ∈ constants := by
        by_contra hfree'
        exact absurd (hleast ⟨Nat.le_refl index, hfree'⟩) (Nat.not_le.2 hlt)
      exact .next hused (ih fun k hk => hleast ⟨Nat.le_of_succ_le hk.1, hk.2⟩)

/-- A bounded search that ends at a free index goes as the one without a bound. -/
theorem search_firstUnused {bound : Nat}
    (hfree : skolemName (firstUnused constants bound index) ∉ constants) :
    Search constants index (firstUnused constants bound index) := by
  induction bound generalizing index with
  | zero => exact .found hfree
  | succ bound ih =>
    by_cases hused : skolemName index ∈ constants
    · rw [firstUnused, if_pos hused] at hfree ⊢
      exact .next hused (ih hfree)
    · rw [firstUnused, if_neg hused]
      exact .found hused

/-- The search for an unused index ends within its bound. -/
theorem firstUnused_le (constants : NameSet) (bound index : Nat) :
    firstUnused constants bound index ≤ index + bound := by
  induction bound generalizing index with
  | zero => exact Nat.le_refl _
  | succ bound ih =>
    rw [firstUnused]
    split
    · have := ih (index + 1)
      omega
    · omega

/-- The next index is the least one from the counter on whose name is not known. -/
theorem isLeast_nextIndex (sig : Signature) :
    IsLeast {k | sig.skolemNext ≤ k ∧ skolemName k ∉ sig.constants} sig.nextIndex :=
  search_iff_isLeast.1 (search_firstUnused sig.nextSkolem_not_mem)

/-- The search of a signature ends, and only at its next index. -/
theorem search_iff_nextIndex (sig : Signature) (n : Nat) :
    Search sig.constants sig.skolemNext n ↔ n = sig.nextIndex := by
  rw [search_iff_isLeast]
  refine ⟨fun h => h.unique sig.isLeast_nextIndex, ?_⟩
  rintro rfl
  exact sig.isLeast_nextIndex

/-- What `skolemNext` becomes is read off the name that is introduced. -/
theorem skolemNext_freshSkolem (h : sig.nextIndex < indexLimit) :
    sig.freshSkolem.2.skolemNext =
      (Text.number? indexLimit (sig.freshSkolem.1.toList.drop 1)).elim sig.skolemNext (· + 1) := by
  have hread : Text.number? indexLimit (sig.freshSkolem.1.toList.drop 1) = some sig.nextIndex :=
    number?_skolemName h
  rw [hread]
  rfl

/-! ### Uses of a signature -/

/-- What a signature is used for. -/
inductive Use where
  /-- A constant is recorded. -/
  | addConstant (name : String)
  /-- The number of arguments of a symbol is recorded, unless another one has been. -/
  | recordArity (kind : SymbolKind) (name : String) (count : Nat)
  /-- A formula is read, or it is found that it cannot be read. -/
  | parse (text : String)
  /-- A Skolem constant is introduced. -/
  | freshSkolem

/-- The Skolem constant that a use introduces, and the signature after it. -/
def use (sig : Signature) : Use → Option String × Signature
  | .addConstant name => (none, sig.addConstant name)
  | .recordArity kind name count => (none, ((Reader.recordArity kind name count).outcome sig).2)
  | .parse text => (none, ((Formula.parse text).outcome sig).2)
  | .freshSkolem => (some sig.freshSkolem.1, sig.freshSkolem.2)

/-- The Skolem constants that uses introduce one after the other, and the signature after them. -/
def useAll (sig : Signature) : List Use → List String × Signature
  | [] => ([], sig)
  | u :: uses =>
    let (name, mid) := sig.use u
    let (names, last) := mid.useAll uses
    (name.toList ++ names, last)

variable {u : Use} {uses earlier later : List Use}

/-- A use introduces a Skolem constant, or it leaves Skolem constants alone. -/
theorem use_cases (sig : Signature) (u : Use) :
    u = .freshSkolem ∨ (sig.use u).1 = none ∧ sig.Augments (sig.use u).2 := by
  cases u with
  | addConstant name => exact Or.inr ⟨rfl, sig.augments_addConstant name⟩
  | recordArity kind name count =>
    exact Or.inr ⟨rfl, Reader.Augments.recordArity kind name count sig⟩
  | parse text => exact Or.inr ⟨rfl, Formula.augments_parse text sig⟩
  | freshSkolem => exact Or.inl rfl

/-- A use loses nothing of the signature. -/
theorem extends_use (sig : Signature) (u : Use) : sig.Extends (sig.use u).2 := by
  rcases sig.use_cases u with rfl | ⟨-, haugments⟩
  · exact sig.extends_freshSkolem
  · exact haugments.grows

/-- Uses lose nothing of the signature. -/
theorem extends_useAll (sig : Signature) (uses : List Use) : sig.Extends (sig.useAll uses).2 := by
  induction uses generalizing sig with
  | nil => exact .refl sig
  | cons u uses ih => exact (sig.extends_use u).trans (ih (sig.use u).2)

/-- Later uses go on from where the earlier ones end. -/
theorem useAll_append (sig : Signature) (earlier later : List Use) :
    sig.useAll (earlier ++ later) =
      ((sig.useAll earlier).1 ++ ((sig.useAll earlier).2.useAll later).1,
        ((sig.useAll earlier).2.useAll later).2) := by
  induction earlier generalizing sig with
  | nil => rfl
  | cons u earlier ih =>
    simp only [List.cons_append, useAll, ih, List.append_assoc]

/-- The names that are introduced have indices that go up, from `skolemNext` on. -/
theorem useAll_indices (sig : Signature) (uses : List Use) :
    ∃ indices : List Nat, (sig.useAll uses).1 = indices.map skolemName ∧
      indices.Pairwise (· < ·) ∧ ∀ k ∈ indices, sig.skolemNext ≤ k := by
  induction uses generalizing sig with
  | nil => exact ⟨[], rfl, .nil, by simp⟩
  | cons u uses ih =>
    obtain ⟨indices, hnames, hsorted, hfrom⟩ := ih (sig.use u).2
    rcases sig.use_cases u with rfl | ⟨hnone, haugments⟩
    · -- everything that follows starts beyond the index of the new name
      have hfirst : ∀ k ∈ indices, sig.nextIndex < k := hfrom
      have hnext : sig.skolemNext ≤ sig.nextIndex := sig.isLeast_nextIndex.1.1
      refine ⟨sig.nextIndex :: indices, ?_, List.pairwise_cons.2 ⟨hfirst, hsorted⟩, ?_⟩
      · exact congrArg (sig.nextSkolem :: ·) hnames
      · exact List.forall_mem_cons.2 ⟨hnext, fun k hk => hnext.trans (hfirst k hk).le⟩
    · refine ⟨indices, ?_, hsorted, haugments.skolemNext ▸ hfrom⟩
      simp only [useAll, hnone, Option.toList_none, List.nil_append, hnames]

/-! ### Names that are not on record -/

/-- A name differs from all constants that have been on record up to the end of the uses: it has never
been in the signature, so it has not been added, and no formula that was read mentions it. -/
structure Unrecorded (sig : Signature) (uses : List Use) (name : String) : Prop where
  constants : ∀ earlier later, uses = earlier ++ later → name ∉ (sig.useAll earlier).2.constants
  added : .addConstant name ∉ uses
  read : ∀ earlier text later, uses = earlier ++ .parse text :: later →
    ∀ f, ((Formula.parse text).outcome (sig.useAll earlier).2).1 = .ok f → name ∉ f.constants

/-- What a use has put on record stays there. -/
theorem mem_constants_useAll (h : name ∈ ((sig.useAll earlier).2.use u).2.constants) :
    name ∈ (sig.useAll (earlier ++ u :: later)).2.constants := by
  rw [useAll_append]
  exact (extends_useAll _ later).constants name h

/-- A name that is not known in the end has never been known. -/
theorem unrecorded_of_not_mem (h : name ∉ (sig.useAll uses).2.constants) :
    sig.Unrecorded uses name where
  constants earlier later huses hname := by
    subst huses
    rw [useAll_append] at h
    exact h ((extends_useAll _ later).constants name hname)
  added hadded := by
    obtain ⟨earlier, later, rfl⟩ := List.append_of_mem hadded
    exact h (mem_constants_useAll (NameSet.mem_add.2 (Or.inl rfl)))
  read earlier text later huses f hf hname := by
    subst huses
    have hparse := Reader.outcome_eq_ok.1 (Prod.ext hf rfl)
    exact h (mem_constants_useAll ((Formula.parse_learns hparse).mem hname))

/-- The name that is introduced after some uses is not on record. -/
theorem useAll_freshSkolem (sig : Signature) (before after : List Use) :
    ∃ name later, (sig.useAll (before ++ .freshSkolem :: after)).1 =
      (sig.useAll before).1 ++ name :: later ∧ sig.Unrecorded before name := by
  rw [useAll_append]
  exact ⟨_, _, rfl, unrecorded_of_not_mem (sig.useAll before).2.nextSkolem_not_mem⟩

/-- The search for the next Skolem constant ends, after as many vain attempts as there are constants at
most, and it gives the name with the least index from `skolemNext` on that is free; `skolemNext` then
becomes the number that is read off the name and one more.  In any sequence of uses the Skolem
constants that are introduced differ, their indices go up, and each of them differs from every constant
that has been on record before. -/
theorem useAll_skolems_new (sig : Signature) :
    (∃ index, (∀ n, Search sig.constants sig.skolemNext n ↔ n = index) ∧
      sig.nextSkolem = skolemName index ∧
      IsLeast {k | sig.skolemNext ≤ k ∧ skolemName k ∉ sig.constants} index ∧
      index ≤ sig.skolemNext + sig.constants.toList.length ∧
      (index < indexLimit → sig.freshSkolem.2.skolemNext =
        (Text.number? indexLimit (sig.freshSkolem.1.toList.drop 1)).elim sig.skolemNext (· + 1))) ∧
    ∀ uses : List Use,
      (∃ indices : List Nat, (sig.useAll uses).1 = indices.map skolemName ∧
        indices.Pairwise (· < ·)) ∧
      (sig.useAll uses).1.Nodup ∧
      ∀ before after, uses = before ++ .freshSkolem :: after →
        ∃ name later, (sig.useAll uses).1 = (sig.useAll before).1 ++ name :: later ∧
          sig.Unrecorded before name := by
  refine ⟨⟨sig.nextIndex, sig.search_iff_nextIndex, rfl, sig.isLeast_nextIndex,
    firstUnused_le _ _ _, skolemNext_freshSkolem⟩, fun uses => ?_⟩
  obtain ⟨indices, hnames, hsorted, -⟩ := sig.useAll_indices uses
  refine ⟨⟨indices, hnames, hsorted⟩, ?_, ?_⟩
  · rw [hnames]
    exact (hsorted.imp Nat.ne_of_lt).map _ fun _ _ => skolemName_injective.ne
  · rintro before after rfl
    exact sig.useAll_freshSkolem before after

/-- Names of the form of Skolem constants have come in ahead of the search: two at the start, two with a
formula that cannot be read, and one by itself. -/
theorem useAll_skolems_new_ahead :
    ∃ (sig : Signature) (before : List Use),
      sig = { constants := .ofList ["c0", "c2"] } ∧
      before = [.parse "P(c3, c5) ∧", .freshSkolem, .freshSkolem, .recordArity .relation "P" 1,
        .addConstant "c6"] ∧
      Search sig.constants sig.skolemNext 1 ∧ 1 < indexLimit ∧
      sig.freshSkolem.2.skolemNext =
        (Text.number? indexLimit (sig.freshSkolem.1.toList.drop 1)).elim sig.skolemNext (· + 1) ∧
      (sig.useAll (before ++ [.freshSkolem])).1 = ["c1", "c4", "c7"] ∧
      sig.Unrecorded before "c7" := by
  generalize hsig : ({ constants := .ofList ["c0", "c2"] } : Signature) = sig
  generalize huses : [Use.parse "P(c3, c5) ∧", .freshSkolem, .freshSkolem,
    .recordArity .relation "P" 1, .addConstant "c6"] = before
  have hnext : sig.nextSkolem = skolemName 1 := by
    rw [← hsig]
    decide +kernel
  have hbefore : (sig.useAll before).1 = ["c1", "c4"] := by
    rw [← hsig, ← huses]
    decide +kernel
  have hall : (sig.useAll (before ++ [.freshSkolem])).1 = ["c1", "c4", "c7"] := by
    rw [← hsig, ← huses]
    decide +kernel
  obtain ⟨⟨index, hsearch, hname, -, -, hread⟩, hruns⟩ := useAll_skolems_new sig
  obtain rfl : 1 = index := skolemName_injective (hnext.symm.trans hname)
  obtain ⟨name, later, hnames, hunrecorded⟩ := (hruns _).2.2 before [] rfl
  obtain ⟨rfl, -⟩ : "c7" = name ∧ [] = later := by
    simpa [hbefore] using hall.symm.trans hnames
  exact ⟨sig, before, rfl, rfl, (hsearch 1).2 rfl, by decide, hread (by decide), hall, hunrecorded⟩

end Signature
end NaturalDeduction
