import NaturalDeduction.Signature
import Mathlib.Data.List.Nodup
import Mathlib.Data.List.Perm.Subperm

/-!
# New names

Skolem constants have different names, and there are only finitely many constants, so the search for
the next Skolem constant finds a name that is not in use: of the first `n + 1` names tried one is
free when there are `n` constants.
-/

set_option autoImplicit false

namespace NaturalDeduction

/-- The names of a map are those under which something is stored. -/
theorem NameMap.mem_keys_iff {β : Type} {m : NameMap β} {name : String} :
    name ∈ m.keys ↔ (m.get? name).isSome = true := by
  unfold keys get?
  induction m.entries with
  | nil => simp [lookup]
  | cons entry rest ih =>
    obtain ⟨key, value⟩ := entry
    rw [List.map_cons, List.mem_cons, ih, lookup]
    by_cases hkey : key = name
    · simp [hkey]
    · rw [if_neg hkey]
      simp [Ne.symm hkey]

/-- The list of a set has the names of the set. -/
theorem NameSet.mem_toList {s : NameSet} {name : String} : name ∈ s.toList ↔ name ∈ s :=
  NameMap.mem_keys_iff

/-- Different digits are written differently. -/
theorem digitChar_inj {m n : Nat} (hm : m < 10) (hn : n < 10) (h : m.digitChar = n.digitChar) :
    m = n := by
  have hall : ∀ m < 10, ∀ n < 10, m.digitChar = n.digitChar → m = n := by decide
  exact hall m hm n hn h

/-- Different numbers are written differently: from the last digit on, by the number of digits. -/
theorem toDigits_inj : ∀ {m n : Nat}, Nat.toDigits 10 m = Nat.toDigits 10 n → m = n := by
  intro m
  induction m using Nat.strongRecOn with
  | ind m ih =>
    intro n h
    rcases Nat.lt_or_ge m 10 with hm | hm <;> rcases Nat.lt_or_ge n 10 with hn | hn
    · rw [Nat.toDigits_of_lt_base hm, Nat.toDigits_of_lt_base hn] at h
      exact digitChar_inj hm hn (List.singleton_inj.1 h)
    · rw [Nat.toDigits_of_lt_base hm, Nat.toDigits_of_base_le (by decide) hn] at h
      exact absurd (List.append_eq_singleton_iff.1 h.symm) (by simp [Nat.toDigits_ne_nil])
    · rw [Nat.toDigits_of_base_le (by decide) hm, Nat.toDigits_of_lt_base hn] at h
      exact absurd (List.append_eq_singleton_iff.1 h) (by simp [Nat.toDigits_ne_nil])
    · rw [Nat.toDigits_of_base_le (by decide) hm, Nat.toDigits_of_base_le (by decide) hn] at h
      obtain ⟨hinit, hlast⟩ := List.append_inj' h rfl
      have hquot : m / 10 = n / 10 := ih (m / 10) (by omega) hinit
      have hrem : m % 10 = n % 10 :=
        digitChar_inj (by omega) (by omega) (List.singleton_inj.1 hlast)
      omega

namespace Signature

/-- Different indices name different Skolem constants. -/
theorem skolemName_injective : Function.Injective skolemName := by
  intro m n h
  have hdigits : m.repr.toList = n.repr.toList := by
    simpa [skolemName, String.ext_iff] using h
  rw [Nat.toList_repr, Nat.toList_repr] at hdigits
  exact toDigits_inj hdigits

/-- If the search ends at a name in use, all names it tried are in use. -/
theorem mem_of_firstUnused_mem {constants : NameSet} {bound : Nat} :
    ∀ {index : Nat}, skolemName (firstUnused constants bound index) ∈ constants →
      ∀ k ≤ bound, skolemName (index + k) ∈ constants := by
  induction bound with
  | zero =>
    intro index h k hk
    obtain rfl : k = 0 := Nat.le_zero.1 hk
    exact h
  | succ bound ih =>
    intro index h k hk
    by_cases hindex : skolemName index ∈ constants
    · rw [firstUnused, if_pos hindex] at h
      cases k with
      | zero => exact hindex
      | succ k =>
        have := ih h k (Nat.le_of_succ_le_succ hk)
        rwa [Nat.add_assoc, Nat.add_comm 1 k] at this
    · rw [firstUnused, if_neg hindex] at h
      exact absurd h hindex

/-- The next Skolem constant is not in use. -/
theorem nextSkolem_not_mem (sig : Signature) : sig.nextSkolem ∉ sig.constants := by
  intro hmem
  have hall := mem_of_firstUnused_mem hmem
  let tried := (List.range (sig.constants.toList.length + 1)).map fun k =>
    skolemName (sig.skolemNext + k)
  have hnodup : tried.Nodup := by
    refine List.Nodup.map (fun a b hab => ?_) List.nodup_range
    exact Nat.add_left_cancel (skolemName_injective hab)
  have hsub : tried ⊆ sig.constants.toList := by
    intro name hname
    obtain ⟨k, hk, rfl⟩ := List.mem_map.1 hname
    exact NameSet.mem_toList.2 (hall k (Nat.le_of_lt_succ (List.mem_range.1 hk)))
  have hlen := (List.subperm_of_subset hnodup hsub).length_le
  rw [List.length_map, List.length_range] at hlen
  exact absurd hlen (Nat.not_succ_le_self _)

/-- Introducing a Skolem constant adds it to the constants and nothing else. -/
theorem mem_freshSkolem_constants {sig : Signature} {name : String} :
    name ∈ sig.freshSkolem.2.constants ↔ name = sig.nextSkolem ∨ name ∈ sig.constants :=
  NameSet.mem_add

/-- Introducing a Skolem constant adds it to the Skolem constants and nothing else. -/
theorem mem_freshSkolem_skolems {sig : Signature} {name : String} :
    name ∈ sig.freshSkolem.2.skolems ↔ name = sig.nextSkolem ∨ name ∈ sig.skolems :=
  NameSet.mem_add

end Signature
end NaturalDeduction
