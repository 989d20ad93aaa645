import NaturalDeduction.Formula.Reader

/-!
# Committing operators that wait

Three functions of the reader commit operators from the top of the stack: a connective commits those
that bind at least as tightly, a closing bracket those behind its opening bracket, and the end of the
text all.  `Settles` is what they have in common.
-/

set_option autoImplicit false

namespace NaturalDeduction.Formula

/-- What committing an operator does. -/
inductive Commits : Operator → Finished → Finished → Prop
  | not (f : Formula) (fs : List Formula) (bound : List String) :
      Commits .not ⟨f :: fs, bound⟩ ⟨.neg f :: fs, bound⟩
  | binary (op : Connective) (left right : Formula) (fs : List Formula) (bound : List String) :
      Commits (.binary op) ⟨right :: left :: fs, bound⟩ ⟨.binary op left right :: fs, bound⟩
  | quantifier (q : Quantifier) (var : String) (body : Formula) (fs : List Formula)
      (bound : List String) :
      Commits (.quantifier q) ⟨body :: fs, var :: bound⟩ ⟨.quant q var body :: fs, bound⟩

/-- An operator that is committed without an error finds its operands. -/
theorem Finished.commits {done done' : Finished} {op : Operator} (h : done.commit op = .ok done') :
    Commits op done done' := by
  obtain ⟨formulas, bound⟩ := done
  cases op with
  | not =>
    rcases formulas with _ | ⟨f, fs⟩
    · simp [commit] at h
    · obtain rfl := Except.ok.inj h
      exact .not f fs bound
  | binary op =>
    rcases formulas with _ | ⟨right, _ | ⟨left, fs⟩⟩
    · simp [commit] at h
    · simp [commit] at h
    · obtain rfl := Except.ok.inj h
      exact .binary op left right fs bound
  | quantifier q =>
    rcases formulas with _ | ⟨body, fs⟩
    · simp [commit] at h
    · rcases bound with _ | ⟨var, bound⟩
      · simp [commit] at h
      · obtain rfl := Except.ok.inj h
        exact .quantifier q var body fs bound

/-- Committing operators of at most the given priority leads from the first state to the second. -/
inductive Settles (level : Nat) : List Waiting → Finished → List Waiting → Finished → Prop
  | refl (stack : List Waiting) (done : Finished) : Settles level stack done stack done
  | commit {stack stack' : List Waiting} {done mid done' : Finished} {op : Operator}
      (hle : op.priority ≤ level) (hcommit : done.commit op = .ok mid)
      (hrest : Settles level stack mid stack' done') :
      Settles level (.operator op :: stack) done stack' done'

variable {level : Nat} {stack mid stack' : List Waiting} {done done₁ done' : Finished}

namespace Settles

/-- Operators can be committed in two rounds. -/
theorem trans (h : Settles level stack done mid done₁) (h' : Settles level mid done₁ stack' done') :
    Settles level stack done stack' done' := by
  induction h with
  | refl => exact h'
  | commit hle hcommit _ ih => exact .commit hle hcommit (ih h')

/-- Operators of at most some priority are of at most any greater one. -/
theorem loosen {level' : Nat} (hle : level ≤ level') (h : Settles level stack done stack' done') :
    Settles level' stack done stack' done' := by
  induction h with
  | refl => exact .refl _ _
  | commit hop hcommit _ ih => exact .commit (Nat.le_trans hop hle) hcommit ih

/-- Committing the tight operators first makes no difference before an operator that binds at most
as tightly. -/
theorem commitTighter_eq (h : Settles level stack done stack' done') {priority : Nat}
    (hle : level ≤ priority) :
    commitTighter priority stack done = commitTighter priority stack' done' := by
  induction h with
  | refl => rfl
  | commit hop hcommit _ ih =>
    rw [commitTighter, if_pos (Nat.le_trans hop hle)]
    simp only [hcommit, ih]

/-- Committing operators first makes no difference at the end of a group. -/
theorem closeGroup_eq (h : Settles level stack done stack' done') (closing : Bracket) :
    closeGroup closing stack done = closeGroup closing stack' done' := by
  induction h with
  | refl => rfl
  | commit _ hcommit _ ih =>
    rw [closeGroup]
    simp only [hcommit, ih]

/-- Committing operators first makes no difference at the end of the text. -/
theorem commitAll_eq (h : Settles level stack done stack' done') :
    commitAll stack done = commitAll stack' done' := by
  induction h with
  | refl => rfl
  | commit _ hcommit _ ih =>
    rw [commitAll]
    simp only [hcommit, ih]

end Settles

/-- What a connective commits, and where it stops. -/
theorem settles_of_commitTighter {priority : Nat}
    (h : commitTighter priority stack done = .ok (stack', done')) :
    Settles priority stack done stack' done' ∧
      ∀ op rest, stack' = .operator op :: rest → priority < op.priority := by
  fun_induction commitTighter priority stack done with
  | case1 op stack done hle mid hcommit ih =>
    obtain ⟨hsettles, hstop⟩ := ih h
    exact ⟨.commit hle hcommit hsettles, hstop⟩
  | case2 => simp at h
  | case3 op stack done hlt =>
    obtain ⟨rfl, rfl⟩ := Prod.mk.inj (Except.ok.inj h)
    refine ⟨.refl _ _, ?_⟩
    rintro _ _ ⟨⟩
    exact Nat.not_le.1 hlt
  | case4 stack done hstack =>
    obtain ⟨rfl, rfl⟩ := Prod.mk.inj (Except.ok.inj h)
    exact ⟨.refl _ _, fun op rest heq => absurd heq (hstack op rest)⟩

/-- What a closing bracket commits. -/
theorem settles_of_closeGroup {closing : Bracket}
    (h : closeGroup closing stack done = .ok (stack', done')) :
    ∃ level, Settles level stack done (.bracket closing :: stack') done' := by
  fun_induction closeGroup closing stack done with
  | case1 => simp at h
  | case2 op stack done mid hcommit ih =>
    obtain ⟨level, hsettles⟩ := ih h
    exact ⟨max op.priority level, .commit (Nat.le_max_left _ _) hcommit
      (hsettles.loosen (Nat.le_max_right _ _))⟩
  | case3 => simp at h
  | case4 =>
    obtain ⟨rfl, rfl⟩ := Prod.mk.inj (Except.ok.inj h)
    exact ⟨0, .refl _ _⟩
  | case5 => simp at h

/-- What the end of the text commits. -/
theorem settles_of_commitAll (h : commitAll stack done = .ok done') :
    ∃ level, Settles level stack done [] done' := by
  fun_induction commitAll stack done with
  | case1 =>
    obtain rfl := Except.ok.inj h
    exact ⟨0, .refl _ _⟩
  | case2 op stack done mid hcommit ih =>
    obtain ⟨level, hsettles⟩ := ih h
    exact ⟨max op.priority level, .commit (Nat.le_max_left _ _) hcommit
      (hsettles.loosen (Nat.le_max_right _ _))⟩
  | case3 => simp at h
  | case4 => simp at h

end NaturalDeduction.Formula
