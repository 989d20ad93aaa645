import NaturalDeduction.Replacement
import NaturalDeduction.Proofs.Inference.Calculus
import NaturalDeduction.Proofs.Semantics.Structure

/-!
# Equals for equals

Two closed terms for one object may stand in place of each other, in all places or in some.  The terms
have to be closed: replacing looks under quantifiers, where a variable may have another object.
-/

set_option autoImplicit false

namespace NaturalDeduction

universe u

variable {α : Type u} {M : Structure α} {v : String → α} {old new : Term}

namespace Term

/-- Replacing a term by one with the same value changes no value. -/
theorem eval_replace (h : old.eval M v = new.eval M v) (t : Term) :
    (t.replace old new).eval M v = t.eval M v := by
  induction t with
  | const name =>
    rw [replace]
    split
    · rename_i hold
      rw [hold, h]
    · rfl
  | var name =>
    rw [replace]
    split
    · rename_i hold
      rw [hold, h]
    · rfl
  | app name args ih =>
    rw [replace]
    split
    · rename_i hold
      rw [hold, h]
    · rw [eval, eval, evalList_eq, evalList_eq, replaceList_eq, List.map_map]
      congr 1
      exact List.map_congr_left ih

/-- Terms that become others one by one keep their values, if each does. -/
theorem map_eval_of_becomesList {ts targets : List Term}
    (ht : ∀ t ∈ ts, ∀ target, t.becomes old new target = true → t.eval M v = target.eval M v)
    (h : becomesList ts old new targets = true) : ts.map (eval M v) = targets.map (eval M v) := by
  induction ts generalizing targets with
  | nil =>
    cases targets with
    | nil => rfl
    | cons => simp [becomesList] at h
  | cons t ts ih =>
    cases targets with
    | nil => simp [becomesList] at h
    | cons target targets =>
      rw [becomesList, Bool.and_eq_true] at h
      rw [List.map_cons, List.map_cons, ht t List.mem_cons_self target h.1,
        ih (fun s hs => ht s (List.mem_cons_of_mem _ hs)) h.2]

/-- A term that becomes another by replacing equals has the same value. -/
theorem eval_of_becomes (heq : old.eval M v = new.eval M v) {t : Term} :
    ∀ {target : Term}, t.becomes old new target = true → t.eval M v = target.eval M v := by
  induction t with
  | const name =>
    intro target h
    obtain rfl | ⟨rfl, rfl⟩ : const name = target ∨ const name = old ∧ target = new := by
      simpa [becomes] using h
    · rfl
    · exact heq
  | var name =>
    intro target h
    obtain rfl | ⟨rfl, rfl⟩ : var name = target ∨ var name = old ∧ target = new := by
      simpa [becomes] using h
    · rfl
    · exact heq
  | app name args ih =>
    intro target h
    cases target with
    | app name' args' =>
      rw [becomes, Bool.or_eq_true, Bool.and_eq_true] at h
      rcases h with h | ⟨hname, hargs⟩
      · obtain heq' | ⟨rfl, rfl⟩ : app name args = app name' args' ∨
            app name args = old ∧ app name' args' = new := by simpa using h
        · rw [heq']
        · exact heq
      · obtain rfl : name = name' := by simpa using hname
        rw [eval, eval, evalList_eq, evalList_eq,
          map_eval_of_becomesList (fun t ht _ => ih t ht) hargs]
    | _ =>
      obtain ⟨rfl, rfl⟩ : app name args = old ∧ _ = new := by simpa [becomes] using h
      exact heq

/-- Closed terms for one object stand for one object under quantifiers too. -/
theorem eval_update_eq (hold : old.vars = []) (hnew : new.vars = [])
    (h : old.eval M v = new.eval M v) (var : String) (a : α) :
    old.eval M (Function.update v var a) = new.eval M (Function.update v var a) := by
  rw [eval_closed hold _ v, eval_closed hnew _ v, h]

end Term

namespace Formula

/-- Replacing a closed term by a closed one with the same value does not change what a formula says.
-/
theorem holds_replace (hold : old.vars = []) (hnew : new.vars = [])
    (h : old.eval M v = new.eval M v) (f : Formula) :
    (f.replace old new).Holds M v ↔ f.Holds M v := by
  induction f generalizing v with
  | prop | top | bottom => rfl
  | rel name args =>
    have hargs : args.map (Term.eval M v ∘ fun t => t.replace old new) =
        args.map (Term.eval M v) :=
      List.map_congr_left fun t _ => Term.eval_replace h t
    rw [replace, Holds, Holds, Term.replaceList_eq, List.map_map, hargs]
  | eq left right => rw [replace, Holds, Holds, Term.eval_replace h, Term.eval_replace h]
  | neg body ih => exact not_congr (ih h)
  | binary op left right ihl ihr => exact Connective.holds_congr (ihl h) (ihr h)
  | quant q var body ih =>
    exact Quantifier.holds_congr fun a => ih (Term.eval_update_eq hold hnew h var a)

/-- A formula that becomes another by replacing some equals says the same. -/
theorem holds_of_becomes (hold : old.vars = []) (hnew : new.vars = [])
    (heq : old.eval M v = new.eval M v) {f target : Formula}
    (h : f.becomes old new target = true) : f.Holds M v ↔ target.Holds M v := by
  induction f generalizing v target with
  | prop | top | bottom =>
    obtain rfl : _ = target := by simpa [becomes] using h
    rfl
  | rel name args =>
    cases target with
    | rel name' args' =>
      obtain ⟨rfl, hargs⟩ : name = name' ∧ Term.becomesList args old new args' = true := by
        simpa [becomes] using h
      rw [Holds, Holds,
        Term.map_eval_of_becomesList (fun t _ _ ht => Term.eval_of_becomes heq ht) hargs]
    | _ => simp [becomes] at h
  | eq left right =>
    cases target with
    | eq left' right' =>
      rw [becomes, Bool.and_eq_true] at h
      rw [Holds, Holds, Term.eval_of_becomes heq h.1, Term.eval_of_becomes heq h.2]
    | _ => simp [becomes] at h
  | neg body ih =>
    cases target with
    | neg body' => exact not_congr (ih heq h)
    | _ => simp [becomes] at h
  | binary op left right ihl ihr =>
    cases target with
    | binary op' left' right' =>
      obtain ⟨⟨rfl, hleft⟩, hright⟩ : (op = op' ∧ left.becomes old new left' = true) ∧
          right.becomes old new right' = true := by simpa [becomes] using h
      exact Connective.holds_congr (ihl heq hleft) (ihr heq hright)
    | _ => simp [becomes] at h
  | quant q var body ih =>
    cases target with
    | quant q' var' body' =>
      obtain ⟨⟨rfl, rfl⟩, hbody⟩ : (q = q' ∧ var = var') ∧ body.becomes old new body' = true := by
        simpa [becomes] using h
      -- both terms are closed, so they are still equal when the variable changes
      exact Quantifier.holds_congr fun a =>
        ih (Term.eval_update_eq hold hnew heq var a) hbody
    | _ => simp [becomes] at h

end Formula

/-- Putting one of two closed terms for one object in place of the other keeps truth. -/
theorem Replaces.holds_iff {f g : Formula} (h : Replaces old new f g) (hold : old.vars = [])
    (hnew : new.vars = []) (heq : old.eval M v = new.eval M v) : f.Holds M v ↔ g.Holds M v := by
  cases h with
  | everywhere h => rw [h, Formula.holds_replace hold hnew heq]
  | back h => rw [h, Formula.holds_replace hnew hold heq.symm]
  | somewhere h => exact Formula.holds_of_becomes hold hnew heq h

end NaturalDeduction
