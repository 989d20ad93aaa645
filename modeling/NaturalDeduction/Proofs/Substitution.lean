import NaturalDeduction.Substitution
import NaturalDeduction.Replacement
import NaturalDeduction.Proofs.Occurrence

/-!
# Names after substitution and replacement

Putting closed terms in place of variables brings in no variables, and removes those it replaces; the
constants of the outcome come from the formula and from the terms.  So instances of closed formulas
with closed terms are closed, and nothing that substitution or replacement does leads out of the names
that were there before.
-/

set_option autoImplicit false

namespace NaturalDeduction

namespace Substitution

/-- All terms of the substitution are closed. -/
def Closed (σ : Substitution) : Prop :=
  ∀ {x t}, σ x = some t → t.vars = []

/-- Taking a variable out leaves closed terms. -/
theorem Closed.hide {σ : Substitution} (h : σ.Closed) (var : String) : (σ.hide var).Closed := by
  intro x t hx
  unfold Substitution.hide at hx
  split at hx
  · simp at hx
  · exact h hx

/-- One more closed term leaves closed terms. -/
theorem closed_set {σ : Substitution} (h : σ.Closed) {var : String} {t : Term} (ht : t.vars = []) :
    (σ.set var t).Closed := by
  intro x s hx
  unfold Substitution.set at hx
  split at hx
  · exact Option.some.inj hx ▸ ht
  · exact h hx

/-- The substitution for no variables has only closed terms. -/
theorem closed_none : Substitution.none.Closed := by
  intro x t hx
  simp [Substitution.none] at hx

end Substitution

/-- A listed substitution takes its terms from the list, and has one for every listed variable. -/
theorem Substitution.ofList_spec (entries : List (String × Term)) (x : String) :
    (∀ t, ofList entries x = some t → (x, t) ∈ entries) ∧
      (ofList entries x = .none → x ∉ entries.map Prod.fst) := by
  have hfold : ∀ (entries : List (String × Term)) (σ : Substitution),
      (∀ t, entries.foldl (fun σ entry => σ.set entry.1 entry.2) σ x = some t →
        (x, t) ∈ entries ∨ σ x = some t) ∧
      (entries.foldl (fun σ entry => σ.set entry.1 entry.2) σ x = .none →
        x ∉ entries.map Prod.fst ∧ σ x = .none) := by
    intro entries
    induction entries with
    | nil => intro σ; simp
    | cons entry entries ih =>
      intro σ
      obtain ⟨hsome, hnone⟩ := ih (σ.set entry.1 entry.2)
      constructor
      · intro t ht
        rcases hsome t ht with hmem | hset
        · exact Or.inl (List.mem_cons_of_mem _ hmem)
        · by_cases hx : x = entry.1
          · rw [Substitution.set, if_pos hx] at hset
            obtain rfl := Option.some.inj hset
            exact Or.inl (by simp [hx])
          · rw [Substitution.set, if_neg hx] at hset
            exact Or.inr hset
      · intro ht
        obtain ⟨hmem, hset⟩ := hnone ht
        by_cases hx : x = entry.1
        · rw [Substitution.set, if_pos hx] at hset
          exact absurd hset (by simp)
        · rw [Substitution.set, if_neg hx] at hset
          exact ⟨by simpa using ⟨hx, by simpa using hmem⟩, hset⟩
  obtain ⟨hsome, hnone⟩ := hfold entries Substitution.none
  refine ⟨fun t ht => ?_, fun ht => (hnone ht).1⟩
  rcases hsome t ht with hmem | hset
  · exact hmem
  · simp [Substitution.none] at hset

/-- With as many terms as variables, the terms are for exactly these variables. -/
theorem Substitution.ofList_zip {vars : List String} {ts : List Term}
    (hlength : vars.length = ts.length) (x : String) :
    (∀ t, ofList (vars.zip ts) x = some t → x ∈ vars ∧ t ∈ ts) ∧
      (ofList (vars.zip ts) x = .none → x ∉ vars) := by
  obtain ⟨hsome, hnone⟩ := ofList_spec (vars.zip ts) x
  rw [List.map_fst_zip (Nat.le_of_eq hlength)] at hnone
  exact ⟨fun t ht => List.of_mem_zip (hsome t ht), hnone⟩

namespace Term

/-- After closed terms are put in, the variables without a term are left. -/
theorem mem_vars_subst {σ : Substitution} (hσ : σ.Closed) {t : Term} {x : String}
    (h : x ∈ (t.subst σ).vars) : x ∈ t.vars ∧ σ x = .none := by
  induction t with
  | const name => simp [subst] at h
  | var name =>
    rw [subst] at h
    cases hname : σ name with
    | none =>
      obtain rfl : x = name := by simpa [hname] using h
      exact ⟨by simp, hname⟩
    | some s => simp [hname, hσ hname] at h
  | app name args ih =>
    rw [subst, substList_eq, vars_app, List.mem_flatMap] at h
    obtain ⟨_, hmem, hx⟩ := h
    obtain ⟨t, ht, rfl⟩ := List.mem_map.1 hmem
    obtain ⟨hvars, hnone⟩ := ih t ht hx
    exact ⟨by simpa using ⟨t, ht, hvars⟩, hnone⟩

/-- A substitution brings the constants of what is put in, and no others. -/
theorem mem_constants_subst {σ : Substitution} {t : Term} {c : String}
    (h : c ∈ (t.subst σ).constants) :
    c ∈ t.constants ∨ ∃ x s, σ x = some s ∧ c ∈ s.constants := by
  induction t with
  | const name => exact Or.inl h
  | var name =>
    rw [subst] at h
    cases hname : σ name with
    | none => simp [hname] at h
    | some s => exact Or.inr ⟨name, s, hname, by simpa [hname] using h⟩
  | app name args ih =>
    rw [subst, substList_eq, mem_constants_app] at h
    obtain ⟨_, hmem, hc⟩ := h
    obtain ⟨t, ht, rfl⟩ := List.mem_map.1 hmem
    exact (ih t ht hc).imp_left fun hct => mem_constants_app.2 ⟨t, ht, hct⟩

/-- A replacement brings the variables of the new term, and no others. -/
theorem mem_vars_replace {t old new : Term} {x : String} (h : x ∈ (t.replace old new).vars) :
    x ∈ t.vars ∨ x ∈ new.vars := by
  induction t with
  | const name | var name =>
    rw [replace] at h
    split at h
    · exact Or.inr h
    · exact Or.inl h
  | app name args ih =>
    rw [replace] at h
    split at h
    · exact Or.inr h
    · rw [replaceList_eq, vars_app, List.mem_flatMap] at h
      obtain ⟨_, hmem, hx⟩ := h
      obtain ⟨t, ht, rfl⟩ := List.mem_map.1 hmem
      exact (ih t ht hx).imp_left fun hxt => by simpa using ⟨t, ht, hxt⟩

/-- A replacement brings the constants of the new term, and no others. -/
theorem mem_constants_replace {t old new : Term} {c : String}
    (h : c ∈ (t.replace old new).constants) : c ∈ t.constants ∨ c ∈ new.constants := by
  induction t with
  | const name | var name =>
    rw [replace] at h
    split at h
    · exact Or.inr h
    · exact Or.inl h
  | app name args ih =>
    rw [replace] at h
    split at h
    · exact Or.inr h
    · rw [replaceList_eq, mem_constants_app] at h
      obtain ⟨_, hmem, hc⟩ := h
      obtain ⟨t, ht, rfl⟩ := List.mem_map.1 hmem
      exact (ih t ht hc).imp_left fun hct => mem_constants_app.2 ⟨t, ht, hct⟩

end Term

namespace Formula

/-- After closed terms are put in, the free variables without a term are left. -/
theorem mem_freeVars_subst {σ : Substitution} (hσ : σ.Closed) {f : Formula} {x : String}
    (h : x ∈ (f.subst σ).freeVars) : x ∈ f.freeVars ∧ σ x = .none := by
  induction f generalizing σ with
  | prop | top | bottom => simp [subst, freeVars] at h
  | rel name args =>
    rw [subst, freeVars, Term.substList_eq, List.mem_flatMap] at h
    obtain ⟨_, hmem, hx⟩ := h
    obtain ⟨t, ht, rfl⟩ := List.mem_map.1 hmem
    obtain ⟨hvars, hnone⟩ := Term.mem_vars_subst hσ hx
    exact ⟨List.mem_flatMap.2 ⟨t, ht, hvars⟩, hnone⟩
  | eq left right =>
    rcases List.mem_append.1 h with h | h
    · exact (Term.mem_vars_subst hσ h).imp_left (List.mem_append_left _)
    · exact (Term.mem_vars_subst hσ h).imp_left (List.mem_append_right _)
  | neg body ih => exact ih hσ h
  | binary op left right ihl ihr =>
    rcases List.mem_append.1 h with h | h
    · exact (ihl hσ h).imp_left (List.mem_append_left _)
    · exact (ihr hσ h).imp_left (List.mem_append_right _)
  | quant q var body ih =>
    obtain ⟨hbody, hne⟩ := List.mem_filter.1 h
    have hxv : x ≠ var := by simpa using hne
    obtain ⟨hfree, hnone⟩ := ih (hσ.hide var) hbody
    rw [Substitution.hide, if_neg hxv] at hnone
    exact ⟨List.mem_filter.2 ⟨hfree, hne⟩, hnone⟩

/-- A substitution brings the constants of what is put in into a formula, and no others. -/
theorem mem_constants_subst {σ : Substitution} {f : Formula} {c : String}
    (h : c ∈ (f.subst σ).constants) :
    c ∈ f.constants ∨ ∃ x s, σ x = some s ∧ c ∈ s.constants := by
  induction f generalizing σ with
  | prop | top | bottom => exact Or.inl h
  | rel name args =>
    rw [subst, Term.substList_eq, mem_constants_rel] at h
    obtain ⟨_, hmem, hc⟩ := h
    obtain ⟨t, ht, rfl⟩ := List.mem_map.1 hmem
    exact (Term.mem_constants_subst hc).imp_left fun hct => mem_constants_rel.2 ⟨t, ht, hct⟩
  | eq left right =>
    rcases mem_constants_eq.1 h with h | h
    · exact (Term.mem_constants_subst h).imp_left fun hc => mem_constants_eq.2 (Or.inl hc)
    · exact (Term.mem_constants_subst h).imp_left fun hc => mem_constants_eq.2 (Or.inr hc)
  | neg body ih =>
    exact (ih (mem_constants_neg.1 h)).imp_left mem_constants_neg.2
  | binary op left right ihl ihr =>
    rcases mem_constants_binary.1 h with h | h
    · exact (ihl h).imp_left fun hc => mem_constants_binary.2 (Or.inl hc)
    · exact (ihr h).imp_left fun hc => mem_constants_binary.2 (Or.inr hc)
  | quant q var body ih =>
    rcases ih (mem_constants_quant.1 h) with hc | ⟨x, s, hx, hc⟩
    · exact Or.inl (mem_constants_quant.2 hc)
    · unfold Substitution.hide at hx
      split at hx
      · simp at hx
      · exact Or.inr ⟨x, s, hx, hc⟩

/-- Replacing by a closed term brings no free variables. -/
theorem mem_freeVars_replace {old new : Term} (hnew : new.vars = []) {f : Formula} {x : String}
    (h : x ∈ (f.replace old new).freeVars) : x ∈ f.freeVars := by
  have hterm : ∀ {t : Term}, x ∈ (t.replace old new).vars → x ∈ t.vars := fun hx =>
    (Term.mem_vars_replace hx).resolve_right (by simp [hnew])
  induction f with
  | prop | top | bottom => exact h
  | rel name args =>
    rw [replace, freeVars, Term.replaceList_eq, List.mem_flatMap] at h
    obtain ⟨_, hmem, hx⟩ := h
    obtain ⟨t, ht, rfl⟩ := List.mem_map.1 hmem
    exact List.mem_flatMap.2 ⟨t, ht, hterm hx⟩
  | eq left right => exact List.mem_append.2 ((List.mem_append.1 h).imp hterm hterm)
  | neg body ih => exact ih h
  | binary op left right ihl ihr => exact List.mem_append.2 ((List.mem_append.1 h).imp ihl ihr)
  | quant q var body ih =>
    obtain ⟨hbody, hne⟩ := List.mem_filter.1 h
    exact List.mem_filter.2 ⟨ih hbody, hne⟩

/-- A replacement brings the constants of the new term into a formula, and no others. -/
theorem mem_constants_replace {old new : Term} {f : Formula} {c : String}
    (h : c ∈ (f.replace old new).constants) : c ∈ f.constants ∨ c ∈ new.constants := by
  induction f with
  | prop | top | bottom => exact Or.inl h
  | rel name args =>
    rw [replace, Term.replaceList_eq, mem_constants_rel] at h
    obtain ⟨_, hmem, hc⟩ := h
    obtain ⟨t, ht, rfl⟩ := List.mem_map.1 hmem
    exact (Term.mem_constants_replace hc).imp_left fun hct => mem_constants_rel.2 ⟨t, ht, hct⟩
  | eq left right =>
    rcases mem_constants_eq.1 h with h | h
    · exact (Term.mem_constants_replace h).imp_left fun hc => mem_constants_eq.2 (Or.inl hc)
    · exact (Term.mem_constants_replace h).imp_left fun hc => mem_constants_eq.2 (Or.inr hc)
  | neg body ih => exact (ih (mem_constants_neg.1 h)).imp_left mem_constants_neg.2
  | binary op left right ihl ihr =>
    rcases mem_constants_binary.1 h with h | h
    · exact (ihl h).imp_left fun hc => mem_constants_binary.2 (Or.inl hc)
    · exact (ihr h).imp_left fun hc => mem_constants_binary.2 (Or.inr hc)
  | quant q var body ih =>
    exact (ih (mem_constants_quant.1 h)).imp_left mem_constants_quant.2

/-! ### Runs of quantifiers and instances -/

/-- To take off one more quantifier is to take off the first one and then the others. -/
theorem stripN_succ_eq_some {q : Quantifier} {n : Nat} {f body : Formula} {vars : List String}
    (h : f.stripN q (n + 1) = some (vars, body)) :
    ∃ var inner rest, f = .quant q var inner ∧ vars = var :: rest ∧
      inner.stripN q n = some (rest, body) := by
  rw [stripN] at h
  cases f with
  | quant q' var inner =>
    by_cases hq : q' = q
    · subst hq
      simp only [binder?, if_true] at h
      obtain ⟨⟨rest, body'⟩, hrest, heq⟩ := Option.map_eq_some_iff.1 h
      obtain ⟨rfl, rfl⟩ := Prod.mk.inj heq
      exact ⟨var, inner, rest, rfl, rfl, hrest⟩
    · simp [binder?, hq] at h
  | _ => simp [binder?] at h

/-- Each quantifier that is taken off binds one name. -/
theorem length_of_stripN {q : Quantifier} {n : Nat} {f body : Formula} {vars : List String}
    (h : f.stripN q n = some (vars, body)) : vars.length = n := by
  induction n generalizing f vars with
  | zero =>
    obtain ⟨rfl, -⟩ : [] = vars ∧ f = body := by simpa [stripN] using h
    rfl
  | succ n ih =>
    obtain ⟨var, inner, rest, rfl, rfl, hrest⟩ := stripN_succ_eq_some h
    rw [List.length_cons, ih hrest]

/-- As many quantifiers can be dropped as the formula has in front. -/
theorem stripN_isSome_iff {q : Quantifier} {n : Nat} {f : Formula} :
    (f.stripN q n).isSome ↔ n ≤ (f.strip q).1.length := by
  induction n generalizing f with
  | zero => simp [stripN]
  | succ n ih =>
    cases f with
    | quant q' var body =>
      by_cases hq : q' = q
      · simp [stripN, strip, binder?, hq, ih]
      · simp [stripN, strip, binder?, hq]
    | _ => simp [stripN, strip, binder?]

/-- Without the first quantifiers only their variables become free. -/
theorem mem_freeVars_of_stripN {q : Quantifier} {n : Nat} {f body : Formula} {vars : List String}
    (h : f.stripN q n = some (vars, body)) {x : String} (hx : x ∈ body.freeVars) (hxv : x ∉ vars) :
    x ∈ f.freeVars := by
  induction n generalizing f vars with
  | zero =>
    obtain ⟨-, rfl⟩ : [] = vars ∧ f = body := by simpa [stripN] using h
    exact hx
  | succ n ih =>
    obtain ⟨var, inner, rest, rfl, rfl, hrest⟩ := stripN_succ_eq_some h
    obtain ⟨hne, hxrest⟩ : x ≠ var ∧ x ∉ rest := by simpa using hxv
    exact List.mem_filter.2 ⟨ih hrest hxrest, by simpa using hne⟩

/-- Without the first quantifiers a formula has the same constants. -/
theorem mem_constants_of_stripN {q : Quantifier} {n : Nat} {f body : Formula} {vars : List String}
    (h : f.stripN q n = some (vars, body)) {c : String} :
    c ∈ body.constants ↔ c ∈ f.constants := by
  induction n generalizing f vars with
  | zero =>
    obtain ⟨-, rfl⟩ : [] = vars ∧ f = body := by simpa [stripN] using h
    rfl
  | succ n ih =>
    obtain ⟨var, inner, rest, rfl, rfl, hrest⟩ := stripN_succ_eq_some h
    rw [ih hrest, mem_constants_quant]

/-- What an instance comes from: the body behind the quantifiers and a closed substitution for exactly
the variables in front. -/
theorem instantiate?_eq_some {q : Quantifier} {ts : List Term} {f g : Formula}
    (hts : ∀ t ∈ ts, t.vars = []) (h : f.instantiate? q ts = some g) :
    ∃ vars body σ, f.stripN q ts.length = some (vars, body) ∧ g = body.subst σ ∧
      Substitution.Closed σ ∧ (∀ x t, σ x = some t → x ∈ vars ∧ t ∈ ts) ∧
      ∀ x, σ x = none → x ∉ vars := by
  obtain ⟨⟨vars, body⟩, hstrip, rfl⟩ := Option.map_eq_some_iff.1 h
  have hzip := Substitution.ofList_zip (length_of_stripN hstrip)
  exact ⟨vars, body, _, hstrip, rfl, fun hx => hts _ ((hzip _).1 _ hx).2, fun x => (hzip x).1,
    fun x => (hzip x).2⟩

/-- There is an instance if there is a quantifier in front for each term. -/
theorem instantiate?_isSome_iff {q : Quantifier} {ts : List Term} {f : Formula} :
    (f.instantiate? q ts).isSome ↔ ts.length ≤ (f.strip q).1.length := by
  rw [instantiate?, Option.isSome_map, stripN_isSome_iff]

/-- Instances of closed formulas with closed terms are closed. -/
theorem closed_of_instantiate? {q : Quantifier} {ts : List Term} {f g : Formula}
    (hts : ∀ t ∈ ts, t.vars = []) (hf : f.Closed) (h : f.instantiate? q ts = some g) : g.Closed := by
  obtain ⟨vars, body, σ, hstrip, rfl, hclosed, -, hnone⟩ := instantiate?_eq_some hts h
  refine List.eq_nil_iff_forall_not_mem.2 fun x hx => ?_
  obtain ⟨hfree, hxσ⟩ := mem_freeVars_subst hclosed hx
  have hmem := mem_freeVars_of_stripN hstrip hfree (hnone x hxσ)
  rw [show f.freeVars = [] from hf] at hmem
  exact List.not_mem_nil hmem

/-- The constants of an instance come from the formula and from the terms. -/
theorem mem_constants_of_instantiate? {q : Quantifier} {ts : List Term} {f g : Formula}
    (h : f.instantiate? q ts = some g) {c : String} (hc : c ∈ g.constants) :
    c ∈ f.constants ∨ ∃ t ∈ ts, c ∈ t.constants := by
  obtain ⟨⟨vars, body⟩, hstrip, rfl⟩ := Option.map_eq_some_iff.1 h
  rcases mem_constants_subst hc with hc | ⟨x, t, hx, hc⟩
  · exact Or.inl ((mem_constants_of_stripN hstrip).1 hc)
  · have hentry := (Substitution.ofList_spec _ x).1 t hx
    exact Or.inr ⟨t, (List.of_mem_zip hentry).2, hc⟩

end Formula

end NaturalDeduction
