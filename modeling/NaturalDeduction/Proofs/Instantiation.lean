import NaturalDeduction.Proofs.Substitution

/-!
# Instances step by step

Dropping some quantifiers from the front of a formula and then some more comes to the same as dropping
all of them at once (`Formula.instantiate?_append`).  One substitution after another is a single one in
which the first counts (`Formula.subst_subst`), provided its terms are closed.  The first terms do not
reach the variables that the remaining quantifiers bind, and of two listed terms for one name the later
counts; so both ways the innermost of the dropped quantifiers has its say.
-/

set_option autoImplicit false

namespace NaturalDeduction

variable {σ τ : Substitution}

namespace Substitution

/-- The terms of one substitution, and those of another for the variables that have none. -/
def orElse (σ τ : Substitution) : Substitution := fun x => (σ x).or (τ x)

/-- Takes several variables out of the substitution. -/
def hideAll (σ : Substitution) (vars : List String) : Substitution :=
  fun x => if x ∈ vars then .none else σ x

/-- A variable is taken out of both substitutions. -/
theorem hide_orElse (σ τ : Substitution) (var : String) :
    (σ.orElse τ).hide var = (σ.hide var).orElse (τ.hide var) := by
  funext x
  by_cases hx : x = var <;> simp [orElse, hide, hx]

/-- Taking out no variables changes nothing. -/
theorem hideAll_nil (σ : Substitution) : σ.hideAll [] = σ := by
  funext x
  simp [hideAll]

/-- Variables can be taken out one after the other. -/
theorem hideAll_hide (σ : Substitution) (var : String) (vars : List String) :
    (σ.hide var).hideAll vars = σ.hideAll (var :: vars) := by
  funext x
  by_cases hmem : x ∈ vars <;> by_cases hx : x = var <;> simp [hideAll, hide, hmem, hx]

/-- Taking variables out keeps the terms closed. -/
theorem Closed.hideAll (h : σ.Closed) (vars : List String) : (σ.hideAll vars).Closed := by
  intro x t hx
  unfold Substitution.hideAll at hx
  split at hx
  · simp at hx
  · exact h hx

/-- Of the terms listed for a variable the last one counts. -/
theorem ofList_append (xs ys : List (String × Term)) :
    ofList (xs ++ ys) = (ofList ys).orElse (ofList xs) := by
  have hfold : ∀ (ys : List (String × Term)) (σ : Substitution),
      ys.foldl (fun σ entry => σ.set entry.1 entry.2) σ = (ofList ys).orElse σ := by
    intro ys
    induction ys with
    | nil => intro σ; rfl
    | cons entry ys ih =>
      intro σ
      rw [ofList, List.foldl_cons, List.foldl_cons, ih, ih]
      funext x
      by_cases hx : x = entry.1 <;> simp [set, orElse, none, hx]
  rw [ofList, List.foldl_append]
  exact hfold ys _

/-- Terms for the listed variables go before those of another substitution as if these were hidden. -/
theorem hideAll_orElse {vars : List String} (hσ : ∀ x t, σ x = some t → x ∈ vars)
    (hall : ∀ x, σ x = .none → x ∉ vars) : (τ.hideAll vars).orElse σ = σ.orElse τ := by
  funext x
  cases hx : σ x with
  | none => simp [orElse, hideAll, hx, hall x hx]
  | some t => simp [orElse, hideAll, hx, hσ x t hx]

end Substitution

namespace Term

/-- A term without variables stays as it is. -/
theorem subst_of_vars_eq_nil (τ : Substitution) {t : Term} (ht : t.vars = []) : t.subst τ = t := by
  induction t with
  | const name => rfl
  | var name => simp at ht
  | app name args ih =>
    rw [vars_app, List.flatMap_eq_nil_iff] at ht
    rw [subst, substList_eq, List.map_congr_left fun t hmem => ih t hmem (ht t hmem), List.map_id']

/-- Substituting closed terms first and others later is substituting both at once, with the closed
terms first. -/
theorem subst_subst (hσ : σ.Closed) (τ : Substitution) (t : Term) :
    (t.subst σ).subst τ = t.subst (σ.orElse τ) := by
  induction t with
  | const name => rfl
  | var name =>
    rw [subst, subst, Substitution.orElse]
    cases hname : σ name with
    | none => rfl
    | some s => exact subst_of_vars_eq_nil τ (hσ hname)
  | app name args ih =>
    rw [subst, subst, subst, substList_eq, substList_eq, substList_eq, List.map_map]
    exact congrArg (app name) (List.map_congr_left ih)

end Term

namespace Formula

/-- One substitution after another is a single one. -/
theorem subst_subst (hσ : σ.Closed) (τ : Substitution) (f : Formula) :
    (f.subst σ).subst τ = f.subst (σ.orElse τ) := by
  induction f generalizing σ τ with
  | prop | top | bottom => rfl
  | rel name args =>
    rw [subst, subst, subst, Term.substList_eq, Term.substList_eq, Term.substList_eq, List.map_map]
    exact congrArg (rel name) (List.map_congr_left fun t _ => Term.subst_subst hσ τ t)
  | eq left right => simp only [subst, Term.subst_subst hσ]
  | neg body ih => rw [subst, subst, subst, ih hσ]
  | binary op left right ihl ihr => rw [subst, subst, subst, ihl hσ, ihr hσ]
  | quant q var body ih =>
    rw [subst, subst, subst, ih (hσ.hide var), Substitution.hide_orElse]

/-- Quantifiers can be dropped one part after the other. -/
theorem stripN_add (q : Quantifier) (m n : Nat) (f : Formula) :
    f.stripN q (m + n) = (f.stripN q m).bind fun (vars, body) =>
      (body.stripN q n).map fun (more, inner) => (vars ++ more, inner) := by
  induction m generalizing f with
  | zero => simp [stripN]
  | succ m ih =>
    rw [Nat.succ_add, stripN, stripN]
    cases f.binder? q with
    | none => rfl
    | some binder =>
      obtain ⟨var, body⟩ := binder
      simp only [ih, Option.map_bind, Option.bind_map]
      refine Option.bind_congr fun inner _ => ?_
      simp [Function.comp_def]

/-- A substitution leaves the quantifiers in front, and behind them it does not reach what they
bind. -/
theorem stripN_subst (q : Quantifier) (n : Nat) (σ : Substitution) (f : Formula) :
    (f.subst σ).stripN q n = (f.stripN q n).map fun (vars, body) =>
      (vars, body.subst (σ.hideAll vars)) := by
  induction n generalizing f σ with
  | zero => simp [stripN, Substitution.hideAll_nil]
  | succ n ih =>
    rw [stripN, stripN]
    cases f with
    | quant q' var body =>
      by_cases hq : q' = q
      · simp [subst, binder?, hq, ih, Function.comp_def, Substitution.hideAll_hide]
      · simp [subst, binder?, hq]
    | _ => rfl

/-- Closed terms put in one after the other, where the second ones are for variables bound further
inside. -/
theorem subst_ofList_zip {vars more : List String} {ts us : List Term}
    (hvars : vars.length = ts.length) (hmore : more.length = us.length)
    (hts : ∀ t ∈ ts, t.vars = []) (f : Formula) :
    (f.subst ((Substitution.ofList (vars.zip ts)).hideAll more)).subst
        (Substitution.ofList (more.zip us)) =
      f.subst (Substitution.ofList ((vars ++ more).zip (ts ++ us))) := by
  have hclosed : (Substitution.ofList (vars.zip ts)).Closed := fun hx =>
    hts _ ((Substitution.ofList_zip hvars _).1 _ hx).2
  have hzip := Substitution.ofList_zip hmore
  rw [subst_subst (hclosed.hideAll more), List.zip_append hvars, Substitution.ofList_append,
    Substitution.hideAll_orElse (fun x t hx => ((hzip x).1 t hx).1) fun x => (hzip x).2]

/-- Instantiating the quantifiers in front of a formula with some closed terms, and what comes out with
some more, is the same as instantiating them with all these terms at once.  There is an instance if and
only if the formula has a quantifier in front for each of the terms, and instances of closed formulas
are closed. -/
theorem instantiate?_append (q : Quantifier) {ts us : List Term} (hts : ∀ t ∈ ts, t.vars = [])
    (hus : ∀ t ∈ us, t.vars = []) (f : Formula) :
    f.instantiate? q (ts ++ us) = (f.instantiate? q ts).bind (instantiate? q us) ∧
      ((f.instantiate? q (ts ++ us)).isSome ↔ ts.length + us.length ≤ (f.strip q).1.length) ∧
      (f.Closed → (∀ g ∈ f.instantiate? q ts, g.Closed) ∧
        ∀ g ∈ f.instantiate? q (ts ++ us), g.Closed) := by
  have happend : ∀ t ∈ ts ++ us, t.vars = [] := fun t ht =>
    (List.mem_append.1 ht).elim (hts t) (hus t)
  refine ⟨?_, by rw [instantiate?_isSome_iff, List.length_append], fun hf =>
    ⟨fun g hg => closed_of_instantiate? hts hf hg, fun g hg => closed_of_instantiate? happend hf hg⟩⟩
  rw [instantiate?, List.length_append, stripN_add, instantiate?, Option.map_bind, Option.bind_map]
  refine Option.bind_congr fun stripped hstrip => ?_
  obtain ⟨vars, body⟩ := stripped
  simp only [Function.comp_def, instantiate?, stripN_subst, Option.map_map]
  refine Option.map_congr fun inner hinner => ?_
  obtain ⟨more, rest⟩ := inner
  exact (subst_ofList_zip (length_of_stripN hstrip) (length_of_stripN hinner) hts rest).symm

/-- The first and the third quantifier in front bind one name, the second binds a name that is bound
again further inside. -/
theorem instantiate?_append_rebound :
    ∃ (f g : Formula) (ts us : List Term),
      f = .quant .all "x" (.quant .all "y" (.quant .all "x"
        (.binary .and (.rel "R" [.var "x", .var "y"])
          (.quant .ex "y" (.rel "R" [.var "y", .var "x"]))))) ∧
      ts = [.const "a", .app "f" [.const "b"]] ∧ us = [.const "c"] ∧
      (∀ t ∈ ts, t.vars = []) ∧ (∀ t ∈ us, t.vars = []) ∧ f.Closed ∧
      (f.instantiate? .all ts).bind (instantiate? .all us) = some g ∧
      f.instantiate? .all (ts ++ us) = some g ∧ g.Closed ∧
      g = .binary .and (.rel "R" [.const "c", .app "f" [.const "b"]])
        (.quant .ex "y" (.rel "R" [.var "y", .const "c"])) := by
  have hts : ∀ t ∈ [Term.const "a", .app "f" [.const "b"]], t.vars = [] := by decide
  have hus : ∀ t ∈ [Term.const "c"], t.vars = [] := by decide
  obtain ⟨hbind, -, hclosed⟩ := instantiate?_append .all hts hus (.quant .all "x" (.quant .all "y"
    (.quant .all "x" (.binary .and (.rel "R" [.var "x", .var "y"])
      (.quant .ex "y" (.rel "R" [.var "y", .var "x"]))))))
  exact ⟨_, _, _, _, rfl, rfl, rfl, hts, hus, by decide, hbind.symm.trans rfl, rfl,
    (hclosed (by decide)).2 _ rfl, by decide⟩

end Formula

end NaturalDeduction
