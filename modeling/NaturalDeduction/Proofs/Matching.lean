import NaturalDeduction.Matching
import NaturalDeduction.Proofs.Operand
import NaturalDeduction.Proofs.Reassociation
import NaturalDeduction.Proofs.Substitution

/-!
# Matching finds the instances

A closed formula is an instance of a quantified one, as matching tells, exactly if closed terms in
place of some of the variables in front make it so, up to re-association.

Both directions follow the match.  When a match succeeds, every substitution that gives the holes
their fillings turns the pattern into the formula (`Formula.fit_fitted`); the fillings are closed, since
the formula has no variables but those of the quantifiers entered on the way and a filling mentions
none of these.  When a closed substitution turns the pattern into the formula, the match succeeds and
takes its fillings from the substitution (`Formula.fit_of_subst`).
-/

set_option autoImplicit false

namespace NaturalDeduction

/-! ### Re-association by operands -/

namespace Formula

variable {op : Connective} {f g : Formula}

/-- A formula has at least one operand. -/
theorem flatten_ne_nil (op : Connective) (f : Formula) : f.flatten op ≠ [] := by
  induction f with
  | binary op' left right ihl _ =>
    rw [flatten]
    split
    · simp [ihl]
    · simp
  | _ => simp [flatten]

/-- Bracketing to the left leaves the connective at the top. -/
theorem leftAssoc_binary (op : Connective) (left right : Formula) :
    ∃ left' right', (binary op left right).leftAssoc = .binary op left' right' := by
  rw [leftAssoc]
  split
  · obtain hnil | ⟨fs, last, hlast⟩ := List.eq_nil_or_concat (right.leftAssoc.flatten op)
    · exact absurd hnil (flatten_ne_nil op _)
    · exact ⟨_, last, by rw [hlast, List.concat_eq_append, List.foldl_append]; rfl⟩
  · exact ⟨_, _, rfl⟩

/-- Two trees of an associative connective have the same left bracketing if their operands do. -/
theorem leftAssoc_binary_inj (hop : op.isAssociative = true) {a b c d : Formula} :
    (binary op a b).leftAssoc = (binary op c d).leftAssoc ↔
      ((binary op a b).flatten op).map leftAssoc = ((binary op c d).flatten op).map leftAssoc := by
  constructor
  · intro h
    rw [← flatten_leftAssoc hop, ← flatten_leftAssoc hop, h]
  · intro h
    have hchain := leftAssoc_eq_chain hop a b
    rw [h, leftAssoc_eq_chain hop c d] at hchain
    exact (Option.some.inj hchain).symm

/-- What is bracketed like a formula has the same connective or quantifier at the top. -/
theorem precedence_of_leftAssoc_eq (h : f.leftAssoc = g.leftAssoc) : f.precedence = g.precedence :=
  (reassoc_iff.2 h).precedence_eq

/-- An atomic formula has no other bracketing. -/
theorem eq_of_leftAssoc_eq (h : f.leftAssoc = g.leftAssoc) (hg : g.precedence = 0) : f = g := by
  have hf : f.precedence = 0 := (precedence_of_leftAssoc_eq h).trans hg
  have hatom : ∀ {f : Formula}, f.precedence = 0 → f.leftAssoc = f := by
    intro f hf
    cases f with
    | binary op _ _ => cases op <;> simp [precedence, Connective.precedence] at hf
    | neg | quant => simp [precedence, prefixPrecedence] at hf
    | _ => rfl
  rw [← hatom hf, h, hatom hg]

/-- Another bracketing of a negation is the negation of another bracketing. -/
theorem neg_of_leftAssoc_eq {body : Formula} (h : f.leftAssoc = (neg body).leftAssoc) :
    ∃ body', f = .neg body' ∧ body'.leftAssoc = body.leftAssoc := by
  cases f with
  | neg body' => exact ⟨body', rfl, by simpa [leftAssoc] using h⟩
  | binary op left right =>
    obtain ⟨_, _, hbinary⟩ := leftAssoc_binary op left right
    rw [hbinary, leftAssoc] at h
    simp at h
  | _ => simp [leftAssoc] at h

/-- Another bracketing of a quantified formula quantifies another bracketing. -/
theorem quant_of_leftAssoc_eq {q : Quantifier} {var : String} {body : Formula}
    (h : f.leftAssoc = (quant q var body).leftAssoc) :
    ∃ body', f = .quant q var body' ∧ body'.leftAssoc = body.leftAssoc := by
  cases f with
  | quant q' var' body' =>
    obtain ⟨rfl, rfl, hbody⟩ : q' = q ∧ var' = var ∧ body'.leftAssoc = body.leftAssoc := by
      simpa [leftAssoc] using h
    exact ⟨body', rfl, hbody⟩
  | binary op left right =>
    obtain ⟨_, _, hbinary⟩ := leftAssoc_binary op left right
    rw [hbinary, leftAssoc] at h
    simp at h
  | _ => simp [leftAssoc] at h

/-- Another bracketing of a formula is built with the same connective. -/
theorem binary_of_leftAssoc_eq {left right : Formula}
    (h : f.leftAssoc = (binary op left right).leftAssoc) :
    ∃ left' right', f = .binary op left' right' := by
  obtain ⟨_, _, hbinary⟩ := leftAssoc_binary op left right
  rw [hbinary] at h
  cases f with
  | binary op' left' right' =>
    obtain ⟨_, _, hbinary'⟩ := leftAssoc_binary op' left' right'
    rw [hbinary'] at h
    exact ⟨left', right', by rw [(Formula.binary.inj h).1]⟩
  | _ => simp [leftAssoc] at h

/-- Substitution acts on each operand. -/
theorem flatten_subst (τ : Substitution) (op : Connective) (f : Formula) :
    (f.subst τ).flatten op = (f.flatten op).map (subst τ) := by
  induction f with
  | binary op' left right ihl ihr =>
    rw [subst, flatten, flatten]
    split
    · rw [ihl, ihr, List.map_append]
    · rfl
  | _ => rfl

/-- The parts of a formula have no other free variables. -/
theorem freeVars_partOf (h : PartOf op g f) : ∀ x ∈ g.freeVars, x ∈ f.freeVars := by
  induction h with
  | self => exact fun x hx => hx
  | left _ ih => exact fun x hx => List.mem_append_left _ (ih x hx)
  | right _ ih => exact fun x hx => List.mem_append_right _ (ih x hx)

end Formula

/-- A term mentions names if one of them is a variable of it. -/
theorem Term.mentions_eq_true_iff {names : List String} {t : Term} :
    t.mentions names = true ↔ ∃ x ∈ t.vars, x ∈ names := by
  induction t with
  | const name => simp [mentions]
  | var name => simp [mentions]
  | app name args ih =>
    rw [mentions, mentionsList_eq, List.any_eq_true, vars_app]
    simp only [List.mem_flatMap]
    constructor
    · rintro ⟨t, ht, hmentions⟩
      obtain ⟨x, hx, hname⟩ := (ih t ht).1 hmentions
      exact ⟨x, ⟨t, ht, hx⟩, hname⟩
    · rintro ⟨x, ⟨t, ht, hx⟩, hname⟩
      exact ⟨t, ht, (ih t ht).2 ⟨x, hx, hname⟩⟩

/-! ### What a match establishes -/

namespace Fillings

/-- All fillings are closed terms. -/
def Closed (σ : Fillings) : Prop :=
  ∀ {x t}, σ.get? x = some t → t.vars = []

/-- The second fillings keep those of the first. -/
def Extends (σ σ' : Fillings) : Prop :=
  ∀ x t, σ.get? x = some t → σ'.get? x = some t

/-- Fillings keep themselves. -/
theorem Extends.refl (σ : Fillings) : σ.Extends σ := fun _ _ h => h

/-- Fillings that are kept twice are kept. -/
theorem Extends.trans {σ σ' σ'' : Fillings} (h : σ.Extends σ') (h' : σ'.Extends σ'') :
    σ.Extends σ'' := fun x t hx => h' x t (h x t hx)

/-- A substitution gives the holes their fillings and leaves the captured variables alone. -/
structure Serves (σ : Fillings) (scope : PatternScope) (τ : Substitution) : Prop where
  filled : ∀ x ∈ scope.holes, ∀ t, σ.get? x = some t → τ x = some t
  captured : ∀ x ∈ scope.captured, τ x = none

/-- A substitution that serves more fillings serves fewer. -/
theorem Serves.mono {σ σ' : Fillings} {scope : PatternScope} {τ : Substitution}
    (h : σ'.Serves scope τ) (hσ : σ.Extends σ') : σ.Serves scope τ :=
  ⟨fun x hx t ht => h.filled x hx t (hσ x t ht), h.captured⟩

/-- Inside a quantifier, the substitution without its variable serves the fillings. -/
theorem Serves.enter {σ : Fillings} {scope : PatternScope} {τ : Substitution}
    (h : σ.Serves scope τ) (var : String) : σ.Serves (scope.enter var) (τ.hide var) where
  filled := by
    intro x hx t ht
    obtain ⟨hhole, hne⟩ := List.mem_filter.1 hx
    rw [Substitution.hide, if_neg (by simpa using hne)]
    exact h.filled x hhole t ht
  captured := by
    intro x hx
    rw [Substitution.hide]
    split
    · rfl
    · rename_i hne
      exact h.captured x ((List.mem_cons.1 hx).resolve_left hne)

end Fillings

/-- What a match that succeeds establishes: fillings are only added, they stay closed, and every
substitution that serves them makes `same` of the pattern and what was matched. -/
structure Fitted (scope : PatternScope) (σ σ' : Fillings) (same : Substitution → Prop) : Prop where
  grows : σ.Extends σ'
  closed : σ.Closed → σ'.Closed
  serves : ∀ τ, σ'.Serves scope τ → same τ

namespace Fitted

variable {scope : PatternScope} {σ σ' σ'' : Fillings} {p q : Substitution → Prop}

/-- A match that adds no fillings establishes all that the fillings ensure. -/
theorem keep (h : ∀ τ, σ.Serves scope τ → p τ) : Fitted scope σ σ p :=
  ⟨.refl σ, fun h => h, h⟩

/-- Two matches one after the other. -/
theorem both (hp : Fitted scope σ σ' p) (hq : Fitted scope σ' σ'' q) :
    Fitted scope σ σ'' fun τ => p τ ∧ q τ where
  grows := hp.grows.trans hq.grows
  closed hσ := hq.closed (hp.closed hσ)
  serves τ h := ⟨hp.serves τ (h.mono hq.grows), hq.serves τ h⟩

/-- A match establishes all that follows from what it establishes. -/
theorem imp (h : Fitted scope σ σ' p) (himp : ∀ τ, p τ → q τ) : Fitted scope σ σ' q :=
  ⟨h.grows, h.closed, fun τ hτ => himp τ (h.serves τ hτ)⟩

/-- A hole gets a closed filling. -/
theorem fill {name : String} {t : Term} (hhole : name ∈ scope.holes) (hnone : σ.get? name = none)
    (ht : t.vars = []) : Fitted scope σ (σ.insert name t) fun τ => τ name = some t := by
  have hget : ∀ x, (σ.insert name t).get? x = if name = x then some t else σ.get? x :=
    fun x => NameMap.get?_insert σ name x t
  refine ⟨fun x s hx => ?_, fun hσ {x s} hx => ?_, fun τ hτ => ?_⟩
  · have hne : name ≠ x := by
      rintro rfl
      simp [hnone] at hx
    rw [hget, if_neg hne]
    exact hx
  · rw [hget] at hx
    split at hx
    · exact Option.some.inj hx ▸ ht
    · exact hσ hx
  · exact hτ.filled name hhole t (by rw [hget, if_pos rfl])

end Fitted

/-! ### Fillings make the pattern the formula -/

namespace Term

/-- A term whose variables are all captured is left alone. -/
theorem subst_of_captured {σ : Fillings} {scope : PatternScope} {τ : Substitution}
    (h : σ.Serves scope τ) {t : Term} (ht : ∀ x ∈ t.vars, x ∈ scope.captured) : t.subst τ = t := by
  induction t with
  | const name => rfl
  | var name => rw [subst, h.captured name (ht name (by simp)), Option.getD_none]
  | app name args ih =>
    have hargs : ∀ t ∈ args, t.subst τ = t := fun t hmem =>
      ih t hmem fun x hx => ht x (by rw [vars_app]; exact List.mem_flatMap.2 ⟨t, hmem, hx⟩)
    rw [subst, substList_eq, List.map_congr_left hargs, List.map_id']

/-- Matching lists of terms, given what matching their members establishes. -/
theorem fitList_fitted {scope : PatternScope} {ts patterns : List Term} {σ σ' : Fillings}
    (hfit : ∀ pattern ∈ patterns, ∀ t ∈ ts, ∀ {σ σ' : Fillings},
      t.fit scope σ pattern = (true, σ') → Fitted scope σ σ' fun τ => pattern.subst τ = t)
    (h : fitList scope σ ts patterns = (true, σ')) (hlength : ts.length = patterns.length) :
    Fitted scope σ σ' fun τ => patterns.map (subst τ) = ts := by
  induction ts generalizing patterns σ with
  | nil =>
    obtain rfl : patterns = [] := List.length_eq_zero_iff.1 hlength.symm
    obtain rfl : σ = σ' := by simpa [fitList] using h
    exact .keep fun _ _ => rfl
  | cons t ts ih =>
    cases patterns with
    | nil => simp at hlength
    | cons pattern patterns =>
      rw [fitList] at h
      split at h
      · rename_i mid hmid
        have hfirst := hfit pattern List.mem_cons_self t List.mem_cons_self hmid
        have hrest := ih (fun p hp s hs => hfit p (List.mem_cons_of_mem _ hp) s
          (List.mem_cons_of_mem _ hs)) h (by simpa using hlength)
        exact (hfirst.both hrest).imp fun τ ⟨hf, hr⟩ => by rw [List.map_cons, hf, hr]
      · simp at h

/-- A term that fits a pattern, and whose variables are all captured, is the pattern with the holes
filled. -/
theorem fit_fitted {scope : PatternScope} {pattern : Term} :
    ∀ {t : Term} {σ σ' : Fillings}, (∀ x ∈ t.vars, x ∈ scope.captured) →
      t.fit scope σ pattern = (true, σ') → Fitted scope σ σ' fun τ => pattern.subst τ = t := by
  induction pattern with
  | const name =>
    intro t σ σ' _ h
    obtain ⟨rfl, rfl⟩ : t = .const name ∧ σ = σ' := by simpa [fit] using h
    exact .keep fun _ _ => rfl
  | var name =>
    intro t σ σ' ht h
    rw [fit] at h
    split at h
    · rename_i hvar
      obtain rfl : σ = σ' := by simpa using h
      -- the name stands for itself, so it is captured and the substitution leaves it alone
      subst hvar
      exact .keep fun τ hτ => subst_of_captured hτ ht
    · split at h
      · rename_i hhole
        have hmem : name ∈ scope.holes := by simpa using hhole
        split at h
        · rename_i found hfound
          obtain ⟨rfl, rfl⟩ : found = t ∧ σ = σ' := by simpa using h
          exact .keep fun τ hτ => by rw [subst, hτ.filled name hmem found hfound, Option.getD_some]
        · rename_i hnone
          split at h
          · simp at h
          · rename_i hmentions
            obtain rfl : σ.insert name t = σ' := by simpa using h
            -- all variables of the term are captured, and it mentions no captured name
            have hclosed : t.vars = [] := by
              refine List.eq_nil_iff_forall_not_mem.2 fun x hx => hmentions ?_
              exact mentions_eq_true_iff.2 ⟨x, hx, ht x hx⟩
            exact (Fitted.fill hmem hnone hclosed).imp fun τ hτ => by
              rw [subst, hτ, Option.getD_some]
      · simp at h
  | app name args ih =>
    intro t σ σ' ht h
    by_cases heq : t = .app name args
    · obtain rfl : σ = σ' := by simpa [heq, fit] using h
      subst heq
      exact .keep fun τ hτ => subst_of_captured hτ ht
    · cases t with
      | const _ => simp [fit] at h
      | var _ => simp [fit] at h
      | app name' args' =>
        rw [fit, if_neg heq] at h
        split at h
        · rename_i hsame
          obtain ⟨rfl, hlength⟩ : name' = name ∧ args'.length = args.length := by simpa using hsame
          have hargs := fitList_fitted (fun p hp s hs _ _ hfit => ih p hp (fun x hx =>
            ht x (by rw [vars_app]; exact List.mem_flatMap.2 ⟨s, hs, hx⟩)) hfit) h hlength
          exact hargs.imp fun τ heq => by rw [subst, substList_eq, heq]
        · simp at h

/-- Lists of terms that fit lists of patterns are the patterns with the holes filled. -/
theorem fitList_fitted_of_captured {scope : PatternScope} {ts patterns : List Term}
    {σ σ' : Fillings} (hts : ∀ t ∈ ts, ∀ x ∈ t.vars, x ∈ scope.captured)
    (h : fitList scope σ ts patterns = (true, σ')) (hlength : ts.length = patterns.length) :
    Fitted scope σ σ' fun τ => patterns.map (subst τ) = ts :=
  fitList_fitted (fun _ _ t ht _ _ hfit => fit_fitted (hts t ht) hfit) h hlength

end Term

namespace Formula

mutual

/-- A formula that fits a pattern, and whose free variables are all captured, is the pattern with the
holes filled, up to re-association. -/
theorem fit_fitted {scope : PatternScope} {σ σ' : Fillings} {f pattern : Formula}
    (hf : ∀ x ∈ f.freeVars, x ∈ scope.captured) (h : fit scope σ f pattern = (true, σ')) :
    Fitted scope σ σ' fun τ => (pattern.subst τ).leftAssoc = f.leftAssoc := by
  rw [fit.eq_def] at h
  split at h
  · rename_i name name'
    obtain ⟨rfl, rfl⟩ : name = name' ∧ σ = σ' := by simpa using h
    exact .keep fun _ _ => rfl
  · obtain rfl : σ = σ' := by simpa using h
    exact .keep fun _ _ => rfl
  · obtain rfl : σ = σ' := by simpa using h
    exact .keep fun _ _ => rfl
  · rename_i name args name' args'
    split at h
    · rename_i hsame
      obtain ⟨rfl, hlength⟩ : name = name' ∧ args.length = args'.length := by simpa using hsame
      have hargs := Term.fitList_fitted_of_captured (fun t ht x hx =>
        hf x (List.mem_flatMap.2 ⟨t, ht, hx⟩)) h hlength
      exact hargs.imp fun τ heq => by rw [subst, Term.substList_eq, heq]
    · simp at h
  · rename_i left right left' right'
    have hsides := Term.fitList_fitted_of_captured (fun t ht x hx => hf x (by
      rcases List.mem_pair.1 ht with rfl | rfl
      · exact List.mem_append_left _ hx
      · exact List.mem_append_right _ hx)) h rfl
    refine hsides.imp fun τ heq => ?_
    obtain ⟨hl, hr⟩ : left'.subst τ = left ∧ right'.subst τ = right := by simpa using heq
    rw [subst, hl, hr]
  · rename_i body body'
    exact (fit_fitted (f := body) hf h).imp fun τ heq => by rw [subst, leftAssoc, leftAssoc, heq]
  · rename_i op left right op' left' right'
    split at h
    · rename_i hop
      subst hop
      dsimp only at h
      split at h
      · rename_i hassoc
        split at h
        · rename_i hlength
          -- only the operands are compared, so brackets may differ
          have hparts := fitList_fitted (fun g hg x hx =>
            hf x (freeVars_partOf (partOf_flatten hg) x hx)) h hlength
          refine hparts.imp fun τ heq => ?_
          rw [subst, leftAssoc_binary_inj hassoc, ← heq, ← List.map_map, ← flatten_subst, subst]
        · simp at h
      · rename_i hassoc
        have hsides := fitList_fitted (fun g hg x hx => hf x (by
          rcases List.mem_pair.1 hg with rfl | rfl
          · exact List.mem_append_left _ hx
          · exact List.mem_append_right _ hx)) h rfl
        refine hsides.imp fun τ heq => ?_
        obtain ⟨hl, hr⟩ : (left'.subst τ).leftAssoc = left.leftAssoc ∧
            (right'.subst τ).leftAssoc = right.leftAssoc := by simpa using heq
        rw [subst, leftAssoc, leftAssoc, if_neg hassoc, if_neg hassoc, hl, hr]
    · simp at h
  · rename_i q var body q' var' body'
    split at h
    · rename_i hsame
      obtain ⟨rfl, rfl⟩ : q = q' ∧ var = var' := by simpa using hsame
      have hbody : Fitted (scope.enter var) σ σ'
          fun τ => (body'.subst τ).leftAssoc = body.leftAssoc := by
        refine fit_fitted (fun x hx => ?_) h
        by_cases hxv : x = var
        · exact hxv ▸ List.mem_cons_self
        · exact List.mem_cons_of_mem _ (hf x (List.mem_filter.2 ⟨hx, by simpa using hxv⟩))
      -- what serves outside the quantifier serves inside without its variable
      refine ⟨hbody.grows, hbody.closed, fun τ hτ => ?_⟩
      rw [subst, leftAssoc, leftAssoc, hbody.serves _ (hτ.enter var)]
    · simp at h
  · simp at h
termination_by 3 * f.size
decreasing_by
  all_goals subst_vars
  · simp [size]
  · simp [weight, totalSize, size]; omega
  · exact weight_flatten_lt _ _ _
  · simp [size]

/-- Formulas that fit patterns one by one are the patterns with the holes filled, up to
re-association. -/
theorem fitList_fitted {scope : PatternScope} {σ σ' : Fillings} {fs patterns : List Formula}
    (hfs : ∀ f ∈ fs, ∀ x ∈ f.freeVars, x ∈ scope.captured)
    (h : fitList scope σ fs patterns = (true, σ')) (hlength : fs.length = patterns.length) :
    Fitted scope σ σ' fun τ => patterns.map (leftAssoc ∘ subst τ) = fs.map leftAssoc := by
  match fs, patterns with
  | [], [] =>
    obtain rfl : σ = σ' := by simpa [fitList] using h
    exact .keep fun _ _ => rfl
  | f :: fs, pattern :: patterns =>
    rw [fitList] at h
    split at h
    · rename_i mid hmid
      have hfirst := fit_fitted (hfs f List.mem_cons_self) hmid
      have hrest := fitList_fitted (fun g hg => hfs g (List.mem_cons_of_mem _ hg)) h
        (by simpa using hlength)
      refine (hfirst.both hrest).imp fun τ ⟨hf, hr⟩ => ?_
      rw [List.map_cons, List.map_cons, hr, Function.comp, hf]
    · simp at h
termination_by weight fs
decreasing_by
  · simp [weight, totalSize]; omega
  · have := size_pos f
    simp [weight, totalSize]; omega

end

end Formula

/-! ### A substitution makes the match succeed -/

namespace Substitution

/-- The substitution on the listed variables only. -/
def on (τ : Substitution) (vars : List String) : Substitution :=
  fun x => if x ∈ vars then τ x else .none

/-- A substitution listed variable by variable. -/
theorem ofList_zip_map (vars : List String) (term : String → Term) (x : String) :
    ofList (vars.zip (vars.map term)) x = if x ∈ vars then some (term x) else .none := by
  obtain ⟨hsome, hnone⟩ := ofList_spec (vars.zip (vars.map term)) x
  rw [List.map_fst_zip (by simp)] at hnone
  cases hx : ofList (vars.zip (vars.map term)) x with
  | none => rw [if_neg (hnone hx)]
  | some t =>
    have hentry := hsome t hx
    rw [← List.map_prod_left_eq_zip] at hentry
    obtain ⟨y, hy, heq⟩ : ∃ y ∈ vars, (y, term y) = (x, t) := by simpa using hentry
    obtain ⟨rfl, rfl⟩ := Prod.mk.inj heq
    rw [if_pos hy]

/-- A quantifier hides its variable by taking it off the list. -/
theorem hide_on (τ : Substitution) (vars : List String) (var : String) :
    (τ.on vars).hide var = τ.on (vars.filter (· ≠ var)) := by
  funext x
  by_cases hx : x = var <;> simp [hide, on, hx]

/-- A substitution has closed terms for all holes of a pattern. -/
structure Covers (τ : Substitution) (scope : PatternScope) : Prop where
  closed : τ.Closed
  holes : ∀ x ∈ scope.holes, ∃ t, τ x = some t

/-- A substitution has closed terms for the fewer holes inside a quantifier. -/
theorem Covers.enter {τ : Substitution} {scope : PatternScope} (h : τ.Covers scope) (var : String) :
    τ.Covers (scope.enter var) :=
  ⟨h.closed, fun x hx => h.holes x (List.mem_filter.1 hx).1⟩

end Substitution

/-- All fillings are taken from a substitution. -/
def Fillings.From (σ : Fillings) (τ : Substitution) : Prop :=
  ∀ x t, σ.get? x = some t → τ x = some t

namespace Term

variable {scope : PatternScope} {τ : Substitution}

/-- Matching lists of terms, given that matching their members succeeds. -/
theorem fitList_of_subst {patterns : List Term}
    (hfit : ∀ pattern ∈ patterns, ∀ {σ : Fillings}, σ.From τ →
      ∃ σ', (pattern.subst (τ.on scope.holes)).fit scope σ pattern = (true, σ') ∧ σ'.From τ)
    {σ : Fillings} (hσ : σ.From τ) :
    ∃ σ', fitList scope σ (patterns.map (subst (τ.on scope.holes))) patterns = (true, σ') ∧
      σ'.From τ := by
  induction patterns generalizing σ with
  | nil => exact ⟨σ, rfl, hσ⟩
  | cons pattern patterns ih =>
    obtain ⟨mid, hfirst, hmid⟩ := hfit pattern List.mem_cons_self hσ
    obtain ⟨σ', hrest, hσ'⟩ := ih (fun p hp => hfit p (List.mem_cons_of_mem _ hp)) hmid
    exact ⟨σ', by rw [List.map_cons, fitList, hfirst]; exact hrest, hσ'⟩

/-- A pattern with its holes filled fits the pattern. -/
theorem fit_of_subst (hτ : τ.Covers scope) {pattern : Term} :
    ∀ {σ : Fillings}, σ.From τ →
      ∃ σ', (pattern.subst (τ.on scope.holes)).fit scope σ pattern = (true, σ') ∧ σ'.From τ := by
  induction pattern with
  | const name =>
    intro σ hσ
    exact ⟨σ, by simp [subst, fit], hσ⟩
  | var name =>
    intro σ hσ
    by_cases hhole : name ∈ scope.holes
    · obtain ⟨t, ht⟩ := hτ.holes name hhole
      have hclosed : t.vars = [] := hτ.closed ht
      have hvar : t ≠ .var name := by
        rintro rfl
        simp at hclosed
      have hmentions : t.mentions scope.captured = false := by
        rw [Bool.eq_false_iff]
        intro hm
        obtain ⟨x, hx, -⟩ := mentions_eq_true_iff.1 hm
        simp [hclosed] at hx
      -- so the match looks the hole up: it is filled in the same way, or free
      rw [subst, Substitution.on, if_pos hhole, ht, Option.getD_some, fit, if_neg hvar,
        if_pos (by simpa using hhole)]
      cases hfound : σ.get? name with
      | some found =>
        have hsame := hσ name found hfound
        rw [ht] at hsame
        exact ⟨σ, by simp [Option.some.inj hsame], hσ⟩
      | none =>
        refine ⟨σ.insert name t, by simp [hmentions], fun x s hx => ?_⟩
        rw [NameMap.get?_insert] at hx
        split at hx
        · rename_i hname
          rw [← hname, ht]
          exact hx
        · exact hσ x s hx
    · exact ⟨σ, by simp [subst, Substitution.on, hhole, fit], hσ⟩
  | app name args ih =>
    intro σ hσ
    rw [subst, substList_eq, fit]
    by_cases hsame : app name (args.map (subst (τ.on scope.holes))) = .app name args
    · exact ⟨σ, by rw [if_pos hsame], hσ⟩
    · obtain ⟨σ', hfit, hσ'⟩ := fitList_of_subst (fun p hp => ih p hp) hσ
      exact ⟨σ', by rw [if_neg hsame]; simpa using hfit, hσ'⟩

end Term

namespace Formula

variable {τ : Substitution}

mutual

/-- A formula that is a pattern with its holes filled, up to re-association, fits the pattern. -/
theorem fit_of_subst {scope : PatternScope} {σ : Fillings} {f pattern : Formula}
    (hτ : τ.Covers scope) (hσ : σ.From τ)
    (h : f.leftAssoc = (pattern.subst (τ.on scope.holes)).leftAssoc) :
    ∃ σ', fit scope σ f pattern = (true, σ') ∧ σ'.From τ := by
  match pattern with
  | .prop name | .top | .bottom =>
    obtain rfl := eq_of_leftAssoc_eq h rfl
    exact ⟨σ, by simp [subst, fit], hσ⟩
  | .rel name args =>
    obtain rfl := eq_of_leftAssoc_eq h rfl
    obtain ⟨σ', hfit, hσ'⟩ := Term.fitList_of_subst
      (fun pattern (_ : pattern ∈ args) _ => Term.fit_of_subst hτ) hσ
    exact ⟨σ', by simpa [subst, fit, Term.substList_eq] using hfit, hσ'⟩
  | .eq left right =>
    obtain rfl := eq_of_leftAssoc_eq h rfl
    obtain ⟨σ', hfit, hσ'⟩ := Term.fitList_of_subst
      (fun pattern (_ : pattern ∈ [left, right]) _ => Term.fit_of_subst hτ) hσ
    exact ⟨σ', by simpa [subst, fit] using hfit, hσ'⟩
  | .neg body =>
    obtain ⟨body', rfl, hbody⟩ := neg_of_leftAssoc_eq h
    obtain ⟨σ', hfit, hσ'⟩ := fit_of_subst hτ hσ hbody
    exact ⟨σ', by rw [fit]; exact hfit, hσ'⟩
  | .binary op left right =>
    obtain ⟨left', right', rfl⟩ := binary_of_leftAssoc_eq h
    by_cases hop : op.isAssociative = true
    · -- the operands agree one by one
      have hparts : ((binary op left' right').flatten op).map leftAssoc =
          (((binary op left right).flatten op).map (subst (τ.on scope.holes))).map leftAssoc := by
        rw [← flatten_subst]
        exact (leftAssoc_binary_inj hop).1 h
      have hlength : ((binary op left' right').flatten op).length =
          ((binary op left right).flatten op).length := by
        simpa using congrArg List.length hparts
      obtain ⟨σ', hfit, hσ'⟩ := fitList_of_subst hτ hσ hparts
      exact ⟨σ', by rw [fit, if_pos rfl, if_pos hop]; simpa [hlength] using hfit, hσ'⟩
    · have hsides : [left', right'].map leftAssoc =
          ([left, right].map (subst (τ.on scope.holes))).map leftAssoc := by
        simpa [subst, leftAssoc, hop] using h
      obtain ⟨σ', hfit, hσ'⟩ := fitList_of_subst hτ hσ hsides
      exact ⟨σ', by rw [fit, if_pos rfl, if_neg hop]; exact hfit, hσ'⟩
  | .quant q var body =>
    obtain ⟨body', rfl, hbody⟩ := quant_of_leftAssoc_eq h
    rw [Substitution.hide_on] at hbody
    obtain ⟨σ', hfit, hσ'⟩ := fit_of_subst (hτ.enter var) hσ hbody
    exact ⟨σ', by rw [fit]; simpa using hfit, hσ'⟩
termination_by 3 * pattern.size
decreasing_by
  · simp [size]
  · exact weight_flatten_lt _ _ _
  · simp [weight, totalSize, size]; omega
  · simp [size]

/-- Formulas that are patterns with their holes filled, up to re-association, fit the patterns. -/
theorem fitList_of_subst {scope : PatternScope} {σ : Fillings} {fs patterns : List Formula}
    (hτ : τ.Covers scope) (hσ : σ.From τ)
    (h : fs.map leftAssoc = (patterns.map (subst (τ.on scope.holes))).map leftAssoc) :
    ∃ σ', fitList scope σ fs patterns = (true, σ') ∧ σ'.From τ := by
  match fs, patterns with
  | [], [] => exact ⟨σ, by simp [fitList], hσ⟩
  | f :: fs, pattern :: patterns =>
    obtain ⟨hf, hfs⟩ := List.cons.inj h
    obtain ⟨mid, hfirst, hmid⟩ := fit_of_subst hτ hσ hf
    obtain ⟨σ', hrest, hσ'⟩ := fitList_of_subst hτ hmid hfs
    exact ⟨σ', by rw [fitList, hfirst]; exact hrest, hσ'⟩
termination_by weight patterns
decreasing_by
  · simp [weight, totalSize]; omega
  · have := size_pos pattern
    simp [weight, totalSize]; omega

end

/-! ### Instances found by matching -/

/-- Quantifiers that stand in front of a formula can be taken off, so what is behind them is always
compared. -/
theorem isInstanceAt_eq_fit {q : Quantifier} {general : Formula} {n : Nat}
    (h : n ≤ (general.strip q).1.length) (f : Formula) :
    ∃ vars body, general.stripN q n = some (vars, body) ∧
      isInstanceAt q general n f = (f.fit { holes := vars } ∅ body).1 := by
  obtain ⟨⟨vars, body⟩, hstrip⟩ := Option.isSome_iff_exists.1 (stripN_isSome_iff.2 h)
  exact ⟨vars, body, hstrip, by rw [isInstanceAt, hstrip]⟩

/-- An instance found by matching is one with closed terms: with the fillings, and with any closed
term for a variable that has none. -/
theorem exists_instantiate?_of_isInstance {q : Quantifier} {general f : Formula} (hf : f.Closed)
    (h : general.isInstance q f = true) :
    ∃ terms g, terms ≠ [] ∧ (∀ t ∈ terms, t.vars = []) ∧ general.instantiate? q terms = some g ∧
      Reassoc g f := by
  obtain ⟨k, hlt, hk⟩ := List.any_eq_true.1 h
  obtain ⟨vars, body, hstrip, hcompared⟩ := isInstanceAt_eq_fit (List.mem_range.1 hlt) f
  obtain ⟨σ, hfit⟩ : ∃ σ : Fillings, f.fit { holes := vars } ∅ body = (true, σ) :=
    ⟨_, Prod.ext (hcompared.symm.trans hk) rfl⟩
  have hfitted := fit_fitted (by simp [show f.freeVars = [] from hf]) hfit
  have hclosed : σ.Closed := hfitted.closed (by simp [Fillings.Closed])
  have hlength : vars.length = k + 1 := length_of_stripN hstrip
  refine ⟨vars.map fun x => (σ.get? x).getD (.const ""), _, ?_, ?_, ?_, reassoc_iff.2
    (hfitted.serves (.ofList (vars.zip (vars.map fun x => (σ.get? x).getD (.const "")))) ⟨?_, by simp⟩)⟩
  · intro hnil
    simp [List.map_eq_nil_iff.1 hnil] at hlength
  · intro t ht
    obtain ⟨x, -, rfl⟩ := List.mem_map.1 ht
    cases hx : σ.get? x with
    | none => rfl
    | some t => exact hclosed hx
  · rw [instantiate?, List.length_map, hlength, hstrip]
    rfl
  · intro x hx t ht
    rw [Substitution.ofList_zip_map, if_pos hx, ht, Option.getD_some]

/-- An instance with closed terms is found by matching. -/
theorem isInstance_of_instantiate? {q : Quantifier} {general f g : Formula} {terms : List Term}
    (hne : terms ≠ []) (hterms : ∀ t ∈ terms, t.vars = [])
    (hg : general.instantiate? q terms = some g) (h : Reassoc g f) :
    general.isInstance q f = true := by
  obtain ⟨vars, body, τ, hstrip, rfl, hclosed, hdomain, hall⟩ := instantiate?_eq_some hterms hg
  obtain ⟨k, hk⟩ : ∃ k, terms.length = k + 1 :=
    Nat.exists_eq_succ_of_ne_zero fun h0 => hne (List.length_eq_zero_iff.1 h0)
  rw [hk] at hstrip
  have hlength : k + 1 ≤ (general.strip q).1.length := stripN_isSome_iff.1 (by simp [hstrip])
  refine List.any_eq_true.2 ⟨k, List.mem_range.2 hlength, ?_⟩
  have hcovers : τ.Covers { holes := vars } := by
    refine ⟨hclosed, fun x hx => ?_⟩
    cases hτ : τ x with
    | none => exact absurd hx (hall x hτ)
    | some t => exact ⟨t, rfl⟩
  have hon : τ.on vars = τ := by
    funext x
    rw [Substitution.on]
    split
    · rfl
    · rename_i hx
      cases hτ : τ x with
      | none => rfl
      | some t => exact absurd (hdomain x t hτ).1 hx
  obtain ⟨σ, hfit, -⟩ := fit_of_subst hcovers (σ := ∅) (fun x t hx => by simp at hx)
    (show f.leftAssoc = (body.subst (τ.on vars)).leftAssoc by rw [hon, reassoc_iff.1 h])
  simp only [isInstanceAt, hstrip, hfit]

/-- A closed formula is an instance of a quantified one, as matching tells, if and only if closed terms
in place of one or more of the variables in front make it so, up to re-association.  This covers
quantifiers in front that bind one name, quantifiers inside that bind it again, and variables that
do not occur. -/
theorem isInstance_iff_instantiate? {q : Quantifier} {general inst : Formula} (hinst : inst.Closed) :
    general.isInstance q inst = true ↔
      ∃ terms g, terms ≠ [] ∧ (∀ t ∈ terms, t.vars = []) ∧
        general.instantiate? q terms = some g ∧ Reassoc g inst := by
  constructor
  · exact exists_instantiate?_of_isInstance hinst
  · rintro ⟨terms, g, hne, hterms, hg, h⟩
    exact isInstance_of_instantiate? hne hterms hg h

/-- Two quantifiers in front bind one name, one inside binds it again, and the third in front binds a
name that does not occur; the instance is bracketed in another way. -/
theorem isInstance_iff_instantiate?_rebound :
    ∃ general inst : Formula,
      general = .quant .all "x" (.quant .all "x" (.quant .all "z"
        (.binary .and
          (.binary .and (.rel "P" [.var "x"]) (.quant .ex "y" (.rel "R" [.var "x", .var "y"])))
          (.quant .all "x" (.rel "Q" [.var "x"]))))) ∧
      inst = .binary .and (.rel "P" [.app "f" [.const "a"]])
        (.binary .and (.quant .ex "y" (.rel "R" [.app "f" [.const "a"], .var "y"]))
          (.quant .all "x" (.rel "Q" [.var "x"]))) ∧
      inst.Closed ∧ general.isInstance .all inst = true := by
  refine ⟨_, _, rfl, rfl, by decide, (isInstance_iff_instantiate? (by decide)).2
    ⟨[.const "b", .app "f" [.const "a"], .const "c"], _, by simp, by decide, rfl, ?_⟩⟩
  exact .assoc rfl _ _ _

end Formula

end NaturalDeduction
