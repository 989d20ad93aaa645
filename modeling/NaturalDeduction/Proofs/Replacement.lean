import NaturalDeduction.Replacement
import NaturalDeduction.Proofs.Occurrence

/-!
# Replacing at chosen places

A place in a term or formula is the way to it from the top, each number telling which part comes next.
`replaceAt` puts one term in place of another at chosen places, and this is what the ways to replace
come down to: `replace` chooses all places (`Formula.replaceAt_all`), and one formula becomes another
if some choice of places makes it so (`Formula.becomes_iff_replaceAt`).

What was replaced everywhere can be replaced back at some places (`Formula.becomes_of_replace`), and
replacing changes a formula exactly if the term occurs in it (`Formula.replace_eq_self_iff`).
-/

set_option autoImplicit false

namespace NaturalDeduction

/-- A way from the top of a term or formula down to a part of it. -/
abbrev Place := List Nat

variable {old new : Term}

namespace Term

mutual

/-- The term with `new` in place of those occurrences of `old` that stand at a chosen place. -/
def replaceAt (t old new : Term) (chosen : Place → Bool) : Term :=
  match t with
  | .const name => if .const name = old ∧ chosen [] then new else .const name
  | .var name => if .var name = old ∧ chosen [] then new else .var name
  | .app name args =>
    if .app name args = old ∧ chosen [] then new
    else .app name (replaceListAt args old new chosen 0)

/-- The arguments, numbered from `i` on, with `new` at the chosen places of `old`. -/
def replaceListAt (ts : List Term) (old new : Term) (chosen : Place → Bool) (i : Nat) : List Term :=
  match ts with
  | [] => []
  | t :: ts =>
    t.replaceAt old new (fun place => chosen (i :: place)) :: replaceListAt ts old new chosen (i + 1)

end

/-! ### All places and none -/

/-- Replacing in each argument in one way, wherever it stands, is replacing in all of them. -/
theorem replaceListAt_eq_map {chosen : Place → Bool} {f : Term → Term} {ts : List Term}
    (h : ∀ t ∈ ts, ∀ i, t.replaceAt old new (fun place => chosen (i :: place)) = f t) (i : Nat) :
    replaceListAt ts old new chosen i = ts.map f := by
  induction ts generalizing i with
  | nil => rfl
  | cons t ts ih =>
    rw [replaceListAt, h t List.mem_cons_self, ih (fun s hs => h s (List.mem_cons_of_mem t hs)),
      List.map_cons]

/-- Replacing at all places is replacing everywhere. -/
theorem replaceAt_all (t : Term) : t.replaceAt old new (fun _ => true) = t.replace old new := by
  induction t with
  | const name | var name => simp [replaceAt, replace]
  | app name args ih =>
    rw [replaceAt, replace, replaceList_eq, replaceListAt_eq_map fun t ht _ => ih t ht]
    simp

/-- Replacing at all places of arguments is replacing everywhere. -/
theorem replaceListAt_all (ts : List Term) (i : Nat) :
    replaceListAt ts old new (fun _ => true) i = replaceList ts old new := by
  rw [replaceList_eq, replaceListAt_eq_map fun t _ _ => replaceAt_all t]

/-- Replacing at no place changes nothing. -/
theorem replaceAt_none (t : Term) : t.replaceAt old new (fun _ => false) = t := by
  induction t with
  | const name | var name => simp [replaceAt]
  | app name args ih =>
    rw [replaceAt, replaceListAt_eq_map (f := id) fun t ht _ => ih t ht]
    simp

/-- Replacing a term by itself changes nothing. -/
theorem replace_self (t : Term) : t.replace old old = t := by
  induction t with
  | const name | var name =>
    rw [replace]
    split
    · rename_i hold
      exact hold.symm
    · rfl
  | app name args ih =>
    rw [replace, replaceList_eq, List.map_congr_left ih, List.map_id']
    split
    · rename_i hold
      exact hold.symm
    · rfl

/-! ### Becoming another term -/

/-- A term becomes itself, with nothing replaced. -/
theorem becomes_self (t : Term) : t.becomes old new t = true := by
  cases t <;> simp [becomes]

/-- The old term becomes the new one. -/
theorem becomes_new : old.becomes old new new = true := by
  cases old <;> simp [becomes]

/-- An application becomes itself, the new term if it is the old one, or an application to what its
arguments become. -/
theorem becomes_app_iff {name : String} {args : List Term} {target : Term} :
    (app name args).becomes old new target = true ↔
      app name args = target ∨ app name args = old ∧ target = new ∨
        ∃ targets, target = app name targets ∧ becomesList args old new targets = true := by
  cases target with
  | const _ | var _ => simp [becomes]
  | app name' targets => simp [becomes, or_assoc, eq_comm (a := name)]

/-- An application becomes the one to what its arguments become. -/
theorem becomes_app {name : String} {args targets : List Term}
    (h : becomesList args old new targets = true) :
    (app name args).becomes old new (.app name targets) = true :=
  becomes_app_iff.2 (Or.inr (Or.inr ⟨targets, rfl, h⟩))

/-- The choice of places in an argument list matters from the first argument on. -/
theorem replaceListAt_congr {chosen chosen' : Place → Bool} {i : Nat} {ts : List Term}
    (h : ∀ j, i ≤ j → ∀ place, chosen (j :: place) = chosen' (j :: place)) :
    replaceListAt ts old new chosen i = replaceListAt ts old new chosen' i := by
  induction ts generalizing i with
  | nil => rfl
  | cons t ts ih =>
    rw [replaceListAt, replaceListAt, ih fun j hj => h j (Nat.le_of_succ_le hj),
      funext (h i (Nat.le_refl i))]

/-- Choices in the first argument and in the others make one choice. -/
theorem exists_replaceListAt_cons {t target : Term} {ts targets : List Term} {i : Nat} :
    (∃ chosen, replaceListAt (t :: ts) old new chosen i = target :: targets) ↔
      (∃ chosen, t.replaceAt old new chosen = target) ∧
        ∃ chosen, replaceListAt ts old new chosen (i + 1) = targets := by
  constructor
  · rintro ⟨chosen, h⟩
    obtain ⟨hfirst, hothers⟩ := List.cons.inj h
    exact ⟨⟨_, hfirst⟩, chosen, hothers⟩
  · rintro ⟨⟨first, rfl⟩, others, rfl⟩
    refine ⟨fun place => if place.head? = some i then first place.tail else others place, ?_⟩
    have hothers : ∀ j, i + 1 ≤ j → ∀ place : Place,
        (if (j :: place).head? = some i then first (j :: place).tail else others (j :: place)) =
          others (j :: place) := by
      intro j hj place
      rw [if_neg (by simp; omega)]
    rw [replaceListAt, replaceListAt_congr hothers]
    simp

/-- Arguments become others exactly if places can be chosen at which replacing gives these. -/
theorem becomesList_iff_replaceListAt {ts : List Term}
    (hts : ∀ t ∈ ts, ∀ target, t.becomes old new target = true ↔
      ∃ chosen, t.replaceAt old new chosen = target) (targets : List Term) (i : Nat) :
    becomesList ts old new targets = true ↔
      ∃ chosen, replaceListAt ts old new chosen i = targets := by
  induction ts generalizing targets i with
  | nil => cases targets <;> simp [becomesList, replaceListAt]
  | cons t ts ih =>
    cases targets with
    | nil => simp [becomesList, replaceListAt]
    | cons target targets =>
      rw [becomesList, Bool.and_eq_true, hts t List.mem_cons_self,
        ih (fun s hs => hts s (List.mem_cons_of_mem t hs)), exists_replaceListAt_cons]

/-- Places can be chosen so that nothing changes. -/
theorem exists_replaceAt_self (t : Term) : ∃ chosen, t.replaceAt old new chosen = t :=
  ⟨fun _ => false, replaceAt_none t⟩

/-- Places can be chosen so that the old term becomes the new one. -/
theorem exists_replaceAt_new : ∃ chosen, old.replaceAt old new chosen = new :=
  ⟨fun _ => true, by cases old <;> simp [replaceAt]⟩

/-- One term becomes another if it does so by replacing at some places. -/
theorem becomes_iff_replaceAt (t target : Term) :
    t.becomes old new target = true ↔ ∃ chosen, t.replaceAt old new chosen = target := by
  induction t generalizing target with
  | const name | var name =>
    constructor
    · intro h
      obtain rfl | ⟨rfl, rfl⟩ : _ = target ∨ _ = old ∧ target = new := by simpa [becomes] using h
      · exact exists_replaceAt_self _
      · exact exists_replaceAt_new
    · rintro ⟨chosen, rfl⟩
      rw [replaceAt]
      split
      · rename_i hold
        exact hold.1 ▸ becomes_new
      · exact becomes_self _
  | app name args ih =>
    have hargs := becomesList_iff_replaceListAt ih
    constructor
    · intro h
      obtain rfl | ⟨rfl, rfl⟩ | ⟨targets, rfl, hlist⟩ := becomes_app_iff.1 h
      · exact exists_replaceAt_self _
      · exact exists_replaceAt_new
      · obtain ⟨chosen, rfl⟩ := (hargs targets 0).1 hlist
        -- the term itself stays, even if it is the one to be replaced
        refine ⟨fun place => !place.isEmpty && chosen place, ?_⟩
        rw [replaceAt, if_neg (by simp)]
        exact congrArg (app name) (replaceListAt_congr (by simp))
    · rintro ⟨chosen, rfl⟩
      rw [replaceAt]
      split
      · rename_i hold
        exact hold.1 ▸ becomes_new
      · exact becomes_app ((hargs _ 0).2 ⟨chosen, rfl⟩)

/-! ### Replacing back -/

/-- Arguments become others if each becomes its own. -/
theorem becomesList_map {f : Term → Term} {ts : List Term}
    (h : ∀ t ∈ ts, (f t).becomes old new t = true) : becomesList (ts.map f) old new ts = true := by
  induction ts with
  | nil => rfl
  | cons t ts ih =>
    rw [List.map_cons, becomesList, h t List.mem_cons_self,
      ih fun s hs => h s (List.mem_cons_of_mem t hs), Bool.and_self]

/-- A replacement can be taken back, at the places where it was made. -/
theorem becomes_of_replace (t : Term) : (t.replace old new).becomes new old t = true := by
  induction t with
  | const name | var name =>
    rw [replace]
    split
    · rename_i hold
      exact hold ▸ becomes_new
    · exact becomes_self _
  | app name args ih =>
    rw [replace]
    split
    · rename_i hold
      exact hold ▸ becomes_new
    · rw [replaceList_eq]
      exact becomes_app (becomesList_map ih)

/-- A replacement in arguments can be taken back. -/
theorem becomesList_of_replaceList (ts : List Term) :
    becomesList (replaceList ts old new) new old ts = true := by
  rw [replaceList_eq]
  exact becomesList_map fun t _ => becomes_of_replace t

/-! ### Terms that occur -/

/-- A term does not occur in arguments if it occurs in none of them. -/
theorem occurrencesList_eq_zero_iff {ts : List Term} :
    occurrencesList ts old = 0 ↔ ∀ t ∈ ts, t.occurrences old = 0 := by
  induction ts with
  | nil => simp [occurrencesList]
  | cons t ts ih => rw [occurrencesList, Nat.add_eq_zero_iff, ih, List.forall_mem_cons]

/-- A term is counted if it occurs. -/
theorem occurrences_eq_zero_iff (t : Term) : t.occurrences old = 0 ↔ old ∉ t.subterms := by
  induction t with
  | const name | var name => simp [occurrences, subterms, eq_comm]
  | app name args ih =>
    rw [occurrences, subterms, subtermsList_eq, List.mem_cons, not_or, List.mem_flatMap]
    split
    · rename_i hold
      simp [hold]
    · rename_i hne
      rw [occurrencesList_eq_zero_iff, and_iff_right (Ne.symm hne)]
      push Not
      exact forall₂_congr ih

/-- Replacing changes no arguments if it changes none of them. -/
theorem replaceList_eq_self_iff {ts : List Term} :
    replaceList ts old new = ts ↔ ∀ t ∈ ts, t.replace old new = t := by
  rw [replaceList_eq]
  nth_rewrite 2 [← List.map_id ts]
  exact List.map_inj_left

/-- Replacing a term by another changes what the term occurs in. -/
theorem replace_eq_self_iff (hne : old ≠ new) (t : Term) :
    t.replace old new = t ↔ t.occurrences old = 0 := by
  induction t with
  | const name | var name =>
    rw [replace, occurrences]
    split
    · rename_i hold
      simp [hold, hne.symm]
    · simp
  | app name args ih =>
    rw [replace, occurrences]
    split
    · rename_i hold
      simp [hold, hne.symm]
    · rw [app.injEq, and_iff_right rfl, replaceList_eq_self_iff, occurrencesList_eq_zero_iff]
      exact forall₂_congr ih

end Term

namespace Formula

/-- The formula with `new` in place of those occurrences of `old` that stand at a chosen place. -/
def replaceAt (old new : Term) : Formula → (chosen : Place → Bool) → Formula
  | .prop name, _ => .prop name
  | .rel name args, chosen => .rel name (Term.replaceListAt args old new chosen 0)
  | .eq left right, chosen =>
    .eq (left.replaceAt old new fun place => chosen (0 :: place))
      (right.replaceAt old new fun place => chosen (1 :: place))
  | .top, _ => .top
  | .bottom, _ => .bottom
  | .neg body, chosen => .neg (body.replaceAt old new fun place => chosen (0 :: place))
  | .binary op left right, chosen =>
    .binary op (left.replaceAt old new fun place => chosen (0 :: place))
      (right.replaceAt old new fun place => chosen (1 :: place))
  | .quant q var body, chosen =>
    .quant q var (body.replaceAt old new fun place => chosen (0 :: place))

/-- Replacing everywhere is replacing at all places. -/
theorem replaceAt_all (f : Formula) : f.replaceAt old new (fun _ => true) = f.replace old new := by
  induction f with
  | prop _ | top | bottom => rfl
  | rel name args => rw [replaceAt, replace, Term.replaceListAt_all]
  | eq left right => rw [replaceAt, replace, Term.replaceAt_all, Term.replaceAt_all]
  | neg body ih | quant _ _ body ih => rw [replaceAt, replace, ih]
  | binary op left right ihl ihr => rw [replaceAt, replace, ihl, ihr]

/-- Replacing a term by itself changes no formula. -/
theorem replace_self (f : Formula) : f.replace old old = f := by
  induction f with
  | prop _ | top | bottom => rfl
  | rel name args => simp [replace, Term.replaceList_eq, Term.replace_self]
  | eq left right => rw [replace, Term.replace_self, Term.replace_self]
  | neg body ih | quant _ _ body ih => rw [replace, ih]
  | binary op left right ihl ihr => rw [replace, ihl, ihr]

/-- Choices of places in two parts make one choice. -/
theorem exists_chosen_two {P Q : (Place → Bool) → Prop} :
    (∃ chosen : Place → Bool,
      P (fun place => chosen (0 :: place)) ∧ Q fun place => chosen (1 :: place)) ↔
        (∃ chosen, P chosen) ∧ ∃ chosen, Q chosen := by
  constructor
  · rintro ⟨chosen, hP, hQ⟩
    exact ⟨⟨_, hP⟩, _, hQ⟩
  · rintro ⟨⟨left, hP⟩, right, hQ⟩
    exact ⟨fun place => if place.head? = some 0 then left place.tail else right place.tail,
      by simpa using hP, by simpa using hQ⟩

/-- A choice of places in the only part is a choice of places. -/
theorem exists_chosen_one {P : (Place → Bool) → Prop} :
    (∃ chosen : Place → Bool, P fun place => chosen (0 :: place)) ↔ ∃ chosen, P chosen := by
  simpa using exists_chosen_two (P := P) (Q := fun _ => True)

/-- One formula becomes another if it does so by replacing at some places. -/
theorem becomes_iff_replaceAt (f target : Formula) :
    f.becomes old new target = true ↔ ∃ chosen, f.replaceAt old new chosen = target := by
  induction f generalizing target with
  | prop _ | top | bottom => cases target <;> simp [becomes, replaceAt]
  | rel name args =>
    cases target with
    | rel name' args' =>
      rw [becomes, Bool.and_eq_true, decide_eq_true_eq,
        Term.becomesList_iff_replaceListAt (fun t _ => Term.becomes_iff_replaceAt t) args' 0]
      simp [replaceAt]
    | _ => simp [becomes, replaceAt]
  | eq left right =>
    cases target with
    | eq left' right' =>
      rw [becomes, Bool.and_eq_true, Term.becomes_iff_replaceAt, Term.becomes_iff_replaceAt,
        ← exists_chosen_two]
      simp [replaceAt]
    | _ => simp [becomes, replaceAt]
  | neg body ih =>
    cases target with
    | neg body' =>
      rw [becomes, ih, ← exists_chosen_one]
      simp [replaceAt]
    | _ => simp [becomes, replaceAt]
  | binary op left right ihl ihr =>
    cases target with
    | binary op' left' right' =>
      rw [becomes, Bool.and_eq_true, Bool.and_eq_true, decide_eq_true_eq, ihl, ihr, and_assoc,
        ← exists_chosen_two]
      simp [replaceAt]
    | _ => simp [becomes, replaceAt]
  | quant q var body ih =>
    cases target with
    | quant q' var' body' =>
      rw [becomes, Bool.and_eq_true, Bool.and_eq_true, decide_eq_true_eq, decide_eq_true_eq, ih,
        and_assoc, ← exists_chosen_one]
      simp [replaceAt]
    | _ => simp [becomes, replaceAt]

/-- A formula becomes what replacing everywhere makes of it. -/
theorem becomes_replace (f : Formula) : f.becomes old new (f.replace old new) = true :=
  (f.becomes_iff_replaceAt _).2 ⟨_, f.replaceAt_all⟩

/-- What was replaced everywhere can be replaced back. -/
theorem becomes_of_replace (f : Formula) : (f.replace old new).becomes new old f = true := by
  induction f with
  | prop _ | top | bottom => simp [replace, becomes]
  | rel name args => simp [replace, becomes, Term.becomesList_of_replaceList]
  | eq left right => simp [replace, becomes, Term.becomes_of_replace]
  | neg body ih | quant _ _ body ih => simp [replace, becomes, ih]
  | binary op left right ihl ihr => simp [replace, becomes, ihl, ihr]

/-- A term is counted if it occurs. -/
theorem occurrences_eq_zero_iff (f : Formula) : f.occurrences old = 0 ↔ old ∉ f.subterms := by
  induction f with
  | prop _ | top | bottom => simp [occurrences, subterms]
  | rel name args =>
    simp [occurrences, subterms, Term.occurrencesList_eq_zero_iff, Term.occurrences_eq_zero_iff,
      Term.subtermsList_eq]
  | eq left right => simp [occurrences, subterms, Term.occurrences_eq_zero_iff]
  | neg body ih | quant _ _ body ih => rw [occurrences, subterms, ih]
  | binary op left right ihl ihr => simp [occurrences, subterms, ihl, ihr]

/-- Replacing a term by another changes a formula exactly if the term occurs in it. -/
theorem replace_eq_self_iff (hne : old ≠ new) (f : Formula) :
    f.replace old new = f ↔ f.occurrences old = 0 := by
  induction f with
  | prop _ | top | bottom => simp [replace, occurrences]
  | rel name args =>
    simp [replace, occurrences, Term.replaceList_eq_self_iff, Term.occurrencesList_eq_zero_iff,
      Term.replace_eq_self_iff hne]
  | eq left right => simp [replace, occurrences, Term.replace_eq_self_iff hne]
  | neg body ih | quant _ _ body ih => simp [replace, occurrences, ih]
  | binary op left right ihl ihr => simp [replace, occurrences, ihl, ihr]

end Formula

end NaturalDeduction
