import NaturalDeduction.Proofs.Reading.WellFormed
import NaturalDeduction.Proofs.Substitution

/-!
# Labels of formulas

A formula is a tree, and each of its nodes that has a name is labelled with this name and what it is
the name of.  Constants and uses of symbols can be read off the labels.

Substitution and replacement put whole terms in place of others, so every label of the outcome is a
label of the formula or of one of the terms.
-/

set_option autoImplicit false

namespace NaturalDeduction

/-- What stands at a node of a term or formula. -/
inductive Label where
  /-- A constant. -/
  | const (name : String)
  /-- A variable. -/
  | var (name : String)
  /-- A relation or function, with its number of arguments. -/
  | symbol (kind : SymbolKind) (name : String) (count : Nat)
  /-- A proposition. -/
  | prop (name : String)
  /-- The variable of a quantifier. -/
  | binder (name : String)
deriving DecidableEq

namespace Label

/-- The name in a label. -/
def name : Label → String
  | const name | var name | symbol _ name _ | prop name | binder name => name

/-- The use of a symbol that a label stands for. -/
def symbol? : Label → Option (SymbolKind × String × Nat)
  | symbol kind name count => some (kind, name, count)
  | _ => none

end Label

/-- The label at the top of a term. -/
def Term.label : Term → Label
  | .const name => .const name
  | .var name => .var name
  | .app name args => .symbol .function name args.length

/-- The labels of a term. -/
def Term.labels (t : Term) : List Label :=
  t.subterms.map label

/-- The labels of a formula. -/
def Formula.labels : Formula → List Label
  | .prop name => [.prop name]
  | .rel name args => .symbol .relation name args.length :: args.flatMap Term.labels
  | .eq left right => left.labels ++ right.labels
  | .top | .bottom => []
  | .neg body => body.labels
  | .binary _ left right => left.labels ++ right.labels
  | .quant _ var body => .binder var :: body.labels

/-! ### Symbols and constants -/

namespace Term

/-- A constant has its name as its only label. -/
@[simp] theorem labels_const (name : String) : (const name).labels = [.const name] := rfl

/-- A variable has its name as its only label. -/
@[simp] theorem labels_var (name : String) : (var name).labels = [.var name] := rfl

/-- An application has its symbol and the labels of its arguments as labels. -/
@[simp] theorem labels_app (name : String) (args : List Term) :
    (app name args).labels = .symbol .function name args.length :: args.flatMap labels := by
  rw [labels, subterms, subtermsList_eq, List.map_cons, List.map_flatMap]
  rfl

/-- The labels of several terms are those of each, one after the other. -/
theorem map_label_subtermsList (args : List Term) :
    (subtermsList args).map label = args.flatMap labels := by
  rw [subtermsList_eq, List.map_flatMap]
  rfl

/-- The label at the top of a term has its name. -/
theorem name_label (t : Term) : t.label.name = t.name := by
  cases t <;> rfl

/-- The label at the top of a term stands for the same symbol. -/
theorem symbol?_label (t : Term) : t.label.symbol? = t.symbol? := by
  cases t <;> rfl

/-- The constants of a term are its labels for constants. -/
theorem mem_constants_iff {t : Term} {c : String} : c ∈ t.constants ↔ .const c ∈ t.labels := by
  induction t with
  | const name => simp
  | var name => simp
  | app name args ih =>
    rw [mem_constants_app, labels_app, List.mem_cons, List.mem_flatMap]
    simp only [reduceCtorEq, false_or]
    exact exists_congr fun t => and_congr_right (ih t)

end Term

namespace Formula

/-- The symbols of a formula are its labels for symbols. -/
theorem symbols_eq (f : Formula) : f.symbols = f.labels.filterMap Label.symbol? := by
  have hterms : ∀ ts : List Term,
      ts.filterMap Term.symbol? = (ts.map Term.label).filterMap Label.symbol? := fun ts => by
    rw [List.filterMap_map]
    exact List.filterMap_congr fun t _ => t.symbol?_label.symm
  induction f with
  | prop name => rfl
  | rel name args => rw [symbols, labels, hterms, Term.map_label_subtermsList]; rfl
  | eq left right => rw [symbols, labels, hterms, List.map_append]; rfl
  | top | bottom => rfl
  | neg body ih => exact ih
  | binary op left right ihl ihr => rw [symbols, labels, ihl, ihr, List.filterMap_append]
  | quant q var body ih => rw [symbols, labels, ih]; rfl

/-- A formula uses a symbol with so many arguments if it has this label. -/
theorem mem_symbols_iff {f : Formula} {kind : SymbolKind} {name : String} {count : Nat} :
    (kind, name, count) ∈ f.symbols ↔ .symbol kind name count ∈ f.labels := by
  rw [symbols_eq, List.mem_filterMap]
  constructor
  · rintro ⟨label, hmem, hlabel⟩
    cases label <;> simp only [Label.symbol?, reduceCtorEq, Option.some.injEq, Prod.mk.injEq] at hlabel
    obtain ⟨rfl, rfl, rfl⟩ := hlabel
    exact hmem
  · exact fun hmem => ⟨_, hmem, rfl⟩

/-- The constants of a formula are its labels for constants. -/
theorem mem_constants_iff {f : Formula} {c : String} : c ∈ f.constants ↔ .const c ∈ f.labels := by
  induction f with
  | prop name => simp [labels]
  | rel name args =>
    rw [mem_constants_rel, labels, List.mem_cons, List.mem_flatMap]
    simp only [reduceCtorEq, false_or]
    exact exists_congr fun t => and_congr_right fun _ => Term.mem_constants_iff
  | eq left right =>
    rw [mem_constants_eq, labels, List.mem_append, Term.mem_constants_iff, Term.mem_constants_iff]
  | top | bottom => simp [labels]
  | neg body ih => rw [mem_constants_neg, labels, ih]
  | binary op left right ihl ihr => rw [mem_constants_binary, labels, List.mem_append, ihl, ihr]
  | quant q var body ih => rw [mem_constants_quant, labels, ih]; simp

end Formula

/-! ### Substitution and replacement -/

variable {σ : Substitution} {old new : Term} {l : Label}

namespace Term

/-- A change of arguments that brings in labels of one kind only. -/
theorem mem_labels_map {g : Term → Term} {new : Prop} {args : List Term}
    (hg : ∀ t ∈ args, l ∈ (g t).labels → l ∈ t.labels ∨ new)
    (h : l ∈ (args.map g).flatMap labels) : l ∈ args.flatMap labels ∨ new := by
  obtain ⟨_, hmem, hl⟩ := List.mem_flatMap.1 h
  obtain ⟨t, ht, rfl⟩ := List.mem_map.1 hmem
  exact (hg t ht hl).imp_left fun hlt => List.mem_flatMap.2 ⟨t, ht, hlt⟩

/-- A substitution brings the labels of what is put in, and no others. -/
theorem mem_labels_subst {t : Term} (h : l ∈ (t.subst σ).labels) :
    l ∈ t.labels ∨ ∃ x s, σ x = some s ∧ l ∈ s.labels := by
  induction t with
  | const name => exact Or.inl h
  | var name =>
    rw [subst] at h
    cases hname : σ name with
    | none => exact Or.inl (by simpa [hname] using h)
    | some s => exact Or.inr ⟨name, s, hname, by simpa [hname] using h⟩
  | app name args ih =>
    rw [subst, substList_eq, labels_app, List.length_map] at h
    rw [labels_app]
    rcases List.mem_cons.1 h with rfl | h
    · exact Or.inl List.mem_cons_self
    · exact (mem_labels_map ih h).imp_left (List.mem_cons_of_mem _)

/-- A replacement brings the labels of the new term, and no others. -/
theorem mem_labels_replace {t : Term} (h : l ∈ (t.replace old new).labels) :
    l ∈ t.labels ∨ l ∈ new.labels := by
  induction t with
  | const name | var name =>
    rw [replace] at h
    split at h
    · exact Or.inr h
    · exact Or.inl h
  | app name args ih =>
    rw [replace] at h
    split at h
    · exact Or.inr h
    · rw [replaceList_eq, labels_app, List.length_map] at h
      rw [labels_app]
      rcases List.mem_cons.1 h with rfl | h
      · exact Or.inl List.mem_cons_self
      · exact (mem_labels_map ih h).imp_left (List.mem_cons_of_mem _)

end Term

namespace Formula

/-- A substitution brings the labels of what is put in into a formula, and no others. -/
theorem mem_labels_subst {f : Formula} (h : l ∈ (f.subst σ).labels) :
    l ∈ f.labels ∨ ∃ x s, σ x = some s ∧ l ∈ s.labels := by
  induction f generalizing σ with
  | prop | top | bottom => exact Or.inl h
  | rel name args =>
    rw [subst, Term.substList_eq, labels, List.length_map] at h
    rcases List.mem_cons.1 h with rfl | h
    · exact Or.inl List.mem_cons_self
    · exact (Term.mem_labels_map (fun _ _ => Term.mem_labels_subst) h).imp_left
        (List.mem_cons_of_mem _)
  | eq left right =>
    rcases List.mem_append.1 h with h | h
    · exact (Term.mem_labels_subst h).imp_left (List.mem_append_left _)
    · exact (Term.mem_labels_subst h).imp_left (List.mem_append_right _)
  | neg body ih => exact ih h
  | binary op left right ihl ihr =>
    rcases List.mem_append.1 h with h | h
    · exact (ihl h).imp_left (List.mem_append_left _)
    · exact (ihr h).imp_left (List.mem_append_right _)
  | quant q var body ih =>
    rcases List.mem_cons.1 h with rfl | h
    · exact Or.inl List.mem_cons_self
    · rcases ih h with hl | ⟨x, s, hx, hl⟩
      · exact Or.inl (List.mem_cons_of_mem _ hl)
      · unfold Substitution.hide at hx
        split at hx
        · simp at hx
        · exact Or.inr ⟨x, s, hx, hl⟩

/-- A replacement brings the labels of the new term into a formula, and no others. -/
theorem mem_labels_replace {f : Formula} (h : l ∈ (f.replace old new).labels) :
    l ∈ f.labels ∨ l ∈ new.labels := by
  induction f with
  | prop | top | bottom => exact Or.inl h
  | rel name args =>
    rw [replace, Term.replaceList_eq, labels, List.length_map] at h
    rcases List.mem_cons.1 h with rfl | h
    · exact Or.inl List.mem_cons_self
    · exact (Term.mem_labels_map (fun _ _ => Term.mem_labels_replace) h).imp_left
        (List.mem_cons_of_mem _)
  | eq left right =>
    rcases List.mem_append.1 h with h | h
    · exact (Term.mem_labels_replace h).imp_left (List.mem_append_left _)
    · exact (Term.mem_labels_replace h).imp_left (List.mem_append_right _)
  | neg body ih => exact ih h
  | binary op left right ihl ihr =>
    rcases List.mem_append.1 h with h | h
    · exact (ihl h).imp_left (List.mem_append_left _)
    · exact (ihr h).imp_left (List.mem_append_right _)
  | quant q var body ih =>
    rcases List.mem_cons.1 h with rfl | h
    · exact Or.inl List.mem_cons_self
    · exact (ih h).imp_left (List.mem_cons_of_mem _)

/-- What is left without the first quantifiers has no new labels. -/
theorem mem_labels_of_stripN {q : Quantifier} {n : Nat} {f body : Formula} {vars : List String}
    (h : f.stripN q n = some (vars, body)) (hl : l ∈ body.labels) : l ∈ f.labels := by
  induction n generalizing f vars with
  | zero =>
    obtain ⟨-, rfl⟩ : [] = vars ∧ f = body := by simpa [stripN] using h
    exact hl
  | succ n ih =>
    obtain ⟨var, inner, rest, rfl, rfl, hrest⟩ := stripN_succ_eq_some h
    exact List.mem_cons_of_mem _ (ih hrest)

/-- The labels of an instance come from the formula and from the terms. -/
theorem mem_labels_of_instantiate? {q : Quantifier} {ts : List Term} {f g : Formula}
    (h : f.instantiate? q ts = some g) (hl : l ∈ g.labels) :
    l ∈ f.labels ∨ ∃ t ∈ ts, l ∈ t.labels := by
  obtain ⟨⟨vars, body⟩, hstrip, rfl⟩ := Option.map_eq_some_iff.1 h
  rcases mem_labels_subst hl with hl | ⟨x, t, hx, hl⟩
  · exact Or.inl (mem_labels_of_stripN hstrip hl)
  · have hentry := (Substitution.ofList_spec _ x).1 t hx
    exact Or.inr ⟨t, (List.of_mem_zip hentry).2, hl⟩

end Formula

end NaturalDeduction
