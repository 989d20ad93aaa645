import NaturalDeduction.Application
import NaturalDeduction.Proofs.Occurrence
import NaturalDeduction.Proofs.Reassociation

/-!
# Well-formed formulas

A formula is well formed when it could have been written down: all names are names, relations and
functions have arguments, always equally many for one symbol, and whether a name is a variable or a
constant is decided by the quantifiers around it.

For proofs by induction the same is said of a part of a formula, given the names bound around it and
the number of arguments of each symbol.
-/

set_option autoImplicit false

namespace NaturalDeduction

/-! ### Names and symbols -/

/-- The text can be read as a name. -/
def IsName (name : String) : Prop :=
  (checkName name.toList).isOk = true

instance (name : String) : Decidable (IsName name) :=
  inferInstanceAs (Decidable ((checkName name.toList).isOk = true))

/-- A text is a name if it is not empty and consists of characters of names. -/
theorem isName_iff {name : String} :
    IsName name ↔ name.toList ≠ [] ∧ ∀ c ∈ name.toList, isNameChar c = true := by
  unfold IsName checkName
  split
  · rename_i h
    simpa [Except.isOk, Except.toBool] using h
  · rename_i h
    simpa [Except.isOk, Except.toBool] using h

/-- A name passes the check of names unchanged. -/
theorem IsName.checkName_eq {name : String} (h : IsName name) :
    checkName name.toList = .ok name := by
  obtain ⟨hne, hall⟩ := isName_iff.1 h
  rw [checkName, if_pos (by rw [Bool.and_eq_true, List.all_eq_true]; exact ⟨by simpa using hne, hall⟩),
    String.ofList_toList]

namespace Term

/-- The name at the top of a term. -/
def name : Term → String
  | .const name | .var name | .app name _ => name

/-- The function at the top of a term, with its number of arguments. -/
def symbol? : Term → Option (SymbolKind × String × Nat)
  | .app name args => some (.function, name, args.length)
  | _ => none

/-- Whether a bare name is a variable exactly if it is bound. -/
def fits (bound : List String) : Term → Bool
  | .const name => !bound.contains name
  | .var name => bound.contains name
  | .app _ _ => true

/-- All variables of the term are among the bound names, and no constant is. -/
def BoundIn (bound : List String) (t : Term) : Prop :=
  ∀ s ∈ t.subterms, s.fits bound = true

/-- An application is bound where all its arguments are. -/
theorem boundIn_app {bound : List String} {name : String} {args : List Term} :
    (app name args).BoundIn bound ↔ ∀ t ∈ args, t.BoundIn bound := by
  unfold BoundIn
  rw [subterms, List.forall_mem_cons, subtermsList_eq]
  simp only [List.mem_flatMap]
  constructor
  · rintro ⟨-, h⟩ t ht s hs
    exact h s ⟨t, ht, hs⟩
  · intro h
    refine ⟨rfl, ?_⟩
    rintro s ⟨t, ht, hs⟩
    exact h t ht s hs

/-- A term is bound by names that hold all its variables and none of its constants. -/
theorem boundIn_iff {bound : List String} {t : Term} :
    t.BoundIn bound ↔ (∀ x ∈ t.vars, x ∈ bound) ∧ ∀ c ∈ t.constants, c ∉ bound := by
  induction t with
  | const name => simp [BoundIn, subterms, fits]
  | var name => simp [BoundIn, subterms, fits]
  | app name args ih =>
    rw [boundIn_app, forall₂_congr ih]
    simp only [vars_app, List.mem_flatMap, mem_constants_app]
    grind

end Term

namespace Formula

/-- The names in a formula. -/
def names : Formula → List String
  | .prop name => [name]
  | .rel name args => name :: (Term.subtermsList args).map Term.name
  | .eq left right => (left.subterms ++ right.subterms).map Term.name
  | .top | .bottom => []
  | .neg body => body.names
  | .binary _ left right => left.names ++ right.names
  | .quant _ var body => var :: body.names

/-- The uses of relations and functions in a formula, each with its number of arguments. -/
def symbols : Formula → List (SymbolKind × String × Nat)
  | .prop _ | .top | .bottom => []
  | .rel name args => (.relation, name, args.length) :: (Term.subtermsList args).filterMap Term.symbol?
  | .eq left right => (left.subterms ++ right.subterms).filterMap Term.symbol?
  | .neg body => body.symbols
  | .binary _ left right => left.symbols ++ right.symbols
  | .quant _ _ body => body.symbols

/-- Every variable stands under a quantifier that binds its name or is among the bound names, and no
constant does or is. -/
def BoundIn : List String → Formula → Prop
  | _, .prop _ | _, .top | _, .bottom => True
  | bound, .rel _ args => ∀ t ∈ args, t.BoundIn bound
  | bound, .eq left right => left.BoundIn bound ∧ right.BoundIn bound
  | bound, .neg body => body.BoundIn bound
  | bound, .binary _ left right => left.BoundIn bound ∧ right.BoundIn bound
  | bound, .quant _ var body => body.BoundIn (var :: bound)

/-- A formula that could have been written down. -/
structure WellFormed (f : Formula) : Prop where
  names : ∀ name ∈ f.names, IsName name
  arguments : ∀ use ∈ f.symbols, 0 < use.2.2
  arities : ∀ use ∈ f.symbols, ∀ use' ∈ f.symbols,
    use.1 = use'.1 → use.2.1 = use'.2.1 → use.2.2 = use'.2.2
  bound : f.BoundIn []

instance (bound : List String) (t : Term) : Decidable (t.BoundIn bound) :=
  inferInstanceAs (Decidable (∀ s ∈ t.subterms, s.fits bound = true))

instance decidableBoundIn : (bound : List String) → (f : Formula) → Decidable (f.BoundIn bound)
  | _, .prop _ | _, .top | _, .bottom => inferInstanceAs (Decidable True)
  | bound, .rel _ args => inferInstanceAs (Decidable (∀ t ∈ args, t.BoundIn bound))
  | bound, .eq left right =>
    inferInstanceAs (Decidable (left.BoundIn bound ∧ right.BoundIn bound))
  | bound, .neg body => decidableBoundIn bound body
  | bound, .binary _ left right =>
    have := decidableBoundIn bound left
    have := decidableBoundIn bound right
    inferInstanceAs (Decidable (left.BoundIn bound ∧ right.BoundIn bound))
  | bound, .quant _ var body => decidableBoundIn (var :: bound) body

instance (f : Formula) : Decidable f.WellFormed :=
  decidable_of_iff ((∀ name ∈ f.names, IsName name) ∧ (∀ use ∈ f.symbols, 0 < use.2.2) ∧
      (∀ use ∈ f.symbols, ∀ use' ∈ f.symbols,
        use.1 = use'.1 → use.2.1 = use'.2.1 → use.2.2 = use'.2.2) ∧ f.BoundIn [])
    ⟨fun ⟨names, arguments, arities, bound⟩ => ⟨names, arguments, arities, bound⟩,
      fun h => ⟨h.names, h.arguments, h.arities, h.bound⟩⟩

end Formula

/-! ### Parts of well-formed formulas -/

variable {arity : SymbolKind → String → Nat} {bound : List String}

/-- A term that could have been written down where these names are bound, with these numbers of
arguments. -/
def Term.Legible (arity : SymbolKind → String → Nat) (bound : List String) (t : Term) : Prop :=
  ∀ s ∈ t.subterms, IsName s.name ∧ s.fits bound = true ∧
    ∀ use ∈ s.symbol?, 0 < use.2.2 ∧ use.2.2 = arity use.1 use.2.1

namespace Formula

/-- A formula that could have been written down where these names are bound, with these numbers of
arguments. -/
def Legible (arity : SymbolKind → String → Nat) : List String → Formula → Prop
  | _, .prop name => IsName name
  | bound, .rel name args => IsName name ∧ 0 < args.length ∧ args.length = arity .relation name ∧
      ∀ t ∈ args, t.Legible arity bound
  | bound, .eq left right => left.Legible arity bound ∧ right.Legible arity bound
  | _, .top | _, .bottom => True
  | bound, .neg body => body.Legible arity bound
  | bound, .binary _ left right => left.Legible arity bound ∧ right.Legible arity bound
  | bound, .quant _ var body => IsName var ∧ body.Legible arity (var :: bound)

/-- A formula is legible if its names are names, its symbols have the recorded numbers of arguments,
at least one, and its variables are bound. -/
theorem legible_of_symbols {f : Formula} (hnames : ∀ name ∈ f.names, IsName name)
    (hsymbols : ∀ use ∈ f.symbols, 0 < use.2.2 ∧ use.2.2 = arity use.1 use.2.1)
    (hbound : f.BoundIn bound) : f.Legible arity bound := by
  induction f generalizing bound with
  | prop name => exact hnames name List.mem_cons_self
  | rel name args =>
    have hsub : ∀ {t s}, t ∈ args → s ∈ t.subterms → s ∈ Term.subtermsList args := by
      intro t s ht hs
      rw [Term.subtermsList_eq]
      exact List.mem_flatMap.2 ⟨t, ht, hs⟩
    obtain ⟨hpos, hcount⟩ := hsymbols _ List.mem_cons_self
    refine ⟨hnames name List.mem_cons_self, hpos, hcount, fun t ht s hs => ?_⟩
    refine ⟨hnames _ (List.mem_cons_of_mem _ (List.mem_map_of_mem (hsub ht hs))), hbound t ht s hs,
      fun use huse => hsymbols use (List.mem_cons_of_mem _ ?_)⟩
    exact List.mem_filterMap.2 ⟨s, hsub ht hs, huse⟩
  | eq left right =>
    have hside : ∀ {t : Term}, (∀ s ∈ t.subterms, s ∈ left.subterms ++ right.subterms) →
        t.BoundIn bound → t.Legible arity bound := by
      intro t hsub hbound s hs
      exact ⟨hnames _ (List.mem_map_of_mem (hsub s hs)), hbound s hs, fun use huse =>
        hsymbols use (List.mem_filterMap.2 ⟨s, hsub s hs, huse⟩)⟩
    exact ⟨hside (fun s => List.mem_append_left _) hbound.1,
      hside (fun s => List.mem_append_right _) hbound.2⟩
  | top | bottom => trivial
  | neg body ih => exact ih hnames hsymbols hbound
  | binary op left right ihl ihr =>
    exact ⟨ihl (fun name h => hnames name (List.mem_append_left _ h))
        (fun use h => hsymbols use (List.mem_append_left _ h)) hbound.1,
      ihr (fun name h => hnames name (List.mem_append_right _ h))
        (fun use h => hsymbols use (List.mem_append_right _ h)) hbound.2⟩
  | quant q var body ih =>
    exact ⟨hnames var List.mem_cons_self,
      ih (fun name h => hnames name (List.mem_cons_of_mem _ h)) hsymbols hbound⟩

/-- Re-association does not matter. -/
theorem Reassoc.legible_iff {f g : Formula} (h : Reassoc f g) :
    f.Legible arity bound ↔ g.Legible arity bound := by
  induction h generalizing bound with
  | refl _ => rfl
  | symm _ ih => exact ih.symm
  | trans _ _ ihfg ihgh => exact ihfg.trans ihgh
  | assoc _ a b c => exact and_assoc
  | neg _ ih => exact ih
  | binary _ _ _ ihl ihr => exact and_congr ihl ihr
  | quant _ _ _ ih => exact and_congr_right fun _ => ih

/-- A well-formed formula is legible with the numbers of arguments that it uses itself. -/
theorem WellFormed.legible {f : Formula} (h : f.WellFormed) : ∃ arity, f.Legible arity [] := by
  refine ⟨fun kind name => ((f.symbols.find? fun use => use.1 = kind ∧ use.2.1 = name).map
    fun use => use.2.2).getD 0, legible_of_symbols h.names (fun use huse => ?_) h.bound⟩
  refine ⟨h.arguments use huse, ?_⟩
  cases hfind : f.symbols.find? fun use' => use'.1 = use.1 ∧ use'.2.1 = use.2.1 with
  | none =>
    have := List.find?_eq_none.1 hfind use huse
    simp at this
  | some use' =>
    have hsame := List.find?_some hfind
    obtain ⟨hkind, hname⟩ : use'.1 = use.1 ∧ use'.2.1 = use.2.1 := by simpa using hsame
    exact h.arities use huse use' (List.mem_of_find?_eq_some hfind) hkind.symm hname.symm

end Formula

end NaturalDeduction
