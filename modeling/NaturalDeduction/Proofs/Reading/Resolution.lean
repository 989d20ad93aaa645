import NaturalDeduction.Proofs.Reading.Recording
import NaturalDeduction.Proofs.Reading.RoundTrip

/-!
# Names read anew

A text does not show whether a bare name is a variable or a constant: the reader decides this by the
quantifiers around it.  `Formula.resolve` decides it in the same way for a formula that is already
there.  Whatever formula is printed, with names that can be read and numbers of arguments that agree
with the signature, its text is read as the formula with its names resolved; this is the formula
itself exactly if no variable is free and no constant stands under a quantifier that binds its name.
-/

set_option autoImplicit false

namespace NaturalDeduction

variable {bound : List String} {arity : SymbolKind → String → Option Nat} {constants : NameSet}

/-! ### Terms -/

namespace Term

mutual

/-- The term with every bare name a variable exactly if it is bound. -/
def resolve (bound : List String) : Term → Term
  | .const name => if bound.contains name then .var name else .const name
  | .var name => if bound.contains name then .var name else .const name
  | .app name args => .app name (resolveList bound args)

/-- The arguments with every bare name a variable exactly if it is bound. -/
def resolveList (bound : List String) : List Term → List Term
  | [] => []
  | t :: ts => t.resolve bound :: resolveList bound ts

end

/-- Arguments are resolved one by one. -/
theorem resolveList_eq (bound : List String) (ts : List Term) :
    resolveList bound ts = ts.map (resolve bound) := by
  induction ts with
  | nil => rfl
  | cons t ts ih => rw [resolveList, ih, List.map_cons]

/-- Resolving names does not change the text of a term. -/
theorem text_resolve (bound : List String) (t : Term) : (t.resolve bound).text = t.text := by
  induction t with
  | const name | var name =>
    rw [resolve]
    split <;> rfl
  | app name args ih =>
    have hargs : args.map (text ∘ resolve bound) = args.map text := List.map_congr_left ih
    rw [resolve, text, text, resolveList_eq, textList_eq, textList_eq, List.map_map, hargs]

/-- Resolving names does not change the name at the top of a term. -/
theorem name_resolve (bound : List String) (t : Term) : (t.resolve bound).name = t.name := by
  cases t with
  | const name | var name =>
    rw [resolve]
    split <;> rfl
  | app name args => rfl

/-- Resolving names does not change the symbol at the top of a term. -/
theorem symbol?_resolve (bound : List String) (t : Term) :
    (t.resolve bound).symbol? = t.symbol? := by
  cases t with
  | const name | var name =>
    rw [resolve]
    split <;> rfl
  | app name args => rw [resolve, symbol?, symbol?, resolveList_eq, List.length_map]

/-- A bare name that has been resolved is a variable exactly if it is bound. -/
theorem fits_resolve (bound : List String) (t : Term) : (t.resolve bound).fits bound = true := by
  cases t with
  | const name | var name =>
    rw [resolve]
    split
    · assumption
    · rename_i hbound
      rw [fits, Bool.not_eq_true', ← Bool.not_eq_true]
      exact hbound
  | app name args => rfl

/-- The parts of a resolved term are resolved. -/
theorem subterms_resolve (bound : List String) (t : Term) :
    (t.resolve bound).subterms = t.subterms.map (resolve bound) := by
  induction t with
  | const name | var name =>
    rw [resolve]
    split <;> simp_all [subterms, resolve]
  | app name args ih =>
    rw [resolve, subterms, subterms, subtermsList_eq, subtermsList_eq, resolveList_eq, List.map_cons,
      List.flatMap_map, List.map_flatMap, resolve, resolveList_eq]
    congr 1
    exact List.flatMap_congr fun t ht => ih t ht

/-- A resolved term is bound. -/
theorem boundIn_resolve (bound : List String) (t : Term) : (t.resolve bound).BoundIn bound := by
  intro s hs
  rw [subterms_resolve] at hs
  obtain ⟨u, -, rfl⟩ := List.mem_map.1 hs
  exact fits_resolve bound u

/-- A term that is bound has been resolved. -/
theorem BoundIn.resolve_eq {t : Term} (h : t.BoundIn bound) : t.resolve bound = t := by
  induction t with
  | const name =>
    have hname := h (.const name) List.mem_cons_self
    rw [resolve, if_neg]
    simpa [fits] using hname
  | var name =>
    have hname := h (.var name) List.mem_cons_self
    rw [resolve, if_pos]
    exact hname
  | app name args ih =>
    have hargs := boundIn_app.1 h
    rw [resolve, resolveList_eq, List.map_congr_left fun t ht => ih t ht (hargs t ht), List.map_id']

/-- A term with known labels can be read once its names are resolved. -/
theorem legible_resolve {t : Term} (h : ∀ l ∈ t.labels, l.Known arity constants) :
    (t.resolve bound).Legible (fun kind name => (arity kind name).getD 0) bound := by
  intro s hs
  rw [subterms_resolve] at hs
  obtain ⟨u, hu, rfl⟩ := List.mem_map.1 hs
  have hknown := h u.label (List.mem_map_of_mem hu)
  refine ⟨?_, fits_resolve bound u, fun use huse => ?_⟩
  · rw [name_resolve, ← name_label]
    exact hknown.isName
  · rw [symbol?_resolve] at huse
    cases u with
    | const name | var name => simp [symbol?] at huse
    | app name args =>
      obtain rfl := Option.some.inj huse
      exact ⟨hknown.2.1, by simp [hknown.2.2]⟩

end Term

/-! ### Formulas -/

namespace Formula

variable {f g : Formula} {style : Style}

/-- The formula with every bare name a variable exactly if it is bound there. -/
def resolve : List String → Formula → Formula
  | _, .prop name => .prop name
  | bound, .rel name args => .rel name (Term.resolveList bound args)
  | bound, .eq left right => .eq (left.resolve bound) (right.resolve bound)
  | _, .top => .top
  | _, .bottom => .bottom
  | bound, .neg body => .neg (body.resolve bound)
  | bound, .binary op left right => .binary op (left.resolve bound) (right.resolve bound)
  | bound, .quant q var body => .quant q var (body.resolve (var :: bound))

/-- Resolving names does not change the precedence of a formula. -/
theorem precedence_resolve (bound : List String) (f : Formula) :
    (f.resolve bound).precedence = f.precedence := by
  cases f <;> rfl

/-- The text does not show how names are resolved. -/
theorem render_resolve (style : Style) (bound : List String) (f : Formula) :
    (f.resolve bound).render style = f.render style := by
  induction f generalizing bound with
  | prop | top | bottom => rfl
  | rel name args => exact Term.text_resolve bound (.app name args)
  | eq left right => rw [resolve, render, render, Term.text_resolve, Term.text_resolve]
  | neg body ih => rw [resolve, render, render, ih, precedence_resolve]
  | binary op left right ihl ihr =>
    rw [resolve, render, render, ihl, ihr, precedence_resolve, precedence_resolve]
  | quant q var body ih => rw [resolve, render, render, ih]

/-- A resolved formula is bound. -/
theorem boundIn_resolve (bound : List String) (f : Formula) : (f.resolve bound).BoundIn bound := by
  induction f generalizing bound with
  | prop | top | bottom => trivial
  | rel name args =>
    rw [resolve, Term.resolveList_eq]
    intro t ht
    obtain ⟨u, -, rfl⟩ := List.mem_map.1 ht
    exact Term.boundIn_resolve bound u
  | eq left right => exact ⟨Term.boundIn_resolve bound left, Term.boundIn_resolve bound right⟩
  | neg body ih => exact ih bound
  | binary op left right ihl ihr => exact ⟨ihl bound, ihr bound⟩
  | quant q var body ih => exact ih (var :: bound)

/-- A formula that is bound has been resolved. -/
theorem BoundIn.resolve_eq (h : f.BoundIn bound) : f.resolve bound = f := by
  induction f generalizing bound with
  | prop | top | bottom => rfl
  | rel name args =>
    rw [resolve, Term.resolveList_eq, List.map_congr_left fun t ht => (h t ht).resolve_eq,
      List.map_id']
  | eq left right => rw [resolve, h.1.resolve_eq, h.2.resolve_eq]
  | neg body ih => rw [resolve, ih h]
  | binary op left right ihl ihr => rw [resolve, ihl h.1, ihr h.2]
  | quant q var body ih => rw [resolve, ih h]

/-- Re-association does not matter for what is bound. -/
theorem Reassoc.boundIn_iff (h : Reassoc f g) : f.BoundIn bound ↔ g.BoundIn bound := by
  induction h generalizing bound with
  | refl _ => rfl
  | symm _ ih => exact ih.symm
  | trans _ _ ihfg ihgh => exact ihfg.trans ihgh
  | assoc _ a b c => exact and_assoc
  | neg _ ih => exact ih
  | binary _ _ _ ihl ihr => exact and_congr ihl ihr
  | quant _ _ _ ih => exact ih

/-- Up to re-association, resolving names changes nothing exactly if every name is what the
quantifiers around it make of it. -/
theorem reassoc_resolve_iff : Reassoc (f.resolve []) f ↔ f.BoundIn [] := by
  constructor
  · exact fun h => h.boundIn_iff.1 (boundIn_resolve [] f)
  · intro h
    rw [h.resolve_eq]
    exact .refl f

/-- A formula whose labels are known is legible once it has been resolved. -/
theorem legible_resolve (h : ∀ l ∈ f.labels, l.Known arity constants) :
    (f.resolve bound).Legible (fun kind name => (arity kind name).getD 0) bound := by
  induction f generalizing bound with
  | prop name => exact h (.prop name) List.mem_cons_self
  | rel name args =>
    obtain ⟨hname, hpos, hcount⟩ := h (.symbol .relation name args.length) List.mem_cons_self
    rw [resolve, Term.resolveList_eq]
    refine ⟨hname, by simpa using hpos, by simp [hcount], fun t ht => ?_⟩
    obtain ⟨u, hu, rfl⟩ := List.mem_map.1 ht
    exact Term.legible_resolve fun l hl =>
      h l (List.mem_cons_of_mem _ (List.mem_flatMap.2 ⟨u, hu, hl⟩))
  | eq left right =>
    exact ⟨Term.legible_resolve fun l hl => h l (List.mem_append_left _ hl),
      Term.legible_resolve fun l hl => h l (List.mem_append_right _ hl)⟩
  | top | bottom => trivial
  | neg body ih => exact ih h
  | binary op left right ihl ihr =>
    exact ⟨ihl fun l hl => h l (List.mem_append_left _ hl),
      ihr fun l hl => h l (List.mem_append_right _ hl)⟩
  | quant q var body ih =>
    exact ⟨h (.binder var) List.mem_cons_self, ih fun l hl => h l (List.mem_cons_of_mem _ hl)⟩

/-- A formula with known labels is printed as a text that is read as the formula with its names
resolved and its chains grouped to the left. -/
theorem parse_render_resolve {sig : Signature} (hstyle : style.Spelled)
    (h : ∀ l ∈ f.labels, l.Known sig.arity? sig.constants) :
    ∃ sig', parse (f.render style) sig = .ok (f.resolve []).leftAssoc sig' := by
  have hagrees : sig.Agrees fun kind name => (sig.arity? kind name).getD 0 := by
    intro kind name count hcount
    simp [hcount]
  obtain ⟨sig', hparse, -⟩ := (legible_resolve h).gives_parse hstyle sig hagrees
  exact ⟨sig', by rwa [render_resolve] at hparse⟩

end Formula

end NaturalDeduction
