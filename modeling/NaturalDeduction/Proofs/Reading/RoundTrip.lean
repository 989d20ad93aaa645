import NaturalDeduction.Formula.Printer
import NaturalDeduction.Proofs.Reading.Completeness

/-!
# Printing and reading

The text of a formula whose chains group to the left is this formula by the grammar, so it is read as
the formula itself.  Re-association does not change the text.  Together: the text of a well-formed
formula is read as the formula with all its chains grouped to the left, and two well-formed formulas
have the same text exactly if they are equal up to re-association.
-/

set_option autoImplicit false

namespace NaturalDeduction

/-! ### The text of a term -/

section

variable {arity : SymbolKind → String → Nat} {bound : List String}

/-- Arguments with their texts.  All but the first have a blank before them. -/
def spacedArguments : List Term → List (List Char × Term)
  | [] => []
  | t :: ts => (t.text.toList, t) :: ts.map fun s => (' ' :: s.text.toList, s)

/-- The texts of arguments are texts of these arguments. -/
theorem map_snd_spacedArguments (ts : List Term) : (spacedArguments ts).map Prod.snd = ts := by
  cases ts with
  | nil => rfl
  | cons t ts => simp [spacedArguments, Function.comp_def]

/-- Separated by commas, they are the arguments as they are printed. -/
theorem intercalate_spacedArguments (ts : List Term) :
    [','].intercalate ((spacedArguments ts).map Prod.fst) =
      [',', ' '].intercalate (ts.map fun t => t.text.toList) := by
  cases ts with
  | nil => rfl
  | cons t ts =>
    induction ts generalizing t with
    | nil => rfl
    | cons s ts ih =>
      have hblank : ∀ (c : Char) (w : List Char) (pieces : List (List Char)),
          [','].intercalate ((c :: w) :: pieces) = c :: [','].intercalate (w :: pieces) := by
        intro c w pieces
        cases pieces <;> simp [List.intercalate_cons_cons]
      have htail := ih s
      simp only [spacedArguments, List.map_cons, List.map_map] at htail ⊢
      rw [List.intercalate_cons_cons, List.intercalate_cons_cons, hblank, htail]
      simp

/-- An application is printed as its name and its arguments in round brackets. -/
theorem toList_text_app (name : String) (args : List Term) :
    (Term.app name args).text.toList =
      applicationText name [] .round ((spacedArguments args).map Prod.fst) := by
  rw [applicationText, intercalate_spacedArguments]
  simp [Term.text, Term.textList_eq, String.toList_intercalate, Function.comp_def, Bracket.opening,
    Bracket.closing]

/-- Where there are arguments, there are texts of them. -/
theorem spacedArguments_ne_nil {ts : List Term} (h : 0 < ts.length) : spacedArguments ts ≠ [] := by
  obtain ⟨t, ts, rfl⟩ := List.exists_cons_of_length_pos h
  simp [spacedArguments]

/-- There are as many texts as arguments. -/
theorem length_spacedArguments (ts : List Term) : (spacedArguments ts).length = ts.length := by
  rw [← List.length_map Prod.snd, map_snd_spacedArguments]

/-- The arguments of a legible term are legible. -/
theorem Term.Legible.of_mem {name : String} {args : List Term} {t : Term}
    (h : (Term.app name args).Legible arity bound) (ht : t ∈ args) : t.Legible arity bound := by
  intro s hs
  refine h s (List.mem_cons_of_mem _ ?_)
  rw [subtermsList_eq]
  exact List.mem_flatMap.2 ⟨t, ht, hs⟩

/-- The texts of arguments with a blank before them still are their texts. -/
theorem written_spacedArguments {ts : List Term}
    (h : ∀ t ∈ ts, Term.Written arity bound false t.text.toList t) :
    ∀ arg ∈ spacedArguments ts, Term.Written arity bound false arg.1 arg.2 := by
  cases ts with
  | nil => simp [spacedArguments]
  | cons t ts =>
    refine List.forall_mem_cons.2 ⟨h t List.mem_cons_self, List.forall_mem_map.2 fun s hs => ?_⟩
    have hs' := h s (List.mem_cons_of_mem _ hs)
    simpa using @Term.Written.pad _ _ [' '] [] _ _ (by decide) rfl hs'

/-- The printed text of a legible term is one of its texts. -/
theorem Term.Legible.written {t : Term} (h : t.Legible arity bound) (tight : Bool) :
    Written arity bound tight t.text.toList t := by
  induction t generalizing tight with
  | const name =>
    obtain ⟨hname, hfits, -⟩ := h _ List.mem_cons_self
    have hbound : name ∉ bound := by simpa [fits] using hfits
    exact .const hname hbound
  | var name =>
    obtain ⟨hname, hfits, -⟩ := h _ List.mem_cons_self
    have hbound : name ∈ bound := by simpa [fits] using hfits
    exact .var hname hbound
  | app name args ih =>
    obtain ⟨hname, -, huse⟩ := h _ List.mem_cons_self
    obtain ⟨hpos, hcount⟩ := huse _ rfl
    have happ : Written arity bound tight _ _ := .app .round hname rfl (fun _ => rfl)
      (spacedArguments_ne_nil hpos) ((length_spacedArguments args).trans hcount)
      (written_spacedArguments fun t ht => ih t ht (h.of_mem ht) false)
    rw [map_snd_spacedArguments] at happ
    rw [toList_text_app]
    exact happ

end

/-! ### Styles -/

/-- Every sign of the style is a spelling of its operator. -/
structure Style.Spelled (style : Style) : Prop where
  neg : (style.neg, .not) ∈ Operator.spellings
  connective (op : Connective) : (style.connective op, .binary op) ∈ Operator.spellings
  quantifier (q : Quantifier) : (style.quantifier q, .quantifier q) ∈ Operator.spellings

/-- The usual signs of logic are spellings of the operators. -/
theorem Style.spelled_unicode : Style.unicode.Spelled where
  neg := by decide
  connective op := by cases op <;> decide
  quantifier q := by cases q <;> decide

/-- The signs in ASCII are spellings of the operators. -/
theorem Style.spelled_ascii : Style.ascii.Spelled where
  neg := by decide
  connective op := by cases op <;> decide
  quantifier q := by cases q <;> decide

namespace Formula

variable {style : Style} {arity : SymbolKind → String → Nat} {bound : List String} {f g : Formula}

/-! ### The text of a formula -/

/-- The text with round brackets around it where they are needed. -/
theorem toList_bracketed (needed : Bool) (text : String) :
    (bracketed needed text).toList =
      if needed then '(' :: (text.toList ++ [')']) else text.toList := by
  cases needed <;> simp [bracketed]

/-- A compound formula is printed as its sides, in brackets where they are needed, with the
connective between them. -/
theorem toList_render_binary (op : Connective) (left right : Formula) :
    ((binary op left right).render style).toList =
      (bracketed (!op.accepts left.precedence) (left.render style)).toList ++
        ' ' :: ((style.connective op).toList ++
          ' ' :: (bracketed (!op.accepts right.precedence) (right.render style)).toList) := by
  rw [render]
  simp

/-- A negation is printed as the sign and what is negated, in brackets where they are needed. -/
theorem toList_render_neg (body : Formula) :
    ((neg body).render style).toList =
      style.neg.toList ++
        (bracketed (prefixPrecedence < body.precedence) (body.render style)).toList := by
  rw [render, String.toList_append]

/-- A quantified formula is printed as the quantifier, its variable and its body in square brackets.
-/
theorem toList_render_quant (q : Quantifier) (var : String) (body : Formula) :
    ((quant q var body).render style).toList =
      (style.quantifier q).toList ++
        (var.toList ++ '[' :: ((body.render style).toList ++ [']'])) := by
  rw [render]
  simp

/-! ### Brackets that begin no quantifier -/

/-- The brackets in the spelling of an operator match. -/
theorem nested_of_mem_spellings {s : String} {op : Operator} (h : (s, op) ∈ Operator.spellings) :
    Nested s.toList := by
  have hspelling : ∀ entry ∈ Operator.spellings,
      (entry.1.toList.all fun c => !isBracket c) = true ∨
        entry.1.toList = '(' :: (['A'] ++ [')']) ∨ entry.1.toList = '(' :: (['E'] ++ [')']) := by
    decide
  rcases hspelling (s, op) h with hs | hs | hs
  · exact .of_forall (by simpa using hs)
  · exact hs ▸ .group .round (.char (by decide) .nil) .nil
  · exact hs ▸ .group .round (.char (by decide) .nil) .nil

/-- In the text of a formula all brackets are matched. -/
theorem Written.nested {level : Nat} {w : List Char} (h : Written arity bound level w f) :
    Nested w := by
  induction h with
  | atom h => exact h.atomText.nested
  | group b _ _ ih => exact .group b ih .nil
  | neg hs _ ih => exact (nested_of_mem_spellings hs).append ih
  | quant hs hgap hvar _ _ ih =>
    exact (nested_of_mem_spellings hs).append
      ((nested_of_allBlank hgap).append (hvar.nested.append ih))
  | binary hs _ _ ihl ihr => exact ihl.append ((nested_of_mem_spellings hs).append ihr)
  | pad hbefore hafter _ ih =>
    exact (nested_of_allBlank hbefore).append (ih.append (nested_of_allBlank hafter))
  | loosen _ _ ih => exact ih

/-- Only a single letter in brackets can be a quantifier. -/
theorem not_quantifier_of_nested {w : List Char} (hw : Nested w) (hlength : 1 < w.length) :
    ∀ s ∈ ["(A)", "(E)"], ¬ s.toList <+: '(' :: (w ++ [')']) := by
  have hclosing : ∀ x : Char, isBracket x = false → ¬ ['(', x, ')'] <+: '(' :: (w ++ [')']) := by
    intro x hx hprefix
    match w, hw, hlength with
    | c :: d :: ds, hw, _ =>
      obtain ⟨rfl, hd⟩ := List.cons_prefix_cons.1 (List.cons_prefix_cons.1 hprefix).2
      obtain ⟨rfl, -⟩ := List.cons_prefix_cons.1 hd
      exact (hw.tail hx).head_ne_closing .round rfl
  intro s hs
  rcases List.mem_pair.1 hs with rfl | rfl
  · exact hclosing 'A' (by decide)
  · exact hclosing 'E' (by decide)

/-- An operand that stands beside a connective without brackets binds at least as tightly. -/
theorem le_of_accepts {op : Connective} {precedence : Nat} (h : (!op.accepts precedence) = false) :
    precedence ≤ op.precedence := by
  simp only [Connective.accepts, Bool.not_eq_false', Bool.or_eq_true, decide_eq_true_eq,
    Bool.and_eq_true, beq_iff_eq] at h
  omega

/-- If chains group to the left, a right operand without brackets binds tighter. -/
theorem lt_of_accepts {op : Connective} {right : Formula}
    (hsides : op.isAssociative = true → right.sides? op = none)
    (h : (!op.accepts right.precedence) = false) : right.precedence ≤ op.precedence - 1 := by
  simp only [Connective.accepts, Bool.not_eq_false', Bool.or_eq_true, decide_eq_true_eq,
    Bool.and_eq_true, beq_iff_eq] at h
  rcases h with hlt | ⟨heq, hop⟩
  · omega
  · exact absurd heq (sides?_eq_none_iff.1 (hsides hop))

/-- A formula in brackets if it needs them. -/
theorem Written.bracketed {level level' : Nat}
    (h : Written arity bound level (f.render style).toList f) {needed : Bool}
    (hneeded : needed = false → level ≤ level')
    (hlength : needed = true → 1 < (f.render style).toList.length) :
    Written arity bound level' (Formula.bracketed needed (f.render style)).toList f := by
  rw [toList_bracketed]
  cases needed with
  | false => exact .loosen (hneeded rfl) h
  | true =>
    exact .loosen (Nat.zero_le _)
      (.group .round (not_quantifier_of_nested h.nested (hlength rfl)) h)

/-- A compound formula is printed in more than one character. -/
theorem one_lt_length_render (h : prefixPrecedence < f.precedence) :
    1 < (f.render style).toList.length := by
  cases f with
  | prop | rel | eq | top | bottom => exact absurd h (Nat.not_lt_zero _)
  | neg | quant => exact absurd h (Nat.lt_irrefl _)
  | binary op left right =>
    rw [toList_render_binary]
    simp only [List.length_append, List.length_cons]
    omega

/-- What a connective does not take without brackets is a compound formula. -/
theorem lt_of_not_accepts {op : Connective} {precedence : Nat}
    (h : (!op.accepts precedence) = true) : prefixPrecedence < precedence := by
  simp only [Connective.accepts, Bool.not_eq_true', Bool.or_eq_false_iff,
    decide_eq_false_iff_not] at h
  have hop : prefixPrecedence < op.precedence := by cases op <;> decide
  omega

/-- The text of a formula whose chains group to the left is this formula by the grammar. -/
theorem Legible.written (hstyle : style.Spelled) (hf : f.Legible arity bound)
    (hnested : f.LeftNested) : Written arity bound f.precedence (f.render style).toList f := by
  induction f generalizing bound with
  | prop name => exact .atom (.prop hf)
  | rel name args =>
    obtain ⟨hname, hpos, hcount, hargs⟩ := hf
    have hrel := WrittenAtom.rel .round hname (spacedArguments_ne_nil hpos)
      ((length_spacedArguments args).trans hcount)
      (written_spacedArguments fun t ht => (hargs t ht).written false)
    rw [map_snd_spacedArguments, ← toList_text_app] at hrel
    exact .atom hrel
  | eq left right =>
    have heq := @WrittenAtom.eq _ _ _ _ [' '] [' '] _ _ (hf.1.written true) (by decide) (by decide)
      (hf.2.written true)
    rw [render]
    exact .atom (by simpa using heq)
  | top =>
    rw [render]
    exact .atom .top
  | bottom =>
    rw [render]
    exact .atom .bottom
  | neg body ih =>
    rw [toList_render_neg]
    refine .neg hstyle.neg ((ih hf hnested).bracketed (fun h => ?_) fun h => ?_)
    · exact Nat.not_lt.1 (of_decide_eq_false h)
    · exact one_lt_length_render (of_decide_eq_true h)
  | binary op left right ihl ihr =>
    obtain ⟨hleft, hright⟩ := hf
    obtain ⟨hnestedl, hnestedr, hsides⟩ := hnested
    have hl := (ihl hleft hnestedl).bracketed (@le_of_accepts op _)
      fun h => one_lt_length_render (lt_of_not_accepts h)
    -- chains are nested to the left, so the right side is not built with the same connective
    have hr := (ihr hright hnestedr).bracketed (lt_of_accepts hsides)
      fun h => one_lt_length_render (lt_of_not_accepts h)
    have hbinary := Written.binary (hstyle.connective op)
      (@Written.pad _ _ _ [] [' '] _ _ rfl (by decide) hl)
      (@Written.pad _ _ _ [' '] [] _ _ (by decide) rfl hr)
    rw [toList_render_binary, precedence]
    simpa using hbinary
  | quant q var body ih =>
    obtain ⟨hvar, hbody⟩ := hf
    have hbracket : ∀ s ∈ ["(A)", "(E)"],
        ¬ s.toList <+: Bracket.square.opening :: ((body.render style).toList ++ [']']) := by
      simp [List.cons_prefix_cons, Bracket.opening]
    rw [toList_render_quant]
    refine @Written.quant _ _ [] _ _ q _ var (hstyle.quantifier q) rfl hvar ?_
      (.loosen (Nat.zero_le _) (.group .square hbracket (ih hbody hnested)))
    rintro c ⟨⟩
    exact Or.inr (Or.inl rfl)

/-! ### The text does not show how chains are grouped -/

/-- An associative connective takes its own kind without brackets. -/
theorem accepts_self {op : Connective} (hop : op.isAssociative = true) :
    op.accepts op.precedence = true := by
  simp [Connective.accepts, hop]

/-- Brackets that associativity moves are not printed. -/
theorem Reassoc.render_eq (h : Reassoc f g) : f.render style = g.render style := by
  induction h with
  | refl _ => rfl
  | symm _ ih => exact ih.symm
  | trans _ _ ihfg ihgh => exact ihfg.trans ihgh
  | assoc hop a b c =>
    simp only [render, precedence, accepts_self hop, Bool.not_true, bracketed, Bool.false_eq_true,
      if_false, String.append_assoc]
  | neg h ih => rw [render, render, ih, h.precedence_eq]
  | binary op hl hr ihl ihr =>
    rw [render, render, ihl, ihr, hl.precedence_eq, hr.precedence_eq]
  | quant q var _ ih => rw [render, render, ih]

/-! ### Reading the text of a formula -/

/-- The text of a formula, in a style made of spellings, is read as the formula with its chains
grouped to the left. -/
theorem Legible.gives_parse (hstyle : style.Spelled) (hf : f.Legible arity []) :
    Reader.Gives arity (parse (f.render style)) f.leftAssoc := by
  have hreassoc := reassoc_leftAssoc f
  have hlegible : f.leftAssoc.Legible arity [] := hreassoc.legible_iff.1 hf
  rw [parse, hreassoc.render_eq]
  exact (hlegible.written hstyle (leftNested_leftAssoc f)).gives_read

/-- What is printed of a well-formed formula is read as the formula bracketed to the left. -/
theorem WellFormed.parse_render (hstyle : style.Spelled) (hf : f.WellFormed) :
    ∃ sig, parse (f.render style) {} = .ok f.leftAssoc sig := by
  obtain ⟨arity, hlegible⟩ := hf.legible
  obtain ⟨sig, hparse, -⟩ := hlegible.gives_parse hstyle {} (Signature.agrees_empty arity)
  exact ⟨sig, hparse⟩

/-- Printing and reading are inverse up to re-association. -/
theorem parse_render_iff_reassoc (style : Style) (hstyle : style ∈ [Style.unicode, Style.ascii])
    (f : Formula) (hf : f.WellFormed) :
    (∃ sig, parse (f.render style) {} = .ok f.leftAssoc sig) ∧
      Reassoc f f.leftAssoc ∧ f.leftAssoc.LeftNested ∧
      ∀ g : Formula, g.WellFormed → (f.render style = g.render style ↔ Reassoc f g) := by
  have hspelled : style.Spelled := by
    rcases List.mem_pair.1 hstyle with rfl | rfl
    · exact Style.spelled_unicode
    · exact Style.spelled_ascii
  obtain ⟨sig, hparse⟩ := hf.parse_render hspelled
  refine ⟨⟨sig, hparse⟩, reassoc_leftAssoc f, leftNested_leftAssoc f, fun g hg => ?_⟩
  constructor
  · intro htext
    obtain ⟨sig', hparse'⟩ := hg.parse_render hspelled
    rw [← htext, hparse] at hparse'
    exact reassoc_iff.2 (EStateM.Result.ok.inj hparse').1
  · exact Reassoc.render_eq

/-- A chain that groups to the right, in the scope of a quantifier. -/
def rightChain : Formula :=
  .quant .all "x" (.binary .implies (.rel "P" [.var "x", .app "f" [.const "a"]])
    (.binary .and (.prop "A") (.binary .and (.prop "B") (.neg (.eq (.var "x") (.const "a"))))))

/-- A chain that is bracketed to the right comes back bracketed to the left. -/
theorem parse_render_rightChain :
    Style.ascii ∈ [Style.unicode, Style.ascii] ∧ rightChain.WellFormed ∧
      rightChain.leftAssoc.WellFormed ∧
      (∃ sig, parse (rightChain.render .ascii) {} = .ok rightChain.leftAssoc sig) ∧
      (rightChain.render .ascii = rightChain.leftAssoc.render .ascii ↔
        Reassoc rightChain rightChain.leftAssoc) := by
  have hstyle : Style.ascii ∈ [Style.unicode, Style.ascii] := by simp
  have hf : rightChain.WellFormed := by decide +kernel
  have hg : rightChain.leftAssoc.WellFormed := by decide +kernel
  obtain ⟨hparse, -, -, hiff⟩ := parse_render_iff_reassoc .ascii hstyle rightChain hf
  exact ⟨hstyle, hf, hg, hparse, hiff _ hg⟩

end Formula

end NaturalDeduction
