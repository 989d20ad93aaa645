import Mathlib.Data.List.TakeWhile
import NaturalDeduction.Proofs.Reading.Grammar
import NaturalDeduction.Proofs.Reading.Names
import NaturalDeduction.Proofs.Reading.Nesting

/-!
# Reading terms

The text of a term is a `Phrase` with blanks around it: a name, alone or with a group of arguments
behind it.  A phrase is cut out of a longer text as a whole, and a text that is a term by the grammar
is read as this term.
-/

set_option autoImplicit false

namespace NaturalDeduction

/-! ### Blanks around a text -/

section Blanks

variable {w : List Char}

/-- All characters of a blank text are blanks. -/
theorem isBlank_of_allBlank (h : Text.allBlank w = true) : ∀ c ∈ w, Text.isBlank c = true := by
  simpa [Text.allBlank] using h

/-- There are no brackets in a blank text. -/
theorem nested_of_allBlank (h : Text.allBlank w = true) : Nested w :=
  .of_forall fun c hc => Operator.isBracket_of_isBlank (isBlank_of_allBlank h c hc)

/-- A blank text is not split. -/
theorem whole_of_allBlank {separator : Char} (hsep : Text.isBlank separator = false)
    (h : Text.allBlank w = true) : Application.Whole separator w := by
  refine Application.whole_of_forall fun c hc => ?_
  have hblank := isBlank_of_allBlank h c hc
  refine ⟨Operator.isBracket_of_isBlank hblank, ?_⟩
  rintro rfl
  exact absurd (hblank.symm.trans hsep) (by decide)

end Blanks

/-- A text that neither begins nor ends with a blank. -/
structure Solid (w : List Char) : Prop where
  head : ∃ c cs, w = c :: cs ∧ Text.isBlank c = false
  last : ∃ cs c, w = cs ++ [c] ∧ Text.isBlank c = false

/-- A text without blanks around it is not trimmed. -/
theorem Solid.trim_eq {w : List Char} (hw : Solid w) : Text.trim w = w := by
  obtain ⟨c, cs, hcs, hc⟩ := hw.head
  obtain ⟨ds, d, hds, hd⟩ := hw.last
  have hstart : Text.trimStart w = w := by
    rw [hcs]
    exact List.dropWhile_cons_of_neg (by simp [hc])
  rw [Text.trim, hstart, hds]
  simp [Text.trimEnd, hd]

/-- A text without blanks around it is not blank. -/
theorem Solid.allBlank_eq_false {w : List Char} (hw : Solid w) : Text.allBlank w = false := by
  obtain ⟨c, cs, rfl, hc⟩ := hw.head
  simp [Text.allBlank, hc]

/-- Blanks behind a text make no difference when its end is trimmed. -/
theorem trimEnd_append {w after : List Char} (hafter : Text.allBlank after = true) :
    Text.trimEnd (w ++ after) = Text.trimEnd w := by
  have hblank : ∀ c ∈ after.reverse, Text.isBlank c = true :=
    fun c hc => isBlank_of_allBlank hafter c (List.mem_reverse.1 hc)
  rw [Text.trimEnd, List.reverse_append, List.dropWhile_append_of_pos hblank, Text.trimEnd]

/-- A text that is not blank is not blank in a longer one. -/
theorem allBlank_pad {w : List Char} (hw : Text.allBlank w = false) (before after : List Char) :
    Text.allBlank (before ++ (w ++ after)) = false := by
  simp only [Text.allBlank, List.all_append] at hw ⊢
  rw [hw, Bool.false_and, Bool.and_false]

/-- More blanks around a text are trimmed as well. -/
theorem trim_pad {u v w : List Char} (hu : Text.allBlank u = true) (hv : Text.allBlank v = true)
    (hw : Text.allBlank w = false) : Text.trim (u ++ (w ++ v)) = Text.trim w := by
  have hne : (w.dropWhile Text.isBlank).isEmpty = false := by
    rw [← Bool.not_eq_true, List.isEmpty_iff, List.dropWhile_eq_nil_iff, ← List.all_eq_true]
    exact Bool.eq_false_iff.1 hw
  have hstart : Text.trimStart (u ++ (w ++ v)) = Text.trimStart w ++ v := by
    rw [Text.trimStart, List.dropWhile_append_of_pos (isBlank_of_allBlank hu),
      List.dropWhile_append, hne, if_neg (by decide), Text.trimStart]
  rw [Text.trim, hstart, trimEnd_append hv, Text.trim]

/-! ### Names -/

namespace IsName

variable {name : String}

/-- There are no brackets in a name. -/
theorem nested (h : IsName name) : Nested name.toList :=
  .of_forall fun _ hc => isBracket_of_isNameChar (h.isNameChar hc)

/-- A name begins with a character of names. -/
theorem exists_cons (h : IsName name) :
    ∃ c cs, name.toList = c :: cs ∧ NaturalDeduction.isNameChar c = true := by
  obtain ⟨hne, hall⟩ := isName_iff.1 h
  obtain ⟨c, cs, hcs⟩ := List.exists_cons_of_ne_nil hne
  exact ⟨c, cs, hcs, hall c (hcs ▸ List.mem_cons_self)⟩

/-- A name ends in a character of names. -/
theorem exists_concat (h : IsName name) :
    ∃ cs c, name.toList = cs ++ [c] ∧ NaturalDeduction.isNameChar c = true := by
  obtain ⟨hne, hall⟩ := isName_iff.1 h
  refine ⟨_, _, (List.dropLast_append_getLast hne).symm, hall _ (List.getLast_mem hne)⟩

/-- A name is not split at a character that cannot stand in it. -/
theorem whole (h : IsName name) {separator : Char}
    (hsep : NaturalDeduction.isNameChar separator = false) :
    Application.Whole separator name.toList := by
  refine Application.whole_of_forall fun c hc => ?_
  have hchar := h.isNameChar hc
  refine ⟨isBracket_of_isNameChar hchar, ?_⟩
  rintro rfl
  exact absurd (hchar.symm.trans hsep) (by decide)

/-- The search for the end of an operand passes over a name. -/
theorem operandRest_append (h : IsName name) (before : Char) (rest : List Char) :
    Token.operandRest before [] (name.toList ++ rest) =
      Token.passing name.toList (Token.operandRest (name.toList.getLastD before) [] rest) :=
  Token.operandRest_append (fun _ hc => ⟨isBracket_of_isNameChar (h.isNameChar hc),
    isLead_of_isNameChar (h.isNameChar hc)⟩) before rest

/-- A name has no blanks around it. -/
theorem solid (h : IsName name) : Solid name.toList := by
  obtain ⟨c, cs, hcs, hc⟩ := h.exists_cons
  obtain ⟨ds, d, hds, hd⟩ := h.exists_concat
  exact ⟨⟨c, cs, hcs, isBlank_of_isNameChar hc⟩, ⟨ds, d, hds, isBlank_of_isNameChar hd⟩⟩

/-- A name with a group of arguments behind it has no blanks around it. -/
theorem solid_applied (h : IsName name) (gap u : List Char) (b : Bracket) :
    Solid (name.toList ++ (gap ++ b.opening :: (u ++ [b.closing]))) := by
  obtain ⟨c, cs, hcs, hc⟩ := h.exists_cons
  refine ⟨⟨c, _, by rw [hcs, List.cons_append], isBlank_of_isNameChar hc⟩, ?_⟩
  exact ⟨name.toList ++ (gap ++ b.opening :: u), b.closing, by simp, by cases b <;> decide⟩

end IsName

/-! ### Phrases -/

/-- A name, alone or with a group of arguments behind it, and with blanks around it and before the
group unless the phrase is tight. -/
inductive Phrase : Bool → List Char → Prop
  | name {tight : Bool} {name : String} (hname : IsName name) : Phrase tight name.toList
  | applied {tight : Bool} {name : String} {gap u : List Char} (b : Bracket) (hname : IsName name)
      (hgap : Text.allBlank gap = true) (htight : tight = true → gap = []) (hu : Nested u) :
      Phrase tight (name.toList ++ (gap ++ b.opening :: (u ++ [b.closing])))
  | pad {before after w : List Char} (hbefore : Text.allBlank before = true)
      (hafter : Text.allBlank after = true) (h : Phrase false w) :
      Phrase false (before ++ (w ++ after))

namespace Phrase

variable {tight : Bool} {w : List Char}

/-- The brackets in a phrase match. -/
theorem nested (h : Phrase tight w) : Nested w := by
  induction h with
  | name hname => exact hname.nested
  | applied b hname hgap _ hu =>
    exact hname.nested.append ((nested_of_allBlank hgap).append (.group b hu .nil))
  | pad hbefore hafter _ ih =>
    exact (nested_of_allBlank hbefore).append (ih.append (nested_of_allBlank hafter))

/-- A phrase belongs to one piece. -/
theorem whole (h : Phrase tight w) {separator : Char} (hname : isNameChar separator = false)
    (hblank : Text.isBlank separator = false) : Application.Whole separator w := by
  induction h with
  | name h => exact h.whole hname
  | applied b h hgap _ hu =>
    exact (h.whole hname).append ((whole_of_allBlank hblank hgap).append
      (Application.whole_group hu b))
  | pad hbefore hafter _ ih =>
    exact (whole_of_allBlank hblank hbefore).append
      (ih.append (whole_of_allBlank hblank hafter))

/-- A tight phrase begins with a character of names. -/
theorem exists_cons (h : Phrase true w) : ∃ c cs, w = c :: cs ∧ isNameChar c = true := by
  cases h with
  | name hname => exact hname.exists_cons
  | applied _ hname _ _ _ =>
    obtain ⟨c, cs, hcs, hc⟩ := hname.exists_cons
    exact ⟨c, _, by rw [hcs, List.cons_append], hc⟩

/-- A tight phrase has no blanks around it. -/
theorem solid (h : Phrase true w) : Solid w := by
  cases h with
  | name hname => exact hname.solid
  | applied b hname _ _ _ => exact hname.solid_applied _ _ b

/-- A phrase is not blank. -/
theorem allBlank_eq_false (h : Phrase tight w) : Text.allBlank w = false := by
  induction h with
  | name hname => exact hname.solid.allBlank_eq_false
  | applied b hname _ _ _ => exact (hname.solid_applied _ _ b).allBlank_eq_false
  | pad _ _ _ ih => exact allBlank_pad ih _ _

/-- A tight phrase belongs to one operand. -/
theorem operandRest_append (h : Phrase true w) (before : Char) (rest : List Char) :
    Token.operandRest before [] (w ++ rest) =
      Token.passing w (Token.operandRest (w.getLastD before) [] rest) := by
  cases h with
  | name hname => exact hname.operandRest_append before rest
  | @applied _ name gap u b hname _ htight hu =>
    obtain rfl := htight rfl
    obtain ⟨ds, d, hds, hd⟩ := hname.exists_concat
    have hopens : Token.opensArguments (name.toList.getLastD before) = true := by
      have hlast : name.toList.getLastD before = d := by simp [hds]
      have heq : d ≠ '=' := ne_of_isNameChar hd (by decide)
      have hcomma : d ≠ ',' := ne_of_isNameChar hd (by decide)
      rw [hlast]
      simp [Token.opensArguments, isBlank_of_isNameChar hd, heq, hcomma]
    rw [List.append_assoc, hname.operandRest_append, List.nil_append, List.cons_append,
      List.append_assoc, List.singleton_append, Token.operandRest_opening b (Or.inr hopens),
      hu.operandRest_append, Token.operandRest_closing]
    simp [List.getLast?_append, List.getLast?_cons]

end Phrase

/-! ### Taking an application apart -/

/-- What is no bracket opens none. -/
theorem isNone_ofOpening? {c : Char} (h : isBracket c = false) :
    (Bracket.ofOpening? c).isNone = true := by
  rw [(isBracket_eq_false_iff.1 h).1, Option.isNone_none]

/-- A name alone is no application. -/
theorem parts?_name {name : String} (h : IsName name) :
    Application.parts? name.toList = .ok none := by
  have hdrop : (name.toList ++ []).dropWhile (fun c => (Bracket.ofOpening? c).isNone) = [] :=
    List.dropWhile_append_of_pos fun c hc =>
      isNone_ofOpening? (isBracket_of_isNameChar (h.isNameChar hc))
  rw [List.append_nil] at hdrop
  simp only [Application.parts?, hdrop]

/-- A name with a group in brackets behind it is taken apart into the name and what is in the group.
-/
theorem parts?_applied {name : String} {gap u : List Char} (h : IsName name)
    (hgap : Text.allBlank gap = true) (b : Bracket) (hu : Nested u) :
    Application.parts? (name.toList ++ (gap ++ b.opening :: (u ++ [b.closing]))) =
      .ok (some (name.toList, u)) := by
  have hnone : ∀ c ∈ name.toList ++ gap, (Bracket.ofOpening? c).isNone = true := by
    intro c hc
    rcases List.mem_append.1 hc with hc | hc
    · exact isNone_ofOpening? (isBracket_of_isNameChar (h.isNameChar hc))
    · exact isNone_ofOpening? (Operator.isBracket_of_isBlank (isBlank_of_allBlank hgap c hc))
  have htake : (name.toList ++ (gap ++ b.opening :: (u ++ [b.closing]))).takeWhile
      (fun c => (Bracket.ofOpening? c).isNone) = name.toList ++ gap := by
    rw [← List.append_assoc, List.takeWhile_append_of_pos hnone]
    simp [b.ofOpening?_opening]
  have hdrop : (name.toList ++ (gap ++ b.opening :: (u ++ [b.closing]))).dropWhile
      (fun c => (Bracket.ofOpening? c).isNone) = b.opening :: (u ++ [b.closing]) := by
    rw [← List.append_assoc, List.dropWhile_append_of_pos hnone]
    simp [b.ofOpening?_opening]
  have hclosed : Application.untilClosed 0 (u ++ [b.closing]) = some (u, b, []) := by
    rw [hu.untilClosed_append, Application.untilClosed_end, Option.map_some, List.append_nil]
  have htrim : Text.trimEnd (name.toList ++ gap) = name.toList := by
    obtain ⟨ds, d, hds, hd⟩ := h.exists_concat
    rw [trimEnd_append hgap]
    simp [Text.trimEnd, hds, isBlank_of_isNameChar hd]
  simp only [Application.parts?, htake, hdrop, b.ofOpening?_opening, hclosed, htrim, ne_eq,
    not_true_eq_false, if_false]

/-! ### Reading with a given number of arguments -/

variable {arity : SymbolKind → String → Nat} {sig : Signature}

/-- The numbers of arguments in a signature are the given ones. -/
def Signature.Agrees (sig : Signature) (arity : SymbolKind → String → Nat) : Prop :=
  ∀ kind name count, sig.arity? kind name = some count → count = arity kind name

/-- Nothing is recorded in the empty signature that could disagree. -/
theorem Signature.agrees_empty (arity : SymbolKind → String → Nat) :
    ({} : Signature).Agrees arity := by
  intro kind name count h
  cases kind <;> simp [arity?] at h

/-- A constant changes no numbers of arguments. -/
theorem Signature.Agrees.addConstant (h : sig.Agrees arity) (name : String) :
    (sig.addConstant name).Agrees arity := by
  intro kind name' count hcount
  refine h kind name' count ?_
  cases kind <;> exact hcount

/-- The recorded number of arguments is found again, and the others stay as they are. -/
theorem Signature.arity?_setArity (sig : Signature) (kind kind' : SymbolKind)
    (name name' : String) (count : Nat) :
    (sig.setArity kind name count).arity? kind' name' =
      if kind = kind' ∧ name = name' then some count else sig.arity? kind' name' := by
  cases kind <;> cases kind' <;> simp [setArity, arity?, NameMap.get?_insert]

/-- Recording the given number of arguments keeps the agreement. -/
theorem Signature.Agrees.setArity (h : sig.Agrees arity) {kind : SymbolKind} {name : String}
    {count : Nat} (hcount : count = arity kind name) :
    (sig.setArity kind name count).Agrees arity := by
  intro kind' name' count' h'
  rw [arity?_setArity] at h'
  split at h'
  · rename_i heq
    obtain ⟨rfl, rfl⟩ := heq
    exact (Option.some.inj h').symm.trans hcount
  · exact h kind' name' count' h'

/-- A use with the right number of arguments contradicts no earlier one. -/
theorem Signature.Agrees.recordArity (h : sig.Agrees arity) {kind : SymbolKind} {name : String}
    {count : Nat} (hcount : count = arity kind name) :
    ∃ sig', Reader.recordArity kind name count sig = .ok () sig' ∧ sig'.Agrees arity := by
  cases hfound : sig.arity? kind name with
  | some expected =>
    have hsame : expected = count := (h kind name expected hfound).trans hcount.symm
    have hrecord : sig.recordArity kind name count = .ok sig := by
      simp only [Signature.recordArity, hfound, if_pos hsame]
    exact ⟨sig, Reader.recordArity_eq_ok.2 hrecord, h⟩
  | none =>
    have hrecord : sig.recordArity kind name count = .ok (sig.setArity kind name count) := by
      simp only [Signature.recordArity, hfound]
    exact ⟨_, Reader.recordArity_eq_ok.2 hrecord, h.setArity hcount⟩

/-- The reader succeeds with the given answer, whatever the signature, as long as the numbers of
arguments in it are the given ones. -/
def Reader.Gives {α : Type} (arity : SymbolKind → String → Nat) (reader : Reader α) (a : α) :
    Prop :=
  ∀ sig : Signature, sig.Agrees arity → ∃ sig', reader sig = .ok a sig' ∧ sig'.Agrees arity

namespace Reader.Gives

variable {α β : Type} {a : α} {b : β}

/-- Reading nothing gives the answer. -/
theorem pure (a : α) : Gives arity (Pure.pure a) a :=
  fun sig h => ⟨sig, rfl, h⟩

/-- Two readings in a row give what the second gives with the answer of the first. -/
theorem bind {x : Reader α} {f : α → Reader β} (hx : Gives arity x a) (hf : Gives arity (f a) b) :
    Gives arity (x >>= f) b := by
  intro sig hsig
  obtain ⟨mid, hmid, hmidsig⟩ := hx sig hsig
  obtain ⟨last, hlast, hlastsig⟩ := hf mid hmidsig
  exact ⟨last, Reader.bind_eq_ok.2 ⟨a, mid, hmid, hlast⟩, hlastsig⟩

/-- What is done without the signature gives its answer. -/
theorem ofExcept {x : Except ParseError α} (h : x = .ok a) : Gives arity (Reader.ofExcept x) a :=
  h ▸ .pure a

/-- Learning a constant succeeds. -/
theorem addConstant (name : String) : Gives arity (Reader.addConstant name) () :=
  fun sig h => ⟨sig.addConstant name, rfl, h.addConstant name⟩

/-- Recording the given number of arguments succeeds. -/
theorem recordArity {kind : SymbolKind} {name : String} {count : Nat}
    (hcount : count = arity kind name) : Gives arity (Reader.recordArity kind name count) () :=
  fun _ h => h.recordArity hcount

end Reader.Gives

/-! ### Reading the text of a term -/

section

variable {bound : List String} {tight : Bool} {w : List Char} {t : Term}

/-- The text of an application is a phrase. -/
theorem phrase_applicationText {name : String} {gap : List Char} {args : List (List Char × Term)}
    (b : Bracket) (hname : IsName name) (hgap : Text.allBlank gap = true)
    (htight : tight = true → gap = []) (hargs : ∀ arg ∈ args, Nested arg.1) :
    Phrase tight (applicationText name gap b (args.map Prod.fst)) :=
  .applied b hname hgap htight (.intercalate (by decide) (List.forall_mem_map.2 hargs))

/-- The text of a term is a phrase. -/
theorem Term.Written.phrase (h : Written arity bound tight w t) : Phrase tight w := by
  induction h with
  | var hname _ | const hname _ => exact .name hname
  | app b hname hgap htight _ _ _ ih =>
    exact phrase_applicationText b hname hgap htight fun arg harg => (ih arg harg).nested
  | pad hbefore hafter _ ih => exact .pad hbefore hafter ih

/-- Arguments are read one by one. -/
theorem Term.gives_readArgs {whole : List Char} {args : List (List Char × Term)}
    (hblank : ∀ arg ∈ args, Text.allBlank arg.1 = false)
    (hread : ∀ arg ∈ args, Reader.Gives arity (read bound arg.1) arg.2) :
    Reader.Gives arity (readArgs bound whole (args.map Prod.fst)) (args.map Prod.snd) := by
  induction args with
  | nil =>
    rw [List.map_nil, readArgs]
    exact .pure []
  | cons arg args ih =>
    rw [List.map_cons, readArgs, hblank arg List.mem_cons_self, if_neg (by decide)]
    refine .bind (hread arg List.mem_cons_self) (.bind ?_ (.pure _))
    exact ih (fun a ha => hblank a (List.mem_cons_of_mem _ ha))
      fun a ha => hread a (List.mem_cons_of_mem _ ha)

/-- The arguments of an application are found and read. -/
theorem Term.gives_arguments {whole : List Char} {args : List (List Char × Term)} (hne : args ≠ [])
    (hargs : ∀ arg ∈ args, Written arity bound false arg.1 arg.2)
    (hread : ∀ arg ∈ args, Reader.Gives arity (read bound arg.1) arg.2) :
    Reader.Gives arity
      (readArgs bound whole (Application.split ',' ([','].intercalate (args.map Prod.fst))))
      (args.map Prod.snd) := by
  have hwhole : ∀ piece ∈ args.map Prod.fst, Application.Whole ',' piece :=
    List.forall_mem_map.2 fun arg harg => (hargs arg harg).phrase.whole (by decide) (by decide)
  rw [Application.split_intercalate (by decide) (by simpa using hne) hwhole]
  exact gives_readArgs (fun arg harg => (hargs arg harg).phrase.allBlank_eq_false) hread

/-- What is read does not depend on blanks around the text. -/
theorem Term.read_eq_of_trim {u v : List Char} (h : Text.trim u = Text.trim v) :
    read bound u = read bound v := by
  rw [read_eq, read_eq bound v, h]

/-- A text that is a term by the grammar is read as this term. -/
theorem Term.Written.gives_read (h : Written arity bound tight w t) :
    Reader.Gives arity (read bound w) t := by
  induction h with
  | var hname hbound =>
    rw [read_eq, hname.solid.trim_eq, parts?_name hname]
    refine .bind (.ofExcept hname.checkName_eq) ?_
    rw [if_pos (List.contains_iff_mem.2 hbound)]
    exact .pure _
  | @const tight name hname hbound =>
    rw [read_eq, hname.solid.trim_eq, parts?_name hname]
    refine .bind (.ofExcept hname.checkName_eq) ?_
    rw [if_neg fun h => hbound (List.contains_iff_mem.1 h)]
    exact .bind (.addConstant name) (.pure _)
  | @app tight name gap args b hname hgap htight hne hcount hargs ih =>
    have hnested : Nested ([','].intercalate (args.map Prod.fst)) :=
      .intercalate (by decide) (List.forall_mem_map.2 fun arg harg => (hargs arg harg).phrase.nested)
    rw [read_eq, applicationText, (hname.solid_applied gap _ b).trim_eq,
      parts?_applied hname hgap b hnested]
    refine .bind (.ofExcept hname.checkName_eq) (.bind (gives_arguments hne hargs ih)
      (.bind (.recordArity ?_) (.pure _)))
    rw [List.length_map, hcount]
  | pad hbefore hafter h ih =>
    rw [read_eq_of_trim (trim_pad hbefore hafter h.phrase.allBlank_eq_false)]
    exact ih

end

end NaturalDeduction
