import NaturalDeduction.Proofs.Reading.Extension

/-!
# The grammar of terms

Which texts are closed terms, said without reference to how texts are read, to numbers of arguments or
to a signature (`Term.Generated`).  A text is read as a term exactly if it is this term by the grammar
and no function is used with two different numbers of arguments.

Reading cuts a text twice: the arguments end at the bracket that closes the first one, where brackets
of either kind are counted alike, and they are split at commas outside brackets.  Neither cut looks at
whether brackets of one kind match.  This is settled by the pieces: each of them is read as a term, so
it holds matched brackets, and cuts elsewhere leave a piece that is no term.
-/

set_option autoImplicit false

namespace NaturalDeduction

variable {sig sig' : Signature} {arity : SymbolKind → String → Nat} {w : List Char} {t : Term}

/-- The characters of a name. -/
structure NameText (w : List Char) : Prop where
  ne_nil : w ≠ []
  chars : ∀ c ∈ w, Text.isBlank c = false ∧ Operator.isLead c = false ∧ c ∉ "()[],=⊤⊥".toList

/-- The texts that can be read as names are those of the grammar. -/
theorem isName_iff_nameText {name : String} : IsName name ↔ NameText name.toList := by
  have hchar : ∀ c, isNameChar c = true ↔
      Text.isBlank c = false ∧ Operator.isLead c = false ∧ c ∉ "()[],=⊤⊥".toList := by
    intro c
    simp only [isNameChar, Bool.not_eq_true', Bool.or_eq_false_iff, List.contains_eq_mem,
      decide_eq_false_iff_not, reservedChars]
    tauto
  rw [isName_iff]
  simp only [hchar]
  constructor
  · rintro ⟨hne, hall⟩
    exact ⟨hne, hall⟩
  · rintro ⟨hne, hall⟩
    exact ⟨hne, hall⟩

/-- The text is the term: a name, which is a constant, or a name and arguments in brackets, which is an
application.  Blanks may stand around the name and behind the arguments. -/
inductive Term.Generated : List Char → Term → Prop
  | name {before after : List Char} {name : String} (hbefore : Text.allBlank before = true)
      (hname : NameText name.toList) (hafter : Text.allBlank after = true) :
      Generated (before ++ (name.toList ++ after)) (.const name)
  | app {before gap after : List Char} {name : String} {args : List (List Char × Term)}
      (b : Bracket) (hbefore : Text.allBlank before = true) (hname : NameText name.toList)
      (hgap : Text.allBlank gap = true) (hafter : Text.allBlank after = true) (hne : args ≠ [])
      (hargs : ∀ arg ∈ args, Generated arg.1 arg.2) :
      Generated (before ++ (applicationText name gap b (args.map Prod.fst) ++ after))
        (.app name (args.map Prod.snd))

/-! ### Texts of the grammar are read -/

/-- A term of the grammar is written where nothing is bound, with the numbers of arguments that it
uses. -/
theorem Term.Generated.written (h : Generated w t)
    (harity : ∀ name count, .symbol .function name count ∈ t.labels → count = arity .function name) :
    Written arity [] false w t := by
  induction h with
  | name hbefore hname hafter =>
    exact .pad hbefore hafter (.const (isName_iff_nameText.2 hname) List.not_mem_nil)
  | @app before gap after name args b hbefore hname hgap hafter hne _ ih =>
    rw [labels_app, List.length_map] at harity
    have hcount := harity name args.length List.mem_cons_self
    refine .pad hbefore hafter (.app b (isName_iff_nameText.2 hname) hgap (by simp) hne hcount ?_)
    intro arg harg
    refine ih arg harg fun name' count hl => harity name' count (List.mem_cons_of_mem _ ?_)
    exact List.mem_flatMap.2 ⟨arg.2, List.mem_map_of_mem harg, hl⟩

/-! ### What is read is a text of the grammar -/

namespace Text

/-- Trimming a text at its end takes off blanks only. -/
theorem exists_trimEnd (text : List Char) :
    ∃ after, allBlank after = true ∧ text = trimEnd text ++ after := by
  refine ⟨(text.reverse.takeWhile isBlank).reverse, ?_, ?_⟩
  · rw [allBlank, List.all_reverse, List.all_takeWhile]
  · rw [trimEnd, ← List.reverse_append, List.takeWhile_append_dropWhile, List.reverse_reverse]

/-- Trimming a text takes off blanks only. -/
theorem exists_trim (text : List Char) :
    ∃ before after, allBlank before = true ∧ allBlank after = true ∧
      text = before ++ (trim text ++ after) := by
  obtain ⟨after, hafter, hend⟩ := exists_trimEnd (trimStart text)
  refine ⟨text.takeWhile isBlank, after, List.all_takeWhile, hafter, ?_⟩
  rw [trim, ← hend, trimStart, List.takeWhile_append_dropWhile]

end Text

/-- A character that opens a bracket is the opening character of this bracket. -/
theorem Bracket.eq_opening {c : Char} {b : Bracket} (h : ofOpening? c = some b) : c = b.opening := by
  unfold ofOpening? at h
  split_ifs at h with hround hsquare
  · exact hround.trans (congrArg opening (Option.some.inj h))
  · exact hsquare.trans (congrArg opening (Option.some.inj h))

/-- A character that closes a bracket is the closing character of this bracket. -/
theorem Bracket.eq_closing {c : Char} {b : Bracket} (h : ofClosing? c = some b) : c = b.closing := by
  unfold ofClosing? at h
  split_ifs at h with hround hsquare
  · exact hround.trans (congrArg closing (Option.some.inj h))
  · exact hsquare.trans (congrArg closing (Option.some.inj h))

namespace Application

/-- Joining undoes splitting. -/
theorem intercalate_splitFrom (separator : Char) (depth : Nat) (text : List Char) :
    [separator].intercalate (splitFrom separator depth text) = text := by
  have hextend : ∀ (c : Char) (pieces : List (List Char)), pieces ≠ [] →
      [separator].intercalate (extendFirst c pieces) = c :: [separator].intercalate pieces := by
    intro c pieces hne
    match pieces, hne with
    | [piece], _ => simp [extendFirst]
    | piece :: next :: pieces, _ => simp [extendFirst, List.intercalate_cons_cons]
  induction text generalizing depth with
  | nil => rfl
  | cons c cs ih =>
    have hother : ∀ depth,
        [separator].intercalate (extendFirst c (splitFrom separator depth cs)) = c :: cs := by
      intro depth
      rw [hextend c _ (splitFrom_ne_nil separator depth cs), ih]
    rw [splitFrom]
    split
    · exact hother _
    · split
      · exact hother _
      · split
        · rename_i hsep
          obtain ⟨rfl, -⟩ : c = separator ∧ depth = 0 := by simpa using hsep
          obtain ⟨piece, pieces, hsplit⟩ :=
            List.exists_cons_of_ne_nil (splitFrom_ne_nil c depth cs)
          have hrest := ih depth
          rw [hsplit] at hrest ⊢
          rw [List.intercalate_cons_cons, hrest]
          rfl
        · exact hother _

/-- What comes before the closing bracket, the bracket and what comes behind it are the text. -/
theorem eq_of_untilClosed {depth : Nat} {text args rest : List Char} {closing : Bracket}
    (h : untilClosed depth text = some (args, closing, rest)) :
    text = args ++ closing.closing :: rest := by
  induction text generalizing depth args with
  | nil => simp [untilClosed] at h
  | cons c cs ih =>
    have hstep : ∀ {depth : Nat},
        (untilClosed depth cs).map (fun found => (c :: found.1, found.2)) =
          some (args, closing, rest) → c :: cs = args ++ closing.closing :: rest := by
      intro depth h
      obtain ⟨⟨inner, closing', rest'⟩, hfound, heq⟩ := Option.map_eq_some_iff.1 h
      simp only [Prod.mk.injEq] at heq
      obtain ⟨rfl, rfl, rfl⟩ := heq
      rw [ih hfound, List.cons_append]
    simp only [untilClosed] at h
    split at h
    · exact hstep h
    · rename_i hclosing
      simp only [Option.some.injEq, Prod.mk.injEq] at h
      obtain ⟨rfl, rfl, rfl⟩ := h
      rw [Bracket.eq_closing hclosing, List.nil_append]
    · exact hstep h
    · exact hstep h

/-- An application is its name, blanks, and its arguments between two brackets of one kind. -/
theorem eq_of_parts? {text name args : List Char} (h : parts? text = .ok (some (name, args))) :
    ∃ gap b, Text.allBlank gap = true ∧
      text = name ++ (gap ++ Bracket.opening b :: (args ++ [b.closing])) := by
  have hsplit := List.takeWhile_append_dropWhile (p := fun c => (Bracket.ofOpening? c).isNone)
    (l := text)
  simp only [parts?] at h
  split at h
  · simp at h
  · rename_i c cs hcs
    split at h
    · simp at h
    · rename_i b hb
      split at h
      · simp at h
      · rename_i args' closing rest huntil
        split at h
        · simp at h
        · rename_i hkind
          split at h
          · simp at h
          · rename_i hrest
            simp only [Except.ok.injEq, Option.some.injEq, Prod.mk.injEq] at h
            obtain ⟨rfl, rfl⟩ := h
            obtain ⟨gap, hgap, hname⟩ := Text.exists_trimEnd
              (text.takeWhile fun c => (Bracket.ofOpening? c).isNone)
            obtain rfl : closing = b := by simpa using hkind
            obtain rfl : rest = [] := by simpa using hrest
            refine ⟨gap, closing, hgap, ?_⟩
            rw [← List.append_assoc, ← hname, ← eq_of_untilClosed huntil, ← Bracket.eq_opening hb,
              ← hcs, hsplit]

end Application

/-- A text that passes the check of names is a name of the grammar. -/
theorem nameText_of_checkName {text : List Char} {name : String} (h : checkName text = .ok name) :
    NameText name.toList ∧ text = name.toList := by
  refine ⟨isName_iff_nameText.1 (isName_of_checkName h), ?_⟩
  unfold checkName at h
  split at h
  · rw [← Except.ok.inj h, String.toList_ofList]
  · simp at h

namespace Term

mutual

/-- What is read as a term is this term by the grammar. -/
theorem read_generated {text : List Char} {t : Term} {sig sig' : Signature}
    (h : read [] text sig = .ok t sig') : Generated text t := by
  obtain ⟨before, after, hbefore, hafter, htext⟩ := Text.exists_trim text
  rw [read_eq] at h
  match hparts : Application.parts? (Text.trim text) with
  | .error e =>
    rw [hparts] at h
    exact absurd h Reader.throw_ne_ok
  | .ok none =>
    simp only [hparts] at h
    obtain ⟨name, mid, hname, h⟩ := Reader.bind_eq_ok.1 h
    obtain ⟨hcheck, rfl⟩ := Reader.ofExcept_eq_ok.1 hname
    rw [if_neg (by simp)] at h
    obtain ⟨u, last, -, h⟩ := Reader.bind_eq_ok.1 h
    obtain ⟨rfl, rfl⟩ := Reader.pure_eq_ok.1 h
    obtain ⟨hchars, htrim⟩ := nameText_of_checkName hcheck
    rw [htext, htrim]
    exact .name hbefore hchars hafter
  | .ok (some (head, args)) =>
    simp only [hparts] at h
    have hlt : Application.weight (Application.split ',' args) < text.length := by
      have := Application.length_parts hparts
      have := Text.length_trim_le text
      rw [Application.weight_split]
      omega
    obtain ⟨name, mid, hname, h⟩ := Reader.bind_eq_ok.1 h
    obtain ⟨hcheck, rfl⟩ := Reader.ofExcept_eq_ok.1 hname
    obtain ⟨ts, mid, hts, h⟩ := Reader.bind_eq_ok.1 h
    obtain ⟨u, last, -, h⟩ := Reader.bind_eq_ok.1 h
    obtain ⟨rfl, rfl⟩ := Reader.pure_eq_ok.1 h
    obtain ⟨hchars, rfl⟩ := nameText_of_checkName hcheck
    obtain ⟨gap, b, hgap, htrim⟩ := Application.eq_of_parts? hparts
    obtain ⟨entries, hpieces, rfl, hentries⟩ := readArgs_generated hts
    have hargs : args = [','].intercalate (entries.map Prod.fst) := by
      rw [hpieces]
      exact (Application.intercalate_splitFrom ',' 0 args).symm
    have hne : entries ≠ [] := by
      rintro rfl
      exact Application.splitFrom_ne_nil ',' 0 args hpieces.symm
    rw [htext, htrim, hargs]
    exact .app b hbefore hchars hgap hafter hne hentries
termination_by text.length

/-- What is read as arguments are terms by the grammar. -/
theorem readArgs_generated {whole : List Char} {pieces : List (List Char)} {ts : List Term}
    {sig sig' : Signature} (h : readArgs [] whole pieces sig = .ok ts sig') :
    ∃ entries : List (List Char × Term), entries.map Prod.fst = pieces ∧
      entries.map Prod.snd = ts ∧ ∀ entry ∈ entries, Generated entry.1 entry.2 := by
  cases pieces with
  | nil =>
    rw [readArgs] at h
    obtain ⟨rfl, rfl⟩ := Reader.pure_eq_ok.1 h
    exact ⟨[], rfl, rfl, by simp⟩
  | cons piece pieces =>
    have hlt : piece.length < Application.weight (piece :: pieces) ∧
        Application.weight pieces < Application.weight (piece :: pieces) := by
      rw [Application.weight_cons]
      omega
    obtain ⟨-, t, us, mid, rfl, ht, hus⟩ := readArgs_cons_eq_ok.1 h
    obtain ⟨entries, rfl, rfl, hentries⟩ := readArgs_generated hus
    exact ⟨(piece, t) :: entries, rfl, rfl,
      List.forall_mem_cons.2 ⟨read_generated ht, hentries⟩⟩
termination_by Application.weight pieces

end

/-! ### Numbers of arguments -/

/-- The symbols of a term are functions. -/
theorem kind_of_mem_labels {kind : SymbolKind} {name : String} {count : Nat}
    (h : .symbol kind name count ∈ t.labels) : kind = .function := by
  obtain ⟨s, -, hs⟩ := List.mem_map.1 h
  cases s <;> simp_all [label]

/-- No function is used with two different numbers of arguments, in the term or in the term and the
signature. -/
structure Consistent (t : Term) (sig : Signature) : Prop where
  inside : ∀ {name m n}, .symbol .function name m ∈ t.labels →
    .symbol .function name n ∈ t.labels → m = n
  outside : ∀ {name m n}, .symbol .function name m ∈ t.labels →
    sig.arity? .function name = some n → m = n

/-- Numbers of arguments that do not contradict each other are those of one assignment. -/
theorem Consistent.exists_arity (h : t.Consistent sig) :
    ∃ arity : SymbolKind → String → Nat, sig.Agrees arity ∧
      ∀ name count, .symbol .function name count ∈ t.labels → count = arity .function name := by
  have hchoice : ∀ kind name, ∃ n, (∀ m, sig.arity? kind name = some m → m = n) ∧
      ∀ m, .symbol kind name m ∈ t.labels → m = n := by
    intro kind name
    by_cases huse : ∃ n, .symbol kind name n ∈ t.labels
    · obtain ⟨n, hn⟩ := huse
      obtain rfl := kind_of_mem_labels hn
      exact ⟨n, fun m hm => (h.outside hn hm).symm, fun m hm => h.inside hm hn⟩
    · refine ⟨(sig.arity? kind name).getD 0, fun m hm => by simp [hm], fun m hm => ?_⟩
      exact absurd ⟨m, hm⟩ huse
  choose arity hsig huses using hchoice
  exact ⟨arity, fun kind name => hsig kind name, huses .function⟩

/-- What has been recorded does not contradict itself. -/
theorem consistent_of_records (h : Records sig sig' t.labels) : t.Consistent sig := by
  have hrecorded : ∀ {name n}, .symbol .function name n ∈ t.labels →
      sig'.arity? .function name = some n := fun hn => (h.known _ hn).2.2
  constructor
  · intro name m n hm hn
    exact Option.some.inj ((hrecorded hm).symm.trans (hrecorded hn))
  · intro name m n hm hn
    exact Option.some.inj ((hrecorded hm).symm.trans (h.grows.arity _ _ _ hn))

/-- A text is read as a term exactly if it is this term by the grammar and its functions are used
consistently.  Its constants and the numbers of arguments of its functions have then been added to the
signature, and nothing else. -/
theorem parse_iff_generated (text : String) (sig : Signature) :
    (∀ t, (∃ sig', parse text sig = .ok t sig') ↔
      Generated text.toList t ∧ t.Consistent sig) ∧
    ∀ t sig', parse text sig = .ok t sig' → Widened sig sig' t.labels := by
  refine ⟨fun t => ⟨?_, ?_⟩, fun t sig' h => ?_⟩
  · rintro ⟨sig', h⟩
    exact ⟨read_generated h, consistent_of_records (read_records h)⟩
  · rintro ⟨hgenerated, hconsistent⟩
    obtain ⟨arity, hsig, huses⟩ := hconsistent.exists_arity
    obtain ⟨sig', hread, -⟩ := (hgenerated.written huses).gives_read sig hsig
    exact ⟨sig', hread⟩
  · have hlearns := (read_learns h).1.congr fun _ => mem_constants_iff
    exact (read_records h).widened hlearns ((augments_read [] text.toList).of_ok h)

/-- Brackets of both kinds and blanks around every part. -/
theorem parse_iff_generated_nested :
    ∃ sig', parse " f ( g[a ] ,b) " {} = .ok (.app "f" [.app "g" [.const "a"], .const "b"]) sig' ∧
      Generated " f ( g[a ] ,b) ".toList (.app "f" [.app "g" [.const "a"], .const "b"]) ∧
      Widened {} sig' [.symbol .function "f" 2, .symbol .function "g" 1, .const "a", .const "b"] := by
  have hread : ((parse " f ( g[a ] ,b) ").outcome {}).1 =
      .ok (.app "f" [.app "g" [.const "a"], .const "b"]) := by decide +kernel
  have hparse := Reader.outcome_eq_ok.1 (Prod.ext hread rfl)
  obtain ⟨hiff, hwidened⟩ := parse_iff_generated " f ( g[a ] ,b) " {}
  exact ⟨_, hparse, ((hiff _).1 ⟨_, hparse⟩).1, by simpa using hwidened _ _ hparse⟩

end Term

end NaturalDeduction
