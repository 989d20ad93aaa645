import NaturalDeduction.Proofs.Reading.Atoms

/-!
# Cutting off one token

For every kind of token there is a lemma that says when it is cut off in front of a text.
-/

set_option autoImplicit false

namespace NaturalDeduction

/-! ### Spellings -/

namespace Operator

variable {op : Operator} {s : String} {text w rest : List Char} {c : Char}

/-- Every spelling is recognized. -/
theorem ofSpelling?_of_mem (h : (s, op) ∈ spellings) : ofSpelling? s.toList = some op := by
  have hall : ∀ entry ∈ spellings, ofSpelling? entry.1.toList = some entry.2 := by decide
  exact hall (s, op) h

/-- Only spellings are recognized. -/
theorem mem_of_ofSpelling? (h : ofSpelling? w = some op) :
    ∃ s, (s, op) ∈ spellings ∧ s.toList = w := by
  obtain ⟨⟨s, op'⟩, hfind, rfl⟩ := Option.map_eq_some_iff.1 h
  exact ⟨s, List.mem_of_find?_eq_some hfind, by simpa using List.find?_some hfind⟩

/-- What is found at the start of a text is a spelling that stands there. -/
theorem spelling_of_scan? (h : scan? text = some (op, w)) :
    ∃ s, (s, op) ∈ spellings ∧ s.toList = w ∧ w <+: text := by
  obtain ⟨n, -, hn⟩ := List.exists_of_findSome?_eq_some h
  obtain ⟨op', hop, heq⟩ := Option.map_eq_some_iff.1 hn
  obtain ⟨rfl, rfl⟩ := Prod.mk.inj heq
  obtain ⟨s, hs, hsw⟩ := mem_of_ofSpelling? hop
  exact ⟨s, hs, hsw, List.take_prefix n text⟩

/-- There is no operator at the start of a text that begins with no spelling. -/
theorem scan?_eq_none (h : ∀ entry ∈ spellings, ¬ entry.1.toList <+: text) : scan? text = none := by
  rw [Option.eq_none_iff_forall_ne_some]
  rintro ⟨op, w⟩ hscan
  obtain ⟨s, hs, rfl, hprefix⟩ := spelling_of_scan? hscan
  exact h _ hs hprefix

/-- A text that begins with no first character of an operator begins with no operator. -/
theorem scan?_of_not_lead (hlead : isLead c = false) (hc : c ≠ '(') : scan? (c :: rest) = none := by
  refine scan?_eq_none fun entry hentry hprefix => ?_
  obtain ⟨d, ds, hds, -⟩ := exists_cons_of_mem hentry
  rw [hds] at hprefix
  obtain ⟨rfl, -⟩ := List.cons_prefix_cons.1 hprefix
  have hhead : (spellings.any fun entry => entry.1.toList.head? == some d) = true :=
    List.any_eq_true.2 ⟨entry, hentry, by simp [hds]⟩
  simp [isLead, hc, hhead] at hlead

/-- A bracket is a bracket unless it begins a quantifier. -/
theorem scan?_opening (hall : ¬ ['A', ')'] <+: rest) (hex : ¬ ['E', ')'] <+: rest) :
    scan? ('(' :: rest) = none := by
  have hspelling : ∀ entry ∈ spellings, entry.1.toList.head? = some '(' →
      entry.1.toList = '(' :: ['A', ')'] ∨ entry.1.toList = '(' :: ['E', ')'] := by decide
  refine scan?_eq_none fun entry hentry hprefix => ?_
  obtain ⟨d, ds, hds, -⟩ := exists_cons_of_mem hentry
  have hd := hprefix
  rw [hds] at hd
  obtain ⟨rfl, -⟩ := List.cons_prefix_cons.1 hd
  rcases hspelling entry hentry (by rw [hds, List.head?_cons]) with h | h
  · exact hall (List.cons_prefix_cons.1 (h ▸ hprefix)).2
  · exact hex (List.cons_prefix_cons.1 (h ▸ hprefix)).2

/-- The text does not make a spelling in front of it longer. -/
def Separate (rest : List Char) : Prop :=
  ∀ c ∈ rest.head?, c ≠ '&' ∧ c ≠ '|'

/-- A text that does not begin like an operator makes no spelling in front of it longer. -/
theorem separate_of_not_lead (h : ∀ c ∈ rest.head?, isLead c = false) : Separate rest := by
  intro c hc
  have hlead := h c hc
  constructor <;> (rintro rfl; exact absurd hlead (by decide))

/-- In a longer spelling a spelling is followed by one of two characters. -/
theorem ofSpelling?_append (h : (s, op) ∈ spellings) (hrest : Separate rest) :
    ofSpelling? (s.toList ++ rest) = none ∨ rest = [] := by
  have hlonger : ∀ entry ∈ spellings, ∀ entry' ∈ spellings,
      entry.1.toList <+: entry'.1.toList →
        (entry'.1.toList.drop entry.1.toList.length).head?.all
          (fun c => c == '&' || c == '|') = true := by decide
  cases hfound : ofSpelling? (s.toList ++ rest) with
  | none => exact Or.inl rfl
  | some op' =>
    obtain ⟨s', hs', heq⟩ := mem_of_ofSpelling? hfound
    have hhead := hlonger _ h _ hs' (heq ▸ List.prefix_append s.toList rest)
    rw [heq, List.drop_left] at hhead
    cases rest with
    | nil => exact Or.inr rfl
    | cons c rest =>
      obtain ⟨hand, hor⟩ := hrest c rfl
      simp [hand, hor] at hhead

/-- A spelling is found where it stands, if the text behind it does not make it longer. -/
theorem scan?_spelling (h : (s, op) ∈ spellings) (hrest : Separate rest) :
    scan? (s.toList ++ rest) = some (op, s.toList) := by
  have hlength : ∀ entry ∈ spellings,
      entry.1.toList.length = 1 ∨ entry.1.toList.length = 2 ∨ entry.1.toList.length = 3 := by decide
  have hshort : ∀ n, Separate (rest.take n) := by
    intro n c hc
    cases n with
    | zero => simp at hc
    | succ n => exact hrest c (by simpa [List.head?_take] using hc)
  generalize hg : (fun n => (ofSpelling? ((s.toList ++ rest).take n)).map
    fun op => (op, (s.toList ++ rest).take n)) = g
  have hfound : g s.toList.length = some (op, s.toList) := by
    simp only [← hg, List.take_left, ofSpelling?_of_mem h, Option.map_some]
  -- With more characters than the spelling has there is none, unless the text ends with it.
  have hmore : ∀ n, s.toList.length ≤ n → g n = none ∨ g n = some (op, s.toList) := by
    intro n hn
    rw [← hg]
    simp only [List.take_append, List.take_of_length_le hn]
    rcases ofSpelling?_append h (hshort (n - s.toList.length)) with hnone | hnil
    · exact Or.inl (by rw [hnone, Option.map_none])
    · exact Or.inr (by rw [hnil, List.append_nil, ofSpelling?_of_mem h, Option.map_some])
  have hscan : scan? (s.toList ++ rest) = [3, 2, 1].findSome? g := by rw [← hg, scan?]
  rw [hscan]
  rcases hlength _ h with hlen | hlen | hlen
  · rw [hlen] at hfound hmore
    rcases hmore 3 (by decide) with h3 | h3 <;> rcases hmore 2 (by decide) with h2 | h2 <;>
      simp [h3, h2, hfound]
  · rw [hlen] at hfound hmore
    rcases hmore 3 (by decide) with h3 | h3 <;> simp [h3, hfound]
  · rw [hlen] at hfound
    simp [hfound]

/-- No bracket counts as a character that begins an operator. -/
theorem isBracket_of_isLead (h : isLead c = true) : isBracket c = false := by
  obtain ⟨hc, ⟨s, op⟩, hmem, hhead⟩ := isLead_iff.1 h
  obtain ⟨d, ds, hds, hd⟩ := head_of_mem (p := fun _ d => d == '(' || !isBracket d) (by decide) hmem
  rw [hds, List.head?_cons, Option.some.injEq] at hhead
  subst hhead
  simpa [hc] using hd

end Operator

/-! ### One token at a time -/

namespace Token

variable {op : Operator} {s : String} {text rest : List Char} {c : Char}

/-- Scanning, said without the proof that it ends. -/
theorem scan_eq (text : List Char) :
    scan text =
      match Text.trimStart text with
      | [] => ([], none)
      | c :: cs =>
        match Operator.scan? (c :: cs) with
        | some (.not, spelling) => followedBy .not (scan (cs.drop (spelling.length - 1)))
        | some (.binary op, spelling) =>
          followedBy (.connective op) (scan (cs.drop (spelling.length - 1)))
        | some (.quantifier q, spelling) =>
          let behind := Text.trimStart (cs.drop (spelling.length - 1))
          let var := behind.takeWhile isVariableChar
          if var.isEmpty then ([], some (.missingVariable q))
          else
            match checkName var with
            | .error e => ([], some e)
            | .ok name => followedBy (.quantifier q name) (scan (behind.dropWhile isVariableChar))
        | none =>
          match Bracket.ofOpening? c, Bracket.ofClosing? c with
          | some bracket, _ => followedBy (.opening bracket) (scan cs)
          | none, some bracket => followedBy (.closing bracket) (scan cs)
          | none, none =>
            if Operator.isLead c then ([], some (.unknownOperator c))
            else
              match operandRest c [] cs with
              | .error e => ([], some e)
              | .ok (taken, rest) =>
                followedBy (.operand (Text.trim (c :: taken))) (scan rest) := by
  rw [scan]
  split
  · rename_i h
    rw [h]
  · rename_i c cs h
    rw [h]
    congr 1
    funext _
    cases Bracket.ofOpening? c with
    | some bracket => rfl
    | none =>
      cases Bracket.ofClosing? c with
      | some bracket => rfl
      | none =>
        refine if_congr Iff.rfl rfl ?_
        split <;> (rename_i hrest; rw [hrest])

/-- Blanks in front of a text do not matter. -/
theorem scan_blanks {blanks : List Char} (h : Text.allBlank blanks = true) (rest : List Char) :
    scan (blanks ++ rest) = scan rest := by
  have htrim : Text.trimStart (blanks ++ rest) = Text.trimStart rest :=
    List.dropWhile_append_of_pos (by simpa [Text.allBlank] using h)
  rw [scan_eq, htrim, ← scan_eq]

/-- The empty text has no tokens. -/
theorem scan_nil : scan [] = ([], none) := by
  rw [scan_eq]
  rfl

/-- A text that begins with no blank is not trimmed. -/
theorem trimStart_cons (hc : Text.isBlank c = false) : Text.trimStart (c :: rest) = c :: rest :=
  List.dropWhile_cons_of_neg (by simp [hc])

/-- The text of a formula goes on with an operator or a closing bracket, after blanks, or ends. -/
def Ends (rest : List Char) : Prop :=
  ∃ blanks rest', rest = blanks ++ rest' ∧ Text.allBlank blanks = true ∧
    ∀ c ∈ rest'.head?, Operator.isLead c = true ∨ ∃ b : Bracket, c = b.closing

/-- A negation sign is a token. -/
theorem scan_not (h : (s, .not) ∈ Operator.spellings) (hrest : Operator.Separate rest) :
    scan (s.toList ++ rest) = followedBy .not (scan rest) := by
  obtain ⟨c, cs, hcs, hc⟩ := Operator.exists_cons_of_mem h
  have hscan := Operator.scan?_spelling h hrest
  rw [hcs, List.cons_append] at hscan ⊢
  rw [scan_eq, trimStart_cons hc]
  simp [hscan]

/-- A connective is a token. -/
theorem scan_connective {op : Connective} (h : (s, .binary op) ∈ Operator.spellings)
    (hrest : Operator.Separate rest) :
    scan (s.toList ++ rest) = followedBy (.connective op) (scan rest) := by
  obtain ⟨c, cs, hcs, hc⟩ := Operator.exists_cons_of_mem h
  have hscan := Operator.scan?_spelling h hrest
  rw [hcs, List.cons_append] at hscan ⊢
  rw [scan_eq, trimStart_cons hc]
  simp [hscan]

/-- All characters of names may stand in the variable of a quantifier. -/
theorem isVariableChar_of_isNameChar (h : isNameChar c = true) : isVariableChar c = true := by
  simp [isVariableChar, isBlank_of_isNameChar h, isBracket_of_isNameChar h, isLead_of_isNameChar h]

/-- Between a quantifier and its variable there may be blanks. -/
theorem scan_quantifier {q : Quantifier} {name : String} {gap : List Char}
    (h : (s, .quantifier q) ∈ Operator.spellings) (hgap : Text.allBlank gap = true)
    (hname : IsName name) (hrest : ∀ c ∈ rest.head?, isVariableChar c = false) :
    scan (s.toList ++ (gap ++ (name.toList ++ rest))) =
      followedBy (.quantifier q name) (scan rest) := by
  obtain ⟨c, cs, hcs, hc⟩ := Operator.exists_cons_of_mem h
  obtain ⟨d, ds, hds, hd⟩ := hname.exists_cons
  have htrim : Text.trimStart (gap ++ (name.toList ++ rest)) = name.toList ++ rest := by
    rw [Text.trimStart, List.dropWhile_append_of_pos (isBlank_of_allBlank hgap), hds]
    exact trimStart_cons (isBlank_of_isNameChar hd)
  have hseparate : Operator.Separate (gap ++ (name.toList ++ rest)) := by
    refine Operator.separate_of_not_lead fun e he => ?_
    cases gap with
    | nil =>
      rw [List.nil_append, hds] at he
      obtain rfl := Option.some.inj he
      exact isLead_of_isNameChar hd
    | cons b gap =>
      obtain rfl := Option.some.inj he
      exact Operator.isLead_of_isBlank (isBlank_of_allBlank hgap _ List.mem_cons_self)
  have hscan := Operator.scan?_spelling h hseparate
  have hvar : ∀ x ∈ name.toList, isVariableChar x = true :=
    fun x hx => isVariableChar_of_isNameChar (hname.isNameChar hx)
  -- the variable goes as far as its characters do
  have htake : (name.toList ++ rest).takeWhile isVariableChar = name.toList := by
    rw [List.takeWhile_append_of_pos hvar]
    cases rest with
    | nil => simp
    | cons e rest => simp [hrest e rfl]
  have hdrop : (name.toList ++ rest).dropWhile isVariableChar = rest := by
    rw [List.dropWhile_append_of_pos hvar]
    cases rest with
    | nil => simp
    | cons e rest => simp [hrest e rfl]
  rw [hcs, List.cons_append] at hscan ⊢
  rw [scan_eq, trimStart_cons hc]
  have hne : name.toList.isEmpty = false := by rw [hds, List.isEmpty_cons]
  simp only [hscan, List.length_cons, Nat.add_sub_cancel, List.drop_left, htrim, htake, hdrop, hne,
    hname.checkName_eq, Bool.false_eq_true, if_false]

/-- An opening bracket that begins no operator is a token. -/
theorem scan_opening {b : Bracket} (h : Operator.scan? (b.opening :: rest) = none) :
    scan (b.opening :: rest) = followedBy (.opening b) (scan rest) := by
  have hb : Text.isBlank b.opening = false := by cases b <;> decide
  rw [scan_eq, trimStart_cons hb]
  simp only [h, b.ofOpening?_opening]

/-- A closing bracket is a token. -/
theorem scan_closing (b : Bracket) :
    scan (b.closing :: rest) = followedBy (.closing b) (scan rest) := by
  have hb : Text.isBlank b.closing = false := by cases b <;> decide
  have hscan : Operator.scan? (b.closing :: rest) = none :=
    Operator.scan?_of_not_lead (by cases b <;> decide) (by cases b <;> decide)
  rw [scan_eq, trimStart_cons hb]
  simp only [hscan, b.ofOpening?_closing, b.ofClosing?_closing]

/-- Where the text of a formula ends, an operand ends, but for blanks. -/
theorem Ends.operandRest_eq (h : Ends rest) (before : Char) :
    ∃ blanks rest', operandRest before [] rest = .ok (blanks, rest') ∧
      Text.allBlank blanks = true ∧ scan rest' = scan rest := by
  obtain ⟨blanks, rest', rfl, hblanks, hend⟩ := h
  have hplain : ∀ c ∈ blanks, isBracket c = false ∧ Operator.isLead c = false :=
    fun c hc => ⟨Operator.isBracket_of_isBlank (isBlank_of_allBlank hblanks c hc),
      Operator.isLead_of_isBlank (isBlank_of_allBlank hblanks c hc)⟩
  have hstop : ∀ before, operandRest before [] rest' = .ok ([], rest') := by
    intro before
    cases rest' with
    | nil => rfl
    | cons c cs =>
      rw [operandRest.eq_def]
      rcases hend c rfl with hlead | ⟨b, rfl⟩
      · have hbracket := isBracket_eq_false_iff.1 (Operator.isBracket_of_isLead hlead)
        simp only [hbracket.1, hbracket.2, if_pos hlead]
      · simp only [b.ofOpening?_closing, b.ofClosing?_closing]
  refine ⟨blanks, rest', ?_, hblanks, (scan_blanks hblanks rest').symm⟩
  rw [operandRest_append hplain, hstop]
  simp [passing, Except.map]

/-- An atomic formula is a token where an operand ends behind it. -/
theorem scan_operand {w : List Char} (hw : AtomText w) (hrest : Ends rest) :
    scan (w ++ rest) = followedBy (.operand w) (scan rest) := by
  obtain ⟨c, cs, rfl, hc, hbracket, hlead⟩ := hw.exists_cons
  obtain ⟨blanks, rest', hoperand, hblanks, hscan⟩ := hrest.operandRest_eq ((c :: cs).getLastD c)
  have hwhole := hw.operandRest_append c rest
  rw [hoperand, List.cons_append, operandRest_other hbracket (Or.inr hlead)] at hwhole
  have htail : operandRest c [] (cs ++ rest) = .ok (cs ++ blanks, rest') := by
    cases hfound : operandRest c [] (cs ++ rest) with
    | error e => simp [hfound, passing, Except.map] at hwhole
    | ok found => simpa [hfound, passing, Except.map, Prod.ext_iff] using hwhole
  have hnot : c ≠ '(' := by
    rintro rfl
    exact absurd hbracket (by decide)
  have htrim : Text.trim (c :: (cs ++ blanks)) = c :: cs := by
    have hpad := trim_pad (u := []) rfl hblanks hw.solid.allBlank_eq_false
    rw [List.nil_append, hw.solid.trim_eq] at hpad
    exact hpad
  obtain ⟨hopening, hclosing⟩ := isBracket_eq_false_iff.1 hbracket
  rw [List.cons_append, scan_eq, trimStart_cons hc]
  simp only [Operator.scan?_of_not_lead hlead hnot, hopening, hclosing, hlead, htail, htrim, hscan,
    Bool.false_eq_true, if_false]

end Token

end NaturalDeduction
