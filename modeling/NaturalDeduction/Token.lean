import NaturalDeduction.Application

/-!
# The tokens of a formula

`Token.scan` cuts the text of a formula into operators, quantifiers with the variables they bind,
brackets and operands.  An operand is the text of one atomic formula, such as `P(a, f(b))` or
`a = b`; brackets that directly follow a name belong to the operand.

Scanning stops at the first place where no token can be cut.  Its result is the tokens before that
place together with the error found there, if any.
-/

set_option autoImplicit false

namespace NaturalDeduction

/-- A part of a formula's text. -/
inductive Token where
  /-- A sign of negation. -/
  | not
  /-- A binary connective. -/
  | connective (op : Connective)
  /-- A quantifier with the variable it binds. -/
  | quantifier (q : Quantifier) (var : String)
  /-- A bracket that opens a group. -/
  | opening (bracket : Bracket)
  /-- A bracket that closes a group. -/
  | closing (bracket : Bracket)
  /-- The text of an atomic formula. -/
  | operand (text : List Char)
deriving DecidableEq

namespace Token

/-- Whether a character can belong to the token behind a quantifier. -/
def isVariableChar (c : Char) : Bool :=
  !(Text.isBlank c || isBracket c || Operator.isLead c)

/-- Whether a bracket after the character opens a list of arguments. -/
def opensArguments (before : Char) : Bool :=
  !(Text.isBlank before || before == '=' || before == ',')

/-- Splits off the rest of an operand.  `before` is the character in front of the text, and
`expected` holds the brackets that have to be closed, innermost first. -/
def operandRest (before : Char) (expected : List Bracket) :
    List Char → Except ParseError (List Char × List Char)
  | [] =>
    match expected with
    | [] => .ok ([], [])
    | bracket :: _ => .error (.unmatchedBracket bracket.opening)
  | c :: cs =>
    let continueWith (expected : List Bracket) : Except ParseError (List Char × List Char) :=
      (operandRest c expected cs).map fun (taken, rest) => (c :: taken, rest)
    match Bracket.ofOpening? c, Bracket.ofClosing? c, expected with
    | some bracket, _, [] =>
      if opensArguments before then continueWith [bracket] else .ok ([], c :: cs)
    | some bracket, _, expected => continueWith (bracket :: expected)
    | none, some _, [] => .ok ([], c :: cs)
    | none, some bracket, top :: outer =>
      if bracket = top then continueWith outer else .error (.mismatchedBracket top bracket)
    | none, none, [] => if Operator.isLead c then .ok ([], c :: cs) else continueWith []
    | none, none, expected => continueWith expected

/-- What is left behind an operand is no longer than the text it was taken from. -/
theorem length_operandRest_le {before : Char} {expected : List Bracket}
    {text taken rest : List Char} (h : operandRest before expected text = .ok (taken, rest)) :
    rest.length ≤ text.length := by
  induction text generalizing before expected taken with
  | nil =>
    simp only [operandRest] at h
    split at h
    · simp only [Except.ok.injEq, Prod.mk.injEq] at h
      exact Nat.le_of_eq (congrArg List.length h.2.symm)
    · cases h
  | cons c cs ih =>
    have hstop : ∀ {taken' : List Char},
        (Except.ok ([], c :: cs) : Except ParseError _) = .ok (taken', rest) →
          rest.length ≤ (c :: cs).length := by
      intro taken' h
      simp only [Except.ok.injEq, Prod.mk.injEq] at h
      exact Nat.le_of_eq (congrArg List.length h.2.symm)
    -- the operand goes on
    have hgo : ∀ {expected : List Bracket},
        (operandRest c expected cs).map (fun (taken, rest) => (c :: taken, rest)) =
          .ok (taken, rest) → rest.length ≤ (c :: cs).length := by
      intro expected h
      cases hrest : operandRest c expected cs with
      | error e => simp [hrest, Except.map] at h
      | ok found =>
        obtain ⟨taken', rest'⟩ := found
        simp only [hrest, Except.map, Except.ok.injEq, Prod.mk.injEq] at h
        obtain ⟨-, rfl⟩ := h
        exact Nat.le_succ_of_le (ih hrest)
    simp only [operandRest] at h
    split at h
    · split at h
      · exact hgo h
      · exact hstop h
    · exact hgo h
    · exact hstop h
    · split at h
      · exact hgo h
      · cases h
    · split at h
      · exact hstop h
      · exact hgo h
    · exact hgo h

/-- Puts a token in front of a scanned text. -/
def followedBy (token : Token) (scanned : List Token × Option ParseError) :
    List Token × Option ParseError :=
  (token :: scanned.1, scanned.2)

/-- The tokens of a text up to the first error, and that error. -/
def scan (text : List Char) : List Token × Option ParseError :=
  match _htext : Text.trimStart text with
  | [] => ([], none)
  | c :: cs =>
    match Operator.scan? (c :: cs) with
    | some (.not, spelling) => followedBy .not (scan (cs.drop (spelling.length - 1)))
    | some (.binary op, spelling) =>
      followedBy (.connective op) (scan (cs.drop (spelling.length - 1)))
    | some (.quantifier q, spelling) =>
      let behind := Text.trimStart (cs.drop (spelling.length - 1))
      let var := behind.takeWhile isVariableChar
      if var.isEmpty then ([], some (.missingVariable q))
      else
        match checkName var with
        | .error e => ([], some e)
        | .ok name => followedBy (.quantifier q name) (scan (behind.dropWhile isVariableChar))
    | none =>
      match Bracket.ofOpening? c, Bracket.ofClosing? c with
      | some bracket, _ => followedBy (.opening bracket) (scan cs)
      | none, some bracket => followedBy (.closing bracket) (scan cs)
      | none, none =>
        if Operator.isLead c then ([], some (.unknownOperator c))
        else
          match _hrest : operandRest c [] cs with
          | .error e => ([], some e)
          | .ok (taken, rest) => followedBy (.operand (Text.trim (c :: taken))) (scan rest)
termination_by text.length
decreasing_by
  all_goals
    have hlength := Text.length_trimStart_le text
    rw [_htext, List.length_cons] at hlength
  · rw [List.length_drop]; omega
  · rw [List.length_drop]; omega
  · have hbehind := Text.length_trimStart_le (cs.drop (spelling.length - 1))
    have hdrop := (List.dropWhile_suffix (l := Text.trimStart (cs.drop (spelling.length - 1)))
      isVariableChar).length_le
    rw [List.length_drop] at hbehind
    omega
  · omega
  · omega
  · have := length_operandRest_le _hrest
    omega

end Token
end NaturalDeduction
