import NaturalDeduction.Proofs.Reading.Names

/-!
# Which names a quantifier binds

Whether a bare name is a variable is decided when its operand is read, from the quantifiers that wait
then.  Which part of the formula a quantifier covers is decided later, when it is committed.  The two
agree if operands and connectives alternate, and the invariant of variables, that they are the names
bound around them, holds of a formula that was read exactly if the two agree on all its bare names.
-/

set_option autoImplicit false

namespace NaturalDeduction

/-! ### The names that wait -/

namespace Token

/-- The variable that a token binds. -/
def binder? : Token → Option String
  | .quantifier _ var => some var
  | _ => none

/-- Whether the token opens a bracket. -/
def isOpening : Token → Bool
  | .opening _ => true
  | _ => false

/-- Whether a connective of the given precedence ends the wait of a token. -/
def yields (precedence : Nat) : Token → Bool
  | .not | .quantifier _ _ => Formula.prefixPrecedence ≤ precedence
  | .connective op => op.precedence ≤ precedence
  | _ => false

/-- The tokens that wait for what follows, last one first, after one more token. -/
def wait (waiting : List Token) : Token → List Token
  | .operand _ => waiting
  | .connective op => .connective op :: waiting.dropWhile (yields op.precedence)
  | .closing _ => (waiting.dropWhile fun token => !token.isOpening).tail
  | token => token :: waiting

/-- For each operand the variables of the quantifiers that wait when it is read. -/
def scopes (waiting : List Token) : List Token → List (List String)
  | [] => []
  | .operand _ :: tokens => waiting.filterMap binder? :: scopes waiting tokens
  | token :: tokens => scopes (wait waiting token) tokens

/-- Operands, or groups in brackets, alternate with connectives; quantifiers stand before operands.
Negations may stand anywhere. -/
def alternate (expected : Bool) : List Token → Bool
  | [] => !expected
  | .not :: tokens => alternate expected tokens
  | .quantifier _ _ :: tokens | .opening _ :: tokens => expected && alternate true tokens
  | .operand _ :: tokens => expected && alternate false tokens
  | .connective _ :: tokens => !expected && alternate true tokens
  | .closing _ :: tokens => !expected && alternate false tokens

end Token

namespace Formula

/-- The atomic formulas of a formula, from left to right. -/
def atoms : Formula → List Formula
  | .neg body | .quant _ _ body => body.atoms
  | .binary _ left right => left.atoms ++ right.atoms
  | f => [f]

/-- The atomic formulas from left to right, each with the variables of the quantifiers that cover
it. -/
def coverings (covering : List String) : Formula → List (Formula × List String)
  | .neg body => body.coverings covering
  | .binary _ left right => left.coverings covering ++ right.coverings covering
  | .quant _ var body => body.coverings (var :: covering)
  | f => [(f, covering)]

/-- Two lists of names agree on the bare names of an atomic formula. -/
def AgreeOn (f : Formula) (names names' : List String) : Prop :=
  ∀ name, name ∈ f.constants ∨ name ∈ f.freeVars → (name ∈ names ↔ name ∈ names')

/-- All atomic formulas have their coverings, from left to right. -/
theorem map_fst_coverings (f : Formula) (covering : List String) :
    (f.coverings covering).map Prod.fst = f.atoms := by
  induction f generalizing covering with
  | neg body ih => exact ih covering
  | binary op left right ihl ihr => rw [coverings, List.map_append, ihl, ihr, atoms]
  | quant q var body ih => exact ih (var :: covering)
  | _ => rfl

/-- A formula is bound if each atomic formula in it is bound by what covers it. -/
theorem boundIn_iff_coverings {f : Formula} {bound : List String} :
    f.BoundIn bound ↔ ∀ atom ∈ f.coverings bound, atom.1.BoundIn atom.2 := by
  induction f generalizing bound with
  | neg body ih => exact ih
  | binary op left right ihl ihr =>
    rw [BoundIn, coverings, List.forall_mem_append, ihl, ihr]
  | quant q var body ih => exact ih
  | _ => simp [coverings]

/-- Atomic formulas have the lowest precedence. -/
theorem precedence_of_mem_atoms {f atom : Formula} (h : atom ∈ f.atoms) :
    atom.precedence = 0 := by
  induction f with
  | neg body ih => exact ih h
  | binary op left right ihl ihr => exact (List.mem_append.1 h).elim ihl ihr
  | quant q var body ih => exact ih h
  | _ =>
    obtain rfl := List.mem_singleton.1 h
    rfl

/-- A formula of the lowest precedence is its only atomic formula. -/
theorem atoms_of_precedence {f : Formula} (h : f.precedence = 0) : f.atoms = [f] := by
  cases f with
  | neg | quant => simp [precedence, prefixPrecedence] at h
  | binary op => cases op <;> simp [precedence, Connective.precedence] at h
  | _ => rfl

/-- In an atomic formula the variables are bound and the constants are not. -/
theorem boundIn_iff_of_precedence {f : Formula} (hatom : f.precedence = 0) {bound : List String} :
    f.BoundIn bound ↔ (∀ x ∈ f.freeVars, x ∈ bound) ∧ ∀ c ∈ f.constants, c ∉ bound := by
  cases f with
  | prop | top | bottom => simp [BoundIn, freeVars]
  | rel name args =>
    simp only [BoundIn, Term.boundIn_iff, freeVars, List.mem_flatMap, mem_constants_rel]
    grind
  | eq left right =>
    simp only [BoundIn, Term.boundIn_iff, freeVars, List.mem_append, mem_constants_eq]
    grind
  | neg | quant => simp [precedence, prefixPrecedence] at hatom
  | binary op => cases op <;> simp [precedence, Connective.precedence] at hatom

/-- If the variables of an atomic formula are the names in scope, they are the names of a covering
exactly if scope and covering agree on its bare names. -/
theorem BoundIn.iff_agreeOn {f : Formula} (hatom : f.precedence = 0) {scope covering : List String}
    (h : f.BoundIn scope) : f.BoundIn covering ↔ f.AgreeOn scope covering := by
  rw [boundIn_iff_of_precedence hatom] at h ⊢
  obtain ⟨hvars, hconstants⟩ := h
  constructor
  · rintro ⟨hvars', hconstants'⟩ name (hname | hname)
    · exact iff_of_false (hconstants name hname) (hconstants' name hname)
    · exact iff_of_true (hvars name hname) (hvars' name hname)
  · intro hagree
    refine ⟨fun x hx => (hagree x (Or.inr hx)).1 (hvars x hx), fun c hc hcovering => ?_⟩
    exact hconstants c hc ((hagree c (Or.inl hc)).2 hcovering)

/-! ### The names that wait when an operand is read -/

/-- The waiting tokens are the operators and brackets on the stack, and their variables are the bound
names. -/
inductive Waits : List Token → List Waiting → List String → Prop
  | nil : Waits [] [] []
  | not {waiting : List Token} {stack : List Waiting} {bound : List String}
      (h : Waits waiting stack bound) : Waits (.not :: waiting) (.operator .not :: stack) bound
  | connective {waiting : List Token} {stack : List Waiting} {bound : List String}
      (op : Connective) (h : Waits waiting stack bound) :
      Waits (.connective op :: waiting) (.operator (.binary op) :: stack) bound
  | quantifier {waiting : List Token} {stack : List Waiting} {bound : List String} (q : Quantifier)
      (var : String) (h : Waits waiting stack bound) :
      Waits (.quantifier q var :: waiting) (.operator (.quantifier q) :: stack) (var :: bound)
  | opening {waiting : List Token} {stack : List Waiting} {bound : List String} (b : Bracket)
      (h : Waits waiting stack bound) : Waits (.opening b :: waiting) (.bracket b :: stack) bound

variable {waiting : List Token} {stack stack' : List Waiting} {bound : List String}
  {done done' : Finished}

/-- The atomic formulas of what has been finished, from left to right. -/
def Finished.atoms (done : Finished) : List Formula :=
  done.formulas.reverse.flatMap Formula.atoms

/-- The bound names are those of the waiting quantifiers. -/
theorem Waits.bound_eq (h : Waits waiting stack bound) :
    bound = waiting.filterMap Token.binder? := by
  induction h with
  | nil => rfl
  | not _ ih | connective _ _ ih | opening _ _ ih => exact ih
  | quantifier q var _ ih => exact congrArg (var :: ·) ih

/-- Committing an operator keeps the atomic formulas in their order. -/
theorem Commits.atoms_eq {op : Operator} (h : Commits op done done') : done'.atoms = done.atoms := by
  cases h <;> simp [Finished.atoms, atoms]

/-- Committing operators keeps the atomic formulas in their order. -/
theorem Settles.atoms_eq {level : Nat} (h : Settles level stack done stack' done') :
    done'.atoms = done.atoms := by
  induction h with
  | refl => rfl
  | commit _ hcommit _ ih => rw [ih, (Finished.commits hcommit).atoms_eq]

/-- A committed operator no longer waits. -/
theorem Waits.commit {op : Operator} (h : Waits waiting (.operator op :: stack) done.bound)
    (hcommits : Commits op done done') :
    ∃ token rest, waiting = token :: rest ∧ Waits rest stack done'.bound ∧
      ∀ level, token.yields level = decide (op.priority ≤ level) := by
  cases hcommits with
  | not =>
    cases h with
    | not h => exact ⟨_, _, rfl, h, fun _ => rfl⟩
  | binary =>
    cases h with
    | connective op h => exact ⟨_, _, rfl, h, fun _ => rfl⟩
  | quantifier =>
    cases h with
    | quantifier q var h => exact ⟨_, _, rfl, h, fun _ => rfl⟩

/-- Tokens wait on if the operator on top of the stack is kept. -/
theorem Waits.dropWhile_eq (h : Waits waiting stack bound) {level : Nat}
    (hstop : ∀ op rest, stack = .operator op :: rest → level < op.priority) :
    waiting.dropWhile (Token.yields level) = waiting := by
  cases h with
  | nil | opening => rfl
  | not | connective | quantifier =>
    exact List.dropWhile_cons_of_neg
      (by simpa [Token.yields, Operator.priority] using hstop _ _ rfl)

/-- The operators that are committed are the first that wait. -/
theorem Waits.settle {level : Nat} (h : Waits waiting stack done.bound)
    (hsettles : Settles level stack done stack' done') :
    ∃ dropped rest, waiting = dropped ++ rest ∧ Waits rest stack' done'.bound ∧
      ∀ token ∈ dropped, token.yields level = true := by
  induction hsettles generalizing waiting with
  | refl => exact ⟨[], waiting, rfl, h, by simp⟩
  | commit hle hcommit _ ih =>
    obtain ⟨token, rest, rfl, hwaits, hyields⟩ := h.commit (Finished.commits hcommit)
    obtain ⟨dropped, rest', rfl, hwaits', hdropped⟩ := ih hwaits
    refine ⟨token :: dropped, rest', rfl, hwaits', List.forall_mem_cons.2 ⟨?_, hdropped⟩⟩
    rw [hyields, decide_eq_true hle]

/-- Before a connective, the tokens whose wait it ends are those whose operators are committed. -/
theorem Waits.connective_of_ok {level : Nat} (h : Waits waiting stack done.bound)
    (hcommit : commitTighter level stack done = .ok (stack', done')) :
    Waits (waiting.dropWhile (Token.yields level)) stack' done'.bound := by
  obtain ⟨hsettles, hstop⟩ := settles_of_commitTighter hcommit
  obtain ⟨dropped, rest, rfl, hwaits, hdropped⟩ := h.settle hsettles
  rw [List.dropWhile_append_of_pos hdropped, hwaits.dropWhile_eq hstop]
  exact hwaits

/-- At a closing bracket, the tokens back to its opening bracket wait no longer. -/
theorem Waits.closing_of_ok {b : Bracket} (h : Waits waiting stack done.bound)
    (hclose : closeGroup b stack done = .ok (stack', done')) :
    ∃ outer, waiting.dropWhile (fun token => !token.isOpening) = .opening b :: outer ∧
      Waits outer stack' done'.bound := by
  obtain ⟨level, hsettles⟩ := settles_of_closeGroup hclose
  obtain ⟨dropped, rest, rfl, hwaits, hdropped⟩ := h.settle hsettles
  have hnot : ∀ token ∈ dropped, (!token.isOpening) = true := by
    intro token htoken
    have hyields := hdropped token htoken
    cases token <;> simp_all [Token.yields, Token.isOpening]
  rw [List.dropWhile_append_of_pos hnot]
  cases hwaits with
  | opening b hwaits => exact ⟨_, rfl, hwaits⟩

/-- The state of the machine after operands with these scopes, when these tokens wait. -/
structure Tracks (waiting : List Token) (scopes : List (List String)) (stack : List Waiting)
    (done : Finished) : Prop where
  waits : Waits waiting stack done.bound
  atoms : List.Forall₂ (fun scope atom => BoundIn scope atom) scopes done.atoms

variable {scopes : List (List String)}

/-- Committing the tighter operators before a connective stays on track. -/
theorem Tracks.connective {op : Connective} (h : Tracks waiting scopes stack done)
    (hcommit : commitTighter op.precedence stack done = .ok (stack', done')) :
    Tracks (waiting.dropWhile (Token.yields op.precedence)) scopes stack' done' :=
  ⟨h.waits.connective_of_ok hcommit,
    (settles_of_commitTighter hcommit).1.atoms_eq ▸ h.atoms⟩

/-- Closing a group stays on track. -/
theorem Tracks.closing {b : Bracket} (h : Tracks waiting scopes stack done)
    (hclose : closeGroup b stack done = .ok (stack', done')) :
    Tracks (waiting.dropWhile fun token => !token.isOpening).tail scopes stack' done' := by
  obtain ⟨level, hsettles⟩ := settles_of_closeGroup hclose
  obtain ⟨outer, houter, hwaits⟩ := h.waits.closing_of_ok hclose
  rw [houter]
  exact ⟨hwaits, hsettles.atoms_eq ▸ h.atoms⟩

/-- One token.  An operand is read with the names that wait. -/
theorem Tracks.readToken {token : Token} {sig sig' : Signature}
    (h : Tracks waiting scopes stack done)
    (hread : Formula.readToken stack done token sig = .ok (stack', done') sig') :
    Tracks (Token.wait waiting token) (scopes ++ Token.scopes waiting [token]) stack' done' := by
  cases token with
  | not =>
    obtain ⟨heq, rfl⟩ := Reader.pure_eq_ok.1 hread
    obtain ⟨rfl, rfl⟩ := Prod.mk.inj heq
    exact ⟨.not h.waits, by simpa [Token.scopes] using h.atoms⟩
  | opening b =>
    obtain ⟨heq, rfl⟩ := Reader.pure_eq_ok.1 hread
    obtain ⟨rfl, rfl⟩ := Prod.mk.inj heq
    exact ⟨.opening b h.waits, by simpa [Token.scopes] using h.atoms⟩
  | quantifier q var =>
    obtain ⟨heq, rfl⟩ := Reader.pure_eq_ok.1 hread
    obtain ⟨rfl, rfl⟩ := Prod.mk.inj heq
    exact ⟨.quantifier q var h.waits, by simpa [Token.scopes, Finished.atoms] using h.atoms⟩
  | connective op =>
    obtain ⟨⟨mid, done₁⟩, last, hfirst, hread⟩ := Reader.bind_eq_ok.1 hread
    obtain ⟨hcommit, rfl⟩ := Reader.ofExcept_eq_ok.1 hfirst
    obtain ⟨heq, rfl⟩ := Reader.pure_eq_ok.1 hread
    obtain ⟨rfl, rfl⟩ := Prod.mk.inj heq
    obtain ⟨hwaits, hatoms⟩ := h.connective hcommit
    exact ⟨.connective op hwaits, by simpa [Token.scopes] using hatoms⟩
  | closing b =>
    obtain ⟨hclose, rfl⟩ := Reader.ofExcept_eq_ok.1 hread
    simpa [Token.scopes, Token.wait] using h.closing hclose
  | operand text =>
    obtain ⟨f, mid, hf, hread⟩ := Reader.bind_eq_ok.1 hread
    obtain ⟨heq, rfl⟩ := Reader.pure_eq_ok.1 hread
    obtain ⟨rfl, rfl⟩ := Prod.mk.inj heq
    obtain ⟨-, hatom, hbound⟩ := readAtom_learns hf
    refine ⟨h.waits, ?_⟩
    rw [Finished.atoms, List.reverse_cons, List.flatMap_append, List.flatMap_singleton,
      atoms_of_precedence hatom, Token.scopes, ← h.waits.bound_eq]
    exact List.rel_append h.atoms (.cons hbound .nil)

/-- All tokens of a text. -/
theorem Tracks.readTokens {tokens : List Token} {sig sig' : Signature}
    (h : Tracks waiting scopes stack done)
    (hread : Formula.readTokens stack done tokens sig = .ok (stack', done') sig') :
    ∃ waiting', Tracks waiting' (scopes ++ Token.scopes waiting tokens) stack' done' := by
  induction tokens generalizing waiting scopes stack done sig with
  | nil =>
    obtain ⟨heq, rfl⟩ := Reader.pure_eq_ok.1 hread
    obtain ⟨rfl, rfl⟩ := Prod.mk.inj heq
    exact ⟨waiting, by simpa [Token.scopes] using h⟩
  | cons token tokens ih =>
    obtain ⟨⟨mid, done₁⟩, last, htoken, hread⟩ := Reader.bind_eq_ok.1 hread
    obtain ⟨waiting', htracks⟩ := ih (h.readToken htoken) hread
    have hscopes : Token.scopes waiting (token :: tokens) =
        Token.scopes waiting [token] ++ Token.scopes (Token.wait waiting token) tokens := by
      cases token <;> rfl
    rw [List.append_assoc, ← hscopes] at htracks
    exact ⟨waiting', htracks⟩

/-- When a formula is read, each of its atomic formulas has the names in the scope of its operand as
variables. -/
theorem boundIn_scopes_of_parse {text : String} {f : Formula} {sig sig' : Signature}
    (h : parse text sig = .ok f sig') :
    List.Forall₂ (fun scope atom => BoundIn scope atom)
      (Token.scopes [] (Token.scan text.toList).1) f.atoms := by
  obtain ⟨stack, done, done', level, htokens, hsettles, hresult⟩ := settles_of_parse h
  have hstart : Tracks [] [] [] {} := ⟨.nil, .nil⟩
  obtain ⟨waiting, htracks⟩ := hstart.readTokens htokens
  have hatoms := hsettles.atoms_eq ▸ htracks.atoms
  rw [Finished.atoms, hresult] at hatoms
  simpa using hatoms

/-! ### Operands in their places -/

/-- Every operator on the stack has its left operand, which has the names bound there as variables;
where no operand is expected, there is one more. -/
inductive Placed : Bool → List Waiting → List String → List Formula → Prop
  | nil : Placed true [] [] []
  | not {stack : List Waiting} {bound : List String} {fs : List Formula}
      (h : Placed true stack bound fs) : Placed true (.operator .not :: stack) bound fs
  | quantifier {stack : List Waiting} {bound : List String} {fs : List Formula} (q : Quantifier)
      (var : String) (h : Placed true stack bound fs) :
      Placed true (.operator (.quantifier q) :: stack) (var :: bound) fs
  | bracket {stack : List Waiting} {bound : List String} {fs : List Formula} (b : Bracket)
      (h : Placed true stack bound fs) : Placed true (.bracket b :: stack) bound fs
  | connective {stack : List Waiting} {bound : List String} {fs : List Formula} (op : Connective)
      (h : Placed false stack bound fs) : Placed true (.operator (.binary op) :: stack) bound fs
  | operand {stack : List Waiting} {bound : List String} {fs : List Formula} {f : Formula}
      (hf : f.BoundIn bound) (h : Placed true stack bound fs) : Placed false stack bound (f :: fs)

/-- An operator covers the operand behind it. -/
theorem Placed.commit {op : Operator}
    (h : Placed false (.operator op :: stack) done.bound done.formulas)
    (hcommits : Commits op done done') : Placed false stack done'.bound done'.formulas := by
  cases hcommits with
  | not f fs bound =>
    obtain - | - | - | - | - | ⟨hf, h⟩ := h
    cases h with
    | not h => exact .operand hf h
  | binary op left right fs bound =>
    obtain - | - | - | - | - | ⟨hright, h⟩ := h
    cases h with
    | connective op h =>
      cases h with
      | operand hleft h => exact .operand ⟨hleft, hright⟩ h
  | quantifier q var body fs bound =>
    obtain - | - | - | - | - | ⟨hbody, h⟩ := h
    cases h with
    | quantifier q var h => exact .operand hbody h

/-- Committing operators leaves every operator its left operand. -/
theorem Placed.settle {level : Nat} (h : Placed false stack done.bound done.formulas)
    (hsettles : Settles level stack done stack' done') :
    Placed false stack' done'.bound done'.formulas := by
  induction hsettles with
  | refl => exact h
  | commit _ hcommit _ ih => exact ih (h.commit (Finished.commits hcommit))

/-- A negation can stand before its operand or behind it. -/
theorem Placed.negate {expected : Bool} {fs : List Formula} (h : Placed expected stack bound fs) :
    Placed expected (.operator .not :: stack) bound fs := by
  cases expected with
  | true => exact .not h
  | false =>
    cases h with
    | operand hf h => exact .operand hf (.not h)

/-- One more token leaves every operator its left operand, if operands and connectives alternate. -/
theorem Placed.readToken {expected : Bool} {token : Token} {tokens : List Token}
    {sig sig' : Signature} (h : Placed expected stack done.bound done.formulas)
    (halternate : Token.alternate expected (token :: tokens) = true)
    (hread : Formula.readToken stack done token sig = .ok (stack', done') sig') :
    ∃ expected', Placed expected' stack' done'.bound done'.formulas ∧
      Token.alternate expected' tokens = true := by
  cases token with
  | not =>
    obtain ⟨heq, rfl⟩ := Reader.pure_eq_ok.1 hread
    obtain ⟨rfl, rfl⟩ := Prod.mk.inj heq
    exact ⟨expected, h.negate, halternate⟩
  | opening b =>
    obtain ⟨rfl, halternate⟩ := Bool.and_eq_true_iff.1 halternate
    obtain ⟨heq, rfl⟩ := Reader.pure_eq_ok.1 hread
    obtain ⟨rfl, rfl⟩ := Prod.mk.inj heq
    exact ⟨true, .bracket b h, halternate⟩
  | quantifier q var =>
    obtain ⟨rfl, halternate⟩ := Bool.and_eq_true_iff.1 halternate
    obtain ⟨heq, rfl⟩ := Reader.pure_eq_ok.1 hread
    obtain ⟨rfl, rfl⟩ := Prod.mk.inj heq
    exact ⟨true, .quantifier q var h, halternate⟩
  | connective op =>
    obtain ⟨hexpected, halternate⟩ := Bool.and_eq_true_iff.1 halternate
    obtain rfl : expected = false := by simpa using hexpected
    obtain ⟨⟨mid, done₁⟩, last, hfirst, hread⟩ := Reader.bind_eq_ok.1 hread
    obtain ⟨hcommit, rfl⟩ := Reader.ofExcept_eq_ok.1 hfirst
    obtain ⟨heq, rfl⟩ := Reader.pure_eq_ok.1 hread
    obtain ⟨rfl, rfl⟩ := Prod.mk.inj heq
    exact ⟨true, .connective op (h.settle (settles_of_commitTighter hcommit).1), halternate⟩
  | closing b =>
    obtain ⟨hexpected, halternate⟩ := Bool.and_eq_true_iff.1 halternate
    obtain rfl : expected = false := by simpa using hexpected
    obtain ⟨hclose, rfl⟩ := Reader.ofExcept_eq_ok.1 hread
    obtain ⟨level, hsettles⟩ := settles_of_closeGroup hclose
    have hplaced := h.settle hsettles
    -- below the operand of the group there can only be its bracket
    generalize done'.bound = bound, done'.formulas = formulas at hplaced ⊢
    cases hplaced with
    | operand hf hplaced =>
      cases hplaced with
      | bracket b hplaced => exact ⟨false, .operand hf hplaced, halternate⟩
  | operand text =>
    obtain ⟨rfl, halternate⟩ := Bool.and_eq_true_iff.1 halternate
    obtain ⟨f, mid, hf, hread⟩ := Reader.bind_eq_ok.1 hread
    obtain ⟨heq, rfl⟩ := Reader.pure_eq_ok.1 hread
    obtain ⟨rfl, rfl⟩ := Prod.mk.inj heq
    exact ⟨false, .operand (readAtom_learns hf).2.2 h, halternate⟩

/-- At the end of tokens that alternate, no operand is expected and every operator has its left
operand. -/
theorem Placed.readTokens {expected : Bool} {tokens : List Token} {sig sig' : Signature}
    (h : Placed expected stack done.bound done.formulas)
    (halternate : Token.alternate expected tokens = true)
    (hread : Formula.readTokens stack done tokens sig = .ok (stack', done') sig') :
    Placed false stack' done'.bound done'.formulas := by
  induction tokens generalizing expected stack done sig with
  | nil =>
    obtain ⟨heq, rfl⟩ := Reader.pure_eq_ok.1 hread
    obtain ⟨rfl, rfl⟩ := Prod.mk.inj heq
    obtain rfl : expected = false := by simpa [Token.alternate] using halternate
    exact h
  | cons token tokens ih =>
    obtain ⟨⟨mid, done₁⟩, last, htoken, hread⟩ := Reader.bind_eq_ok.1 hread
    obtain ⟨expected', hplaced, halternate'⟩ := h.readToken halternate htoken
    exact ih hplaced halternate' hread

/-- If operands and connectives alternate, the variables are the names that quantifiers around them
bind. -/
theorem boundIn_of_alternate {text : String} {f : Formula} {sig sig' : Signature}
    (h : parse text sig = .ok f sig')
    (halternate : Token.alternate true (Token.scan text.toList).1 = true) : f.BoundIn [] := by
  obtain ⟨stack, done, done', level, htokens, hsettles, hresult⟩ := settles_of_parse h
  have hstart : Placed true [] ({} : Finished).bound ({} : Finished).formulas := .nil
  have hplaced := (hstart.readTokens halternate htokens).settle hsettles
  rw [hresult] at hplaced
  generalize done'.bound = bound at hplaced
  cases hplaced with
  | operand hf hplaced =>
    cases hplaced with
    | nil => exact hf

/-! ### The invariant of variables -/

/-- A property of all elements of a list can be checked along a list that is related to it. -/
theorem forall_mem_iff_forall₂ {α β : Type} {R S : α → β → Prop} {Q : β → Prop} {as : List α}
    {bs : List β} (h : List.Forall₂ R as bs)
    (hiff : ∀ a, ∀ b ∈ bs, R a b → (Q b ↔ S a b)) :
    (∀ b ∈ bs, Q b) ↔ List.Forall₂ S as bs := by
  induction h with
  | nil => simp
  | @cons a b as bs hab _ ih =>
    rw [List.forall_mem_cons, List.forall₂_cons, hiff a b List.mem_cons_self hab,
      ih fun a b hb => hiff a b (List.mem_cons_of_mem _ hb)]

/-- In a formula that was read, the variables are the names that quantifiers around them bind exactly
if, for each operand, the quantifiers that waited when it was read and the quantifiers that cover it
agree on its bare names; and so they do if operands and connectives alternate. -/
theorem parse_boundIn_iff {text : String} {f : Formula} {sig sig' : Signature}
    (h : parse text sig = .ok f sig') :
    (f.BoundIn [] ↔
      List.Forall₂ (fun scope atom => atom.1.AgreeOn scope atom.2)
        (Token.scopes [] (Token.scan text.toList).1) (f.coverings [])) ∧
    (Token.alternate true (Token.scan text.toList).1 = true → f.BoundIn []) := by
  refine ⟨?_, boundIn_of_alternate h⟩
  have hscopes := boundIn_scopes_of_parse h
  rw [← map_fst_coverings f [], List.forall₂_map_right_iff] at hscopes
  rw [boundIn_iff_coverings]
  refine forall_mem_iff_forall₂ hscopes fun scope atom hatom hbound => ?_
  have hmem : atom.1 ∈ f.atoms := map_fst_coverings f [] ▸ List.mem_map_of_mem hatom
  exact hbound.iff_agreeOn (precedence_of_mem_atoms hmem)

/-- A quantifier behind the formula it covers; the operands do not alternate, and yet each bare name
is what it should be. -/
theorem parse_boundIn_iff_trailing :
    ∃ f sig, parse "P(x) ∀y" {} = .ok f sig ∧
      Token.alternate true (Token.scan "P(x) ∀y".toList).1 = false ∧
      List.Forall₂ (fun scope atom => atom.1.AgreeOn scope atom.2)
        (Token.scopes [] (Token.scan "P(x) ∀y".toList).1) (f.coverings []) := by
  have hread : (parse "P(x) ∀y").outcome {} = (.ok (.quant .all "y" (.rel "P" [.const "x"])),
      (({} : Signature).addConstant "x").setArity .relation "P" 1) := by decide +kernel
  have hparse := Reader.outcome_eq_ok.1 hread
  exact ⟨_, _, hparse, by decide +kernel, (parse_boundIn_iff hparse).1.1 (by decide +kernel)⟩

/-- A variable that no quantifier binds, and a constant under a quantifier that binds its name, can
both be read from texts with misplaced operands. -/
theorem parse_misplaced_operand :
    (∃ sig, parse "& ∀x P(x) (Q)" {} =
      .ok (.binary .and (.rel "P" [.var "x"]) (.quant .all "x" (.prop "Q"))) sig) ∧
    ¬ (Formula.binary .and (.rel "P" [.var "x"]) (.quant .all "x" (.prop "Q"))).BoundIn [] ∧
    (∃ sig, parse "P(x) ∀x" {} = .ok (.quant .all "x" (.rel "P" [.const "x"])) sig) ∧
    ¬ (Formula.quant .all "x" (.rel "P" [.const "x"])).BoundIn [] := by
  have hfree : (parse "& ∀x P(x) (Q)").outcome {} =
      (.ok (.binary .and (.rel "P" [.var "x"]) (.quant .all "x" (.prop "Q"))),
        ({} : Signature).setArity .relation "P" 1) := by decide +kernel
  have hcaptured : (parse "P(x) ∀x").outcome {} = (.ok (.quant .all "x" (.rel "P" [.const "x"])),
      (({} : Signature).addConstant "x").setArity .relation "P" 1) := by decide +kernel
  exact ⟨⟨_, Reader.outcome_eq_ok.1 hfree⟩, by decide +kernel,
    ⟨_, Reader.outcome_eq_ok.1 hcaptured⟩, by decide +kernel⟩

end Formula

end NaturalDeduction
