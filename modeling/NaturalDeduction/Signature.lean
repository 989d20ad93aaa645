import NaturalDeduction.ParseError

/-!
# Signatures

A signature is what has been learnt about names: which constants there are, how many arguments each
relation and each function takes, and which constants were introduced by the proof itself.  The
latter are the Skolem constants `c0`, `c1`, ...; each is new when it is introduced.

The index of the next Skolem constant is a number without bound.  Where such an index has 32 bits, what
is said here holds as long as the index stays below `2 ^ 32`; that many Skolem constants are assumed
never to be introduced.
-/

set_option autoImplicit false

namespace NaturalDeduction

/-- What is known about names. -/
structure Signature where
  /-- The constants. -/
  constants : NameSet := ∅
  /-- The number of arguments of each relation. -/
  relations : NameMap Nat := ∅
  /-- The number of arguments of each function. -/
  functions : NameMap Nat := ∅
  /-- The constants introduced by the proof. -/
  skolems : NameSet := ∅
  /-- Where the search for the next Skolem constant begins; assumed to stay below `2 ^ 32`. -/
  skolemNext : Nat := 0
deriving DecidableEq

namespace Signature

instance : Inhabited Signature := ⟨{}⟩

/-- The signature with one more constant. -/
def addConstant (sig : Signature) (name : String) : Signature :=
  { sig with constants := sig.constants.add name }

/-- The number of arguments recorded for a symbol. -/
def arity? (sig : Signature) (kind : SymbolKind) (name : String) : Option Nat :=
  match kind with
  | .relation => sig.relations.get? name
  | .function => sig.functions.get? name

/-- Writes down the number of arguments of a symbol. -/
def setArity (sig : Signature) (kind : SymbolKind) (name : String) (count : Nat) : Signature :=
  match kind with
  | .relation => { sig with relations := sig.relations.insert name count }
  | .function => { sig with functions := sig.functions.insert name count }

/-- Records the number of arguments on the first use of a symbol; later uses must agree with it. -/
def recordArity (sig : Signature) (kind : SymbolKind) (name : String) (found : Nat) :
    Except ParseError Signature :=
  match sig.arity? kind name with
  | some expected =>
    if expected = found then .ok sig
    else .error (.arityConflict kind name expected found)
  | none => .ok (sig.setArity kind name found)

/-- The Skolem constant with a given index. -/
def skolemName (index : Nat) : String :=
  "c" ++ index.repr

/-- The first index from `index` on, within `bound` steps, whose Skolem constant is not in the
set. -/
def firstUnused (constants : NameSet) : (bound index : Nat) → Nat
  | 0, index => index
  | bound + 1, index =>
    if skolemName index ∈ constants then firstUnused constants bound (index + 1) else index

/-- The index of the next Skolem constant: the least one, from `skolemNext` on, whose name is not
in use.  One of the first `n + 1` indices is free when there are `n` constants. -/
def nextIndex (sig : Signature) : Nat :=
  firstUnused sig.constants sig.constants.toList.length sig.skolemNext

/-- The Skolem constant that would be introduced next. -/
def nextSkolem (sig : Signature) : String :=
  skolemName sig.nextIndex

/-- Introduces a Skolem constant that has never been used before. -/
def freshSkolem (sig : Signature) : String × Signature :=
  (sig.nextSkolem,
    { sig with
      constants := sig.constants.add sig.nextSkolem
      skolems := sig.skolems.add sig.nextSkolem
      skolemNext := sig.nextIndex + 1 })

end Signature
end NaturalDeduction
