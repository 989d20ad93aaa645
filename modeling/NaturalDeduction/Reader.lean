import NaturalDeduction.Signature

/-!
# Reading against a signature

Reading a text learns names: constants and numbers of arguments are recorded in a signature while
the text is read.  A reading that fails keeps what it recorded before the failure, so its outcome is
an answer or an error together with the signature reached.
-/

set_option autoImplicit false

namespace NaturalDeduction

/-- A computation that reads text, extends a signature and may fail. -/
abbrev Reader := EStateM ParseError Signature

namespace Reader

/-- The answer or error of a reading, and the signature reached. -/
def outcome {α : Type} (reader : Reader α) (sig : Signature) : Except ParseError α × Signature :=
  match reader sig with
  | .ok a sig' => (.ok a, sig')
  | .error e sig' => (.error e, sig')

/-- A check that does not look at the signature. -/
def ofExcept {α : Type} : Except ParseError α → Reader α
  | .ok a => pure a
  | .error e => throw e

/-- Records a constant. -/
def addConstant (name : String) : Reader Unit :=
  modify fun sig => sig.addConstant name

/-- Records the number of arguments of a symbol, or finds that it contradicts an earlier use. -/
def recordArity (kind : SymbolKind) (name : String) (found : Nat) : Reader Unit := fun sig =>
  match sig.recordArity kind name found with
  | .ok sig' => .ok () sig'
  | .error e => .error e sig

end Reader
end NaturalDeduction
