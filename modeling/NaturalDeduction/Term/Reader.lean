import NaturalDeduction.Application
import NaturalDeduction.Reader

/-!
# Reading terms

A term is written as a name, or as a name with bracketed arguments separated by commas.  A bare
name is a variable if a quantifier around the term binds it, and a constant otherwise.
-/

set_option autoImplicit false

namespace NaturalDeduction.Term

mutual

/-- Reads a term, given the names bound around it. -/
def read (bound : List String) (text : List Char) : Reader Term :=
  match _hparts : Application.parts? (Text.trim text) with
  | .error e => throw e
  | .ok none => do
    let name ← Reader.ofExcept (checkName (Text.trim text))
    if bound.contains name then
      return .var name
    else
      Reader.addConstant name
      return .const name
  | .ok (some (name, args)) => do
    let name ← Reader.ofExcept (checkName name)
    let args ← readArgs bound (Text.trim text) (Application.split ',' args)
    Reader.recordArity .function name args.length
    return .app name args
termination_by text.length
decreasing_by
  have hlength := Application.length_parts _hparts
  have htrim := Text.length_trim_le text
  rw [Application.weight_split]
  omega

/-- Reads the arguments of an application one by one; `whole` is the text of the application. -/
def readArgs (bound : List String) (whole : List Char) (pieces : List (List Char)) :
    Reader (List Term) :=
  match pieces with
  | [] => pure []
  | piece :: pieces => do
    if Text.allBlank piece then
      throw (.emptyArgument (String.ofList whole))
    let t ← read bound piece
    let ts ← readArgs bound whole pieces
    return t :: ts
termination_by Application.weight pieces
decreasing_by
  all_goals simp
  all_goals omega

end

/-- Reads terms one by one, up to the first that cannot be read. -/
def readEach (bound : List String) : List (List Char) → Reader (List Term)
  | [] => pure []
  | piece :: pieces => do
    let t ← read bound piece
    let ts ← readEach bound pieces
    return t :: ts

/-- Reads a closed term: every bare name is a constant. -/
def parse (text : String) : Reader Term :=
  read [] text.toList

/-- Reads closed terms separated by commas. -/
def parseList (text : String) : Reader (List Term) :=
  readEach [] (Application.split ',' text.toList)

end NaturalDeduction.Term
