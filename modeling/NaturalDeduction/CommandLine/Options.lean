import NaturalDeduction.Text.ControlSequence
import NaturalDeduction.Text.Similarity

/-!
# Options of the command line

The arguments of the program are options, which may stand anywhere, and the formulas: the goal
first, then what is given.  After `--` every argument is a formula.
-/

set_option autoImplicit false

namespace NaturalDeduction.CommandLine

open Text

/-- An option. -/
inductive Flag where
  | ascii
  | json
  | noAutoComplete
  | verbose
  | help
  | version
deriving DecidableEq

namespace Flag

/-- All options. -/
def all : List Flag := [.ascii, .json, .noAutoComplete, .verbose, .help, .version]

/-- The name written after two dashes. -/
def long : Flag → String
  | .ascii => "ascii"
  | .json => "json"
  | .noAutoComplete => "no-auto-complete"
  | .verbose => "verbose"
  | .help => "help"
  | .version => "version"

/-- The letter written after one dash. -/
def short? : Flag → Option Char
  | .verbose => some 'v'
  | .help => some 'h'
  | .version => some 'V'
  | _ => none

/-- The option in a message; dots show that it may be repeated. -/
def text : Flag → String
  | .verbose => "--verbose..."
  | flag => "--" ++ flag.long

end Flag

/-- Why the arguments make no sense. -/
inductive UsageError where
  | missingGoal
  | unexpectedArgument (text : String)
  | unexpectedValue (value : String) (flag : Flag)
  | repeatedFlag (flag : Flag)
deriving DecidableEq

namespace UsageError

/-- The error in words.  What the user wrote is given without its control sequences. -/
def message : UsageError → String
  | .missingGoal => "the following required arguments were not provided:\n  <GOAL>"
  | .unexpectedArgument text => "unexpected argument '" ++ shown text ++ "' found"
  | .unexpectedValue value flag =>
    "unexpected value '" ++ shown value ++ "' for '" ++ flag.text ++
      "' found; no more were expected"
  | .repeatedFlag flag => "the argument '" ++ flag.text ++ "' cannot be used multiple times"

/-- The option whose name is similar to the one written after two dashes. -/
def meant? (text : String) : Option Flag :=
  match text.toList with
  | '-' :: '-' :: name => Flag.all.find? fun flag => similar name flag.long.toList
  | _ => none

/-- What the user may have had in mind: another option, or a formula that begins with a dash. -/
def tip? : UsageError → Option String
  | .unexpectedArgument text =>
    match meant? text with
    | some flag => some ("a similar argument exists: '--" ++ flag.long ++ "'")
    | none =>
      some ("to pass '" ++ shown text ++ "' as a value, use '-- " ++ shown text ++ "'")
  | _ => none

end UsageError

/-- What the program is asked to do. -/
structure Options where
  /-- Show formulas with ASCII operators. -/
  ascii : Bool
  /-- Show the proof as JSON. -/
  json : Bool
  /-- Do not close goals after each rule. -/
  noAutoComplete : Bool
  /-- The formula to prove. -/
  goal : String
  /-- The formulas to prove it from. -/
  givens : List String
deriving DecidableEq

/-- What the arguments come to. -/
inductive Invocation where
  | run (options : Options)
  | showHelp
  | showVersion
  | misuse (error : UsageError)
deriving DecidableEq

/-- The arguments read so far. -/
structure Arguments where
  /-- The options met. -/
  flags : List Flag := []
  /-- The formulas met, last one first. -/
  formulas : List String := []

namespace Arguments

/-- Notes an option.  Two of them settle at once what to do, and only one may be repeated. -/
def note (args : Arguments) (flag : Flag) : Except Invocation Arguments :=
  match flag with
  | .help => .error .showHelp
  | .version => .error .showVersion
  | .verbose => .ok { args with flags := flag :: args.flags }
  | flag =>
    if flag ∈ args.flags then .error (.misuse (.repeatedFlag flag))
    else .ok { args with flags := flag :: args.flags }

/-- Notes options given by their letters. -/
def noteShort (args : Arguments) : List Char → Except Invocation Arguments
  | [] => .ok args
  | c :: cs =>
    match Flag.all.find? fun flag => flag.short? == some c with
    | some flag =>
      match args.note flag with
      | .ok args => args.noteShort cs
      | .error invocation => .error invocation
    | none => .error (.misuse (.unexpectedArgument ("-" ++ c.toString)))

/-- Notes an option given by its name; a value after an equals sign is not wanted. -/
def noteLong (args : Arguments) (text : List Char) : Except Invocation Arguments :=
  let name := String.ofList (text.takeWhile (· ≠ '='))
  match Flag.all.find? fun flag => flag.long == name with
  | some flag =>
    match text.dropWhile (· ≠ '=') with
    | [] => args.note flag
    | _ :: value => .error (.misuse (.unexpectedValue (String.ofList value) flag))
  | none => .error (.misuse (.unexpectedArgument ("--" ++ name)))

/-- Notes a formula. -/
def noteFormula (args : Arguments) (text : String) : Arguments :=
  { args with formulas := text :: args.formulas }

/-- Reads the arguments one by one. -/
def readAll (args : Arguments) : List String → Except Invocation Arguments
  | [] => .ok args
  | text :: texts =>
    match text.toList with
    | ['-', '-'] => .ok (texts.foldl noteFormula args)
    | '-' :: '-' :: name =>
      match args.noteLong name with
      | .ok args => args.readAll texts
      | .error invocation => .error invocation
    | '-' :: c :: cs =>
      match args.noteShort (c :: cs) with
      | .ok args => args.readAll texts
      | .error invocation => .error invocation
    | _ => (args.noteFormula text).readAll texts

/-- What the arguments come to when all have been read. -/
def invocation (args : Arguments) : Invocation :=
  match args.formulas.reverse with
  | [] => .misuse .missingGoal
  | goal :: givens =>
    .run {
      ascii := args.flags.contains .ascii
      json := args.flags.contains .json
      noAutoComplete := args.flags.contains .noAutoComplete
      goal
      givens }

end Arguments

/-- What the arguments of the program come to. -/
def Invocation.ofArgs (texts : List String) : Invocation :=
  match Arguments.readAll {} texts with
  | .ok args => args.invocation
  | .error invocation => invocation

end NaturalDeduction.CommandLine
