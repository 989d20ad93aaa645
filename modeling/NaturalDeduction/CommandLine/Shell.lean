import NaturalDeduction.CommandLine.Options
import NaturalDeduction.Session
import NaturalDeduction.Snapshot.Codec

/-!
# The shell

The shell runs a session by commands, one to a line: it shows the proof, applies rules, takes
answers and reports what goes wrong.  It is a function from the state of the shell and a line to the
next state and what is to be written; a `Transcript` is what a whole run writes.
-/

set_option autoImplicit false

namespace NaturalDeduction.CommandLine

/-- The name and version of the program. -/
def versionText : String := "ndproof 0.1.0\n"

/-- What is written before each command is read. -/
def prompt : String := "> "

/-- What the program tells about itself. -/
def helpText : String :=
  "Interactive natural deduction for first-order logic.\n\n" ++
  "Reads commands from standard input:\n" ++
  "  show                    print the proof\n" ++
  "  apply <rule> <line>...  apply a rule to the selected lines\n" ++
  "  input <text>            answer the question of the pending rule\n" ++
  "  cancel                  abandon the pending rule\n" ++
  "  check                   run the completion pass\n" ++
  "  rules                   list the rule names\n" ++
  "  quit\n\n" ++
  "Usage: ndproof [OPTIONS] <GOAL> [GIVENS]...\n\n" ++
  "Arguments:\n" ++
  "  <GOAL>       The formula to prove\n" ++
  "  [GIVENS]...  The formulas to prove it from\n\n" ++
  "Options:\n" ++
  "      --ascii             Print formulas with ASCII operators\n" ++
  "      --json              Print the proof as JSON\n" ++
  "      --no-auto-complete  Do not close goals automatically after each rule\n" ++
  "  -v, --verbose...        More log output on stderr (-v, -vv, -vvv)\n" ++
  "  -h, --help              Print help\n" ++
  "  -V, --version           Print version\n"

/-- A command. -/
inductive Command where
  | nothing
  | quit
  | printProof
  | listRules
  | applyRule (words : List String)
  | answer (text : String)
  | cancel
  | check
  | unknown (name : String)
deriving DecidableEq

/-- The command on a line: its first word, and what stands behind the first blank. -/
def Command.ofLine (line : List Char) : Command :=
  let line := Text.trim line
  let name := line.takeWhile fun c => !Text.isBlank c
  let rest := (line.dropWhile fun c => !Text.isBlank c).drop 1
  match String.ofList name with
  | "" => .nothing
  | "quit" | "exit" => .quit
  | "show" => .printProof
  | "rules" => .listRules
  | "apply" => .applyRule ((Text.words rest).map String.ofList)
  | "input" => .answer (String.ofList (Text.trim rest))
  | "cancel" => .cancel
  | "check" => .check
  | name => .unknown name

/-- What is written: text for the user, and messages apart from it. -/
structure Output where
  /-- The text for the user. -/
  text : String := ""
  /-- The messages, each on lines of its own. -/
  messages : List String := []

/-- A message about an error. -/
def Output.error (message : String) : Output :=
  { messages := ["error: " ++ message] }

/-- A running shell. -/
structure Shell where
  /-- The session. -/
  session : Session
  /-- Whether the proof is shown as JSON. -/
  json : Bool

/-- A name filled up with blanks to the width of the column of rule names. -/
def padded (name : String) : String :=
  name ++ String.ofList (List.replicate (5 - name.length) ' ')

/-- The list of rules. -/
def rulesText : String :=
  String.join (Rule.all.map fun rule =>
    padded rule.name ++ " " ++ ", ".intercalate rule.aliases ++ "\n")

/-- The options of a question, numbered from `index` on. -/
def optionsText (index : Nat) : List String → String
  | [] => ""
  | option :: options =>
    "  " ++ index.repr ++ ": " ++ option ++ "\n" ++ optionsText (index + 1) options

/-- A question, and how to answer it. -/
def requestText (request : Request) : String :=
  request.prompt ++ "\n" ++
    match request.kind with
    | .formula => "  (input <formula>)\n"
    | .terms count => "  (input <" ++ count.repr ++ " comma separated term(s)>)\n"
    | .choice options => optionsText 1 options

/-- The line numbers given to a rule. -/
def lineNumbers : List String → Except String (List Nat)
  | [] => .ok []
  | word :: words =>
    match Text.number? lineLimit word.toList with
    | some number => do return number :: (← lineNumbers words)
    | none => .error ("'" ++ word ++ "' is not a line number")

/-- The rule and the line numbers that follow `apply`. -/
def ruleCall : List String → Except String (Rule × List Nat)
  | [] => .error "usage: apply <rule> <line>..."
  | name :: words =>
    match Rule.parse name with
    | .error e => .error e.message
    | .ok rule => do return (rule, ← lineNumbers words)

namespace Shell

/-- The proof as it is shown. -/
def proofText (shell : Shell) : Except Fault String := do
  match ← shell.session.snapshot? with
  | none => return ""
  | some snapshot =>
    return if shell.json then snapshot.toJson.pretty ++ "\n" else snapshot.text

/-- Shows the proof. -/
def display (shell : Shell) : Except Fault (Shell × Output) := do
  return (shell, { text := ← shell.proofText })

/-- Shows the question of a rule that has asked one, and the proof after a rule has been applied. -/
def afterOutcome (shell : Shell) : Outcome → Except Fault (Shell × Output)
  | .done => shell.display
  | .needsInput pending => .ok (shell, { text := requestText pending.request })

/-- Carries out a command. -/
def perform (shell : Shell) (command : Command) : Except Fault (Shell × Output) := do
  match command with
  | .nothing | .quit => return (shell, {})
  | .printProof => shell.display
  | .listRules => return (shell, { text := rulesText })
  | .applyRule words =>
    match ruleCall words with
    | .error message => return (shell, .error message)
    | .ok (rule, numbers) =>
      match ← shell.session.apply rule numbers with
      | (.ok outcome, session) => afterOutcome { shell with session } outcome
      | (.error e, session) => return ({ shell with session }, .error e.message)
  | .answer text =>
    match ← shell.session.resumeText text with
    | (.ok outcome, session) => afterOutcome { shell with session } outcome
    | (.error e, session) => return ({ shell with session }, .error e.message)
  | .cancel =>
    let (found, session) := shell.session.cancel
    return ({ shell with session }, { messages := if found then [] else ["nothing to cancel"] })
  | .check =>
    match ← shell.session.check with
    | (.ok _, session) => display { shell with session }
    | (.error e, session) => return ({ shell with session }, .error e.message)
  | .unknown name => return (shell, .error ("unknown command '" ++ name ++ "'"))

end Shell

/-- The variable of the environment that asks for ASCII operators. -/
def asciiVariable : String := "NDPROOF_ASCII"

/-- The variable of the environment that allows Skolem constants outside their boxes. -/
def noSkolemCheckVariable : String := "NDPROOF_NO_SKOLEM_CHECK"

/-- The variables of the environment that matter. -/
def environmentNames : List String := [asciiVariable, noSkolemCheckVariable]

/-- The settings made by the options and by the environment; `isSet` tells which variables of the
environment are set. -/
def Options.settings (options : Options) (isSet : String → Bool) : Settings where
  ascii := options.ascii || isSet asciiVariable
  autoComplete := !options.noAutoComplete
  checkSkolemScope := !isSet noSkolemCheckVariable

/-- Starts a shell on the proof that the options ask for. -/
def Options.start (options : Options) (isSet : String → Bool) :
    Except Fault (Except BatchError Shell) := do
  let session : Session := { settings := options.settings isSet }
  match ← session.start options.givens options.goal with
  | (.ok (), session) => return .ok { session, json := options.json }
  | (.error e, _) => return .error e

/-- The message for arguments that make no sense. -/
def misuseText (e : UsageError) : String :=
  "error: " ++ e.message ++ (e.tip?.elim "" fun tip => "\n\n  tip: " ++ tip) ++
    "\n\nUsage: ndproof [OPTIONS] <GOAL> [GIVENS]...\n\nFor more information, try '--help'."

/-- What a run of the program writes, and the code it ends with. -/
structure Transcript where
  /-- The text for the user. -/
  text : String := ""
  /-- The messages, in order. -/
  messages : List String := []
  /-- The exit code: 0 if all went well, 1 if a formula cannot be read, 2 if the arguments make no
  sense, 101 if a fault stopped the program. -/
  code : Nat := 0

namespace Transcript

/-- The end of a run that a fault stopped. -/
def stopped : Transcript :=
  { messages := ["internal fault"], code := 101 }

/-- Puts output in front of the rest of a run. -/
def preceded (text : String) (messages : List String) (rest : Transcript) : Transcript :=
  { rest with text := text ++ rest.text, messages := messages ++ rest.messages }

end Transcript

/-- How a run begins. -/
inductive Opening where
  /-- The run is over at once. -/
  | over (transcript : Transcript)
  /-- The first view of the proof is shown, and the shell takes commands. -/
  | shown (text : String) (shell : Shell)

/-- How the run of the program on its arguments and its environment begins. -/
def Opening.ofArgs (args : List String) (isSet : String → Bool) : Opening :=
  match Invocation.ofArgs args with
  | .showHelp => .over { text := helpText }
  | .showVersion => .over { text := versionText }
  | .misuse e => .over { messages := [misuseText e], code := 2 }
  | .run options =>
    match options.start isSet with
    | .error _ => .over .stopped
    | .ok (.error e) => .over { messages := ["error: " ++ e.message], code := 1 }
    | .ok (.ok shell) =>
      match shell.proofText with
      | .error _ => .over .stopped
      | .ok text => .shown text shell

namespace Transcript

/-- The run of a shell on the lines of its input.  A prompt is written before each line is read. -/
def ofLines (shell : Shell) : List (List Char) → Transcript
  | [] => { text := prompt }
  | line :: lines =>
    match Command.ofLine line with
    | .quit => { text := prompt }
    | command =>
      match shell.perform command with
      | .ok (shell, output) =>
        preceded (prompt ++ output.text) output.messages (ofLines shell lines)
      | .error _ => preceded prompt [] stopped

/-- The run of the program on its arguments, its environment and its input. -/
def ofRun (args : List String) (isSet : String → Bool) (input : String) : Transcript :=
  match Opening.ofArgs args isSet with
  | .over transcript => transcript
  | .shown text shell => preceded text [] (ofLines shell (Text.lines input.toList))

end Transcript
end NaturalDeduction.CommandLine
