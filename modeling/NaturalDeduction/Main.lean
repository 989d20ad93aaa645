import NaturalDeduction.CommandLine.Shell

/-!
# The program

Reads the arguments, the environment and the standard input, and writes what the shell answers.
-/

set_option autoImplicit false

namespace NaturalDeduction.CommandLine

/-- Writes text to the standard output and messages to the standard error. -/
def write (text : String) (messages : List String) : IO Unit := do
  IO.print text
  (← IO.getStdout).flush
  messages.forM fun message => IO.eprintln message

/-- Writes the end of a run, and returns its code. -/
def conclude (transcript : Transcript) : IO UInt32 := do
  write transcript.text transcript.messages
  return transcript.code.toUInt32

/-- Reads lines and carries out the commands on them until the input or the user ends. -/
partial def interact (stdin : IO.FS.Stream) (shell : Shell) : IO UInt32 := do
  write prompt []
  let line ← stdin.getLine
  if line.isEmpty then
    return 0
  match Command.ofLine line.toList with
  | .quit => return 0
  | command =>
    match shell.perform command with
    | .ok (shell, output) =>
      write output.text output.messages
      interact stdin shell
    | .error _ => conclude .stopped

end NaturalDeduction.CommandLine

open NaturalDeduction.CommandLine

/-- Runs the program. -/
def main (args : List String) : IO UInt32 := do
  let set ← environmentNames.filterM fun name => return (← IO.getEnv name).isSome
  match Opening.ofArgs args set.contains with
  | .over transcript => conclude transcript
  | .shown text shell =>
    write text []
    interact (← IO.getStdin) shell
