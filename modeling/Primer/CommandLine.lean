import Primer.Repl
import Primer.Terminal

/-!
# The command line

The program is started with the path of a script, or with a flag that asks for
the interactive loop.  `execute` says what it then does, as a function of the
arguments, the files that it can see and its standard input: what it writes to
standard output and standard error, and its exit status.

| status | meaning                                            |
|--------|----------------------------------------------------|
| 0      | the script succeeded, or the loop was left         |
| 1      | the script failed, and the reason was reported     |
| 2      | there was no script to run                         |
| 101    | a run failed although its program was not at fault |
-/

namespace Primer.CommandLine

/-- What the arguments ask for. -/
inductive Invocation
  | interactive
  | script (path : String)
  | unusable
  deriving DecidableEq, Repr

/-- One argument is a flag or the path of a script; any other number of them is refused. -/
def Invocation.ofArguments : List String → Invocation
  | [argument] =>
      if argument = "-i" ∨ argument = "--interactive" then .interactive else .script argument
  | _ => .unusable

/-- What is left of a finished program. -/
structure Outcome where
  status : Nat
  stdout : String
  stderr : String
  deriving DecidableEq, Repr

/-- What is reported together with a refusal of the arguments. -/
def usage : String := "Usage: minipl <file> | minipl --interactive"

/-- The outcome where there was no script to run. -/
def refusal (report : String) : Outcome := ⟨2, "", report ++ "\n"⟩

/-! ## Scripts -/

/-- Runs the text of a script on a terminal of its own. -/
def runSource (source : String) (stdin : ByteArray) : Outcome :=
  match runIn source (.fresh (Terminal.ofBytes stdin)) with
  | .ok () context => ⟨0, context.console.stdout, ""⟩
  | .error (.error error) context => ⟨1, context.console.stdout, error.message ++ "\n"⟩
  | .error _ context => ⟨101, context.console.stdout, ""⟩

/-- Runs the script at a path, given its bytes if there is a file. -/
def runScript (path : String) (bytes? : Option ByteArray) (stdin : ByteArray) : Outcome :=
  match bytes? with
  | none => refusal ("Invalid argument: " ++ path ++ " not found. No such file or directory.")
  | some bytes =>
      match String.fromUTF8? bytes with
      | none => refusal ("Reading " ++ path ++ ": " ++ Error.undecodableInput.message)
      | some source => runSource source stdin

/-! ## The interactive loop -/

/-- What an event adds to the standard output. -/
def shown : Repl.Event → String
  | .prompt true => ">> "
  | .prompt false => ".. "
  | .printed value => value.text
  | .report _ => ""

/-- What an event adds to the standard error. -/
def reported : Repl.Event → String
  | .report error => error.message ++ "\n"
  | .prompt _ | .printed _ => ""

/-- The last line of the interactive loop. -/
def farewell : Repl.Ending → String
  | .endOfInput => "CTRL-D\n"
  | .undecodable =>
      "Error: Io(Error \x7b kind: InvalidData, message: \"" ++ Error.undecodableInput.message ++
        "\" \x7d)\n"
  | .broken => ""

/-- The exit status of the interactive loop, which succeeds however its input ends. -/
def statusOf : Repl.Ending → Nat
  | .endOfInput | .undecodable => 0
  | .broken => 101

/-- Runs the interactive loop over the lines of the standard input. -/
def runInteractive (input : List Line) : Outcome :=
  let (repl, ending) := Repl.interact input
  let events := repl.events.toList
  ⟨statusOf ending, String.join (events.map shown) ++ farewell ending,
    String.join (events.map reported)⟩

/-! ## All invocations -/

/-- What the program does.  `bytes?` gives the content of a regular file. -/
def execute (arguments : List String) (bytes? : String → Option ByteArray) (stdin : ByteArray) :
    Outcome :=
  match Invocation.ofArguments arguments with
  | .unusable => refusal ("Invalid number of arguments: expected one\n" ++ usage)
  | .script path => runScript path (bytes? path) stdin
  | .interactive => runInteractive (Lines.ofBytes stdin)

end Primer.CommandLine
