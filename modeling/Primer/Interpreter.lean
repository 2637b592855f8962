import Primer.Token.Lexer
import Primer.Grammar.Consume
import Primer.Execution

/-!
# Compiling and running programs

`compile` turns a text into a syntax tree and has no effect; nothing runs before
the whole text was accepted.  `runIn` compiles and runs in a context that may
hold variables of earlier runs, `run` in a fresh one.
-/

namespace Primer

/-- The syntax tree of a program text. -/
def compile (source : String) : Except Failure Node :=
  match tokenize source with
  | .ok tokens => parse tokens
  | .error error => .error (.error error)

/-- Compiles a text and runs it.  A text that does not compile leaves the
context as it was. -/
def runIn {World : Type} [InputOutput World] (source : String) : ExecOn World Unit :=
  fun context =>
  match compile source with
  | .ok program => execute program context
  | .error failure => .error failure context

/-- Runs a program with nothing declared and the given lines to read. -/
def run (source : String) (input : List Line) : EStateM.Result Failure Context Unit :=
  runIn source (.ofLines input)

end Primer
