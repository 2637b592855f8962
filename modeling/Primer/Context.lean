import Primer.Scope
import Primer.Console

/-!
# What a program runs against

A context holds the scopes and what the program prints to and reads from, which
is a console unless told otherwise.  `ExecOn` is the monad of running a program:
a failure keeps everything done before it, in particular what was already
printed and read.

Each operation below lifts one of `Scopes` or `InputOutput` and says which error
it raises where the pure operation gives no result.
-/

namespace Primer

/-- Everything that running a program reads and changes. -/
structure Context (World : Type := Console) where
  scopes : Scopes
  console : World
  deriving DecidableEq, Repr

/-- Computations that read and change a context. -/
abbrev ExecOn (World : Type) := EStateM Failure (Context World)

/-- Computations that run against a console. -/
abbrev Exec := ExecOn Console

namespace Context

/-- Nothing declared. -/
def fresh {World : Type} (console : World) : Context World := ⟨.initial, console⟩

/-- Nothing declared, nothing printed, the given lines to read. -/
def ofLines (input : List Line) : Context := ⟨.initial, .ofLines input⟩

/-- The number of frames. -/
def depth (context : Context) : Nat := context.scopes.length

end Context

namespace Exec

variable {World : Type}

/-- Raises an error of the program. -/
def fail {α : Type} (error : Error) : ExecOn World α := throw (.error error)

/-- The result of a pure computation. -/
def ofExcept {α : Type} : Except Error α → ExecOn World α
  | .ok a => pure a
  | .error error => fail error

/-- A result that only misuse withholds. -/
def demand {α : Type} : Option α → ExecOn World α
  | some a => pure a
  | none => throw .misuse

/-! ## Scopes -/

/-- Declares a variable in the innermost frame. -/
def declare (v : Variable) : ExecOn World Unit := fun context =>
  match context.scopes.declare v with
  | .ok scopes => .ok () { context with scopes }
  | .error failure => .error failure context

/-- The variable that a name refers to on `line`. -/
def lookup (name : String) (line : Nat) : ExecOn World Variable := fun context =>
  match context.scopes.resolve? name with
  | some v => .ok v context
  | none => .error (.error (.undefinedVariable line name)) context

/-- Replaces the variable that the name of `v` refers to on `line`. -/
def update (v : Variable) (line : Nat) : ExecOn World Unit := fun context =>
  match context.scopes.update? v with
  | some scopes => .ok () { context with scopes }
  | none => .error (.error (.undefinedVariable line v.name)) context

/-- Puts an empty frame in front of the others. -/
def pushFrame : ExecOn World Unit := fun context =>
  .ok () { context with scopes := context.scopes.push }

/-- Drops the innermost frame; to drop the outermost one is misuse. -/
def popFrame : ExecOn World Unit := fun context =>
  match context.scopes.pop? with
  | some scopes => .ok () { context with scopes }
  | none => .error .misuse context

/-- Runs `body` in a new innermost frame, which is gone afterwards also if an
error ended it. -/
def inNewFrame (body : ExecOn World Unit) : ExecOn World Unit := fun context =>
  match (pushFrame >>= fun _ => body) context with
  | .ok () inner => popFrame inner
  | .error (.error error) inner =>
      match popFrame inner with
      | .ok () outer => .error (.error error) outer
      | .error failure outer => .error failure outer
  | .error failure inner => .error failure inner

/-! ## Printing and reading -/

variable [InputOutput World]

/-- Prints a value. -/
def print (value : Value) : ExecOn World Unit := fun context =>
  .ok () { context with console := InputOutput.print context.console value }

/-- Reads a line for a statement on `line`. -/
def readLine (line : Nat) : ExecOn World String := fun context =>
  match InputOutput.read? context.console with
  | (some (.text content), console) => .ok content { context with console }
  | (some .undecodable, console) => .error (.error .undecodableInput) { context with console }
  | (none, console) => .error (.error (.inputExhausted line)) { context with console }

end Exec

end Primer
