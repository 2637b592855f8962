import Primer.Value

/-!
# The console

All that a program can do to the outside world is to print values and to read
lines.  What it does so with is any type with these two operations.

A console is one in memory: it holds the lines not read yet, the values printed
so far and the number of attempts to read.
-/

namespace Primer

/-- A line of input without its terminator. -/
inductive Line
  | text (content : String)
  /-- Bytes that are not the UTF-8 encoding of any text. -/
  | undecodable
  deriving DecidableEq, Repr

/-- The outside world as a program sees it. -/
class InputOutput (World : Type) where
  print : World → Value → World
  /-- The next line, if there is one, and the world after the attempt. -/
  read? : World → Option Line × World

/-- What was read and printed so far, and what can still be read. -/
structure Console where
  input : List Line
  printed : Array Value
  reads : Nat
  deriving DecidableEq, Repr

namespace Console

/-- A console on which nothing has happened yet. -/
def ofLines (input : List Line) : Console := ⟨input, #[], 0⟩

/-- Adds a value to those printed. -/
def print (console : Console) (value : Value) : Console :=
  ⟨console.input, console.printed.push value, console.reads⟩

/-- Takes the next line, if there is one.  The attempt counts either way. -/
def read? (console : Console) : Option Line × Console :=
  match console.input with
  | [] => (none, ⟨[], console.printed, console.reads + 1⟩)
  | line :: lines => (some line, ⟨lines, console.printed, console.reads + 1⟩)

@[default_instance]
instance : InputOutput Console := ⟨print, read?⟩

@[simp] theorem inputOutput_print (console : Console) (value : Value) :
    InputOutput.print console value = console.print value := rfl

@[simp] theorem inputOutput_read? (console : Console) :
    InputOutput.read? console = console.read? := rfl

/-- What the values look like on the screen: nothing separates them. -/
def screen (values : List Value) : String := String.join (values.map Value.text)

/-- Everything printed so far. -/
def text (console : Console) : String := screen console.printed.toList

end Console

end Primer
