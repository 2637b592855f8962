import Primer.Text.Lines

/-!
# The terminal

A script that is started from the command line reads bytes and writes text.
Nothing is cut into lines beforehand: an attempt to read takes the bytes up to
the next line feed off the stream, or all that are left, and decodes these.
-/

namespace Primer

/-- The two streams of a script. -/
structure Terminal where
  /-- The bytes not read yet. -/
  stdin : List UInt8
  /-- Everything written so far. -/
  stdout : String
  deriving DecidableEq, Repr

namespace Terminal

/-- A terminal on which nothing has happened yet. -/
def ofBytes (stdin : ByteArray) : Terminal := ⟨stdin.data.toList, ""⟩

/-- Writes a value, with nothing before or after it. -/
def print (terminal : Terminal) (value : Value) : Terminal :=
  { terminal with stdout := terminal.stdout ++ value.text }

/-- Takes a line off the standard input, unless there is nothing left. -/
def read? (terminal : Terminal) : Option Line × Terminal :=
  match terminal.stdin with
  | [] => (none, terminal)
  | byte :: bytes =>
      let (piece, rest) := Lines.splitAfter Lines.lineFeed (byte :: bytes)
      (some (Lines.decodeTerminated piece), { terminal with stdin := rest })

instance : InputOutput Terminal := ⟨print, read?⟩

end Terminal

end Primer
