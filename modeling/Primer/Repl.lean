import Primer.Interpreter

/-!
# The interactive loop

The loop collects lines in a buffer until they form a program, runs it, and
starts over with an empty buffer; variables stay.  An incomplete program asks
for another line, any other error is reported and discards the buffer.

A program that is run reads from the same console as the loop itself.  Every
round takes a line, so the number of lines at the start bounds the rounds.
-/

namespace Primer

namespace Repl

/-- What the loop shows. -/
inductive Event
  /-- The request for a line, the first one of a program or a further one. -/
  | prompt (isFirst : Bool)
  | printed (value : Value)
  | report (error : Error)
  deriving DecidableEq, Repr

/-- Why the loop ended. -/
inductive Ending
  | endOfInput
  /-- The line asked for is not text. -/
  | undecodable
  /-- A run failed although its program was not at fault. -/
  | broken
  deriving DecidableEq, Repr

end Repl

/-- The loop between two rounds. -/
structure Repl where
  context : Context
  /-- The lines of the program being entered, each with a line break. -/
  buffer : String
  /-- Everything shown so far, oldest first. -/
  events : Array Repl.Event
  deriving DecidableEq, Repr

namespace Repl

/-- The loop before its first round. -/
def ofLines (input : List Line) : Repl := ⟨.ofLines input, "", #[]⟩

/-! ## One round -/

/-- Asks for a line. -/
def ask (repl : Repl) : Repl :=
  { repl with events := repl.events.push (.prompt repl.buffer.isEmpty) }

/-- The values that a run added to what its console had printed. -/
def newlyPrinted (before after : Context) : Array Event :=
  (after.console.printed.extract before.console.printed.size after.console.printed.size).map
    .printed

/-- The loop after a run that led from `before` to `after`. -/
def next (repl : Repl) (before after : Context) (buffer : String) : Repl :=
  ⟨after, buffer, repl.events ++ newlyPrinted before after⟩

/-- Shows the report of an error. -/
def report (repl : Repl) (error : Error) : Repl :=
  { repl with events := repl.events.push (.report error) }

/-- Adds a line to the buffer and runs the buffer, unless it is incomplete.  The
lines after this one are `rest`. -/
def enter (repl : Repl) (line : String) (rest : List Line) : Repl × Option Ending :=
  let buffer := repl.buffer ++ line ++ "\n"
  -- what the program reads begins after this line
  let before := { repl.context with console := { repl.context.console with input := rest } }
  match runIn buffer before with
  | .ok () after => (repl.next before after "", none)
  | .error (.error error) after =>
      if error.isIncomplete then (repl.next before after buffer, none)
      else ((repl.next before after "").report error, none)
  | .error _ after => (repl.next before after "", some .broken)

/-! ## All rounds -/

/-- At most the given number of rounds; then the input is taken to be over. -/
def loop : Nat → Repl → Repl × Ending
  | 0, repl => (repl.ask, .endOfInput)
  | rounds + 1, repl =>
      match repl.context.console.input with
      | [] => (repl.ask, .endOfInput)
      | .undecodable :: _ => (repl.ask, .undecodable)
      | .text line :: rest =>
          match repl.ask.enter line rest with
          | (repl, none) => loop rounds repl
          | (repl, some ending) => (repl, ending)

/-- The whole interaction over the given lines. -/
def interact (input : List Line) : Repl × Ending := loop input.length (ofLines input)

end Repl

end Primer
