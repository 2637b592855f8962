import Primer.Console

/-!
# Lines of a byte stream

A stream is cut after each line feed.  The line feed is dropped together with a
carriage return right before it; bytes after the last line feed are a line of
their own, as they are.  Each line is decoded by itself, so bytes that are not
UTF-8 spoil only the line that holds them.
-/

namespace Primer.Lines

/-- The pieces of a list that end after each `terminator`.  The last piece
lacks it if the list does not end in one; no piece is empty. -/
def cutAfter {α : Type} [DecidableEq α] (terminator : α) : List α → List (List α)
  | [] => []
  | a :: as =>
      if a = terminator then [a] :: cutAfter terminator as
      else
        match cutAfter terminator as with
        | [] => [[a]]
        | piece :: pieces => (a :: piece) :: pieces

/-- A piece without its terminator, and without a `companion` right before it. -/
def dropTerminator {α : Type} [DecidableEq α] (companion terminator : α) (piece : List α) :
    List α :=
  if piece.getLast? = some terminator then
    let content := piece.dropLast
    if content.getLast? = some companion then content.dropLast else content
  else piece

/-- The list up to and including the first `terminator`, and what follows it. -/
def splitAfter {α : Type} [DecidableEq α] (terminator : α) : List α → List α × List α
  | [] => ([], [])
  | a :: as =>
      if a = terminator then ([a], as)
      else (a :: (splitAfter terminator as).1, (splitAfter terminator as).2)

/-- The byte that is dropped right before a line feed. -/
def carriageReturn : UInt8 := 13

/-- The byte that ends a line. -/
def lineFeed : UInt8 := 10

/-- A line from its bytes. -/
def decode (bytes : List UInt8) : Line :=
  match String.fromUTF8? bytes.toByteArray with
  | some content => .text content
  | none => .undecodable

/-- A line from its bytes, of which the terminator is one. -/
def decodeTerminated (bytes : List UInt8) : Line :=
  match decode bytes with
  | .text content => .text (String.ofList (dropTerminator '\r' '\n' content.toList))
  | .undecodable => .undecodable

/-- The lines of a text. -/
def ofText (text : String) : List String :=
  (cutAfter '\n' text.toList).map fun piece => String.ofList (dropTerminator '\r' '\n' piece)

/-- The lines of a byte stream. -/
def ofBytes (bytes : ByteArray) : List Line :=
  (cutAfter lineFeed bytes.data.toList).map fun piece =>
    decode (dropTerminator carriageReturn lineFeed piece)

end Primer.Lines
