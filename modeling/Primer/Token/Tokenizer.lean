import Primer.Token.Lexer

/-!
# Tokenizers

A tokenizer reads texts one after the other and remembers one thing, the line
that it has reached.  Each text starts it over on the first line, so nothing is
left of the texts before, in particular of one that was at fault.

The line moves on while blanks, comments and strings are read: no other item can
hold a line break.  A token is on the line that was reached before it was read,
and a text that ends too early is at fault on the line reached at its end.
-/

namespace Primer

open Lexer

/-- What a tokenizer remembers. -/
structure Tokenizer where
  /-- The line that was reached, counted from one. -/
  line : Nat
  deriving DecidableEq, Repr

namespace Tokenizer

/-- Computations that move a tokenizer on, and may find the text at fault. -/
abbrev Scan := EStateM Error Tokenizer

/-- A tokenizer that has read nothing yet. -/
def new : Tokenizer := ⟨1⟩

/-- Moves on by the line breaks of what was read. -/
def advance (read : List Char) : Scan Unit :=
  modify fun tokenizer => ⟨tokenizer.line + lineBreaks read⟩

/-- The text ended inside an item. -/
def endOfText {α : Type} : Scan α := do
  throw (.unexpectedEnd (← get).line)

/-! ## Items -/

/-- Reads a string literal on from inside: its content with escapes decoded, of
which `read` was read before, last character first, and the rest. -/
def stringFrom (read : List Char) : List Char → Scan (List Char × List Char)
  | [] => endOfText
  | '"' :: cs => return (read.reverse, cs)
  | '\\' :: c :: cs => do
      -- the character after a backslash closes nothing, but it may be a line break
      advance [c]
      stringFrom (unescape c :: read) cs
  | c :: cs => do
      advance [c]
      stringFrom (c :: read) cs

/-- Reads the item at the head of the text `c :: cs`, which starts on `line`: its
token, if it has one, and the rest. -/
def item (line : Nat) (c : Char) (cs : List Char) : Scan (Option Token × List Char) :=
  match c, cs with
  | '/', '/' :: cs => do
      let (comment, rest) := splitLine cs
      advance comment
      return (none, rest)
  | '/', '*' :: cs =>
      match splitBlock? cs with
      | some (comment, rest) => do
          advance comment
          return (none, rest)
      | none => do
          -- the text was searched up to its end, and the fault is on the last line
          advance cs
          endOfText
  | '"', cs => do
      let (content, rest) ← stringFrom [] cs
      return (some ⟨.string (String.ofList content), line⟩, rest)
  | c, cs =>
      if isBlank c then do
        advance (c :: cs.takeWhile isBlank)
        return (none, cs.dropWhile isBlank)
      else
        match nextItem c cs with
        | .ok item => return (item.lexeme?.map (⟨·, line⟩), item.rest)
        | .error fault => throw (fault.toError line [])

theorem length_rest_of_stringFrom {read cs content rest : List Char} {tokenizer after : Tokenizer}
    (hstring : stringFrom read cs tokenizer = .ok (content, rest) after) :
    rest.length < cs.length := by
  fun_induction stringFrom read cs generalizing tokenizer with
  | case1 => cases hstring
  | case2 =>
      cases hstring
      exact Nat.lt_succ_self _
  | case3 read c cs ih => exact Nat.lt_add_right 2 (ih hstring)
  | case4 read c cs _ _ ih => exact Nat.lt_add_right 1 (ih hstring)

theorem length_rest_of_item {line : Nat} {c : Char} {cs rest : List Char} {token? : Option Token}
    {tokenizer after : Tokenizer} (hitem : item line c cs tokenizer = .ok (token?, rest) after) :
    rest.length < (c :: cs).length := by
  fun_cases item line c cs with
  | case1 cs comment rest' hsplit =>
      have happend := splitLine_append cs
      simp only [item, hsplit] at hitem happend
      cases hitem
      simp [← happend]
      omega
  | case2 cs comment rest' hsplit =>
      simp only [item, hsplit] at hitem
      cases hitem
      simp [← splitBlock?_append hsplit]
      omega
  | case3 cs hsplit =>
      simp only [item, hsplit] at hitem
      cases hitem
  | case4 cs =>
      simp only [item, bind, EStateM.bind] at hitem
      split at hitem
      · next hstring =>
          cases hitem
          exact Nat.lt_succ_of_lt (length_rest_of_stringFrom hstring)
      · cases hitem
  | case5 c cs hline hblock hquote hblank =>
      rw [item.eq_4 line c cs hquote hline hblock, if_pos hblank] at hitem
      cases hitem
      exact Nat.lt_succ_of_le (List.dropWhile_sublist _).length_le
  | case6 c cs hline hblock hquote hblank taken hnext =>
      rw [item.eq_4 line c cs hquote hline hblock, if_neg hblank, hnext] at hitem
      cases hitem
      exact nextItem_rest_length hnext
  | case7 c cs hline hblock hquote hblank fault hnext =>
      rw [item.eq_4 line c cs hquote hline hblock, if_neg hblank, hnext] at hitem
      cases hitem

/-! ## Whole texts -/

/-- The tokens of the text that is left, closed by one `endMarker` on the line
that is reached at its end. -/
def scan (text : List Char) (tokenizer : Tokenizer) :
    EStateM.Result Error Tokenizer (List Token) :=
  match text with
  | [] => .ok [⟨.endMarker, tokenizer.line⟩] tokenizer
  | c :: cs =>
      match _hitem : item tokenizer.line c cs tokenizer with
      | .error error after => .error error after
      | .ok (token?, rest) after =>
          match scan rest after with
          | .error error after => .error error after
          | .ok tokens after => .ok (token?.toList ++ tokens) after
termination_by text.length
decreasing_by exact length_rest_of_item _hitem

/-- The tokens of a text, whatever was read before. -/
def tokenize (source : String) : Scan (List Token) := do
  set new
  scan source.toList

end Tokenizer

end Primer
