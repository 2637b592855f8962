import Primer.Text.Blank
import Primer.Error

/-!
# From text to tokens

A program text is cut into *items* from left to right.  An item is a run of
blanks, a comment or a lexeme; at each point the longest one is taken, and a
`/` that could open a comment always does.  Blanks and comments leave no token.

`nextItem` takes one item off a non-empty text.  It returns the characters
taken as well as the rest, so that `nextItem_split` can say that nothing is
lost, and so that lines are counted in one place: an item starts on the line
after all line breaks of the items before it.
-/

namespace Primer.Lexer

/-- What can be wrong at the head of a text. -/
inductive Fault
  | unexpectedCharacter (character : Char)
  /-- The text ends inside an item. -/
  | unexpectedEnd
  | literalOutOfRange (digits : String)
  deriving DecidableEq, Repr

/-- The item at the head of a text.  Blanks and comments have no lexeme. -/
structure Item where
  text : List Char
  lexeme? : Option Lexeme
  rest : List Char

/-- The number of line breaks in a text. -/
def lineBreaks (text : List Char) : Nat := text.count '\n'

/-! ## Blanks and comments -/

/-- Splits a text after its first line break, or at its end. -/
def splitLine : List Char → List Char × List Char
  | [] => ([], [])
  | c :: cs =>
      if c = '\n' then ([c], cs)
      else
        let (line, rest) := splitLine cs
        (c :: line, rest)

/-- Splits a text after the first `*/`. -/
def splitBlock? : List Char → Option (List Char × List Char)
  | [] => none
  | '*' :: '/' :: cs => some (['*', '/'], cs)
  | c :: cs => (splitBlock? cs).map fun (block, rest) => (c :: block, rest)

/-! ## Strings, numbers and words -/

/-- The character that a backslash followed by `c` stands for. -/
def unescape (c : Char) : Char :=
  match c with
  | 'n' => '\n'
  | 't' => '\t'
  | c => c

/-- Reads a string literal whose opening quote is already taken: its content
with escapes decoded, its text up to the closing quote, and the rest. -/
def stringBody? : List Char → Option (List Char × List Char × List Char)
  | [] => none
  | '"' :: cs => some ([], ['"'], cs)
  | '\\' :: c :: cs =>
      (stringBody? cs).map fun (content, text, rest) =>
        (unescape c :: content, '\\' :: c :: text, rest)
  | c :: cs =>
      (stringBody? cs).map fun (content, text, rest) => (c :: content, c :: text, rest)

/-- Reads a maximal run of digits, which no letter may follow. -/
def number (cs : List Char) : Except Fault Item :=
  let digits := cs.takeWhile Char.isDigit
  let rest := cs.dropWhile Char.isDigit
  -- a letter behind the digits is at fault even if they are out of range
  match rest.head?.filter Char.isAlpha with
  | some letter => .error (.unexpectedCharacter letter)
  | none =>
    match Decimal.word? (Decimal.ofDigits digits) with
    | some i => .ok ⟨digits, some (.number i), rest⟩
    | none => .error (.literalOutOfRange (String.ofList digits))

/-- Letters, digits and `_` continue a word that a letter started. -/
def isWordCharacter (c : Char) : Bool := c.isAlphanum || c == '_'

/-- The longest word at the head of a text, whatever it denotes. -/
def word (cs : List Char) : Item :=
  let text := cs.takeWhile isWordCharacter
  ⟨text, some (.ofWord (String.ofList text)), cs.dropWhile isWordCharacter⟩

/-! ## Items -/

/-- The symbol that is a single character; `.` alone is none. -/
def symbolOfChar? : Char → Option Symbol
  | '(' => some .leftParen
  | ')' => some .rightParen
  | ';' => some .semicolon
  | ':' => some .colon
  | '+' => some .plus
  | '-' => some .minus
  | '*' => some .star
  | '/' => some .slash
  | '<' => some .less
  | '=' => some .equal
  | '&' => some .ampersand
  | '!' => some .exclamation
  | _ => none

/-- An item that starts with `c` and is decided by that character alone. -/
def plainItem (c : Char) (cs : List Char) : Except Fault Item :=
  match symbolOfChar? c with
  | some s => .ok ⟨[c], some (.symbol s), cs⟩
  | none =>
      if isBlank c then
        .ok ⟨c :: cs.takeWhile isBlank, none, cs.dropWhile isBlank⟩
      else if c.isDigit then number (c :: cs)
      else if c.isAlpha then .ok (word (c :: cs))
      else .error (.unexpectedCharacter c)

/-- The item at the head of the text `c :: cs`. -/
def nextItem (c : Char) (cs : List Char) : Except Fault Item :=
  match c, cs with
  | '/', '/' :: cs =>
      let (line, rest) := splitLine cs
      .ok ⟨'/' :: '/' :: line, none, rest⟩
  | '/', '*' :: cs =>
      match splitBlock? cs with
      | some (block, rest) => .ok ⟨'/' :: '*' :: block, none, rest⟩
      | none => .error .unexpectedEnd
  | ':', '=' :: cs => .ok ⟨[':', '='], some (.symbol .assign), cs⟩
  | '.', '.' :: cs => .ok ⟨['.', '.'], some (.symbol .range), cs⟩
  -- a second dot could still follow
  | '.', [] => .error .unexpectedEnd
  | '.', d :: _ => .error (.unexpectedCharacter d)
  | '"', cs =>
      match stringBody? cs with
      | some (content, text, rest) =>
          .ok ⟨'"' :: text, some (.string (String.ofList content)), rest⟩
      | none => .error .unexpectedEnd
  | c, cs => plainItem c cs

/-! ## Nothing is lost -/

theorem splitLine_append (cs : List Char) : (splitLine cs).1 ++ (splitLine cs).2 = cs := by
  induction cs with
  | nil => rfl
  | cons c cs ih =>
      unfold splitLine
      split
      · rfl
      · simp [ih]

theorem splitBlock?_append {cs block rest : List Char}
    (hsplit : splitBlock? cs = some (block, rest)) : block ++ rest = cs := by
  fun_induction splitBlock? cs generalizing block rest with
  | case1 => simp at hsplit
  | case2 cs =>
      simp only [Option.some.injEq, Prod.mk.injEq] at hsplit
      obtain ⟨rfl, rfl⟩ := hsplit
      rfl
  | case3 c cs _ ih =>
      obtain ⟨⟨inner, after⟩, hinner, heq⟩ := Option.map_eq_some_iff.mp hsplit
      simp only [Prod.mk.injEq] at heq
      obtain ⟨rfl, rfl⟩ := heq
      simp [ih hinner]

theorem stringBody?_append {cs content text rest : List Char}
    (hbody : stringBody? cs = some (content, text, rest)) : text ++ rest = cs := by
  fun_induction stringBody? cs generalizing content text rest with
  | case1 => simp at hbody
  | case2 cs =>
      simp only [Option.some.injEq, Prod.mk.injEq] at hbody
      obtain ⟨rfl, rfl, rfl⟩ := hbody
      rfl
  | case3 c cs ih =>
      obtain ⟨⟨inner, read, after⟩, hinner, heq⟩ := Option.map_eq_some_iff.mp hbody
      simp only [Prod.mk.injEq] at heq
      obtain ⟨rfl, rfl, rfl⟩ := heq
      simp [ih hinner]
  | case4 c cs _ _ ih =>
      obtain ⟨⟨inner, read, after⟩, hinner, heq⟩ := Option.map_eq_some_iff.mp hbody
      simp only [Prod.mk.injEq] at heq
      obtain ⟨rfl, rfl, rfl⟩ := heq
      simp [ih hinner]

theorem number_split {cs : List Char} {item : Item} (hnumber : number cs = .ok item) :
    item.text = cs.takeWhile Char.isDigit ∧ item.rest = cs.dropWhile Char.isDigit := by
  simp only [number] at hnumber
  split at hnumber
  · simp at hnumber
  · split at hnumber
    · simp only [Except.ok.injEq] at hnumber
      subst hnumber
      exact ⟨rfl, rfl⟩
    · simp at hnumber

theorem plainItem_split {c : Char} {cs : List Char} {item : Item}
    (hitem : plainItem c cs = .ok item) :
    item.text ++ item.rest = c :: cs ∧ item.text ≠ [] := by
  unfold plainItem at hitem
  split at hitem
  · simp only [Except.ok.injEq] at hitem
    subst hitem
    simp
  · split at hitem
    · simp only [Except.ok.injEq] at hitem
      subst hitem
      simp
    · split at hitem
      · next hdigit =>
          obtain ⟨htext, hrest⟩ := number_split hitem
          simp [htext, hrest, hdigit]
      · split at hitem
        · next halpha =>
            simp only [Except.ok.injEq] at hitem
            subst hitem
            simp [word, isWordCharacter, Char.isAlphanum, halpha]
        · simp at hitem

/-- An item's text and the rest make up the text it was taken from, and an item
is never empty. -/
theorem nextItem_split {c : Char} {cs : List Char} {item : Item}
    (hitem : nextItem c cs = .ok item) :
    item.text ++ item.rest = c :: cs ∧ item.text ≠ [] := by
  unfold nextItem at hitem
  split at hitem
  · simp only [Except.ok.injEq] at hitem
    subst hitem
    simp [splitLine_append]
  · split at hitem
    · next hblock =>
        simp only [Except.ok.injEq] at hitem
        subst hitem
        simp [splitBlock?_append hblock]
    · simp at hitem
  · simp only [Except.ok.injEq] at hitem
    subst hitem
    simp
  · simp only [Except.ok.injEq] at hitem
    subst hitem
    simp
  · simp at hitem
  · simp at hitem
  · split at hitem
    · next hbody =>
        simp only [Except.ok.injEq] at hitem
        subst hitem
        simp [stringBody?_append hbody]
    · simp at hitem
  · -- everything else is decided by its first character alone
    exact plainItem_split hitem

theorem nextItem_rest_length {c : Char} {cs : List Char} {item : Item}
    (hitem : nextItem c cs = .ok item) : item.rest.length < (c :: cs).length := by
  obtain ⟨happend, hnonempty⟩ := nextItem_split hitem
  have hlength := congrArg List.length happend
  have hpositive := List.length_pos_iff.mpr hnonempty
  simp only [List.length_append] at hlength
  omega

/-! ## Whole texts -/

/-- The error for a fault at the head of `text`, which starts on `line`.  A
text that ends too early is at fault on its last line. -/
def Fault.toError (line : Nat) (text : List Char) : Fault → Error
  | .unexpectedCharacter character => .unexpectedCharacter line character
  | .unexpectedEnd => .unexpectedEnd (line + lineBreaks text)
  | .literalOutOfRange digits => .literalOutOfRange line digits

/-- The tokens of a text that starts on `line`. -/
def tokensFrom (line : Nat) : List Char → Except Error (List Token)
  | [] => .ok [⟨.endMarker, line⟩]
  | c :: cs =>
      match _hitem : nextItem c cs with
      | .error fault => .error (fault.toError line (c :: cs))
      | .ok item =>
          match tokensFrom (line + lineBreaks item.text) item.rest with
          | .error error => .error error
          | .ok tokens =>
              match item.lexeme? with
              | some lexeme => .ok (⟨lexeme, line⟩ :: tokens)
              | none => .ok tokens
termination_by text => text.length
decreasing_by exact nextItem_rest_length _hitem

end Lexer

/-- The tokens of a program text, closed by one `endMarker` on the last line. -/
def tokenize (source : String) : Except Error (List Token) :=
  Lexer.tokensFrom 1 source.toList

end Primer
