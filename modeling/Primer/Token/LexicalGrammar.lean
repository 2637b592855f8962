import Mathlib.Algebra.Group.Nat.Defs
import Primer.Token.Lexer

/-!
# The lexical grammar

What the items of a text are, said without scanning it.  An item is judged
together with the text that follows it, since a number and a `/` look ahead:

    blanks     = blank+
    comment    = "//" ( any but a line break )* ( line break | end of text )
               | "/*" ( any, but no "*/" ) "*/"
    symbol     = one of the fixed spellings; "/" is none before "/" or "*"
    number     = digit+, no digit or letter after it, below 2 ^ 63
    word       = letter ( letter | digit | "_" )*
    string     = quote ( any but quote and backslash | backslash any )* quote

`Decomposes` cuts a text into items, taking the longest one at each point, and
`Malformed` says what is wrong where there is none.
-/

namespace Primer.Lexer

/-! ## Words and strings -/

/-- The lexeme that a word denotes. -/
inductive Denotes : String → Lexeme → Prop
  | keyword (k : Keyword) : Denotes k.spelling (.keyword k)
  | boolean (b : Bool) : Denotes (toString b) (.boolean b)
  | typeName (ty : Ty) : Denotes ty.spelling (.typeName ty)
  | name {word : String} (hkeyword : ∀ k : Keyword, word ≠ k.spelling)
      (hboolean : ∀ b : Bool, word ≠ toString b) (htypeName : ∀ ty : Ty, word ≠ ty.spelling) :
      Denotes word (.name word)

/-- What stands between two quotes, and the content that it is read as. -/
inductive Quoted : List Char → List Char → Prop
  | nil : Quoted [] []
  | plain {c : Char} {text content : List Char} (hquote : c ≠ '"') (hbackslash : c ≠ '\\')
      (hrest : Quoted text content) : Quoted (c :: text) (c :: content)
  | lineBreak {text content : List Char} (hrest : Quoted text content) :
      Quoted ('\\' :: 'n' :: text) ('\n' :: content)
  | tabulator {text content : List Char} (hrest : Quoted text content) :
      Quoted ('\\' :: 't' :: text) ('\t' :: content)
  /-- Any other character that is escaped stands for itself. -/
  | escaped {c : Char} {text content : List Char} (hn : c ≠ 'n') (ht : c ≠ 't')
      (hrest : Quoted text content) : Quoted ('\\' :: c :: text) (c :: content)

/-! ## Items -/

/-- A text beginning with neither a digit nor a letter, as it has to be after a number. -/
def EndsNumber (rest : List Char) : Prop :=
  ∀ c ∈ rest.head?, c.isDigit = false ∧ c.isAlpha = false

/-- The text of the item is one of the grammar, with the lexeme that it stands
for, where the rest follows. -/
inductive Item.Fits : Item → Prop
  | blanks {text rest : List Char} (hnonempty : text ≠ []) (hblank : ∀ c ∈ text, isBlank c = true) :
      Fits ⟨text, none, rest⟩
  | lineComment {body rest : List Char} (hbody : '\n' ∉ body) :
      Fits ⟨'/' :: '/' :: (body ++ ['\n']), none, rest⟩
  | lastLine {body : List Char} (hbody : '\n' ∉ body) : Fits ⟨'/' :: '/' :: body, none, []⟩
  | blockComment {body rest : List Char} (hbody : ¬ ['*', '/'] <:+: body ++ ['*']) :
      Fits ⟨'/' :: '*' :: (body ++ ['*', '/']), none, rest⟩
  | symbol {s : Symbol} {rest : List Char}
      (hslash : s = .slash → rest.head? ≠ some '/' ∧ rest.head? ≠ some '*') :
      Fits ⟨s.spelling.toList, some (.symbol s), rest⟩
  | number {digits rest : List Char} {i : Int64} (hnonempty : digits ≠ [])
      (hdigits : ∀ c ∈ digits, c.isDigit = true) (hends : EndsNumber rest)
      (hvalue : i.toInt = Decimal.ofDigits digits) :
      Fits ⟨digits, some (.number i), rest⟩
  | word {c : Char} {cs rest : List Char} {lexeme : Lexeme} (hfirst : c.isAlpha = true)
      (hothers : ∀ d ∈ cs, d.isAlpha = true ∨ d.isDigit = true ∨ d = '_')
      (hdenotes : Denotes (String.ofList (c :: cs)) lexeme) :
      Fits ⟨c :: cs, some lexeme, rest⟩
  | string {text content rest : List Char} (hquoted : Quoted text content) :
      Fits ⟨'"' :: (text ++ ['"']), some (.string (String.ofList content)), rest⟩

/-- The item is the longest one that fits at the head of the text. -/
structure Item.Longest (text : List Char) (item : Item) : Prop where
  split : item.text ++ item.rest = text
  fits : item.Fits
  maximal : ∀ other : Item, other.text ++ other.rest = text → other.Fits →
    other.text.length ≤ item.text.length

/-- The text consists of the items, each the longest one there, and of what remains. -/
inductive Decomposes : List Char → List Item → List Char → Prop
  | done (text : List Char) : Decomposes text [] text
  | next {text remaining : List Char} {item : Item} {items : List Item}
      (hitem : item.Longest text) (hrest : Decomposes item.rest items remaining) :
      Decomposes text (item :: items) remaining

/-- The text of the items, one after the other. -/
def Item.textOf (items : List Item) : List Char := items.flatMap Item.text

@[simp] theorem Item.textOf_cons (item : Item) (items : List Item) :
    textOf (item :: items) = item.text ++ textOf items := rfl

/-- One token for each lexeme among the items, on the line on which its item
starts. -/
def Item.tokensOf (line : Nat) : List Item → List Token
  | [] => []
  | item :: items =>
      (item.lexeme?.map (⟨·, line⟩)).toList ++ tokensOf (line + lineBreaks item.text) items

/-! ## Texts without an item -/

/-- What is wrong at the head of a text at which no item fits. -/
inductive Malformed : List Char → Fault → Prop
  | openComment {rest : List Char} (hopen : ¬ ['*', '/'] <:+: rest) :
      Malformed ('/' :: '*' :: rest) .unexpectedEnd
  | openString {rest : List Char}
      (hopen : ∀ text content after, rest = text ++ '"' :: after → ¬ Quoted text content) :
      Malformed ('"' :: rest) .unexpectedEnd
  | lastDot : Malformed ['.'] .unexpectedEnd
  | dot {c : Char} {rest : List Char} (hdot : c ≠ '.') :
      Malformed ('.' :: c :: rest) (.unexpectedCharacter c)
  | letter {c : Char} {digits rest : List Char} (hnonempty : digits ≠ [])
      (hdigits : ∀ d ∈ digits, d.isDigit = true) (hletter : c.isAlpha = true) :
      Malformed (digits ++ c :: rest) (.unexpectedCharacter c)
  | tooLarge {digits rest : List Char} (hnonempty : digits ≠ [])
      (hdigits : ∀ d ∈ digits, d.isDigit = true) (hends : EndsNumber rest)
      (hvalue : 2 ^ 63 ≤ Decimal.ofDigits digits) :
      Malformed (digits ++ rest) (.literalOutOfRange (String.ofList digits))
  /-- A character that begins nothing. -/
  | stray {c : Char} {rest : List Char} (hblank : isBlank c = false) (hdigit : c.isDigit = false)
      (hletter : c.isAlpha = false) (hquote : c ≠ '"')
      (hsymbol : ∀ s : Symbol, s.spelling.toList.head? ≠ some c) :
      Malformed (c :: rest) (.unexpectedCharacter c)

end Primer.Lexer
