import Primer.Value

/-!
# Tokens

A token is a lexeme together with the line on which it starts.  Lexemes carry
their content (the name, the number, the decoded string); the parser looks only
at their `Kind`, which forgets the content.
-/

namespace Primer

/-! ## Keywords and symbols -/

/-- The words that no variable can be called. -/
inductive Keyword
  | kwVar
  | kwFor
  | kwEnd
  | kwIn
  | kwDo
  | kwRead
  | kwPrint
  | kwAssert
  deriving DecidableEq, Repr

namespace Keyword

/-- Every keyword. -/
def all : List Keyword :=
  [.kwVar, .kwFor, .kwEnd, .kwIn, .kwDo, .kwRead, .kwPrint, .kwAssert]

/-- The text of a keyword. -/
def spelling : Keyword → String
  | .kwVar => "var"
  | .kwFor => "for"
  | .kwEnd => "end"
  | .kwIn => "in"
  | .kwDo => "do"
  | .kwRead => "read"
  | .kwPrint => "print"
  | .kwAssert => "assert"

theorem mem_all (k : Keyword) : k ∈ all := by cases k <;> decide

end Keyword

/-- Punctuation and operators. -/
inductive Symbol
  | leftParen
  | rightParen
  | semicolon
  | colon
  | assign
  | range
  | plus
  | minus
  | star
  | slash
  | less
  | equal
  | ampersand
  | exclamation
  deriving DecidableEq, Repr

namespace Symbol

/-- Every symbol. -/
def all : List Symbol :=
  [.leftParen, .rightParen, .semicolon, .colon, .assign, .range, .plus, .minus, .star, .slash,
    .less, .equal, .ampersand, .exclamation]

/-- The text of a symbol. -/
def spelling : Symbol → String
  | .leftParen => "("
  | .rightParen => ")"
  | .semicolon => ";"
  | .colon => ":"
  | .assign => ":="
  | .range => ".."
  | .plus => "+"
  | .minus => "-"
  | .star => "*"
  | .slash => "/"
  | .less => "<"
  | .equal => "="
  | .ampersand => "&"
  | .exclamation => "!"

theorem mem_all (s : Symbol) : s ∈ all := by cases s <;> decide

end Symbol

/-! ## Kinds -/

/-- The alphabet of the grammar.  `endMarker` stands once at the end of every
tokenized text. -/
inductive Kind
  | endMarker
  | name
  | number
  | string
  | boolean
  | typeName
  | keyword (k : Keyword)
  | symbol (s : Symbol)
  deriving DecidableEq, Repr

namespace Kind

instance : Inhabited Kind := ⟨.endMarker⟩

/-- Every kind, in the order of token listings. -/
def all : List Kind :=
  [.endMarker, .name, .number, .string, .boolean, .typeName] ++
    Keyword.all.map .keyword ++ Symbol.all.map .symbol

theorem mem_all (k : Kind) : k ∈ all := by
  cases k with
  | keyword k => cases k <;> decide
  | symbol s => cases s <;> decide
  | _ => decide

/-- The name of a kind in token listings. -/
def label : Kind → String
  | .endMarker => "ENDMARKER"
  | .name => "NAME"
  | .number => "NUMBER"
  | .string => "STRING"
  | .boolean => "BOOLEAN"
  | .typeName => "TYPE"
  | .keyword .kwVar => "VAR"
  | .keyword .kwFor => "FOR"
  | .keyword .kwEnd => "END"
  | .keyword .kwIn => "IN"
  | .keyword .kwDo => "DO"
  | .keyword .kwRead => "READ"
  | .keyword .kwPrint => "PRINT"
  | .keyword .kwAssert => "ASSERT"
  | .symbol .leftParen => "LPAR"
  | .symbol .rightParen => "RPAR"
  | .symbol .semicolon => "SEMI"
  | .symbol .colon => "COLON"
  | .symbol .assign => "COLONEQUAL"
  | .symbol .range => "DOUBLEDOT"
  | .symbol .plus => "PLUS"
  | .symbol .minus => "MINUS"
  | .symbol .star => "STAR"
  | .symbol .slash => "SLASH"
  | .symbol .less => "LESS"
  | .symbol .equal => "EQUAL"
  | .symbol .ampersand => "AMPER"
  | .symbol .exclamation => "EXCLAMATION"

/-- The kind with a given label. -/
def ofLabel? (label : String) : Option Kind := all.find? fun k => k.label == label

/-- A piece of program text of this kind; the only one for keywords and
symbols. -/
def sample : Kind → String
  | .endMarker => ""
  | .name => "x"
  | .number => "0"
  | .string => "\"\""
  | .boolean => "true"
  | .typeName => "int"
  | .keyword k => k.spelling
  | .symbol s => s.spelling

/-- The kind as error messages name it. -/
def description : Kind → String
  | .endMarker => "end of input"
  | .name => "identifier"
  | .number => "integer literal"
  | .string => "string literal"
  | .boolean => "boolean literal"
  | .typeName => "type name"
  | .keyword k => "'" ++ k.spelling ++ "'"
  | .symbol s => "'" ++ s.spelling ++ "'"

end Kind

/-! ## Lexemes and tokens -/

/-- A lexeme with its decoded content. -/
inductive Lexeme
  | endMarker
  | name (text : String)
  | number (i : Int64)
  | string (content : String)
  | boolean (b : Bool)
  | typeName (ty : Ty)
  | keyword (k : Keyword)
  | symbol (s : Symbol)
  deriving DecidableEq, Repr

namespace Lexeme

/-- The kind of a lexeme, without its content. -/
def kind : Lexeme → Kind
  | .endMarker => .endMarker
  | .name _ => .name
  | .number _ => .number
  | .string _ => .string
  | .boolean _ => .boolean
  | .typeName _ => .typeName
  | .keyword k => .keyword k
  | .symbol s => .symbol s

/-- The lexeme that a word denotes.  Keywords win over the two truth values,
these over type names, and every other word is a name. -/
def ofWord (word : String) : Lexeme :=
  match Keyword.all.find? fun k => k.spelling == word with
  | some k => .keyword k
  | none =>
    match word with
    | "true" => .boolean true
    | "false" => .boolean false
    | "int" => .typeName .int
    | "string" => .typeName .string
    | "bool" => .typeName .bool
    | _ => .name word

/-- The content in token listings; nothing for lexemes determined by their
kind.  Strings are shown as they are, without escapes. -/
def content? : Lexeme → Option String
  | .name text => some ("'" ++ text ++ "'")
  | .number i => some (Decimal.write i)
  | .string content => some ("'" ++ content ++ "'")
  | .boolean true => some "true"
  | .boolean false => some "false"
  | .typeName ty => some ty.spelling
  | .endMarker | .keyword _ | .symbol _ => none

/-- The value of a literal.  A name stands for itself here, as a string: the
grammar admits only literals where this is asked. -/
def literal? : Lexeme → Option Value
  | .number i => some (.int i)
  | .string content => some (.string content)
  | .name text => some (.string text)
  | .boolean b => some (.bool b)
  | .endMarker | .typeName _ | .keyword _ | .symbol _ => none

/-- The text of a name. -/
def name? : Lexeme → Option String
  | .name text => some text
  | _ => none

/-- The type that a lexeme names. -/
def typeName? : Lexeme → Option Ty
  | .typeName ty => some ty
  | _ => none

end Lexeme

/-- A lexeme and the line, counted from one, on which it starts. -/
structure Token where
  lexeme : Lexeme
  line : Nat
  deriving DecidableEq, Repr

namespace Token

/-- The kind of a token, which is all that the parser looks at. -/
def kind (t : Token) : Kind := t.lexeme.kind

/-- The token as listings show it: the label of its kind, followed by its
content in parentheses if it has any. -/
def display (t : Token) : String :=
  match t.lexeme.content? with
  | some content => t.kind.label ++ "(" ++ content ++ ")"
  | none => t.kind.label

end Token

end Primer
