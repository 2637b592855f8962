import Primer.Token

/-!
# From tokens back to text

Every lexeme has a written form.  A string is written between quotes, with a
backslash before each quote and each backslash in it and everything else as it
is; written forms joined by blanks are tokenized to the lexemes they came from.
-/

namespace Primer

/-! ## What can be written -/

/-- Whether a text is a letter followed by letters, digits and `_`. -/
def IsWord : List Char → Prop
  | [] => False
  | c :: cs => c.isAlpha = true ∧ ∀ d ∈ cs, d.isAlpha = true ∨ d.isDigit = true ∨ d = '_'

instance : DecidablePred IsWord
  | [] => inferInstanceAs (Decidable False)
  | c :: cs =>
      -- along the list, and not over all characters
      @instDecidableAnd _ _ (instDecidableEqBool c.isAlpha true) (List.decidableBAll _ cs)

/-- A word without a meaning of its own. -/
structure IsName (text : String) : Prop where
  word : IsWord text.toList
  ne_keyword : ∀ k : Keyword, text ≠ k.spelling
  ne_boolean : ∀ b : Bool, text ≠ toString b
  ne_typeName : ∀ ty : Ty, text ≠ ty.spelling

/-- The lexemes that a text can hold.  No numeral has a sign, and the end marker
is not written. -/
def Lexeme.Writable : Lexeme → Prop
  | .endMarker => False
  | .name text => IsName text
  | .number i => 0 ≤ i.toInt
  | .string _ | .boolean _ | .typeName _ | .keyword _ | .symbol _ => True

/-! ## Written forms -/

/-- A string's content as it stands between quotes. -/
def escape : List Char → List Char
  | [] => []
  | c :: cs => if c = '"' ∨ c = '\\' then '\\' :: c :: escape cs else c :: escape cs

namespace Lexeme

/-- The written form of a lexeme.  The end marker is not written. -/
def render : Lexeme → String
  | .endMarker => ""
  | .name text => text
  | .number i => Decimal.write i
  | .string content => String.ofList ('"' :: escape content.toList ++ ['"'])
  | .boolean true => "true"
  | .boolean false => "false"
  | .typeName ty => ty.spelling
  | .keyword k => k.spelling
  | .symbol s => s.spelling

end Lexeme

/-- The written forms of lexemes, joined by single blanks. -/
def renderAll (lexemes : List Lexeme) : String :=
  String.intercalate " " (lexemes.map Lexeme.render)

end Primer
