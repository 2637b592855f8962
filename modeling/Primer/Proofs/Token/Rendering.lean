import Mathlib
import Primer.Token.Rendering
import Primer.Proofs.Token.LongestMatch

/-!
# Written lexemes are read back

The written form of a lexeme is one item of the lexical grammar, and where a
blank follows it is the longest one (`Lexeme.Writable.longest`): the blank ends a
word and a numeral, and keeps `/` and `:` from the characters behind it.  So
written forms that are joined by blanks are read back one by one.  Conversely,
what is read from a text can be written (`Item.Fits.writable`).

## Main results

* `exists_tokens_renderAll` : lexemes that can be written are read back from
  their written forms.
* `tokenize_renderAll` : that, and in consequence the lexemes of every text are
  read back from their written forms.
-/

namespace Primer

/-! ## Numerals -/

namespace Decimal

variable {i : Int64}

theorem toList_write (hi : 0 ≤ i.toInt) : (write i).toList = Nat.toDigits 10 i.toInt.toNat := by
  obtain ⟨n, hn⟩ := Int.eq_ofNat_of_zero_le hi
  rw [write, hn]
  show (Nat.repr n).toList = _
  rw [Nat.repr_eq_ofList_toDigits, String.toList_ofList, Int.toNat_natCast]

theorem isDigit_of_mem_write (hi : 0 ≤ i.toInt) : ∀ c ∈ (write i).toList, c.isDigit = true := by
  intro c hc
  rw [toList_write hi] at hc
  exact Nat.isDigit_of_mem_toDigits (by omega) (le_refl 10) hc

theorem toList_write_ne_nil (hi : 0 ≤ i.toInt) : (write i).toList ≠ [] := by
  rw [toList_write hi]
  exact Nat.toDigits_ne_nil

theorem ofDigits_write (hi : 0 ≤ i.toInt) : (ofDigits (write i).toList : Int) = i.toInt := by
  rw [toList_write hi, ofDigits, Nat.ofDigitChars_ten_toDigits, Int.toNat_of_nonneg hi]

end Decimal

namespace Lexer

/-! ## Written forms before a blank -/

section Written

variable {text rest : List Char}

/-- What follows the written form of a lexeme: nothing, or a blank first. -/
def Separated (rest : List Char) : Prop := ∀ c ∈ rest.head?, isBlank c = true

/-- A blank is none of the other characters that the grammar names. -/
theorem ne_of_isBlank {c d : Char} (hc : isBlank c = true) (hd : isBlank d = false) : c ≠ d := by
  rintro rfl
  exact Bool.false_ne_true (hd.symm.trans hc)

theorem Separated.head?_ne (hrest : Separated rest) {d : Char} (hd : isBlank d = false) :
    rest.head? ≠ some d := fun hhead => ne_of_isBlank (hrest d hhead) hd rfl

theorem not_isAlphanum_of_isBlank {c : Char} (hc : isBlank c = true) :
    c.isAlpha = false ∧ c.isDigit = false := by
  have hneither : ¬ (c.isAlpha = true ∨ c.isDigit = true) := fun heither =>
    ne_of_isBlank hc (isBlank_of_isAlphanum heither) rfl
  simpa [not_or] using hneither

theorem Separated.endsNumber (hrest : Separated rest) : EndsNumber rest := by
  intro c hc
  obtain ⟨hletter, hdigit⟩ := not_isAlphanum_of_isBlank (hrest c hc)
  exact ⟨hdigit, hletter⟩

theorem Separated.endsWord (hrest : Separated rest) :
    ∀ c ∈ rest.head?, isWordCharacter c = false := by
  intro c hc
  obtain ⟨hletter, hdigit⟩ := not_isAlphanum_of_isBlank (hrest c hc)
  have hunderscore : c ≠ '_' := ne_of_isBlank (hrest c hc) rfl
  simp [isWordCharacter, Char.isAlphanum, hletter, hdigit, hunderscore]

theorem longest_word {lexeme : Lexeme} (hword : IsWord text)
    (hdenotes : Denotes (String.ofList text) lexeme) (hrest : Separated rest) :
    Item.Longest (text ++ rest) ⟨text, some lexeme, rest⟩ := by
  cases text with
  | nil => exact hword.elim
  | cons c cs =>
      obtain ⟨hletter, hothers⟩ := hword
      obtain ⟨htake, hdrop⟩ :=
        takeWhile_of_ends (forall_isWordCharacter hletter hothers) hrest.endsWord
      rw [List.cons_append] at htake hdrop ⊢
      apply nextItem_eq_ok.mp
      rw [nextItem_of_isAlpha hletter, word, htake, hdrop, ← hdenotes.eq_ofWord]

/-- Digits that neither a digit nor a letter follows are an item, if their value fits a word. -/
theorem longest_digits {i : Int64} (hnonempty : text ≠ []) (hdigits : ∀ c ∈ text, c.isDigit = true)
    (hrest : EndsNumber rest) (hvalue : i.toInt = Decimal.ofDigits text) :
    Item.Longest (text ++ rest) ⟨text, some (.number i), rest⟩ := by
  have hnumber := number_of_ends hdigits hrest
  rw [word?_eq_some.mpr hvalue] at hnumber
  obtain ⟨c, cs, rfl⟩ := List.exists_cons_of_ne_nil hnonempty
  apply nextItem_eq_ok.mp
  rw [nextItem_of_isDigit (hdigits c List.mem_cons_self)]
  exact hnumber

theorem longest_write {i : Int64} (hi : 0 ≤ i.toInt) (hrest : Separated rest) :
    Item.Longest ((Decimal.write i).toList ++ rest)
      ⟨(Decimal.write i).toList, some (.number i), rest⟩ :=
  longest_digits (Decimal.toList_write_ne_nil hi) (Decimal.isDigit_of_mem_write hi)
    hrest.endsNumber (Decimal.ofDigits_write hi).symm

theorem quoted_escape (content : List Char) : Quoted (escape content) content := by
  induction content with
  | nil => exact .nil
  | cons c content ih =>
      unfold escape
      split
      · next hspecial =>
          -- behind a backslash, neither of the two has a meaning of its own
          refine .escaped ?_ ?_ ih
          · rcases hspecial with rfl | rfl <;> decide
          · rcases hspecial with rfl | rfl <;> decide
      · next hplain =>
          obtain ⟨hquote, hbackslash⟩ := not_or.mp hplain
          exact .plain hquote hbackslash ih

theorem longest_quoted {content : List Char} (hquoted : Quoted text content) (rest : List Char) :
    Item.Longest ('"' :: (text ++ ['"']) ++ rest)
      ⟨'"' :: (text ++ ['"']), some (.string (String.ofList content)), rest⟩ := by
  rw [List.cons_append, List.append_assoc]
  apply nextItem_eq_ok.mp
  simp only [nextItem, List.singleton_append, hquoted.stringBody?]

theorem longest_symbol (s : Symbol) (hrest : Separated rest) :
    Item.Longest (s.spelling.toList ++ rest) ⟨s.spelling.toList, some (.symbol s), rest⟩ := by
  cases s with
  | slash => exact nextItem_eq_ok.mp (nextItem_slash (hrest.head?_ne rfl) (hrest.head?_ne rfl))
  | colon => exact nextItem_eq_ok.mp (nextItem_colon (hrest.head?_ne rfl))
  | _ => exact nextItem_eq_ok.mp rfl

end Written

end Lexer

open Lexer

namespace Lexeme

variable {lexeme : Lexeme} {rest : List Char}

/-- Where a blank follows, the written form of a lexeme is the longest item, and
is read as that lexeme. -/
theorem Writable.longest (hwritable : lexeme.Writable) (hrest : Separated rest) :
    Item.Longest (lexeme.render.toList ++ rest) ⟨lexeme.render.toList, some lexeme, rest⟩ := by
  -- only a quoted text ends by itself; all else ends because of what separates it from the rest
  cases lexeme with
  | endMarker => exact hwritable.elim
  | name text =>
      obtain ⟨hword, hkeyword, hboolean, htypeName⟩ := hwritable
      refine longest_word hword ?_ hrest
      rw [render, String.ofList_toList]
      exact .name hkeyword hboolean htypeName
  | number i => exact longest_write hwritable hrest
  | string content =>
      have hlongest := longest_quoted (quoted_escape content.toList) rest
      rw [String.ofList_toList] at hlongest
      rwa [render, String.toList_ofList]
  | boolean b =>
      cases b with
      | false => exact longest_word (by decide) (.boolean false) hrest
      | true => exact longest_word (by decide) (.boolean true) hrest
  | typeName ty =>
      refine longest_word (by cases ty <;> decide) ?_ hrest
      rw [render, String.ofList_toList]
      exact .typeName ty
  | keyword k =>
      refine longest_word (by cases k <;> decide) ?_ hrest
      rw [render, String.ofList_toList]
      exact .keyword k
  | symbol s => exact longest_symbol s hrest

theorem Writable.tokensFrom_append (hwritable : lexeme.Writable) (hrest : Separated rest)
    (line : Nat) :
    tokensFrom line (lexeme.render.toList ++ rest) =
      (tokensFrom (line + lineBreaks lexeme.render.toList) rest).map ([⟨lexeme, line⟩] ++ ·) := by
  rw [(Decomposes.next (hwritable.longest hrest) (.done rest)).tokensFrom_eq]
  simp [Item.textOf, Item.tokensOf]

end Lexeme

/-! ## Lists of written forms -/

section Lists

variable {lexemes : List Lexeme}

/-- The written forms of lexemes, each after a blank. -/
def spaced (lexemes : List Lexeme) : List Char :=
  lexemes.flatMap fun lexeme => ' ' :: lexeme.render.toList

theorem separated_spaced (lexemes : List Lexeme) : Separated (spaced lexemes) := by
  cases lexemes with
  | nil => exact fun _ hhead => nomatch hhead
  | cons lexeme lexemes =>
      rintro c ⟨⟩
      decide

theorem toList_renderAll_cons (lexeme : Lexeme) (lexemes : List Lexeme) :
    (renderAll (lexeme :: lexemes)).toList = lexeme.render.toList ++ spaced lexemes := by
  induction lexemes generalizing lexeme with
  | nil => simp [renderAll, spaced]
  | cons next lexemes ih =>
      have hjoin : renderAll (lexeme :: next :: lexemes) =
          lexeme.render ++ " " ++ renderAll (next :: lexemes) := String.intercalate_cons_cons
      rw [hjoin, String.toList_append, ih, String.toList_append, List.append_assoc]
      rfl

theorem exists_tokensFrom_spaced (hwritable : ∀ lexeme ∈ lexemes, lexeme.Writable) (line : Nat) :
    ∃ tokens, tokensFrom line (spaced lexemes) = .ok tokens ∧
      tokens.map Token.lexeme = lexemes ++ [.endMarker] := by
  induction lexemes generalizing line with
  | nil => exact ⟨[⟨.endMarker, line⟩], tokensFrom_nil line, rfl⟩
  | cons lexeme lexemes ih =>
      obtain ⟨hlexeme, hothers⟩ := List.forall_mem_cons.mp hwritable
      have hblank : isBlank ' ' = true := by decide
      obtain ⟨tokens, htokens, hmap⟩ := ih hothers (line + lineBreaks lexeme.render.toList)
      have hspaced : spaced (lexeme :: lexemes) =
          ' ' :: (lexeme.render.toList ++ spaced lexemes) := rfl
      refine ⟨⟨lexeme, line⟩ :: tokens, ?_, by simp [hmap]⟩
      rw [hspaced, tokensFrom_of_isBlank hblank]
      show tokensFrom line _ = _
      rw [hlexeme.tokensFrom_append (separated_spaced lexemes), htokens]
      rfl

/-- The blank before the first written form makes no difference. -/
theorem tokenize_renderAll_eq (lexemes : List Lexeme) :
    tokenize (renderAll lexemes) = tokensFrom 1 (spaced lexemes) := by
  cases lexemes with
  | nil => rfl
  | cons lexeme lexemes =>
      have hblank : isBlank ' ' = true := by decide
      rw [tokenize, toList_renderAll_cons]
      exact (tokensFrom_of_isBlank hblank 1 _).symm

/-- Lexemes that can be written are read back from their written forms. -/
theorem exists_tokens_renderAll (hwritable : ∀ lexeme ∈ lexemes, lexeme.Writable) :
    ∃ tokens, tokenize (renderAll lexemes) = .ok tokens ∧
      tokens.map Token.lexeme = lexemes ++ [.endMarker] := by
  rw [tokenize_renderAll_eq]
  exact exists_tokensFrom_spaced hwritable 1

end Lists

/-! ## What is read can be written -/

section Read

variable {text remaining : List Char} {lexeme : Lexeme}

/-- What an item is read as can be written. -/
theorem Lexer.Item.Fits.writable {item : Item} (hfits : item.Fits)
    (hlexeme : item.lexeme? = some lexeme) : lexeme.Writable := by
  cases hfits with
  | symbol _ =>
      cases hlexeme
      trivial
  | @number digits rest i _ _ _ hvalue =>
      cases hlexeme
      show 0 ≤ i.toInt
      rw [hvalue]
      exact Int.natCast_nonneg _
  | @word c cs rest lexeme' hfirst hothers hdenotes =>
      cases hlexeme
      have hword : IsWord (String.ofList (c :: cs)).toList := by
        rw [String.toList_ofList]
        exact ⟨hfirst, hothers⟩
      generalize String.ofList (c :: cs) = word at hword hdenotes
      -- a name was told apart from the other words when it was scanned
      cases hdenotes with
      | name hkeyword hboolean htypeName => exact ⟨hword, hkeyword, hboolean, htypeName⟩
      | _ => trivial
  | string _ =>
      cases hlexeme
      trivial
  | _ => cases hlexeme

theorem Lexer.Decomposes.writable {items : List Item} (hitems : Decomposes text items remaining) :
    ∀ lexeme ∈ items.filterMap Item.lexeme?, lexeme.Writable := by
  induction hitems with
  | done => exact fun _ hmem => nomatch hmem
  | @next text remaining item items hitem _ ih =>
      intro lexeme hmem
      obtain ⟨other, hother, hlexeme⟩ := List.mem_filterMap.mp hmem
      rcases List.mem_cons.mp hother with rfl | hother
      · exact hitem.fits.writable hlexeme
      · exact ih lexeme (List.mem_filterMap.mpr ⟨other, hother, hlexeme⟩)

/-- The tokens of a text are those of lexemes that can be written, and the end marker. -/
theorem exists_writable_of_tokenize {source : String} {tokens : List Token}
    (htokens : tokenize source = .ok tokens) :
    ∃ lexemes : List Lexeme, tokens.map Token.lexeme = lexemes ++ [.endMarker] ∧
      ∀ lexeme ∈ lexemes, lexeme.Writable := by
  obtain ⟨items, hitems, rfl⟩ := exists_items_of_tokensFrom htokens
  exact ⟨items.filterMap Item.lexeme?, by simp, hitems.writable⟩

end Read

/-- Writing lexemes and tokenizing what is written gives them back.  So do the
lexemes of a text, however that text was laid out and its strings were escaped. -/
theorem tokenize_renderAll :
    (∀ lexemes : List Lexeme, (∀ lexeme ∈ lexemes, lexeme.Writable) →
      ∃ tokens, tokenize (renderAll lexemes) = .ok tokens ∧
        tokens.map Token.lexeme = lexemes ++ [.endMarker]) ∧
    ∀ source tokens, tokenize source = .ok tokens →
      ∃ again, tokenize (renderAll (tokens.dropLast.map Token.lexeme)) = .ok again ∧
        again.map Token.lexeme = tokens.map Token.lexeme := by
  refine ⟨fun lexemes => exists_tokens_renderAll, fun source tokens htokens => ?_⟩
  obtain ⟨lexemes, hlexemes, hwritable⟩ := exists_writable_of_tokenize htokens
  obtain ⟨again, hagain, hmap⟩ := exists_tokens_renderAll hwritable
  have hinit : tokens.dropLast.map Token.lexeme = lexemes := by
    rw [List.map_dropLast, hlexemes, List.dropLast_concat]
  exact ⟨again, hinit ▸ hagain, hmap.trans hlexemes.symm⟩

/-- Neither `/` and `*` nor `:` and `=` join when they are written, and comments
in a string do not begin. -/
theorem tokenize_renderAll_adjacent :
    let lexemes : List Lexeme := [.name "fort", .symbol .slash, .symbol .star, .symbol .colon,
      .symbol .equal, .number 9223372036854775807, .string "\"//\\\n/*"]
    let source := "fort/ *: =9223372036854775807\"\\\"//\\\\\\n/*\"// the end"
    (∃ tokens, tokenize (renderAll lexemes) = .ok tokens ∧
      tokens.map Token.lexeme = lexemes ++ [.endMarker]) ∧
    ∃ tokens again, tokenize source = .ok tokens ∧
      tokens.map Token.lexeme = lexemes ++ [.endMarker] ∧
      tokenize (renderAll lexemes) = .ok again ∧
      again.map Token.lexeme = tokens.map Token.lexeme := by
  intro lexemes source
  have hname : IsName "fort" := by
    refine ⟨by decide, fun k => ?_, by decide, fun ty => ?_⟩
    · cases k <;> decide
    · cases ty <;> decide
  have hwritable : ∀ lexeme ∈ lexemes, lexeme.Writable := by
    simp [lexemes, Lexeme.Writable, hname]
  have hsource : tokenize source = .ok ((lexemes ++ [Lexeme.endMarker]).map (⟨·, 1⟩)) := by cbv
  obtain ⟨again, hagain, hmap⟩ := tokenize_renderAll.2 source _ hsource
  exact ⟨tokenize_renderAll.1 lexemes hwritable, _, again, hsource, rfl, hagain, hmap⟩

end Primer
