import Mathlib
import Primer.Token.LexicalGrammar
import Primer.Proofs.Token.Restart

/-!
# The longest item is taken

Scanning takes off a text exactly the longest item of the lexical grammar, and
reports a fault exactly where none fits.  Two items that fit at one point begin
alike, so they are of one kind: two runs of blanks, a word and its beginning, or
`:` and `:=`.  Where one fits, the one that is taken therefore is the same or a
longer one (`Item.Fits.exists_reachesTo`), and what is taken fits
(`sound_nextItem`).

## Main results

* `nextItem_eq_ok`, `nextItem_eq_error` : what is taken is the longest item, and
  the fault is what is wrong.
* `tokenize_decomposes` : the tokens of a text are those of its decomposition.
-/

namespace Primer.Lexer

/-! ## Comments and strings -/

section Scanning

variable {cs body rest text content : List Char}

theorem splitLine_body (hbody : '\n' ∉ body) (rest : List Char) :
    splitLine (body ++ '\n' :: rest) = (body ++ ['\n'], rest) := by
  induction body with
  | nil => rfl
  | cons c body ih =>
      obtain ⟨hc, hbody⟩ := not_or.mp (mt List.mem_cons.mpr hbody)
      simp [splitLine, Ne.symm hc, ih hbody]

theorem splitLine_last (hbody : '\n' ∉ body) : splitLine body = (body, []) := by
  induction body with
  | nil => rfl
  | cons c body ih =>
      obtain ⟨hc, hbody⟩ := not_or.mp (mt List.mem_cons.mpr hbody)
      simp [splitLine, Ne.symm hc, ih hbody]

theorem splitBlock?_body (hbody : ¬ ['*', '/'] <:+: body ++ ['*']) (rest : List Char) :
    splitBlock? (body ++ '*' :: '/' :: rest) = some (body ++ ['*', '/'], rest) := by
  induction body with
  | nil => rfl
  | cons c body ih =>
      have hinner : ¬ ['*', '/'] <:+: body ++ ['*'] := fun hoccurs =>
        hbody (hoccurs.trans (List.suffix_cons c _).isInfix)
      rw [List.cons_append, splitBlock?]
      · rw [ih hinner]
        rfl
      · -- the comment would have ended before
        rintro ds rfl hds
        cases body with
        | nil => cases hds
        | cons d body =>
            cases hds
            exact hbody ⟨[], body ++ ['*'], rfl⟩

theorem exists_body_of_splitBlock? {block : List Char}
    (hsplit : splitBlock? cs = some (block, rest)) :
    ∃ body, block = body ++ ['*', '/'] ∧ ¬ ['*', '/'] <:+: body ++ ['*'] := by
  fun_induction splitBlock? cs generalizing block with
  | case1 => cases hsplit
  | case2 cs =>
      cases hsplit
      exact ⟨[], rfl, by decide⟩
  | case3 c cs hother ih =>
      obtain ⟨⟨inner, after⟩, hinner, heq⟩ := Option.map_eq_some_iff.mp hsplit
      cases heq
      obtain ⟨body, rfl, hbody⟩ := ih hinner
      refine ⟨c :: body, rfl, fun hoccurs => ?_⟩
      -- an end in the longer body begins at its first character or lies in the rest
      rcases List.infix_cons_iff.mp hoccurs with hstart | hlater
      · obtain ⟨more, hmore⟩ := hstart
        cases body with
        | nil => cases hmore
        | cons d body =>
            cases hmore
            rw [← splitBlock?_append hinner] at hother
            exact hother _ rfl rfl
      · exact hbody hlater

theorem splitBlock?_eq_none : splitBlock? cs = none ↔ ¬ ['*', '/'] <:+: cs := by
  constructor
  · intro hsplit hoccurs
    fun_induction splitBlock? cs with
    | case1 => simp at hoccurs
    | case2 => cases hsplit
    | case3 c cs hother ih =>
        rcases List.infix_cons_iff.mp hoccurs with ⟨more, hmore⟩ | hlater
        · cases hmore
          exact hother more rfl rfl
        · exact ih (Option.map_eq_none_iff.mp hsplit) hlater
  · intro hoccurs
    cases hsplit : splitBlock? cs with
    | none => rfl
    | some split =>
        obtain ⟨block, rest⟩ := split
        obtain ⟨body, rfl, -⟩ := exists_body_of_splitBlock? hsplit
        refine absurd ⟨body, rest, ?_⟩ hoccurs
        rw [← splitBlock?_append hsplit]

theorem Quoted.stringBody? (hquoted : Quoted text content) (rest : List Char) :
    stringBody? (text ++ '"' :: rest) = some (content, text ++ ['"'], rest) := by
  induction hquoted with
  | nil => rfl
  | @plain c text content hquote hbackslash _ ih =>
      rw [List.cons_append, Lexer.stringBody?]
      · rw [ih]
        rfl
      · exact hquote
      · exact fun _ _ hc => absurd hc hbackslash
  | lineBreak _ ih => simp [Lexer.stringBody?, ih, unescape]
  | tabulator _ ih => simp [Lexer.stringBody?, ih, unescape]
  | @escaped c _ _ hn ht _ ih => simp [Lexer.stringBody?, ih, unescape]

theorem Quoted.escape {c : Char} (hquoted : Quoted text content) :
    Quoted ('\\' :: c :: text) (unescape c :: content) := by
  unfold unescape
  split
  · exact .lineBreak hquoted
  · exact .tabulator hquoted
  · next hn ht => exact .escaped hn ht hquoted

theorem quoted_of_stringBody? (hbody : stringBody? cs = some (content, text, rest)) :
    ∃ body, text = body ++ ['"'] ∧ Quoted body content := by
  fun_induction stringBody? cs generalizing content text with
  | case1 => cases hbody
  | case2 cs =>
      cases hbody
      exact ⟨[], rfl, .nil⟩
  | case3 c cs ih =>
      obtain ⟨⟨inner, read, after⟩, hinner, heq⟩ := Option.map_eq_some_iff.mp hbody
      cases heq
      obtain ⟨body, rfl, hquoted⟩ := ih hinner
      exact ⟨'\\' :: c :: body, rfl, hquoted.escape⟩
  | case4 c cs hquote hescape ih =>
      obtain ⟨⟨inner, read, after⟩, hinner, heq⟩ := Option.map_eq_some_iff.mp hbody
      cases heq
      obtain ⟨body, rfl, hquoted⟩ := ih hinner
      refine ⟨c :: body, rfl, .plain hquote ?_ hquoted⟩
      rintro rfl
      cases cs with
      | nil => cases hinner
      | cons d ds => exact hescape d ds rfl rfl

theorem stringBody?_eq_none :
    stringBody? cs = none ↔
      ∀ text content after, cs = text ++ '"' :: after → ¬ Quoted text content := by
  constructor
  · rintro hbody text content after rfl hquoted
    cases hbody.symm.trans (hquoted.stringBody? after)
  · intro hopen
    cases hbody : stringBody? cs with
    | none => rfl
    | some split =>
        obtain ⟨content, text, rest⟩ := split
        obtain ⟨body, rfl, hquoted⟩ := quoted_of_stringBody? hbody
        refine absurd hquoted (hopen body content rest ?_)
        rw [← stringBody?_append hbody, List.append_assoc]
        rfl

end Scanning

/-! ## Words and numbers -/

theorem denotes_ofWord (word : String) : Denotes word (.ofWord word) := by
  unfold Lexeme.ofWord
  split
  · next k hfind =>
      have hk : k.spelling = word := by simpa using List.find?_some hfind
      exact hk ▸ .keyword k
  · next hfind =>
      split
      · exact .boolean true
      · exact .boolean false
      · exact .typeName .int
      · exact .typeName .string
      · exact .typeName .bool
      · next htrue hfalse hint hstring hbool =>
          -- no other reading of the word was found, so it is a name
          refine .name (fun k hk => ?_) (fun b hb => ?_) fun ty hty => ?_
          · exact absurd hk.symm (by simpa using List.find?_eq_none.mp hfind k (Keyword.mem_all k))
          · cases b
            · exact hfalse hb
            · exact htrue hb
          · cases ty
            · exact hint hty
            · exact hstring hty
            · exact hbool hty

theorem Denotes.eq_ofWord {word : String} {lexeme : Lexeme} (hdenotes : Denotes word lexeme) :
    lexeme = .ofWord word := by
  cases hdenotes with
  | keyword k => cases k <;> decide
  | boolean b => cases b <;> decide
  | typeName ty => cases ty <;> decide
  | name hkeyword hboolean htypeName =>
      have hword := denotes_ofWord word
      generalize Lexeme.ofWord word = lexeme at hword ⊢
      cases hword with
      | keyword k => exact absurd rfl (hkeyword k)
      | boolean b => exact absurd rfl (hboolean b)
      | typeName ty => exact absurd rfl (htypeName ty)
      | name _ _ _ => rfl

theorem word?_eq_some {n : Int} {i : Int64} : Decimal.word? n = some i ↔ i.toInt = n := by
  unfold Decimal.word?
  constructor
  · intro hword
    split at hword
    · next hrange =>
        cases hword
        have hmax : Int64.maxValue.toInt = 2 ^ 63 - 1 := rfl
        exact Int64.toInt_ofInt_of_le hrange.1 (by omega)
    · cases hword
  · rintro rfl
    rw [if_pos ⟨Int64.minValue_le_toInt i, Int64.toInt_le i⟩, Int64.ofInt_toInt]

theorem word?_eq_none {n : Int} : Decimal.word? n = none ↔ ¬(-2 ^ 63 ≤ n ∧ n < 2 ^ 63) := by
  have hmin : Int64.minValue.toInt = -2 ^ 63 := rfl
  have hmax : Int64.maxValue.toInt = 2 ^ 63 - 1 := rfl
  rw [Decimal.word?, hmin, hmax, ite_eq_right_iff]
  simp only [reduceCtorEq, imp_false]
  omega

theorem word?_natCast_eq_none {n : Nat} : Decimal.word? n = none ↔ 2 ^ 63 ≤ n := by
  rw [word?_eq_none]
  omega

theorem forall_isWordCharacter {c : Char} {cs : List Char} (hfirst : c.isAlpha = true)
    (hothers : ∀ d ∈ cs, d.isAlpha = true ∨ d.isDigit = true ∨ d = '_') :
    ∀ d ∈ c :: cs, isWordCharacter d = true := by
  intro d hd
  rcases List.mem_cons.mp hd with rfl | hd
  · simp [isWordCharacter, Char.isAlphanum, hfirst]
  · simpa [isWordCharacter, Char.isAlphanum, or_assoc] using hothers d hd

section Numbers

variable {digits rest : List Char}

theorem isDigit_of_isAlpha {c : Char} (hletter : c.isAlpha = true) : c.isDigit = false := by
  grind [Char.isAlpha, Char.isUpper, Char.isLower, Char.isDigit]

theorem takeWhile_of_ends {p : Char → Bool} {text : List Char} (hall : ∀ c ∈ text, p c = true)
    (hends : ∀ c ∈ rest.head?, p c = false) :
    (text ++ rest).takeWhile p = text ∧ (text ++ rest).dropWhile p = rest := by
  rw [List.takeWhile_append_of_pos hall, List.dropWhile_append_of_pos hall]
  cases rest with
  | nil => simp
  | cons c cs => simp [hends c rfl]

theorem number_of_ends (hdigits : ∀ c ∈ digits, c.isDigit = true) (hends : EndsNumber rest) :
    number (digits ++ rest) =
      match Decimal.word? (Decimal.ofDigits digits) with
      | some i => .ok ⟨digits, some (.number i), rest⟩
      | none => .error (.literalOutOfRange (String.ofList digits)) := by
  obtain ⟨htake, hdrop⟩ := takeWhile_of_ends hdigits fun c hc => (hends c hc).1
  have hletter : rest.head?.filter Char.isAlpha = none :=
    Option.filter_eq_none_iff.mpr fun c hc => by simp [(hends c hc).2]
  rw [number, htake, hdrop]
  cases Decimal.word? (Decimal.ofDigits digits) <;> simp only [hletter]

theorem number_of_letter {c : Char} (hdigits : ∀ c ∈ digits, c.isDigit = true)
    (hletter : c.isAlpha = true) (rest : List Char) :
    number (digits ++ c :: rest) = .error (.unexpectedCharacter c) := by
  have hends : ∀ d ∈ (c :: rest).head?, d.isDigit = false := by
    rintro d ⟨⟩
    exact isDigit_of_isAlpha hletter
  obtain ⟨-, hdrop⟩ := takeWhile_of_ends hdigits hends
  simp only [number, hdrop, List.head?_cons, Option.filter_some_pos hletter]

end Numbers

/-! ## Where an item fits, it is taken or a longer one -/

section Completeness

variable {c : Char} {cs : List Char} {item : Item}

theorem nextItem_slash {rest : List Char} (hline : rest.head? ≠ some '/')
    (hblock : rest.head? ≠ some '*') :
    nextItem '/' rest = .ok ⟨['/'], some (.symbol .slash), rest⟩ := by
  refine (nextItem.eq_8 '/' rest (by decide) ?_ ?_ ?_ ?_ ?_ ?_).trans rfl
  · rintro ds - rfl
    exact hline rfl
  · rintro ds - rfl
    exact hblock rfl
  all_goals simp

theorem nextItem_colon {rest : List Char} (hassign : rest.head? ≠ some '=') :
    nextItem ':' rest = .ok ⟨[':'], some (.symbol .colon), rest⟩ := by
  refine (nextItem.eq_8 ':' rest (by decide) ?_ ?_ ?_ ?_ ?_ ?_).trans rfl
  case refine_3 =>
    rintro ds - rfl
    exact hassign rfl
  all_goals simp

theorem isBlank_of_isAlphanum {c : Char} (hc : c.isAlpha = true ∨ c.isDigit = true) :
    isBlank c = false := by
  have hrange : 48 ≤ c.toNat ∧ c.toNat ≤ 122 := by
    simp only [Char.isAlpha, Char.isUpper, Char.isLower, Char.isDigit, Bool.or_eq_true,
      Bool.and_eq_true, decide_eq_true_eq, UInt32.le_iff_toNat_le, Char.reduceVal,
      UInt32.reduceToNat, ← Char.toNat_val, ge_iff_le] at hc ⊢
    omega
  simp [isBlank, blankRanges]
  omega

theorem nextItem_of_isDigit (hdigit : c.isDigit = true) (cs : List Char) :
    nextItem c cs = number (c :: cs) := by
  obtain ⟨hplain, hsymbol⟩ := nextItem_of_class hdigit rfl cs
  rw [hplain, plainItem, hsymbol]
  simp [isBlank_of_isAlphanum (.inr hdigit), hdigit]

theorem nextItem_of_isAlpha (hletter : c.isAlpha = true) (cs : List Char) :
    nextItem c cs = .ok (word (c :: cs)) := by
  obtain ⟨hplain, hsymbol⟩ := nextItem_of_class hletter rfl cs
  rw [hplain, plainItem, hsymbol]
  simp [isBlank_of_isAlphanum (.inl hletter), isDigit_of_isAlpha hletter, hletter]

/-- What is taken is the item, or it is longer. -/
def Item.ReachesTo (item taken : Item) : Prop :=
  item = taken ∨ item.text.length < taken.text.length

/-- A run of characters of a class reaches as far as they do. -/
theorem reachesTo_takeWhile {p : Char → Bool} {text rest : List Char}
    (hall : ∀ d ∈ text, p d = true) {lexeme? lexeme?' : Option Lexeme}
    (hlexeme : rest.takeWhile p = [] → lexeme? = lexeme?') :
    Item.ReachesTo ⟨text, lexeme?, rest⟩
      ⟨(text ++ rest).takeWhile p, lexeme?', (text ++ rest).dropWhile p⟩ := by
  rw [List.takeWhile_append_of_pos hall, List.dropWhile_append_of_pos hall]
  cases rest with
  | nil => exact .inl (by simp [hlexeme rfl])
  | cons d ds =>
      cases hd : p d with
      | false => exact .inl (by simp [hd, hlexeme])
      | true => exact .inr (by simp [hd])

theorem symbol_reachesTo {s : Symbol} {rest : List Char}
    (hslash : s = .slash → rest.head? ≠ some '/' ∧ rest.head? ≠ some '*')
    (htext : s.spelling.toList ++ rest = c :: cs) :
    ∃ taken, nextItem c cs = .ok taken ∧
      Item.ReachesTo ⟨s.spelling.toList, some (.symbol s), rest⟩ taken := by
  cases s with
  | slash =>
      cases htext
      obtain ⟨hline, hblock⟩ := hslash rfl
      exact ⟨_, nextItem_slash hline hblock, .inl rfl⟩
  | colon =>
      cases htext
      by_cases hequal : rest.head? = some '='
      · obtain ⟨ds, rfl⟩ := List.head?_eq_some_iff.mp hequal
        exact ⟨_, rfl, .inr (Nat.lt_succ_self 1)⟩
      · exact ⟨_, nextItem_colon hequal, .inl rfl⟩
  | _ =>
      cases htext
      exact ⟨_, rfl, .inl rfl⟩

/-- Where an item of the grammar fits, that item is taken or a longer one. -/
theorem Item.Fits.exists_reachesTo (hfits : item.Fits) (htext : item.text ++ item.rest = c :: cs) :
    ∃ taken, nextItem c cs = .ok taken ∧ item.ReachesTo taken := by
  cases hfits with
  | @blanks text rest hnonempty hblank =>
      obtain ⟨d, ds, rfl⟩ := List.exists_cons_of_ne_nil hnonempty
      obtain ⟨rfl, rfl⟩ := List.cons.inj htext
      have hd : isBlank d = true := hblank d List.mem_cons_self
      -- the scanner takes the whole run of blanks, of which the given ones are the beginning
      have hreaches :
          Item.ReachesTo ⟨d :: ds, none, rest⟩ ⟨(d :: ds ++ rest).takeWhile isBlank, none,
            (d :: ds ++ rest).dropWhile isBlank⟩ :=
        reachesTo_takeWhile hblank fun _ => rfl
      rw [List.cons_append, List.takeWhile_cons_of_pos hd, List.dropWhile_cons_of_pos hd]
        at hreaches
      exact ⟨_, nextItem_of_isBlank hd _, hreaches⟩
  | lineComment hbody =>
      cases htext
      exact ⟨_, by simp [nextItem, splitLine_body hbody], .inl rfl⟩
  | lastLine hbody =>
      cases htext
      exact ⟨_, by simp [nextItem, splitLine_last hbody], .inl rfl⟩
  | blockComment hbody =>
      cases htext
      exact ⟨_, by simp [nextItem, splitBlock?_body hbody], .inl rfl⟩
  | symbol hslash => exact symbol_reachesTo hslash htext
  | @number digits rest i hnonempty hdigits hends hvalue =>
      obtain ⟨d, ds, rfl⟩ := List.exists_cons_of_ne_nil hnonempty
      obtain ⟨rfl, rfl⟩ := List.cons.inj htext
      have hnumber := number_of_ends hdigits hends
      rw [word?_eq_some.mpr hvalue] at hnumber
      exact ⟨_, (nextItem_of_isDigit (hdigits d List.mem_cons_self) _).trans hnumber, .inl rfl⟩
  | @word d ds rest lexeme hfirst hothers hdenotes =>
      obtain ⟨rfl, rfl⟩ := List.cons.inj htext
      refine ⟨_, nextItem_of_isAlpha hfirst _, ?_⟩
      have hword : ∀ e ∈ d :: ds, isWordCharacter e = true := forall_isWordCharacter hfirst hothers
      -- the scanner may take a longer word; only the same word denotes the same lexeme
      refine reachesTo_takeWhile hword fun hnone => ?_
      have htake : (d :: (ds ++ rest)).takeWhile isWordCharacter = d :: ds := by
        rw [← List.cons_append, List.takeWhile_append_of_pos hword, hnone, List.append_nil]
      exact congrArg some (htake ▸ hdenotes.eq_ofWord)
  | string hquoted =>
      cases htext
      exact ⟨_, by simp [nextItem, hquoted.stringBody?], .inl rfl⟩

end Completeness

/-! ## What is taken fits -/

section Soundness

variable {c : Char} {cs : List Char}

/-- What is taken off a text fits the grammar, or the text is malformed as reported. -/
def Sound (text : List Char) : Except Fault Item → Prop
  | .ok item => item.Fits
  | .error fault => Malformed text fault

theorem sound_number (hdigit : c.isDigit = true) (cs : List Char) :
    Sound (c :: cs) (number (c :: cs)) := by
  obtain ⟨digits, hdigits⟩ : ∃ digits, digits = (c :: cs).takeWhile Char.isDigit := ⟨_, rfl⟩
  obtain ⟨rest, hrest⟩ : ∃ rest, rest = (c :: cs).dropWhile Char.isDigit := ⟨_, rfl⟩
  have happend : digits ++ rest = c :: cs := by
    rw [hdigits, hrest, List.takeWhile_append_dropWhile]
  have hnonempty : digits ≠ [] := by
    rw [hdigits, List.takeWhile_cons_of_pos hdigit]
    exact List.cons_ne_nil _ _
  have hall : ∀ d ∈ digits, d.isDigit = true := fun d hd =>
    List.mem_takeWhile_imp (hdigits ▸ hd)
  have hstop : ∀ d ∈ rest.head?, d.isDigit = false := fun d hd => by
    simpa [hrest ▸ Option.mem_def.mp hd] using List.head?_dropWhile_not Char.isDigit (c :: cs)
  rw [← happend]
  -- what follows the digits decides: a letter is a fault, anything else ends the numeral
  cases hletter : rest.head?.filter Char.isAlpha with
  | some letter =>
      obtain ⟨hhead, halpha⟩ := Option.filter_eq_some_iff.mp hletter
      obtain ⟨more, rfl⟩ := List.head?_eq_some_iff.mp hhead
      rw [number_of_letter hall halpha]
      exact .letter hnonempty hall halpha
  | none =>
      have hends : EndsNumber rest := fun d hd =>
        ⟨hstop d hd, by simpa using Option.filter_eq_none_iff.mp hletter d hd⟩
      rw [number_of_ends hall hends]
      cases hword : Decimal.word? (Decimal.ofDigits digits) with
      | some i => exact .number hnonempty hall hends (word?_eq_some.mp hword)
      | none => exact .tooLarge hnonempty hall hends (word?_natCast_eq_none.mp hword)

theorem fits_word (hletter : c.isAlpha = true) (cs : List Char) : (word (c :: cs)).Fits := by
  have hword : isWordCharacter c = true := by simp [isWordCharacter, Char.isAlphanum, hletter]
  rw [word, List.takeWhile_cons_of_pos hword, List.dropWhile_cons_of_pos hword]
  refine .word hletter (fun d hd => ?_) (denotes_ofWord _)
  simpa [isWordCharacter, Char.isAlphanum, or_assoc] using List.mem_takeWhile_imp hd

theorem spelling_of_symbolOfChar? {s : Symbol} (hsymbol : symbolOfChar? c = some s) :
    s.spelling.toList = [c] := by
  unfold symbolOfChar? at hsymbol
  split at hsymbol <;> cases hsymbol <;> rfl

theorem head?_spelling_ne {c : Char} (hsymbol : symbolOfChar? c = none) (hdot : c ≠ '.')
    (s : Symbol) : s.spelling.toList.head? ≠ some c := by
  intro hhead
  cases s <;> simp [Symbol.spelling] at hhead <;> subst hhead
  all_goals first | exact hdot rfl | cases hsymbol

/-- Where neither a string nor a comment nor a range begins, the first character decides. -/
theorem sound_plainItem (hquote : c ≠ '"') (hdot : c ≠ '.')
    (hslash : c = '/' → cs.head? ≠ some '/' ∧ cs.head? ≠ some '*') :
    Sound (c :: cs) (plainItem c cs) := by
  unfold plainItem
  cases hsymbol : symbolOfChar? c with
  | some s =>
      have hspelling := spelling_of_symbolOfChar? hsymbol
      -- a slash before a slash or a star opens a comment and was excluded
      have hfits : Item.Fits ⟨s.spelling.toList, some (.symbol s), cs⟩ := .symbol fun hs => by
        subst hs
        cases hspelling
        exact hslash rfl
      rwa [hspelling] at hfits
  | none =>
      cases hblank : isBlank c with
      | true =>
          refine .blanks (List.cons_ne_nil _ _) fun d hd => ?_
          rcases List.mem_cons.mp hd with rfl | hd
          · exact hblank
          · exact List.mem_takeWhile_imp hd
      | false =>
          cases hdigit : c.isDigit with
          | true => exact sound_number hdigit cs
          | false =>
              cases hletter : c.isAlpha with
              | true => exact fits_word hletter cs
              | false => exact .stray hblank hdigit hletter hquote (head?_spelling_ne hsymbol hdot)

theorem sound_nextItem (c : Char) (cs : List Char) : Sound (c :: cs) (nextItem c cs) := by
  fun_cases nextItem c cs with
  | case1 cs line after hsplit =>
      -- a line comment ends at the line break, or with the text
      by_cases hbreak : '\n' ∈ cs
      · obtain ⟨body, rest, rfl, hbody⟩ := List.eq_append_cons_of_mem hbreak
        rw [splitLine_body hbody] at hsplit
        cases hsplit
        exact .lineComment hbody
      · rw [splitLine_last hbreak] at hsplit
        cases hsplit
        exact .lastLine hbreak
  | case2 cs block after hsplit =>
      obtain ⟨body, rfl, hbody⟩ := exists_body_of_splitBlock? hsplit
      exact .blockComment hbody
  | case3 cs hsplit =>
      exact .openComment (splitBlock?_eq_none.mp hsplit)
  | case4 cs => exact .symbol (s := .assign) fun hslash => by cases hslash
  | case5 cs => exact .symbol (s := .range) fun hslash => by cases hslash
  | case6 => exact .lastDot
  | case7 d ds hd => exact .dot hd
  | case8 cs content text after hbody =>
      obtain ⟨body, rfl, hquoted⟩ := quoted_of_stringBody? hbody
      exact .string hquoted
  | case9 cs hbody => exact .openString (stringBody?_eq_none.mp hbody)
  | case10 c cs hline hblock hassign hrange hend hdot hquote =>
      -- everything that the scanner treats apart was excluded: two dots, comments, strings
      refine sound_plainItem hquote ?_ ?_
      · rintro rfl
        cases cs with
        | nil => exact hend rfl rfl
        | cons d ds => exact hdot d ds rfl rfl
      · rintro rfl
        refine ⟨fun hhead => ?_, fun hhead => ?_⟩
        all_goals obtain ⟨ds, rfl⟩ := List.head?_eq_some_iff.mp hhead
        · exact hline ds rfl rfl
        · exact hblock ds rfl rfl

end Soundness

/-! ## Longest items and faults -/

section Faults

variable {c : Char} {cs text : List Char} {item : Item} {fault : Fault}

theorem nextItem_of_malformed (hmalformed : Malformed text fault) (htext : text = c :: cs) :
    nextItem c cs = .error fault := by
  cases hmalformed with
  | openComment hopen =>
      cases htext
      simp [nextItem, splitBlock?_eq_none.mpr hopen]
  | openString hopen =>
      cases htext
      simp [nextItem, stringBody?_eq_none.mpr hopen]
  | lastDot =>
      cases htext
      rfl
  | dot hdot =>
      cases htext
      simp [nextItem]
  | @letter d digits rest hnonempty hdigits hletter =>
      obtain ⟨e, es, rfl⟩ := List.exists_cons_of_ne_nil hnonempty
      obtain ⟨rfl, rfl⟩ := List.cons.inj htext
      rw [nextItem_of_isDigit (hdigits e List.mem_cons_self)]
      exact number_of_letter hdigits hletter rest
  | @tooLarge digits rest hnonempty hdigits hends hvalue =>
      obtain ⟨e, es, rfl⟩ := List.exists_cons_of_ne_nil hnonempty
      obtain ⟨rfl, rfl⟩ := List.cons.inj htext
      rw [nextItem_of_isDigit (hdigits e List.mem_cons_self)]
      refine (number_of_ends hdigits hends).trans ?_
      rw [word?_natCast_eq_none.mpr hvalue]
  | @stray d rest hblank hdigit hletter hquote hsymbol =>
      obtain ⟨rfl, rfl⟩ := List.cons.inj htext
      -- a stray character begins no symbol, so no case of the scanner but the last applies
      have hne : ∀ s : Symbol, ∀ e ∈ s.spelling.toList.head?, d ≠ e := by
        rintro s e he rfl
        exact hsymbol s he
      rw [nextItem_eq_plainItem hquote (hne .slash _ rfl) (hne .colon _ rfl) (hne .range _ rfl),
        plainItem]
      cases hfound : symbolOfChar? d with
      | some s =>
          refine absurd ?_ (hsymbol s)
          rw [spelling_of_symbolOfChar? hfound]
          rfl
      | none => simp [hblank, hdigit, hletter]

theorem nextItem_eq_error : nextItem c cs = .error fault ↔ Malformed (c :: cs) fault := by
  constructor
  · intro hfault
    have hsound := sound_nextItem c cs
    rwa [hfault] at hsound
  · exact fun hmalformed => nextItem_of_malformed hmalformed rfl

theorem toList_spelling_ne_nil (s : Symbol) : s.spelling.toList ≠ [] := by cases s <;> decide

theorem Item.Fits.text_ne_nil (hfits : item.Fits) : item.text ≠ [] := by
  cases hfits with
  | blanks hnonempty _ => exact hnonempty
  | @symbol s => exact toList_spelling_ne_nil s
  | number hnonempty => exact hnonempty
  | _ => exact List.cons_ne_nil _ _

theorem Malformed.ne_nil (hmalformed : Malformed text fault) : text ≠ [] := by
  cases hmalformed with
  | tooLarge hnonempty => exact List.append_ne_nil_of_left_ne_nil hnonempty _
  | letter hnonempty => exact List.append_ne_nil_of_left_ne_nil hnonempty _
  | _ => exact List.cons_ne_nil _ _

/-- Nothing fits at the head of a malformed text. -/
theorem Malformed.not_fits (hmalformed : Malformed text fault)
    (htext : item.text ++ item.rest = text) : ¬ item.Fits := by
  intro hfits
  obtain ⟨c, cs, rfl⟩ := List.exists_cons_of_ne_nil hmalformed.ne_nil
  obtain ⟨taken, htaken, -⟩ := hfits.exists_reachesTo htext
  cases htaken.symm.trans (nextItem_of_malformed hmalformed rfl)

theorem longest_of_nextItem (hitem : nextItem c cs = .ok item) : item.Longest (c :: cs) where
  split := (nextItem_split hitem).1
  fits := by
    have hsound := sound_nextItem c cs
    rwa [hitem] at hsound
  maximal := by
    intro other htext hfits
    obtain ⟨taken, htaken, hreaches⟩ := hfits.exists_reachesTo htext
    cases htaken.symm.trans hitem
    rcases hreaches with rfl | hless
    · exact le_refl _
    · exact Nat.le_of_lt hless

/-- The item taken off a text is the longest one. -/
theorem nextItem_eq_ok : nextItem c cs = .ok item ↔ item.Longest (c :: cs) := by
  constructor
  · exact longest_of_nextItem
  · intro hlongest
    obtain ⟨taken, htaken, hreaches⟩ := hlongest.fits.exists_reachesTo hlongest.split
    rcases hreaches with rfl | hless
    · exact htaken
    · have hmaximal := longest_of_nextItem htaken
      have hle := hlongest.maximal taken hmaximal.split hmaximal.fits
      omega

end Faults

/-! ## Whole texts -/

section Texts

variable {line : Nat} {text remaining : List Char} {items : List Item} {fault : Fault}

theorem Decomposes.textOf_append (hitems : Decomposes text items remaining) :
    Item.textOf items ++ remaining = text := by
  induction hitems with
  | done => rfl
  | @next text remaining item items hitem _ ih =>
      rw [← hitem.split, ← ih, Item.textOf_cons, List.append_assoc]

/-- The items give their tokens, and tokenizing goes on after them. -/
theorem Decomposes.tokensFrom_eq (hitems : Decomposes text items remaining) (line : Nat) :
    tokensFrom line text =
      (tokensFrom (line + lineBreaks (Item.textOf items)) remaining).map
        (Item.tokensOf line items ++ ·) := by
  induction hitems generalizing line with
  | done text => exact (map_nil_append _).symm
  | @next text remaining item items hitem _ ih =>
      obtain ⟨c, cs, rfl⟩ : ∃ c cs, text = c :: cs := by
        rw [← hitem.split]
        exact List.exists_cons_of_ne_nil
          (List.append_ne_nil_of_left_ne_nil hitem.fits.text_ne_nil _)
      rw [tokensFrom_of_item (nextItem_eq_ok.mpr hitem), ih, map_append_append,
        Item.textOf_cons, lineBreaks_append, Nat.add_assoc]
      rfl

/-- Every text is cut into items, to its end or to where something is wrong. -/
theorem exists_decomposes (text : List Char) :
    ∃ items remaining, Decomposes text items remaining ∧
      (remaining = [] ∨ ∃ fault, Malformed remaining fault) := by
  induction hlength : text.length using Nat.strongRecOn generalizing text with
  | ind length ih =>
      subst hlength
      cases text with
      | nil => exact ⟨[], [], .done [], .inl rfl⟩
      | cons c cs =>
          cases hitem : nextItem c cs with
          | error fault =>
              exact ⟨[], c :: cs, .done _, .inr ⟨fault, nextItem_eq_error.mp hitem⟩⟩
          | ok item =>
              obtain ⟨items, remaining, hitems, hends⟩ :=
                ih item.rest.length (nextItem_rest_length hitem) item.rest rfl
              exact ⟨item :: items, remaining, .next (nextItem_eq_ok.mp hitem) hitems, hends⟩

theorem Decomposes.tokensFrom_of_malformed (hitems : Decomposes text items remaining)
    (hmalformed : Malformed remaining fault) (line : Nat) :
    tokensFrom line text =
      .error (fault.toError (line + lineBreaks (Item.textOf items)) remaining) := by
  obtain ⟨c, cs, rfl⟩ := List.exists_cons_of_ne_nil hmalformed.ne_nil
  rw [hitems.tokensFrom_eq, tokensFrom_of_fault (nextItem_eq_error.mpr hmalformed)]
  rfl

theorem Decomposes.tokensFrom_of_nil (hitems : Decomposes text items []) (line : Nat) :
    tokensFrom line text =
      .ok (Item.tokensOf line items ++ [⟨.endMarker, line + lineBreaks text⟩]) := by
  have htext := hitems.textOf_append
  rw [List.append_nil] at htext
  rw [hitems.tokensFrom_eq, htext, tokensFrom_nil]
  rfl

/-- The tokens of a text come from items that make up the text. -/
theorem exists_items_of_tokensFrom {tokens : List Token}
    (htokens : tokensFrom line text = .ok tokens) :
    ∃ items, Decomposes text items [] ∧
      tokens = Item.tokensOf line items ++ [⟨.endMarker, line + lineBreaks text⟩] := by
  obtain ⟨items, remaining, hitems, hends⟩ := exists_decomposes text
  rcases hends with rfl | ⟨fault, hmalformed⟩
  · exact ⟨items, hitems, Except.ok.inj (htokens.symm.trans (hitems.tokensFrom_of_nil line))⟩
  · cases htokens.symm.trans (hitems.tokensFrom_of_malformed hmalformed line)

/-- The error of a text comes from where no item fits, after those that do. -/
theorem exists_malformed_of_tokensFrom {error : Error}
    (herror : tokensFrom line text = .error error) :
    ∃ items remaining fault, Decomposes text items remaining ∧ Malformed remaining fault ∧
      error = fault.toError (line + lineBreaks (Item.textOf items)) remaining := by
  obtain ⟨items, remaining, hitems, hends⟩ := exists_decomposes text
  rcases hends with rfl | ⟨fault, hmalformed⟩
  · cases herror.symm.trans (hitems.tokensFrom_of_nil line)
  · exact ⟨items, remaining, fault, hitems, hmalformed,
      Except.error.inj (herror.symm.trans (hitems.tokensFrom_of_malformed hmalformed line))⟩

@[simp] theorem map_lexeme_tokensOf (line : Nat) (items : List Item) :
    (Item.tokensOf line items).map Token.lexeme = items.filterMap Item.lexeme? := by
  induction items generalizing line with
  | nil => rfl
  | cons item items ih =>
      rw [Item.tokensOf, List.map_append, ih, List.filterMap_cons]
      cases item.lexeme? <;> rfl

end Texts

/-- A text is tokenized by cutting it into items, the longest one at each point.
If they reach its end, there is one token for each of their lexemes, and the end
marker.  Otherwise the error is about the first point at which no item fits. -/
theorem tokenize_decomposes (source : String) :
    (∀ tokens, tokenize source = .ok tokens ↔ ∃ items, Decomposes source.toList items [] ∧
      tokens = Item.tokensOf 1 items ++ [⟨.endMarker, 1 + lineBreaks source.toList⟩]) ∧
    (∀ items, Decomposes source.toList items [] → Item.textOf items = source.toList ∧
      (Item.tokensOf 1 items).map Token.lexeme = items.filterMap Item.lexeme?) ∧
    ∀ error, tokenize source = .error error ↔ ∃ items remaining fault,
      Decomposes source.toList items remaining ∧ Malformed remaining fault ∧
      (∀ item : Item, item.text ++ item.rest = remaining → ¬ item.Fits) ∧
      error = fault.toError (1 + lineBreaks (Item.textOf items)) remaining := by
  obtain ⟨items, remaining, hitems, hends⟩ := exists_decomposes source.toList
  refine ⟨fun tokens => ⟨fun htokens => ?_, ?_⟩, fun others hothers => ?_,
    fun error => ⟨fun herror => ?_, ?_⟩⟩
  · rcases hends with rfl | ⟨fault, hmalformed⟩
    · exact ⟨items, hitems, Except.ok.inj (htokens.symm.trans (hitems.tokensFrom_of_nil 1))⟩
    · cases htokens.symm.trans (hitems.tokensFrom_of_malformed hmalformed 1)
  · rintro ⟨others, hothers, rfl⟩
    exact hothers.tokensFrom_of_nil 1
  · exact ⟨by simpa using hothers.textOf_append, map_lexeme_tokensOf 1 others⟩
  · rcases hends with rfl | ⟨fault, hmalformed⟩
    · cases herror.symm.trans (hitems.tokensFrom_of_nil 1)
    · exact ⟨items, remaining, fault, hitems, hmalformed, fun item => hmalformed.not_fits,
        Except.error.inj (herror.symm.trans (hitems.tokensFrom_of_malformed hmalformed 1))⟩
  · rintro ⟨others, after, fault, hothers, hmalformed, -, rfl⟩
    exact hothers.tokensFrom_of_malformed hmalformed 1

/-- In an assignment before a comment, `:=` is one item, and the comment is none
of the lexemes. -/
theorem tokenize_decomposes_assignment :
    ∃ items, Decomposes "n:=2//\n".toList items [] ∧ Item.textOf items = "n:=2//\n".toList ∧
      items.filterMap Item.lexeme? = [.name "n", .symbol .assign, .number 2] := by
  have htokens : tokenize "n:=2//\n" =
      .ok [⟨.name "n", 1⟩, ⟨.symbol .assign, 1⟩, ⟨.number 2, 1⟩, ⟨.endMarker, 2⟩] := by cbv
  obtain ⟨hok, hlossless, -⟩ := tokenize_decomposes "n:=2//\n"
  obtain ⟨items, hitems, htail⟩ := (hok _).mp htokens
  obtain ⟨htext, hlexemes⟩ := hlossless items hitems
  refine ⟨items, hitems, htext, hlexemes.symm.trans ?_⟩
  have hinit := congrArg List.dropLast htail
  rw [List.dropLast_concat] at hinit
  rw [← hinit]
  rfl

end Primer.Lexer
