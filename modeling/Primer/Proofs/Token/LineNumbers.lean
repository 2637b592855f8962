import Mathlib
import Primer.Token.Tokenizer
import Primer.Proofs.Stateful
import Primer.Proofs.Token.LongestMatch
import Primer.Proofs.Token.Unfinished

/-!
# Lines of tokens and of faults

A tokenizer moves its line on while it reads blanks, comments and strings.  This
counts every line break of a text exactly once:

* the other items hold none (`lineBreaks_of_plainItem`);
* in a string the escaped ones count like the others (`stringFrom_eq`), and an
  item that the text ends inside of counts to the end of the text;
* what an item counts is what its text holds (`item_eq`), and the texts of the
  items make up the text.

So from whatever line a tokenizer starts, it ends up where the text does, and it
gives to each token the line on which the token's item starts.

## Main results

* `Tokenizer.tokenize_eq_ok`, `Tokenizer.tokenize_eq_error` : tokenizers give the
  tokens of the text, whatever they read before.
* `Tokenizer.tokenize_lines` : the lines of the tokens, and of the errors.
-/

namespace Primer

open Stateful Lexer

namespace Lexer

/-! ## Items without line breaks -/

@[simp] theorem lineBreaks_cons_of_ne {c : Char} (hc : c ≠ '\n') (cs : List Char) :
    lineBreaks (c :: cs) = lineBreaks cs := List.count_cons_of_ne hc

/-- Line breaks are counted one character after the other. -/
theorem add_lineBreaks_cons (line : Nat) (c : Char) (cs : List Char) :
    line + lineBreaks [c] + lineBreaks cs = line + lineBreaks (c :: cs) := by
  rw [Nat.add_assoc, ← lineBreaks_append, List.singleton_append]

theorem lineBreaks_eq_zero {p : Char → Bool} {cs : List Char} (hp : p '\n' = false)
    (hall : ∀ c ∈ cs, p c = true) : lineBreaks cs = 0 := by
  refine List.count_eq_zero.mpr fun hmem => ?_
  rw [hall _ hmem] at hp
  cases hp

theorem lineBreaks_takeWhile {p : Char → Bool} (hp : p '\n' = false) (cs : List Char) :
    lineBreaks (cs.takeWhile p) = 0 :=
  lineBreaks_eq_zero hp fun _ hc => List.mem_takeWhile_imp hc

/-- A symbol, a number or a word holds no line break. -/
theorem lineBreaks_of_plainItem {c : Char} {cs : List Char} {item : Item}
    (hitem : plainItem c cs = .ok item) (hblank : isBlank c = false) :
    lineBreaks item.text = 0 := by
  unfold plainItem at hitem
  split at hitem
  · cases hitem
    exact lineBreaks_eq_zero (p := fun d => !isBlank d) rfl (by simpa using hblank)
  · simp only [hblank] at hitem
    split at hitem
    · next hfalse => cases hfalse
    · split at hitem
      · rw [(number_split hitem).1]
        exact lineBreaks_takeWhile rfl (c :: cs)
      · split at hitem
        · cases hitem
          exact lineBreaks_takeWhile rfl (c :: cs)
        · cases hitem

/-- Of the items that are taken off a text, only blanks, comments and strings can
hold line breaks. -/
theorem lineBreaks_of_nextItem {c : Char} {cs : List Char} {item : Item}
    (hitem : nextItem c cs = .ok item) (hquote : c ≠ '"') (hblank : isBlank c = false)
    (hline : ∀ ds, c = '/' → cs ≠ '/' :: ds) (hblock : ∀ ds, c = '/' → cs ≠ '*' :: ds) :
    lineBreaks item.text = 0 := by
  fun_cases nextItem c cs with
  | case1 cs => exact absurd rfl (hline cs rfl)
  | case2 cs => exact absurd rfl (hblock cs rfl)
  | case3 cs => exact absurd rfl (hblock cs rfl)
  | case4 cs =>
      cases hitem
      rfl
  | case5 cs =>
      cases hitem
      rfl
  | case6 => cases hitem
  | case7 d ds => simp [nextItem] at hitem
  | case8 => exact absurd rfl hquote
  | case9 => exact absurd rfl hquote
  | case10 c cs hline' hblock' hassign hrange hend hdot hquote' =>
      rw [nextItem.eq_8 c cs hquote' hline' hblock' hassign hrange hend hdot] at hitem
      exact lineBreaks_of_plainItem hitem hblank

/-- Where neither a comment nor a string begins, a text that ends too early ends
on the line on which the item starts. -/
theorem Fault.toError_nil {fault : Fault} {c : Char} {cs : List Char}
    (hfault : nextItem c cs = .error fault) (hquote : c ≠ '"')
    (hblock : ∀ ds, c = '/' → cs ≠ '*' :: ds) (line : Nat) :
    fault.toError line [] = fault.toError line (c :: cs) := by
  by_cases hend : fault = .unexpectedEnd
  · subst hend
    cases nextItem_eq_unexpectedEnd.mp hfault with
    | comment => exact absurd rfl (hblock _ rfl)
    | string => exact absurd rfl hquote
    | dot => rfl
  · exact (fault.toError_of_ne hend line [] (c :: cs)).1

end Lexer

namespace Tokenizer

/-! ## One item -/

/-- A string is read with all of its line breaks, and one that stays open with
those up to the end of the text. -/
theorem stringFrom_eq (read cs : List Char) (line : Nat) :
    stringFrom read cs ⟨line⟩ =
      match stringBody? cs with
      | some (content, text, rest) => .ok (read.reverse ++ content, rest) ⟨line + lineBreaks text⟩
      | none => .error (.unexpectedEnd (line + lineBreaks cs)) ⟨line + lineBreaks cs⟩ := by
  -- a character is counted before the rest of the string is read
  have hstep : ∀ (c : Char) (read cs : List Char),
      (do advance [c]; stringFrom read cs : Scan (List Char × List Char)) ⟨line⟩ =
        stringFrom read cs ⟨line + lineBreaks [c]⟩ := fun _ _ _ => rfl
  fun_induction stringFrom read cs generalizing line with
  | case1 => rfl
  | case2 read cs =>
      simp only [stringBody?, List.append_nil]
      rfl
  | case3 read c cs ih =>
      rw [hstep, ih _ fun _ _ _ => rfl, stringBody?]
      cases stringBody? cs with
      | none => simp [add_lineBreaks_cons]
      | some split => simp [add_lineBreaks_cons]
  | case4 read c cs hquote hescape ih =>
      rw [hstep, ih _ fun _ _ _ => rfl, stringBody?]
      · cases stringBody? cs with
        | none => simp [add_lineBreaks_cons]
        | some split => simp [add_lineBreaks_cons]
      · exact hquote
      · exact hescape

/-- A tokenizer reads the item that is at the head of the text, and moves on by
its line breaks.  If there is none, it stops on the line of the error. -/
theorem item_eq (line : Nat) (c : Char) (cs : List Char) :
    item line c cs ⟨line⟩ =
      match nextItem c cs with
      | .ok item =>
          .ok (item.lexeme?.map (⟨·, line⟩), item.rest) ⟨line + lineBreaks item.text⟩
      | .error fault =>
          .error (fault.toError line (c :: cs))
            ⟨(fault.toError line (c :: cs)).line?.getD line⟩ := by
  fun_cases item line c cs with
  | case1 cs comment rest hsplit =>
      simp only [nextItem, hsplit]
      rfl
  | case2 cs comment rest hsplit =>
      simp only [nextItem, hsplit]
      rfl
  | case3 cs hsplit =>
      simp only [nextItem, hsplit]
      rfl
  | case4 cs =>
      simp only [nextItem, bind_apply, stringFrom_eq]
      cases stringBody? cs <;> rfl
  | case5 c cs hline hblock hquote hblank =>
      rw [nextItem_of_isBlank hblank]
      rfl
  | case6 c cs hline hblock hquote hblank taken hnext =>
      have hnone : lineBreaks taken.text = 0 :=
        lineBreaks_of_nextItem hnext hquote (by simpa using hblank) hline hblock
      simp only [hnext, hnone]
      rfl
  | case7 c cs hline hblock hquote hblank fault hnext =>
      simp only [hnext, ← Fault.toError_nil hnext hquote hblock]
      cases fault <;> rfl

/-! ## Whole texts -/

/-- The items of a text are read one after the other. -/
theorem scan_cons (line : Nat) (c : Char) (cs : List Char) :
    scan (c :: cs) ⟨line⟩ =
      match nextItem c cs with
      | .ok item =>
          match scan item.rest ⟨line + lineBreaks item.text⟩ with
          | .ok tokens last => .ok ((item.lexeme?.map (⟨·, line⟩)).toList ++ tokens) last
          | .error error last => .error error last
      | .error fault =>
          .error (fault.toError line (c :: cs))
            ⟨(fault.toError line (c :: cs)).line?.getD line⟩ := by
  have hitem := item_eq line c cs
  rw [scan]
  cases hnext : nextItem c cs with
  | ok taken =>
      simp only [hnext] at hitem ⊢
      split
      · next herror => cases herror.symm.trans hitem
      · next hok =>
          cases hok.symm.trans hitem
          cases scan taken.rest ⟨line + lineBreaks taken.text⟩ <;> rfl
  | error fault =>
      simp only [hnext] at hitem ⊢
      split
      · next herror =>
          cases herror.symm.trans hitem
          rfl
      · next hok => cases hok.symm.trans hitem

/-- A tokenizer on some line gives the tokens of a text that starts there, and
stops on the last line of the text, or else on the line of the error. -/
theorem scan_eq (line : Nat) (text : List Char) :
    match tokensFrom line text with
    | .ok tokens => scan text ⟨line⟩ = .ok tokens ⟨line + lineBreaks text⟩
    | .error error => ∃ last, scan text ⟨line⟩ = .error error ⟨last⟩ ∧ error.line? = some last := by
  induction hlength : text.length using Nat.strongRecOn generalizing line text with
  | ind length ih =>
      subst hlength
      cases text with
      | nil =>
          rw [tokensFrom_nil, scan]
          rfl
      | cons c cs =>
          cases hnext : nextItem c cs with
          | error fault =>
              rw [tokensFrom_of_fault hnext, scan_cons, hnext]
              cases fault with
              | _ => exact ⟨_, rfl, rfl⟩
          | ok taken =>
              have hlines : line + lineBreaks (c :: cs) =
                  line + lineBreaks taken.text + lineBreaks taken.rest := by
                rw [← (nextItem_split hnext).1, lineBreaks_append, Nat.add_assoc]
              have hrest := ih _ (nextItem_rest_length hnext) (line + lineBreaks taken.text)
                taken.rest rfl
              rw [tokensFrom_of_item hnext, scan_cons, hnext, hlines]
              cases htokens : tokensFrom (line + lineBreaks taken.text) taken.rest with
              | ok tokens =>
                  simp only [htokens] at hrest
                  simp only [Except.map, hrest]
              | error error =>
                  simp only [htokens] at hrest
                  obtain ⟨last, hscan, hlast⟩ := hrest
                  exact ⟨last, by simp only [hscan], hlast⟩

/-- Whatever a tokenizer read before, it gives the tokens of the text. -/
theorem tokenize_eq_ok {source : String} {tokenizer after : Tokenizer} {tokens : List Token} :
    tokenize source tokenizer = .ok tokens after ↔
      Primer.tokenize source = .ok tokens ∧ after.line = 1 + lineBreaks source.toList := by
  have hstart : tokenize source tokenizer = scan source.toList ⟨1⟩ := rfl
  -- a call begins at the first line, whatever line the last one left behind
  have hscan := scan_eq 1 source.toList
  rw [hstart, Primer.tokenize]
  cases htokens : tokensFrom 1 source.toList with
  | ok tokens' =>
      simp only [htokens] at hscan
      rw [hscan]
      constructor
      · rintro ⟨⟩
        exact ⟨rfl, rfl⟩
      · rintro ⟨⟨⟩, hline⟩
        rw [← hline]
  | error error =>
      simp only [htokens] at hscan
      obtain ⟨last, hscan, -⟩ := hscan
      simp [hscan]

/-- A tokenizer finds a text at fault if the text is, and stops on the line of
the error. -/
theorem tokenize_eq_error {source : String} {tokenizer after : Tokenizer} {error : Error} :
    tokenize source tokenizer = .error error after ↔
      Primer.tokenize source = .error error ∧ error.line? = some after.line := by
  have hstart : tokenize source tokenizer = scan source.toList ⟨1⟩ := rfl
  have hscan := scan_eq 1 source.toList
  rw [hstart, Primer.tokenize]
  cases htokens : tokensFrom 1 source.toList with
  | ok tokens =>
      simp only [htokens] at hscan
      simp [hscan]
  | error error' =>
      simp only [htokens] at hscan
      obtain ⟨last, hscan, hlast⟩ := hscan
      rw [hscan]
      constructor
      · rintro ⟨⟩
        exact ⟨rfl, hlast⟩
      · rintro ⟨⟨⟩, hline⟩
        obtain rfl := Option.some.inj (hlast.symm.trans hline)
        rfl

end Tokenizer

/-! ## Lines of the tokens of items -/

namespace Lexer

/-- The number of tokens that items become. -/
def Item.tokenCount (items : List Item) : Nat := (items.filterMap Item.lexeme?).length

theorem Item.length_tokensOf (line : Nat) (items : List Item) :
    (tokensOf line items).length = tokenCount items := by
  rw [tokenCount, ← map_lexeme_tokensOf line, List.length_map]

/-- Each token is that of an item, on the line after the line breaks of all items
before. -/
theorem Item.exists_of_tokensOf {line i : Nat} {items : List Item} {t : Token}
    (ht : (tokensOf line items)[i]? = some t) :
    ∃ before item later, items = before ++ item :: later ∧ tokenCount before = i ∧
      item.lexeme? = some t.lexeme ∧ t.line = line + lineBreaks (textOf before) := by
  induction items generalizing line i with
  | nil => cases ht
  | cons item items ih =>
      -- an item in front moves the line of the later ones, and their number if it carries a token
      have hlater : ∀ {j}, (tokensOf (line + lineBreaks item.text) items)[j]? = some t →
          ∃ before item' later, item :: items = item :: before ++ item' :: later ∧
            tokenCount before = j ∧ item'.lexeme? = some t.lexeme ∧
            t.line = line + lineBreaks (textOf (item :: before)) := by
        intro j hj
        obtain ⟨before, item', later, rfl, hcount, hlexeme, hline⟩ := ih hj
        refine ⟨before, item', later, rfl, hcount, hlexeme, ?_⟩
        rw [hline, textOf_cons, lineBreaks_append, Nat.add_assoc]
      rw [tokensOf] at ht
      cases hitem : item.lexeme? with
      | none =>
          rw [hitem] at ht
          obtain ⟨before, item', later, hitems, hcount, hrest⟩ := hlater ht
          exact ⟨item :: before, item', later, hitems, by simpa [tokenCount, hitem] using hcount,
            hrest⟩
      | some lexeme =>
          rw [hitem] at ht
          cases i with
          | zero =>
              cases ht
              exact ⟨[], item, items, rfl, rfl, hitem, rfl⟩
          | succ i =>
              obtain ⟨before, item', later, hitems, hcount, hrest⟩ := hlater ht
              refine ⟨item :: before, item', later, hitems, ?_, hrest⟩
              simpa [tokenCount, hitem] using hcount

theorem Item.le_line_of_mem_tokensOf {line : Nat} {items : List Item} {t : Token}
    (ht : t ∈ tokensOf line items) : line ≤ t.line := by
  obtain ⟨i, hi⟩ := List.mem_iff_getElem?.mp ht
  obtain ⟨before, item, later, -, -, -, hline⟩ := exists_of_tokensOf hi
  omega

/-- The lines never decrease, up to the one on which the items end. -/
theorem Item.pairwise_tokensOf (line : Nat) (items : List Item) :
    (tokensOf line items ++ [(⟨.endMarker, line + lineBreaks (textOf items)⟩ : Token)]).Pairwise
      fun t u => t.line ≤ u.line := by
  induction items generalizing line with
  | nil => exact List.pairwise_singleton _ _
  | cons item items ih =>
      have hrest := ih (line + lineBreaks item.text)
      rw [tokensOf, textOf_cons, lineBreaks_append, ← Nat.add_assoc, List.append_assoc]
      cases item.lexeme? with
      | none => exact hrest
      | some lexeme =>
          rw [Option.map_some, Option.toList_some, List.singleton_append, List.pairwise_cons]
          refine ⟨fun u hu => ?_, hrest⟩
          rcases List.mem_append.mp hu with hu | hu
          · exact (Nat.le_add_right _ _).trans (le_line_of_mem_tokensOf hu)
          · obtain rfl := List.mem_singleton.mp hu
            show line ≤ line + lineBreaks item.text + lineBreaks (textOf items)
            omega

end Lexer

/-! ## Lines of tokens and of errors -/

/-- A token is on the line after the line breaks before its first character, and
so is an error about a lexeme.  The end marker, and an error about the end of the
text, are on its last line.  None of this depends on what was tokenized before. -/
theorem Tokenizer.tokenize_lines (source : String) (tokenizer : Tokenizer) :
    (∀ tokens after, tokenize source tokenizer = .ok tokens after →
      tokens.getLast? = some ⟨.endMarker, 1 + lineBreaks source.toList⟩ ∧
      (tokens.Pairwise fun t u => t.line ≤ u.line) ∧
      ∃ items, Decomposes source.toList items [] ∧ Item.textOf items = source.toList ∧
        tokens.length = Item.tokenCount items + 1 ∧
        ∀ i t, tokens[i]? = some t → i < Item.tokenCount items →
          ∃ before item later, items = before ++ item :: later ∧ Item.tokenCount before = i ∧
            item.lexeme? = some t.lexeme ∧ t.line = 1 + lineBreaks (Item.textOf before)) ∧
    ∀ error after, tokenize source tokenizer = .error error after →
      ∃ before offending fault, Decomposes source.toList before offending ∧
        Malformed offending fault ∧ Item.textOf before ++ offending = source.toList ∧
        match error with
        | .unexpectedCharacter line _ | .literalOutOfRange line _ =>
            line = 1 + lineBreaks (Item.textOf before)
        | .unexpectedEnd line => line = 1 + lineBreaks source.toList
        | _ => False := by
  constructor
  · intro tokens after htokens
    obtain ⟨items, hitems, rfl⟩ := exists_items_of_tokensFrom (tokenize_eq_ok.mp htokens).1
    have htext : Item.textOf items = source.toList := by simpa using hitems.textOf_append
    refine ⟨by simp, ?_, items, hitems, htext, by simp [Item.length_tokensOf], ?_⟩
    · rw [← htext]
      exact Item.pairwise_tokensOf 1 items
    · intro i t ht hi
      rw [List.getElem?_append_left (by rwa [Item.length_tokensOf])] at ht
      exact Item.exists_of_tokensOf ht
  · intro error after herror
    obtain ⟨items, remaining, fault, hitems, hmalformed, rfl⟩ :=
      exists_malformed_of_tokensFrom (tokenize_eq_error.mp herror).1
    refine ⟨items, remaining, fault, hitems, hmalformed, hitems.textOf_append, ?_⟩
    -- only an unexpected end is reported where the text ends and not where the item begins
    cases fault with
    | unexpectedCharacter character => rfl
    | literalOutOfRange digits => rfl
    | unexpectedEnd =>
        show 1 + lineBreaks (Item.textOf items) + lineBreaks remaining = _
        rw [← hitems.textOf_append, lineBreaks_append, Nat.add_assoc]

/-- After another text, a string over two lines is on the first of them, and the
name behind it on the second. -/
theorem Tokenizer.tokenize_lines_string :
    let source := "\"a\nb\" x"
    let tokens : List Token := [⟨.string "a\nb", 1⟩, ⟨.name "x", 2⟩, ⟨.endMarker, 2⟩]
    tokenize source ⟨7⟩ = .ok tokens ⟨2⟩ ∧
      ∃ before item later, Decomposes source.toList (before ++ item :: later) [] ∧
        item.lexeme? = some (.name "x") ∧ 1 + lineBreaks (Item.textOf before) = 2 := by
  intro source tokens
  have htokens : tokenize source ⟨7⟩ = .ok tokens ⟨2⟩ := by cbv
  obtain ⟨-, -, items, hitems, -, hlength, hlines⟩ :=
    (tokenize_lines source ⟨7⟩).1 tokens ⟨2⟩ htokens
  have hcount : 1 < Item.tokenCount items := by
    have hthree : tokens.length = 3 := rfl
    omega
  obtain ⟨before, item, later, rfl, -, hlexeme, hline⟩ := hlines 1 ⟨.name "x", 2⟩ rfl hcount
  exact ⟨htokens, before, item, later, hitems, hlexeme, hline.symm⟩

end Primer
