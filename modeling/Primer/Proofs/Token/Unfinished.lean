import Primer.Proofs.Token.Restart

/-!
# Texts that end inside an item

A text that ends too early ends inside a comment, inside a string or after a
single dot.  Everything before that item is settled: an item that ends before
the end of the text is the same item whatever comes later.  The unfinished item
itself can always be closed, and if it becomes a token at all, only one kind of
token is possible.

So such a text commits itself to a list of kinds, `committedKinds`, and any
longer text that can be tokenized has tokens of these kinds first.

## Main results

* `nextItem_append` : an item that ends before the end of the text stays.
* `exists_unfinished` : the settled tokens and the unfinished item after them.
* `exists_closed_text`, `exists_map_kind_eq_of_append` : a text that ends too
  early can be closed, and however it goes on, it holds to its kinds.
-/

namespace Primer.Lexer

/-! ## Items that end before the end of the text -/

section Settled

variable {cs : List Char}

theorem takeWhile_append_of_dropWhile {p : Char → Bool} (hrest : cs.dropWhile p ≠ [])
    (more : List Char) : (cs ++ more).takeWhile p = cs.takeWhile p := by
  induction cs with
  | nil => exact absurd rfl hrest
  | cons c cs ih =>
      cases hc : p c with
      | false => simp [hc]
      | true =>
          rw [List.dropWhile_cons_of_pos hc] at hrest
          simp [hc, ih hrest]

theorem dropWhile_append_of_dropWhile {p : Char → Bool} (hrest : cs.dropWhile p ≠ [])
    (more : List Char) : (cs ++ more).dropWhile p = cs.dropWhile p ++ more := by
  rw [List.dropWhile_append, if_neg]
  simpa using hrest

theorem splitLine_append_of_rest {line rest : List Char} (hsplit : splitLine cs = (line, rest))
    (hrest : rest ≠ []) (more : List Char) : splitLine (cs ++ more) = (line, rest ++ more) := by
  induction cs generalizing line with
  | nil =>
      cases hsplit
      exact absurd rfl hrest
  | cons c cs ih =>
      by_cases hc : c = '\n'
      · simp only [splitLine, hc, if_true] at hsplit
        cases hsplit
        simp [splitLine, hc]
      · simp only [splitLine, hc, if_false] at hsplit
        cases hsplit
        simp [splitLine, hc, ih rfl]

theorem number_append {item : Item} (hitem : number cs = .ok item) (hrest : item.rest ≠ [])
    (more : List Char) :
    number (cs ++ more) = .ok ⟨item.text, item.lexeme?, item.rest ++ more⟩ := by
  rw [(number_split hitem).2] at hrest
  have hletter : (cs.dropWhile Char.isDigit ++ more).head? = (cs.dropWhile Char.isDigit).head? := by
    obtain ⟨d, ds, hcons⟩ := List.exists_cons_of_ne_nil hrest
    rw [hcons]
    rfl
  simp only [number, takeWhile_append_of_dropWhile hrest, dropWhile_append_of_dropWhile hrest,
    hletter] at hitem ⊢
  split at hitem
  · cases hitem
  · split at hitem
    · cases hitem
      rfl
    · cases hitem

theorem plainItem_append {c : Char} {item : Item} (hitem : plainItem c cs = .ok item)
    (hrest : item.rest ≠ []) (more : List Char) :
    plainItem c (cs ++ more) = .ok ⟨item.text, item.lexeme?, item.rest ++ more⟩ := by
  unfold plainItem at hitem ⊢
  split at hitem
  · cases hitem
    rfl
  · split at hitem
    · cases hitem
      -- a run of characters with something behind it has ended, so nothing added later prolongs it
      rw [takeWhile_append_of_dropWhile hrest, dropWhile_append_of_dropWhile hrest]
      simp_all
    · split at hitem
      · rw [← List.cons_append, number_append hitem hrest]
        simp_all
      · split at hitem
        · cases hitem
          have hwords : (c :: cs).dropWhile isWordCharacter ≠ [] := hrest
          rw [← List.cons_append, word, takeWhile_append_of_dropWhile hwords,
            dropWhile_append_of_dropWhile hwords]
          simp_all [word]
        · cases hitem

/-- An item that ends before the end of the text stays as it is, whatever follows. -/
theorem nextItem_append {c : Char} {item : Item} (hitem : nextItem c cs = .ok item)
    (hrest : item.rest ≠ []) (more : List Char) :
    nextItem c (cs ++ more) = .ok ⟨item.text, item.lexeme?, item.rest ++ more⟩ := by
  fun_cases nextItem c cs with
  | case1 cs line after hsplit =>
      simp only [nextItem, hsplit] at hitem
      cases hitem
      simp [nextItem, splitLine_append_of_rest hsplit hrest]
  | case2 cs block after hsplit =>
      simp only [nextItem, hsplit] at hitem
      cases hitem
      simp [nextItem, splitBlock?_append_of_some hsplit]
  | case3 cs hsplit => simp [nextItem, hsplit] at hitem
  | case4 cs =>
      cases hitem
      rfl
  | case5 cs =>
      cases hitem
      rfl
  | case6 => cases hitem
  | case7 d ds _ => simp [nextItem] at hitem
  | case8 cs content text after hbody =>
      simp only [nextItem, hbody] at hitem
      cases hitem
      simp [nextItem, stringBody?_append_of_some hbody]
  | case9 cs hbody => simp [nextItem, hbody] at hitem
  | case10 c cs hline hblock hassign hrange hend hdot hquote =>
      rw [nextItem.eq_8 c cs hquote hline hblock hassign hrange hend hdot] at hitem
      cases cs with
      | nil =>
          have hlength := nextItem_rest_length
            ((nextItem.eq_8 c [] hquote hline hblock hassign hrange hend hdot).trans hitem)
          exact absurd (List.eq_nil_of_length_eq_zero (by simpa using hlength)) hrest
      | cons d ds =>
          -- the second character is one of the text, so no symbol of two characters arises
          have hsecond : ∀ e f : Char, (∀ es, c = f → d :: ds = e :: es → False) →
              ∀ es, c = f → d :: (ds ++ more) = e :: es → False := by
            intro e f hother es hc heq
            exact hother ds hc (by rw [(List.cons.inj heq).1])
          have hplain : nextItem c (d :: (ds ++ more)) = plainItem c (d :: (ds ++ more)) :=
            nextItem.eq_8 c _ hquote (hsecond _ _ hline) (hsecond _ _ hblock)
              (hsecond _ _ hassign) (hsecond _ _ hrange) (fun _ => List.cons_ne_nil _ _)
              fun _ _ hc _ => hdot d ds hc rfl
          exact hplain.trans (plainItem_append hitem hrest more)

end Settled

/-! ## Unfinished items -/

/-- The kind of the token that an unfinished item has to become, which is told by
its first character.  A comment becomes none. -/
def pendingKind? : Char → Option Kind
  | '"' => some .string
  | '.' => some (.symbol .range)
  | _ => none

theorem splitBlock?_close {cs : List Char} (hsplit : splitBlock? cs = none) :
    ∃ block, ∀ rest, splitBlock? (cs ++ '*' :: '/' :: rest) = some (block, rest) := by
  fun_induction splitBlock? cs with
  | case1 => exact ⟨['*', '/'], fun _ => rfl⟩
  | case2 => cases hsplit
  | case3 c cs hother ih =>
      obtain ⟨block, hblock⟩ := ih (Option.map_eq_none_iff.mp hsplit)
      refine ⟨c :: block, fun rest => ?_⟩
      rw [List.cons_append, splitBlock?]
      · simp [hblock]
      · rintro cs' rfl hcs'
        cases cs with
        | nil => cases hcs'
        | cons d ds =>
            cases hcs'
            exact hother ds rfl rfl

/-- A blank before the quote takes the part of a character that a backslash asks for. -/
theorem stringBody?_close {cs : List Char} (hbody : stringBody? cs = none) :
    ∃ content text, ∀ rest,
      stringBody? (cs ++ ' ' :: '"' :: rest) = some (content, text, rest) := by
  fun_induction stringBody? cs with
  | case1 => exact ⟨[' '], [' ', '"'], fun _ => rfl⟩
  | case2 => cases hbody
  | case3 c cs ih =>
      obtain ⟨content, text, hrest⟩ := ih (Option.map_eq_none_iff.mp hbody)
      exact ⟨unescape c :: content, '\\' :: c :: text, fun rest => by simp [stringBody?, hrest]⟩
  | case4 c cs hquote hescape ih =>
      obtain ⟨content, text, hrest⟩ := ih (Option.map_eq_none_iff.mp hbody)
      cases cs with
      | nil =>
          -- a backslash at the end escapes the blank, so the quote closes the string all the same
          by_cases hc : c = '\\'
          · subst hc
            exact ⟨[' '], ['\\', ' ', '"'], fun _ => rfl⟩
          · refine ⟨c :: content, c :: text, fun rest => ?_⟩
            rw [List.cons_append, stringBody?]
            · rw [hrest]
              rfl
            · exact hquote
            · exact fun _ _ heq => absurd heq hc
      | cons d ds =>
          refine ⟨c :: content, c :: text, fun rest => ?_⟩
          rw [List.cons_append, stringBody?]
          · rw [hrest]
            rfl
          · exact hquote
          · rintro e es rfl hes
            exact hescape d ds rfl rfl

/-- The items that the end of the text can cut off. -/
inductive Unfinished : Char → List Char → Prop
  | comment {cs : List Char} (hsplit : splitBlock? cs = none) : Unfinished '/' ('*' :: cs)
  | string {cs : List Char} (hbody : stringBody? cs = none) : Unfinished '"' cs
  | dot : Unfinished '.' []

theorem number_ne_unexpectedEnd (cs : List Char) : number cs ≠ .error .unexpectedEnd := by
  intro heq
  simp only [number] at heq
  split at heq
  · cases heq
  · split at heq <;> cases heq

theorem plainItem_ne_unexpectedEnd (c : Char) (cs : List Char) :
    plainItem c cs ≠ .error .unexpectedEnd := by
  intro heq
  unfold plainItem at heq
  split at heq
  · cases heq
  · split at heq
    · cases heq
    · split at heq
      · exact number_ne_unexpectedEnd _ heq
      · split at heq <;> cases heq

theorem nextItem_eq_unexpectedEnd {c : Char} {cs : List Char} :
    nextItem c cs = .error .unexpectedEnd ↔ Unfinished c cs := by
  constructor
  · intro heq
    -- the scanner asks for more text in three places and nowhere else
    fun_cases nextItem c cs with
    | case1 cs line after hsplit => simp [nextItem] at heq
    | case2 cs block after hsplit => simp [nextItem, hsplit] at heq
    | case3 cs hsplit => exact .comment hsplit
    | case4 cs => cases heq
    | case5 cs => cases heq
    | case6 => exact .dot
    | case7 d ds _ => simp [nextItem] at heq
    | case8 cs content text after hbody => simp [nextItem, hbody] at heq
    | case9 cs hbody => exact .string hbody
    | case10 c cs hline hblock hassign hrange hend hdot hquote =>
        rw [nextItem.eq_8 c cs hquote hline hblock hassign hrange hend hdot] at heq
        exact absurd heq (plainItem_ne_unexpectedEnd c cs)
  · rintro (⟨hsplit⟩ | ⟨hbody⟩ | _)
    · simp [nextItem, hsplit]
    · simp [nextItem, hbody]
    · rfl

/-- Every unfinished item can be closed, whatever is to come after it. -/
theorem Unfinished.exists_closing {c : Char} {cs : List Char} (hunfinished : Unfinished c cs) :
    ∃ closing text lexeme?, ∀ rest,
      nextItem c (cs ++ (closing ++ rest)) = .ok ⟨text, lexeme?, rest⟩ := by
  cases hunfinished with
  | @comment cs hsplit =>
      obtain ⟨block, hblock⟩ := splitBlock?_close hsplit
      refine ⟨['*', '/'], '/' :: '*' :: block, none, fun rest => ?_⟩
      simp [nextItem, hblock]
  | string hbody =>
      obtain ⟨content, text, hclosed⟩ := stringBody?_close hbody
      refine ⟨[' ', '"'], '"' :: text, some (.string (String.ofList content)), fun rest => ?_⟩
      simp [nextItem, hclosed]
  | dot => exact ⟨['.'], ['.', '.'], some (.symbol .range), fun _ => rfl⟩

/-- What an unfinished item becomes is told by its first character. -/
theorem Unfinished.kind_eq {c : Char} {cs more : List Char} {item : Item}
    (hunfinished : Unfinished c cs) (hitem : nextItem c (cs ++ more) = .ok item) :
    item.lexeme?.map Lexeme.kind = pendingKind? c := by
  cases hunfinished with
  | @comment cs hsplit =>
      rw [List.cons_append] at hitem
      simp only [nextItem] at hitem
      split at hitem
      · cases hitem
        rfl
      · cases hitem
  | string hbody =>
      simp only [nextItem] at hitem
      split at hitem
      · cases hitem
        rfl
      · cases hitem
  | dot =>
      cases more with
      | nil => cases hitem
      | cons d ds =>
          -- a dot alone is no item: only a second one completes it
          by_cases hd : d = '.'
          · subst hd
            cases hitem
            rfl
          · simp [nextItem] at hitem

/-! ## Texts that end too early -/

/-- The kinds of the tokens to which a text commits itself: those of the tokens
that it holds, and that of an item which the end of the text cuts off. -/
def committedKinds : List Char → List Kind
  | [] => []
  | c :: cs =>
      match _hitem : nextItem c cs with
      | .error .unexpectedEnd => (pendingKind? c).toList
      | .error _ => []
      | .ok item => (item.lexeme?.map Lexeme.kind).toList ++ committedKinds item.rest
termination_by text => text.length
decreasing_by exact nextItem_rest_length _hitem

theorem committedKinds_of_item {c : Char} {cs : List Char} {item : Item}
    (hitem : nextItem c cs = .ok item) :
    committedKinds (c :: cs) =
      (item.lexeme?.map Lexeme.kind).toList ++ committedKinds item.rest := by
  rw [committedKinds]
  split
  · next hfault => cases hfault.symm.trans hitem
  · next hfault => cases hfault.symm.trans hitem
  · next item' hitem' =>
      cases hitem'.symm.trans hitem
      rfl

theorem committedKinds_of_unfinished {c : Char} {cs : List Char} (hunfinished : Unfinished c cs) :
    committedKinds (c :: cs) = (pendingKind? c).toList := by
  have hitem := nextItem_eq_unexpectedEnd.mpr hunfinished
  rw [committedKinds]
  split
  · rfl
  · next fault hne hfault =>
      cases hfault.symm.trans hitem
      exact absurd rfl hne
  · next item hok => cases hok.symm.trans hitem

/-- A text that ends too early ends in an unfinished item, and the tokens before
that item stay whatever follows. -/
theorem exists_unfinished {line last : Nat} {text : List Char}
    (htext : tokensFrom line text = .error (.unexpectedEnd last)) :
    ∃ (tokens : List Token) (line' : Nat) (c : Char) (cs : List Char), Unfinished c cs ∧
      committedKinds text = tokens.map Token.kind ++ (pendingKind? c).toList ∧
      ∀ more, tokensFrom line (text ++ more) =
        (tokensFrom line' (c :: (cs ++ more))).map (tokens ++ ·) := by
  induction hlength : text.length using Nat.strongRecOn generalizing line text with
  | ind length ih =>
      subst hlength
      cases text with
      | nil =>
          rw [tokensFrom_nil] at htext
          cases htext
      | cons c cs =>
          cases hitem : nextItem c cs with
          | error fault =>
              rw [tokensFrom_of_fault hitem] at htext
              cases fault with
              | unexpectedEnd =>
                  have hunfinished := nextItem_eq_unexpectedEnd.mp hitem
                  refine ⟨[], line, c, cs, hunfinished,
                    committedKinds_of_unfinished hunfinished, fun more => ?_⟩
                  rw [map_nil_append]
                  rfl
              | unexpectedCharacter character => cases htext
              | literalOutOfRange digits => cases htext
          | ok item =>
              rw [tokensFrom_of_item hitem] at htext
              have hrest : tokensFrom (line + lineBreaks item.text) item.rest =
                  .error (.unexpectedEnd last) := by
                cases hresult : tokensFrom (line + lineBreaks item.text) item.rest with
                | ok tokens =>
                    rw [hresult] at htext
                    cases htext
                | error error =>
                    rw [hresult] at htext
                    cases htext
                    rfl
              -- the unfinished item is behind this one, so more text leaves this one as it is
              have hnonempty : item.rest ≠ [] := by
                intro hnil
                rw [hnil, tokensFrom_nil] at hrest
                cases hrest
              obtain ⟨tokens, line', d, ds, hunfinished, hkinds, hmore⟩ :=
                ih item.rest.length (nextItem_rest_length hitem) hrest rfl
              refine ⟨(item.lexeme?.map (⟨·, line⟩)).toList ++ tokens, line', d, ds, hunfinished,
                ?_, fun more => ?_⟩
              · rw [committedKinds_of_item hitem, hkinds]
                cases item.lexeme? <;> rfl
              · rw [List.cons_append, tokensFrom_of_item (nextItem_append hitem hnonempty more),
                  hmore, map_append_append]

/-- A text that ends too early can be closed, so that its tokens are of the kinds to
which it is committed, and stay whatever follows. -/
theorem exists_closed_text {line last : Nat} {text : List Char}
    (htext : tokensFrom line text = .error (.unexpectedEnd last)) :
    ∃ (closing : List Char) (tokens : List Token) (line' : Nat),
      tokens.map Token.kind = committedKinds text ∧
      ∀ rest, tokensFrom line (text ++ (closing ++ rest)) =
        (tokensFrom line' rest).map (tokens ++ ·) := by
  obtain ⟨tokens, line', c, cs, hunfinished, hkinds, hmore⟩ := exists_unfinished htext
  obtain ⟨closing, item, lexeme?, hclosing⟩ := hunfinished.exists_closing
  have hkind : lexeme?.map Lexeme.kind = pendingKind? c := hunfinished.kind_eq (hclosing [])
  refine ⟨closing, tokens ++ (lexeme?.map fun lexeme => ⟨lexeme, line'⟩).toList,
    line' + lineBreaks item, ?_, fun rest => ?_⟩
  · rw [hkinds, ← hkind]
    cases lexeme? <;> simp [Token.kind]
  · rw [hmore, tokensFrom_of_item (hclosing rest), map_append_append]

/-- However a text that ends too early goes on, its tokens are first of the kinds to
which it is committed. -/
theorem exists_map_kind_eq_of_append {line last last' : Nat} {text more : List Char}
    {tokens : List Token} (htext : tokensFrom line text = .error (.unexpectedEnd last))
    (htokens : tokensFrom line (text ++ more) = .ok (tokens ++ [⟨.endMarker, last'⟩])) :
    ∃ kinds, tokens.map Token.kind = committedKinds text ++ kinds := by
  -- whatever completes the unfinished item gives it the kind that was foreseen
  obtain ⟨settled, line', c, cs, hunfinished, hkinds, hmore⟩ := exists_unfinished htext
  rw [hmore] at htokens
  cases hitem : nextItem c (cs ++ more) with
  | error fault =>
      rw [tokensFrom_of_fault hitem] at htokens
      cases htokens
  | ok item =>
      rw [tokensFrom_of_item hitem, map_append_append] at htokens
      cases hrest : tokensFrom (line' + lineBreaks item.text) item.rest with
      | error error =>
          rw [hrest] at htokens
          cases htokens
      | ok rest =>
          obtain ⟨body, rfl, -⟩ := tokensFrom_eq_ok hrest
          rw [hrest, Except.map] at htokens
          have happend := Except.ok.inj htokens
          rw [← List.append_assoc] at happend
          obtain ⟨rfl, -⟩ := List.append_inj' happend rfl
          refine ⟨body.map Token.kind, ?_⟩
          rw [hkinds, ← hunfinished.kind_eq hitem]
          cases item.lexeme? <;> simp [Token.kind]

end Primer.Lexer
