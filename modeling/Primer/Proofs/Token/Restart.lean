import Mathlib
import Primer.Token.Lexer
import Primer.Proofs.Relocation

/-!
# Tokenizing starts afresh after a line break

No lexeme but a string reaches beyond a line break, and of the items without a
lexeme only blanks and open comments do.  So of a text that goes on after a line
break one of three things is true, and the text before the line break decides
which: its tokens are there to stay and tokenizing starts anew on the next line,
or its error is there to stay, or a string or a comment is still open.

## Main results

* `atNextLine` : these three ways to go on.
* `tokensFrom_add` : a text that starts further down has the same tokens there.
* `tokenize_newline` : two texts with a line break between them.
-/

namespace Primer.Lexer

/-! ## Scanning up to a line break -/

section Scanning

variable {cs rest : List Char}

theorem takeWhile_newline {p : Char → Bool} (hp : p '\n' = false) (cs rest : List Char) :
    (cs ++ '\n' :: rest).takeWhile p = cs.takeWhile p := by
  induction cs with
  | nil => simp [hp]
  | cons c cs ih => simp only [List.cons_append, List.takeWhile_cons, ih]

theorem dropWhile_newline {p : Char → Bool} (hp : p '\n' = false) (cs rest : List Char) :
    (cs ++ '\n' :: rest).dropWhile p = cs.dropWhile p ++ '\n' :: rest := by
  induction cs with
  | nil => simp [hp]
  | cons c cs ih =>
      simp only [List.cons_append, List.dropWhile_cons, ih]
      split <;> rfl

/-- A line comment ends in the text, or else it ends with the line break. -/
theorem splitLine_newline (cs : List Char) :
    (∀ rest, splitLine (cs ++ '\n' :: rest) =
        ((splitLine cs).1, (splitLine cs).2 ++ '\n' :: rest)) ∨
      splitLine cs = (cs, []) ∧
        ∀ rest, splitLine (cs ++ '\n' :: rest) = (cs ++ ['\n'], rest) := by
  induction cs with
  | nil => exact .inr ⟨rfl, fun _ => rfl⟩
  | cons c cs ih =>
      by_cases hc : c = '\n'
      · exact .inl fun rest => by simp [splitLine, hc]
      · rcases ih with hinside | ⟨halone, hbeyond⟩
        · exact .inl fun rest => by simp [splitLine, hc, hinside]
        · exact .inr ⟨by simp [splitLine, hc, halone], fun rest => by simp [splitLine, hc, hbeyond]⟩

theorem splitBlock?_append_of_some {block after : List Char}
    (hsplit : splitBlock? cs = some (block, after)) (rest : List Char) :
    splitBlock? (cs ++ rest) = some (block, after ++ rest) := by
  fun_induction splitBlock? cs generalizing block after with
  | case1 => cases hsplit
  | case2 cs =>
      cases hsplit
      rfl
  | case3 c cs hother ih =>
      obtain ⟨⟨inner, after'⟩, hinner, heq⟩ := Option.map_eq_some_iff.mp hsplit
      cases heq
      rw [List.cons_append, splitBlock?]
      · simp [ih hinner]
      · -- no end of the comment may arise where the two texts meet
        rintro cs' rfl hcs'
        cases cs with
        | nil => cases hinner
        | cons d ds =>
            cases hcs'
            exact hother ds rfl rfl

theorem splitBlock?_newline_of_none (hsplit : splitBlock? cs = none) :
    splitBlock? (cs ++ ['\n']) = none := by
  fun_induction splitBlock? cs with
  | case1 => rfl
  | case2 => cases hsplit
  | case3 c cs hother ih =>
      rw [List.cons_append, splitBlock?]
      · simp [ih (Option.map_eq_none_iff.mp hsplit)]
      · rintro cs' rfl hcs'
        cases cs with
        | nil => cases hcs'
        | cons d ds =>
            cases hcs'
            exact hother ds rfl rfl

theorem stringBody?_append_of_some {content text after : List Char}
    (hbody : stringBody? cs = some (content, text, after)) (rest : List Char) :
    stringBody? (cs ++ rest) = some (content, text, after ++ rest) := by
  fun_induction stringBody? cs generalizing content text after with
  | case1 => cases hbody
  | case2 cs =>
      cases hbody
      rfl
  | case3 c cs ih =>
      obtain ⟨⟨inner, read, after'⟩, hinner, heq⟩ := Option.map_eq_some_iff.mp hbody
      cases heq
      simp [stringBody?, ih hinner]
  | case4 c cs hquote hescape ih =>
      obtain ⟨⟨inner, read, after'⟩, hinner, heq⟩ := Option.map_eq_some_iff.mp hbody
      cases heq
      rw [List.cons_append, stringBody?]
      · simp [ih hinner]
      · exact hquote
      · -- no escape may arise where the two texts meet
        rintro d ds rfl hds
        cases cs with
        | nil => cases hinner
        | cons e es => exact hescape e es rfl rfl

theorem stringBody?_newline_of_none (hbody : stringBody? cs = none) :
    stringBody? (cs ++ ['\n']) = none := by
  fun_induction stringBody? cs with
  | case1 => rfl
  | case2 => cases hbody
  | case3 c cs ih => simp [stringBody?, ih (Option.map_eq_none_iff.mp hbody)]
  | case4 c cs hquote hescape ih =>
      have hrest := ih (Option.map_eq_none_iff.mp hbody)
      cases cs with
      | nil =>
          -- a backslash at the end only escapes the line break
          by_cases hc : c = '\\'
          · subst hc
            rfl
          · rw [List.cons_append, stringBody?]
            · rw [hrest, Option.map_none]
            · exact hquote
            · exact fun _ _ heq => absurd heq hc
      | cons d ds =>
          rw [List.cons_append, stringBody?]
          · rw [hrest, Option.map_none]
          · exact hquote
          · rintro e es rfl hes
            exact hescape d ds rfl rfl

end Scanning

/-! ## Items up to a line break -/

/-- How the item at the head of `c :: cs` goes on when a line break follows the text. -/
inductive AtLineBreak (c : Char) (cs : List Char) : Prop
  /-- The item ends before the line break. -/
  | within (item : Item) (halone : nextItem c cs = .ok item)
      (hitem : ∀ rest, nextItem c (cs ++ '\n' :: rest) =
        .ok ⟨item.text, item.lexeme?, item.rest ++ '\n' :: rest⟩)
  /-- A line comment, which the line break ends. -/
  | comment (halone : nextItem c cs = .ok ⟨c :: cs, none, []⟩)
      (hitem : ∀ rest, nextItem c (cs ++ '\n' :: rest) = .ok ⟨c :: (cs ++ ['\n']), none, rest⟩)
  /-- Blanks, of which the line break is one. -/
  | blanks (hblank : ∀ d ∈ c :: cs, isBlank d = true)
  /-- A character that cannot go on, or a numeral that is too large. -/
  | fault (fault : Fault) (hfault : fault ≠ .unexpectedEnd)
      (halone : nextItem c cs = .error fault ∨ nextItem c cs = .error .unexpectedEnd)
      (hitem : ∀ rest, nextItem c (cs ++ '\n' :: rest) = .error fault)
  /-- A string or a comment that is still open. -/
  | unclosed (halone : nextItem c cs = .error .unexpectedEnd)
      (hitem : nextItem c (cs ++ ['\n']) = .error .unexpectedEnd)

theorem number_newline (cs : List Char) :
    (∃ item, number cs = .ok item ∧ ∀ rest, number (cs ++ '\n' :: rest) =
        .ok ⟨item.text, item.lexeme?, item.rest ++ '\n' :: rest⟩) ∨
      ∃ fault, fault ≠ .unexpectedEnd ∧ number cs = .error fault ∧
        ∀ rest, number (cs ++ '\n' :: rest) = .error fault := by
  have hdigit : Char.isDigit '\n' = false := rfl
  -- a line break is neither a digit nor a letter, so it ends a numeral as the end of the text does
  have hletter : ∀ rest, (cs.dropWhile Char.isDigit ++ '\n' :: rest).head?.filter Char.isAlpha =
      (cs.dropWhile Char.isDigit).head?.filter Char.isAlpha := by
    intro rest
    cases cs.dropWhile Char.isDigit <;> rfl
  simp only [number, takeWhile_newline hdigit, dropWhile_newline hdigit, hletter]
  cases (cs.dropWhile Char.isDigit).head?.filter Char.isAlpha with
  | some letter =>
      exact .inr ⟨.unexpectedCharacter letter, (fun heq => nomatch heq), rfl, fun _ => rfl⟩
  | none =>
      cases Decimal.word? (Decimal.ofDigits (cs.takeWhile Char.isDigit)) with
      | some i => exact .inl ⟨_, rfl, fun _ => rfl⟩
      | none =>
          exact .inr ⟨.literalOutOfRange (String.ofList (cs.takeWhile Char.isDigit)),
            (fun heq => nomatch heq), rfl, fun _ => rfl⟩

/-- A run of blanks ends in the text, or else it goes on with the line break. -/
theorem blanks_newline (cs : List Char) :
    (∀ d ∈ cs, isBlank d = true) ∨
      ∀ rest, (cs ++ '\n' :: rest).takeWhile isBlank = cs.takeWhile isBlank ∧
        (cs ++ '\n' :: rest).dropWhile isBlank = cs.dropWhile isBlank ++ '\n' :: rest := by
  induction cs with
  | nil => exact .inl fun _ hmem => nomatch hmem
  | cons c cs ih =>
      cases hc : isBlank c with
      | false => exact .inr fun rest => by simp [hc]
      | true =>
          rcases ih with hall | hends
          · exact .inl (List.forall_mem_cons.mpr ⟨hc, hall⟩)
          · exact .inr fun rest => by simp [hc, hends rest]

theorem plainItem_newline (c : Char) (cs : List Char) :
    (∃ item, plainItem c cs = .ok item ∧ ∀ rest, plainItem c (cs ++ '\n' :: rest) =
        .ok ⟨item.text, item.lexeme?, item.rest ++ '\n' :: rest⟩) ∨
      (∀ d ∈ c :: cs, isBlank d = true) ∨
      ∃ fault, fault ≠ .unexpectedEnd ∧ plainItem c cs = .error fault ∧
        ∀ rest, plainItem c (cs ++ '\n' :: rest) = .error fault := by
  unfold plainItem
  cases symbolOfChar? c with
  | some s => exact .inl ⟨_, rfl, fun _ => rfl⟩
  | none =>
      cases hblank : isBlank c with
      | true =>
          -- blanks up to the end of the text go on across the line break
          rcases blanks_newline cs with hall | hends
          · exact .inr (.inl (List.forall_mem_cons.mpr ⟨hblank, hall⟩))
          · refine .inl ⟨_, rfl, fun rest => ?_⟩
            obtain ⟨htake, hdrop⟩ := hends rest
            simp only [htake, hdrop, if_true]
      | false =>
          cases c.isDigit with
          | true =>
              rcases number_newline (c :: cs) with hitem | hfault
              · exact .inl hitem
              · exact .inr (.inr hfault)
          | false =>
              cases c.isAlpha with
              | true =>
                  refine .inl ⟨_, rfl, fun rest => ?_⟩
                  have hword : isWordCharacter '\n' = false := rfl
                  have htake := takeWhile_newline hword (c :: cs) rest
                  have hdrop := dropWhile_newline hword (c :: cs) rest
                  rw [List.cons_append] at htake hdrop
                  simp [word, htake, hdrop]
              | false =>
                  refine .inr (.inr ⟨.unexpectedCharacter c, ?_, rfl, fun _ => rfl⟩)
                  intro heq
                  cases heq

/-- Apart from the line break, only a character of the text can come next. -/
theorem exists_eq_cons_of_newline {d : Char} {cs ds rest : List Char} (hd : d ≠ '\n')
    (heq : cs ++ '\n' :: rest = d :: ds) : ∃ ds', cs = d :: ds' := by
  cases cs with
  | nil =>
      cases heq
      exact absurd rfl hd
  | cons c cs =>
      cases heq
      exact ⟨cs, rfl⟩

theorem atLineBreak (c : Char) (cs : List Char) : AtLineBreak c cs := by
  fun_cases nextItem c cs with
  -- a line comment, which may be the last line so far
  | case1 cs line after hsplit =>
      rcases splitLine_newline cs with hinside | ⟨halone, hbeyond⟩
      · refine .within ⟨'/' :: '/' :: line, none, after⟩ (by simp [nextItem, hsplit]) fun rest => ?_
        simp [nextItem, hinside, hsplit]
      · exact .comment (by simp [nextItem, halone]) fun rest => by simp [nextItem, hbeyond]
  -- a block comment
  | case2 cs block after hsplit =>
      refine .within ⟨'/' :: '*' :: block, none, after⟩ (by simp [nextItem, hsplit]) fun rest => ?_
      simp [nextItem, splitBlock?_append_of_some hsplit]
  | case3 cs hsplit =>
      refine .unclosed (by simp [nextItem, hsplit]) ?_
      simp [nextItem, splitBlock?_newline_of_none hsplit]
  -- the two symbols of two characters
  | case4 cs => exact .within _ rfl fun _ => rfl
  | case5 cs => exact .within _ rfl fun _ => rfl
  -- a dot alone: at the end of the text it is incomplete, before a line break it is wrong
  | case6 =>
      exact .fault (.unexpectedCharacter '\n') (fun heq => nomatch heq) (.inr rfl) fun _ => rfl
  | case7 d ds hd =>
      have hitem : ∀ ds, nextItem '.' (d :: ds) = .error (.unexpectedCharacter d) := by
        intro ds
        simp [nextItem]
      exact .fault (.unexpectedCharacter d) (fun heq => nomatch heq) (.inl (hitem ds))
        fun _ => hitem _
  -- a string
  | case8 cs content text after hbody =>
      refine .within ⟨'"' :: text, some (.string (String.ofList content)), after⟩
        (by simp [nextItem, hbody]) fun rest => ?_
      simp [nextItem, stringBody?_append_of_some hbody]
  | case9 cs hbody =>
      refine .unclosed (by simp [nextItem, hbody]) ?_
      simp [nextItem, stringBody?_newline_of_none hbody]
  -- everything that is told by its first character
  | case10 c cs hline hblock hassign hrange hend hdot hquote =>
      have hdot' : c ≠ '.' := by
        rintro rfl
        cases cs with
        | nil => exact hend rfl rfl
        | cons d ds => exact hdot d ds rfl rfl
      have hplain : ∀ rest, nextItem c (cs ++ '\n' :: rest) = plainItem c (cs ++ '\n' :: rest) := by
        have hnext : ∀ (d e : Char) (rest : List Char), d ≠ '\n' →
            (∀ ds, c = e → cs = d :: ds → False) →
            ∀ ds, c = e → cs ++ '\n' :: rest = d :: ds → False := by
          intro d e rest hd hother ds hc hds
          obtain ⟨ds', hcs⟩ := exists_eq_cons_of_newline hd hds
          exact hother ds' hc hcs
        intro rest
        exact nextItem.eq_8 c _ hquote (hnext _ _ rest (by decide) hline)
          (hnext _ _ rest (by decide) hblock) (hnext _ _ rest (by decide) hassign)
          (fun _ hc _ => hdot' hc) (fun hc _ => hdot' hc) fun _ _ hc _ => hdot' hc
      have halone : nextItem c cs = plainItem c cs :=
        nextItem.eq_8 c cs hquote hline hblock hassign hrange hend hdot
      rcases plainItem_newline c cs with
        ⟨item, hitem, hrest⟩ | hall | ⟨fault, hfault, halone', hrest⟩
      · exact .within item (halone.trans hitem) fun rest => (hplain rest).trans (hrest rest)
      · exact .blanks hall
      · exact .fault fault hfault (.inl (halone.trans halone')) fun rest =>
          (hplain rest).trans (hrest rest)

/-! ## Whole texts -/

theorem tokensFrom_of_item {line : Nat} {c : Char} {cs : List Char} {item : Item}
    (hitem : nextItem c cs = .ok item) :
    tokensFrom line (c :: cs) =
      (tokensFrom (line + lineBreaks item.text) item.rest).map
        ((item.lexeme?.map (⟨·, line⟩)).toList ++ ·) := by
  rw [tokensFrom]
  split
  · next fault hfault => cases hfault.symm.trans hitem
  · next item' hitem' =>
      cases hitem'.symm.trans hitem
      cases tokensFrom (line + lineBreaks item.text) item.rest with
      | error error => rfl
      | ok tokens => cases item.lexeme? <;> rfl

theorem tokensFrom_of_fault {line : Nat} {c : Char} {cs : List Char} {fault : Fault}
    (hfault : nextItem c cs = .error fault) :
    tokensFrom line (c :: cs) = .error (fault.toError line (c :: cs)) := by
  rw [tokensFrom]
  split
  · next fault' hfault' =>
      cases hfault'.symm.trans hfault
      rfl
  · next item hitem => cases hitem.symm.trans hfault

@[simp] theorem tokensFrom_nil (line : Nat) : tokensFrom line [] = .ok [⟨.endMarker, line⟩] := by
  rw [tokensFrom]

@[simp] theorem lineBreaks_append (first second : List Char) :
    lineBreaks (first ++ second) = lineBreaks first + lineBreaks second := List.count_append

theorem nextItem_eq_plainItem {c : Char} (hquote : c ≠ '"') (hslash : c ≠ '/') (hcolon : c ≠ ':')
    (hdot : c ≠ '.') (cs : List Char) : nextItem c cs = plainItem c cs :=
  nextItem.eq_8 c cs hquote (fun _ heq _ => hslash heq) (fun _ heq _ => hslash heq)
    (fun _ heq _ => hcolon heq) (fun _ heq _ => hdot heq) (fun heq _ => hdot heq)
    fun _ _ heq _ => hdot heq

/-- A character of a class that holds no symbol. -/
theorem nextItem_of_class {c : Char} {p : Char → Bool} (hp : p c = true)
    (hnone : ['"', '.', '(', ')', ';', ':', '+', '-', '*', '/', '<', '=', '&', '!'].any p = false)
    (cs : List Char) :
    nextItem c cs = plainItem c cs ∧ symbolOfChar? c = none := by
  have hne : ∀ d ∈ ['"', '.', '(', ')', ';', ':', '+', '-', '*', '/', '<', '=', '&', '!'],
      c ≠ d := by
    rintro d hd rfl
    exact List.any_eq_false.mp hnone c hd hp
  refine ⟨nextItem_eq_plainItem (hne _ (by decide)) (hne _ (by decide)) (hne _ (by decide))
    (hne _ (by decide)) cs, ?_⟩
  fun_cases symbolOfChar? c
  all_goals first | rfl | exact absurd rfl (hne _ (by decide))

theorem nextItem_of_isBlank {c : Char} (hc : isBlank c = true) (cs : List Char) :
    nextItem c cs = .ok ⟨c :: cs.takeWhile isBlank, none, cs.dropWhile isBlank⟩ := by
  obtain ⟨hplain, hsymbol⟩ := nextItem_of_class hc rfl cs
  rw [hplain, plainItem, hsymbol]
  simp only [hc, if_true]

@[simp] theorem map_nil_append (result : Except Error (List Token)) :
    result.map ([] ++ ·) = result := by
  cases result <;> rfl

theorem map_append_append (first second : List Token) (result : Except Error (List Token)) :
    (result.map (second ++ ·)).map (first ++ ·) = result.map ((first ++ second) ++ ·) := by
  cases result with
  | error error => rfl
  | ok tokens => simp [Except.map]

/-- A blank only counts as a line break, if it is one. -/
theorem tokensFrom_of_isBlank {c : Char} (hc : isBlank c = true) (line : Nat) (cs : List Char) :
    tokensFrom line (c :: cs) = tokensFrom (line + lineBreaks [c]) cs := by
  rw [tokensFrom_of_item (nextItem_of_isBlank hc cs)]
  simp only [Option.map_none, Option.toList_none, map_nil_append]
  cases cs with
  | nil => simp
  | cons d ds =>
      cases hd : isBlank d with
      | false => simp [hd]
      | true =>
          rw [tokensFrom_of_item (nextItem_of_isBlank hd ds)]
          simp only [Option.map_none, Option.toList_none, map_nil_append, List.takeWhile_cons, hd,
            if_true, List.dropWhile_cons]
          rw [← List.singleton_append, lineBreaks_append, Nat.add_assoc]

theorem tokensFrom_of_blanks {blanks : List Char} (hblanks : ∀ c ∈ blanks, isBlank c = true)
    (line : Nat) (cs : List Char) :
    tokensFrom line (blanks ++ cs) = tokensFrom (line + lineBreaks blanks) cs := by
  induction blanks generalizing line with
  | nil => rfl
  | cons c blanks ih =>
      obtain ⟨hc, hblanks⟩ := List.forall_mem_cons.mp hblanks
      rw [List.cons_append, tokensFrom_of_isBlank hc, ih hblanks,
        ← List.singleton_append (l := blanks), lineBreaks_append, Nat.add_assoc]

/-- How the tokens of a text go on after a line break. -/
inductive AtNextLine (line : Nat) (text : List Char) : Prop
  /-- The tokens stay, and those of the next line follow. -/
  | restart (tokens : List Token)
      (halone : tokensFrom line text =
        .ok (tokens ++ [⟨.endMarker, line + lineBreaks text⟩]))
      (hrestart : ∀ rest, tokensFrom line (text ++ '\n' :: rest) =
        (tokensFrom (line + lineBreaks text + 1) rest).map (tokens ++ ·))
  /-- The error stays. -/
  | stuck (error : Error) (hcomplete : error.isIncomplete = false)
      (halone : tokensFrom line text = .error error ∨
        tokensFrom line text = .error (.unexpectedEnd (line + lineBreaks text)))
      (hstuck : ∀ rest, tokensFrom line (text ++ '\n' :: rest) = .error error)
  /-- A string or a comment is still open. -/
  | unclosed
      (halone : tokensFrom line text = .error (.unexpectedEnd (line + lineBreaks text)))
      (hunclosed : tokensFrom line (text ++ ['\n']) =
        .error (.unexpectedEnd (line + lineBreaks text + 1)))

theorem Fault.toError_of_ne {fault : Fault} (hfault : fault ≠ .unexpectedEnd) (line : Nat)
    (text text' : List Char) :
    fault.toError line text = fault.toError line text' ∧
      (fault.toError line text).isIncomplete = false := by
  cases fault with
  | unexpectedEnd => exact absurd rfl hfault
  | _ => exact ⟨rfl, rfl⟩

theorem AtNextLine.of_item {line : Nat} {c : Char} {cs : List Char} {item : Item}
    (halone : nextItem c cs = .ok item)
    (hitem : ∀ rest, nextItem c (cs ++ '\n' :: rest) =
      .ok ⟨item.text, item.lexeme?, item.rest ++ '\n' :: rest⟩)
    (hnext : AtNextLine (line + lineBreaks item.text) item.rest) : AtNextLine line (c :: cs) := by
  have hlines : line + lineBreaks (c :: cs) =
      line + lineBreaks item.text + lineBreaks item.rest := by
    rw [← (nextItem_split halone).1, lineBreaks_append, Nat.add_assoc]
  have hfirst : ∀ rest, tokensFrom line (c :: cs ++ '\n' :: rest) =
      (tokensFrom (line + lineBreaks item.text) (item.rest ++ '\n' :: rest)).map
        ((item.lexeme?.map (⟨·, line⟩)).toList ++ ·) :=
    fun rest => tokensFrom_of_item (hitem rest)
  -- the item adds its token in front, whatever becomes of what follows it
  cases hnext with
  | restart tokens halone' hrestart =>
      refine .restart ((item.lexeme?.map (⟨·, line⟩)).toList ++ tokens) ?_ fun rest => ?_
      · rw [tokensFrom_of_item halone, halone', hlines, List.append_assoc]
        rfl
      · rw [hfirst, hrestart, map_append_append, hlines]
  | stuck error hcomplete halone' hstuck =>
      refine .stuck error hcomplete ?_ fun rest => ?_
      · rw [tokensFrom_of_item halone, hlines]
        rcases halone' with halone' | halone'
        · exact .inl (by rw [halone']; rfl)
        · exact .inr (by rw [halone']; rfl)
      · rw [hfirst, hstuck]
        rfl
  | unclosed halone' hunclosed =>
      refine .unclosed ?_ ?_
      · rw [tokensFrom_of_item halone, halone', hlines]
        rfl
      · rw [hfirst, hunclosed, hlines]
        rfl

theorem atNextLine (line : Nat) (text : List Char) : AtNextLine line text := by
  induction hlength : text.length using Nat.strongRecOn generalizing line text with
  | ind length ih =>
      subst hlength
      have hblank : isBlank '\n' = true := by decide
      cases text with
      | nil =>
          refine .restart [] (tokensFrom_nil line) fun rest => ?_
          rw [List.nil_append, tokensFrom_of_isBlank hblank, map_nil_append]
          rfl
      | cons c cs =>
          -- the first item is read as before, or the line break meets it in one of four ways
          cases atLineBreak c cs with
          | within item halone hitem =>
              exact .of_item halone hitem
                (ih item.rest.length (nextItem_rest_length halone) _ item.rest rfl)
          | comment halone hitem =>
              refine .restart [] ?_ fun rest => ?_
              · rw [tokensFrom_of_item halone, tokensFrom_nil]
                rfl
              · rw [List.cons_append, tokensFrom_of_item (hitem rest), ← List.cons_append,
                  lineBreaks_append]
                rfl
          | blanks hblanks =>
              refine .restart [] ?_ fun rest => ?_
              · rw [← List.append_nil (c :: cs), tokensFrom_of_blanks hblanks, tokensFrom_nil,
                  List.append_nil]
                rfl
              · rw [tokensFrom_of_blanks hblanks, tokensFrom_of_isBlank hblank, map_nil_append]
                rfl
          | fault fault hfault halone hitem =>
              have herror := fault.toError_of_ne hfault line
              refine .stuck (fault.toError line (c :: cs)) (herror _ []).2 ?_ fun rest => ?_
              · rcases halone with halone | halone
                · exact .inl (tokensFrom_of_fault halone)
                · exact .inr (tokensFrom_of_fault halone)
              · rw [List.cons_append, tokensFrom_of_fault (hitem rest), (herror _ (c :: cs)).1]
          | unclosed halone hitem =>
              refine .unclosed (tokensFrom_of_fault halone) ?_
              rw [List.cons_append, tokensFrom_of_fault hitem, ← List.cons_append, Fault.toError,
                lineBreaks_append]
              rfl

/-- Where another line follows, the tokens of a text stay and the next line is
tokenized by itself. -/
theorem tokensFrom_newline_of_ok {line last : Nat} {text : List Char} {tokens : List Token}
    (htokens : tokensFrom line text = .ok (tokens ++ [⟨.endMarker, last⟩])) (rest : List Char) :
    tokensFrom line (text ++ '\n' :: rest) =
      (tokensFrom (line + lineBreaks text + 1) rest).map (tokens ++ ·) := by
  cases atNextLine line text with
  | restart tokens' halone hrestart =>
      have happend := Except.ok.inj (htokens.symm.trans halone)
      obtain ⟨rfl, -⟩ := List.append_inj' happend rfl
      exact hrestart rest
  | stuck error hcomplete halone hstuck =>
      rcases halone with halone | halone
      · cases htokens.symm.trans halone
      · cases htokens.symm.trans halone
  | unclosed halone hunclosed => cases htokens.symm.trans halone

/-- An error that is not about the end of the text stays. -/
theorem tokensFrom_newline_of_error {line : Nat} {text : List Char} {error : Error}
    (herror : tokensFrom line text = .error error) (hcomplete : error.isIncomplete = false)
    (rest : List Char) : tokensFrom line (text ++ '\n' :: rest) = .error error := by
  cases atNextLine line text with
  | restart tokens halone hrestart => cases herror.symm.trans halone
  | stuck error' hcomplete' halone hstuck =>
      rcases halone with halone | halone
      · obtain rfl := Except.error.inj (herror.symm.trans halone)
        exact hstuck rest
      · cases herror.symm.trans halone
        cases hcomplete
  | unclosed halone hunclosed =>
      cases herror.symm.trans halone
      cases hcomplete

/-! ## Texts that start further down -/

theorem tokensFrom_add (line k : Nat) (text : List Char) :
    tokensFrom (line + k) text =
      ((tokensFrom line text).map (List.map (Token.relocate (· + k)))).mapError
        (Error.relocate (· + k)) := by
  induction hlength : text.length using Nat.strongRecOn generalizing line text with
  | ind length ih =>
      subst hlength
      cases text with
      | nil =>
          rw [tokensFrom_nil, tokensFrom_nil]
          rfl
      | cons c cs =>
          cases hitem : nextItem c cs with
          | error fault =>
              rw [tokensFrom_of_fault hitem, tokensFrom_of_fault hitem]
              cases fault with
              -- the only fault whose line is not the one on which its item begins
              | unexpectedEnd =>
                  simp only [Fault.toError, Nat.add_right_comm line k]
                  rfl
              | _ => rfl
          | ok item =>
              rw [tokensFrom_of_item hitem, tokensFrom_of_item hitem, Nat.add_right_comm line k,
                ih item.rest.length (nextItem_rest_length hitem) _ item.rest rfl]
              cases tokensFrom (line + lineBreaks item.text) item.rest with
              | error error => rfl
              | ok tokens => cases item.lexeme? <;> rfl

/-! ## The end marker -/

theorem ofWord_ne_endMarker (word : String) : Lexeme.ofWord word ≠ .endMarker := by
  unfold Lexeme.ofWord
  split
  · exact fun heq => nomatch heq
  · split <;> exact fun heq => nomatch heq

theorem lexeme_ne_endMarker_of_plainItem {c : Char} {cs : List Char} {item : Item}
    (hitem : plainItem c cs = .ok item) : item.lexeme? ≠ some .endMarker := by
  unfold plainItem at hitem
  split at hitem
  · cases hitem
    exact fun heq => nomatch heq
  · split at hitem
    · cases hitem
      exact fun heq => nomatch heq
    · split at hitem
      · simp only [number] at hitem
        split at hitem
        · cases hitem
        · split at hitem
          · cases hitem
            exact fun heq => nomatch heq
          · cases hitem
      · split at hitem
        · cases hitem
          exact fun heq => ofWord_ne_endMarker _ (Option.some.inj heq)
        · cases hitem

theorem lexeme_ne_endMarker {c : Char} {cs : List Char} {item : Item}
    (hitem : nextItem c cs = .ok item) : item.lexeme? ≠ some .endMarker := by
  unfold nextItem at hitem
  split at hitem
  · cases hitem
    exact fun heq => nomatch heq
  · split at hitem
    · cases hitem
      exact fun heq => nomatch heq
    · cases hitem
  · cases hitem
    exact fun heq => nomatch heq
  · cases hitem
    exact fun heq => nomatch heq
  · cases hitem
  · cases hitem
  · split at hitem
    · cases hitem
      exact fun heq => nomatch heq
    · cases hitem
  · exact lexeme_ne_endMarker_of_plainItem hitem

/-- The end marker stands at the end of the tokens, and only there. -/
theorem tokensFrom_eq_ok {line : Nat} {text : List Char} {tokens : List Token}
    (htokens : tokensFrom line text = .ok tokens) :
    ∃ body, tokens = body ++ [⟨.endMarker, line + lineBreaks text⟩] ∧
      ∀ t ∈ body, t.kind ≠ .endMarker := by
  induction hlength : text.length using Nat.strongRecOn generalizing line text tokens with
  | ind length ih =>
      subst hlength
      cases text with
      | nil =>
          rw [tokensFrom_nil] at htokens
          cases htokens
          exact ⟨[], rfl, fun _ hmem => nomatch hmem⟩
      | cons c cs =>
          cases hitem : nextItem c cs with
          | error fault =>
              rw [tokensFrom_of_fault hitem] at htokens
              cases htokens
          | ok item =>
              rw [tokensFrom_of_item hitem] at htokens
              cases hrest : tokensFrom (line + lineBreaks item.text) item.rest with
              | error error =>
                  rw [hrest] at htokens
                  cases htokens
              | ok rest =>
                  rw [hrest] at htokens
                  cases htokens
                  obtain ⟨body, rfl, hbody⟩ := ih _ (nextItem_rest_length hitem) hrest rfl
                  -- the lines of the text are those of its first item and of the rest
                  have hlines : line + lineBreaks (c :: cs) =
                      line + lineBreaks item.text + lineBreaks item.rest := by
                    rw [← (nextItem_split hitem).1, lineBreaks_append, Nat.add_assoc]
                  refine ⟨(item.lexeme?.map (⟨·, line⟩)).toList ++ body, ?_, ?_⟩
                  · rw [hlines, List.append_assoc]
                  · intro t ht
                    rcases List.mem_append.mp ht with ht | ht
                    · simp only [Option.mem_toList, Option.map_eq_some_iff] at ht
                      obtain ⟨lexeme, hlexeme, rfl⟩ := ht
                      intro hkind
                      cases lexeme with
                      | endMarker => exact lexeme_ne_endMarker hitem hlexeme
                      | _ => cases hkind
                    · exact hbody t ht

end Primer.Lexer

namespace Primer

open Lexer

/-! ## Two texts -/

theorem tokenize_append (source s : String) :
    tokenize (source ++ s) = tokensFrom 1 (source.toList ++ s.toList) := by
  rw [tokenize, String.toList_append]

theorem toList_append_newline (a b : String) :
    (a ++ "\n").toList ++ b.toList = a.toList ++ '\n' :: b.toList := by
  simp

theorem tokenize_append_newline {a : String} {tokens : List Token} {last : Nat}
    (htokens : tokenize a = .ok (tokens ++ [⟨.endMarker, last⟩])) (b : String) :
    let k := 1 + lineBreaks a.toList
    tokenize (a ++ "\n" ++ b) =
      (((tokenize b).map (List.map (Token.relocate (· + k)))).mapError
        (Error.relocate (· + k))).map (tokens ++ ·) := by
  intro k
  have hline : 1 + lineBreaks a.toList + 1 = 1 + k := Nat.add_comm _ _
  rw [tokenize_append, toList_append_newline, tokensFrom_newline_of_ok htokens, hline,
    tokensFrom_add]
  rfl

/-- Behind a text that can be cut into tokens and a line break, another text has the
tokens and the errors that it has alone, on later lines.  An error that is not about
the end of the first text is there to stay. -/
theorem tokenize_newline (a b : String) :
    (∀ tokens last, tokenize a = .ok (tokens ++ [⟨.endMarker, last⟩]) →
      (∀ more, tokenize b = .ok more →
        tokenize (a ++ "\n" ++ b) =
          .ok (tokens ++ more.map (Token.relocate (· + (1 + lineBreaks a.toList))))) ∧
      ∀ error, tokenize b = .error error →
        tokenize (a ++ "\n" ++ b) =
          .error (error.relocate (· + (1 + lineBreaks a.toList)))) ∧
    (∀ line character, tokenize a = .error (.unexpectedCharacter line character) →
      tokenize (a ++ "\n" ++ b) = .error (.unexpectedCharacter line character)) ∧
    ∀ line digits, tokenize a = .error (.literalOutOfRange line digits) →
      tokenize (a ++ "\n" ++ b) = .error (.literalOutOfRange line digits) := by
  -- what is wrong in the first text is found before the second one is reached
  have hstays : ∀ error, error.isIncomplete = false → tokenize a = .error error →
      tokenize (a ++ "\n" ++ b) = .error error := by
    intro error hcomplete herror
    rw [tokenize_append, toList_append_newline]
    exact tokensFrom_newline_of_error herror hcomplete b.toList
  refine ⟨fun tokens last htokens => ⟨fun more hmore => ?_, fun error herror => ?_⟩,
    fun line character => hstays _ rfl, fun line digits => hstays _ rfl⟩
  · rw [tokenize_append_newline htokens, hmore]
    rfl
  · rw [tokenize_append_newline htokens, herror]
    rfl

/-- The colon and the comment at the ends of two texts do not reach beyond the line
break, a string that is open behind it is reported on its own line, and the letter
behind a numeral stays wrong. -/
theorem tokenize_newline_edges :
    tokenize "x:\n=" = .ok
      [⟨.name "x", 1⟩, ⟨.symbol .colon, 1⟩, ⟨.symbol .equal, 2⟩, ⟨.endMarker, 2⟩] ∧
    tokenize "x//\n\"" = .error (.unexpectedEnd 2) ∧
    tokenize "\n1a\n\"" = .error (.unexpectedCharacter 2 'a') := by
  have hcolon : tokenize "x:" = .ok
      ([⟨.name "x", 1⟩, ⟨.symbol .colon, 1⟩] ++ [⟨.endMarker, 1⟩]) := by cbv
  have hequal : tokenize "=" = .ok [⟨.symbol .equal, 1⟩, ⟨.endMarker, 1⟩] := by cbv
  have hcomment : tokenize "x//" = .ok ([⟨.name "x", 1⟩] ++ [⟨.endMarker, 1⟩]) := by cbv
  have hstring : tokenize "\"" = .error (.unexpectedEnd 1) := by cbv
  have hletter : tokenize "\n1a" = .error (.unexpectedCharacter 2 'a') := by cbv
  exact ⟨((tokenize_newline "x:" "=").1 _ _ hcolon).1 _ hequal,
    ((tokenize_newline "x//" "\"").1 _ _ hcomment).2 _ hstring,
    (tokenize_newline "\n1a" "\"").2.1 _ _ hletter⟩

end Primer
