import Primer.Proofs.Continuation
import Primer.Proofs.Grammar.Unfolding
import Primer.Proofs.Semantics.Faults
import Primer.Proofs.Token.LineNumbers

/-!
# Lines that errors are reported on

Running a text can fail while it is tokenized, while it is parsed and while its
tree is run, and each of these takes the line of its error from the text:

* tokenizing fails on the line where an item starts or on the last line;
* parsing fails on the line of the token that it did not take, and behind the
  end marker on the line of the end marker;
* running a tree fails on the line of one of its tokens (`Node.failsOn_lines`).

So the lines of variables that other texts declared are never those of an error,
although a context is full of them.  Only input that is not text has no line.

## Main results

* `runIn_error_line` : the errors of running a text are on lines of the text.
-/

namespace Primer

open Lexer Stateful

/-! ## Tokens -/

section Texts

variable {source : String}

/-- The tokens of a text are on its lines. -/
theorem line_of_mem_tokenize {tokens : List Token} (htokens : tokenize source = .ok tokens)
    {t : Token} (ht : t ∈ tokens) : 1 ≤ t.line ∧ t.line ≤ 1 + lineBreaks source.toList := by
  obtain ⟨items, hitems, rfl⟩ := exists_items_of_tokensFrom htokens
  have htext : Item.textOf items = source.toList := by simpa using hitems.textOf_append
  -- the end marker is behind all others
  have hsorted := Item.pairwise_tokensOf 1 items
  rw [htext, List.pairwise_append] at hsorted
  obtain ⟨-, -, hlast⟩ := hsorted
  rcases List.mem_append.mp ht with ht | ht
  · exact ⟨Item.le_line_of_mem_tokensOf ht, hlast t ht _ (List.mem_singleton_self _)⟩
  · obtain rfl := List.mem_singleton.mp ht
    exact ⟨Nat.le_add_right _ _, le_refl _⟩

theorem line_of_tokenize_eq_error {error : Error} (herror : tokenize source = .error error) :
    ∃ line, error.line? = some line ∧ 1 ≤ line ∧ line ≤ 1 + lineBreaks source.toList := by
  obtain ⟨items, remaining, fault, hitems, -, rfl⟩ := exists_malformed_of_tokensFrom herror
  rw [← hitems.textOf_append, lineBreaks_append]
  cases fault with
  | unexpectedEnd => exact ⟨_, rfl, by omega, by omega⟩
  | unexpectedCharacter | literalOutOfRange => exact ⟨_, rfl, by omega, by omega⟩

end Texts

/-! ## Parsing -/

/-- An error about the next token is on the line of the stream. -/
theorem Error.Describes.line? {error : Error} {s : TokenStream} (hdescribes : error.Describes s) :
    error.line? = some s.line := by
  obtain ⟨behind, ahead, remaining, hremaining⟩ := s
  cases ahead with
  | nil => rcases hdescribes with rfl | rfl <;> rfl
  | cons t ts => rcases hdescribes with ⟨expected, rfl⟩ | rfl <;> rfl

/-- The line of a stream is that of one of its tokens. -/
theorem TokenStream.exists_line_eq {s : TokenStream} (hnonempty : s.tokens ≠ []) :
    ∃ t ∈ s.tokens, t.line = s.line := by
  obtain ⟨behind, ahead, remaining, hremaining⟩ := s
  cases ahead with
  | cons t ts => exact ⟨t, by simp [tokens], rfl⟩
  | nil =>
      cases behind with
      | nil => exact absurd rfl hnonempty
      | cons t ts => exact ⟨t, by simp [tokens], rfl⟩

/-- Parsing fails on the line of a token. -/
theorem line_of_parse_eq_error {tokens : List Token} (hnonempty : tokens ≠ []) {error : Error}
    (hparse : parse tokens = .error (.error error)) :
    ∃ t ∈ tokens, error.line? = some t.line := by
  obtain ⟨_, s', heq, hfailure, hdescribes⟩ := parse_eq_error hparse
  cases heq
  obtain ⟨taken, hmoves⟩ := forward_consumeProgram.moves_endState (.ofTokens tokens)
  rw [hfailure] at hmoves
  have htokens : s'.tokens = tokens := hmoves.tokens_eq
  obtain ⟨t, ht, hline⟩ := TokenStream.exists_line_eq (htokens ▸ hnonempty)
  exact ⟨t, htokens ▸ ht, hline ▸ hdescribes.line?⟩

/-! ## Running -/

theorem Error.OfRun.line? {lines : List Nat} {error : Error} (hrun : error.OfRun lines)
    (hdecodable : error ≠ .undecodableInput) : ∃ line ∈ lines, error.line? = some line := by
  cases error with
  | undecodableInput => exact absurd rfl hdecodable
  | unexpectedCharacter | unexpectedEnd | literalOutOfRange | unexpectedToken | noAlternative =>
      exact hrun.elim
  | _ => exact ⟨_, hrun, rfl⟩

/-- What a text compiles to fails on the line of one of the text's tokens. -/
theorem line_of_execute_eq_error {source : String} {node : Node} {context context' : Context}
    {error : Error} (hcompile : compile source = .ok node)
    (hrun : execute node context = .error (.error error) context')
    (hdecodable : error ≠ .undecodableInput) :
    ∃ tokens, tokenize source = .ok tokens ∧ ∃ t ∈ tokens, error.line? = some t.line := by
  obtain ⟨program, last, rfl, htokens⟩ := exists_program_of_compile hcompile
  obtain ⟨line, hmem, hline⟩ :=
    (program.tree.failsOn_lines context context' error hrun).line? hdecodable
  obtain ⟨t, ht, rfl⟩ := List.mem_map.mp hmem
  exact ⟨_, htokens, t, List.mem_append_left _ ht, hline⟩

/-! ## Texts -/

/-- If a text has tokens, the errors of running it are on the lines of these. -/
theorem line_of_runIn_eq_error {source : String} {tokens : List Token}
    {context context' : Context} {error : Error} (htokens : tokenize source = .ok tokens)
    (hrun : runIn source context = .error (.error error) context')
    (hdecodable : error ≠ .undecodableInput) : ∃ t ∈ tokens, error.line? = some t.line := by
  rw [runIn] at hrun
  cases hcompile : compile source with
  | ok node =>
      rw [hcompile] at hrun
      obtain ⟨tokens', htokens', hline⟩ := line_of_execute_eq_error hcompile hrun hdecodable
      obtain rfl := Except.ok.inj (htokens.symm.trans htokens')
      exact hline
  | error failure =>
      rw [hcompile] at hrun
      cases hrun
      rw [compile_of_tokenize_ok htokens] at hcompile
      refine line_of_parse_eq_error ?_ hcompile
      obtain ⟨items, -, rfl⟩ := exists_items_of_tokensFrom htokens
      exact List.append_ne_nil_of_right_ne_nil _ (List.cons_ne_nil _ _)

/-- Whatever a context holds, the error of running a text in it is on a line of
the text, and on the line of one of its tokens if it has tokens. -/
theorem runIn_error_line {source : String} {context context' : Context} {error : Error}
    (hrun : runIn source context = .error (.error error) context')
    (hdecodable : error ≠ .undecodableInput) :
    ∃ line, error.line? = some line ∧ 1 ≤ line ∧ line ≤ 1 + lineBreaks source.toList ∧
      ∀ tokens, tokenize source = .ok tokens → ∃ t ∈ tokens, t.line = line := by
  -- an error of the tokenizer may stand where the text ends, any other one at a token
  cases htokens : tokenize source with
  | error cause =>
      rw [runIn, compile_of_tokenize_error htokens] at hrun
      cases hrun
      obtain ⟨line, hline, hfirst, hlast⟩ := line_of_tokenize_eq_error htokens
      refine ⟨line, hline, hfirst, hlast, ?_⟩
      intro tokens hok
      cases hok
  | ok tokens =>
      obtain ⟨t, ht, hline⟩ := line_of_runIn_eq_error htokens hrun hdecodable
      obtain ⟨hfirst, hlast⟩ := line_of_mem_tokenize htokens ht
      refine ⟨t.line, hline, hfirst, hlast, ?_⟩
      rintro _ ⟨⟩
      exact ⟨t, ht, rfl⟩

/-- The variable that is in the way was declared on line 40 of another text. -/
theorem runIn_error_line_redeclaration :
    let source := "\nvar x : int;\n"
    let context : Context := ⟨[[("x", ⟨"x", 40, .int, none⟩)]], .ofLines []⟩
    let error : Error := .alreadyDefined 2 "x" 40
    runIn source context = .error (.error error) context ∧ error ≠ .undecodableInput ∧
      ∃ line, error.line? = some line ∧ 1 ≤ line ∧ line ≤ 1 + lineBreaks source.toList ∧
        ∀ tokens, tokenize source = .ok tokens → ∃ t ∈ tokens, t.line = line := by
  intro source context error
  have hrun : runIn source context = .error (.error error) context := by cbv
  have hdecodable : error ≠ .undecodableInput := by decide
  exact ⟨hrun, hdecodable, runIn_error_line hrun hdecodable⟩

end Primer
