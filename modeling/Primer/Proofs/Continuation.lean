import Primer.Proofs.Grammar.Viability
import Primer.Proofs.Semantics.Refinement
import Primer.Proofs.Token.Samples
import Primer.Proofs.Token.Unfinished

/-!
# What more text can do

A text that does not compile is either beyond help, or a longer text compiles
that begins with it.  Its error tells which, almost:

* an error that is not incomplete stays, if the text ends in a line break: the
  tokens before the line break are settled, and the error is about one of them;
* an error that the end marker is too early goes away, since what was parsed
  up to there is the beginning of a program;
* an error that the text ends inside an item says nothing about the tokens in
  front of that item.  It goes away if and only if these, together with the
  token that the item has to become, are the beginning of a program.

## Main results

* `exists_error_append` : errors that stay.
* `exists_append_of_isIncomplete` : tokens that are incomplete can be completed.
* `exists_append_iff_of_unexpectedEnd` : when an unfinished item can be.
-/

namespace Primer

/-! ## Texts that compile -/

/-- The tokens of whatever compiles are those of a program and one end marker. -/
theorem exists_program_of_compile {source : String} {node : Node}
    (hcompile : compile source = .ok node) :
    ∃ (program : Program) (last : Nat), node = program.tree ∧
      tokenize source = .ok (program.tokens ++ [⟨.endMarker, last⟩]) := by
  rw [compile] at hcompile
  cases htokens : tokenize source with
  | error error =>
      rw [htokens] at hcompile
      cases hcompile
  | ok tokens =>
      rw [htokens] at hcompile
      obtain ⟨body, rfl, hbody⟩ := Lexer.tokensFrom_eq_ok htokens
      obtain ⟨program, rfl, rfl⟩ := (parse_endMarker_eq_ok hbody).mp hcompile
      exact ⟨program, _, rfl, rfl⟩

/-- A text that does not compile is at fault. -/
theorem exists_error_of_compile {source : String} {failure : Failure}
    (hcompile : compile source = .error failure) : ∃ error, failure = .error error := by
  unfold compile at hcompile
  split at hcompile
  · obtain ⟨error, -, hfailure, -⟩ := parse_eq_error hcompile
    exact ⟨error, hfailure⟩
  · cases hcompile
    exact ⟨_, rfl⟩

theorem compile_of_tokenize_error {source : String} {error : Error}
    (htokens : tokenize source = .error error) : compile source = .error (.error error) := by
  rw [compile, htokens]

theorem compile_of_tokenize_ok {source : String} {tokens : List Token}
    (htokens : tokenize source = .ok tokens) : compile source = parse tokens := by
  rw [compile, htokens]

/-- If the tokens before a line break stay whatever follows, a text that ends
there has these tokens. -/
theorem tokenize_of_restart {source : String} {text : List Char} {tokens : List Token} {line : Nat}
    (hsource : source.toList = text ++ ['\n'])
    (hrestart : ∀ rest, Lexer.tokensFrom 1 (text ++ '\n' :: rest) =
      (Lexer.tokensFrom line rest).map (tokens ++ ·)) :
    tokenize source = .ok (tokens ++ [⟨.endMarker, line⟩]) := by
  rw [tokenize, hsource, hrestart, Lexer.tokensFrom_nil]
  rfl

/-! ## Errors that stay -/

/-- Before a line break, an error that is not incomplete stays: no text that
goes on from there compiles. -/
theorem exists_error_append {source : String} {error : Error}
    (hnewline : source.toList.getLast? = some '\n')
    (hcompile : compile source = .error (.error error)) (hcomplete : error.isIncomplete = false)
    (s : String) : ∃ error', compile (source ++ s) = .error (.error error') := by
  obtain ⟨text, hsource⟩ := List.getLast?_eq_some_iff.mp hnewline
  have happend : tokenize (source ++ s) = Lexer.tokensFrom 1 (text ++ '\n' :: s.toList) := by
    rw [tokenize_append, hsource, List.append_assoc]
    rfl
  cases Lexer.atNextLine 1 text with
  | restart tokens halone hrestart =>
      rw [compile_of_tokenize_ok (tokenize_of_restart hsource hrestart)] at hcompile
      rw [hrestart] at happend
      cases hmore : Lexer.tokensFrom (1 + Lexer.lineBreaks text + 1) s.toList with
      | error error' =>
          rw [hmore] at happend
          exact ⟨error', compile_of_tokenize_error happend⟩
      | ok more =>
          rw [hmore] at happend
          refine ⟨error, ?_⟩
          rw [compile_of_tokenize_ok happend]
          exact parse_error_of_prefix hcompile hcomplete more
  | stuck error' hcomplete' halone hstuck =>
      exact ⟨error', compile_of_tokenize_error (happend.trans (hstuck s.toList))⟩
  | unclosed halone hunclosed =>
      -- an open string or comment is reported as incomplete
      have htokens : tokenize source =
          .error (.unexpectedEnd (1 + Lexer.lineBreaks text + 1)) := by
        rw [tokenize, hsource, hunclosed]
      rw [compile_of_tokenize_error htokens] at hcompile
      cases hcompile
      cases hcomplete

theorem exists_error_append_operand :
    let source := "print \"a\nb\" 1;\n"
    let error : Error := .unexpectedToken 2 .number (.symbol .semicolon)
    source.toList.getLast? = some '\n' ∧ compile source = .error (.error error) ∧
      error.isIncomplete = false ∧
      ∀ s, ∃ error', compile (source ++ s) = .error (.error error') := by
  intro source error
  have hnewline : source.toList.getLast? = some '\n' := by cbv
  have hcompile : compile source = .error (.error error) := by cbv
  exact ⟨hnewline, hcompile, rfl, exists_error_append hnewline hcompile rfl⟩

/-! ## Texts that can be completed -/

/-- No word of the grammar holds an end marker. -/
theorem endMarker_not_mem_of_mem_language {kinds : List Kind} (hkinds : kinds ∈ grammar.language) :
    .endMarker ∉ kinds := by
  obtain ⟨tokens, rfl⟩ := List.map_surjective_iff.mpr Token.kind_surjective kinds
  obtain ⟨program, rfl⟩ := mem_language_grammar.mp hkinds
  intro hmem
  obtain ⟨t, ht, hkind⟩ := List.mem_map.mp hmem
  exact program.kind_ne_endMarker t ht hkind

/-- If the tokens of a text stay whatever follows, and their kinds begin a word of
the grammar, then the text can be completed. -/
theorem exists_append_of_settled {source : String} {closing : List Char} {tokens : List Token}
    {line : Nat} (hsettled : ∀ rest, Lexer.tokensFrom 1 (source.toList ++ (closing ++ rest)) =
      (Lexer.tokensFrom line rest).map (tokens ++ ·))
    {more : List Kind} (hmore : tokens.map Token.kind ++ more ∈ grammar.language) :
    ∃ s node, compile (source ++ s) = .ok node := by
  -- the end marker is no terminal of the grammar, so every kind still missing can be written
  have hnone : .endMarker ∉ more := fun hmem =>
    endMarker_not_mem_of_mem_language hmore (List.mem_append_right _ hmem)
  obtain ⟨others, last, rfl, hothers⟩ := Lexer.exists_tokensFrom_samples hnone line
  rw [← List.map_append] at hmore
  obtain ⟨program, hprogram⟩ := mem_language_grammar.mp hmore
  refine ⟨String.ofList (closing ++ Lexer.samples (others.map Token.kind)), program.tree, ?_⟩
  refine compile_eq_ok.mpr ⟨program, last, [], rfl, ?_⟩
  rw [tokenize_append, String.toList_ofList, hsettled, hothers, ← hprogram, List.append_assoc]
  rfl

/-- A text that was cut into tokens, and of which only the end is missing, can be completed. -/
theorem exists_append_of_isIncomplete {source : String} {tokens : List Token} {error : Error}
    (htokens : tokenize source = .ok tokens) (hcompile : compile source = .error (.error error))
    (hincomplete : error.isIncomplete = true) : ∃ s node, compile (source ++ s) = .ok node := by
  obtain ⟨body, rfl, hbody⟩ := Lexer.tokensFrom_eq_ok htokens
  rw [compile_of_tokenize_ok htokens] at hcompile
  obtain ⟨more, program, hprogram⟩ := exists_program_of_isIncomplete hbody hcompile hincomplete
  have hlanguage : body.map Token.kind ++ more.map Token.kind ∈ grammar.language := by
    rw [← List.map_append]
    exact mem_language_grammar.mpr ⟨program, hprogram.symm⟩
  have hsettled : ∀ rest, Lexer.tokensFrom 1 (source.toList ++ (['\n'] ++ rest)) = _ :=
    Lexer.tokensFrom_newline_of_ok htokens
  exact exists_append_of_settled hsettled hlanguage

theorem exists_append_of_isIncomplete_loop :
    let source := "for i in 1..2 do print (1 +"
    let error : Error := .noAlternative 1 .endMarker
    ∃ tokens, tokenize source = .ok tokens ∧ compile source = .error (.error error) ∧
      error.isIncomplete = true ∧ ∃ s node, compile (source ++ s) = .ok node := by
  intro source error
  have htokens : tokenize source = .ok
      [⟨.keyword .kwFor, 1⟩, ⟨.name "i", 1⟩, ⟨.keyword .kwIn, 1⟩, ⟨.number 1, 1⟩,
        ⟨.symbol .range, 1⟩, ⟨.number 2, 1⟩, ⟨.keyword .kwDo, 1⟩, ⟨.keyword .kwPrint, 1⟩,
        ⟨.symbol .leftParen, 1⟩, ⟨.number 1, 1⟩, ⟨.symbol .plus, 1⟩, ⟨.endMarker, 1⟩] := by cbv
  have hcompile : compile source = .error (.error error) := by cbv
  exact ⟨_, htokens, hcompile, rfl, exists_append_of_isIncomplete htokens hcompile rfl⟩

/-! ## Texts that end inside an item -/

/-- A program that begins with a text which ends too early has tokens first of the
kinds to which this text is committed. -/
theorem exists_program_of_append {source s : String} {line : Nat} {node : Node}
    (htokens : tokenize source = .error (.unexpectedEnd line))
    (hcompile : compile (source ++ s) = .ok node) :
    ∃ (program : Program) (more : List Kind),
      program.tokens.map Token.kind = Lexer.committedKinds source.toList ++ more := by
  obtain ⟨program, last, -, hprogram⟩ := exists_program_of_compile hcompile
  rw [tokenize_append] at hprogram
  obtain ⟨more, hmore⟩ := Lexer.exists_map_kind_eq_of_append htokens hprogram
  exact ⟨program, more, hmore⟩

/-- A text that ends inside an item can be completed if and only if the kinds to
which it is committed begin a word of the grammar. -/
theorem exists_append_iff_of_unexpectedEnd {source : String} {line : Nat}
    (htokens : tokenize source = .error (.unexpectedEnd line)) :
    (∃ s node, compile (source ++ s) = .ok node) ↔
      ∃ more, Lexer.committedKinds source.toList ++ more ∈ grammar.language := by
  constructor
  · rintro ⟨s, node, hcompile⟩
    obtain ⟨program, more, hkinds⟩ := exists_program_of_append htokens hcompile
    exact ⟨more, hkinds ▸ mem_language_grammar.mpr ⟨program, rfl⟩⟩
  · rintro ⟨more, hmore⟩
    obtain ⟨closing, tokens, line', hkinds, hsettled⟩ := Lexer.exists_closed_text htokens
    rw [← hkinds] at hmore
    exact exists_append_of_settled hsettled hmore

theorem exists_append_iff_of_unexpectedEnd_string :
    let source := "for i in 1..2 do print (\"a\\"
    tokenize source = .error (.unexpectedEnd 1) ∧ ∃ s node, compile (source ++ s) = .ok node := by
  intro source
  have htokens : tokenize source = .error (.unexpectedEnd 1) := by cbv
  let program : Program :=
    .next (.loop 1 "i" 1 1 (.single (.literal (.int 1) 1)) 1 (.single (.literal (.int 2) 1)) 1
      (.next (.printing 1 (.single (.group 1 (.single (.literal (.string "a") 1)) 1))) 1 .done)
      1 1) 1 .done
  have hlanguage : program.tokens.map Token.kind ∈ grammar.language :=
    mem_language_grammar.mpr ⟨program, rfl⟩
  have hcommitted : program.tokens.map Token.kind = Lexer.committedKinds source.toList ++
      [.symbol .rightParen, .symbol .semicolon, .keyword .kwEnd, .keyword .kwFor,
        .symbol .semicolon] := by cbv
  rw [hcommitted] at hlanguage
  exact ⟨htokens, (exists_append_iff_of_unexpectedEnd htokens).mpr ⟨_, hlanguage⟩⟩

/-- After a semicolon that ends no statement, no string can be completed. -/
theorem compile_append_stray_semicolon_ne_ok :
    tokenize ";\"" = .error (.unexpectedEnd 1) ∧ ∀ s node, compile (";\"" ++ s) ≠ .ok node := by
  have htokens : tokenize ";\"" = .error (.unexpectedEnd 1) := by cbv
  refine ⟨htokens, fun s node hcompile => ?_⟩
  obtain ⟨program, more, hkinds⟩ := exists_program_of_append htokens hcompile
  have hcommitted : Lexer.committedKinds ";\"".toList = [.symbol .semicolon, .string] := by cbv
  rw [hcommitted] at hkinds
  -- no statement begins with a semicolon
  cases program with
  | done => cases hkinds
  | next statement semicolonLine rest =>
      cases statement <;> simp [Token.kind, Lexeme.kind] at hkinds

end Primer
