import Primer.Proofs.Continuation
import Primer.Proofs.Grammar.Append
import Primer.Proofs.Semantics.Provenance

/-!
# Texts one after the other

Behind a text that compiles and a line break, another text is tokenized, parsed
and run as it is alone, apart from its lines:

* tokens do not reach across the line break, and those after it are moved down;
* the parser takes the statements of the first text off and goes on as if it
  began there;
* the statements of both are run in turn, and a run uses lines for nothing but
  reports.

## Main results

* `runIn_append_newline` : compiling and running two texts as one.
-/

namespace Primer

variable {a b : String}

/-! ## Compiling -/

theorem compile_append_newline_of_ok {first second : Program}
    (hfirst : compile a = .ok first.tree) (hsecond : compile b = .ok second.tree) :
    let k := 1 + Lexer.lineBreaks a.toList
    compile (a ++ "\n" ++ b) = .ok (first.append (second.relocate (· + k))).tree := by
  intro k
  obtain ⟨_, last, htree, hfirst⟩ := exists_program_of_compile hfirst
  obtain rfl := Program.tree_injective htree
  obtain ⟨_, last', htree, hsecond⟩ := exists_program_of_compile hsecond
  obtain rfl := Program.tree_injective htree
  refine compile_eq_ok.mpr ⟨_, last' + k, [], rfl, ?_⟩
  rw [tokenize_append_newline hfirst, hsecond]
  simp [Except.map, Except.mapError, Program.tokens_relocate, Token.relocate, k]

theorem compile_append_newline_of_error {first : Node} (hfirst : compile a = .ok first)
    {failure : Failure} (hsecond : compile b = .error failure) :
    let k := 1 + Lexer.lineBreaks a.toList
    ∃ error, failure = .error error ∧
      compile (a ++ "\n" ++ b) = .error (.error (error.relocate (· + k))) := by
  intro k
  obtain ⟨program, last, -, hprogram⟩ := exists_program_of_compile hfirst
  have hboth := tokenize_append_newline hprogram b
  -- the second text fails as a list of characters or as a list of tokens
  cases htokens : tokenize b with
  | error error =>
      rw [htokens] at hboth
      rw [compile_of_tokenize_error htokens] at hsecond
      cases hsecond
      exact ⟨error, rfl, compile_of_tokenize_error hboth⟩
  | ok tokens =>
      rw [htokens] at hboth
      rw [compile_of_tokenize_ok htokens] at hsecond
      obtain ⟨error, -, rfl, -⟩ := parse_eq_error hsecond
      have hne : tokens ≠ [] := by
        obtain ⟨body, rfl, -⟩ := Lexer.tokensFrom_eq_ok htokens
        simp
      refine ⟨error, rfl, ?_⟩
      rw [compile_of_tokenize_ok hboth]
      exact parse_append_eq_error program hne hsecond (· + k)

theorem compile_append_newline_ok_iff {first : Node} (hfirst : compile a = .ok first) :
    (∃ both, compile (a ++ "\n" ++ b) = .ok both) ↔ ∃ second, compile b = .ok second := by
  constructor
  · rintro ⟨both, hboth⟩
    cases hsecond : compile b with
    | ok second => exact ⟨second, rfl⟩
    | error failure =>
        obtain ⟨error, -, herror⟩ := compile_append_newline_of_error hfirst hsecond
        cases hboth.symm.trans herror
  · rintro ⟨second, hsecond⟩
    obtain ⟨opening, -, rfl, -⟩ := exists_program_of_compile hfirst
    obtain ⟨program, -, rfl, -⟩ := exists_program_of_compile hsecond
    exact ⟨_, compile_append_newline_of_ok hfirst hsecond⟩

/-! ## Running -/

/-- The statements added to a program run where the program ends. -/
theorem runIn_append {opening program : Program} {whole : String} {context : Context}
    (hfirst : compile a = .ok opening.tree)
    (hwhole : compile whole = .ok (opening.append program).tree)
    (hwf : context.scopes.WellFormed) :
    match runIn a context with
    | .error failure after => runIn whole context = .error failure after
    | .ok () middle =>
        middle.scopes.WellFormed ∧ runIn whole context = program.run.toExec middle := by
  have hmiddle := (opening.mirrors_run hwf).wellFormed
  rw [runIn_of_compile hfirst hwf, runIn_of_compile hwhole hwf, Program.run_append,
    Run.toExec_apply, Run.toExec_apply]
  rcases houtcome : opening.run.outcome context with ⟨error | _, middle⟩
  · rw [Run.outcome_bind_of_error houtcome]
  · rw [houtcome] at hmiddle
    rw [Run.outcome_bind_of_ok houtcome, ← Run.toExec_apply]
    exact ⟨hmiddle, rfl⟩

/-- Two texts, the first of which compiles, run as one: what the first one does,
and then what the second one does where its lines are moved down. -/
theorem runIn_append_newline {first : Node} (hfirst : compile a = .ok first) (b : String) :
    let k := 1 + Lexer.lineBreaks a.toList
    ((∃ both, compile (a ++ "\n" ++ b) = .ok both) ↔ ∃ second, compile b = .ok second) ∧
    (∀ failure, compile b = .error failure → ∃ error, failure = .error error ∧
      compile (a ++ "\n" ++ b) = .error (.error (error.relocate (· + k)))) ∧
    ∀ second, compile b = .ok second → ∃ program : Program, second = program.tree ∧
      ∀ context : Context, context.scopes.WellFormed →
        match runIn a context with
        | .error failure after => runIn (a ++ "\n" ++ b) context = .error failure after
        | .ok () middle =>
            Exec.MovesDown k middle (runIn b middle) (runIn (a ++ "\n" ++ b) context) ∧
            runIn b middle = Exec.relocateResult (unmark 0) (program.markedResult middle) ∧
            runIn (a ++ "\n" ++ b) context =
              Exec.relocateResult (unmark k) (program.markedResult middle) := by
  intro k
  refine ⟨compile_append_newline_ok_iff hfirst,
    fun failure hfailure => compile_append_newline_of_error hfirst hfailure, ?_⟩
  intro second hsecond
  obtain ⟨opening, -, rfl, -⟩ := exists_program_of_compile hfirst
  obtain ⟨program, -, rfl, -⟩ := exists_program_of_compile hsecond
  refine ⟨program, rfl, fun context hwf => ?_⟩
  -- the program of both texts is the first with the second behind it, so the runs follow each other
  have hends := runIn_append hfirst (compile_append_newline_of_ok hfirst hsecond) hwf
  cases houtcome : runIn a context with
  | error failure after => rwa [houtcome] at hends
  | ok _ middle =>
      rw [houtcome] at hends
      obtain ⟨hmiddle, hboth⟩ := hends
      dsimp only
      rw [hboth, runIn_of_compile hsecond hmiddle]
      exact ⟨program.movesDown_run k hmiddle, program.toExec_run middle,
        program.toExec_relocate_add k middle⟩

/-- The second text declares a variable of the first one again.  The comment at
the end of the first text does not reach into it. -/
theorem runIn_append_newline_redeclaration :
    let a := "var x:int;//"
    let b := "var x:int;"
    let middle : Context := ⟨[[("x", ⟨"x", 1, .int, none⟩)]], .ofLines []⟩
    ∃ first second, compile a = .ok first ∧ compile b = .ok second ∧
      Scopes.WellFormed .initial ∧ runIn a (.ofLines []) = .ok () middle ∧
        Exec.MovesDown (1 + Lexer.lineBreaks a.toList) middle (runIn b middle)
          (runIn (a ++ "\n" ++ b) (.ofLines [])) := by
  intro a b middle
  have hfirst : compile a = .ok (Program.tree
      (.next (.declaration 1 "x" 1 1 .int 1 none) 1 .done)) :=
    compile_eq_ok.mpr ⟨_, 1, [], rfl, by cbv⟩
  have hsecond : compile b = .ok (Program.tree
      (.next (.declaration 1 "x" 1 1 .int 1 none) 1 .done)) :=
    compile_eq_ok.mpr ⟨_, 1, [], rfl, by cbv⟩
  have hwf : (Context.ofLines []).scopes.WellFormed := Scopes.wellFormed_initial
  have hrun : runIn a (.ofLines []) = .ok () middle := (runIn_of_compile hfirst hwf).trans rfl
  obtain ⟨-, -, hboth⟩ := runIn_append_newline hfirst b
  obtain ⟨program, -, hends⟩ := hboth _ hsecond
  have hmoves := hends (.ofLines []) hwf
  rw [hrun] at hmoves
  exact ⟨_, _, hfirst, hsecond, hwf, hrun, hmoves.1⟩

end Primer
