import Primer.Proofs.Continuation
import Primer.Proofs.Grammar.Lines
import Primer.Proofs.Semantics.Provenance
import Primer.Proofs.Semantics.Worlds

/-!
# Layout

Two texts with the same lexemes differ in white space and comments only, so in the
lines of their tokens.  Neither compiling nor running them makes a difference
between them:

* the parser decides by kinds, and lines go into its errors and trees alone;
* the two programs, put on one line, are one program, and relocating commutes with
  running;
* on that line, executing the one tree asks its two contexts for the same
  variables and the same lines of input.

The contexts may differ as well, in the lines and the order of declarations and in
what was printed and read before.

## Main results

* `compile_alike_of_lexemes` : compiling two texts with the same lexemes.
* `runIn_alike_of_lexemes` : compiling and running them.
-/

namespace Primer

/-! ## Contexts up to lines -/

/-- The same variables frame by frame, apart from the lines of their declarations. -/
def Scopes.SameUpToLines (scopes scopes' : Scopes) : Prop :=
  (scopes.relocate fun _ => 0).Same (scopes'.relocate fun _ => 0)

/-- Both consoles hold the same lines to read, and what was printed and how often it
was attempted to read is the same on both since they were `start` and `start'`. -/
structure Console.AlikeSince (start start' console console' : Console) : Prop where
  input : console.input = console'.input
  printed : ∃ values, console.printed.toList = start.printed.toList ++ values ∧
    console'.printed.toList = start'.printed.toList ++ values
  reads : ∃ attempts, console.reads = start.reads + attempts ∧
    console'.reads = start'.reads + attempts

namespace Console

variable {start start' console console' : Console}

theorem AlikeSince.refl (hinput : console.input = console'.input) :
    AlikeSince console console' console console' :=
  ⟨hinput, ⟨[], by simp⟩, ⟨0, rfl, rfl⟩⟩

theorem AlikeSince.read? (halike : AlikeSince start start' console console') :
    console.read?.1 = console'.read?.1 ∧
      AlikeSince start start' console.read?.2 console'.read?.2 := by
  obtain ⟨hinput, hprinted, attempts, hreads, hreads'⟩ := halike
  have hmore : ∃ attempts, console.reads + 1 = start.reads + attempts ∧
      console'.reads + 1 = start'.reads + attempts := ⟨attempts + 1, by omega, by omega⟩
  cases hlines : console.input with
  | nil =>
      rw [Console.read?, Console.read?, ← hinput, hlines]
      exact ⟨rfl, rfl, hprinted, hmore⟩
  | cons line lines =>
      rw [Console.read?, Console.read?, ← hinput, hlines]
      exact ⟨rfl, rfl, hprinted, hmore⟩

theorem simulates_alikeSince (start start' : Console) :
    InputOutput.Simulates (AlikeSince start start') where
  print {console console'} halike value := by
    obtain ⟨hinput, ⟨values, hprinted, hprinted'⟩, hreads⟩ := halike
    refine ⟨hinput, ⟨values ++ [value], ?_, ?_⟩, hreads⟩
    · simp [print, hprinted]
    · simp [print, hprinted']
  line_eq halike := halike.read?.1
  read halike := halike.read?.2

end Console

/-! ## Compiling -/

/-- Tokens with the same lexemes are the same on one line. -/
theorem Token.map_relocate_of_lexemes {tokens tokens' : List Token}
    (hlexemes : tokens.map Token.lexeme = tokens'.map Token.lexeme) :
    tokens.map (relocate fun _ => 0) = tokens'.map (relocate fun _ => 0) := by
  have hline (ts : List Token) :
      ts.map (relocate fun _ => 0) = (ts.map Token.lexeme).map fun lexeme => ⟨lexeme, 0⟩ := by
    rw [List.map_map]
    rfl
  rw [hline, hline, hlexemes]

/-- Both texts compile, and to programs that are the same on one line, or both are
refused with errors that are. -/
inductive CompileAlike : Except Failure Node → Except Failure Node → Prop
  | ok {program program' : Program}
      (hprogram : program.relocate (fun _ => 0) = program'.relocate (fun _ => 0)) :
      CompileAlike (.ok program.tree) (.ok program'.tree)
  | error {error error' : Error}
      (herror : error.relocate (fun _ => 0) = error'.relocate (fun _ => 0)) :
      CompileAlike (.error (.error error)) (.error (.error error'))

variable {a b : String} {tokens tokens' : List Token}

/-- Tokens on other lines are accepted or refused like the tokens themselves. -/
theorem parse_relocate (hne : tokens ≠ []) (f : Nat → Nat) :
    (∃ program : Program, parse tokens = .ok program.tree ∧
      parse (tokens.map (Token.relocate f)) = .ok (program.relocate f).tree) ∨
    ∃ error, parse tokens = .error (.error error) ∧
      parse (tokens.map (Token.relocate f)) = .error (.error (error.relocate f)) := by
  cases hparse : parse tokens with
  | ok node =>
      obtain ⟨program, line, rest, rfl, rfl⟩ := parse_eq_ok.mp hparse
      refine .inl ⟨program, rfl, parse_eq_ok.mpr
        ⟨program.relocate f, f line, rest.map (Token.relocate f), rfl, ?_⟩⟩
      rw [List.map_append, Program.tokens_relocate]
      rfl
  | error failure =>
      obtain ⟨error, -, rfl, -⟩ := parse_eq_error hparse
      exact .inr ⟨error, rfl, parse_append_eq_error .done hne hparse f⟩

theorem tokens_ne_nil_of_tokenize {source : String} (htokens : tokenize source = .ok tokens) :
    tokens ≠ [] := by
  obtain ⟨body, rfl, -⟩ := Lexer.tokensFrom_eq_ok htokens
  exact List.concat_ne_nil _ body

theorem compile_alike_of_lexemes (htokens : tokenize a = .ok tokens)
    (htokens' : tokenize b = .ok tokens')
    (hlexemes : tokens.map Token.lexeme = tokens'.map Token.lexeme) :
    CompileAlike (compile a) (compile b) := by
  -- with all lines erased the two texts have the same tokens, and parsing does not ask for lines
  have hfirst := parse_relocate (tokens_ne_nil_of_tokenize htokens) fun _ => 0
  have hsecond := parse_relocate (tokens_ne_nil_of_tokenize htokens') fun _ => 0
  rw [compile_of_tokenize_ok htokens, compile_of_tokenize_ok htokens']
  rw [Token.map_relocate_of_lexemes hlexemes] at hfirst
  obtain ⟨program, hfirst, hline⟩ | ⟨error, hfirst, hline⟩ := hfirst
  · obtain ⟨program', hsecond, hline'⟩ | ⟨error', hsecond, hline'⟩ := hsecond
    · rw [hfirst, hsecond]
      exact .ok (Program.tree_injective (Except.ok.inj (hline.symm.trans hline')))
    · cases hline.symm.trans hline'
  · obtain ⟨program', hsecond, hline'⟩ | ⟨error', hsecond, hline'⟩ := hsecond
    · cases hline.symm.trans hline'
    · rw [hfirst, hsecond]
      exact .error (Failure.error.inj (Except.error.inj (hline.symm.trans hline')))

/-! ## Running -/

/-- A program that is put on one line gives what it gave, up to lines. -/
theorem Program.execute_relocate (program : Program) {context : Context}
    (hwf : context.scopes.WellFormed) (f : Nat → Nat) :
    execute (program.relocate f).tree (context.relocate f) =
      Exec.relocateResult f (execute program.tree context) := by
  have hwf' : (context.relocate f).scopes.WellFormed := Scopes.wellFormed_relocate hwf
  rw [((program.relocate f).mirrors_run hwf').agrees, (program.mirrors_run hwf).agrees,
    Run.toExec_apply, Run.toExec_apply, program.relocates_run context]
  rcases program.run.outcome context with ⟨error | _, after⟩
  · rfl
  · rfl

/-- Two texts have the same lexemes.  Then they compile alike.  From contexts with the
same variables up to lines and the same lines to read, running them prints the same
values, makes the same attempts to read and leaves the same lines, with the same
outcome and the same variables up to lines. -/
theorem runIn_alike_of_lexemes (htokens : tokenize a = .ok tokens)
    (htokens' : tokenize b = .ok tokens')
    (hlexemes : tokens.map Token.lexeme = tokens'.map Token.lexeme) :
    CompileAlike (compile a) (compile b) ∧
    ∀ context context' : Context, context.scopes.WellFormed → context'.scopes.WellFormed →
      context.scopes.SameUpToLines context'.scopes →
      context.console.input = context'.console.input →
        Exec.ResultsMatch (Console.AlikeSince context.console context'.console)
          (Exec.relocateResult (fun _ => 0) (runIn a context))
          (Exec.relocateResult (fun _ => 0) (runIn b context')) := by
  have hcompile := compile_alike_of_lexemes htokens htokens' hlexemes
  refine ⟨hcompile, fun context context' hwf hwf' hscopes hinput => ?_⟩
  have halike : (context.relocate fun _ => 0).Alike
      (Console.AlikeSince context.console context'.console) (context'.relocate fun _ => 0) :=
    ⟨hscopes, .refl hinput⟩
  rw [runIn, runIn]
  -- the trees are equal up to lines, and so are the contexts they start from
  generalize compile a = result, compile b = result' at hcompile
  cases hcompile with
  | @ok program program' hprogram =>
      simp only
      rw [← program.execute_relocate hwf, ← program'.execute_relocate hwf', hprogram]
      exact Exec.matches_execute (Console.simulates_alikeSince _ _) _ _ _ halike
  | @error error error' herror =>
      simp only [Exec.relocateResult, Failure.relocate, herror]
      exact .error _ halike

/-- A comment and a line break between the statements, variables that were declared
in another order and on other lines, and another history.  The division fails. -/
theorem runIn_alike_of_lexemes_division :
    let a := "read x;print x/y;"
    let b := "read x;//x\nprint x/y;"
    let context : Context :=
      ⟨[[("x", ⟨"x", 1, .int, none⟩), ("y", ⟨"y", 2, .int, some (.int 0)⟩)]],
        ⟨[.text "4"], #[], 0⟩⟩
    let context' : Context :=
      ⟨[[("y", ⟨"y", 3, .int, some (.int 0)⟩), ("x", ⟨"x", 5, .int, none⟩)]],
        ⟨[.text "4"], #[.bool true], 7⟩⟩
    ∃ tokens tokens', tokenize a = .ok tokens ∧ tokenize b = .ok tokens' ∧
      tokens.map Token.lexeme = tokens'.map Token.lexeme ∧
      context.scopes.WellFormed ∧ context'.scopes.WellFormed ∧
      context.scopes.SameUpToLines context'.scopes ∧
      context.console.input = context'.console.input ∧
      Exec.ResultsMatch (Console.AlikeSince context.console context'.console)
        (Exec.relocateResult (fun _ => 0) (runIn a context))
        (Exec.relocateResult (fun _ => 0) (runIn b context')) := by
  intro a b context context'
  let program (line : Nat) : Program := .next (.reading 1 "x" 1) 1
    (.next (.printing line (.operation (.name "x" line) .divide line (.name "y" line))) line .done)
  have htokens : tokenize a = .ok ((program 1).tokens ++ [⟨.endMarker, 1⟩]) := by cbv
  have htokens' : tokenize b = .ok ((program 2).tokens ++ [⟨.endMarker, 2⟩]) := by cbv
  have hwf : context.scopes.WellFormed := by decide
  have hwf' : context'.scopes.WellFormed := by decide
  have hscopes : context.scopes.SameUpToLines context'.scopes := by
    refine .cons (fun name => ?_) .nil
    by_cases hx : name = "x"
    · rw [hx]
      rfl
    · by_cases hy : name = "y"
      · rw [hy]
        rfl
      · simp only [Frame.get?, Frame.relocate, List.map_cons, List.map_nil, List.lookup_cons,
          beq_false_of_ne hx, beq_false_of_ne hy]
  obtain ⟨-, hrun⟩ := runIn_alike_of_lexemes htokens htokens' rfl
  exact ⟨_, _, htokens, htokens', rfl, hwf, hwf', hscopes, rfl,
    hrun context context' hwf hwf' hscopes rfl⟩

end Primer
