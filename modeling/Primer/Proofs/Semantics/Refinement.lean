import Mathlib
import Primer.Interpreter
import Primer.Proofs.Grammar.Parsing
import Primer.Proofs.Semantics.Simulation

/-!
# What compiled programs do

The tokens of every program are parsed, and executing the tree that comes out
does what running the program does.  As nothing else is ever compiled, whatever
compiles can be executed without misuse.

## Main results

* `parse_execute_eq_run` : from tokens to outcome, for every program.
* `execute_of_compile` : the outcome of whatever compiles.
-/

namespace Primer

/-- A program is parsed from its tokens, and executing its tree has the outcome
of running it: the same result or error, the same scopes and the same console. -/
theorem parse_execute_eq_run (program : Program) (line : Nat) {context : Context}
    (hwf : context.scopes.WellFormed) :
    parse (program.tokens ++ [⟨.endMarker, line⟩]) = .ok program.tree ∧
      execute program.tree context = program.run.toExec context :=
  ⟨parse_eq_ok.mpr ⟨program, line, [], rfl, rfl⟩, (program.mirrors_run hwf).agrees⟩

/-- A sum is declared and printed in a loop, up to a bound that is read.  The counter hides
another `i`, and each round hides the counter in turn. -/
theorem parse_execute_eq_run_loop :
    let program : Program :=
      .next (.declaration 1 "s" 1 1 .int 1 (some ⟨1, .single (.literal (.int 0) 1)⟩)) 1
      (.next (.reading 2 "n" 2) 2
      (.next (.loop 3 "i" 3 3 (.single (.literal (.int 1) 3)) 3 (.single (.name "n" 3)) 3
        (.next (.assignment "s" 4 4 (.operation (.name "s" 4) .add 4 (.name "i" 4))) 4
        (.next (.printing 5 (.single (.name "s" 5))) 5 .done)) 6 6) 6 .done))
    let v (name : String) (line : Nat) (value? : Option Value) : String × Variable :=
      (name, ⟨name, line, .int, value?⟩)
    let context : Context :=
      ⟨[[v "i" 9 none], [v "n" 8 none, v "i" 7 (some (.int 5))]], .ofLines [.text "2"]⟩
    context.scopes.WellFormed ∧
      parse (program.tokens ++ [⟨.endMarker, 6⟩]) = .ok program.tree ∧
      execute program.tree context = .ok ()
        ⟨[[v "s" 1 (some (.int 3)), v "i" 9 (some (.int 3))],
          [v "n" 8 (some (.int 2)), v "i" 7 (some (.int 5))]], ⟨[], #[.int 1, .int 3], 1⟩⟩ := by
  intro program v context
  have hwf : context.scopes.WellFormed := by decide
  obtain ⟨hparse, hexecute⟩ := parse_execute_eq_run program 6 hwf
  exact ⟨hwf, hparse, hexecute.trans rfl⟩

/-- Only texts of programs compile. -/
theorem compile_eq_ok {source : String} {node : Node} :
    compile source = .ok node ↔
      ∃ (program : Program) (line : Nat) (rest : List Token), node = program.tree ∧
        tokenize source = .ok (program.tokens ++ ⟨.endMarker, line⟩ :: rest) := by
  unfold compile
  cases htokens : tokenize source with
  | error error => simp
  | ok tokens => simpa using parse_eq_ok

/-- A text that compiles to the tree of a program runs as this program does. -/
theorem runIn_of_compile {source : String} {program : Program}
    (hcompile : compile source = .ok program.tree) {context : Context}
    (hwf : context.scopes.WellFormed) : runIn source context = program.run.toExec context := by
  rw [runIn, hcompile]
  exact (program.mirrors_run hwf).agrees

/-- A text with the tokens of a program runs as this program does. -/
theorem runIn_eq_run {source : String} {program : Program} {line : Nat} {rest : List Token}
    (htokens : tokenize source = .ok (program.tokens ++ ⟨.endMarker, line⟩ :: rest))
    {context : Context} (hwf : context.scopes.WellFormed) :
    runIn source context = program.run.toExec context :=
  runIn_of_compile (compile_eq_ok.mpr ⟨program, line, rest, rfl, htokens⟩) hwf

/-- Whatever compiles runs to its end or to an error of the program. -/
theorem execute_of_compile {source : String} {node : Node} {context : Context}
    (hcompile : compile source = .ok node) (hwf : context.scopes.WellFormed) :
    (∃ context', execute node context = .ok () context') ∨
      ∃ error context', execute node context = .error (.error error) context' := by
  obtain ⟨program, line, rest, rfl, -⟩ := compile_eq_ok.mp hcompile
  rw [(program.mirrors_run hwf).agrees, Run.toExec_apply]
  rcases program.run.outcome context with ⟨error | _, context'⟩
  · exact .inr ⟨error, context', rfl⟩
  · exact .inl ⟨context', rfl⟩

theorem execute_of_compile_loop :
    let source := "var i : int; for i in 1..2 do print i; end for;"
    ∃ node, compile source = .ok node ∧ Scopes.WellFormed .initial ∧
      ((∃ context', execute node (.ofLines []) = .ok () context') ∨
        ∃ error context', execute node (.ofLines []) = .error (.error error) context') := by
  intro source
  have hcompile : compile source = .ok (Program.tree
      (.next (.declaration 1 "i" 1 1 .int 1 none) 1
        (.next (.loop 1 "i" 1 1 (.single (.literal (.int 1) 1)) 1 (.single (.literal (.int 2) 1)) 1
          (.next (.printing 1 (.single (.name "i" 1))) 1 .done) 1 1) 1 .done))) :=
    compile_eq_ok.mpr ⟨_, 1, [], rfl, by cbv⟩
  have hwf : (Context.ofLines []).scopes.WellFormed := Scopes.wellFormed_initial
  exact ⟨_, hcompile, hwf, execute_of_compile hcompile hwf⟩

end Primer
