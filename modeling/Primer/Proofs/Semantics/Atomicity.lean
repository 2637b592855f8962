import Mathlib
import Primer.Proofs.Semantics.Refinement

/-!
# Failures that leave everything as it was

Everything that can go wrong in a single statement goes wrong before it changes
anything: a declaration, an assignment and a printing evaluate first and change
the scopes or print last, and an assertion changes nothing at all.  So a
statement that fails has left the scopes and what was printed as they were.  The
one thing that is not taken back is a line that was read: a reading takes its
line before it looks at it, but only for a variable that can hold one.

A loop checks its bounds and its counter before its first round; what fails
there has changed nothing either.

## Main results

* `Statement.failsIn_run` : the context in which a single statement fails.
* `Statement.outcome_loop` : loops that do not come to their first round.
* `execute_atomic` : both, and expressions, for whatever compiles.
-/

namespace Primer

/-- The context after an attempt to read a line, with or without success. -/
def Context.afterRead (context : Context) : Context :=
  { context with console := context.console.read?.2 }

/-! ## Runs that fail in a known context -/

namespace Run

variable {α β : Type} {context left : Context}

/-- Where the run fails, it leaves the given context. -/
def FailsIn (m : Run α) (context left : Context) : Prop :=
  ∀ error after, m.outcome context = (.error error, after) → after = left

theorem failsIn_of_ok {m : Run α} {a : α} {after : Context}
    (hm : m.outcome context = (.ok a, after)) : m.FailsIn context left := by
  intro error after' herror
  cases hm.symm.trans herror

theorem failsIn_throw (error : Error) : (throw error : Run α).FailsIn context context := by
  rintro error after ⟨⟩
  rfl

/-- What is computed from the scopes fails before anything else is done. -/
theorem failsIn_ofScopes {g : Scopes → Except Error α} {f : α → Run β}
    (hf : ∀ a, (f a).FailsIn context context) : (ofScopes g >>= f).FailsIn context context := by
  intro error after houtcome
  rw [outcome_ofScopes_bind] at houtcome
  cases hvalue : g context.scopes with
  | error error' =>
      rw [hvalue] at houtcome
      exact (Prod.mk.inj houtcome).2.symm
  | ok a =>
      rw [hvalue] at houtcome
      exact hf a error after houtcome

theorem failsIn_resolve {name : String} {line : Nat} {f : Variable → Run β}
    (hnone : context.scopes.resolve? name = none → context = left)
    (hf : ∀ v, context.scopes.resolve? name = some v → (f v).FailsIn context left) :
    (resolve name line >>= f).FailsIn context left := by
  intro error after houtcome
  rw [outcome_resolve_bind] at houtcome
  cases hresolve : context.scopes.resolve? name with
  | none =>
      rw [hresolve] at houtcome
      exact (Prod.mk.inj houtcome).2.symm.trans (hnone hresolve)
  | some v =>
      rw [hresolve] at houtcome
      exact hf v hresolve error after houtcome

theorem failsIn_declare (v : Variable) : (declare v).FailsIn context context := by
  obtain ⟨_ | ⟨frame, frames⟩, console⟩ := context
  · exact failsIn_of_ok rfl
  · intro error after houtcome
    rw [outcome_declare] at houtcome
    dsimp only at houtcome
    cases hget : frame.get? v.name with
    | none =>
        rw [hget] at houtcome
        cases houtcome
    | some previous =>
        rw [hget] at houtcome
        exact (Prod.mk.inj houtcome).2.symm

/-- A line that was read stays read, whatever becomes of it. -/
theorem failsIn_readLine {line : Nat} {f : String → Run β}
    (hf : ∀ content, (f content).FailsIn context.afterRead context.afterRead) :
    (readLine line >>= f).FailsIn context context.afterRead := by
  intro error after houtcome
  unfold Context.afterRead at hf ⊢
  rw [outcome_bind, outcome_readLine] at houtcome
  rcases hread : context.console.read? with ⟨_ | _ | _, console⟩ <;> rw [hread] at hf houtcome
  · exact (Prod.mk.inj houtcome).2.symm
  · exact hf _ error after houtcome
  · exact (Prod.mk.inj houtcome).2.symm

end Run

/-! ## Single statements -/

/-- Whether a statement takes a line of input in the scopes: a reading into a
variable that can hold one does. -/
def Statement.takesLine (scopes : Scopes) : Statement → Bool
  | .reading _ name _ => (scopes.resolve? name).any fun v => v.ty != .bool
  | _ => false

/-- The context that a statement leaves if it fails. -/
def Statement.leftover (context : Context) (statement : Statement) : Context :=
  if statement.takesLine context.scopes then context.afterRead else context

/-- Whether a statement holds others. -/
def Statement.isLoop : Statement → Bool
  | .loop .. => true
  | _ => false

/-- A single statement fails before it has done anything but read a line. -/
theorem Statement.failsIn_run {statement : Statement} (hloop : statement.isLoop = false)
    (context : Context) : statement.run.FailsIn context (statement.leftover context) := by
  cases statement with
  | declaration line name nameLine colonLine ty tyLine initializer? =>
      cases initializer? with
      | none => exact Run.failsIn_declare _
      | some initializer => exact Run.failsIn_ofScopes fun value => Run.failsIn_declare _
  | assignment name line assignLine source =>
      refine Run.failsIn_resolve (fun _ => rfl) fun v _ => ?_
      exact Run.failsIn_ofScopes fun value => Run.failsIn_of_ok (Run.outcome_assign v value context)
  | printing line source =>
      exact Run.failsIn_ofScopes fun value => Run.failsIn_of_ok (Run.outcome_modify _ context)
  | reading line name nameLine =>
      -- `takesLine` foresees the request: a line is asked for once the type can be read
      refine Run.failsIn_resolve (fun hnone => ?_) fun v hresolve => ?_
      · simp [leftover, takesLine, hnone]
      · cases hty : v.ty with
        | int =>
            have hleft : leftover context (.reading line name nameLine) = context.afterRead := by
              simp [leftover, takesLine, hresolve, hty]
            rw [hleft]
            refine Run.failsIn_readLine fun content => ?_
            cases Decimal.read? content with
            | none => exact Run.failsIn_throw _
            | some i => exact Run.failsIn_of_ok (Run.outcome_assign v (.int i) _)
        | string =>
            have hleft : leftover context (.reading line name nameLine) = context.afterRead := by
              simp [leftover, takesLine, hresolve, hty]
            rw [hleft]
            exact Run.failsIn_readLine fun content =>
              Run.failsIn_of_ok (Run.outcome_assign v (.string content) _)
        | bool =>
            have hleft : leftover context (.reading line name nameLine) = context := by
              simp [leftover, takesLine, hresolve, hty]
            rw [hleft]
            exact Run.failsIn_throw _
  | assertion line openLine condition closeLine =>
      refine Run.failsIn_ofScopes fun value => ?_
      rcases value with _ | _ | (_ | _)
      · exact Run.failsIn_throw _
      · exact Run.failsIn_throw _
      · exact Run.failsIn_throw _
      · exact Run.failsIn_of_ok (Run.outcome_pure () context)
  | loop => cases hloop

/-! ## Loops -/

/-- A loop whose bounds are not both integers, or whose counter is not declared as
one, fails and changes nothing. -/
theorem Statement.outcome_loop {forLine line inLine rangeLine doLine endLine closingLine : Nat}
    {counter : String} {first last : Expression} {body : Program} {context : Context}
    (hnot : ¬∃ i j v, first.value context.scopes = .ok (.int i) ∧
      last.value context.scopes = .ok (.int j) ∧
      context.scopes.resolve? counter = some v ∧ v.ty = .int) :
    ∃ error, (Statement.loop forLine counter line inLine first rangeLine last doLine body endLine
      closingLine).run.outcome context = (.error error, context) := by
  rw [Statement.run, Run.outcome_ofScopes_bind]
  -- the four things the header needs, in the order in which the loop asks for them
  cases hfirst : first.bound context.scopes with
  | error error => exact ⟨error, rfl⟩
  | ok i =>
      show ∃ error, (Run.ofScopes last.bound >>= _).outcome context = (.error error, context)
      rw [Run.outcome_ofScopes_bind]
      cases hlast : last.bound context.scopes with
      | error error => exact ⟨error, rfl⟩
      | ok j =>
          show ∃ error, (Run.resolve counter line >>= _).outcome context = (.error error, context)
          rw [Run.outcome_resolve_bind]
          cases hresolve : context.scopes.resolve? counter with
          | none => exact ⟨_, rfl⟩
          | some v =>
              have hty : v.ty ≠ .int := fun hty => hnot ⟨i, j, v, Expression.bound_eq_ok.mp hfirst,
                Expression.bound_eq_ok.mp hlast, hresolve, hty⟩
              dsimp only
              rw [if_pos hty]
              exact ⟨_, rfl⟩

/-! ## Whatever compiles -/

section Execution

variable {context after : Context}

theorem Context.afterRead_eq (context : Context) :
    context.afterRead = ⟨context.scopes, context.console.input.tail, context.console.printed,
      context.console.reads + 1⟩ := by
  obtain ⟨scopes, ⟨_ | ⟨line, lines⟩, printed, reads⟩⟩ := context <;> rfl

/-- What executing a single statement has done if it fails. -/
theorem Statement.of_execute_eq_error {statement : Statement} (hloop : statement.isLoop = false)
    (hwf : context.scopes.WellFormed) {failure : Failure}
    (hexecute : execute statement.tree context = .error failure after) :
    (∃ error, failure = .error error) ∧ after.scopes = context.scopes ∧
      after.console.printed = context.console.printed ∧
      if statement.takesLine context.scopes then
        after.console.input = context.console.input.tail ∧
          after.console.reads = context.console.reads + 1
      else after.console = context.console := by
  rw [(statement.mirrors_run hwf).agrees, Run.toExec_apply] at hexecute
  rcases houtcome : statement.run.outcome context with ⟨error | _, left⟩ <;>
    rw [houtcome] at hexecute <;> cases hexecute
  rw [statement.failsIn_run hloop context error after houtcome, leftover, Context.afterRead_eq]
  cases statement.takesLine context.scopes with
  | true => exact ⟨⟨error, rfl⟩, rfl, rfl, rfl, rfl⟩
  | false => exact ⟨⟨error, rfl⟩, rfl, rfl, rfl⟩

/-- What executing a loop does if it does not come to its first round. -/
theorem Statement.execute_loop_eq_error
    {forLine line inLine rangeLine doLine endLine closingLine : Nat} {counter : String}
    {first last : Expression} {body : Program} (hwf : context.scopes.WellFormed)
    (hnot : ¬∃ i j v, evaluate first.tree context = .ok (.int i) context ∧
      evaluate last.tree context = .ok (.int j) context ∧
      context.scopes.resolve? counter = some v ∧ v.ty = .int) :
    ∃ error, execute (Statement.loop forLine counter line inLine first rangeLine last doLine body
      endLine closingLine).tree context = .error (.error error) context := by
  obtain ⟨error, houtcome⟩ : ∃ error, (Statement.loop forLine counter line inLine first rangeLine
      last doLine body endLine closingLine).run.outcome context = (.error error, context) :=
    outcome_loop fun ⟨i, j, v, hfirst, hlast, hresolve⟩ => hnot ⟨i, j, v,
      Expression.evaluate_eq_ok.mpr ⟨hfirst, rfl⟩, Expression.evaluate_eq_ok.mpr ⟨hlast, rfl⟩,
      hresolve⟩
  exact ⟨error, by rw [(Statement.mirrors_run _ hwf).agrees, Run.toExec_apply, houtcome]⟩

end Execution

/-- What a part of a text that compiles has done when it fails.  Expressions
change nothing, whether they fail or not.  A single statement that fails has
changed nothing, except that a reading into an integer or a string has made one
attempt to read.  A loop that fails before its first round has changed nothing. -/
theorem execute_atomic {source : String} {node : Node} (hcompile : compile source = .ok node)
    {context : Context} (hwf : context.scopes.WellFormed) {action : Action} {children : List Node}
    (hpart : .deferred action children ∈ node.parts) :
    (action.hasValue = true →
      (∃ value, evaluate (.deferred action children) context = .ok value context) ∨
      ∃ error, evaluate (.deferred action children) context = .error (.error error) context) ∧
    (action.hasValue = false → action ≠ .statements →
      ∃ statement : Statement, .deferred action children = statement.tree ∧
        match statement with
        | .loop _ counter _ _ first _ last _ _ _ _ =>
            (¬∃ i j v, evaluate first.tree context = .ok (.int i) context ∧
              evaluate last.tree context = .ok (.int j) context ∧
              context.scopes.resolve? counter = some v ∧ v.ty = .int) →
            ∃ error, execute statement.tree context = .error (.error error) context
        | _ =>
            ∀ failure after, execute statement.tree context = .error failure after →
              (∃ error, failure = .error error) ∧ after.scopes = context.scopes ∧
              after.console.printed = context.console.printed ∧
              if statement.takesLine context.scopes then
                after.console.input = context.console.input.tail ∧
                  after.console.reads = context.console.reads + 1
              else after.console = context.console) := by
  obtain ⟨program, -, -, rfl, -⟩ := compile_eq_ok.mp hcompile
  refine ⟨fun hvalue => ?_, fun hvalue hsingle => ?_⟩
  · obtain ⟨expression, hevaluate⟩ := program.exists_evaluate_eq hpart hvalue
    rw [hevaluate]
    cases expression.value context.scopes with
    | ok value => exact .inl ⟨value, rfl⟩
    | error error => exact .inr ⟨error, rfl⟩
  · obtain ⟨statement, htree⟩ := program.statement_of_mem_parts hpart hvalue hsingle
    refine ⟨statement, htree, ?_⟩
    cases statement with
    | loop => exact Statement.execute_loop_eq_error hwf
    | declaration | assignment | printing | reading | assertion =>
        exact fun failure after => Statement.of_execute_eq_error rfl hwf

/-- A numeral is missing and a bound is no integer: the line is gone, and nothing
else has changed. -/
theorem execute_atomic_read :
    let source := "read n; for n in true..1 do end for;"
    let context : Context := ⟨[[("n", ⟨"n", 1, .int, some (.int 5)⟩)]],
      ⟨[.text "x", .text "y"], #[.int 5], 3⟩⟩
    ∃ node reading loop bound after, compile source = .ok node ∧ context.scopes.WellFormed ∧
      .deferred .reading reading ∈ node.parts ∧ .deferred .loop loop ∈ node.parts ∧
      .deferred .operation bound ∈ node.parts ∧
      execute (.deferred .reading reading) context = .error (.error (.notAnInteger 1 "x")) after ∧
      after.scopes = context.scopes ∧ after.console.printed = #[.int 5] ∧
      after.console.input = [.text "y"] ∧ after.console.reads = 4 ∧
      (∃ error, execute (.deferred .loop loop) context = .error (.error error) context) ∧
      ((∃ value, evaluate (.deferred .operation bound) context = .ok value context) ∨
        ∃ error,
          evaluate (.deferred .operation bound) context = .error (.error error) context) := by
  intro source context
  let reading : Statement := .reading 1 "n" 1
  let bound : Expression := .single (.literal (.bool true) 1)
  let loop : Statement :=
    .loop 1 "n" 1 1 bound 1 (.single (.literal (.int 1) 1)) 1 .done 1 1
  let program : Program := .next reading 1 (.next loop 1 .done)
  have hcompile : compile source = .ok program.tree :=
    compile_eq_ok.mpr ⟨program, 1, [], rfl, by cbv⟩
  have hwf : context.scopes.WellFormed := by decide
  have hparts : reading.tree ∈ program.tree.parts ∧ loop.tree ∈ program.tree.parts ∧
      bound.tree ∈ program.tree.parts := by
    simp [Program.tree, Program.occurrences, Node.parts, Node.partsOfAll, program, reading, loop,
      bound, Statement.tree, Expression.tree]
  obtain ⟨hreading, hloop, hbound⟩ := hparts
  have hexecute : execute reading.tree context = .error (.error (.notAnInteger 1 "x"))
      ⟨context.scopes, ⟨[.text "y"], #[.int 5], 4⟩⟩ := by
    rw [(reading.mirrors_run hwf).agrees]
    rfl
  obtain ⟨statement, htree, hfails⟩ := (execute_atomic hcompile hwf hreading).2 rfl (by decide)
  obtain ⟨statement', htree', hstops⟩ := (execute_atomic hcompile hwf hloop).2 rfl (by decide)
  -- the statements that the theorem finds are these, since a tree determines its statement
  obtain rfl : reading = statement := Statement.tree_injective htree
  obtain rfl : loop = statement' := Statement.tree_injective htree'
  obtain ⟨-, hscopes, hprinted, hinput, hreads⟩ := hfails _ _ hexecute
  refine ⟨_, _, _, _, _, hcompile, hwf, hreading, hloop, hbound, hexecute, hscopes, hprinted,
    hinput, hreads, hstops ?_, (execute_atomic hcompile hwf hbound).1 rfl⟩
  rintro ⟨i, j, v, hfirst, -⟩
  cases hfirst

end Primer
