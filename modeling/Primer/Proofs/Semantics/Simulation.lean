import Primer.Proofs.Semantics.Expressions
import Primer.Proofs.Semantics.Scopes

/-!
# Executing trees is running programs

Executing the tree of a program has exactly the outcome of running the program,
from every context with well-formed scopes.  The two are compared statement by
statement.  What makes the comparison go through is that well-formed scopes
stay well-formed and only evolve, so that a variable which was resolved can
still be updated later, and that the frame of a loop can be dropped after each
run of its body.

## Main results

* `Statement.mirrors_run`, `Program.mirrors_run` : the comparison, together with
  how the scopes change.
-/

namespace Primer

open Stateful

/-! ## Names declared -/

/-- The name that a statement declares in the frame in which it is run. -/
def Statement.declared : Statement → List String
  | .declaration _ name _ _ _ _ _ => [name]
  | _ => []

/-- The names that a program declares in the frame in which it is run. -/
def Program.declared : Program → List String
  | .done => []
  | .next statement _ rest => statement.declared ++ rest.declared

/-! ## Counting -/

/-- The counter after `i`. -/
theorem ofInt_toInt_succ (i : Int64) : Int64.ofInt (i.toInt + 1) = i + 1 := by
  rw [Int64.ofInt_add, Int64.ofInt_toInt]
  rfl

/-- Counting on from the counter after `i` is counting on from `i`. -/
theorem ofInt_succ_add (i : Int64) (count : Nat) :
    Int64.ofInt ((i + 1).toInt + count) = .ofInt (i.toInt + (count + 1 : Nat)) := by
  rw [← ofInt_toInt_succ, Int64.ofInt_add, Int64.ofInt_toInt, ← Int64.ofInt_add, Int.add_assoc,
    Int.add_comm 1, Int.natCast_succ]

/-- The integers counted through from `i` on. -/
theorem map_range_succ (count : Nat) (i : Int64) :
    ((List.range (count + 1)).map fun k : Nat => Int64.ofInt (i.toInt + k)) =
      i :: (List.range count).map fun k : Nat => Int64.ofInt ((i + 1).toInt + k) := by
  rw [List.range_succ_eq_map, List.map_cons, List.map_map]
  congr 1
  · simp
  · exact List.map_congr_left fun k _ => (ofInt_succ_add i k).symm

theorem integersBetween_eq (first last : Int64) :
    integersBetween first last =
      (List.range (rangeLength first last)).map fun k : Nat => Int64.ofInt (first.toInt + k) := by
  have hlength : rangeLength first last = (last.toInt + 1 - first.toInt).toNat := by
    rw [rangeLength]
    omega
  rw [integersBetween, hlength]

/-! ## Frames that are dropped again -/

namespace Exec

variable {body : Exec Unit} {context inner outer : Context}

theorem inNewFrame_of_ok (hbody : (pushFrame >>= fun _ => body) context = .ok () inner) :
    inNewFrame body context = popFrame inner := by
  rw [inNewFrame, hbody]

theorem inNewFrame_of_error {error : Error}
    (hbody : (pushFrame >>= fun _ => body) context = .error (.error error) inner)
    (hpop : popFrame inner = .ok () outer) :
    inNewFrame body context = .error (.error error) outer := by
  rw [inNewFrame, hbody]
  simp only [hpop]

end Exec

/-! ## Executions that mirror runs -/

/-- From `context`, an execution has the outcome of a run, and the scopes evolve. -/
structure Mirrors {α : Type} (declared : List String) (execution : Exec α) (run : Run α)
    (context : Context) : Prop where
  agrees : execution context = run.toExec context
  wellFormed : (run.outcome context).2.scopes.WellFormed
  evolves : context.scopes.Evolves declared (run.outcome context).2.scopes

namespace Mirrors

variable {α β : Type} {declared : List String} {context : Context}

theorem mono {more : List String} {execution : Exec α} {run : Run α} (hsubset : declared ⊆ more)
    (hmirrors : Mirrors declared execution run context) : Mirrors more execution run context :=
  ⟨hmirrors.agrees, hmirrors.wellFormed, hmirrors.evolves.mono hsubset⟩

/-- A sequence mirrors a sequence if its parts do.  The second part starts where
the first one succeeds. -/
theorem bind {execution : Exec α} {run : Run α} {g : α → Exec β} {f : α → Run β}
    (hfirst : Mirrors declared execution run context)
    (hsecond : ∀ a context', run.outcome context = (.ok a, context') →
      context'.scopes.WellFormed → context.scopes.Evolves declared context'.scopes →
      Mirrors declared (g a) (f a) context') :
    Mirrors declared (execution >>= g) (run >>= f) context := by
  obtain ⟨hagrees, hwf, hevolves⟩ := hfirst
  rw [Run.toExec_apply] at hagrees
  -- the second program is compared only where the first one ends well, in the context it leaves
  rcases hrun : run.outcome context with ⟨error | a, context'⟩
  · rw [hrun] at hagrees hwf hevolves
    have houtcome := Run.outcome_bind_of_error hrun f
    refine ⟨?_, ?_, ?_⟩
    · rw [bind_of_error hagrees, Run.toExec_apply, houtcome]
    · rwa [houtcome]
    · rwa [houtcome]
  · rw [hrun] at hagrees hwf hevolves
    have houtcome := Run.outcome_bind_of_ok hrun f
    obtain ⟨hagrees', hwf', hevolves'⟩ := hsecond a context' hrun hwf hevolves
    refine ⟨?_, ?_, ?_⟩
    · rw [bind_of_ok hagrees, hagrees', Run.toExec_apply, Run.toExec_apply, houtcome]
    · rwa [houtcome]
    · rw [houtcome]
      exact hevolves.trans hevolves'

/-- What leaves the scopes alone needs no more than to agree. -/
theorem of_scopes_eq {execution : Exec α} {run : Run α} (hwf : context.scopes.WellFormed)
    (hagrees : execution context = run.toExec context)
    (hscopes : (run.outcome context).2.scopes = context.scopes) :
    Mirrors declared execution run context := by
  refine ⟨hagrees, ?_, ?_⟩
  · rwa [hscopes]
  · rw [hscopes]
    exact .refl hwf.1

theorem pure (hwf : context.scopes.WellFormed) (a : α) :
    Mirrors declared (Pure.pure a) (Pure.pure a) context := .of_scopes_eq hwf rfl rfl

theorem fail (hwf : context.scopes.WellFormed) (error : Error) :
    Mirrors (α := α) declared (Exec.fail error) (throw error) context := .of_scopes_eq hwf rfl rfl

theorem ofScopes (hwf : context.scopes.WellFormed) {execution : Exec α}
    {f : Scopes → Except Error α}
    (hagrees : execution context = Exec.ofExcept (f context.scopes) context) :
    Mirrors declared execution (Run.ofScopes f) context :=
  .of_scopes_eq hwf (by rw [Run.toExec_ofScopes, hagrees]) (by rw [Run.outcome_ofScopes])

theorem lookup (hwf : context.scopes.WellFormed) (name : String) (line : Nat) :
    Mirrors declared (Exec.lookup name line) (Run.resolve name line) context := by
  refine .of_scopes_eq hwf (by rw [Run.toExec_resolve]) ?_
  rw [Run.outcome_resolve]
  cases context.scopes.resolve? name <;> rfl

theorem readLine (hwf : context.scopes.WellFormed) (line : Nat) :
    Mirrors declared (Exec.readLine line) (Run.readLine line) context := by
  refine .of_scopes_eq hwf (by rw [Run.toExec_readLine]) ?_
  rw [Run.outcome_readLine]
  rcases context.console.read? with ⟨_ | _ | _, console⟩ <;> rfl

theorem print (hwf : context.scopes.WellFormed) (value : Value) :
    Mirrors declared (Exec.print value)
      (modify fun context => { context with console := context.console.print value }) context :=
  .of_scopes_eq hwf rfl rfl

theorem declare (hwf : context.scopes.WellFormed) {v : Variable} (hv : v.WellTyped) :
    Mirrors [v.name] (Exec.declare v) (Run.declare v) context := by
  have hagrees := (Run.toExec_declare v hwf.1).symm
  obtain ⟨_ | ⟨frame, frames⟩, console⟩ := context
  · exact absurd rfl hwf.1
  · cases hget : frame.get? v.name with
    | some previous =>
        refine .of_scopes_eq hwf hagrees ?_
        simp [Run.outcome_declare, hget]
    | none =>
        refine ⟨hagrees, ?_, ?_⟩
        · simpa [Run.outcome_declare, hget] using Scopes.wellFormed_declare hwf hget hv
        · simpa [Run.outcome_declare, hget] using Scopes.evolves_declare frame frames v

/-- A variable that is still declared as it was when it was resolved can be assigned. -/
theorem assign (hwf : context.scopes.WellFormed) {v : Variable}
    (hrefers : context.scopes.Refers v) (value : Value) (hty : value.ty = v.ty) (line : Nat) :
    Mirrors declared (Exec.update { v with value? := some value } line) (Run.assign v value)
      context := by
  obtain ⟨old, hresolve, hline, hold⟩ := hrefers
  have hname : old.name = v.name := (hwf.resolve? hresolve).1
  have hevolves : old.Evolves { v with value? := some value } :=
    ⟨hname.symm, hline.symm, hold.symm, fun _ => rfl⟩
  obtain ⟨scopes', hupdate, hwf', hscopes⟩ := Scopes.exists_update?
    (v := { v with value? := some value }) hwf hresolve hevolves (Variable.wellTyped_withValue hty)
  refine ⟨?_, ?_, ?_⟩
  · rw [Run.toExec_apply, Run.outcome_assign, Exec.update, hupdate]
    rfl
  · rwa [Run.outcome_assign, hupdate]
  · rw [Run.outcome_assign, hupdate]
    exact hscopes.mono (List.nil_subset _)

/-! ## Loops -/

section Loops

variable {body : Exec Unit} {run : Run Unit} {counter : Variable}

/-- One run of the body of a loop.  The frame made for it is there to be dropped
however the body ends. -/
theorem withCounter
    (hbody : ∀ context, context.scopes.WellFormed → Mirrors declared body run context)
    (hwf : context.scopes.WellFormed) (hty : counter.ty = .int) (i : Int64) :
    Mirrors []
      (Exec.inNewFrame do
        Exec.declare { counter with value? := some (.int i) }
        body)
      (Run.withCounter counter i run) context := by
  have hcopy : Variable.WellTyped { counter with value? := some (.int i) } :=
    Variable.wellTyped_withValue hty.symm
  let inner : Context := { context with
    scopes := [(counter.name, { counter with value? := some (.int i) })] :: context.scopes }
  obtain ⟨hagrees, hwf', hevolves⟩ := hbody inner (Scopes.wellFormed_push hwf hcopy)
  -- whatever the body declares goes with the frame of the round
  have htail := hevolves.tail hwf.1
  have hpop := hevolves.pop? hwf.1
  have hrun : (Run.withCounter counter i run).outcome context =
      ((run.outcome inner).1,
        { (run.outcome inner).2 with scopes := (run.outcome inner).2.scopes.tail }) :=
    Run.outcome_withCounter counter i run context
  have hopen : (Exec.pushFrame >>= fun _ => do
      Exec.declare { counter with value? := some (.int i) }
      body) context = body inner := rfl
  refine ⟨?_, ?_, ?_⟩
  · rw [Run.toExec_apply] at hagrees
    rw [Run.toExec_apply, hrun]
    rcases houtcome : run.outcome inner with ⟨error | _, context'⟩
    all_goals
      rw [houtcome] at hagrees hpop
      have hclose : Exec.popFrame context' =
          .ok () { context' with scopes := context'.scopes.tail } := by
        simp only [Exec.popFrame, hpop]
    · exact Exec.inNewFrame_of_error (hopen.trans hagrees) hclose
    · exact (Exec.inNewFrame_of_ok (hopen.trans hagrees)).trans hclose
  · rw [hrun]
    exact hwf'.tail htail.ne_nil
  · rw [hrun]
    exact htail

/-- The invariant is that the counter still refers to the variable it was resolved to. -/
theorem iterate
    (hbody : ∀ context, context.scopes.WellFormed → Mirrors declared body run context)
    (hty : counter.ty = .int) (line : Nat) (count : Nat) (i : Int64)
    (hwf : context.scopes.WellFormed) (hrefers : context.scopes.Refers counter) :
    Mirrors [] (Primer.iterate body counter line count i)
      (((List.range count).map fun k : Nat => Int64.ofInt (i.toInt + k)).forM fun k => do
        Run.withCounter counter k run
        Run.assign counter (.int (.ofInt (k.toInt + 1)))) context := by
  induction count generalizing i context with
  | zero => exact .pure hwf ()
  | succ count ih =>
      rw [map_range_succ, List.forM, Primer.iterate]
      simp only [Variable.withValue?_eq_some counter (.int _) hty.symm,
        Exec.demand, pure_bind, bind_assoc, ofInt_toInt_succ i]
      refine (withCounter hbody hwf hty i).bind fun _ context₁ _ hwf₁ hevolves₁ => ?_
      have hrefers₁ := hrefers.of_evolves hevolves₁
      refine (assign hwf₁ hrefers₁ (.int (i + 1)) hty.symm line).bind
        fun _ context₂ _ hwf₂ hevolves₂ => ?_
      exact ih (i + 1) hwf₂ (hrefers₁.of_evolves hevolves₂)

end Loops

/-! ## Parts of statements -/

/-- A resolved variable is the one that its name refers to. -/
theorem resolve {g : Variable → Exec β} {f : Variable → Run β} (hwf : context.scopes.WellFormed)
    {name : String} {line : Nat}
    (hrest : ∀ v, context.scopes.Refers v → v.WellTyped → Mirrors declared (g v) (f v) context) :
    Mirrors declared (Exec.lookup name line >>= g) (Run.resolve name line >>= f) context := by
  refine (lookup hwf name line).bind fun v context' hrun _ _ => ?_
  rw [Run.outcome_resolve] at hrun
  cases hresolve : context.scopes.resolve? name with
  | none =>
      rw [hresolve] at hrun
      cases hrun
  | some w =>
      rw [hresolve] at hrun
      cases hrun
      obtain ⟨hname, hty⟩ := hwf.resolve? hresolve
      exact hrest v ⟨v, by rw [hname, hresolve], rfl, rfl⟩ hty

/-- What a function of the scopes yields is used in the same context. -/
theorem ofScopes_bind {execution : Exec α} {f : Scopes → Except Error α} {g : α → Exec β}
    {h : α → Run β} (hwf : context.scopes.WellFormed)
    (hagrees : execution context = Exec.ofExcept (f context.scopes) context)
    (hrest : ∀ a, f context.scopes = .ok a → Mirrors declared (g a) (h a) context) :
    Mirrors declared (execution >>= g) (Run.ofScopes f >>= h) context := by
  refine (ofScopes hwf hagrees).bind fun a context' hrun _ _ => ?_
  rw [Run.outcome_ofScopes] at hrun
  obtain ⟨hok, rfl⟩ := Prod.mk.inj hrun
  exact hrest a hok

theorem readLine_bind {g : String → Exec β} {f : String → Run β}
    (hwf : context.scopes.WellFormed) {line : Nat}
    (hrest : ∀ content context', context'.scopes = context.scopes →
      Mirrors declared (g content) (f content) context') :
    Mirrors declared (Exec.readLine line >>= g) (Run.readLine line >>= f) context := by
  refine (readLine hwf line).bind fun content context' hrun _ _ => ?_
  refine hrest content context' ?_
  rw [Run.outcome_readLine] at hrun
  rcases hread : context.console.read? with ⟨_ | _ | _, console⟩
  all_goals
    rw [hread] at hrun
    cases hrun
  rfl

theorem valueOfType {g : Value → Exec β} {f : Value → Run β} (hwf : context.scopes.WellFormed)
    (source : Expression) (ty : Ty) (line : Nat)
    (hrest : ∀ value : Value, value.ty = ty → Mirrors declared (g value) (f value) context) :
    Mirrors declared
      (do
        let value ← evaluate source.tree
        expectType ty value line
        g value)
      (Run.ofScopes (source.valueOfType · ty line) >>= f) context := by
  -- the value and the test of its type are one evaluation on the other side
  have hsplit : (do
      let value ← evaluate source.tree
      expectType ty value line
      g value : Exec β) =
      (do
        let value ← evaluate source.tree
        expectType ty value line
        return value) >>= g := by
    simp only [bind_assoc, pure_bind]
  rw [hsplit]
  exact ofScopes_bind hwf (source.evaluate_valueOfType ty line context)
    fun value hvalue => hrest value (Expression.valueOfType_eq_ok hvalue)

theorem bound {g : Int64 → Exec β} {f : Int64 → Run β} (hwf : context.scopes.WellFormed)
    (source : Expression) (line : Nat)
    (hrest : ∀ i : Int64, Mirrors declared (g i) (f i) context) :
    Mirrors declared
      (do
        let value ← evaluate source.tree
        let i ← asBound source.tree line value
        g i)
      (Run.ofScopes source.bound >>= f) context := by
  rw [← bind_assoc]
  exact ofScopes_bind hwf (source.evaluate_bound line context) fun i _ => hrest i

end Mirrors

/-! ## Statements and programs -/

mutual

theorem Statement.mirrors_run (statement : Statement) {context : Context}
    (hwf : context.scopes.WellFormed) :
    Mirrors statement.declared (execute statement.tree) statement.run context := by
  cases statement with
  | declaration line name nameLine colonLine ty tyLine initializer? =>
      cases initializer? with
      | none =>
          simp only [Statement.tree, Initializer.tree?, execute, perform, Node.keyword, Node.name,
            Lexeme.name?, Lexeme.typeName?, Exec.demand, pure_bind, bind_assoc, Statement.run,
            bind_pure_unit]
          exact .declare (v := .declared name line ty) hwf fun _ hvalue => nomatch hvalue
      | some initializer =>
          obtain ⟨assignLine, source⟩ := initializer
          simp only [Statement.tree, Initializer.tree?, execute, perform, Node.keyword, Node.name,
            Node.symbol, Lexeme.name?, Lexeme.typeName?, pure_bind, bind_assoc,
            Statement.run, Exec.demand]
          refine .valueOfType hwf source ty line fun value hty => ?_
          simp only [Variable.make?, Option.all_some, hty, beq_self_eq_true, if_true, pure_bind,
            bind_pure_unit]
          exact .declare hwf (Variable.wellTyped_withValue (v := ⟨name, line, ty, none⟩) hty)
  | assignment name line assignLine source =>
      simp only [Statement.tree, execute, perform, Node.name, Lexeme.name?, Exec.demand, pure_bind,
        bind_assoc, Statement.run, Expression.line?_tree, Option.getD_some]
      refine .resolve hwf fun v hrefers _ => ?_
      refine .valueOfType hwf source v.ty source.firstLine fun value hty => ?_
      simp only [Variable.withValue?_eq_some _ _ hty, pure_bind, bind_pure_unit]
      exact .assign hwf hrefers _ hty line
  | printing line source =>
      simp only [Statement.tree, execute, perform, Node.keyword, pure_bind, bind_assoc,
        Statement.run, bind_pure_unit]
      exact .ofScopes_bind hwf (source.evaluate_tree context) fun value _ => .print hwf value
  | reading line name nameLine =>
      simp only [Statement.tree, execute, perform, Node.keyword, Node.name, Lexeme.name?,
        Exec.demand, pure_bind, bind_assoc, Statement.run, bind_pure_unit]
      refine .resolve hwf fun v hrefers _ => ?_
      cases hty : v.ty with
      | int =>
          simp only [readValue, bind_assoc]
          refine .readLine_bind hwf fun content context' hscopes => ?_
          rw [← hscopes] at hwf hrefers
          cases Decimal.read? content with
          | none => exact .fail hwf _
          | some i =>
              simp only [Variable.withValue?_eq_some v (.int i) hty.symm, pure_bind]
              exact .assign hwf hrefers (.int i) hty.symm line
      | string =>
          simp only [readValue, bind_assoc, pure_bind]
          refine .readLine_bind hwf fun content context' hscopes => ?_
          rw [← hscopes] at hwf hrefers
          simp only [Variable.withValue?_eq_some v (.string content) hty.symm,
            pure_bind]
          exact .assign hwf hrefers (.string content) hty.symm line
      | bool => exact .fail hwf _
  | assertion line openLine condition closeLine =>
      simp only [Statement.tree, execute, perform, Node.keyword, Node.symbol, bind_assoc,
        Statement.run]
      refine .ofScopes_bind hwf (condition.evaluate_tree context) fun value _ => ?_
      rcases value with _ | _ | (_ | _)
      · exact .fail hwf _
      · exact .fail hwf _
      · exact .fail hwf _
      · exact .pure hwf ()
  | loop forLine name line inLine first rangeLine last doLine body endLine closingLine =>
      have hbody : ∀ context : Context, context.scopes.WellFormed →
          Mirrors body.declared (execute body.tree) body.run context :=
        fun _ hwf => body.mirrors_run hwf
      simp only [Program.tree, execute] at hbody
      simp only [Statement.tree, execute, perform, Node.keyword, Node.name, Node.symbol,
        Lexeme.name?, Exec.demand, pure_bind, bind_assoc, Statement.run, bind_pure_unit]
      refine .bound hwf first inLine fun i => ?_
      refine .bound hwf last rangeLine fun j => ?_
      rw [runLoop]
      refine .resolve hwf fun counter hrefers _ => ?_
      -- only now the execution asks for the type of the counter, and so does the run
      by_cases hty : counter.ty = .int
      · rw [if_pos hty, if_neg (not_not.mpr hty),
          Variable.withValue?_eq_some _ (.int i) hty.symm, Exec.demand, pure_bind,
          integersBetween_eq]
        refine (Mirrors.assign hwf hrefers (.int i) hty.symm line).bind
          fun _ context' _ hwf' hevolves => ?_
        exact Mirrors.iterate hbody hty line (rangeLength i j) i hwf' (hrefers.of_evolves hevolves)
      · rw [if_neg hty, if_pos hty]
        exact .fail hwf _

theorem Program.mirrors_run (program : Program) {context : Context}
    (hwf : context.scopes.WellFormed) :
    Mirrors program.declared (execute program.tree) program.run context := by
  cases program with
  | done => exact .pure hwf ()
  | next statement semicolonLine rest =>
      -- the trees of the rest stand in the same list as that of the statement
      have hsplit : execute (Program.next statement semicolonLine rest).tree =
          execute statement.tree >>= fun _ => execute rest.tree := by
        simp only [Program.tree, Program.occurrences, execute, perform, bind_assoc]
      rw [hsplit, Program.run]
      refine ((statement.mirrors_run hwf).mono ?_).bind fun _ context' _ hwf' _ =>
        (rest.mirrors_run hwf').mono ?_
      · exact List.subset_append_left _ _
      · exact List.subset_append_right _ _

end

end Primer
