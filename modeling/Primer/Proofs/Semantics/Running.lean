import Primer.Program.Meaning
import Primer.Proofs.Stateful

/-!
# Opening runs

A run that starts in a known context ends in a known way: with a value or an
error, and with a context.  There is one equation for each part of which runs
consist.  Everything else that is proved of runs uses these equations and not
the monads behind them.
-/

namespace Primer

namespace Run

variable {α β : Type}

/-- How a run ends that starts in a context. -/
def outcome (m : Run α) (context : Context) : Except Error α × Context :=
  StateT.run (ExceptT.run m) context

/-- A run as a computation with the failures of executing trees. -/
def toExec (m : Run α) : Exec α := fun context =>
  match m.outcome context with
  | (.ok a, context') => .ok a context'
  | (.error error, context') => .error (.error error) context'

/-! ## Sequences -/

@[simp] theorem outcome_pure (a : α) (context : Context) :
    (pure a : Run α).outcome context = (.ok a, context) := rfl

@[simp] theorem outcome_throw (error : Error) (context : Context) :
    (throw error : Run α).outcome context = (.error error, context) := rfl

theorem outcome_bind (m : Run α) (f : α → Run β) (context : Context) :
    (m >>= f).outcome context =
      match m.outcome context with
      | (.ok a, context') => (f a).outcome context'
      | (.error error, context') => (.error error, context') := by
  have hbind : (m >>= f).outcome context = (ExceptT.bindCont f (m.outcome context).1).run
      (m.outcome context).2 := rfl
  rw [hbind]
  rcases m.outcome context with ⟨_ | a, context'⟩ <;> rfl

theorem outcome_bind_of_ok {m : Run α} {context context' : Context} {a : α}
    (hm : m.outcome context = (.ok a, context')) (f : α → Run β) :
    (m >>= f).outcome context = (f a).outcome context' := by
  rw [outcome_bind, hm]

theorem outcome_bind_of_error {m : Run α} {context context' : Context} {error : Error}
    (hm : m.outcome context = (.error error, context')) (f : α → Run β) :
    (m >>= f).outcome context = (.error error, context') := by
  rw [outcome_bind, hm]

/-! ## Primitives -/

@[simp] theorem outcome_ofScopes (f : Scopes → Except Error α) (context : Context) :
    (ofScopes f).outcome context = (f context.scopes, context) := by
  have hof : (ofScopes f).outcome context =
      ((MonadExcept.ofExcept (f context.scopes) : Run α).outcome context) := rfl
  rw [hof]
  cases f context.scopes <;> rfl

theorem outcome_ofScopes_bind (g : Scopes → Except Error α) (f : α → Run β) (context : Context) :
    (ofScopes g >>= f).outcome context =
      match g context.scopes with
      | .ok a => (f a).outcome context
      | .error error => (.error error, context) := by
  rw [outcome_bind, outcome_ofScopes]
  cases g context.scopes <;> rfl

@[simp] theorem outcome_changeScopes (f : Scopes → Scopes) (context : Context) :
    (changeScopes f).outcome context = (.ok (), { context with scopes := f context.scopes }) := rfl

@[simp] theorem outcome_modify (f : Context → Context) (context : Context) :
    (modify f : Run Unit).outcome context = (.ok (), f context) := rfl

theorem outcome_resolve (name : String) (line : Nat) (context : Context) :
    (resolve name line).outcome context =
      match context.scopes.resolve? name with
      | none => (.error (.undefinedVariable line name), context)
      | some v => (.ok v, context) := by
  have hresolve : (resolve name line).outcome context =
      (match context.scopes.resolve? name with
      | none => throw (.undefinedVariable line name)
      | some v => pure v : Run Variable).outcome context := rfl
  rw [hresolve]
  cases context.scopes.resolve? name <;> rfl

theorem outcome_resolve_bind (name : String) (line : Nat) (f : Variable → Run β)
    (context : Context) :
    (resolve name line >>= f).outcome context =
      match context.scopes.resolve? name with
      | none => (.error (.undefinedVariable line name), context)
      | some v => (f v).outcome context := by
  rw [outcome_bind, outcome_resolve]
  cases context.scopes.resolve? name <;> rfl

@[simp] theorem outcome_assign (v : Variable) (value : Value) (context : Context) :
    (assign v value).outcome context =
      (.ok (), { context with
        scopes := (context.scopes.update? { v with value? := some value }).getD context.scopes }) :=
  rfl

theorem outcome_declare (v : Variable) (context : Context) :
    (declare v).outcome context =
      match context.scopes with
      | [] => (.ok (), context)
      | frame :: frames =>
          match frame.get? v.name with
          | some previous => (.error (.alreadyDefined v.line v.name previous.line), context)
          | none => (.ok (), { context with scopes := frame.bind v :: frames }) := by
  -- the equation holds for each frame by computation, not before a frame is given
  obtain ⟨_ | ⟨frame, frames⟩, console⟩ := context
  · rfl
  · have hdeclare : (declare v).outcome ⟨frame :: frames, console⟩ =
        (match frame.get? v.name with
        | some previous => throw (.alreadyDefined v.line v.name previous.line)
        | none => changeScopes fun _ => frame.bind v :: frames : Run Unit).outcome
          ⟨frame :: frames, console⟩ := rfl
    rw [hdeclare]
    dsimp only
    cases frame.get? v.name <;> rfl

theorem outcome_readLine (line : Nat) (context : Context) :
    (readLine line).outcome context =
      match context.console.read? with
      | (none, console) => (.error (.inputExhausted line), { context with console })
      | (some .undecodable, console) => (.error .undecodableInput, { context with console })
      | (some (.text content), console) => (.ok content, { context with console }) := by
  obtain ⟨scopes, ⟨_ | ⟨_ | _, _⟩, printed, reads⟩⟩ := context <;> rfl

/-- What is run finally is run however the body ends. -/
theorem outcome_tryFinally (body : Run Unit) (f : Scopes → Scopes) (context : Context) :
    (tryFinally body (changeScopes f)).outcome context =
      ((body.outcome context).1,
        { (body.outcome context).2 with scopes := f (body.outcome context).2.scopes }) := by
  rcases hbody : body.outcome context with ⟨result, context'⟩
  replace hbody : body context = (result, context') := hbody
  simp only [outcome, tryFinally, tryFinally', ExceptT.run, ExceptT.mk, bind, StateT.bind,
    StateT.run, hbody, Functor.map, ExceptT.map, pure]
  cases result <;> rfl

@[simp] theorem outcome_withCounter (counter : Variable) (i : Int64) (body : Run Unit)
    (context : Context) :
    (withCounter counter i body).outcome context =
      let copy : Variable := { counter with value? := some (.int i) }
      let inner := body.outcome { context with scopes := [(copy.name, copy)] :: context.scopes }
      (inner.1, { inner.2 with scopes := inner.2.scopes.tail }) :=
  outcome_tryFinally body List.tail _

/-! ## Runs as executions -/

theorem toExec_apply (m : Run α) (context : Context) :
    m.toExec context =
      match m.outcome context with
      | (.ok a, context') => .ok a context'
      | (.error error, context') => .error (.error error) context' := rfl

@[simp] theorem toExec_pure (a : α) (context : Context) :
    (pure a : Run α).toExec context = .ok a context := rfl

@[simp] theorem toExec_throw (error : Error) (context : Context) :
    (throw error : Run α).toExec context = .error (.error error) context := rfl

@[simp] theorem toExec_ofScopes (f : Scopes → Except Error α) (context : Context) :
    (ofScopes f).toExec context = Exec.ofExcept (f context.scopes) context := by
  rw [toExec_apply, outcome_ofScopes]
  cases f context.scopes <;> rfl

@[simp] theorem toExec_resolve (name : String) (line : Nat) (context : Context) :
    (resolve name line).toExec context = Exec.lookup name line context := by
  rw [toExec_apply, outcome_resolve, Exec.lookup]
  cases context.scopes.resolve? name <;> rfl

@[simp] theorem toExec_readLine (line : Nat) (context : Context) :
    (readLine line).toExec context = Exec.readLine line context := by
  rw [toExec_apply, outcome_readLine, Exec.readLine, Console.inputOutput_read?]
  rcases context.console.read? with ⟨_ | _ | _, console⟩ <;> rfl

/-- The outermost frame is always there to declare a variable in. -/
theorem toExec_declare (v : Variable) {context : Context} (hscopes : context.scopes ≠ []) :
    (declare v).toExec context = Exec.declare v context := by
  rw [toExec_apply, outcome_declare, Exec.declare]
  obtain ⟨_ | ⟨frame, frames⟩, console⟩ := context
  · exact absurd rfl hscopes
  · simp only [Scopes.declare]
    cases frame.get? v.name <;> rfl

end Run

end Primer
