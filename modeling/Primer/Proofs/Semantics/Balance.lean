import Primer.Proofs.Continuation
import Primer.Proofs.Semantics.Operations

/-!
# Scopes between runs

The scopes of a context may be changed by anything that uses the context, not only
by programs.  Each operation keeps them well-formed if the variable that it is given
has a value of its type.  In well-formed scopes a program fails only through a fault
of its own, leaves no frame behind, and leaves the scopes well-formed again.

## Main results

* `Exec.balanced_execute` : what executing the tree of a program keeps.
* `Exec.balanced_runIn` : the same for any text.
-/

namespace Primer

open Stateful

/-! ## Scopes -/

namespace Scopes

variable {scopes scopes' : Scopes}

theorem wellFormed_of_declare {v : Variable} (hwf : scopes.WellFormed) (hv : v.WellTyped)
    (hdeclare : scopes.declare v = .ok scopes') : scopes'.WellFormed := by
  cases scopes with
  | nil => exact absurd rfl hwf.1
  | cons frame frames =>
      rw [declare] at hdeclare
      cases hget : frame.get? v.name with
      | some previous =>
          rw [hget] at hdeclare
          cases hdeclare
      | none =>
          rw [hget] at hdeclare
          cases hdeclare
          exact wellFormed_declare hwf hget hv

/-- The new variable need not be one that the old one could have become. -/
theorem wellFormed_of_update? {v : Variable} (hwf : scopes.WellFormed) (hv : v.WellTyped)
    (hupdate : scopes.update? v = some scopes') : scopes'.WellFormed := by
  obtain ⟨-, hframes⟩ := hwf
  induction scopes generalizing scopes' with
  | nil => cases hupdate
  | cons frame frames ih =>
      obtain ⟨hframe, hframes⟩ := List.forall_mem_cons.mp hframes
      rw [update?] at hupdate
      split at hupdate
      · cases hupdate
        exact .cons (Frame.wellFormed_rebind hframe hv) hframes
      · obtain ⟨frames', hrest, rfl⟩ := Option.map_eq_some_iff.mp hupdate
        exact .cons hframe (ih hrest hframes).2

theorem wellFormed_of_pop? (hwf : scopes.WellFormed) (hpop : scopes.pop? = some scopes') :
    scopes'.WellFormed := by
  obtain _ | ⟨_, _ | ⟨frame, frames⟩⟩ := scopes
  · cases hpop
  · cases hpop
  · cases hpop
    exact hwf.tail (List.cons_ne_nil _ _)

end Scopes

/-! ## Computations -/

namespace Exec

variable {α β : Type}

/-- However the computation ends, it leaves well-formed scopes well-formed. -/
def Keeping (m : Exec α) : Prop :=
  ∀ context : Context, context.scopes.WellFormed → (ending (m context)).scopes.WellFormed

namespace Keeping

theorem pure (a : α) : Keeping (Pure.pure a) := fun _ hwf => hwf

theorem bind {m : Exec α} {f : α → Exec β} (hm : Keeping m) (hf : ∀ a, Keeping (f a)) :
    Keeping (m >>= f) := by
  intro context hwf
  have hmiddle := hm context hwf
  rw [bind_apply]
  cases hresult : m context with
  | ok a middle =>
      rw [hresult] at hmiddle
      exact hf a middle hmiddle
  | error failure middle =>
      rw [hresult] at hmiddle
      exact hmiddle

/-- What comes after a demand may rely on the result being there. -/
theorem demand_bind {a? : Option α} {f : α → Exec β} (hf : ∀ a, a? = some a → Keeping (f a)) :
    Keeping (demand a? >>= f) := by
  cases a? with
  | none => exact fun _ hwf => hwf
  | some a => exact hf a rfl

theorem declare {v : Variable} (hv : v.WellTyped) : Keeping (declare v) := by
  intro context hwf
  rw [Exec.declare]
  cases hdeclare : context.scopes.declare v with
  | ok scopes => exact Scopes.wellFormed_of_declare hwf hv hdeclare
  | error failure => exact hwf

theorem lookup (name : String) (line : Nat) : Keeping (lookup name line) := by
  intro context hwf
  rw [Exec.lookup]
  cases context.scopes.resolve? name with
  | some v => exact hwf
  | none => exact hwf

theorem update {v : Variable} (hv : v.WellTyped) (line : Nat) : Keeping (update v line) := by
  intro context hwf
  rw [Exec.update]
  cases hupdate : context.scopes.update? v with
  | some scopes => exact Scopes.wellFormed_of_update? hwf hv hupdate
  | none => exact hwf

theorem pushFrame : Keeping pushFrame := fun _ hwf => .cons Frame.wellFormed_nil hwf.2

theorem popFrame : Keeping popFrame := by
  intro context hwf
  rw [Exec.popFrame]
  cases hpop : context.scopes.pop? with
  | some scopes => exact Scopes.wellFormed_of_pop? hwf hpop
  | none => exact hwf

theorem print (value : Value) : Keeping (print value) := fun _ hwf => hwf

theorem readLine (line : Nat) : Keeping (readLine line) := by
  intro context hwf
  rw [Exec.readLine]
  rcases InputOutput.read? context.console with ⟨_ | _ | _, console⟩
  · exact hwf
  · exact hwf
  · exact hwf

end Keeping

/-! ## Programs -/

/-- From well-formed scopes the computation ends with well-formed scopes and as many
frames, and fails only through a fault of the program. -/
structure Balanced (m : Exec α) : Prop where
  keeping : Keeping m
  depth {context : Context} (hwf : context.scopes.WellFormed) :
    (ending (m context)).depth = context.depth
  fault {context after : Context} {failure : Failure} (hwf : context.scopes.WellFormed)
    (hfailure : m context = .error failure after) : ∃ error, failure = .error error

theorem Balanced.bind_pure {m : Exec α} (hm : Balanced m) (b : β) :
    Balanced (m >>= fun _ => Pure.pure b) where
  keeping := hm.keeping.bind fun _ => .pure b
  depth {context} hwf := by
    rw [← hm.depth hwf, bind_apply]
    cases m context <;> rfl
  fault hwf hfailure := by
    rcases bind_eq_error.mp hfailure with hfirst | ⟨_, _, _, hpure⟩
    · exact hm.fault hwf hfirst
    · cases hpure

theorem ending_toExec (m : Run α) (context : Context) :
    ending (m.toExec context) = (m.outcome context).2 := by
  rw [Run.toExec_apply]
  rcases m.outcome context with ⟨_ | _, _⟩ <;> rfl

theorem balanced_execute {source : String} {node : Node} (hcompile : compile source = .ok node) :
    Balanced (execute node) := by
  obtain ⟨program, -, rfl, -⟩ := exists_program_of_compile hcompile
  refine ⟨fun context hwf => ?_, fun {context} hwf => ?_, fun {context} _ _ hwf hfailure => ?_⟩
  · rw [(program.mirrors_run hwf).agrees, ending_toExec]
    exact (program.mirrors_run hwf).wellFormed
  · rw [(program.mirrors_run hwf).agrees, ending_toExec]
    exact (program.mirrors_run hwf).evolves.length
  · rw [(program.mirrors_run hwf).agrees, Run.toExec_apply] at hfailure
    rcases houtcome : program.run.outcome context with ⟨error | _, after⟩
    · rw [houtcome] at hfailure
      cases hfailure
      exact ⟨error, rfl⟩
    · rw [houtcome] at hfailure
      cases hfailure

/-- A text that does not compile changes nothing. -/
theorem balanced_runIn (source : String) : Balanced (runIn source : Exec Unit) := by
  cases hcompile : compile source with
  | ok node =>
      have hrun : (runIn source : Exec Unit) = execute node := by
        funext context
        rw [runIn, hcompile]
      rw [hrun]
      exact balanced_execute hcompile
  | error failure =>
      have hrun : (runIn source : Exec Unit) = throw failure := by
        funext context
        rw [runIn, hcompile]
        rfl
      obtain ⟨error, rfl⟩ := exists_error_of_compile hcompile
      rw [hrun]
      refine ⟨fun _ hwf => hwf, fun _ => rfl, fun _ hfailure => ?_⟩
      cases hfailure
      exact ⟨error, rfl⟩

end Exec

end Primer
