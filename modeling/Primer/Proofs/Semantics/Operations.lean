import Primer.Execution

/-!
# What executions are made of

Executing a tree reaches its context through a few operations only: variables
are declared, looked up and updated, something is run in a new frame, a value is
printed, a line is read.  The rest is handing values on and raising errors.  So a
relation between computations that holds of each operation, and is kept when
computations follow one another, holds of executing any tree in any context.

The two sides of such a relation may print and read in different worlds.  A
property of computations in one world is a relation that ignores one side.

## Main results

* `Exec.Compositional.execute` : relations that hold of executing every tree.
-/

namespace Primer

/-- Whether a program failed because there was no line left to read. -/
def Failure.IsExhausted : Failure → Prop
  | .error (.inputExhausted _) => True
  | _ => False

/-! ## Errors of operators -/

theorem Variable.not_isExhausted_of_valueAt {v : Variable} {line : Nat} {error : Error}
    (herror : v.valueAt line = .error error) : ¬(Failure.error error).IsExhausted := by
  unfold valueAt at herror
  split at herror
  · cases herror
  · cases herror
    exact not_false

theorem not_isExhausted_of_applyNegation {operator : Token} {value : Value} {error : Error}
    (herror : applyNegation operator value = .error error) :
    ¬(Failure.error error).IsExhausted := by
  cases value <;> cases herror <;> exact not_false

theorem not_isExhausted_of_combine? {line : Nat} {operator : Kind} {left right : Value}
    {error : Error} (herror : combine? line operator left right = some (.error error)) :
    ¬(Failure.error error).IsExhausted := by
  unfold combine? at herror
  -- only a quotient may be missing, any other result is a value
  repeat' split at herror
  all_goals cases herror
  exact not_false

theorem not_isExhausted_of_applyOperator {operator : Token} {left right : Value} {error : Error}
    (herror : applyOperator left operator right = .error error) :
    ¬(Failure.error error).IsExhausted := by
  unfold applyOperator at herror
  -- an operator asks for operands or gives a result; neither of them reads a line
  split at herror
  · cases hcombine : combine? operator.line operator.kind left right with
    | none =>
        rw [hcombine] at herror
        cases herror
        exact not_false
    | some result =>
        rw [hcombine] at herror
        cases herror
        exact not_isExhausted_of_combine? hcombine
  · cases herror
    exact not_false

/-! ## Relations between computations -/

namespace Exec

/-- The context in which a computation ended, however it did. -/
def ending {World α : Type} : EStateM.Result Failure (Context World) α → Context World
  | .ok _ context | .error _ context => context

/-- A relation between computations that holds of the operations on contexts and
is kept by sequences and by frames. -/
structure Compositional {V W : Type} [InputOutput V] [InputOutput W]
    (relates : {α : Type} → ExecOn V α → ExecOn W α → Prop) : Prop where
  pure {α : Type} (a : α) : relates (Pure.pure a) (Pure.pure a)
  /-- Lack of input is found by reading alone. -/
  raise {α : Type} {failure : Failure} (hfailure : ¬failure.IsExhausted) :
    relates (throw failure : ExecOn V α) (throw failure)
  bind {α β : Type} {m : ExecOn V α} {m' : ExecOn W α} {f : α → ExecOn V β} {f' : α → ExecOn W β}
    (hm : relates m m') (hf : ∀ a, relates (f a) (f' a)) : relates (m >>= f) (m' >>= f')
  declare (v : Variable) : relates (declare v) (declare v)
  lookup (name : String) (line : Nat) : relates (lookup name line) (lookup name line)
  update (v : Variable) (line : Nat) : relates (update v line) (update v line)
  inNewFrame {body : ExecOn V Unit} {body' : ExecOn W Unit} (hbody : relates body body') :
    relates (inNewFrame body) (inNewFrame body')
  print (value : Value) : relates (print value) (print value)
  readLine (line : Nat) : relates (readLine line) (readLine line)

namespace Compositional

variable {V W : Type} [InputOutput V] [InputOutput W]
  {relates : {α : Type} → ExecOn V α → ExecOn W α → Prop} {α : Type}

theorem misuse (h : Compositional relates) :
    relates (throw .misuse : ExecOn V α) (throw .misuse) := h.raise not_false

theorem demand (h : Compositional relates) (a? : Option α) :
    relates (Exec.demand a?) (Exec.demand a?) := by
  cases a? with
  | none => exact h.misuse
  | some a => exact h.pure a

theorem ofExcept (h : Compositional relates) {result : Except Error α}
    (hresult : ∀ error, result = .error error → ¬(Failure.error error).IsExhausted) :
    relates (Exec.ofExcept result) (Exec.ofExcept result) := by
  cases result with
  | ok a => exact h.pure a
  | error error => exact h.raise (hresult error rfl)

/-! ## Parts of the actions -/

theorem expectType (h : Compositional relates) (ty : Ty) (value : Value) (line : Nat) :
    relates (Primer.expectType ty value line) (Primer.expectType ty value line) := by
  unfold Primer.expectType
  by_cases hty : value.ty = ty
  · rw [if_pos hty, if_pos hty]
    exact h.pure ()
  · rw [if_neg hty, if_neg hty]
    exact h.raise not_false

theorem asBound (h : Compositional relates) (bound : Node) (line : Nat) (value : Value) :
    relates (Primer.asBound bound line value) (Primer.asBound bound line value) := by
  cases value with
  | int i => exact h.pure i
  | string content => exact h.raise not_false
  | bool b => exact h.raise not_false

theorem readValue (h : Compositional relates) (ty : Ty) (line : Nat) :
    relates (Primer.readValue ty line) (Primer.readValue ty line) := by
  cases ty with
  | int =>
      refine h.bind (h.readLine line) fun input => ?_
      cases Decimal.read? input with
      | some i => exact h.pure (Value.int i)
      | none => exact h.raise not_false
  | string => exact h.bind (h.readLine line) fun input => h.pure (Value.string input)
  | bool => exact h.raise not_false

theorem iterate (h : Compositional relates) {body : ExecOn V Unit} {body' : ExecOn W Unit}
    (hbody : relates body body') (counter : Variable) (line : Nat) (count : Nat) (i : Int64) :
    relates (Primer.iterate body counter line count i)
      (Primer.iterate body' counter line count i) := by
  -- induction on the rounds that are left; each begins with the counter the last one assigned
  induction count generalizing i with
  | zero => exact h.pure ()
  | succ count ih =>
      exact h.bind (h.demand _) fun copy =>
        h.bind (h.inNewFrame (h.bind (h.declare copy) fun _ => hbody)) fun _ =>
          h.bind (h.demand _) fun next => h.bind (h.update next line) fun _ => ih (i + 1)

theorem runLoop (h : Compositional relates) {body : ExecOn V Unit} {body' : ExecOn W Unit}
    (hbody : relates body body') (name : String) (line : Nat) (first last : Int64) :
    relates (Primer.runLoop name line first last body)
      (Primer.runLoop name line first last body') := by
  refine h.bind (h.lookup name line) fun counter => ?_
  -- a counter of another type ends the loop before its first round
  by_cases hty : counter.ty = .int
  · rw [if_pos hty, if_pos hty]
    exact h.bind (h.demand _) fun start => h.bind (h.update start line) fun _ =>
      h.iterate hbody counter line _ first
  · rw [if_neg hty, if_neg hty]
    exact h.raise not_false

/-! ## Trees -/

-- an action reaches into the lists among its children, so the recursion is on sizes
mutual

theorem evaluate (h : Compositional relates) (node : Node) :
    relates (Primer.evaluate node) (Primer.evaluate node) := by
  cases node with
  | token t => exact h.misuse
  | list children => exact h.misuse
  | deferred action children =>
      exact h.bind (perform h action children) fun value? => h.demand value?
termination_by sizeOf node
decreasing_by
  all_goals
    subst_vars
    simp only [Node.deferred.sizeOf_spec]
    omega

theorem execute (h : Compositional relates) (node : Node) :
    relates (Primer.execute node) (Primer.execute node) := by
  cases node with
  | token t => exact h.misuse
  | list children => exact executeAll h children
  | deferred action children => exact h.bind (perform h action children) fun _ => h.pure ()
termination_by sizeOf node
decreasing_by
  all_goals
    subst_vars
    simp only [Node.list.sizeOf_spec, Node.deferred.sizeOf_spec]
    omega

theorem executeAll (h : Compositional relates) (nodes : List Node) :
    relates (Primer.executeAll nodes) (Primer.executeAll nodes) := by
  cases nodes with
  | nil => exact h.pure ()
  | cons node nodes => exact h.bind (execute h node) fun _ => executeAll h nodes
termination_by sizeOf nodes
decreasing_by
  all_goals
    subst_vars
    simp only [List.cons.sizeOf_spec]
    omega

theorem perform (h : Compositional relates) (action : Action) (children : List Node) :
    relates (Primer.perform action children) (Primer.perform action children) := by
  unfold Primer.perform
  -- one case for each shape of children that an action accepts, the last for all others
  split
  · exact h.pure none
  · next statement _ occurrences =>
      exact h.bind (execute h statement) fun _ => perform h .statements occurrences
  · exact h.bind (h.demand _) fun name => h.bind (h.demand _) fun ty =>
      h.bind (h.declare _) fun _ => h.pure none
  · next start _ _ _ _ initializer _ =>
      exact h.bind (h.demand _) fun name => h.bind (h.demand _) fun ty =>
        h.bind (evaluate h initializer) fun value =>
          h.bind (h.expectType ty value start.line) fun _ => h.bind (h.demand _) fun v =>
            h.bind (h.declare v) fun _ => h.pure none
  · next target children =>
      refine h.bind (h.demand _) fun name => h.bind (h.lookup name target.line) fun v => ?_
      split
      · next _ source _ =>
          exact h.bind (evaluate h source) fun value => h.bind (h.expectType v.ty value _) fun _ =>
            h.bind (h.demand _) fun v => h.bind (h.update v target.line) fun _ => h.pure none
      · exact h.misuse
  · next _ source _ =>
      exact h.bind (evaluate h source) fun value => h.bind (h.print value) fun _ => h.pure none
  · next start target _ =>
      exact h.bind (h.demand _) fun name => h.bind (h.lookup name start.line) fun v =>
        h.bind (h.readValue v.ty start.line) fun value => h.bind (h.demand _) fun v =>
          h.bind (h.update v start.line) fun _ => h.pure none
  · next start _ condition _ =>
      refine h.bind (evaluate h condition) fun value => ?_
      rcases value with _ | _ | (_ | _)
      · exact h.raise not_false
      · exact h.raise not_false
      · exact h.raise not_false
      · exact h.pure none
  · next _ counter opening first children =>
      refine h.bind (evaluate h first) fun value =>
        h.bind (h.asBound first opening.line value) fun i => ?_
      split
      · next dots last children =>
          refine h.bind (evaluate h last) fun value =>
            h.bind (h.asBound last dots.line value) fun j => ?_
          split
          · next _ body _ =>
              exact h.bind (h.demand _) fun name =>
                h.bind (h.runLoop (execute h body) name counter.line i j) fun _ => h.pure none
          · exact h.misuse
      · exact h.misuse
  · next operator operand _ =>
      exact h.bind (evaluate h operand) fun value =>
        h.bind (h.ofExcept fun _ => not_isExhausted_of_applyNegation) fun value =>
          h.pure (some value)
  · next left children =>
      refine h.bind (evaluate h left) fun leftValue => ?_
      split
      · exact h.pure (some leftValue)
      · next operator right _ =>
          exact h.bind (evaluate h right) fun rightValue => h.bind (h.demand _) fun operator =>
            h.bind (h.ofExcept fun _ => not_isExhausted_of_applyOperator) fun value =>
              h.pure (some value)
      · exact h.misuse
  · exact h.bind (h.demand _) fun value => h.pure (some value)
  · next use _ =>
      exact h.bind (h.demand _) fun name => h.bind (h.lookup name use.line) fun v =>
        h.bind (h.ofExcept fun _ => Variable.not_isExhausted_of_valueAt) fun value =>
          h.pure (some value)
  · next _ inner _ =>
      exact h.bind (evaluate h inner) fun value => h.pure (some value)
  · exact h.misuse
termination_by sizeOf children
decreasing_by
  all_goals
    subst_vars
    simp only [Node.list.sizeOf_spec, List.cons.sizeOf_spec]
    omega

end

end Compositional

end Exec

end Primer
