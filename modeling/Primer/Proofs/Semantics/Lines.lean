import Primer.Proofs.Relocation
import Primer.Proofs.Semantics.Running

/-!
# Lines do not matter

Lines go from tokens into errors and into the variables declared, and nothing
else is ever done with them.  So a program with other lines, run in a context
with other lines, has the outcome of the program with lines changed likewise.

## Main results

* `Program.relocates_run` : relocating commutes with running.
-/

namespace Primer

variable {f : Nat → Nat}

/-! ## Expressions -/

theorem Frame.get?_relocate (frame : Frame) (name : String) :
    (frame.relocate f).get? name = (frame.get? name).map (Variable.relocate f) := by
  induction frame with
  | nil => rfl
  | cons binding frame ih =>
      obtain ⟨bound, v⟩ := binding
      simp only [Frame.get?, Frame.relocate, List.map_cons, List.lookup_cons] at ih ⊢
      cases name == bound with
      | true => rfl
      | false => exact ih

theorem Scopes.resolve?_relocate (scopes : Scopes) (name : String) :
    (scopes.relocate f).resolve? name = (scopes.resolve? name).map (Variable.relocate f) := by
  -- induction from the innermost frame: the first frame that knows the name answers in both
  induction scopes with
  | nil => rfl
  | cons frame frames ih =>
      simp only [resolve?, relocate, List.map_cons, List.findSome?_cons, Frame.get?_relocate]
        at ih ⊢
      cases frame.get? name with
      | none => exact ih
      | some v => rfl

theorem Scopes.valueOf_relocate (scopes : Scopes) (name : String) (line : Nat) :
    (scopes.relocate f).valueOf name (f line) =
      (scopes.valueOf name line).mapError (Error.relocate f) := by
  rw [valueOf, valueOf, resolve?_relocate]
  cases scopes.resolve? name with
  | none => rfl
  | some v => obtain ⟨_, _, _, _ | value⟩ := v <;> rfl

theorem Operator.apply_relocate (operator : Operator) (line : Nat) (left right : Value) :
    operator.apply (f line) left right =
      (operator.apply line left right).mapError (Error.relocate f) := by
  cases left <;> cases right <;> cases operator <;> try rfl
  -- only a quotient may be missing
  simp only [apply]
  split <;> rfl

mutual

theorem Operand.value_relocate (operand : Operand) (scopes : Scopes) :
    (operand.relocate f).value (scopes.relocate f) =
      (operand.value scopes).mapError (Error.relocate f) := by
  cases operand with
  | literal value line => rfl
  | name name line => exact scopes.valueOf_relocate name line
  | group openLine inner closeLine => exact inner.value_relocate scopes

theorem Expression.value_relocate (expression : Expression) (scopes : Scopes) :
    (expression.relocate f).value (scopes.relocate f) =
      (expression.value scopes).mapError (Error.relocate f) := by
  cases expression with
  | negation line operand =>
      rw [Expression.relocate, Expression.value, Expression.value, operand.value_relocate scopes]
      rcases operand.value scopes with _ | (_ | _ | _) <;> rfl
  | single operand => exact operand.value_relocate scopes
  | operation left operator line right =>
      rw [Expression.relocate, Expression.value, Expression.value, left.value_relocate scopes]
      -- the right operand is only evaluated after the left one gave a value
      cases left.value scopes with
      | error error => rfl
      | ok l =>
          show ((right.relocate f).value (scopes.relocate f) >>= fun r => _) = _
          rw [right.value_relocate scopes]
          cases right.value scopes with
          | error error => rfl
          | ok r => exact operator.apply_relocate line l r

end

mutual

theorem Operand.firstLine_relocate (operand : Operand) :
    (operand.relocate f).firstLine = f operand.firstLine := by
  cases operand <;> rfl

theorem Expression.firstLine_relocate (expression : Expression) :
    (expression.relocate f).firstLine = f expression.firstLine := by
  cases expression with
  | negation line operand => rfl
  | single operand => exact operand.firstLine_relocate
  | operation left operator line right => exact left.firstLine_relocate

end

theorem Expression.valueOfType_relocate (source : Expression) (scopes : Scopes) (ty : Ty)
    (line : Nat) :
    (source.relocate f).valueOfType (scopes.relocate f) ty (f line) =
      (source.valueOfType scopes ty line).mapError (Error.relocate f) := by
  rw [valueOfType, valueOfType, source.value_relocate scopes]
  cases source.value scopes with
  | error error => rfl
  | ok value =>
      show (if value.ty = ty then _ else _) = Except.mapError _ (if value.ty = ty then _ else _)
      split <;> rfl

theorem Expression.bound_relocate (source : Expression) (scopes : Scopes) :
    (source.relocate f).bound (scopes.relocate f) =
      (source.bound scopes).mapError (Error.relocate f) := by
  rw [bound, bound, source.value_relocate scopes, source.firstLine_relocate]
  rcases source.value scopes with _ | (_ | _ | _) <;> rfl

/-! ## Scopes -/

theorem Frame.rebind_relocate (frame : Frame) (v : Variable) :
    (frame.relocate f).rebind (v.relocate f) = (frame.rebind v).relocate f := by
  simp only [rebind, relocate, List.map_map]
  refine List.map_congr_left fun binding _ => ?_
  by_cases hname : binding.1 = v.name <;> simp [Variable.relocate, hname]

theorem Scopes.update?_relocate (scopes : Scopes) (v : Variable) :
    (scopes.relocate f).update? (v.relocate f) = (scopes.update? v).map (Scopes.relocate f) := by
  induction scopes with
  | nil => rfl
  | cons frame frames ih =>
      have hcons : Scopes.relocate f (frame :: frames) =
          frame.relocate f :: Scopes.relocate f frames := rfl
      have hname : (v.relocate f).name = v.name := rfl
      rw [hcons, update?, update?, ih, hname, Frame.get?_relocate, Frame.rebind_relocate,
        Option.isSome_map]
      -- either this frame holds the name, or both sides ask the frames below
      split
      · rfl
      · cases update? frames v <;> rfl

/-! ## Runs -/

/-- Two runs have outcomes that differ in their lines, from contexts that do. -/
def Run.Relocates {α β : Type} (f : Nat → Nat) (g : α → β) (m : Run α) (m' : Run β) : Prop :=
  ∀ context : Context, m'.outcome (context.relocate f) =
    (((m.outcome context).1.map g).mapError (Error.relocate f), (m.outcome context).2.relocate f)

namespace Run.Relocates

variable {α β γ δ : Type}

theorem bind {g : α → β} {h : γ → δ} {m : Run α} {m' : Run β} {k : α → Run γ} {k' : β → Run δ}
    (hm : Relocates f g m m') (hk : ∀ a, Relocates f h (k a) (k' (g a))) :
    Relocates f h (m >>= k) (m' >>= k') := by
  intro context
  have hfirst := hm context
  -- the second program runs only if the first one ends well, and then from the context it left
  rcases houtcome : m.outcome context with ⟨error | a, context'⟩
  · rw [houtcome] at hfirst
    rw [outcome_bind_of_error houtcome, outcome_bind_of_error hfirst]
    rfl
  · rw [houtcome] at hfirst
    rw [outcome_bind_of_ok houtcome, outcome_bind_of_ok hfirst]
    exact hk a context'

theorem pure (g : α → β) (a : α) : Relocates f g (Pure.pure a) (Pure.pure (g a)) := fun _ => rfl

theorem throw (g : α → β) (error : Error) :
    Relocates f g (throw error : Run α) (throw (error.relocate f) : Run β) := fun _ => rfl

theorem ofScopes {h h' : Scopes → Except Error α}
    (heq : ∀ scopes, h' (scopes.relocate f) = (h scopes).mapError (Error.relocate f)) :
    Relocates f id (Run.ofScopes h) (Run.ofScopes h') := by
  intro context
  rw [outcome_ofScopes, outcome_ofScopes]
  have hscopes : (context.relocate f).scopes = context.scopes.relocate f := rfl
  rw [hscopes, heq]
  cases h context.scopes <;> rfl

theorem resolve (name : String) (line : Nat) :
    Relocates f (Variable.relocate f) (Run.resolve name line) (Run.resolve name (f line)) := by
  intro context
  have hscopes : (context.relocate f).scopes = context.scopes.relocate f := rfl
  rw [outcome_resolve, outcome_resolve, hscopes, Scopes.resolve?_relocate]
  cases context.scopes.resolve? name <;> rfl

theorem assign (v : Variable) (value : Value) :
    Relocates f id (Run.assign v value) (Run.assign (v.relocate f) value) := by
  intro context
  have hscopes : (context.relocate f).scopes = context.scopes.relocate f := rfl
  have hvariable : ({ v.relocate f with value? := some value } : Variable) =
      Variable.relocate f { v with value? := some value } := rfl
  rw [outcome_assign, outcome_assign, hscopes, hvariable, Scopes.update?_relocate]
  cases context.scopes.update? { v with value? := some value } <;> rfl

theorem declare (v : Variable) : Relocates f id (Run.declare v) (Run.declare (v.relocate f)) := by
  intro context
  obtain ⟨_ | ⟨frame, frames⟩, console⟩ := context
  · rfl
  · have hscopes : Context.relocate f ⟨frame :: frames, console⟩ =
        ⟨frame.relocate f :: Scopes.relocate f frames, console⟩ := rfl
    have hname : (v.relocate f).name = v.name := rfl
    rw [hscopes, outcome_declare, outcome_declare]
    dsimp only
    rw [hname, Frame.get?_relocate]
    cases frame.get? v.name <;> rfl

theorem readLine (line : Nat) :
    Relocates f id (Run.readLine line) (Run.readLine (f line)) := by
  intro context
  have hconsole : (context.relocate f).console = context.console := rfl
  rw [outcome_readLine, outcome_readLine, hconsole]
  rcases context.console.read? with ⟨_ | _ | _, console⟩ <;> rfl

theorem print (value : Value) :
    Relocates f id
      (modify fun context => { context with console := context.console.print value })
      (modify fun context => { context with console := context.console.print value }) :=
  fun _ => rfl

theorem withCounter {body body' : Run Unit} (hbody : Relocates f id body body')
    (counter : Variable) (i : Int64) :
    Relocates f id (Run.withCounter counter i body)
      (Run.withCounter (counter.relocate f) i body') := by
  intro context
  -- the body runs above a frame that holds the counter alone, whose lines are moved like the others
  let inner : Context := { context with
    scopes := [(counter.name, { counter with value? := some (.int i) })] :: context.scopes }
  rw [outcome_withCounter, outcome_withCounter]
  change ((body'.outcome (inner.relocate f)).1, { (body'.outcome (inner.relocate f)).2 with
    scopes := (body'.outcome (inner.relocate f)).2.scopes.tail }) = _
  rw [hbody inner]
  have htail : (Scopes.relocate f (body.outcome inner).2.scopes).tail =
      Scopes.relocate f (body.outcome inner).2.scopes.tail := List.map_tail.symm
  simp only [Context.relocate, htail]
  rfl

theorem forM {body body' : Int64 → Run Unit} (hbody : ∀ i, Relocates f id (body i) (body' i))
    (is : List Int64) : Relocates f id (is.forM body) (is.forM body') := by
  induction is with
  | nil => exact .pure id ()
  | cons i is ih => exact (hbody i).bind fun _ => ih

end Run.Relocates

/-! ## Statements and programs -/

mutual

theorem Statement.relocates_run (statement : Statement) :
    Run.Relocates f id statement.run (statement.relocate f).run := by
  cases statement with
  | declaration line name nameLine colonLine ty tyLine initializer? =>
      cases initializer? with
      | none => exact .declare ⟨name, line, ty, none⟩
      | some initializer =>
          obtain ⟨assignLine, source⟩ := initializer
          exact .bind (.ofScopes fun scopes => source.valueOfType_relocate scopes ty line)
            fun value => .declare ⟨name, line, ty, some value⟩
  | assignment name line assignLine source =>
      simp only [Statement.relocate, Statement.run, source.firstLine_relocate]
      exact .bind (.resolve name line) fun v =>
        .bind (.ofScopes fun scopes => source.valueOfType_relocate scopes v.ty source.firstLine)
          fun value => .assign v value
  | printing line source =>
      exact .bind (.ofScopes source.value_relocate) fun value => .print value
  | reading line name nameLine =>
      refine .bind (.resolve name line) fun v => ?_
      have hty : (v.relocate f).ty = v.ty := rfl
      rw [hty]
      cases v.ty with
      | int =>
          refine .bind (.readLine line) fun content => ?_
          dsimp only [id]
          cases Decimal.read? content with
          | some i => exact .assign v (.int i)
          | none => exact .throw id (.notAnInteger line content)
      | string => exact .bind (.readLine line) fun content => .assign v (.string content)
      | bool => exact .throw id (.unreadableType line .bool)
  | assertion line openLine condition closeLine =>
      refine .bind (.ofScopes condition.value_relocate) fun value => ?_
      rcases value with _ | _ | (_ | _)
      · exact .throw id (.typeMismatch line .bool .int)
      · exact .throw id (.typeMismatch line .bool .string)
      · exact .throw id (.assertionFailed line)
      · exact .pure id ()
  | loop forLine name line inLine first rangeLine last doLine body endLine closingLine =>
      refine .bind (.ofScopes first.bound_relocate) fun i =>
        .bind (.ofScopes last.bound_relocate) fun j => .bind (.resolve name line) fun counter => ?_
      -- the rounds count integers, which have no line; only the counter they assign to has one
      have hcount : Run.Relocates f id
          ((integersBetween i j).forM fun k => do
            Run.withCounter counter k body.run
            Run.assign counter (.int (.ofInt (k.toInt + 1))))
          ((integersBetween i j).forM fun k => do
            Run.withCounter (counter.relocate f) k (body.relocate f).run
            Run.assign (counter.relocate f) (.int (.ofInt (k.toInt + 1)))) :=
        .forM (fun k => .bind (.withCounter body.relocates_run counter k) fun _ =>
          .assign counter (.int (.ofInt (k.toInt + 1)))) _
      have hty : (counter.relocate f).ty = counter.ty := rfl
      rw [hty]
      split
      · exact .bind (.throw id (.typeMismatch line .int counter.ty)) fun _ =>
          .bind (.assign counter (.int i)) fun _ => hcount
      · exact .bind (.assign counter (.int i)) fun _ => hcount

theorem Program.relocates_run (program : Program) :
    Run.Relocates f id program.run (program.relocate f).run := by
  cases program with
  | done => exact .pure id ()
  | next statement semicolonLine rest =>
      exact statement.relocates_run.bind fun _ => rest.relocates_run

end

end Primer
