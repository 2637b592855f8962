import Primer.Proofs.Grammar.Tokens
import Primer.Proofs.Semantics.Running

/-!
# Programs that read nothing

A program without the keyword `read` only adds to what its console has printed.
Its outcome depends on the scopes alone, and so does what it prints.

## Main results

* `Program.readsNothing_run` : the console has no part in such a run.
-/

namespace Primer

namespace Console

/-- Prints values one after the other. -/
def printAll (console : Console) (values : List Value) : Console := values.foldl print console

@[simp] theorem printAll_append (console : Console) (first second : List Value) :
    console.printAll (first ++ second) = (console.printAll first).printAll second :=
  List.foldl_append

theorem printAll_eq (console : Console) (values : List Value) :
    console.printAll values = { console with printed := console.printed ++ values.toArray } := by
  induction values generalizing console with
  | nil => simp [printAll]
  | cons value values ih =>
      rw [printAll, List.foldl_cons, ← printAll, ih]
      simp [print]

end Console

/-- A run to which the console only serves for printing. -/
def Run.ReadsNothing {α : Type} (m : Run α) : Prop :=
  ∀ scopes, ∃ result scopes' values, ∀ console,
    m.outcome ⟨scopes, console⟩ = (result, ⟨scopes', console.printAll values⟩)

namespace Run.ReadsNothing

variable {α β : Type}

theorem bind {m : Run α} {f : α → Run β} (hm : ReadsNothing m) (hf : ∀ a, ReadsNothing (f a)) :
    ReadsNothing (m >>= f) := by
  intro scopes
  -- the scopes that the first program leaves are the same for every console
  obtain ⟨error | a, scopes', values, houtcome⟩ := hm scopes
  · exact ⟨.error error, scopes', values, fun console =>
      outcome_bind_of_error (houtcome console) f⟩
  · obtain ⟨result, scopes'', values', houtcome'⟩ := hf a scopes'
    refine ⟨result, scopes'', values ++ values', fun console => ?_⟩
    rw [outcome_bind_of_ok (houtcome console), houtcome', Console.printAll_append]

theorem of_scopes {m : Run α} (result : Scopes → Except Error α) (change : Scopes → Scopes)
    (hm : ∀ context, m.outcome context =
      (result context.scopes, { context with scopes := change context.scopes })) :
    ReadsNothing m :=
  fun scopes => ⟨result scopes, change scopes, [], fun console => hm ⟨scopes, console⟩⟩

theorem pure (a : α) : ReadsNothing (Pure.pure a) := of_scopes (fun _ => .ok a) id fun _ => rfl

theorem throw (error : Error) : ReadsNothing (throw error : Run α) :=
  of_scopes (fun _ => .error error) id fun _ => rfl

theorem ofScopes (f : Scopes → Except Error α) : ReadsNothing (Run.ofScopes f) :=
  of_scopes f id fun context => outcome_ofScopes f context

theorem resolve (name : String) (line : Nat) : ReadsNothing (Run.resolve name line) := by
  intro scopes
  cases hresolve : scopes.resolve? name with
  | none =>
      refine ⟨.error (.undefinedVariable line name), scopes, [], fun console => ?_⟩
      rw [outcome_resolve]
      simp only [hresolve]
      rfl
  | some v =>
      refine ⟨.ok v, scopes, [], fun console => ?_⟩
      rw [outcome_resolve]
      simp only [hresolve]
      rfl

theorem assign (v : Variable) (value : Value) : ReadsNothing (Run.assign v value) :=
  of_scopes (fun _ => .ok ())
    (fun scopes => (scopes.update? { v with value? := some value }).getD scopes)
    (outcome_assign v value)

theorem declare (v : Variable) : ReadsNothing (Run.declare v) := by
  intro scopes
  cases scopes with
  | nil => exact ⟨.ok (), [], [], fun _ => rfl⟩
  | cons frame frames =>
      cases hget : frame.get? v.name with
      | some previous =>
          refine ⟨.error (.alreadyDefined v.line v.name previous.line), frame :: frames, [],
            fun console => ?_⟩
          rw [outcome_declare]
          simp only [hget]
          rfl
      | none =>
          refine ⟨.ok (), frame.bind v :: frames, [], fun console => ?_⟩
          rw [outcome_declare]
          simp only [hget]
          rfl

theorem print (value : Value) :
    ReadsNothing
      (modify fun context => { context with console := context.console.print value }) :=
  fun scopes => ⟨.ok (), scopes, [value], fun _ => rfl⟩

theorem withCounter {body : Run Unit} (hbody : ReadsNothing body) (counter : Variable)
    (i : Int64) : ReadsNothing (Run.withCounter counter i body) := by
  intro scopes
  -- the frame of the round is removed after it, so what remains is the tail of what the body leaves
  obtain ⟨result, scopes', values, houtcome⟩ :=
    hbody ([(counter.name, { counter with value? := some (.int i) })] :: scopes)
  refine ⟨result, scopes'.tail, values, fun console => ?_⟩
  rw [outcome_withCounter]
  simp only [houtcome]

theorem forM {body : Int64 → Run Unit} (hbody : ∀ i, ReadsNothing (body i)) (is : List Int64) :
    ReadsNothing (is.forM body) := by
  induction is with
  | nil => exact .pure ()
  | cons i is ih => exact (hbody i).bind fun _ => ih

end Run.ReadsNothing

/-! ## Statements and programs -/

mutual

theorem Statement.readsNothing_run (statement : Statement)
    (hread : ∀ t ∈ statement.tokens, t.kind ≠ .keyword .kwRead) : statement.run.ReadsNothing := by
  cases statement with
  | declaration line name nameLine colonLine ty tyLine initializer? =>
      cases initializer? with
      | none => exact .declare _
      | some initializer => exact .bind (.ofScopes _) fun value => .declare _
  | assignment name line assignLine source =>
      exact .bind (.resolve name line) fun v => .bind (.ofScopes _) fun value => .assign v value
  | printing line source => exact .bind (.ofScopes _) fun value => .print value
  | reading line name nameLine => exact absurd rfl (hread ⟨.keyword .kwRead, line⟩ (by simp))
  | assertion line openLine condition closeLine =>
      refine .bind (.ofScopes _) fun value => ?_
      rcases value with _ | _ | (_ | _)
      · exact .throw _
      · exact .throw _
      · exact .throw _
      · exact .pure ()
  | loop forLine name line inLine first rangeLine last doLine body endLine closingLine =>
      -- the tokens of the body are among those of the loop
      have hbody : body.run.ReadsNothing := Program.readsNothing_run body fun t ht => by
        refine hread t ?_
        simp [ht]
      refine .bind (.ofScopes _) fun i => .bind (.ofScopes _) fun j =>
        .bind (.resolve name line) fun counter => ?_
      have hcount := Run.ReadsNothing.forM (fun k => (hbody.withCounter counter k).bind fun _ =>
        .assign counter (.int (.ofInt (k.toInt + 1)))) (integersBetween i j)
      split
      · exact .bind (.throw _) fun _ => .bind (.assign counter (.int i)) fun _ => hcount
      · exact .bind (.assign counter (.int i)) fun _ => hcount

theorem Program.readsNothing_run (program : Program)
    (hread : ∀ t ∈ program.tokens, t.kind ≠ .keyword .kwRead) : program.run.ReadsNothing := by
  cases program with
  | done => exact .pure ()
  | next statement semicolonLine rest =>
      simp only [Program.tokens_next, List.mem_append, List.mem_cons] at hread
      exact (Statement.readsNothing_run statement fun t ht => hread t (.inl ht)).bind fun _ =>
        Program.readsNothing_run rest fun t ht => hread t (.inr (.inr ht))

end

end Primer
