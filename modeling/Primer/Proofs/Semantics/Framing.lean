import Primer.Proofs.Grammar.Tokens
import Primer.Proofs.Semantics.Discipline
import Primer.Proofs.Semantics.Targets

/-!
# Names that a program does not mention

Two contexts may differ in what they hold under a name.  A program without a
token for this name cannot tell them apart: it looks up, declares and updates
other names only, so it goes the same way in both, however it ends, and leaves
them as different as they were.  What they hold under the name stays as it is,
and this holds more generally of all names that are not targets.

Frames are compared name by name.  The relation of the two contexts is kept by
each operation on another name, and so by each statement; that variables are
found under their own names is needed for updates of what was looked up.

## Main results

* `Statement.ignores_run`, `Program.ignores_run` : runs from contexts that differ
  only in a name that is not mentioned.
* `runIn_ignores_unmentioned` : the same for whatever compiles, with what it
  leaves as it was.
-/

namespace Primer

/-! ## Contexts that differ in one name -/

/-- The same variables under all names but one. -/
def Frame.SameExcept (x : String) (frame frame' : Frame) : Prop :=
  ∀ name, name ≠ x → frame.get? name = frame'.get? name

namespace Frame.SameExcept

variable {x : String} {frame frame' : Frame}

theorem bind (hsame : frame.SameExcept x frame') (v : Variable) :
    (frame.bind v).SameExcept x (frame'.bind v) := by
  intro name hname
  rw [get?_bind, get?_bind, hsame name hname]

theorem rebind (hsame : frame.SameExcept x frame') (v : Variable) :
    (frame.rebind v).SameExcept x (frame'.rebind v) := by
  intro name hname
  rw [get?_rebind, get?_rebind, hsame name hname]

end Frame.SameExcept

/-- As many frames, with the same variables frame by frame under all names but one. -/
def Scopes.SameExcept (x : String) : Scopes → Scopes → Prop := List.Forall₂ (Frame.SameExcept x)

namespace Scopes.SameExcept

variable {x : String} {scopes scopes' : Scopes}

theorem resolve?_eq (hsame : scopes.SameExcept x scopes') {name : String} (hname : name ≠ x) :
    scopes.resolve? name = scopes'.resolve? name :=
  resolve?_congr (fun _ _ hframe => hframe name hname) hsame

theorem update? (hsame : scopes.SameExcept x scopes') {v : Variable} (hv : v.name ≠ x) :
    Option.Rel (SameExcept x) (scopes.update? v) (scopes'.update? v) :=
  update?_congr (fun _ _ hframe => hframe v.name hv) (fun _ _ hframe => hframe.rebind v) hsame

theorem cons {frame frame' : Frame} (hframe : frame.SameExcept x frame')
    (hsame : scopes.SameExcept x scopes') : SameExcept x (frame :: scopes) (frame' :: scopes') :=
  List.Forall₂.cons hframe hsame

theorem tail (hsame : scopes.SameExcept x scopes') : SameExcept x scopes.tail scopes'.tail := by
  cases hsame with
  | nil => exact .nil
  | cons _ hframes => exact hframes

end Scopes.SameExcept

/-- The same variables except under one name, and the same console. -/
structure Context.SameExcept (x : String) (context context' : Context) : Prop where
  scopes : context.scopes.SameExcept x context'.scopes
  console : context.console = context'.console

/-! ## Runs -/

namespace Run

variable {α β : Type} {x : String}

/-- The contexts of two runs, with variables that are found under their names. -/
structure Alike (x : String) (context context' : Context) : Prop
    extends Context.SameExcept x context context' where
  labelled : context.scopes.Labelled

/-- From contexts that differ in one name, the same result, and contexts that
again differ in this name only. -/
def Ignores (x : String) (m : Run α) : Prop :=
  ∀ context context', Alike x context context' →
    (m.outcome context).1 = (m.outcome context').1 ∧
      Alike x (m.outcome context).2 (m.outcome context').2

theorem ignores_pure (a : α) : Ignores x (pure a : Run α) := fun _ _ halike => ⟨rfl, halike⟩

theorem ignores_throw (error : Error) : Ignores x (throw error : Run α) :=
  fun _ _ halike => ⟨rfl, halike⟩

theorem ignores_bind {m : Run α} {f : α → Run β} (hm : m.Ignores x)
    (hf : ∀ a, (f a).Ignores x) : (m >>= f).Ignores x := by
  intro context context' halike
  have hfirst := hm context context' halike
  rw [outcome_bind, outcome_bind]
  generalize m.outcome context = outcome, m.outcome context' = outcome' at hfirst
  obtain ⟨result, after⟩ := outcome
  obtain ⟨result', after'⟩ := outcome'
  obtain ⟨rfl, hafter⟩ := hfirst
  cases result with
  | error error => exact ⟨rfl, hafter⟩
  | ok a => exact hf a after after' hafter

theorem ignores_ofScopes {g : Scopes → Except Error α}
    (hg : ∀ {scopes scopes'}, Scopes.SameExcept x scopes scopes' → g scopes = g scopes') :
    (ofScopes g).Ignores x := by
  intro context context' halike
  rw [outcome_ofScopes, outcome_ofScopes]
  exact ⟨hg halike.scopes, halike⟩

/-- What another name refers to is the same in both, and has that name. -/
theorem ignores_resolve {name : String} {line : Nat} {f : Variable → Run β} (hname : name ≠ x)
    (hf : ∀ v, v.name ≠ x → (f v).Ignores x) : (resolve name line >>= f).Ignores x := by
  intro context context' halike
  have hresolve := halike.scopes.resolve?_eq hname
  rw [outcome_resolve_bind, outcome_resolve_bind, ← hresolve]
  cases hfound : context.scopes.resolve? name with
  | none => exact ⟨rfl, halike⟩
  | some v =>
      have hv : v.name ≠ x := (halike.labelled.resolve? hfound).symm ▸ hname
      exact hf v hv context context' halike

theorem ignores_assign {v : Variable} (hv : v.name ≠ x) (value : Value) :
    (assign v value).Ignores x := by
  intro context context' halike
  -- an update of another name spares this one, so it keeps the labels too
  have hlabelled : ((assign v value).outcome context).2.scopes.Labelled :=
    (spares_assign (n := 0) (fun hname => absurd hname hv) value).labelled halike.labelled
  have hupdate := halike.scopes.update? (v := { v with value? := some value }) hv
  refine ⟨rfl, ⟨?_, halike.console⟩, hlabelled⟩
  rw [outcome_assign, outcome_assign]
  generalize context.scopes.update? _ = scopes?, context'.scopes.update? _ = scopes'? at hupdate
  cases hupdate with
  | none => exact halike.scopes
  | some hscopes => exact hscopes

theorem ignores_declare {v : Variable} (hv : v.name ≠ x) : (declare v).Ignores x := by
  intro context context' halike
  have hlabelled : ((declare v).outcome context).2.scopes.Labelled :=
    (spares_declare (n := 0) (fun hname => absurd hname hv)).labelled halike.labelled
  rw [outcome_declare] at hlabelled
  rw [outcome_declare, outcome_declare]
  obtain ⟨scopes, console⟩ := context
  obtain ⟨scopes', console'⟩ := context'
  obtain ⟨⟨hscopes, rfl⟩, -⟩ := halike
  cases hscopes with
  | nil => exact ⟨rfl, ⟨.nil, rfl⟩, hlabelled⟩
  | @cons frame frame' frames frames' hframe hframes =>
      simp only [hframe v.name hv] at hlabelled ⊢
      generalize frame'.get? v.name = previous? at hlabelled ⊢
      cases previous? with
      | some previous => exact ⟨rfl, ⟨.cons hframe hframes, rfl⟩, hlabelled⟩
      | none => exact ⟨rfl, ⟨.cons (hframe.bind v) hframes, rfl⟩, hlabelled⟩

theorem ignores_readLine (line : Nat) : (readLine line).Ignores x := by
  intro context context' halike
  rw [outcome_readLine, outcome_readLine, ← halike.console]
  rcases context.console.read? with ⟨_ | _ | _, console⟩ <;>
    exact ⟨rfl, ⟨halike.scopes, rfl⟩, halike.labelled⟩

theorem ignores_print (value : Value) :
    Ignores x (modify fun context => { context with console := context.console.print value }) :=
  fun _ _ halike => ⟨rfl, ⟨halike.scopes, congrArg (·.print value) halike.console⟩, halike.labelled⟩

theorem ignores_withCounter {body : Run Unit} (hbody : body.Ignores x) (counter : Variable)
    (i : Int64) : (withCounter counter i body).Ignores x := by
  intro context context' halike
  let copy : Variable := { counter with value? := some (.int i) }
  have hlabelled : Scopes.Labelled ([(copy.name, copy)] :: context.scopes) :=
    List.forall_mem_cons.mpr ⟨Frame.labelled_nil.bind copy, halike.labelled⟩
  rw [outcome_withCounter, outcome_withCounter]
  obtain ⟨hresult, hafter⟩ := hbody { context with scopes := [(copy.name, copy)] :: context.scopes }
    { context' with scopes := [(copy.name, copy)] :: context'.scopes }
    ⟨⟨.cons (fun _ _ => rfl) halike.scopes, halike.console⟩, hlabelled⟩
  exact ⟨hresult, ⟨hafter.scopes.tail, hafter.console⟩,
    fun frame hframe => hafter.labelled frame (List.mem_of_mem_tail hframe)⟩

theorem ignores_forM {body : Int64 → Run Unit} (hbody : ∀ i, (body i).Ignores x)
    (is : List Int64) : (is.forM body).Ignores x := by
  induction is with
  | nil => exact ignores_pure ()
  | cons i is ih => exact ignores_bind (hbody i) fun _ => ih

end Run

/-! ## Names in tokens -/

/-- None of the tokens is the name. -/
def Unmentioned (x : String) (tokens : List Token) : Prop := ∀ t ∈ tokens, t.lexeme ≠ .name x

namespace Unmentioned

variable {x : String} {tokens tokens' : List Token}

@[simp] theorem nil : Unmentioned x [] := fun _ ht => nomatch ht

@[simp] theorem cons {t : Token} :
    Unmentioned x (t :: tokens) ↔ t.lexeme ≠ .name x ∧ Unmentioned x tokens :=
  List.forall_mem_cons

@[simp] theorem append :
    Unmentioned x (tokens ++ tokens') ↔ Unmentioned x tokens ∧ Unmentioned x tokens' :=
  List.forall_mem_append

end Unmentioned

/-! ## Expressions -/

section Expressions

variable {x : String} {scopes scopes' : Scopes}

mutual

theorem Operand.value_congr (hsame : scopes.SameExcept x scopes') (operand : Operand)
    (hx : Unmentioned x operand.tokens) : operand.value scopes = operand.value scopes' := by
  cases operand with
  | literal value line => rfl
  | name name line =>
      have hname : name ≠ x := by simpa using hx
      simp only [Operand.value, Scopes.valueOf, hsame.resolve?_eq hname]
  | group openLine inner closeLine =>
      have hinner : Unmentioned x inner.tokens := by simp_all
      exact inner.value_congr hsame hinner

theorem Expression.value_congr (hsame : scopes.SameExcept x scopes') (source : Expression)
    (hx : Unmentioned x source.tokens) : source.value scopes = source.value scopes' := by
  cases source with
  | negation line operand =>
      have hoperand : Unmentioned x operand.tokens := by simp_all
      simp only [Expression.value, operand.value_congr hsame hoperand]
  | single operand =>
      have hoperand : Unmentioned x operand.tokens := by simp_all
      exact operand.value_congr hsame hoperand
  | operation left operator line right =>
      have hoperands : Unmentioned x left.tokens ∧ Unmentioned x right.tokens := by simp_all
      simp only [Expression.value, left.value_congr hsame hoperands.1,
        right.value_congr hsame hoperands.2]

end

theorem Expression.valueOfType_congr (hsame : scopes.SameExcept x scopes') {source : Expression}
    (hx : Unmentioned x source.tokens) (ty : Ty) (line : Nat) :
    source.valueOfType scopes ty line = source.valueOfType scopes' ty line := by
  simp only [valueOfType, source.value_congr hsame hx]

theorem Expression.bound_congr (hsame : scopes.SameExcept x scopes') {source : Expression}
    (hx : Unmentioned x source.tokens) : source.bound scopes = source.bound scopes' := by
  simp only [bound, source.value_congr hsame hx]

end Expressions

/-! ## Statements and programs -/

open Run

mutual

theorem Statement.ignores_run {x : String} (statement : Statement)
    (hx : Unmentioned x statement.tokens) : statement.run.Ignores x := by
  cases statement with
  | declaration line name nameLine colonLine ty tyLine initializer? =>
      cases initializer? with
      | none =>
          have hname : name ≠ x := by simp_all
          exact ignores_declare hname
      | some initializer =>
          have hparts : name ≠ x ∧ Unmentioned x initializer.source.tokens := by
            simp_all [Initializer.tokens]
          exact ignores_bind (ignores_ofScopes fun hsame =>
            Expression.valueOfType_congr hsame hparts.2 ty line) fun value =>
              ignores_declare hparts.1
  | assignment name line assignLine source =>
      have hparts : name ≠ x ∧ Unmentioned x source.tokens := by simp_all
      refine ignores_resolve hparts.1 fun v hv => ?_
      exact ignores_bind (ignores_ofScopes fun hsame =>
        Expression.valueOfType_congr hsame hparts.2 v.ty _) fun value => ignores_assign hv value
  | printing line source =>
      have hsource : Unmentioned x source.tokens := by simp_all
      exact ignores_bind (ignores_ofScopes fun hsame => source.value_congr hsame hsource)
        ignores_print
  | reading line name nameLine =>
      have hname : name ≠ x := by simp_all
      refine ignores_resolve hname fun v hv => ?_
      cases v.ty with
      | int =>
          refine ignores_bind (ignores_readLine line) fun content => ?_
          cases Decimal.read? content with
          | none => exact ignores_throw _
          | some i => exact ignores_assign hv (.int i)
      | string =>
          exact ignores_bind (ignores_readLine line) fun content =>
            ignores_assign hv (.string content)
      | bool => exact ignores_throw _
  | assertion line openLine condition closeLine =>
      have hcondition : Unmentioned x condition.tokens := by simp_all
      refine ignores_bind (ignores_ofScopes fun hsame => condition.value_congr hsame hcondition)
        fun value => ?_
      rcases value with _ | _ | (_ | _)
      · exact ignores_throw _
      · exact ignores_throw _
      · exact ignores_throw _
      · exact ignores_pure ()
  | loop forLine name line inLine first rangeLine last doLine body endLine closingLine =>
      have hparts : name ≠ x ∧ Unmentioned x first.tokens ∧ Unmentioned x last.tokens ∧
          Unmentioned x body.tokens := by simp_all
      -- the frame of a round holds the counter, which is not the name that is ignored
      obtain ⟨hname, hfirst, hlast, hbody⟩ := hparts
      refine ignores_bind (ignores_ofScopes fun hsame => Expression.bound_congr hsame hfirst)
        fun i => ?_
      refine ignores_bind (ignores_ofScopes fun hsame => Expression.bound_congr hsame hlast)
        fun j => ?_
      refine ignores_resolve hname fun counter hcounter => ?_
      split
      · exact ignores_throw _
      · refine ignores_bind (ignores_assign hcounter _) fun _ => ignores_forM (fun k => ?_) _
        exact ignores_bind (ignores_withCounter (body.ignores_run hbody) counter k) fun _ =>
          ignores_assign hcounter _

theorem Program.ignores_run {x : String} (program : Program)
    (hx : Unmentioned x program.tokens) : program.run.Ignores x := by
  cases program with
  | done => exact ignores_pure ()
  | next statement semicolonLine rest =>
      have hparts : Unmentioned x statement.tokens ∧ Unmentioned x rest.tokens := by simp_all
      exact ignores_bind (statement.ignores_run hparts.1) fun _ => rest.ignores_run hparts.2

end

mutual

/-- Targets are mentioned. -/
theorem Statement.not_mem_targets {x : String} (statement : Statement)
    (hx : Unmentioned x statement.tokens) : x ∉ statement.targets := by
  cases statement with
  | loop forLine name line inLine first rangeLine last doLine body endLine closingLine =>
      have hparts : x ≠ name ∧ Unmentioned x body.tokens := by simp_all [eq_comm]
      rw [Statement.targets, List.mem_cons, not_or]
      exact ⟨hparts.1, body.not_mem_targets hparts.2⟩
  | declaration | assignment | reading =>
      simp_all [Statement.targets, eq_comm]
  | printing | assertion => exact List.not_mem_nil

theorem Program.not_mem_targets {x : String} (program : Program)
    (hx : Unmentioned x program.tokens) : x ∉ program.targets := by
  cases program with
  | done => exact List.not_mem_nil
  | next statement semicolonLine rest =>
      have hparts : Unmentioned x statement.tokens ∧ Unmentioned x rest.tokens := by simp_all
      rw [Program.targets, List.mem_append, not_or]
      exact ⟨statement.not_mem_targets hparts.1, rest.not_mem_targets hparts.2⟩

end

/-- The variables of a name that is not a target stay as they are, in all frames. -/
theorem Program.sameAt_run {y : String} (program : Program) (hy : y ∉ program.targets)
    {context : Context} (hwf : context.scopes.WellFormed) :
    context.scopes.SameAt y (program.run.outcome context).2.scopes :=
  (program.spares_run (n := 0) ⟨hwf.labelled, fun htarget => absurd htarget hy⟩).outer

/-! ## Whatever compiles -/

/-- A name that a text does not mention makes no difference to running it, and
what is held under this name, or under any name that is no target, is left alone. -/
theorem runIn_ignores_unmentioned {source : String} {tokens : List Token} {node : Node}
    (htokens : tokenize source = .ok tokens) (hcompile : compile source = .ok node) :
    (∀ x, Unmentioned x tokens → ∀ context context' : Context,
      context.scopes.WellFormed → context'.scopes.WellFormed → context.SameExcept x context' →
        ∃ after after' : Context,
          ((runIn source context = .ok () after ∧ runIn source context' = .ok () after') ∨
            ∃ error, runIn source context = .error (.error error) after ∧
              runIn source context' = .error (.error error) after') ∧
          after.SameExcept x after' ∧
          context.scopes.SameAt x after.scopes ∧ context'.scopes.SameAt x after'.scopes) ∧
    ∃ program : Program, node = program.tree ∧ ∀ y ∉ program.targets,
      ∀ context : Context, context.scopes.WellFormed →
        ∃ after, (runIn source).Ends context after ∧ context.scopes.SameAt y after.scopes := by
  obtain ⟨program, line, rest, rfl, hprogram⟩ := compile_eq_ok.mp hcompile
  obtain rfl : tokens = _ := Except.ok.inj (htokens.symm.trans hprogram)
  refine ⟨fun x hx context context' hwf hwf' hsame => ?_, program, rfl, fun y hy context hwf => ?_⟩
  · have hmentions : Unmentioned x program.tokens := (Unmentioned.append.mp hx).1
    obtain ⟨hresult, hafter⟩ := program.ignores_run hmentions context context'
      ⟨hsame, hwf.labelled⟩
    refine ⟨_, _, ?_, hafter.toSameExcept,
      program.sameAt_run (program.not_mem_targets hmentions) hwf,
      program.sameAt_run (program.not_mem_targets hmentions) hwf'⟩
    rw [runIn_of_compile hcompile hwf, runIn_of_compile hcompile hwf', toExec_apply, toExec_apply]
    -- both runs end the same way, so one case analysis settles the two of them
    generalize program.run.outcome context = outcome, program.run.outcome context' = outcome'
      at hresult
    obtain ⟨result, after⟩ := outcome
    obtain ⟨result', after'⟩ := outcome'
    obtain rfl : result = result' := hresult
    cases result with
    | ok _ => exact .inl ⟨rfl, rfl⟩
    | error error => exact .inr ⟨error, rfl, rfl⟩
  · refine ⟨_, ?_, program.sameAt_run hy hwf⟩
    rw [ExecOn.Ends, runIn_of_compile hcompile hwf, toExec_apply]
    rcases program.run.outcome context with ⟨error | _, after⟩
    · exact .inr ⟨error, rfl⟩
    · exact .inl rfl

theorem runIn_ignores_unmentioned_read :
    let source := "read n;print n;"
    let n : Variable := ⟨"n", 1, .int, none⟩
    let x : Variable := ⟨"x", 3, .bool, some (.bool true)⟩
    let context : Context := ⟨[[("n", n)]], .ofLines [.text "7"]⟩
    let context' : Context := ⟨[[("x", x), ("n", n)]], .ofLines [.text "7"]⟩
    ∃ tokens node, tokenize source = .ok tokens ∧ compile source = .ok node ∧
      Unmentioned "x" tokens ∧ context.scopes.WellFormed ∧ context'.scopes.WellFormed ∧
      context.SameExcept "x" context' ∧ ∃ after after' : Context, after.SameExcept "x" after' ∧
        context.scopes.SameAt "x" after.scopes ∧ context'.scopes.SameAt "x" after'.scopes := by
  intro source n x context context'
  let program : Program := .next (.reading 1 "n" 1) 1
    (.next (.printing 1 (.single (.name "n" 1))) 1 .done)
  have htokens : tokenize source = .ok (program.tokens ++ [⟨.endMarker, 1⟩]) := by cbv
  have hcompile : compile source = .ok program.tree :=
    compile_eq_ok.mpr ⟨program, 1, [], rfl, htokens⟩
  have hx : Unmentioned "x" (program.tokens ++ [⟨.endMarker, 1⟩]) := by simp [program]
  have hwf : context.scopes.WellFormed := by decide
  have hwf' : context'.scopes.WellFormed := by decide
  have hframe : Frame.SameExcept "x" [("n", n)] [("x", x), ("n", n)] := by
    intro name hname
    simp [Frame.get?, List.lookup_cons, beq_false_of_ne hname]
  have hsame : context.SameExcept "x" context' := ⟨.cons hframe .nil, rfl⟩
  obtain ⟨after, after', -, hafter, hkept, hkept'⟩ :=
    (runIn_ignores_unmentioned htokens hcompile).1 "x" hx context context' hwf hwf' hsame
  exact ⟨_, _, htokens, hcompile, hx, hwf, hwf', hsame, after, after', hafter, hkept, hkept'⟩

end Primer
