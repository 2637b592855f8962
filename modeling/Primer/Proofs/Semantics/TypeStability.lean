import Mathlib
import Primer.Proofs.Semantics.Refinement
import Primer.Proofs.Semantics.Types

/-!
# Types depend on declarations only

Types are found while expressions are evaluated, but no value has an influence on
them.  An expression that has a value in some scopes has a static type there,
that of the value (`Expression.type?_of_value`), and the static type depends on
the declared types of the names alone (`Expression.type?_congr`).  So in all
scopes with these types, it yields a value of the type, or a fault that depends
on values: a variable without one, or a quotient that is none.

## Main results

* `Expression.yields_type_of_value` : two scopes with the same declared types.
* `evaluate_type_stable` : the expressions of whatever compiles.
-/

namespace Primer

/-! ## Values have the static type -/

theorem Operator.resultType?_of_apply {operator : Operator} {line : Nat} {left right value : Value}
    (hvalue : operator.apply line left right = .ok value) :
    operator.resultType? left.ty right.ty = some value.ty := by
  cases operator with
  | divide =>
      cases left <;> cases right
      case int.int dividend divisor =>
        rw [apply] at hvalue
        cases hquotient : exactQuotient? dividend.toInt divisor.toInt with
        | none =>
            rw [hquotient] at hvalue
            cases hvalue
        | some q =>
            rw [hquotient] at hvalue
            cases hvalue
            rfl
      all_goals cases hvalue
  | _ => cases left <;> cases right <;> cases hvalue <;> rfl

section Values

variable {scopes : Scopes} {value : Value}

theorem Scopes.typeOf?_of_valueOf (hwf : scopes.WellFormed) {name : String} {line : Nat}
    (hvalue : scopes.valueOf name line = .ok value) :
    scopes.types.typeOf? name = some value.ty := by
  rw [typeOf?_types]
  unfold valueOf at hvalue
  cases hresolve : scopes.resolve? name with
  | none =>
      rw [hresolve] at hvalue
      cases hvalue
  | some v =>
      have hv : v.WellTyped := (hwf.resolve? hresolve).2
      simp only [hresolve, Variable.valueAt] at hvalue
      -- a held value has the declared type, which is what well-formedness says of the variable
      cases hheld : v.value? with
      | none =>
          rw [hheld] at hvalue
          cases hvalue
      | some held =>
          rw [hheld] at hvalue
          cases hvalue
          rw [Option.map_some, hv value hheld]

mutual

theorem Operand.type?_of_value (hwf : scopes.WellFormed) (operand : Operand) {value : Value}
    (hvalue : operand.value scopes = .ok value) :
    operand.type? scopes.types = some value.ty := by
  cases operand with
  | literal literal line =>
      cases hvalue
      rfl
  | name name line => exact Scopes.typeOf?_of_valueOf hwf hvalue
  | group openLine inner closeLine => exact inner.type?_of_value hwf hvalue

theorem Expression.type?_of_value (hwf : scopes.WellFormed) (source : Expression) {value : Value}
    (hvalue : source.value scopes = .ok value) :
    source.type? scopes.types = some value.ty := by
  cases source with
  | negation line operand =>
      obtain ⟨held, hoperand, hheld⟩ := exists_of_bind_eq_ok hvalue
      have htype := operand.type?_of_value hwf hoperand
      -- a negation that gave a value had a truth value as its operand
      cases held with
      | bool b =>
          cases hheld
          rw [Expression.type?, htype]
          rfl
      | int i => cases hheld
      | string content => cases hheld
  | single operand => exact operand.type?_of_value hwf hvalue
  | operation left operator line right =>
      obtain ⟨l, hleft, hrest⟩ := exists_of_bind_eq_ok hvalue
      obtain ⟨r, hright, hresult⟩ := exists_of_bind_eq_ok hrest
      rw [Expression.type?, left.type?_of_value hwf hleft, right.type?_of_value hwf hright]
      exact Operator.resultType?_of_apply hresult

end

end Values

/-! ## Static types depend on declared types -/

section Assumptions

variable {assumptions assumptions' : Assumptions}

mutual

theorem Operand.type?_congr (hsame : ∀ name, assumptions.typeOf? name = assumptions'.typeOf? name)
    (operand : Operand) : operand.type? assumptions = operand.type? assumptions' := by
  cases operand with
  | literal value line => rfl
  | name name line => exact hsame name
  | group openLine inner closeLine => exact inner.type?_congr hsame

theorem Expression.type?_congr
    (hsame : ∀ name, assumptions.typeOf? name = assumptions'.typeOf? name)
    (source : Expression) : source.type? assumptions = source.type? assumptions' := by
  cases source with
  | negation line operand => rw [Expression.type?, Expression.type?, operand.type?_congr hsame]
  | single operand => exact operand.type?_congr hsame
  | operation left operator line right =>
      rw [Expression.type?, Expression.type?, left.type?_congr hsame, right.type?_congr hsame]

end

end Assumptions

/-! ## Two scopes -/

namespace Scopes

/-- Every name is declared with the same type in both scopes, or in neither. -/
def SameTypes (scopes scopes' : Scopes) : Prop :=
  ∀ name, (scopes.resolve? name).map Variable.ty = (scopes'.resolve? name).map Variable.ty

theorem SameTypes.typeOf?_types {scopes scopes' : Scopes} (hsame : scopes.SameTypes scopes')
    (name : String) : scopes.types.typeOf? name = scopes'.types.typeOf? name := by
  rw [Scopes.typeOf?_types, Scopes.typeOf?_types, hsame name]

end Scopes

theorem Expression.yields_type_of_value {scopes scopes' : Scopes} (hwf : scopes.WellFormed)
    (hwf' : scopes'.WellFormed) (hsame : scopes.SameTypes scopes') {source : Expression}
    {value : Value} (hvalue : source.value scopes = .ok value) :
    Yields (fun value' => value'.ty = value.ty) (source.value scopes') := by
  apply source.yields_value hwf'
  calc source.type? scopes'.types
      = source.type? scopes.types := (source.type?_congr hsame.typeOf?_types).symm
    _ = some value.ty := source.type?_of_value hwf hvalue

/-! ## Whatever compiles -/

/-- If an expression of a text that compiles has a value in one context, it has a
value of the same type in every context with the same declared types, unless it
has a faulty quotient there or uses a variable without a value. -/
theorem evaluate_type_stable {source : String} {node : Node} (hcompile : compile source = .ok node)
    {action : Action} {children : List Node} (hpart : .deferred action children ∈ node.parts)
    (hvalue : action.hasValue = true) {context context' after : Context}
    (hwf : context.scopes.WellFormed) (hwf' : context'.scopes.WellFormed)
    (hsame : context.scopes.SameTypes context'.scopes) {value : Value}
    (hevaluate : evaluate (.deferred action children) context = .ok value after) :
    (∃ value', evaluate (.deferred action children) context' = .ok value' context' ∧
      value'.ty = value.ty) ∨
    (∃ line, evaluate (.deferred action children) context' =
      .error (.error (.arithmeticFault line)) context') ∨
    ∃ line name, evaluate (.deferred action children) context' =
      .error (.error (.uninitialized line name)) context' := by
  obtain ⟨program, -, -, rfl, -⟩ := compile_eq_ok.mp hcompile
  obtain ⟨expression, hlaw⟩ := program.exists_evaluate_eq hpart hvalue
  rw [hlaw, Exec.ofExcept_eq_ok] at hevaluate
  have hyields := Expression.yields_type_of_value hwf hwf' hsame hevaluate.1
  rw [hlaw]
  -- an expression leaves its context alone, so only the result is left to look at
  generalize expression.value context'.scopes = result at hyields ⊢
  cases hyields with
  | value hty => exact .inl ⟨_, rfl, hty⟩
  | arithmeticFault line => exact .inr (.inl ⟨line, rfl⟩)
  | uninitialized line name => exact .inr (.inr ⟨line, name, rfl⟩)

/-- A quotient of integers in one context, and none in another one in which the
variable is held by a frame further outside. -/
theorem evaluate_type_stable_division :
    let source := "print 6/n;"
    let context : Context := ⟨[[("n", ⟨"n", 1, .int, some (.int 2)⟩)]], .ofLines []⟩
    let context' : Context := ⟨[[], [("n", ⟨"n", 7, .int, some (.int 0)⟩)]], .ofLines []⟩
    ∃ node children, compile source = .ok node ∧ .deferred .operation children ∈ node.parts ∧
      Action.operation.hasValue = true ∧ context.scopes.WellFormed ∧ context'.scopes.WellFormed ∧
      context.scopes.SameTypes context'.scopes ∧
      evaluate (.deferred .operation children) context = .ok (.int 3) context ∧
      ((∃ value', evaluate (.deferred .operation children) context' = .ok value' context' ∧
        value'.ty = .int) ∨
      (∃ line, evaluate (.deferred .operation children) context' =
        .error (.error (.arithmeticFault line)) context') ∨
      ∃ line name, evaluate (.deferred .operation children) context' =
        .error (.error (.uninitialized line name)) context') := by
  intro source context context'
  let quotient : Expression := .operation (.literal (.int 6) 1) .divide 1 (.name "n" 1)
  let program : Program := .next (.printing 1 quotient) 1 .done
  have hcompile : compile source = .ok program.tree :=
    compile_eq_ok.mpr ⟨program, 1, [], rfl, by cbv⟩
  have hpart : quotient.tree ∈ program.tree.parts := by
    simp [Program.tree, Program.occurrences, Node.parts, Node.partsOfAll, program, Statement.tree,
      quotient, Expression.tree]
  have hwf : context.scopes.WellFormed := by decide
  have hwf' : context'.scopes.WellFormed := by decide
  have hsame : context.scopes.SameTypes context'.scopes := by
    intro name
    simp only [context, context', Scopes.resolve?, List.findSome?_cons, Frame.get?,
      List.lookup_cons, List.lookup_nil]
    cases name == "n" <;> rfl
  have hevaluate : evaluate quotient.tree context = .ok (.int 3) context := rfl
  exact ⟨program.tree, _, hcompile, hpart, rfl, hwf, hwf', hsame, hevaluate,
    evaluate_type_stable hcompile hpart rfl hwf hwf' hsame hevaluate⟩

end Primer
