import Primer.Program.Typing
import Primer.Program.Meaning
import Primer.Proofs.Semantics.Scopes

/-!
# Values and static types

In scopes whose variables have the assumed types, an expression that has a
static type yields a value of this type, unless a variable has no value yet or
a quotient is none.

## Main results

* `Expression.yields_value` : what an expression with a static type yields.
-/

namespace Primer

/-! ## The types of variables -/

/-- The type of each variable of a frame, under its name. -/
def Frame.types (frame : Frame) : List (String × Ty) :=
  frame.map fun (name, v) => (name, v.ty)

/-- The assumptions that hold of the variables. -/
def Scopes.types (scopes : Scopes) : Assumptions := scopes.map Frame.types

namespace Frame

theorem lookup_types (frame : Frame) (name : String) :
    frame.types.lookup name = (frame.get? name).map Variable.ty := by
  induction frame with
  | nil => rfl
  | cons binding frame ih =>
      obtain ⟨bound, v⟩ := binding
      simp only [get?, types, List.map_cons, List.lookup_cons] at ih ⊢
      cases name == bound with
      | true => rfl
      | false => exact ih

theorem Evolves.types {frame frame' : Frame} (hevolves : frame.Evolves frame') :
    frame'.types = frame.types := by
  induction hevolves with
  | nil => rfl
  | cons hbinding _ ih =>
      simp only [Frame.types, List.map_cons] at ih ⊢
      rw [ih, hbinding.1, hbinding.2.ty]

end Frame

namespace Scopes

theorem typeOf?_types (scopes : Scopes) (name : String) :
    scopes.types.typeOf? name = (scopes.resolve? name).map Variable.ty := by
  induction scopes with
  | nil => rfl
  | cons frame frames ih =>
      simp only [Assumptions.typeOf?, resolve?, types, List.map_cons, List.findSome?_cons,
        Frame.lookup_types] at ih ⊢
      cases frame.get? name with
      | none => exact ih
      | some v => rfl

/-- Types stay as they are where nothing is declared. -/
theorem Evolves.types {scopes scopes' : Scopes} (hevolves : Evolves [] scopes scopes') :
    scopes'.types = scopes.types := by
  have hframes := hevolves.forall₂
  clear hevolves
  induction hframes with
  | nil => rfl
  | cons hframe _ ih =>
      simp only [Scopes.types, List.map_cons] at ih ⊢
      rw [ih, hframe.types]

end Scopes

/-! ## Expressions -/

/-- A result with a property, or an error that depends on the values of
variables and not on their types. -/
inductive Yields {α : Type} (property : α → Prop) : Except Error α → Prop
  | value {a : α} (ha : property a) : Yields property (.ok a)
  | uninitialized (line : Nat) (name : String) : Yields property (.error (.uninitialized line name))
  | arithmeticFault (line : Nat) : Yields property (.error (.arithmeticFault line))

theorem Yields.bind {α β : Type} {property : α → Prop} {property' : β → Prop}
    {result : Except Error α} {f : α → Except Error β} (hresult : Yields property result)
    (hf : ∀ a, property a → Yields property' (f a)) : Yields property' (result >>= f) := by
  cases hresult with
  | value ha => exact hf _ ha
  | uninitialized line name => exact .uninitialized line name
  | arithmeticFault line => exact .arithmeticFault line

theorem Operator.yields_apply {operator : Operator} {left right : Value} {ty : Ty}
    (htype : operator.resultType? left.ty right.ty = some ty) (line : Nat) :
    Yields (fun value => value.ty = ty) (operator.apply line left right) := by
  cases operator <;> cases left <;> cases right <;> cases htype
  case divide.int.int dividend divisor =>
    rw [apply]
    cases exactQuotient? dividend.toInt divisor.toInt with
    | none => exact .arithmeticFault line
    | some q => exact .value rfl
  all_goals exact .value rfl

section Values

variable {scopes : Scopes} {ty : Ty}

theorem Scopes.yields_valueOf (hwf : scopes.WellFormed) {name : String}
    (htype : scopes.types.typeOf? name = some ty) (line : Nat) :
    Yields (fun value => value.ty = ty) (scopes.valueOf name line) := by
  rw [typeOf?_types] at htype
  obtain ⟨v, hresolve, rfl⟩ := Option.map_eq_some_iff.mp htype
  have hv : v.WellTyped := (hwf.resolve? hresolve).2
  simp only [valueOf, hresolve, Variable.valueAt]
  cases hvalue : v.value? with
  | none => exact .uninitialized line v.name
  | some value => exact .value (hv value hvalue)

mutual

theorem Operand.yields_value (hwf : scopes.WellFormed) (operand : Operand) {ty : Ty}
    (htype : operand.type? scopes.types = some ty) :
    Yields (fun value => value.ty = ty) (operand.value scopes) := by
  cases operand with
  | literal value line =>
      cases htype
      exact .value rfl
  | name name line => exact Scopes.yields_valueOf hwf htype line
  | group openLine inner closeLine => exact inner.yields_value hwf htype

theorem Expression.yields_value (hwf : scopes.WellFormed) (source : Expression) {ty : Ty}
    (htype : source.type? scopes.types = some ty) :
    Yields (fun value => value.ty = ty) (source.value scopes) := by
  cases source with
  | negation line operand =>
      rw [Expression.type?] at htype
      split at htype
      · next hoperand =>
          cases htype
          refine (operand.yields_value hwf hoperand).bind fun value hvalue => ?_
          -- the check has made the operand a truth value
          cases value with
          | bool b => exact .value rfl
          | int i => cases hvalue
          | string content => cases hvalue
      · cases htype
  | single operand => exact operand.yields_value hwf htype
  | operation left operator line right =>
      obtain ⟨leftType, hleft, hright⟩ := Option.bind_eq_some_iff.mp htype
      obtain ⟨rightType, hright, hresult⟩ := Option.bind_eq_some_iff.mp hright
      refine (left.yields_value hwf hleft).bind fun l hl => ?_
      refine (right.yields_value hwf hright).bind fun r hr => ?_
      subst hl hr
      exact Operator.yields_apply hresult line

end

theorem Expression.yields_valueOfType (hwf : scopes.WellFormed) {source : Expression}
    (htype : source.type? scopes.types = some ty) (line : Nat) :
    Yields (fun value => value.ty = ty) (source.valueOfType scopes ty line) := by
  refine (source.yields_value hwf htype).bind fun value hvalue => ?_
  rw [if_pos hvalue]
  exact .value hvalue

theorem Expression.yields_bound (hwf : scopes.WellFormed) {source : Expression}
    (htype : source.type? scopes.types = some .int) :
    Yields (fun _ => True) (source.bound scopes) := by
  refine (source.yields_value hwf htype).bind fun value hvalue => ?_
  cases value with
  | int i => exact .value trivial
  | string content => cases hvalue
  | bool b => cases hvalue

end Values

end Primer
