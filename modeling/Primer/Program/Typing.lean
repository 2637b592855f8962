import Primer.Program

/-!
# Static types

The types of expressions under assumptions about the variables, and the check
of whole programs.  The assumptions have the shape of the scopes of a run: a
frame for each frame, innermost first, with the type of each variable in place
of the variable.
-/

namespace Primer

/-! ## Assumptions -/

/-- The types of the names declared in each frame. -/
abbrev Assumptions := List (List (String × Ty))

namespace Assumptions

/-- The type of the variable that a name refers to. -/
def typeOf? (assumptions : Assumptions) (name : String) : Option Ty :=
  assumptions.findSome? fun frame => frame.lookup name

/-- Declares a name that the innermost frame does not hold. -/
def declare? : Assumptions → String → Ty → Option Assumptions
  | [], _, _ => none
  | frame :: frames, name, ty =>
      match frame.lookup name with
      | some _ => none
      | none => some (((name, ty) :: frame) :: frames)

end Assumptions

/-! ## Expressions -/

/-- The type of the result of an operator on operands of the given types. -/
def Operator.resultType? : Operator → Ty → Ty → Option Ty
  | .add, .int, .int | .subtract, .int, .int | .multiply, .int, .int | .divide, .int, .int =>
      some .int
  | .less, .int, .int => some .bool
  | .add, .string, .string => some .string
  | .both, .bool, .bool => some .bool
  | .equal, left, right => if left = right then some .bool else none
  | _, _, _ => none

mutual

/-- The type of an operand, if it has one. -/
def Operand.type? (assumptions : Assumptions) : Operand → Option Ty
  | .literal value _ => some value.ty
  | .name name _ => assumptions.typeOf? name
  | .group _ inner _ => inner.type? assumptions

/-- The type of an expression, if it has one. -/
def Expression.type? (assumptions : Assumptions) : Expression → Option Ty
  | .negation _ operand =>
      match operand.type? assumptions with
      | some .bool => some .bool
      | _ => none
  | .single operand => operand.type? assumptions
  | .operation left operator _ right => do
      operator.resultType? (← left.type? assumptions) (← right.type? assumptions)

end

/-! ## Programs -/

mutual

/-- The assumptions after a statement, if it checks under those before it. -/
def Statement.check? (assumptions : Assumptions) : Statement → Option Assumptions
  | .declaration _ name _ _ ty _ none => assumptions.declare? name ty
  | .declaration _ name _ _ ty _ (some ⟨_, source⟩) =>
      if source.type? assumptions = some ty then assumptions.declare? name ty else none
  | .assignment name _ _ source => do
      let ty ← assumptions.typeOf? name
      if source.type? assumptions = some ty then some assumptions else none
  | .printing _ source => (source.type? assumptions).map fun _ => assumptions
  | .reading _ name _ =>
      match assumptions.typeOf? name with
      | some .int | some .string => some assumptions
      | _ => none
  | .assertion _ _ condition _ =>
      if condition.type? assumptions = some .bool then some assumptions else none
  | .loop _ counter _ _ first _ last _ body _ _ =>
      if first.type? assumptions = some .int ∧ last.type? assumptions = some .int ∧
          assumptions.typeOf? counter = some .int then
        (body.check? ([(counter, .int)] :: assumptions)).map fun _ => assumptions
      else none

/-- The assumptions after a program, if all of its statements check. -/
def Program.check? (assumptions : Assumptions) : Program → Option Assumptions
  | .done => some assumptions
  | .next statement _ rest => do
      rest.check? (← statement.check? assumptions)

end

end Primer
