import Primer.Error

/-!
# Operators

Both operands of an operator must have one type, and the operator must accept
that type:

| operator  | operands | result |                              |
|-----------|----------|--------|------------------------------|
| `+ - *`   | int      | int    | modulo `2 ^ 64`              |
| `/`       | int      | int    | toward zero, a fault on none |
| `<`       | int      | bool   |                              |
| `+`       | string   | string | concatenation                |
| `&`       | bool     | bool   | both operands are evaluated  |
| `=`       | any      | bool   |                              |
| `!`       | bool     | bool   | with one operand only        |
-/

namespace Primer

/-- The quotient rounded toward zero, if there is one that fits a word. -/
def quotient? (dividend divisor : Int64) : Option Int64 :=
  if divisor = 0 ∨ (dividend = Int64.minValue ∧ divisor = -1) then none
  else some (dividend / divisor)

/-- The result of an operator on operands of one type; `none` where the
operator does not accept the type. -/
def combine? (line : Nat) (operator : Kind) : Value → Value → Option (Except Error Value)
  | .int l, .int r =>
      match operator with
      | .symbol .plus => some (.ok (.int (l + r)))
      | .symbol .minus => some (.ok (.int (l - r)))
      | .symbol .star => some (.ok (.int (l * r)))
      | .symbol .slash =>
          match quotient? l r with
          | some q => some (.ok (.int q))
          | none => some (.error (.arithmeticFault line))
      | .symbol .less => some (.ok (.bool (decide (l < r))))
      | .symbol .equal => some (.ok (.bool (l == r)))
      | _ => none
  | .string l, .string r =>
      match operator with
      | .symbol .plus => some (.ok (.string (l ++ r)))
      | .symbol .equal => some (.ok (.bool (l == r)))
      | _ => none
  | .bool l, .bool r =>
      match operator with
      | .symbol .ampersand => some (.ok (.bool (l && r)))
      | .symbol .equal => some (.ok (.bool (l == r)))
      | _ => none
  | _, _ => none

/-- Applies the operator that a token stands for. -/
def applyOperator (left : Value) (operator : Token) (right : Value) : Except Error Value :=
  if left.ty = right.ty then
    (combine? operator.line operator.kind left right).getD
      (.error (.unsupportedOperator operator.line left.ty operator.kind))
  else .error (.typeMismatch operator.line left.ty right.ty)

/-- Applies the negation that a token stands for. -/
def applyNegation (operator : Token) : Value → Except Error Value
  | .bool b => .ok (.bool !b)
  | value => .error (.unsupportedOperator operator.line value.ty operator.kind)

end Primer
