import Primer.Text.Decimal

/-!
# Types and values

The language has three types.  A value carries its type as its constructor, so
the type of a value is never in doubt and every type error is found by
comparing two `Ty`s.
-/

namespace Primer

/-- The types a variable can be declared with. -/
inductive Ty
  | int
  | string
  | bool
  deriving DecidableEq, Repr

/-- The type name as it is written in programs and in messages. -/
def Ty.spelling : Ty → String
  | .int => "int"
  | .string => "string"
  | .bool => "bool"

/-- What an expression evaluates to.  Integers are 64-bit words in two's
complement, since the language's `+`, `-` and `*` wrap. -/
inductive Value
  | int (i : Int64)
  | string (s : String)
  | bool (b : Bool)
  deriving DecidableEq, Repr

namespace Value

/-- The type of a value. -/
def ty : Value → Ty
  | .int _ => .int
  | .string _ => .string
  | .bool _ => .bool

/-- The text that `print` writes: no quotes around strings, no line break. -/
def text : Value → String
  | .int i => Decimal.write i
  | .string s => s
  | .bool true => "true"
  | .bool false => "false"

@[simp] theorem ty_int (i : Int64) : (Value.int i).ty = .int := rfl

@[simp] theorem ty_string (s : String) : (Value.string s).ty = .string := rfl

@[simp] theorem ty_bool (b : Bool) : (Value.bool b).ty = .bool := rfl

end Value

end Primer
