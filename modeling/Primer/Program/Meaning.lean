import Primer.Program
import Primer.Context

/-!
# The meaning of abstract programs

What programs do, by recursion on their structure.  Expressions are functions
of the scopes alone: they change nothing and print nothing.  Statements turn a
context into another one, or end in an error with the context as it is then.

Integer operators are described through the integers: a result is the one that
is congruent to the exact result modulo `2 ^ 64`, and a quotient that does not
fit is a fault.
-/

namespace Primer

/-! ## Expressions -/

namespace Operator

/-- The quotient of exact integers toward zero, if it exists and fits a word. -/
def exactQuotient? (dividend divisor : Int) : Option Int64 :=
  if divisor = 0 then none else Decimal.word? (dividend.tdiv divisor)

/-- The value of an operator on a line, applied to the values of its operands. -/
def apply (operator : Operator) (line : Nat) (left right : Value) : Except Error Value :=
  match operator, left, right with
  | .add, .int l, .int r => .ok (.int (.ofInt (l.toInt + r.toInt)))
  | .subtract, .int l, .int r => .ok (.int (.ofInt (l.toInt - r.toInt)))
  | .multiply, .int l, .int r => .ok (.int (.ofInt (l.toInt * r.toInt)))
  | .divide, .int l, .int r =>
      match exactQuotient? l.toInt r.toInt with
      | some q => .ok (.int q)
      | none => .error (.arithmeticFault line)
  | .less, .int l, .int r => .ok (.bool (decide (l.toInt < r.toInt)))
  | .add, .string l, .string r => .ok (.string (l ++ r))
  | .both, .bool l, .bool r => .ok (.bool (l && r))
  | operator, left, right =>
      if left.ty ≠ right.ty then .error (.typeMismatch line left.ty right.ty)
      else if operator = .equal then .ok (.bool (decide (left = right)))
      else .error (.unsupportedOperator line left.ty (.symbol operator.symbol))

end Operator

/-- The value of a name used on a line. -/
def Scopes.valueOf (scopes : Scopes) (name : String) (line : Nat) : Except Error Value :=
  match scopes.resolve? name with
  | none => .error (.undefinedVariable line name)
  | some v => v.valueAt line

mutual

/-- The value of an operand, or the error in finding it. -/
def Operand.value (scopes : Scopes) : Operand → Except Error Value
  | .literal value _ => .ok value
  | .name name line => scopes.valueOf name line
  | .group _ inner _ => inner.value scopes

/-- The value of an expression.  The left operand comes first, so its error does too. -/
def Expression.value (scopes : Scopes) : Expression → Except Error Value
  | .negation line operand => do
      match ← operand.value scopes with
      | .bool b => return .bool !b
      | value => throw (.unsupportedOperator line value.ty (.symbol .exclamation))
  | .single operand => operand.value scopes
  | .operation left operator line right => do
      let l ← left.value scopes
      let r ← right.value scopes
      operator.apply line l r

end

mutual

/-- The line of the first token of an operand. -/
def Operand.firstLine : Operand → Nat
  | .literal _ line | .name _ line | .group line _ _ => line

/-- The line of the first token of an expression. -/
def Expression.firstLine : Expression → Nat
  | .negation line _ => line
  | .single operand | .operation operand _ _ _ => operand.firstLine

end

/-- The value of an expression of which the type is given; another type is an
error on `line`. -/
def Expression.valueOfType (scopes : Scopes) (ty : Ty) (line : Nat) (source : Expression) :
    Except Error Value := do
  let value ← source.value scopes
  if value.ty = ty then return value else throw (.typeMismatch line ty value.ty)

/-- The bound that an expression gives to a loop. -/
def Expression.bound (scopes : Scopes) (source : Expression) : Except Error Int64 := do
  match ← source.value scopes with
  | .int i => return i
  | value => throw (.typeMismatch source.firstLine .int value.ty)

/-! ## Statements -/

/-- Context transformers that can end in an error. -/
abbrev Run := ExceptT Error (StateM Context)

namespace Run

/-- The value of a function of the scopes. -/
def ofScopes {α : Type} (f : Scopes → Except Error α) : Run α := do
  MonadExcept.ofExcept (f (← get).scopes)

/-- Replaces the scopes by a function of them. -/
def changeScopes (f : Scopes → Scopes) : Run Unit :=
  modify fun context => { context with scopes := f context.scopes }

/-- The variable that a name refers to on a line. -/
def resolve (name : String) (line : Nat) : Run Variable := do
  match (← get).scopes.resolve? name with
  | none => throw (.undefinedVariable line name)
  | some v => return v

/-- Gives a variable that was resolved before a new value. -/
def assign (v : Variable) (value : Value) : Run Unit :=
  changeScopes fun scopes => (scopes.update? { v with value? := some value }).getD scopes

/-- Declares a variable in the innermost frame. -/
def declare (v : Variable) : Run Unit := do
  match (← get).scopes with
  | [] => return ()
  | frame :: frames =>
      match frame.get? v.name with
      | some previous => throw (.alreadyDefined v.line v.name previous.line)
      | none => changeScopes fun _ => frame.bind v :: frames

/-- The next line of input, for a statement on `line`. -/
def readLine (line : Nat) : Run String := do
  let (line?, console) := (← get).console.read?
  modify fun context => { context with console }
  match line? with
  | none => throw (.inputExhausted line)
  | some .undecodable => throw .undecodableInput
  | some (.text content) => return content

/-- Runs the body of a loop with `i` as its counter, in a frame that holds
nothing but a copy of the counter and is dropped however the body ends. -/
def withCounter (counter : Variable) (i : Int64) (body : Run Unit) : Run Unit := do
  let copy := { counter with value? := some (.int i) }
  changeScopes fun scopes => [(copy.name, copy)] :: scopes
  try body
  finally changeScopes List.tail

end Run

/-- The integers from `first` to `last`, both included. -/
def integersBetween (first last : Int64) : List Int64 :=
  (List.range (last.toInt + 1 - first.toInt).toNat).map fun k : Nat => .ofInt (first.toInt + k)

mutual

/-- What a statement does to a context, up to the error in which it ends. -/
def Statement.run : Statement → Run Unit
  | .declaration line name _ _ ty _ none => Run.declare ⟨name, line, ty, none⟩
  | .declaration line name _ _ ty _ (some ⟨_, source⟩) => do
      let value ← Run.ofScopes (source.valueOfType · ty line)
      Run.declare ⟨name, line, ty, some value⟩
  | .assignment name line _ source => do
      let v ← Run.resolve name line
      let value ← Run.ofScopes (source.valueOfType · v.ty source.firstLine)
      Run.assign v value
  | .printing _ source => do
      let value ← Run.ofScopes source.value
      modify fun context => { context with console := context.console.print value }
  | .reading line name _ => do
      let v ← Run.resolve name line
      match v.ty with
      | .int =>
          let input ← Run.readLine line
          match Decimal.read? input with
          | some i => Run.assign v (.int i)
          | none => throw (.notAnInteger line input)
      | .string =>
          let input ← Run.readLine line
          Run.assign v (.string input)
      | .bool => throw (.unreadableType line .bool)
  | .assertion line _ condition _ => do
      match ← Run.ofScopes condition.value with
      | .bool true => return ()
      | .bool false => throw (.assertionFailed line)
      | value => throw (.typeMismatch line .bool value.ty)
  | .loop _ name line _ first _ last _ body _ _ => do
      let i ← Run.ofScopes first.bound
      let j ← Run.ofScopes last.bound
      let counter ← Run.resolve name line
      if counter.ty ≠ .int then throw (.typeMismatch line .int counter.ty)
      Run.assign counter (.int i)
      (integersBetween i j).forM fun k => do
        Run.withCounter counter k body.run
        Run.assign counter (.int (.ofInt (k.toInt + 1)))

/-- What a program does: its statements in turn, up to the first one that fails. -/
def Program.run : Program → Run Unit
  | .done => return ()
  | .next statement _ rest => do
      statement.run
      rest.run

end

end Primer
