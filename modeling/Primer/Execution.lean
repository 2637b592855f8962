import Primer.Grammar.Node
import Primer.Context
import Primer.Operator

/-!
# Running syntax trees

Expressions are evaluated and statements executed directly on the tree.
`perform` says what each action does with the children of its node; everything
it needs of them it reads off their shape, and children of another shape are
misuse.  The trees that the grammar produces always have the right shape.

Operands are evaluated before the operator is looked at, an initializer before
its variable is declared, and both bounds of a loop before its counter is
looked up, so these orders decide which of two errors is raised.
-/

namespace Primer

open Exec

variable {World : Type}

/-! ## Parts of the actions that do not run a child -/

/-- Raises a type error on `line` unless the value is of the type. -/
def expectType (ty : Ty) (value : Value) (line : Nat) : ExecOn World Unit :=
  if value.ty = ty then pure () else fail (.typeMismatch line ty value.ty)

/-- The value as a bound of a loop.  The error is on the line where the bound
starts, or on `line` if it has no token. -/
def asBound (bound : Node) (line : Nat) : Value → ExecOn World Int64
  | .int i => pure i
  | value => fail (.typeMismatch (bound.line?.getD line) .int value.ty)

/-- Reads a value for a variable: a numeral for an integer, the whole line for
a string. -/
def readValue [InputOutput World] (ty : Ty) (line : Nat) : ExecOn World Value :=
  match ty with
  | .int => do
      let input ← readLine line
      match Decimal.read? input with
      | some i => return .int i
      | none => fail (.notAnInteger line input)
  | .string => do
      let input ← readLine line
      return .string input
  | .bool => fail (.unreadableType line .bool)

/-- Runs the body of a loop for each of `count` counters from `i` on.  The body
sees a copy of the counter in a frame of its own; the variable outside is set
to the next counter after each run. -/
def iterate (body : ExecOn World Unit) (counter : Variable) (line : Nat) :
    Nat → Int64 → ExecOn World Unit
  | 0, _ => pure ()
  | count + 1, i => do
      let copy ← demand (counter.withValue? (.int i))
      inNewFrame do
        declare copy
        body
      -- whatever the body did to the variable outside, counting goes on from `i`
      let next ← demand (counter.withValue? (.int (i + 1)))
      update next line
      iterate body counter line count (i + 1)

/-- The number of integers from `first` to `last`, both included. -/
def rangeLength (first last : Int64) : Nat := (last.toInt - first.toInt + 1).toNat

/-- Runs the body of a loop whose counter is called `name` over a range. -/
def runLoop (name : String) (line : Nat) (first last : Int64) (body : ExecOn World Unit) :
    ExecOn World Unit := do
  let counter ← lookup name line
  if counter.ty = .int then
    let start ← demand (counter.withValue? (.int first))
    update start line
    iterate body counter line (rangeLength first last) first
  else fail (.typeMismatch line .int counter.ty)

/-! ## Evaluation and execution -/

variable [InputOutput World]

mutual

/-- The value of an expression. -/
def evaluate : Node → ExecOn World Value
  | .deferred action children => do
      let value? ← perform action children
      demand value?
  | .token _ | .list _ => throw .misuse

/-- Runs a node for its effect.  A list is run element by element. -/
def execute : Node → ExecOn World Unit
  | .deferred action children => do
      let _ ← perform action children
  | .list children => executeAll children
  | .token _ => throw .misuse

/-- Runs nodes in turn. -/
def executeAll : List Node → ExecOn World Unit
  | [] => pure ()
  | node :: nodes => do
      execute node
      executeAll nodes

/-- What an action does with its children, and the value it has, if any. -/
def perform : Action → List Node → ExecOn World (Option Value)
  | .statements, [] => return none
  | .statements, .list (statement :: _) :: occurrences => do
      execute statement
      perform .statements occurrences
  | .declaration, .token start :: .token name :: _ :: .token typeName :: .list [] :: _ => do
      let name ← demand name.lexeme.name?
      let ty ← demand typeName.lexeme.typeName?
      declare (.declared name start.line ty)
      return none
  | .declaration,
      .token start :: .token name :: _ :: .token typeName :: .list [_, initializer] :: _ => do
      let name ← demand name.lexeme.name?
      let ty ← demand typeName.lexeme.typeName?
      let value ← evaluate initializer
      expectType ty value start.line
      -- the type is checked before the name is found to be taken
      let v ← demand (Variable.make? name start.line ty (some value))
      declare v
      return none
  | .assignment, .token target :: children => do
      let name ← demand target.lexeme.name?
      -- an unknown target is an error whatever the source is
      let v ← lookup name target.line
      match children with
      | _ :: source :: _ => do
          let value ← evaluate source
          expectType v.ty value (source.line?.getD target.line)
          let v ← demand (v.withValue? value)
          update v target.line
          return none
      | _ => throw .misuse
  | .printing, _ :: source :: _ => do
      let value ← evaluate source
      print value
      return none
  | .reading, .token start :: .token target :: _ => do
      let name ← demand target.lexeme.name?
      let v ← lookup name start.line
      let value ← readValue v.ty start.line
      let v ← demand (v.withValue? value)
      update v start.line
      return none
  | .assertion, .token start :: _ :: condition :: _ => do
      match ← evaluate condition with
      | .bool true => return none
      | .bool false => fail (.assertionFailed start.line)
      | value => fail (.typeMismatch start.line .bool value.ty)
  | .loop, _ :: .token counter :: .token opening :: first :: children => do
      let value ← evaluate first
      let i ← asBound first opening.line value
      match children with
      | .token dots :: last :: children => do
          let value ← evaluate last
          let j ← asBound last dots.line value
          match children with
          | _ :: body :: _ => do
              let name ← demand counter.lexeme.name?
              -- an unknown counter is noticed only here, after both bounds were evaluated
              runLoop name counter.line i j (execute body)
              return none
          | _ => throw .misuse
      | _ => throw .misuse
  | .negation, .token operator :: operand :: _ => do
      let value ← evaluate operand
      let value ← ofExcept (applyNegation operator value)
      return some value
  | .operation, left :: children => do
      let leftValue ← evaluate left
      match children with
      | .list [] :: _ => return some leftValue
      | .list [operator, right] :: _ => do
          let rightValue ← evaluate right
          let operator ← demand operator.token?
          let value ← ofExcept (applyOperator leftValue operator rightValue)
          return some value
      | _ => throw .misuse
  | .constant, .token literal :: _ => do
      let value ← demand literal.lexeme.literal?
      return some value
  | .identifier, .token use :: _ => do
      let name ← demand use.lexeme.name?
      let v ← lookup name use.line
      let value ← ofExcept (v.valueAt use.line)
      return some value
  | .parenthesized, _ :: inner :: _ => do
      let value ← evaluate inner
      return some value
  | _, _ => throw .misuse

end

end Primer
