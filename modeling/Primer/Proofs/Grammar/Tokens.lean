import Primer.Program

/-!
# The tokens of abstract programs

What each way to write a construct stands for as a list of tokens.  `Program.tokens`
is defined as the leaves of a tree; the equations here are the grammar read
from left to right, and nothing about trees is needed after them.
-/

namespace Primer

/-- The tokens of an operand. -/
def Operand.tokens (operand : Operand) : List Token := operand.tree.leaves

/-- The tokens of an expression. -/
def Expression.tokens (expression : Expression) : List Token := expression.tree.leaves

/-- The tokens of a statement, without the semicolon after it. -/
def Statement.tokens (statement : Statement) : List Token := statement.tree.leaves

/-- The tokens of the optional part of a declaration. -/
def Initializer.tokens : Option Initializer → List Token
  | none => []
  | some ⟨line, source⟩ => ⟨.symbol .assign, line⟩ :: source.tokens

namespace Operand

@[simp] theorem tokens_literal (value : Value) (line : Nat) :
    (literal value line).tokens = [⟨value.lexeme, line⟩] := rfl

@[simp] theorem tokens_name (text : String) (line : Nat) :
    (name text line).tokens = [⟨.name text, line⟩] := rfl

@[simp] theorem tokens_group (openLine : Nat) (inner : Expression) (closeLine : Nat) :
    (group openLine inner closeLine).tokens =
      ⟨.symbol .leftParen, openLine⟩ :: (inner.tokens ++ [⟨.symbol .rightParen, closeLine⟩]) := rfl

end Operand

namespace Expression

@[simp] theorem tokens_negation (line : Nat) (operand : Operand) :
    (negation line operand).tokens = ⟨.symbol .exclamation, line⟩ :: operand.tokens := by
  simp [tokens, Operand.tokens, tree, Node.leaves, Node.leavesOfAll, Node.symbol]

@[simp] theorem tokens_single (operand : Operand) : (single operand).tokens = operand.tokens := by
  simp [tokens, Operand.tokens, tree, Node.leaves, Node.leavesOfAll]

@[simp] theorem tokens_operation (left : Operand) (operator : Operator) (line : Nat)
    (right : Operand) :
    (operation left operator line right).tokens =
      left.tokens ++ ⟨.symbol operator.symbol, line⟩ :: right.tokens := by
  simp [tokens, Operand.tokens, tree, Node.leaves, Node.leavesOfAll, Node.symbol]

end Expression

namespace Statement

@[simp] theorem tokens_declaration (line : Nat) (name : String) (nameLine colonLine : Nat)
    (ty : Ty) (tyLine : Nat) (initializer? : Option Initializer) :
    (declaration line name nameLine colonLine ty tyLine initializer?).tokens =
      ⟨.keyword .kwVar, line⟩ :: ⟨.name name, nameLine⟩ :: ⟨.symbol .colon, colonLine⟩ ::
        ⟨.typeName ty, tyLine⟩ :: Initializer.tokens initializer? := by
  -- the tree of the optional part has two shapes, so this equation is no computation
  cases initializer? <;>
    simp [tokens, Initializer.tokens, Expression.tokens, tree, Initializer.tree?, Node.leaves,
      Node.leavesOfAll, Node.symbol, Node.keyword, Node.name]

@[simp] theorem tokens_assignment (name : String) (line assignLine : Nat) (source : Expression) :
    (assignment name line assignLine source).tokens =
      ⟨.name name, line⟩ :: ⟨.symbol .assign, assignLine⟩ :: source.tokens := by
  simp [tokens, Expression.tokens, tree, Node.leaves, Node.leavesOfAll, Node.symbol, Node.name]

@[simp] theorem tokens_printing (line : Nat) (source : Expression) :
    (printing line source).tokens = ⟨.keyword .kwPrint, line⟩ :: source.tokens := by
  simp [tokens, Expression.tokens, tree, Node.leaves, Node.leavesOfAll, Node.keyword]

@[simp] theorem tokens_reading (line : Nat) (name : String) (nameLine : Nat) :
    (reading line name nameLine).tokens = [⟨.keyword .kwRead, line⟩, ⟨.name name, nameLine⟩] := rfl

@[simp] theorem tokens_assertion (line openLine : Nat) (condition : Expression) (closeLine : Nat) :
    (assertion line openLine condition closeLine).tokens =
      ⟨.keyword .kwAssert, line⟩ :: ⟨.symbol .leftParen, openLine⟩ ::
        (condition.tokens ++ [⟨.symbol .rightParen, closeLine⟩]) := rfl

@[simp] theorem tokens_loop (forLine : Nat) (counter : String) (line inLine : Nat)
    (first : Expression) (rangeLine : Nat) (last : Expression) (doLine : Nat) (body : Program)
    (endLine closingLine : Nat) :
    (loop forLine counter line inLine first rangeLine last doLine body endLine closingLine).tokens =
      ⟨.keyword .kwFor, forLine⟩ :: ⟨.name counter, line⟩ :: ⟨.keyword .kwIn, inLine⟩ ::
        (first.tokens ++ ⟨.symbol .range, rangeLine⟩ :: (last.tokens ++ ⟨.keyword .kwDo, doLine⟩ ::
          (body.tokens ++ [⟨.keyword .kwEnd, endLine⟩, ⟨.keyword .kwFor, closingLine⟩]))) := rfl

end Statement

namespace Program

@[simp] theorem tokens_done : done.tokens = [] := rfl

@[simp] theorem tokens_next (statement : Statement) (semicolonLine : Nat) (rest : Program) :
    (next statement semicolonLine rest).tokens =
      statement.tokens ++ ⟨.symbol .semicolon, semicolonLine⟩ :: rest.tokens := by
  simp [tokens, Statement.tokens, tree, occurrences, Node.leaves, Node.leavesOfAll, Node.symbol]

end Program

end Primer
