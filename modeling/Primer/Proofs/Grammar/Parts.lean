import Primer.Program

/-!
# Parts of syntax trees

A program consists of programs, statements, expressions and operands, and so
does its tree: every deferred node in it is the tree of one of these.  What is
proved of the runs of all statements therefore holds at every node at which a
statement stands, however deep in a loop.

## Main results

* `Program.constructed_tree` : what the deferred nodes of a program are.
* `Program.statement_of_mem_parts`, `Program.source_of_mem_parts` : those with
  the actions of statements are statements, those with a value are expressions
  or operands.
-/

namespace Primer

/-- Whether an action has a value, as those of expressions and operands have. -/
def Action.hasValue : Action → Bool
  | .negation | .operation | .constant | .identifier | .parenthesized => true
  | .statements | .declaration | .assignment | .printing | .reading | .assertion | .loop => false

namespace Node

mutual

/-- A node and all nodes below it. -/
def parts : Node → List Node
  | .token t => [.token t]
  | .list children => .list children :: partsOfAll children
  | .deferred action children => .deferred action children :: partsOfAll children

/-- The parts of several nodes. -/
def partsOfAll : List Node → List Node
  | [] => []
  | node :: nodes => parts node ++ partsOfAll nodes

end

/-- A node that does not wait to be run, or the tree of a part of a program. -/
inductive Construct : Node → Prop
  | token (t : Token) : Construct (.token t)
  | list (children : List Node) : Construct (.list children)
  | program (program : Program) : Construct program.tree
  | statement (statement : Statement) : Construct statement.tree
  | expression (expression : Expression) : Construct expression.tree
  | operand (operand : Operand) : Construct operand.tree

/-- Every part of the node is a token, a list or a construct. -/
def Constructed (node : Node) : Prop := ∀ part ∈ node.parts, part.Construct

/-- Every part of the nodes is a token, a list or a construct. -/
def AllConstructed (nodes : List Node) : Prop := ∀ part ∈ partsOfAll nodes, part.Construct

@[simp] theorem constructed_token (t : Token) : Constructed (.token t) := by
  simp [Constructed, parts, Construct.token]

@[simp] theorem constructed_list (children : List Node) :
    Constructed (.list children) ↔ AllConstructed children := by
  simp [Constructed, AllConstructed, parts, Construct.list]

@[simp] theorem allConstructed_nil : AllConstructed [] := fun _ hpart => nomatch hpart

@[simp] theorem allConstructed_cons (node : Node) (nodes : List Node) :
    AllConstructed (node :: nodes) ↔ node.Constructed ∧ AllConstructed nodes := by
  simp [Constructed, AllConstructed, partsOfAll, or_imp, forall_and]

theorem constructed_deferred {action : Action} {children : List Node}
    (hconstruct : Construct (.deferred action children)) (hchildren : AllConstructed children) :
    Constructed (.deferred action children) :=
  List.forall_mem_cons.mpr ⟨hconstruct, hchildren⟩

end Node

open Node

/-! ## Programs -/

mutual

theorem Operand.constructed_tree (operand : Operand) : operand.tree.Constructed := by
  have hconstruct := Construct.operand operand
  cases operand with
  | literal value line => exact constructed_deferred hconstruct (by simp)
  | name name line => exact constructed_deferred hconstruct (by simp [Node.name])
  | group openLine inner closeLine =>
      exact constructed_deferred hconstruct
        (by simp [Node.symbol, Expression.constructed_tree inner])

theorem Expression.constructed_tree (expression : Expression) : expression.tree.Constructed := by
  have hconstruct := Construct.expression expression
  cases expression with
  | negation line operand =>
      exact constructed_deferred hconstruct
        (by simp [Node.symbol, Operand.constructed_tree operand])
  | single operand =>
      exact constructed_deferred hconstruct (by simp [Operand.constructed_tree operand])
  | operation left operator line right =>
      exact constructed_deferred hconstruct
        (by simp [Node.symbol, Operand.constructed_tree left, Operand.constructed_tree right])

end

theorem Initializer.constructed_tree? (initializer? : Option Initializer) :
    (Initializer.tree? initializer?).Constructed := by
  cases initializer? <;> simp [Initializer.tree?, Node.symbol, Expression.constructed_tree]

mutual

theorem Statement.constructed_tree (statement : Statement) : statement.tree.Constructed := by
  have hconstruct := Construct.statement statement
  cases statement with
  | loop forLine name line inLine first rangeLine last doLine body endLine closingLine =>
      have hbody := body.constructed_tree
      rw [Program.tree] at hbody
      exact constructed_deferred hconstruct
        (by simp [Node.keyword, Node.name, Node.symbol, Expression.constructed_tree, hbody])
  | _ =>
      exact constructed_deferred hconstruct (by simp [Node.keyword, Node.name, Node.symbol,
        Expression.constructed_tree, Initializer.constructed_tree?])

theorem Program.constructed_tree (program : Program) : program.tree.Constructed :=
  constructed_deferred (Construct.program program) program.allConstructed_occurrences

theorem Program.allConstructed_occurrences (program : Program) :
    AllConstructed program.occurrences := by
  cases program with
  | done => simp [Program.occurrences]
  | next statement semicolonLine rest =>
      simp [Program.occurrences, Node.symbol, statement.constructed_tree,
        rest.allConstructed_occurrences]

end

section Parts

variable {program : Program} {action : Action} {children : List Node}

/-- The nodes of the single statements of a program are trees of statements. -/
theorem Program.statement_of_mem_parts (hpart : .deferred action children ∈ program.tree.parts)
    (hvalue : action.hasValue = false) (hsingle : action ≠ .statements) :
    ∃ statement : Statement, Node.deferred action children = statement.tree := by
  have hconstruct := program.constructed_tree _ hpart
  generalize hnode : Node.deferred action children = node at hconstruct ⊢
  -- apart from the program as a whole, only a statement has an action that gives no value
  cases hconstruct with
  | token | list => cases hnode
  | program =>
      cases hnode
      exact absurd rfl hsingle
  | statement statement => exact ⟨statement, rfl⟩
  | expression expression => cases expression <;> cases hnode <;> cases hvalue
  | operand operand => cases operand <;> cases hnode <;> cases hvalue

/-- The nodes that have a value are trees of expressions and operands. -/
theorem Program.source_of_mem_parts (hpart : .deferred action children ∈ program.tree.parts)
    (hvalue : action.hasValue = true) :
    (∃ source : Expression, Node.deferred action children = source.tree) ∨
      ∃ operand : Operand, Node.deferred action children = operand.tree := by
  have hconstruct := program.constructed_tree _ hpart
  generalize hnode : Node.deferred action children = node at hconstruct ⊢
  cases hconstruct with
  | token | list => cases hnode
  | program =>
      cases hnode
      cases hvalue
  | statement statement => cases statement <;> cases hnode <;> cases hvalue
  | expression source => exact .inl ⟨source, rfl⟩
  | operand operand => exact .inr ⟨operand, rfl⟩

/-- The nodes of the loops of a program are the trees of loops. -/
theorem Program.loop_of_mem_parts (hpart : .deferred .loop children ∈ program.tree.parts) :
    ∃ forLine name line inLine first rangeLine last doLine body endLine closingLine,
      Node.deferred .loop children = (Statement.loop forLine name line inLine first rangeLine last
        doLine body endLine closingLine).tree := by
  obtain ⟨statement, hnode⟩ := program.statement_of_mem_parts hpart rfl (by decide)
  cases statement with
  | loop => exact ⟨_, _, _, _, _, _, _, _, _, _, _, hnode⟩
  | declaration | assignment | printing | reading | assertion => cases hnode

end Parts

end Primer
