import Primer.Grammar.Node

/-!
# Abstract programs

The grammar as a family of types: one constructor for each way to write a
construct, holding what the text leaves open and the line of every token.  A
program determines its tokens and its syntax tree, and no two programs have the
same tokens.

    statements = ( statement ";" )*
    expression = "!" operand | operand [ operator operand ]
    operand    = literal | name | "(" expression ")"

The trees of programs are the trees that parsing yields, so what is proved of
the trees of programs holds for everything that can be run.
-/

namespace Primer

/-! ## Operators -/

/-- The operators with two operands. -/
inductive Operator
  | add
  | subtract
  | multiply
  | divide
  | less
  | equal
  | both
  deriving DecidableEq, Repr

/-- The symbol for an operator. -/
def Operator.symbol : Operator → Symbol
  | .add => .plus
  | .subtract => .minus
  | .multiply => .star
  | .divide => .slash
  | .less => .less
  | .equal => .equal
  | .both => .ampersand

/-! ## Expressions -/

mutual

/-- An operand of an operator. -/
inductive Operand
  | literal (value : Value) (line : Nat)
  | name (name : String) (line : Nat)
  | group (openLine : Nat) (inner : Expression) (closeLine : Nat)

/-- An expression: at most one operator, as everything else needs parentheses. -/
inductive Expression
  | negation (line : Nat) (operand : Operand)
  | single (operand : Operand)
  | operation (left : Operand) (operator : Operator) (line : Nat) (right : Operand)

end

/-! ## Statements -/

/-- The initializer of a declaration: the line of its `:=` and its expression. -/
structure Initializer where
  line : Nat
  source : Expression

mutual

/-- A statement without its semicolon. -/
inductive Statement
  | declaration (line : Nat) (name : String) (nameLine colonLine : Nat) (ty : Ty) (tyLine : Nat)
      (initializer? : Option Initializer)
  | assignment (name : String) (line assignLine : Nat) (source : Expression)
  | printing (line : Nat) (source : Expression)
  | reading (line : Nat) (name : String) (nameLine : Nat)
  | assertion (line openLine : Nat) (condition : Expression) (closeLine : Nat)
  | loop (forLine : Nat) (counter : String) (line inLine : Nat) (first : Expression)
      (rangeLine : Nat) (last : Expression) (doLine : Nat) (body : Program)
      (endLine closingLine : Nat)

/-- Statements in turn, each with the line of its semicolon. -/
inductive Program
  | done
  | next (statement : Statement) (semicolonLine : Nat) (rest : Program)

end

/-! ## Trees -/

/-- The lexeme of a literal. -/
def Value.lexeme : Value → Lexeme
  | .int i => .number i
  | .string content => .string content
  | .bool b => .boolean b

namespace Node

/-- The leaf for a symbol. -/
def symbol (s : Symbol) (line : Nat) : Node := .token ⟨.symbol s, line⟩

/-- The leaf for a keyword. -/
def keyword (k : Keyword) (line : Nat) : Node := .token ⟨.keyword k, line⟩

/-- The leaf for a name. -/
def name (text : String) (line : Nat) : Node := .token ⟨.name text, line⟩

end Node

mutual

/-- The tree to which an operand is parsed. -/
def Operand.tree : Operand → Node
  | .literal value line => .deferred .constant [.token ⟨value.lexeme, line⟩]
  | .name name line => .deferred .identifier [.name name line]
  | .group openLine inner closeLine =>
      .deferred .parenthesized
        [.symbol .leftParen openLine, inner.tree, .symbol .rightParen closeLine]

/-- The tree to which an expression is parsed. -/
def Expression.tree : Expression → Node
  | .negation line operand =>
      .deferred .negation [.symbol .exclamation line, operand.tree]
  | .single operand => .deferred .operation [operand.tree, .list []]
  | .operation left operator line right =>
      .deferred .operation [left.tree, .list [.symbol operator.symbol line, right.tree]]

end

/-- The optional part of a declaration. -/
def Initializer.tree? : Option Initializer → Node
  | none => .list []
  | some ⟨line, source⟩ => .list [.symbol .assign line, source.tree]

mutual

/-- The tree to which a statement is parsed. -/
def Statement.tree : Statement → Node
  | .declaration line name nameLine colonLine ty tyLine initializer? =>
      .deferred .declaration
        [.keyword .kwVar line, .name name nameLine, .symbol .colon colonLine,
          .token ⟨.typeName ty, tyLine⟩, Initializer.tree? initializer?]
  | .assignment name line assignLine source =>
      .deferred .assignment [.name name line, .symbol .assign assignLine, source.tree]
  | .printing line source => .deferred .printing [.keyword .kwPrint line, source.tree]
  | .reading line name nameLine =>
      .deferred .reading [.keyword .kwRead line, .name name nameLine]
  | .assertion line openLine condition closeLine =>
      .deferred .assertion
        [.keyword .kwAssert line, .symbol .leftParen openLine, condition.tree,
          .symbol .rightParen closeLine]
  | .loop forLine counter line inLine first rangeLine last doLine body endLine closingLine =>
      .deferred .loop
        [.keyword .kwFor forLine, .name counter line, .keyword .kwIn inLine, first.tree,
          .symbol .range rangeLine, last.tree, .keyword .kwDo doLine,
          .deferred .statements body.occurrences, .keyword .kwEnd endLine,
          .keyword .kwFor closingLine]

/-- One list of a statement and its semicolon for each statement. -/
def Program.occurrences : Program → List Node
  | .done => []
  | .next statement semicolonLine rest =>
      .list [statement.tree, .symbol .semicolon semicolonLine] :: rest.occurrences

end

namespace Program

/-- The tree to which a program is parsed. -/
def tree (program : Program) : Node := .deferred .statements program.occurrences

/-- The tokens of a program, without an end marker. -/
def tokens (program : Program) : List Token := program.tree.leaves

end Program

end Primer
