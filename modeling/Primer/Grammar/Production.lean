import Primer.Grammar.Rule

/-!
# The grammar

    statements = ( statement ";" )*
    statement  = "var" name ":" type [ ":=" expression ]
               | name ":=" expression
               | "print" expression
               | "read" name
               | "assert" "(" expression ")"
               | "for" name "in" expression ".." expression "do" statements "end" "for"
    expression = "!" operand | operand [ operator operand ]
    operator   = "+" | "-" | "*" | "/" | "<" | "=" | "&"
    operand    = number | string | boolean | name | "(" expression ")"

There is no precedence among operators: an expression has at most one, and
everything else needs parentheses.  The two recursive references, a loop's body
and a parenthesized expression, stand behind a token, so a production is never
entered twice without a token in between.
-/

namespace Primer

namespace Rule

/-- The token that is a keyword. -/
def keyword (k : Keyword) : Rule := .terminal (.keyword k)

/-- The token that is a symbol. -/
def symbol (s : Symbol) : Rule := .terminal (.symbol s)

/-! ## Expressions -/

/-- Exactly one of the binary operators; there is no precedence among them. -/
def operator : Rule :=
  .alternative [.symbol .plus, .symbol .minus, .symbol .star, .symbol .slash, .symbol .less,
    .symbol .equal, .symbol .ampersand]

/-- A literal of one of the three types. -/
def literal : Rule :=
  .alternative [.terminal .number, .terminal .string, .terminal .boolean]

/-- A literal, a name, or an expression in parentheses, which is a reference as it leads back
here. -/
def operand : Rule :=
  .alternative [
    .deferred .constant (.sequence literal []),
    .deferred .identifier (.sequence (.terminal .name) []),
    .deferred .parenthesized
      (.sequence (.symbol .leftParen) [.reference .expression, .symbol .rightParen])]

/-- The negation of an operand, an operand, or two operands with an operator between them. -/
def expression : Rule :=
  .alternative [
    .deferred .negation (.sequence (.symbol .exclamation) [operand]),
    .deferred .operation (.sequence operand [.optional (.sequence operator [operand])])]

/-! ## Statements -/

/-- A declaration, with or without a first value. -/
def declaration : Rule :=
  .deferred .declaration (.sequence (.keyword .kwVar)
    [.terminal .name, .symbol .colon, .terminal .typeName,
      .optional (.sequence (.symbol .assign) [expression])])

/-- An assignment to a variable. -/
def assignment : Rule :=
  .deferred .assignment (.sequence (.terminal .name) [.symbol .assign, expression])

/-- The printing of a value. -/
def printing : Rule :=
  .deferred .printing (.sequence (.keyword .kwPrint) [expression])

/-- The reading of a line into a variable. -/
def reading : Rule :=
  .deferred .reading (.sequence (.keyword .kwRead) [.terminal .name])

/-- An assertion, whose condition stands in parentheses. -/
def assertion : Rule :=
  .deferred .assertion (.sequence (.keyword .kwAssert)
    [.symbol .leftParen, expression, .symbol .rightParen])

/-- A loop.  Its body is a reference, as it holds statements again. -/
def loop : Rule :=
  .deferred .loop (.sequence (.keyword .kwFor)
    [.terminal .name, .keyword .kwIn, expression, .symbol .range, expression, .keyword .kwDo,
      .reference .statements, .keyword .kwEnd, .keyword .kwFor])

/-- A statement.  The first token tells which one. -/
def statement : Rule :=
  .alternative [declaration, assignment, printing, reading, assertion, loop]

/-- Statements, each with its semicolon. -/
def statements : Rule :=
  .deferred .statements (.repeated (.sequence statement [.symbol .semicolon]))

end Rule

namespace Production

/-- The right-hand side of a production. -/
def rule : Production → Rule
  | .statements => Rule.statements
  | .statement => Rule.statement
  | .expression => Rule.expression
  | .operator => Rule.operator
  | .operand => Rule.operand

/-- Whether a production can begin with a token of the given kind.  No
production begins with a reference, so the inner answer is never used. -/
def startsWith (production : Production) (next : Option Kind) : Bool :=
  production.rule.startsWithFor (fun _ _ => false) next

end Production

/-- Whether a rule can begin with a token of the given kind. -/
def Rule.startsWith (rule : Rule) (next : Option Kind) : Bool :=
  rule.startsWithFor Production.startsWith next

end Primer
