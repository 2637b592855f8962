import Primer.Token

/-!
# Errors

Every way in which a program, its input or the text of a program can be at
fault, with what the report needs.  The wording of all reports is in
`Error.message`; nothing else in the library writes them.

A computation of the library can also fail without the program being at fault,
when it is handed a syntax tree or a variable of the wrong shape.  `Failure`
keeps the two apart.
-/

namespace Primer

/-- A fault of the program or of its input. -/
inductive Error
  /-- A character that starts no lexeme, or that cannot follow the one before it. -/
  | unexpectedCharacter (line : Nat) (character : Char)
  /-- The text or the token stream ended inside a construct. -/
  | unexpectedEnd (line : Nat)
  /-- A numeral beyond the largest 64-bit integer. -/
  | literalOutOfRange (line : Nat) (digits : String)
  /-- The grammar asks for one kind and finds another. -/
  | unexpectedToken (line : Nat) (actual expected : Kind)
  /-- No branch of a choice can start with the kind found. -/
  | noAlternative (line : Nat) (actual : Kind)
  | undefinedVariable (line : Nat) (name : String)
  | alreadyDefined (line : Nat) (name : String) (previousLine : Nat)
  | typeMismatch (line : Nat) (expected actual : Ty)
  /-- An operator applied to operands of a type that it does not accept. -/
  | unsupportedOperator (line : Nat) (ty : Ty) (operator : Kind)
  /-- A type of which `read` cannot read a value. -/
  | unreadableType (line : Nat) (ty : Ty)
  | uninitialized (line : Nat) (name : String)
  /-- A line of input that is not the numeral of a 64-bit integer. -/
  | notAnInteger (line : Nat) (input : String)
  | assertionFailed (line : Nat)
  /-- A division by zero, or the one quotient that does not fit. -/
  | arithmeticFault (line : Nat)
  | inputExhausted (line : Nat)
  /-- Bytes of input that are not UTF-8. -/
  | undecodableInput
  deriving DecidableEq, Repr

namespace Error

/-- The line of the program to which the fault is attributed. -/
def line? : Error → Option Nat
  | unexpectedCharacter line _
  | unexpectedEnd line
  | literalOutOfRange line _
  | unexpectedToken line _ _
  | noAlternative line _
  | undefinedVariable line _
  | alreadyDefined line _ _
  | typeMismatch line _ _
  | unsupportedOperator line _ _
  | unreadableType line _
  | uninitialized line _
  | notAnInteger line _
  | assertionFailed line
  | arithmeticFault line
  | inputExhausted line => some line
  | undecodableInput => none

/-- The report shown to the user, without a line break. -/
def message : Error → String
  | unexpectedCharacter line character =>
      s!"Unexpected character '{character}' on line {line}"
  | unexpectedEnd line =>
      s!"Unexpected end of input on line {line}"
  | literalOutOfRange line digits =>
      s!"Invalid integer literal '{digits}' on line {line}"
  | unexpectedToken line actual expected =>
      s!"Unexpected token {actual.description} on line {line} (expected {expected.description})"
  | noAlternative line actual =>
      s!"Syntax error on line {line}: no rule matches {actual.description}"
  | undefinedVariable line name =>
      s!"Undefined variable '{name}' on line {line}"
  | alreadyDefined line name previousLine =>
      s!"Variable '{name}' on line {line} is already defined on line {previousLine}"
  | typeMismatch line expected actual =>
      s!"Type error on line {line}: expected {expected.spelling}, got {actual.spelling}"
  | unsupportedOperator line ty operator =>
      s!"Unsupported operation on line {line}: cannot use {operator.description} with {ty.spelling}"
  | unreadableType line ty =>
      s!"Unsupported input on line {line}: cannot read a value of type {ty.spelling}"
  | uninitialized line name =>
      s!"Variable '{name}' is used uninitialized on line {line}"
  | notAnInteger line input =>
      s!"Could not parse '{input}' as an integer on line {line}"
  | assertionFailed line =>
      s!"Assertion failed on line {line}"
  | arithmeticFault line =>
      s!"Arithmetic fault on line {line}: division by zero or overflow"
  | inputExhausted line =>
      s!"No more input available for read on line {line}"
  | undecodableInput => "stream did not contain valid UTF-8"

/-- Whether the fault only says that the text stopped too early, so that more
text could still make it a program. -/
def isIncomplete : Error → Bool
  | unexpectedEnd _ => true
  | unexpectedToken _ actual _ => actual == .endMarker
  | noAlternative _ actual => actual == .endMarker
  | _ => false

end Error

/-- Why a computation gave no result. -/
inductive Failure
  /-- The program or its input is at fault. -/
  | error (cause : Error)
  /-- A node, a variable or the stack of scopes was used against its shape. -/
  | misuse
  /-- A rule would be entered again and again without taking a token. -/
  | endless
  deriving DecidableEq, Repr

end Primer
