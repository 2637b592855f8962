import Primer.Context
import Primer.Proofs.Grammar.Tokens

/-!
# Other lines

A map of line numbers acts on everything that holds lines: on tokens, on
programs, on errors and on the variables that remember where they were
declared.  Two things that are equal up to lines have one image under a constant
map, and a text that is moved down by some lines has its image under a sum.
-/

namespace Primer

/-- The same lexeme on another line. -/
def Token.relocate (f : Nat → Nat) (t : Token) : Token := { t with line := f t.line }

@[simp] theorem Token.kind_relocate (f : Nat → Nat) (t : Token) :
    (t.relocate f).kind = t.kind := rfl

namespace Error

/-- The same error on other lines, that of an earlier declaration included. -/
def relocate (f : Nat → Nat) : Error → Error
  | unexpectedCharacter line character => unexpectedCharacter (f line) character
  | unexpectedEnd line => unexpectedEnd (f line)
  | literalOutOfRange line digits => literalOutOfRange (f line) digits
  | unexpectedToken line actual expected => unexpectedToken (f line) actual expected
  | noAlternative line actual => noAlternative (f line) actual
  | undefinedVariable line name => undefinedVariable (f line) name
  | alreadyDefined line name previousLine => alreadyDefined (f line) name (f previousLine)
  | typeMismatch line expected actual => typeMismatch (f line) expected actual
  | unsupportedOperator line ty operator => unsupportedOperator (f line) ty operator
  | unreadableType line ty => unreadableType (f line) ty
  | uninitialized line name => uninitialized (f line) name
  | notAnInteger line input => notAnInteger (f line) input
  | assertionFailed line => assertionFailed (f line)
  | arithmeticFault line => arithmeticFault (f line)
  | inputExhausted line => inputExhausted (f line)
  | undecodableInput => undecodableInput

end Error

/-- Only an error of the program has lines. -/
def Failure.relocate (f : Nat → Nat) : Failure → Failure
  | error cause => error (cause.relocate f)
  | misuse => misuse
  | endless => endless

/-! ## Contexts -/

/-- The same variable, declared on another line. -/
def Variable.relocate (f : Nat → Nat) (v : Variable) : Variable := { v with line := f v.line }

/-- The variables of a frame, declared on other lines. -/
def Frame.relocate (f : Nat → Nat) (frame : Frame) : Frame :=
  frame.map fun (name, v) => (name, v.relocate f)

/-- The variables of all frames, declared on other lines. -/
def Scopes.relocate (f : Nat → Nat) (scopes : Scopes) : Scopes := scopes.map (Frame.relocate f)

/-- The variables of a context, declared on other lines; a console holds no lines of programs. -/
def Context.relocate (f : Nat → Nat) (context : Context) : Context :=
  { context with scopes := context.scopes.relocate f }

/-- The result of an execution, on other lines. -/
def Exec.relocateResult (f : Nat → Nat) :
    EStateM.Result Failure Context Unit → EStateM.Result Failure Context Unit
  | .ok () context => .ok () (context.relocate f)
  | .error failure context => .error (failure.relocate f) (context.relocate f)

theorem Context.relocate_relocate (f g : Nat → Nat) (context : Context) :
    (context.relocate g).relocate f = context.relocate (f ∘ g) := by
  simp [relocate, Scopes.relocate, Frame.relocate, Variable.relocate, Function.comp_def]

theorem Context.relocate_id (context : Context) : context.relocate id = context := by
  have hframe : Frame.relocate id = id := by
    funext frame
    simp [Frame.relocate, Variable.relocate]
  simp [relocate, Scopes.relocate, hframe]

/-! ## Programs -/

mutual

/-- The same operand on other lines. -/
def Operand.relocate (f : Nat → Nat) : Operand → Operand
  | .literal value line => .literal value (f line)
  | .name name line => .name name (f line)
  | .group openLine inner closeLine => .group (f openLine) (inner.relocate f) (f closeLine)

/-- The same expression on other lines. -/
def Expression.relocate (f : Nat → Nat) : Expression → Expression
  | .negation line operand => .negation (f line) (operand.relocate f)
  | .single operand => .single (operand.relocate f)
  | .operation left operator line right =>
      .operation (left.relocate f) operator (f line) (right.relocate f)

end

/-- The same initializer on other lines. -/
def Initializer.relocate (f : Nat → Nat) (initializer : Initializer) : Initializer :=
  ⟨f initializer.line, initializer.source.relocate f⟩

mutual

/-- The same statement on other lines. -/
def Statement.relocate (f : Nat → Nat) : Statement → Statement
  | .declaration line name nameLine colonLine ty tyLine initializer? =>
      .declaration (f line) name (f nameLine) (f colonLine) ty (f tyLine)
        (initializer?.map (Initializer.relocate f))
  | .assignment name line assignLine source =>
      .assignment name (f line) (f assignLine) (source.relocate f)
  | .printing line source => .printing (f line) (source.relocate f)
  | .reading line name nameLine => .reading (f line) name (f nameLine)
  | .assertion line openLine condition closeLine =>
      .assertion (f line) (f openLine) (condition.relocate f) (f closeLine)
  | .loop forLine name line inLine first rangeLine last doLine body endLine closingLine =>
      .loop (f forLine) name (f line) (f inLine) (first.relocate f) (f rangeLine) (last.relocate f)
        (f doLine) (body.relocate f) (f endLine) (f closingLine)

/-- The same program on other lines. -/
def Program.relocate (f : Nat → Nat) : Program → Program
  | .done => .done
  | .next statement semicolonLine rest =>
      .next (statement.relocate f) (f semicolonLine) (rest.relocate f)

end

variable {f : Nat → Nat}

mutual

theorem Operand.tokens_relocate (operand : Operand) :
    (operand.relocate f).tokens = operand.tokens.map (Token.relocate f) := by
  cases operand with
  | literal value line => rfl
  | name name line => rfl
  | group openLine inner closeLine =>
      simp [Operand.relocate, Token.relocate, Expression.tokens_relocate inner]

theorem Expression.tokens_relocate (expression : Expression) :
    (expression.relocate f).tokens = expression.tokens.map (Token.relocate f) := by
  cases expression with
  | negation line operand =>
      simp [Expression.relocate, Token.relocate, Operand.tokens_relocate operand]
  | single operand => simp [Expression.relocate, Operand.tokens_relocate operand]
  | operation left operator line right =>
      simp [Expression.relocate, Token.relocate, Operand.tokens_relocate left,
        Operand.tokens_relocate right]

end

theorem Initializer.tokens_relocate (initializer? : Option Initializer) :
    Initializer.tokens (initializer?.map (Initializer.relocate f)) =
      (Initializer.tokens initializer?).map (Token.relocate f) := by
  cases initializer? with
  | none => rfl
  | some initializer =>
      simp [Initializer.tokens, Initializer.relocate, Token.relocate, Expression.tokens_relocate]

mutual

theorem Statement.tokens_relocate (statement : Statement) :
    (statement.relocate f).tokens = statement.tokens.map (Token.relocate f) := by
  cases statement with
  | loop forLine name line inLine first rangeLine last doLine body endLine closingLine =>
      simp [Statement.relocate, Token.relocate, Expression.tokens_relocate,
        Program.tokens_relocate body]
  | _ =>
      simp [Statement.relocate, Token.relocate, Expression.tokens_relocate,
        Initializer.tokens_relocate]

theorem Program.tokens_relocate (program : Program) :
    (program.relocate f).tokens = program.tokens.map (Token.relocate f) := by
  cases program with
  | done => rfl
  | next statement semicolonLine rest =>
      simp [Program.relocate, Token.relocate, Statement.tokens_relocate statement,
        Program.tokens_relocate rest]

end

end Primer
