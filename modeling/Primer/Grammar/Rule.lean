import Primer.Grammar.Node

/-!
# Rules

A grammar is put together from a handful of rules.  Each is decided by the kind
of the next token alone: `Rule.startsWith` tells whether a rule can begin there,
and consuming follows that answer without ever looking further or going back.

Rules refer to one another by names through `Rule.reference`, which keeps them
finite although the grammar is recursive.  The names are those of the
productions unless told otherwise.
-/

namespace Primer

/-- The nonterminals of the grammar. -/
inductive Production
  | statements
  | statement
  | expression
  | operator
  | operand
  deriving DecidableEq, Repr

/-- A rule of a grammar with the given names. -/
inductive Rule (Name : Type := Production)
  /-- One token of a kind. -/
  | terminal (kind : Kind)
  /-- Rules one after the other, at least one. -/
  | sequence (first : Rule Name) (others : List (Rule Name))
  /-- The first rule that can begin with the next token. -/
  | alternative (branches : List (Rule Name))
  /-- The rule, or nothing where it cannot begin. -/
  | optional (body : Rule Name)
  /-- The rule as often as it can begin. -/
  | repeated (body : Rule Name)
  /-- No token. -/
  | empty
  /-- Whatever the rule of that name consumes. -/
  | reference (name : Name)
  /-- The rule, whose node is to be run by an action. -/
  | deferred (action : Action) (body : Rule Name)

namespace Rule

variable {Name : Type}

/-- The rules in sequence, unless there are none. -/
def sequence? : List Rule → Option Rule
  | [] => none
  | first :: others => some (.sequence first others)

mutual

/-- Whether a rule can begin with a token of the given kind, `none` standing for
the end of the stream.  Rules that can consume nothing always can.  What
references begin with is a parameter. -/
def startsWithFor (enter : Name → Option Kind → Bool) : Rule Name → Option Kind → Bool
  | .terminal kind, next => next == some kind
  | .sequence first _, next => startsWithFor enter first next
  | .alternative branches, next => someStartsWithFor enter branches next
  | .optional _, _ => true
  | .repeated _, _ => true
  | .empty, _ => true
  | .reference name, next => enter name next
  | .deferred _ body, next => startsWithFor enter body next

/-- Whether one of the rules can begin with a token of the given kind. -/
def someStartsWithFor (enter : Name → Option Kind → Bool) :
    List (Rule Name) → Option Kind → Bool
  | [], _ => false
  | branch :: branches, next =>
      startsWithFor enter branch next || someStartsWithFor enter branches next

end

end Rule

end Primer
