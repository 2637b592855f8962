import Primer.TokenStream
import Primer.Grammar.Production

/-!
# Consuming rules

A rule takes tokens off a stream and yields a node.  Choices, options and
repetitions ask `Rule.startsWith` about the next token and commit to the answer;
when a token that was promised is missing, parsing fails there.

Two things could go on for ever: a repetition whose body takes no token, and a
production that comes back to itself without taking one.  Both fail as
`endless` at the moment they happen, which makes every definition here total.
-/

namespace Primer

/-- Consumes `body` as long as `continues` holds of the next token. -/
def repeatWhile (continues : Option Kind → Bool) (body : ParseM Node) (s : TokenStream) :
    EStateM.Result Failure TokenStream (List Node) :=
  if continues s.nextKind? then
    match body s with
    | .error failure s' => .error failure s'
    | .ok node s' =>
        if s'.remaining < s.remaining then
          match repeatWhile continues body s' with
          | .error failure s'' => .error failure s''
          | .ok nodes s'' => .ok (node :: nodes) s''
        else .error .endless s'
  else .ok [] s
termination_by s.remaining

namespace Rule

mutual

/-- Consumes a rule; references are consumed by `enter`. -/
def consumeFor (enter : Production → ParseM Node) : Rule → ParseM Node
  | .terminal kind => do
      let t ← TokenStream.expect kind
      return .token t
  | .sequence first others => do
      let node ← consumeFor enter first
      let nodes ← consumeAllFor enter others
      return .list (node :: nodes)
  | .alternative branches => consumeFirstFor enter branches
  | .optional body => fun s =>
      if body.startsWith s.nextKind? then consumeFor enter body s else .ok (.list []) s
  | .repeated body => do
      let nodes ← repeatWhile body.startsWith (consumeFor enter body)
      return .list nodes
  | .empty => return .list []
  | .reference production => enter production
  | .deferred action body => do
      let node ← consumeFor enter body
      return node.defer action

/-- Consumes every rule in turn. -/
def consumeAllFor (enter : Production → ParseM Node) : List Rule → ParseM (List Node)
  | [] => return []
  | rule :: rules => do
      let node ← consumeFor enter rule
      let nodes ← consumeAllFor enter rules
      return node :: nodes

/-- Consumes the first rule that can begin with the next token. -/
def consumeFirstFor (enter : Production → ParseM Node) : List Rule → ParseM Node
  | [] => fun s => .error (.error (.noAlternative s.line (s.nextKind?.getD .endMarker))) s
  | branch :: branches => fun s =>
      if branch.startsWith s.nextKind? then consumeFor enter branch s
      else consumeFirstFor enter branches s

end

end Rule

/-- Consumes a production.  A reference within it is followed only once fewer
tokens are ahead than when the production was entered. -/
def Production.consume (production : Production) (s : TokenStream) :
    EStateM.Result Failure TokenStream Node :=
  production.rule.consumeFor
    (fun inner s' =>
      if s'.remaining < s.remaining then inner.consume s' else .error .endless s')
    s
termination_by s.remaining

/-- Consumes a rule of which references are productions of the grammar. -/
def Rule.consume (rule : Rule) : ParseM Node := rule.consumeFor Production.consume

/-- Consumes a whole program, up to and including the end marker. -/
def consumeProgram : ParseM Node := do
  let program ← Production.consume .statements
  let _ ← TokenStream.expect .endMarker
  return program

/-- The syntax tree of a tokenized program. -/
def parse (tokens : List Token) : Except Failure Node :=
  match consumeProgram (.ofTokens tokens) with
  | .ok program _ => .ok program
  | .error failure _ => .error failure

end Primer
