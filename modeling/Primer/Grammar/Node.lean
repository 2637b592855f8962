import Primer.Token

/-!
# Syntax trees

Parsing yields a tree of three sorts of nodes: tokens, lists, and *deferred*
nodes, which name the action to run once their children are there.  Running a
deferred node any number of times never changes the tree, so the body of a loop
is parsed once.

Where a node is in the text is told by the tokens at its leaves.
-/

namespace Primer

/-- What a deferred node does when it is run.  The first seven have an effect
and no value, the others have a value. -/
inductive Action
  | statements
  | declaration
  | assignment
  | printing
  | reading
  | assertion
  | loop
  | negation
  | operation
  | constant
  | identifier
  | parenthesized
  deriving DecidableEq, Repr

/-- What a rule yields: one token, nodes in a row, or nodes that wait for an action to be run
on them. -/
inductive Node
  | token (t : Token)
  | list (children : List Node)
  | deferred (action : Action) (children : List Node)

namespace Node

/-- The token that a node consists of. -/
def token? : Node → Option Token
  | .token t => some t
  | .list _ | .deferred _ _ => none

/-- The children of a list.  The children of a deferred node are reached only
through its action. -/
def elements? : Node → Option (List Node)
  | .list children => some children
  | .token _ | .deferred _ _ => none

/-- The node that will run `action` on what `body` consists of. -/
def defer (action : Action) (body : Node) : Node :=
  .deferred action (body.elements?.getD [body])

/-! ## Leaves and lines -/

mutual

/-- The tokens of a node from left to right. -/
def leaves : Node → List Token
  | .token t => [t]
  | .list children => leavesOfAll children
  | .deferred _ children => leavesOfAll children

/-- The tokens of a list of nodes from left to right. -/
def leavesOfAll : List Node → List Token
  | [] => []
  | node :: nodes => leaves node ++ leavesOfAll nodes

end

mutual

/-- The first token of a node, found without listing the others. -/
def firstToken? : Node → Option Token
  | .token t => some t
  | .list children => firstTokenOfAll? children
  | .deferred _ children => firstTokenOfAll? children

/-- The first token of a list of nodes. -/
def firstTokenOfAll? : List Node → Option Token
  | [] => none
  | node :: nodes => (firstToken? node).or (firstTokenOfAll? nodes)

end

/-- The line on which a node starts, if it has a token at all. -/
def line? (node : Node) : Option Nat := node.firstToken?.map Token.line

mutual

theorem firstToken?_eq (node : Node) : node.firstToken? = node.leaves.head? := by
  cases node with
  | token t => rfl
  | list children => exact firstTokenOfAll?_eq children
  | deferred action children => exact firstTokenOfAll?_eq children

theorem firstTokenOfAll?_eq (nodes : List Node) :
    firstTokenOfAll? nodes = (leavesOfAll nodes).head? := by
  cases nodes with
  | nil => rfl
  | cons node nodes =>
      rw [firstTokenOfAll?, leavesOfAll, firstToken?_eq node, firstTokenOfAll?_eq nodes,
        List.head?_append]

end

end Node

end Primer
