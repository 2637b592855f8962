import Primer.Proofs.Grammar.Derivation
import Primer.Proofs.Grammar.Unfolding

/-!
# The tokens of a node

What a rule takes off a stream stands at the leaves of the node that it yields,
from left to right, whatever lists, options and deferred nodes lie above them.  An
option that was skipped leaves an empty list behind, and a node may begin with any
number of these, one inside the other; its line is still that of the first token
taken, as empty lists have no leaves.

## Main results

* `TokenStream.Moves.extract_tokens` : what was taken, told by two positions.
* `Rule.consumes_leaves` : the leaves and the line of what any rule yields.
-/

namespace Primer

open Stateful

/-! ## Between two positions -/

namespace TokenStream

variable {s s' : TokenStream} {taken : List Token}

theorem Moves.position_le (hmoves : s.Moves taken s') : s.position ≤ s'.position := by
  rw [hmoves.position_eq]
  exact Nat.le_add_left _ _

theorem position_le_length (s : TokenStream) : s.position ≤ s.tokens.length := by
  rw [position, tokens, List.length_append, List.length_reverse]
  exact Nat.le_add_right _ _

/-- What is ahead of a position are the tokens from there on. -/
theorem drop_position (s : TokenStream) : s.tokens.drop s.position = s.ahead := by
  rw [tokens, position, ← List.length_reverse, List.drop_left]

theorem Moves.extract_tokens (hmoves : s.Moves taken s') :
    s.tokens.extract s.position s'.position = taken := by
  rw [List.extract_eq_take_drop, drop_position, hmoves.ahead, hmoves.position_eq,
    Nat.add_sub_cancel, List.take_left]

end TokenStream

/-! ## Nodes -/

theorem Node.line?_eq (node : Node) : node.line? = node.leaves.head?.map Token.line := by
  rw [line?, firstToken?_eq]

/-- A node that was taken off a stream is on the line of the first token taken. -/
theorem TokenStream.Moves.line?_eq {s s' : TokenStream} {node : Node}
    (hmoves : s.Moves node.leaves s') :
    node.line? =
      if s.position < s'.position then s.tokens[s.position]?.map Token.line else none := by
  rw [node.line?_eq, ← s.peek?_eq_getElem?, TokenStream.peek?, hmoves.ahead]
  have hposition := hmoves.position_eq
  -- the first leaf is the token the stream stands at; without leaves the stream has not moved
  cases hleaves : node.leaves with
  | nil =>
      rw [hleaves, List.length_nil, Nat.zero_add] at hposition
      rw [if_neg (by omega)]
      rfl
  | cons t ts =>
      rw [hleaves, List.length_cons] at hposition
      rw [if_pos (by omega)]
      rfl

/-! ## Rules -/

namespace Rule

variable {Name : Type}

/-- No token is lost, doubled or moved: the leaves of a node are the tokens from the
position where the rule began to the one where it ended, and the node is on the line
of the first of them, if there is one.  A rule that fails does not go back. -/
theorem consumes_leaves {rules : Name → Rule Name} {rule : Rule Name} {s : TokenStream}
    {result : EStateM.Result Failure TokenStream Node} (hconsumes : rule.Consumes rules s result) :
    (∀ node s', result = .ok node s' →
      s'.tokens = s.tokens ∧ s.position ≤ s'.position ∧ s'.position ≤ s.tokens.length ∧
      node.leaves = s.tokens.extract s.position s'.position ∧
      node.line? =
        if s.position < s'.position then s.tokens[s.position]?.map Token.line else none) ∧
    ∀ failure s', result = .error failure s' →
      s'.tokens = s.tokens ∧ s.position ≤ s'.position ∧ s'.position ≤ s.tokens.length := by
  obtain ⟨depth, hdepth⟩ := hconsumes
  -- what lies beyond the depth does not matter, so there may be nothing
  have hconsume := hdepth fun _ => .empty
  constructor
  · rintro node s' rfl
    obtain ⟨-, hmoves⟩ := explains_consume hconsume
    refine ⟨hmoves.tokens_eq, hmoves.position_le, ?_, hmoves.extract_tokens.symm, hmoves.line?_eq⟩
    rw [← hmoves.tokens_eq]
    exact s'.position_le_length
  · rintro failure s' rfl
    obtain ⟨taken, hmoves⟩ := (forward_consume _ s).2 failure s' hconsume
    refine ⟨hmoves.tokens_eq, hmoves.position_le, ?_⟩
    rw [← hmoves.tokens_eq]
    exact s'.position_le_length

/-- Two brackets behind a skipped option, both in one list below another: the line is
that of the first bracket, which the empty lists do not hide. -/
theorem consumes_leaves_skipped :
    let rule : Rule Unit := .deferred .parenthesized
      (.sequence (.optional (.terminal .number)) [.reference ()])
    let s : TokenStream :=
      ⟨[⟨.symbol .semicolon, 1⟩], [⟨.symbol .leftParen, 2⟩, ⟨.symbol .rightParen, 3⟩], 2, rfl⟩
    ∃ node s', rule.Consumes brackets s (.ok node s') ∧ s.position = 1 ∧ s'.position = 3 ∧
      node.leaves = [⟨.symbol .leftParen, 2⟩, ⟨.symbol .rightParen, 3⟩] ∧ node.line? = some 2 := by
  intro rule s
  have hconsumes : rule.Consumes brackets s (.ok
      (.deferred .parenthesized [.list [], .list
        [.token ⟨.symbol .leftParen, 2⟩, .list [], .token ⟨.symbol .rightParen, 3⟩]])
      ⟨[⟨.symbol .rightParen, 3⟩, ⟨.symbol .leftParen, 2⟩, ⟨.symbol .semicolon, 1⟩], [], 0, rfl⟩) :=
    ⟨4, fun _ => rfl⟩
  obtain ⟨-, -, -, hleaves, hline⟩ := (consumes_leaves hconsumes).1 _ _ rfl
  exact ⟨_, _, hconsumes, rfl, rfl, hleaves, hline⟩

end Rule

end Primer
