import Primer.Proofs.Grammar.Progress
import Primer.Program

/-!
# What parsing yields are trees of programs

`Rule.Builds` relates a rule to the nodes that it describes, without any word
about lookahead.  Two facts together say what can come out of a parser:

* whatever a rule consumes is described by the rule, and the tokens taken off
  the stream are the leaves of the node (`Rule.explains_consume`);
* what the rules of the grammar describe are the trees of abstract programs
  (`Rule.statements_of_builds`).

The second is an inversion of the right-hand sides, by recursion on the node:
the recursive references stand for smaller nodes.
-/

namespace Primer

open Stateful

/-! ## The nodes that a rule describes -/

mutual

/-- The node is one that the rule describes, whatever stream it is taken from. -/
inductive Rule.Builds : Rule → Node → Prop
  | terminal {kind : Kind} {t : Token} : t.kind = kind → Builds (.terminal kind) (.token t)
  | sequence {first : Rule} {others : List Rule} {node : Node} {nodes : List Node} :
      Builds first node → BuildsAll others nodes →
        Builds (.sequence first others) (.list (node :: nodes))
  | alternative {branches : List Rule} {branch : Rule} {node : Node} :
      branch ∈ branches → Builds branch node → Builds (.alternative branches) node
  | present {body : Rule} {node : Node} : Builds body node → Builds (.optional body) node
  | absent {body : Rule} : Builds (.optional body) (.list [])
  | repeated {body : Rule} {nodes : List Node} :
      (∀ node ∈ nodes, Builds body node) → Builds (.repeated body) (.list nodes)
  | empty : Builds .empty (.list [])
  | reference {production : Production} {node : Node} :
      Builds production.rule node → Builds (.reference production) node
  | deferred {action : Action} {body : Rule} {node : Node} :
      Builds body node → Builds (.deferred action body) (node.defer action)

/-- One node for each of the rules. -/
inductive Rule.BuildsAll : List Rule → List Node → Prop
  | nil : BuildsAll [] []
  | cons {rule : Rule} {rules : List Rule} {node : Node} {nodes : List Node} :
      Rule.Builds rule node → BuildsAll rules nodes → BuildsAll (rule :: rules) (node :: nodes)

end

/-! ## Consuming yields a node that the rule describes -/

@[simp] theorem Node.leaves_defer (node : Node) (action : Action) :
    (node.defer action).leaves = node.leaves := by
  cases node with
  | token t => simp [defer, elements?, leaves, leavesOfAll]
  | list children => simp [defer, elements?, leaves]
  | deferred action children => simp [defer, elements?, leaves, leavesOfAll]

section Sound

variable {enter : Production → ParseM Node}

/-- The node is described by the rule and holds the tokens taken. -/
def Rule.Explains (rule : Rule) (s : TokenStream) (node : Node) (s' : TokenStream) : Prop :=
  rule.Builds node ∧ s.Moves node.leaves s'

theorem explains_repeatWhile {body : Rule} {m : ParseM Node}
    (hbody : ∀ s node s', m s = .ok node s' → body.Explains s node s')
    (continues : Option Kind → Bool) {s s' : TokenStream} {nodes : List Node}
    (hnodes : repeatWhile continues m s = .ok nodes s') :
    (∀ node ∈ nodes, body.Builds node) ∧ s.Moves (Node.leavesOfAll nodes) s' := by
  fun_induction repeatWhile continues m s generalizing nodes s' with
  | case1 | case2 | case4 => cases hnodes
  | case3 s hcontinues node s₁ hnode hless nodes s₂ hrest ih =>
      cases hnodes
      obtain ⟨hbuilds, hmoves⟩ := hbody _ _ _ hnode
      obtain ⟨hbuildsRest, hmovesRest⟩ := ih hrest
      exact ⟨List.forall_mem_cons.mpr ⟨hbuilds, hbuildsRest⟩, hmoves.trans hmovesRest⟩
  | case5 s hcontinues =>
      cases hnodes
      exact ⟨fun _ hmem => (List.not_mem_nil hmem).elim, .refl s⟩

namespace Rule

mutual

theorem explains_consumeFor
    (henter : ∀ (p : Production) s node s', enter p s = .ok node s' → p.rule.Explains s node s')
    {rule : Rule} {s s' : TokenStream} {node : Node}
    (hnode : rule.consumeFor enter s = .ok node s') : rule.Explains s node s' := by
  -- one case for each way to consume; only a reference leaves the rule, and there `henter` serves
  cases rule with
  | terminal kind =>
      obtain ⟨t, s₁, ht, heq⟩ := bind_eq_ok.mp hnode
      cases heq
      obtain ⟨hkind, hmoves⟩ := TokenStream.expect_eq_ok.mp ht
      exact ⟨.terminal hkind, hmoves⟩
  | sequence first others =>
      obtain ⟨node, s₁, hfirst, hrest⟩ := bind_eq_ok.mp hnode
      obtain ⟨nodes, s₂, hothers, heq⟩ := bind_eq_ok.mp hrest
      cases heq
      obtain ⟨hbuilds, hmoves⟩ := explains_consumeFor henter hfirst
      obtain ⟨hbuildsAll, hmovesAll⟩ := explains_consumeAllFor henter hothers
      exact ⟨.sequence hbuilds hbuildsAll, hmoves.trans hmovesAll⟩
  | alternative branches =>
      obtain ⟨branch, hmem, hbuilds, hmoves⟩ := explains_consumeFirstFor henter hnode
      exact ⟨.alternative hmem hbuilds, hmoves⟩
  | optional body =>
      simp only [consumeFor] at hnode
      split at hnode
      · obtain ⟨hbuilds, hmoves⟩ := explains_consumeFor henter hnode
        exact ⟨.present hbuilds, hmoves⟩
      · cases hnode
        exact ⟨.absent, .refl s⟩
  | repeated body =>
      obtain ⟨nodes, s₁, hnodes, heq⟩ := bind_eq_ok.mp hnode
      cases heq
      obtain ⟨hbuilds, hmoves⟩ := explains_repeatWhile
        (fun _ _ _ hbody => explains_consumeFor henter hbody) _ hnodes
      exact ⟨.repeated hbuilds, hmoves⟩
  | empty =>
      cases hnode
      exact ⟨.empty, .refl s⟩
  | reference production =>
      obtain ⟨hbuilds, hmoves⟩ := henter production _ _ _ hnode
      exact ⟨.reference hbuilds, hmoves⟩
  | deferred action body =>
      obtain ⟨node, s₁, hbody, heq⟩ := bind_eq_ok.mp hnode
      cases heq
      obtain ⟨hbuilds, hmoves⟩ := explains_consumeFor henter hbody
      exact ⟨.deferred hbuilds, by simpa using hmoves⟩

theorem explains_consumeAllFor
    (henter : ∀ (p : Production) s node s', enter p s = .ok node s' → p.rule.Explains s node s')
    {rules : List Rule} {s s' : TokenStream} {nodes : List Node}
    (hnodes : consumeAllFor enter rules s = .ok nodes s') :
    BuildsAll rules nodes ∧ s.Moves (Node.leavesOfAll nodes) s' := by
  cases rules with
  | nil =>
      cases hnodes
      exact ⟨.nil, .refl s⟩
  | cons rule rules =>
      obtain ⟨node, s₁, hrule, hrest⟩ := bind_eq_ok.mp hnodes
      obtain ⟨nodes, s₂, hrules, heq⟩ := bind_eq_ok.mp hrest
      cases heq
      obtain ⟨hbuilds, hmoves⟩ := explains_consumeFor henter hrule
      obtain ⟨hbuildsAll, hmovesAll⟩ := explains_consumeAllFor henter hrules
      exact ⟨.cons hbuilds hbuildsAll, hmoves.trans hmovesAll⟩

theorem explains_consumeFirstFor
    (henter : ∀ (p : Production) s node s', enter p s = .ok node s' → p.rule.Explains s node s')
    {branches : List Rule} {s s' : TokenStream} {node : Node}
    (hnode : consumeFirstFor enter branches s = .ok node s') :
    ∃ branch ∈ branches, branch.Explains s node s' := by
  cases branches with
  | nil => cases hnode
  | cons branch branches =>
      simp only [consumeFirstFor] at hnode
      split at hnode
      · exact ⟨branch, List.mem_cons_self, explains_consumeFor henter hnode⟩
      · obtain ⟨chosen, hmem, hexplains⟩ := explains_consumeFirstFor henter hnode
        exact ⟨chosen, List.mem_cons_of_mem _ hmem, hexplains⟩

end

end Rule

end Sound

theorem Production.explains_consumeWithin {depth : Nat} {production : Production}
    {s s' : TokenStream} {node : Node}
    (hnode : production.consumeWithin depth s = .ok node s') :
    production.rule.Explains s node s' := by
  induction depth generalizing production s s' node with
  | zero => cases hnode
  | succ depth ih => exact Rule.explains_consumeFor (fun _ _ _ _ h => ih h) hnode

/-- A node that a rule consumes is described by the rule, and its leaves are
the tokens taken off the stream. -/
theorem Rule.explains_consume {rule : Rule} {s s' : TokenStream} {node : Node}
    (hnode : rule.consume s = .ok node s') : rule.Explains s node s' := by
  rw [rule.consume_eq_consumeFor (Nat.lt_succ_self s.remaining)] at hnode
  exact Rule.explains_consumeFor (fun _ _ _ _ h => Production.explains_consumeWithin h) hnode

/-! ## Reading a right-hand side -/

namespace Rule

variable {node : Node}

@[simp] theorem builds_terminal {kind : Kind} :
    (terminal kind).Builds node ↔ ∃ t : Token, t.kind = kind ∧ node = .token t := by
  constructor
  · rintro ⟨hkind⟩
    exact ⟨_, hkind, rfl⟩
  · rintro ⟨t, hkind, rfl⟩
    exact .terminal hkind

@[simp] theorem builds_sequence {first : Rule} {others : List Rule} :
    (sequence first others).Builds node ↔
      ∃ head tail, first.Builds head ∧ BuildsAll others tail ∧ node = .list (head :: tail) := by
  constructor
  · rintro ⟨⟩
    exact ⟨_, _, ‹_›, ‹_›, rfl⟩
  · rintro ⟨head, tail, hhead, htail, rfl⟩
    exact .sequence hhead htail

@[simp] theorem builds_alternative {branches : List Rule} :
    (alternative branches).Builds node ↔ ∃ branch ∈ branches, branch.Builds node := by
  constructor
  · rintro ⟨⟩
    exact ⟨_, ‹_›, ‹_›⟩
  · rintro ⟨branch, hmem, hbranch⟩
    exact .alternative hmem hbranch

@[simp] theorem builds_optional {body : Rule} :
    (optional body).Builds node ↔ node = .list [] ∨ body.Builds node := by
  constructor
  · rintro (_ | _)
    · exact .inr ‹_›
    · exact .inl rfl
  · rintro (rfl | hbody)
    · exact .absent
    · exact .present hbody

@[simp] theorem builds_repeated {body : Rule} :
    (repeated body).Builds node ↔
      ∃ nodes, (∀ node ∈ nodes, body.Builds node) ∧ node = .list nodes := by
  constructor
  · rintro ⟨⟩
    exact ⟨_, ‹_›, rfl⟩
  · rintro ⟨nodes, hnodes, rfl⟩
    exact .repeated hnodes

@[simp] theorem builds_reference {production : Production} :
    (reference production).Builds node ↔ production.rule.Builds node := by
  constructor
  · rintro ⟨⟩
    assumption
  · exact .reference

@[simp] theorem builds_deferred {action : Action} {body : Rule} :
    (deferred action body).Builds node ↔
      ∃ inner, body.Builds inner ∧ node = inner.defer action := by
  constructor
  · rintro ⟨⟩
    exact ⟨_, ‹_›, rfl⟩
  · rintro ⟨inner, hinner, rfl⟩
    exact .deferred hinner

@[simp] theorem buildsAll_nil {nodes : List Node} : BuildsAll [] nodes ↔ nodes = [] := by
  constructor
  · rintro ⟨⟩
    rfl
  · rintro rfl
    exact .nil

@[simp] theorem buildsAll_cons {rule : Rule} {rules : List Rule} {nodes : List Node} :
    BuildsAll (rule :: rules) nodes ↔
      ∃ head tail, rule.Builds head ∧ BuildsAll rules tail ∧ nodes = head :: tail := by
  constructor
  · rintro ⟨⟩
    exact ⟨_, _, ‹_›, ‹_›, rfl⟩
  · rintro ⟨head, tail, hhead, htail, rfl⟩
    exact .cons hhead htail

end Rule

@[simp] theorem Node.defer_list (children : List Node) (action : Action) :
    (Node.list children).defer action = .deferred action children := rfl

/-! ## Tokens from their kinds -/

namespace Token

theorem eq_endMarker {t : Token} (hkind : t.kind = .endMarker) : t = ⟨.endMarker, t.line⟩ := by
  obtain ⟨lexeme, line⟩ := t
  cases lexeme <;> simp_all [kind, Lexeme.kind]

theorem eq_symbol {t : Token} {s : Symbol} (hkind : t.kind = .symbol s) :
    t = ⟨.symbol s, t.line⟩ := by
  obtain ⟨lexeme, line⟩ := t
  cases lexeme <;> simp_all [kind, Lexeme.kind]

theorem eq_keyword {t : Token} {k : Keyword} (hkind : t.kind = .keyword k) :
    t = ⟨.keyword k, t.line⟩ := by
  obtain ⟨lexeme, line⟩ := t
  cases lexeme <;> simp_all [kind, Lexeme.kind]

theorem eq_name {t : Token} (hkind : t.kind = .name) : ∃ text, t = ⟨.name text, t.line⟩ := by
  obtain ⟨lexeme, line⟩ := t
  cases lexeme <;> simp_all [kind, Lexeme.kind]

theorem eq_typeName {t : Token} (hkind : t.kind = .typeName) :
    ∃ ty, t = ⟨.typeName ty, t.line⟩ := by
  obtain ⟨lexeme, line⟩ := t
  cases lexeme <;> simp_all [kind, Lexeme.kind]

theorem eq_literal {t : Token}
    (hkind : t.kind = .number ∨ t.kind = .string ∨ t.kind = .boolean) :
    ∃ value : Value, t = ⟨value.lexeme, t.line⟩ := by
  obtain ⟨lexeme, line⟩ := t
  cases lexeme with
  | number i => exact ⟨.int i, rfl⟩
  | string content => exact ⟨.string content, rfl⟩
  | boolean b => exact ⟨.bool b, rfl⟩
  | _ => simp [kind, Lexeme.kind] at hkind

end Token

/-! ## Right-hand sides describe the trees of programs -/

namespace Rule

variable {node : Node}

theorem symbol_of_builds {s : Symbol} (hbuilds : (symbol s).Builds node) :
    ∃ line, node = .symbol s line := by
  obtain ⟨t, hkind, rfl⟩ := builds_terminal.mp hbuilds
  exact ⟨t.line, congrArg Node.token (Token.eq_symbol hkind)⟩

theorem keyword_of_builds {k : Keyword} (hbuilds : (keyword k).Builds node) :
    ∃ line, node = .keyword k line := by
  obtain ⟨t, hkind, rfl⟩ := builds_terminal.mp hbuilds
  exact ⟨t.line, congrArg Node.token (Token.eq_keyword hkind)⟩

theorem name_of_builds (hbuilds : (terminal .name).Builds node) :
    ∃ text line, node = .name text line := by
  obtain ⟨t, hkind, rfl⟩ := builds_terminal.mp hbuilds
  obtain ⟨text, heq⟩ := Token.eq_name hkind
  exact ⟨text, t.line, congrArg Node.token heq⟩

theorem typeName_of_builds (hbuilds : (terminal .typeName).Builds node) :
    ∃ ty line, node = .token ⟨.typeName ty, line⟩ := by
  obtain ⟨t, hkind, rfl⟩ := builds_terminal.mp hbuilds
  obtain ⟨ty, heq⟩ := Token.eq_typeName hkind
  exact ⟨ty, t.line, congrArg Node.token heq⟩

theorem literal_of_builds (hbuilds : literal.Builds node) :
    ∃ (value : Value) (line : Nat), node = .token ⟨value.lexeme, line⟩ := by
  obtain ⟨branch, hbranch, hbuilds⟩ := builds_alternative.mp hbuilds
  simp only [List.mem_cons, List.not_mem_nil, or_false] at hbranch
  obtain ⟨t, hkind, rfl⟩ : ∃ t : Token,
      (t.kind = .number ∨ t.kind = .string ∨ t.kind = .boolean) ∧ node = .token t := by
    rcases hbranch with rfl | rfl | rfl
    all_goals
      obtain ⟨t, hkind, rfl⟩ := builds_terminal.mp hbuilds
      exact ⟨t, by simp [hkind], rfl⟩
  obtain ⟨value, heq⟩ := Token.eq_literal hkind
  exact ⟨value, t.line, congrArg Node.token heq⟩

theorem operator_of_builds (hbuilds : operator.Builds node) :
    ∃ (operator : Operator) (line : Nat), node = .symbol operator.symbol line := by
  obtain ⟨branch, hbranch, hbuilds⟩ := builds_alternative.mp hbuilds
  simp only [List.mem_cons, List.not_mem_nil, or_false] at hbranch
  rcases hbranch with rfl | rfl | rfl | rfl | rfl | rfl | rfl
  all_goals obtain ⟨line, rfl⟩ := symbol_of_builds hbuilds
  · exact ⟨.add, line, rfl⟩
  · exact ⟨.subtract, line, rfl⟩
  · exact ⟨.multiply, line, rfl⟩
  · exact ⟨.divide, line, rfl⟩
  · exact ⟨.less, line, rfl⟩
  · exact ⟨.equal, line, rfl⟩
  · exact ⟨.both, line, rfl⟩

mutual

theorem operand_of_builds {node : Node} (hbuilds : operand.Builds node) :
    ∃ operand : Operand, node = operand.tree := by
  simp only [operand, builds_alternative, List.mem_cons, List.not_mem_nil, or_false,
    exists_eq_or_imp, exists_eq_left, builds_deferred, builds_sequence, buildsAll_nil,
    buildsAll_cons, builds_reference] at hbuilds
  -- a constant, a name or an expression in parentheses
  rcases hbuilds with ⟨_, ⟨_, _, hliteral, rfl, rfl⟩, rfl⟩ | ⟨_, ⟨_, _, hname, rfl, rfl⟩, rfl⟩ |
    ⟨_, ⟨_, _, hopen, ⟨inner, _, hinner, ⟨_, _, hclose, rfl, rfl⟩, rfl⟩, rfl⟩, rfl⟩
  · obtain ⟨value, line, rfl⟩ := literal_of_builds hliteral
    exact ⟨.literal value line, rfl⟩
  · obtain ⟨text, line, rfl⟩ := name_of_builds hname
    exact ⟨.name text line, rfl⟩
  · obtain ⟨openLine, rfl⟩ := symbol_of_builds hopen
    obtain ⟨inner, rfl⟩ := expression_of_builds hinner
    obtain ⟨closeLine, rfl⟩ := symbol_of_builds hclose
    exact ⟨.group openLine inner closeLine, rfl⟩
termination_by (sizeOf node, 0)
decreasing_by
  subst_vars
  simp [Node.defer, Node.elements?]
  omega

theorem expression_of_builds {node : Node} (hbuilds : expression.Builds node) :
    ∃ expression : Expression, node = expression.tree := by
  simp only [expression, builds_alternative, List.mem_cons, List.not_mem_nil, or_false,
    exists_eq_or_imp, exists_eq_left, builds_deferred, builds_sequence, buildsAll_nil,
    buildsAll_cons, builds_optional] at hbuilds
  -- a negation, or an operand without and with a remainder
  rcases hbuilds with ⟨_, ⟨_, _, hnot, ⟨_, _, hoperand, rfl, rfl⟩, rfl⟩, rfl⟩ |
    ⟨_, ⟨left, _, hleft,
      ⟨_, _, rfl | ⟨_, _, hoperator, ⟨right, _, hright, rfl, rfl⟩, rfl⟩, rfl, rfl⟩,
      rfl⟩, rfl⟩
  · obtain ⟨line, rfl⟩ := symbol_of_builds hnot
    obtain ⟨operand, rfl⟩ := operand_of_builds hoperand
    exact ⟨.negation line operand, rfl⟩
  · obtain ⟨operand, rfl⟩ := operand_of_builds hleft
    exact ⟨.single operand, rfl⟩
  · obtain ⟨left, rfl⟩ := operand_of_builds hleft
    obtain ⟨operator, line, rfl⟩ := operator_of_builds hoperator
    obtain ⟨right, rfl⟩ := operand_of_builds hright
    exact ⟨.operation left operator line right, rfl⟩
termination_by (sizeOf node, 1)
decreasing_by
  all_goals
    subst_vars
    simp [Node.defer, Node.elements?]
    omega

end

/-- The optional part of a declaration. -/
theorem initializer_of_builds
    (hbuilds : (optional (sequence (symbol .assign) [expression])).Builds node) :
    ∃ initializer? : Option Initializer, node = Initializer.tree? initializer? := by
  rcases builds_optional.mp hbuilds with rfl | hbuilds
  · exact ⟨none, rfl⟩
  · simp only [builds_sequence, buildsAll_nil, buildsAll_cons] at hbuilds
    obtain ⟨_, _, hassign, ⟨_, _, hsource, rfl, rfl⟩, rfl⟩ := hbuilds
    obtain ⟨line, rfl⟩ := symbol_of_builds hassign
    obtain ⟨source, rfl⟩ := expression_of_builds hsource
    exact ⟨some ⟨line, source⟩, rfl⟩

theorem declaration_of_builds (hbuilds : declaration.Builds node) :
    ∃ statement : Statement, node = statement.tree := by
  simp only [declaration, builds_deferred, builds_sequence, buildsAll_nil, buildsAll_cons]
    at hbuilds
  obtain ⟨_, ⟨_, _, hvar, ⟨_, _, hname, ⟨_, _, hcolon, ⟨_, _, hty, ⟨_, _, hinitializer, rfl, rfl⟩,
    rfl⟩, rfl⟩, rfl⟩, rfl⟩, rfl⟩ := hbuilds
  obtain ⟨line, rfl⟩ := keyword_of_builds hvar
  obtain ⟨name, nameLine, rfl⟩ := name_of_builds hname
  obtain ⟨colonLine, rfl⟩ := symbol_of_builds hcolon
  obtain ⟨ty, tyLine, rfl⟩ := typeName_of_builds hty
  obtain ⟨initializer?, rfl⟩ := initializer_of_builds hinitializer
  exact ⟨.declaration line name nameLine colonLine ty tyLine initializer?, rfl⟩

theorem assignment_of_builds (hbuilds : assignment.Builds node) :
    ∃ statement : Statement, node = statement.tree := by
  simp only [assignment, builds_deferred, builds_sequence, buildsAll_nil, buildsAll_cons] at hbuilds
  obtain ⟨_, ⟨_, _, hname, ⟨_, _, hassign, ⟨_, _, hsource, rfl, rfl⟩, rfl⟩, rfl⟩, rfl⟩ := hbuilds
  obtain ⟨name, line, rfl⟩ := name_of_builds hname
  obtain ⟨assignLine, rfl⟩ := symbol_of_builds hassign
  obtain ⟨source, rfl⟩ := expression_of_builds hsource
  exact ⟨.assignment name line assignLine source, rfl⟩

theorem printing_of_builds (hbuilds : printing.Builds node) :
    ∃ statement : Statement, node = statement.tree := by
  simp only [printing, builds_deferred, builds_sequence, buildsAll_nil, buildsAll_cons] at hbuilds
  obtain ⟨_, ⟨_, _, hprint, ⟨_, _, hsource, rfl, rfl⟩, rfl⟩, rfl⟩ := hbuilds
  obtain ⟨line, rfl⟩ := keyword_of_builds hprint
  obtain ⟨source, rfl⟩ := expression_of_builds hsource
  exact ⟨.printing line source, rfl⟩

theorem reading_of_builds (hbuilds : reading.Builds node) :
    ∃ statement : Statement, node = statement.tree := by
  simp only [reading, builds_deferred, builds_sequence, buildsAll_nil, buildsAll_cons] at hbuilds
  obtain ⟨_, ⟨_, _, hread, ⟨_, _, hname, rfl, rfl⟩, rfl⟩, rfl⟩ := hbuilds
  obtain ⟨line, rfl⟩ := keyword_of_builds hread
  obtain ⟨name, nameLine, rfl⟩ := name_of_builds hname
  exact ⟨.reading line name nameLine, rfl⟩

theorem assertion_of_builds (hbuilds : assertion.Builds node) :
    ∃ statement : Statement, node = statement.tree := by
  simp only [assertion, builds_deferred, builds_sequence, buildsAll_nil, buildsAll_cons] at hbuilds
  obtain ⟨_, ⟨_, _, hassert, ⟨_, _, hopen, ⟨_, _, hcondition, ⟨_, _, hclose, rfl, rfl⟩, rfl⟩, rfl⟩,
    rfl⟩, rfl⟩ := hbuilds
  obtain ⟨line, rfl⟩ := keyword_of_builds hassert
  obtain ⟨openLine, rfl⟩ := symbol_of_builds hopen
  obtain ⟨condition, rfl⟩ := expression_of_builds hcondition
  obtain ⟨closeLine, rfl⟩ := symbol_of_builds hclose
  exact ⟨.assertion line openLine condition closeLine, rfl⟩

/-- A loop is a statement if its body, a smaller node, is a program. -/
theorem loop_of_builds (hbuilds : loop.Builds node)
    (hprogram : ∀ body : Node, sizeOf body < sizeOf node → statements.Builds body →
      ∃ program : Program, body = program.tree) :
    ∃ statement : Statement, node = statement.tree := by
  simp only [loop, builds_deferred, builds_sequence, buildsAll_nil, buildsAll_cons,
    builds_reference] at hbuilds
  obtain ⟨_, ⟨_, _, hfor, ⟨_, _, hname, ⟨_, _, hin, ⟨_, _, hfirst, ⟨_, _, hrange, ⟨_, _, hlast,
    ⟨_, _, hdo, ⟨body, _, hbody, ⟨_, _, hend, ⟨_, _, hclosing, rfl, rfl⟩, rfl⟩, rfl⟩, rfl⟩, rfl⟩,
    rfl⟩, rfl⟩, rfl⟩, rfl⟩, rfl⟩, rfl⟩ := hbuilds
  -- only the body may hold statements again, and it is a smaller tree
  obtain ⟨body, rfl⟩ := hprogram body (by simp; omega) hbody
  obtain ⟨forLine, rfl⟩ := keyword_of_builds hfor
  obtain ⟨name, line, rfl⟩ := name_of_builds hname
  obtain ⟨inLine, rfl⟩ := keyword_of_builds hin
  obtain ⟨first, rfl⟩ := expression_of_builds hfirst
  obtain ⟨rangeLine, rfl⟩ := symbol_of_builds hrange
  obtain ⟨last, rfl⟩ := expression_of_builds hlast
  obtain ⟨doLine, rfl⟩ := keyword_of_builds hdo
  obtain ⟨endLine, rfl⟩ := keyword_of_builds hend
  obtain ⟨closingLine, rfl⟩ := keyword_of_builds hclosing
  exact ⟨.loop forLine name line inLine first rangeLine last doLine body endLine closingLine, rfl⟩

mutual

theorem statement_of_builds {node : Node} (hbuilds : statement.Builds node) :
    ∃ statement : Statement, node = statement.tree := by
  simp only [statement, builds_alternative, List.mem_cons, List.not_mem_nil, or_false,
    exists_eq_or_imp, exists_eq_left] at hbuilds
  rcases hbuilds with hbuilds | hbuilds | hbuilds | hbuilds | hbuilds | hbuilds
  · exact declaration_of_builds hbuilds
  · exact assignment_of_builds hbuilds
  · exact printing_of_builds hbuilds
  · exact reading_of_builds hbuilds
  · exact assertion_of_builds hbuilds
  · exact loop_of_builds hbuilds fun body _ hbody => statements_of_builds hbody
termination_by (sizeOf node, 0)

/-- What the production for whole programs describes are trees of programs. -/
theorem statements_of_builds {node : Node} (hbuilds : statements.Builds node) :
    ∃ program : Program, node = program.tree := by
  simp only [statements, builds_deferred, builds_repeated] at hbuilds
  obtain ⟨_, ⟨nodes, hnodes, rfl⟩, rfl⟩ := hbuilds
  obtain ⟨program, rfl⟩ := occurrences_of_builds hnodes
  exact ⟨program, rfl⟩
termination_by (sizeOf node, 2)
decreasing_by
  subst_vars
  simp
  omega

theorem occurrences_of_builds {nodes : List Node}
    (hnodes : ∀ node ∈ nodes, (sequence statement [symbol .semicolon]).Builds node) :
    ∃ program : Program, nodes = program.occurrences := by
  cases nodes with
  | nil => exact ⟨.done, rfl⟩
  | cons node nodes =>
      obtain ⟨hnode, htail⟩ := List.forall_mem_cons.mp hnodes
      simp only [builds_sequence, buildsAll_nil, buildsAll_cons] at hnode
      obtain ⟨head, _, hhead, ⟨_, _, hsemicolon, rfl, rfl⟩, rfl⟩ := hnode
      obtain ⟨statement, rfl⟩ := statement_of_builds hhead
      obtain ⟨semicolonLine, rfl⟩ := symbol_of_builds hsemicolon
      obtain ⟨rest, rfl⟩ := occurrences_of_builds htail
      exact ⟨.next statement semicolonLine rest, rfl⟩
termination_by (sizeOf nodes, 1)

end

end Rule

end Primer
