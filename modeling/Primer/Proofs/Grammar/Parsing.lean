import Primer.Proofs.Grammar.Recognition

/-!
# Parsing is the inverse of writing a program down

A list of tokens is parsed if and only if it begins with the tokens of a
program and an end marker, and then the tree is the program's.  No two programs
have the same tree, hence no two have the same tokens.
-/

namespace Primer

open Stateful

/-! ## What is parsed -/

theorem consumeProgram_eq_ok {s s' : TokenStream} {node : Node} :
    consumeProgram s = .ok node s' ↔
      ∃ (program : Program) (line : Nat),
        node = program.tree ∧ s.Moves (program.tokens ++ [⟨.endMarker, line⟩]) s' := by
  constructor
  · intro hprogram
    obtain ⟨node, s₁, hstatements, hrest⟩ := bind_eq_ok.mp hprogram
    obtain ⟨t, s₂, hend, heq⟩ := bind_eq_ok.mp hrest
    cases heq
    have hnode : Rule.statements.consume s = .ok node s₁ := by
      rw [← hstatements, Production.consume_eq_rule]
      rfl
    obtain ⟨hbuilds, hmoves⟩ := Rule.explains_consume hnode
    obtain ⟨program, rfl⟩ := Rule.statements_of_builds hbuilds
    obtain ⟨hkind, hmovesEnd⟩ := TokenStream.expect_eq_ok.mp hend
    exact ⟨program, t.line, rfl, hmoves.trans (Token.eq_endMarker hkind ▸ hmovesEnd)⟩
  · rintro ⟨program, line, rfl, hmoves⟩
    -- the end marker behind the statements is what the repetition stops at
    obtain ⟨s₁, hprogram, hend⟩ := hmoves.split
    have hstatements : Production.consume .statements s = .ok program.tree s₁ := by
      rw [Production.consume_eq_rule]
      exact Rule.consume_statements program hprogram (by rw [hend.nextKind?]; rfl)
    exact (bind_of_ok hstatements _).trans
      (bind_of_ok (TokenStream.expect_eq_ok.mpr ⟨rfl, hend⟩) _)

/-- The lists of tokens that are parsed, and their trees. -/
theorem parse_eq_ok {tokens : List Token} {node : Node} :
    parse tokens = .ok node ↔
      ∃ (program : Program) (line : Nat) (rest : List Token),
        node = program.tree ∧ tokens = program.tokens ++ ⟨.endMarker, line⟩ :: rest := by
  unfold parse
  constructor
  · intro hparse
    split at hparse
    · next program s' hprogram =>
        cases hparse
        obtain ⟨program, line, rfl, hmoves⟩ := consumeProgram_eq_ok.mp hprogram
        exact ⟨program, line, s'.ahead, rfl, by simpa using hmoves.ahead⟩
    · cases hparse
  · rintro ⟨program, line, rest, rfl, rfl⟩
    have hahead : (TokenStream.ofTokens (program.tokens ++ ⟨.endMarker, line⟩ :: rest)).ahead =
        (program.tokens ++ [⟨.endMarker, line⟩]) ++ rest := by
      simp
    obtain ⟨s', hmoves, -⟩ := TokenStream.exists_moves _ hahead
    rw [consumeProgram_eq_ok.mpr ⟨program, line, rfl, hmoves⟩]

/-! ## Trees determine programs -/

theorem Value.lexeme_injective {v w : Value} (heq : v.lexeme = w.lexeme) : v = w := by
  cases v <;> cases w <;> simp_all [Value.lexeme]

theorem Operator.symbol_injective {o p : Operator} (heq : o.symbol = p.symbol) : o = p := by
  cases o <;> cases p <;> first | rfl | cases heq

mutual

theorem Operand.tree_injective {o p : Operand} (heq : o.tree = p.tree) : o = p := by
  cases o with
  | literal value line =>
      cases p <;> simp only [Operand.tree, Node.deferred.injEq, reduceCtorEq, false_and] at heq
      next value' line' =>
        simp at heq
        rw [Value.lexeme_injective heq.1, heq.2]
  | name name line =>
      cases p <;> simp_all [Operand.tree, Node.name]
  | group openLine inner closeLine =>
      cases p <;> simp only [Operand.tree, Node.deferred.injEq, reduceCtorEq, false_and] at heq
      next openLine' inner' closeLine' =>
        simp [Node.symbol] at heq
        rw [heq.1, Expression.tree_injective heq.2.1, heq.2.2]

theorem Expression.tree_injective {e f : Expression} (heq : e.tree = f.tree) : e = f := by
  cases e with
  | negation line operand =>
      cases f <;> simp [Expression.tree, Node.symbol] at heq
      rw [heq.1, Operand.tree_injective heq.2]
  | single operand =>
      cases f <;> simp [Expression.tree] at heq
      rw [Operand.tree_injective heq]
  | operation left operator line right =>
      cases f <;> simp [Expression.tree, Node.symbol] at heq
      rw [Operand.tree_injective heq.1, Operator.symbol_injective heq.2.1.1, heq.2.1.2,
        Operand.tree_injective heq.2.2]

end

theorem Initializer.tree?_injective {i j : Option Initializer}
    (heq : Initializer.tree? i = Initializer.tree? j) : i = j := by
  cases i <;> cases j <;> simp [Initializer.tree?, Node.symbol] at heq
  · rfl
  · next i j =>
      obtain ⟨hline, hsource⟩ := heq
      cases i
      cases j
      simp only [Option.some.injEq, Initializer.mk.injEq]
      exact ⟨hline, Expression.tree_injective hsource⟩

mutual

theorem Statement.tree_injective {s t : Statement} (heq : s.tree = t.tree) : s = t := by
  cases s with
  | declaration line name nameLine colonLine ty tyLine initializer? =>
      cases t <;> simp [Statement.tree, Node.keyword, Node.name, Node.symbol] at heq
      simp [heq, Initializer.tree?_injective heq.2.2.2.2]
  | assignment name line assignLine source =>
      cases t <;> simp [Statement.tree, Node.name, Node.symbol] at heq
      simp [heq, Expression.tree_injective heq.2.2]
  | printing line source =>
      cases t <;> simp [Statement.tree, Node.keyword] at heq
      simp [heq, Expression.tree_injective heq.2]
  | reading line name nameLine =>
      cases t <;> simp [Statement.tree, Node.keyword, Node.name] at heq
      simp [heq]
  | assertion line openLine condition closeLine =>
      cases t <;> simp [Statement.tree, Node.keyword, Node.symbol] at heq
      simp [heq, Expression.tree_injective heq.2.2.1]
  | loop forLine name line inLine first rangeLine last doLine body endLine closingLine =>
      cases t <;> simp [Statement.tree, Node.keyword, Node.name, Node.symbol] at heq
      -- the body is compared as a list of occurrences, since the tree holds it so
      next forLine' name' line' inLine' first' rangeLine' last' doLine' body' endLine' closingLine' =>
        have hbody : body.occurrences = body'.occurrences := by simp [heq]
        have hfirst : first.tree = first'.tree := by simp [heq]
        have hlast : last.tree = last'.tree := by simp [heq]
        simp [heq, Expression.tree_injective hfirst, Expression.tree_injective hlast,
          Program.occurrences_injective hbody]

theorem Program.occurrences_injective {p q : Program} (heq : p.occurrences = q.occurrences) :
    p = q := by
  cases p with
  | done => cases q <;> simp [Program.occurrences] at heq ⊢
  | next statement semicolonLine rest =>
      cases q <;> simp [Program.occurrences, Node.symbol] at heq
      obtain ⟨⟨hstatement, hline⟩, hrest⟩ := heq
      rw [Statement.tree_injective hstatement, hline, Program.occurrences_injective hrest]

end

theorem Program.tree_injective {p q : Program} (heq : p.tree = q.tree) : p = q := by
  simp only [Program.tree, Node.deferred.injEq, true_and] at heq
  exact Program.occurrences_injective heq

/-- No two programs have the same tokens. -/
theorem Program.tokens_injective {p q : Program} (heq : p.tokens = q.tokens) : p = q := by
  have hp : parse (p.tokens ++ [⟨.endMarker, 1⟩]) = .ok p.tree :=
    parse_eq_ok.mpr ⟨p, 1, [], rfl, rfl⟩
  have hq : parse (q.tokens ++ [⟨.endMarker, 1⟩]) = .ok q.tree :=
    parse_eq_ok.mpr ⟨q, 1, [], rfl, rfl⟩
  rw [heq, hq] at hp
  exact (Program.tree_injective (Except.ok.inj hp)).symm

end Primer
