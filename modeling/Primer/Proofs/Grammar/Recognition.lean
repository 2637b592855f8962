import Primer.Proofs.Grammar.Derivation
import Primer.Proofs.Grammar.Tokens

/-!
# Trees of programs are parsed

The converse of `Rule.statements_of_builds`: on the tokens of a program the
rules of the grammar succeed, with the tree of the program, although they look
only one token ahead and never go back.

What this needs is a look at the first token of every construct, and at the
token after every construct that has an optional end: an expression must not be
followed by an operator, and a program not by the beginning of a statement.
-/

namespace Primer

open Stateful

/-! ## Streams with known tokens ahead -/

namespace TokenStream

variable {s s' : TokenStream}

theorem Moves.split_cons {t : Token} {ts : List Token} {s'' : TokenStream}
    (hmoves : s.Moves (t :: ts) s'') : ∃ s', s.Moves [t] s' ∧ s'.Moves ts s'' := by
  rw [← List.singleton_append] at hmoves
  exact hmoves.split

theorem Moves.nextKind? {t : Token} {ts : List Token} (hmoves : s.Moves (t :: ts) s') :
    s.nextKind? = some t.kind := by
  simp [TokenStream.nextKind?, peek?, hmoves.ahead]

end TokenStream

/-! ## Rules that succeed -/

namespace Rule

variable {s s' s'' : TokenStream}

/-- Consumes rules one after the other. -/
abbrev consumeAll (rules : List Rule) : ParseM (List Node) := consumeAllFor Production.consume rules

theorem consume_terminal {t : Token} (hmoves : s.Moves [t] s') :
    (terminal t.kind).consume s = .ok (.token t) s' := by
  have hexpect := TokenStream.expect_eq_ok.mpr ⟨rfl, hmoves⟩
  exact bind_of_ok hexpect _

theorem consume_symbol {sym : Symbol} {line : Nat} (hmoves : s.Moves [⟨.symbol sym, line⟩] s') :
    (symbol sym).consume s = .ok (.symbol sym line) s' := consume_terminal hmoves

theorem consume_keyword {k : Keyword} {line : Nat} (hmoves : s.Moves [⟨.keyword k, line⟩] s') :
    (keyword k).consume s = .ok (.keyword k line) s' := consume_terminal hmoves

theorem consume_name {text : String} {line : Nat} (hmoves : s.Moves [⟨.name text, line⟩] s') :
    (terminal .name).consume s = .ok (.name text line) s' := consume_terminal hmoves

theorem consumeAll_nil : consumeAll [] s = .ok [] s := rfl

theorem consumeAll_cons {rule : Rule} {rules : List Rule} {node : Node} {nodes : List Node}
    (hrule : rule.consume s = .ok node s') (hrules : consumeAll rules s' = .ok nodes s'') :
    consumeAll (rule :: rules) s = .ok (node :: nodes) s'' :=
  (bind_of_ok hrule _).trans (bind_of_ok hrules _)

theorem consume_sequence {first : Rule} {others : List Rule} {nodes : List Node}
    (hall : consumeAll (first :: others) s = .ok nodes s') :
    (sequence first others).consume s = .ok (.list nodes) s' := by
  obtain ⟨node, s₁, hfirst, hrest⟩ := bind_eq_ok.mp hall
  obtain ⟨nodes, s₂, hothers, heq⟩ := bind_eq_ok.mp hrest
  cases heq
  exact (bind_of_ok hfirst _).trans (bind_of_ok hothers _)

theorem consume_deferred {action : Action} {body : Rule} {node : Node}
    (hbody : body.consume s = .ok node s') :
    (deferred action body).consume s = .ok (node.defer action) s' := bind_of_ok hbody _

theorem consume_reference {production : Production} :
    (reference production).consume = production.rule.consume := production.consume_eq_rule

theorem consume_present {body : Rule} (hstarts : body.startsWith s.nextKind? = true) :
    (optional body).consume s = body.consume s := by
  simp only [consume, consumeFor, if_pos hstarts]

theorem consume_absent {body : Rule} (hstarts : body.startsWith s.nextKind? = false) :
    (optional body).consume s = .ok (.list []) s := by
  simp [consume, consumeFor, hstarts]

theorem consume_chosen {branch : Rule} {branches : List Rule}
    (hstarts : branch.startsWith s.nextKind? = true) :
    (alternative (branch :: branches)).consume s = branch.consume s := by
  simp only [consume, consumeFor, consumeFirstFor, if_pos hstarts]

theorem consume_passed {branch : Rule} {branches : List Rule}
    (hstarts : branch.startsWith s.nextKind? = false) :
    (alternative (branch :: branches)).consume s = (alternative branches).consume s := by
  simp [consume, consumeFor, consumeFirstFor, hstarts]

/-- The first branch that can begin with the next token is the one consumed. -/
theorem consume_branch {branches : List Rule} (branch : Rule) {next : Option Kind}
    (hnext : s.nextKind? = next)
    (hbranch : branches.find? (fun rule => rule.startsWith next) = some branch) :
    (alternative branches).consume s = branch.consume s := by
  subst hnext
  induction branches with
  | nil => cases hbranch
  | cons candidate branches ih =>
      cases hstarts : candidate.startsWith s.nextKind? with
      | true =>
          simp only [List.find?_cons, hstarts] at hbranch
          cases hbranch
          exact consume_chosen hstarts
      | false =>
          simp only [List.find?_cons, hstarts] at hbranch
          exact (consume_passed hstarts).trans (ih hbranch)

end Rule

/-! ## Expressions -/

/-- The first token of an operand tells that it is one, and that it is no negation. -/
theorem Operand.exists_first (operand : Operand) :
    ∃ t ts, operand.tokens = t :: ts ∧ Rule.operand.startsWith (some t.kind) = true ∧
      t.kind ≠ .symbol .exclamation := by
  cases operand with
  | literal value line => cases value <;> exact ⟨_, _, rfl, rfl, nofun⟩
  | name name line => exact ⟨_, _, rfl, rfl, nofun⟩
  | group openLine inner closeLine => exact ⟨_, _, rfl, rfl, nofun⟩

namespace Rule

theorem consume_literal {s s' : TokenStream} {value : Value} {line : Nat}
    (hmoves : s.Moves [⟨value.lexeme, line⟩] s') :
    literal.consume s = .ok (.token ⟨value.lexeme, line⟩) s' := by
  have hnext := hmoves.nextKind?
  cases value with
  | int i => exact (consume_branch (terminal .number) hnext rfl).trans (consume_terminal hmoves)
  | string content =>
      exact (consume_branch (terminal .string) hnext rfl).trans (consume_terminal hmoves)
  | bool b => exact (consume_branch (terminal .boolean) hnext rfl).trans (consume_terminal hmoves)

/-- Among the rules for symbols the one for the next token is chosen. -/
theorem consume_symbols {s s' : TokenStream} {sym : Symbol} {line : Nat} (symbols : List Symbol)
    (hmem : sym ∈ symbols) (hmoves : s.Moves [⟨.symbol sym, line⟩] s') :
    (alternative (symbols.map symbol)).consume s = .ok (.symbol sym line) s' := by
  have hnext : s.nextKind? = some (.symbol sym) := hmoves.nextKind?
  induction symbols with
  | nil => cases hmem
  | cons candidate symbols ih =>
      by_cases hcandidate : candidate = sym
      · subst hcandidate
        rw [List.map_cons, consume_chosen (by rw [hnext]; exact beq_self_eq_true _)]
        exact consume_symbol hmoves
      · rw [List.map_cons, consume_passed (by
          rw [hnext]
          exact beq_false_of_ne (by simpa [eq_comm] using hcandidate))]
        exact ih ((List.mem_cons.mp hmem).resolve_left (Ne.symm hcandidate))

theorem consume_operator {s s' : TokenStream} {operator : Operator} {line : Nat}
    (hmoves : s.Moves [⟨.symbol operator.symbol, line⟩] s') :
    Rule.operator.consume s = .ok (.symbol operator.symbol line) s' :=
  consume_symbols [.plus, .minus, .star, .slash, .less, .equal, .ampersand]
    (by cases operator <;> decide) hmoves

theorem operator_startsWith_symbol (operator : Operator) :
    Rule.operator.startsWith (some (.symbol operator.symbol)) = true := by
  cases operator <;> decide

/-- Where an operand is ahead, an expression is not a negation. -/
theorem consume_expression_at_operand (operand : Operand) {s s' : TokenStream}
    (hmoves : s.Moves operand.tokens s') :
    Rule.expression.consume s = (deferred .operation (sequence Rule.operand
      [.optional (sequence Rule.operator [Rule.operand])])).consume s := by
  obtain ⟨t, ts, htokens, hstarts, hnot⟩ := operand.exists_first
  have hnext : s.nextKind? = some t.kind := (htokens ▸ hmoves).nextKind?
  rw [Rule.expression, consume_passed (by
    rw [hnext]
    exact beq_false_of_ne (by simpa using hnot))]
  exact consume_chosen (by rw [hnext]; exact hstarts)

mutual

/-- Operands are parsed whatever follows them. -/
theorem consume_operand (operand : Operand) {s s' : TokenStream}
    (hmoves : s.Moves operand.tokens s') :
    Rule.operand.consume s = .ok operand.tree s' := by
  cases operand with
  | literal value line =>
      have hnext := hmoves.nextKind?
      rw [Rule.operand, consume_chosen (by rw [hnext]; cases value <;> rfl)]
      exact consume_deferred (consume_sequence (consumeAll_cons (consume_literal hmoves)
        consumeAll_nil))
  | name name line =>
      have hnext := hmoves.nextKind?
      refine (consume_branch _ hnext rfl).trans ?_
      exact consume_deferred (consume_sequence (consumeAll_cons (consume_name hmoves)
        consumeAll_nil))
  | group openLine inner closeLine =>
      have hnext := hmoves.nextKind?
      rw [Operand.tokens_group] at hmoves
      obtain ⟨s₁, hopen, hmoves⟩ := hmoves.split_cons
      obtain ⟨s₂, hinner, hclose⟩ := hmoves.split
      refine (consume_branch _ hnext rfl).trans ?_
      -- the expression inside is followed by the closing parenthesis, which does not continue it
      refine consume_deferred (consume_sequence (consumeAll_cons (consume_symbol hopen)
        (consumeAll_cons ?_ (consumeAll_cons (consume_symbol hclose) consumeAll_nil))))
      rw [consume_reference]
      exact consume_expression inner hinner (by rw [hclose.nextKind?]; rfl)

/-- Expressions are parsed where no operator follows them. -/
theorem consume_expression (expression : Expression) {s s' : TokenStream}
    (hmoves : s.Moves expression.tokens s')
    (hfollow : Rule.operator.startsWith s'.nextKind? = false) :
    Rule.expression.consume s = .ok expression.tree s' := by
  cases expression with
  | negation line operand =>
      rw [Expression.tokens_negation] at hmoves
      have hnext := hmoves.nextKind?
      obtain ⟨s₁, hnot, hoperand⟩ := hmoves.split_cons
      refine (consume_branch _ hnext rfl).trans ?_
      exact consume_deferred (consume_sequence (consumeAll_cons (consume_symbol hnot)
        (consumeAll_cons (consume_operand operand hoperand) consumeAll_nil)))
  | single operand =>
      rw [Expression.tokens_single] at hmoves
      rw [consume_expression_at_operand operand hmoves]
      -- nothing of the remainder is there, which one token is enough to tell
      have habsent : (optional (sequence Rule.operator [Rule.operand])).consume s' =
          .ok (.list []) s' := consume_absent hfollow
      exact consume_deferred (consume_sequence (consumeAll_cons (consume_operand operand hmoves)
        (consumeAll_cons habsent consumeAll_nil)))
  | operation left operator line right =>
      rw [Expression.tokens_operation] at hmoves
      obtain ⟨s₁, hleft, hmoves⟩ := hmoves.split
      have hnext := hmoves.nextKind?
      obtain ⟨s₂, hoperator, hright⟩ := hmoves.split_cons
      rw [consume_expression_at_operand left hleft]
      refine consume_deferred (consume_sequence (consumeAll_cons (consume_operand left hleft)
        (consumeAll_cons ?_ consumeAll_nil)))
      rw [consume_present (by rw [hnext]; exact operator_startsWith_symbol operator)]
      exact consume_sequence (consumeAll_cons (consume_operator hoperator)
        (consumeAll_cons (consume_operand right hright) consumeAll_nil))

end

end Rule

/-! ## Statements -/

namespace Rule

/-- The optional part of a declaration is parsed in front of a semicolon. -/
theorem consume_initializer (initializer? : Option Initializer) {s s' : TokenStream}
    (hmoves : s.Moves (Initializer.tokens initializer?) s')
    (hfollow : s'.nextKind? = some (.symbol .semicolon)) :
    (optional (sequence (symbol .assign) [expression])).consume s =
      .ok (Initializer.tree? initializer?) s' := by
  cases initializer? with
  | none =>
      cases hmoves.unique (.refl s)
      exact consume_absent (by rw [hfollow]; rfl)
  | some initializer =>
      obtain ⟨line, source⟩ := initializer
      have hnext := hmoves.nextKind?
      obtain ⟨s₁, hassign, hsource⟩ := hmoves.split_cons
      rw [consume_present (by rw [hnext]; rfl)]
      exact consume_sequence (consumeAll_cons (consume_symbol hassign)
        (consumeAll_cons (consume_expression source hsource (by rw [hfollow]; rfl)) consumeAll_nil))

/-- A statement and its semicolon, as they are repeated. -/
abbrev occurrence : Rule := sequence statement [symbol .semicolon]

/-- The first token of a statement tells that it is one. -/
theorem statement_startsWith {statement : Statement} {rest : List Token} {s s' : TokenStream}
    (hmoves : s.Moves (statement.tokens ++ rest) s') :
    Rule.statement.startsWith s.nextKind? = true := by
  cases statement
  all_goals
    simp only [Statement.tokens_declaration, Statement.tokens_assignment,
      Statement.tokens_printing, Statement.tokens_reading, Statement.tokens_assertion,
      Statement.tokens_loop, List.cons_append] at hmoves
    rw [hmoves.nextKind?]
    rfl

mutual

/-- Statements are parsed in front of a semicolon. -/
theorem consume_statement (statement : Statement) {s s' : TokenStream}
    (hmoves : s.Moves statement.tokens s') (hfollow : s'.nextKind? = some (.symbol .semicolon)) :
    Rule.statement.consume s = .ok statement.tree s' := by
  -- a semicolon ends the expression that the statement may end with
  have hoperator : Rule.operator.startsWith s'.nextKind? = false := by rw [hfollow]; rfl
  cases statement with
  | declaration line name nameLine colonLine ty tyLine initializer? =>
      rw [Statement.tokens_declaration] at hmoves
      have hnext := hmoves.nextKind?
      obtain ⟨s₁, hvar, hmoves⟩ := hmoves.split_cons
      obtain ⟨s₂, hname, hmoves⟩ := hmoves.split_cons
      obtain ⟨s₃, hcolon, hmoves⟩ := hmoves.split_cons
      obtain ⟨s₄, hty, hinitializer⟩ := hmoves.split_cons
      refine (consume_branch declaration hnext rfl).trans ?_
      exact consume_deferred (consume_sequence (consumeAll_cons (consume_keyword hvar)
        (consumeAll_cons (consume_name hname) (consumeAll_cons (consume_symbol hcolon)
          (consumeAll_cons (consume_terminal hty)
            (consumeAll_cons (consume_initializer initializer? hinitializer hfollow)
              consumeAll_nil))))))
  | assignment name line assignLine source =>
      rw [Statement.tokens_assignment] at hmoves
      have hnext := hmoves.nextKind?
      obtain ⟨s₁, hname, hmoves⟩ := hmoves.split_cons
      obtain ⟨s₂, hassign, hsource⟩ := hmoves.split_cons
      refine (consume_branch assignment hnext rfl).trans ?_
      exact consume_deferred (consume_sequence (consumeAll_cons (consume_name hname)
        (consumeAll_cons (consume_symbol hassign)
          (consumeAll_cons (consume_expression source hsource hoperator) consumeAll_nil))))
  | printing line source =>
      rw [Statement.tokens_printing] at hmoves
      have hnext := hmoves.nextKind?
      obtain ⟨s₁, hprint, hsource⟩ := hmoves.split_cons
      refine (consume_branch printing hnext rfl).trans ?_
      exact consume_deferred (consume_sequence (consumeAll_cons (consume_keyword hprint)
        (consumeAll_cons (consume_expression source hsource hoperator) consumeAll_nil)))
  | reading line name nameLine =>
      rw [Statement.tokens_reading] at hmoves
      have hnext := hmoves.nextKind?
      obtain ⟨s₁, hread, hname⟩ := hmoves.split_cons
      refine (consume_branch reading hnext rfl).trans ?_
      exact consume_deferred (consume_sequence (consumeAll_cons (consume_keyword hread)
        (consumeAll_cons (consume_name hname) consumeAll_nil)))
  | assertion line openLine condition closeLine =>
      rw [Statement.tokens_assertion] at hmoves
      have hnext := hmoves.nextKind?
      obtain ⟨s₁, hassert, hmoves⟩ := hmoves.split_cons
      obtain ⟨s₂, hopen, hmoves⟩ := hmoves.split_cons
      obtain ⟨s₃, hcondition, hclose⟩ := hmoves.split
      refine (consume_branch assertion hnext rfl).trans ?_
      exact consume_deferred (consume_sequence (consumeAll_cons (consume_keyword hassert)
        (consumeAll_cons (consume_symbol hopen)
          (consumeAll_cons (consume_expression condition hcondition (by
            rw [hclose.nextKind?]; rfl))
            (consumeAll_cons (consume_symbol hclose) consumeAll_nil)))))
  | loop forLine name line inLine first rangeLine last doLine body endLine closingLine =>
      rw [Statement.tokens_loop] at hmoves
      have hnext := hmoves.nextKind?
      obtain ⟨s₁, hfor, hmoves⟩ := hmoves.split_cons
      obtain ⟨s₂, hname, hmoves⟩ := hmoves.split_cons
      obtain ⟨s₃, hin, hmoves⟩ := hmoves.split_cons
      obtain ⟨s₄, hfirst, hmoves⟩ := hmoves.split
      -- each part of the head is followed by a token that is no operator
      have hrangeNext := hmoves.nextKind?
      obtain ⟨s₅, hrange, hmoves⟩ := hmoves.split_cons
      obtain ⟨s₆, hlast, hmoves⟩ := hmoves.split
      have hdoNext := hmoves.nextKind?
      obtain ⟨s₇, hdo, hmoves⟩ := hmoves.split_cons
      obtain ⟨s₈, hbody, hmoves⟩ := hmoves.split
      have hendNext := hmoves.nextKind?
      obtain ⟨s₉, hend, hclosing⟩ := hmoves.split_cons
      have hstatements : (reference .statements).consume s₇ = .ok body.tree s₈ := by
        rw [consume_reference]
        exact consume_statements body hbody (by rw [hendNext]; rfl)
      refine (consume_branch loop hnext rfl).trans ?_
      exact consume_deferred (consume_sequence (consumeAll_cons (consume_keyword hfor)
        (consumeAll_cons (consume_name hname) (consumeAll_cons (consume_keyword hin)
          (consumeAll_cons (consume_expression first hfirst (by rw [hrangeNext]; rfl))
            (consumeAll_cons (consume_symbol hrange)
              (consumeAll_cons (consume_expression last hlast (by rw [hdoNext]; rfl))
                (consumeAll_cons (consume_keyword hdo) (consumeAll_cons hstatements
                  (consumeAll_cons (consume_keyword hend)
                    (consumeAll_cons (consume_keyword hclosing) consumeAll_nil)))))))))))

/-- Programs are parsed where no statement follows them. -/
theorem consume_statements (program : Program) {s s' : TokenStream}
    (hmoves : s.Moves program.tokens s')
    (hfollow : Rule.statement.startsWith s'.nextKind? = false) :
    Rule.statements.consume s = .ok program.tree s' := by
  have hstop : repeatWhile occurrence.startsWith occurrence.consume s' = .ok [] s' :=
    repeatWhile_stop hfollow
  have hoccurrences : repeatWhile occurrence.startsWith occurrence.consume s =
      .ok program.occurrences s' := by
    simp only [repeatWhile_of_moves program hmoves, hstop, List.append_nil]
  have hrepeated : (repeated occurrence).consume s = .ok (.list program.occurrences) s' :=
    bind_of_ok hoccurrences _
  exact consume_deferred hrepeated

/-- The statements of a program are taken off first, whatever follows. -/
theorem repeatWhile_of_moves (program : Program) {s s' : TokenStream}
    (hmoves : s.Moves program.tokens s') :
    repeatWhile occurrence.startsWith occurrence.consume s =
      match repeatWhile occurrence.startsWith occurrence.consume s' with
      | .ok nodes t => .ok (program.occurrences ++ nodes) t
      | .error failure t => .error failure t := by
  cases program with
  | done =>
      cases hmoves.unique (.refl s)
      cases repeatWhile occurrence.startsWith occurrence.consume s <;> rfl
  | next statement semicolonLine rest =>
      rw [Program.tokens_next] at hmoves
      -- the first token of a statement is what makes the repetition go on
      have hstarts := statement_startsWith hmoves
      obtain ⟨s₁, hstatement, hmoves⟩ := hmoves.split
      have hnext := hmoves.nextKind?
      obtain ⟨s₂, hsemicolon, hrest⟩ := hmoves.split_cons
      have hoccurrence := consume_sequence (consumeAll_cons
        (consume_statement statement hstatement hnext)
        (consumeAll_cons (consume_symbol hsemicolon) consumeAll_nil))
      -- the round takes the semicolon at least, so the repetition counts it as progress
      have hless : s₂.remaining < s.remaining := by
        have := hstatement.remaining
        have := hsemicolon.remaining
        simp only [List.length_singleton] at this
        omega
      refine (repeatWhile_of_ok hstarts hoccurrence hless).trans ?_
      have hafter := repeatWhile_of_moves rest hrest
      cases hrepeat : repeatWhile occurrence.startsWith occurrence.consume s' with
      | ok nodes t =>
          rw [hrepeat] at hafter
          exact bind_of_ok hafter _
      | error failure t =>
          rw [hrepeat] at hafter
          exact bind_of_error hafter _

end

end Rule

end Primer
