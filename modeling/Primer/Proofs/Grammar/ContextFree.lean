import Mathlib.Computability.ContextFreeGrammar
import Primer.Proofs.Grammar.Parsing

/-!
# The language is context-free

The grammar as rewriting rules on strings of symbols.  The star and the options
of its usual form become nonterminals with an empty alternative:

```text
statements  = statement ";" statements | ε
statement   = "var" name ":" type initializer | name ":=" expression
            | "print" expression | "read" name | "assert" "(" expression ")"
            | "for" name "in" expression ".." expression "do" statements "end" "for"
initializer = ":=" expression | ε
expression  = "!" operand | operand remainder
remainder   = operator operand | ε
operator    = "+" | "-" | "*" | "/" | "<" | "=" | "&"
operand     = number | string | boolean | name | "(" expression ")"
```

A parser with one token of lookahead might accept less than that, and one that
confuses two constructs might accept more.  Neither is so: the kinds of tokens
that are parsed are exactly the words of this language.
-/

/-! ## Words of a grammar through the meaning of its nonterminals -/

namespace ContextFreeGrammar

/-- Strings of terminals and nonterminals. -/
abbrev Form (T N : Type*) := List (Symbol T N)

variable {T α : Type*} {g : ContextFreeGrammar T} {kindOf : α → T} {meaning : g.NT → Language α}
  {w : List α}

/-- The words that a form stands for, given the words that each nonterminal
stands for.  Words consist of letters that carry more than the terminals, their
kinds, tell. -/
def words (kindOf : α → T) (meaning : g.NT → Language α) : Form T g.NT → Language α
  | [] => {[]}
  | .terminal t :: form => {w | ∃ a v, kindOf a = t ∧ v ∈ words kindOf meaning form ∧ w = a :: v}
  | .nonterminal n :: form =>
      {w | ∃ u ∈ meaning n, ∃ v ∈ words kindOf meaning form, w = u ++ v}

@[simp] theorem mem_words_nil : w ∈ words kindOf meaning [] ↔ w = [] := Iff.rfl

@[simp] theorem mem_words_terminal {t : T} {form : Form T g.NT} :
    w ∈ words kindOf meaning (.terminal t :: form) ↔
      ∃ a v, kindOf a = t ∧ v ∈ words kindOf meaning form ∧ w = a :: v := Iff.rfl

@[simp] theorem mem_words_nonterminal {n : g.NT} {form : Form T g.NT} :
    w ∈ words kindOf meaning (.nonterminal n :: form) ↔
      ∃ u ∈ meaning n, ∃ v ∈ words kindOf meaning form, w = u ++ v := Iff.rfl

theorem mem_words_append {first second : Form T g.NT} :
    w ∈ words kindOf meaning (first ++ second) ↔
      ∃ u ∈ words kindOf meaning first, ∃ v ∈ words kindOf meaning second, w = u ++ v := by
  -- induction on the first form: each of its symbols takes its share from the front of the word
  induction first generalizing w with
  | nil => simp
  | cons symbol first ih =>
      cases symbol with
      | terminal t =>
          simp only [List.cons_append, mem_words_terminal, ih]
          constructor
          · rintro ⟨a, _, hkind, ⟨u, hu, v, hv, rfl⟩, rfl⟩
            exact ⟨_, ⟨a, u, hkind, hu, rfl⟩, v, hv, rfl⟩
          · rintro ⟨_, ⟨a, u, hkind, hu, rfl⟩, v, hv, rfl⟩
            exact ⟨a, _, hkind, ⟨u, hu, v, hv, rfl⟩, rfl⟩
      | nonterminal n =>
          simp only [List.cons_append, mem_words_nonterminal, ih]
          constructor
          · rintro ⟨x, hx, _, ⟨u, hu, v, hv, rfl⟩, rfl⟩
            exact ⟨_, ⟨x, hx, u, hu, rfl⟩, v, hv, by rw [List.append_assoc]⟩
          · rintro ⟨_, ⟨x, hx, u, hu, rfl⟩, v, hv, rfl⟩
            exact ⟨x, hx, _, ⟨u, hu, v, hv, rfl⟩, by rw [List.append_assoc]⟩

theorem mem_words_map_terminal :
    w ∈ words kindOf meaning ((w.map kindOf).map .terminal) := by
  induction w with
  | nil => simp
  | cons a w ih => exact ⟨a, w, rfl, ih, rfl⟩

/-- A meaning that every rule respects contains all words of the language. -/
theorem mem_meaning_of_mem_language (meaning : g.NT → Language α)
    (hrules : ∀ r ∈ g.rules, ∀ w ∈ words kindOf meaning r.output, w ∈ meaning r.input)
    (hw : w.map kindOf ∈ g.language) : w ∈ meaning g.initial := by
  -- derivations are taken from their end, where the form is the word itself
  suffices hwords : ∀ form, g.Derives form ((w.map kindOf).map .terminal) →
      w ∈ words kindOf meaning form by
    simpa using hwords _ hw
  intro form hderives
  induction hderives using Relation.ReflTransGen.head_induction_on with
  | refl => exact mem_words_map_terminal
  | head hproduces _ ih =>
      obtain ⟨r, hr, hrewrites⟩ := hproduces
      obtain ⟨first, second, rfl, rfl⟩ := hrewrites.exists_parts
      simp only [mem_words_append] at ih ⊢
      obtain ⟨_, ⟨u, hu, x, hx, rfl⟩, v, hv, rfl⟩ := ih
      exact ⟨_, ⟨u, hu, x, by simpa using hrules r hr x hx, rfl⟩, v, hv, rfl⟩

/-- A terminal of no rule is in no word. -/
theorem kindOf_ne_of_mem_language {t : T} (hrules : ∀ r ∈ g.rules, .terminal t ∉ r.output)
    (hw : w.map kindOf ∈ g.language) : ∀ a ∈ w, kindOf a ≠ t := by
  -- every nonterminal is taken to mean the words without the token; it remains that no form adds it
  suffices hwords : ∀ (form : Form T g.NT) (w : List α), .terminal t ∉ form →
      w ∈ words kindOf (fun _ => {w | ∀ a ∈ w, kindOf a ≠ t}) form → ∀ a ∈ w, kindOf a ≠ t by
    exact mem_meaning_of_mem_language (fun _ => {w | ∀ a ∈ w, kindOf a ≠ t})
      (fun r hr w => hwords r.output w (hrules r hr)) hw
  intro form
  induction form with
  | nil =>
      intro w _ hw
      simp [mem_words_nil.mp hw]
  | cons symbol form ih =>
      intro w hform hw
      simp only [List.mem_cons, not_or] at hform
      obtain ⟨hsymbol, hform⟩ := hform
      cases symbol with
      | terminal t' =>
          obtain ⟨a, v, rfl, hv, rfl⟩ := mem_words_terminal.mp hw
          intro b hb
          rcases List.mem_cons.mp hb with rfl | hb
          · rintro rfl
            exact hsymbol rfl
          · exact ih v hform hv b hb
      | nonterminal n =>
          obtain ⟨u, hu, v, hv, rfl⟩ := mem_words_nonterminal.mp hw
          intro b hb
          rcases List.mem_append.mp hb with hb | hb
          · exact hu b hb
          · exact ih v hform hv b hb

/-- The words of which the kinds are derivable from a nonterminal. -/
def derivable (g : ContextFreeGrammar T) (kindOf : α → T) (n : g.NT) : Language α :=
  {w | g.Derives [.nonterminal n] ((w.map kindOf).map .terminal)}

theorem derives_of_mem_words {form : Form T g.NT}
    (hw : w ∈ words kindOf (g.derivable kindOf) form) :
    g.Derives form ((w.map kindOf).map .terminal) := by
  induction form generalizing w with
  | nil =>
      rw [mem_words_nil.mp hw]
      exact Derives.refl _
  | cons symbol form ih =>
      cases symbol with
      | terminal t =>
          obtain ⟨a, v, rfl, hv, rfl⟩ := mem_words_terminal.mp hw
          exact (ih hv).append_left [.terminal (kindOf a)]
      | nonterminal n =>
          obtain ⟨u, hu, v, hv, rfl⟩ := mem_words_nonterminal.mp hw
          rw [List.map_append, List.map_append]
          exact (Derives.append_right hu form).trans ((ih hv).append_left _)

/-- The derivable words are a meaning that every rule respects. -/
theorem mem_derivable_of_rule {r : ContextFreeRule T g.NT} (hr : r ∈ g.rules)
    (hw : w ∈ words kindOf (g.derivable kindOf) r.output) : w ∈ g.derivable kindOf r.input :=
  Produces.trans_derives ⟨r, hr, .input_output⟩ (derives_of_mem_words hw)

end ContextFreeGrammar

/-! ## The grammar -/

namespace Primer

/-- The nonterminals of the context-free grammar.  Two of them stand for what is optional. -/
inductive Nonterminal
  | statements
  | statement
  | initializer
  | expression
  | remainder
  | operator
  | operand
  deriving DecidableEq

namespace Nonterminal

/-- Every nonterminal, which makes the rules a finite set. -/
def all : List Nonterminal :=
  [statements, statement, initializer, expression, remainder, operator, operand]

/-- The right-hand sides for a nonterminal. -/
def alternatives : Nonterminal → List (ContextFreeGrammar.Form Kind Nonterminal)
  | statements =>
      [[], [.nonterminal statement, .terminal (.symbol .semicolon), .nonterminal statements]]
  | statement =>
      [[.terminal (.keyword .kwVar), .terminal .name, .terminal (.symbol .colon),
          .terminal .typeName, .nonterminal initializer],
        [.terminal .name, .terminal (.symbol .assign), .nonterminal expression],
        [.terminal (.keyword .kwPrint), .nonterminal expression],
        [.terminal (.keyword .kwRead), .terminal .name],
        [.terminal (.keyword .kwAssert), .terminal (.symbol .leftParen), .nonterminal expression,
          .terminal (.symbol .rightParen)],
        [.terminal (.keyword .kwFor), .terminal .name, .terminal (.keyword .kwIn),
          .nonterminal expression, .terminal (.symbol .range), .nonterminal expression,
          .terminal (.keyword .kwDo), .nonterminal statements, .terminal (.keyword .kwEnd),
          .terminal (.keyword .kwFor)]]
  | initializer => [[], [.terminal (.symbol .assign), .nonterminal expression]]
  | expression =>
      [[.terminal (.symbol .exclamation), .nonterminal operand],
        [.nonterminal operand, .nonterminal remainder]]
  | remainder => [[], [.nonterminal operator, .nonterminal operand]]
  | operator =>
      [[.terminal (.symbol .plus)], [.terminal (.symbol .minus)], [.terminal (.symbol .star)],
        [.terminal (.symbol .slash)], [.terminal (.symbol .less)], [.terminal (.symbol .equal)],
        [.terminal (.symbol .ampersand)]]
  | operand =>
      [[.terminal .number], [.terminal .string], [.terminal .boolean], [.terminal .name],
        [.terminal (.symbol .leftParen), .nonterminal expression, .terminal (.symbol .rightParen)]]

end Nonterminal

/-- The context-free grammar of programs. -/
def grammar : ContextFreeGrammar Kind where
  NT := Nonterminal
  initial := .statements
  rules := (Nonterminal.all.flatMap fun n => n.alternatives.map fun output => ⟨n, output⟩).toFinset

theorem mem_grammar_rules {r : ContextFreeRule Kind Nonterminal} :
    r ∈ grammar.rules ↔ r.output ∈ r.input.alternatives := by
  obtain ⟨n, output⟩ := r
  have hall : n ∈ Nonterminal.all := by cases n <;> decide
  exact List.mem_toFinset.trans (by simp [hall])

/-! ## Words of the language are tokens of programs -/

/-- The tokens that a nonterminal stands for: those of an abstract construct. -/
def Nonterminal.meaning : Nonterminal → Language Token
  | statements => {w | ∃ program : Program, w = program.tokens}
  | statement => {w | ∃ statement : Statement, w = statement.tokens}
  | initializer => {w | ∃ initializer?, w = Initializer.tokens initializer?}
  | expression => {w | ∃ expression : Expression, w = expression.tokens}
  | remainder =>
      {w | w = [] ∨
        ∃ (operator : Operator) (line : Nat) (right : Operand),
          w = ⟨.symbol operator.symbol, line⟩ :: right.tokens}
  | operator => {w | ∃ (operator : Operator) (line : Nat), w = [⟨.symbol operator.symbol, line⟩]}
  | operand => {w | ∃ operand : Operand, w = operand.tokens}

open ContextFreeGrammar

/-- The words that a form stands for, constructs standing for their tokens. -/
abbrev wordsOf (form : Form Kind Nonterminal) : Language Token :=
  words (g := grammar) Token.kind Nonterminal.meaning form

theorem mem_meaning_of_statement {output : Form Kind Nonterminal}
    (houtput : output ∈ Nonterminal.alternatives .statement) {w : List Token}
    (hw : w ∈ wordsOf output) : w ∈ Nonterminal.meaning .statement := by
  simp only [Nonterminal.alternatives, List.mem_cons, List.not_mem_nil, or_false] at houtput
  -- one case for each right-hand side: the kinds of its terminals fix the tokens, and the words of
  -- its nonterminals come with their trees
  rcases houtput with rfl | rfl | rfl | rfl | rfl | rfl
  · obtain ⟨a, _, hvar, ⟨b, _, hname, ⟨c, _, hcolon, ⟨d, _, hty, ⟨_, ⟨initializer?, rfl⟩, _, rfl,
      rfl⟩, rfl⟩, rfl⟩, rfl⟩, rfl⟩ := hw
    obtain ⟨name, hname⟩ := Token.eq_name hname
    obtain ⟨ty, hty⟩ := Token.eq_typeName hty
    rw [Token.eq_keyword hvar, hname, Token.eq_symbol hcolon, hty]
    exact ⟨.declaration a.line name b.line c.line ty d.line initializer?, by simp⟩
  · obtain ⟨a, _, hname, ⟨b, _, hassign, ⟨_, ⟨source, rfl⟩, _, rfl, rfl⟩, rfl⟩, rfl⟩ := hw
    obtain ⟨name, hname⟩ := Token.eq_name hname
    rw [hname, Token.eq_symbol hassign]
    exact ⟨.assignment name a.line b.line source, by simp⟩
  · obtain ⟨a, _, hprint, ⟨_, ⟨source, rfl⟩, _, rfl, rfl⟩, rfl⟩ := hw
    rw [Token.eq_keyword hprint]
    exact ⟨.printing a.line source, by simp⟩
  · obtain ⟨_, _, hread, ⟨_, _, hname, rfl, rfl⟩, rfl⟩ := hw
    obtain ⟨name, hname⟩ := Token.eq_name hname
    rw [Token.eq_keyword hread, hname]
    exact ⟨.reading _ name _, rfl⟩
  · obtain ⟨a, _, hassert, ⟨b, _, hopen, ⟨_, ⟨condition, rfl⟩, _, ⟨c, _, hclose, rfl, rfl⟩, rfl⟩,
      rfl⟩, rfl⟩ := hw
    rw [Token.eq_keyword hassert, Token.eq_symbol hopen, Token.eq_symbol hclose]
    exact ⟨.assertion a.line b.line condition c.line, by simp⟩
  · obtain ⟨a, _, hfor, ⟨b, _, hname, ⟨c, _, hin, ⟨_, ⟨first, rfl⟩, _, ⟨d, _, hrange, ⟨_,
      ⟨last, rfl⟩, _, ⟨e, _, hdo, ⟨_, ⟨body, rfl⟩, _, ⟨f, _, hend, ⟨g, _, hclosing, rfl, rfl⟩, rfl⟩,
      rfl⟩, rfl⟩, rfl⟩, rfl⟩, rfl⟩, rfl⟩, rfl⟩, rfl⟩ := hw
    obtain ⟨name, hname⟩ := Token.eq_name hname
    rw [Token.eq_keyword hfor, hname, Token.eq_keyword hin, Token.eq_symbol hrange,
      Token.eq_keyword hdo, Token.eq_keyword hend, Token.eq_keyword hclosing]
    exact ⟨.loop a.line name b.line c.line first d.line last e.line body f.line g.line, by simp⟩

theorem mem_meaning_of_operand {output : Form Kind Nonterminal}
    (houtput : output ∈ Nonterminal.alternatives .operand) {w : List Token}
    (hw : w ∈ wordsOf output) : w ∈ Nonterminal.meaning .operand := by
  have hliteral : ∀ t : Token, (t.kind = .number ∨ t.kind = .string ∨ t.kind = .boolean) →
      [t] ∈ Nonterminal.meaning .operand := by
    intro t hkind
    obtain ⟨value, ht⟩ := Token.eq_literal hkind
    exact ⟨.literal value t.line, by rw [ht]; rfl⟩
  simp only [Nonterminal.alternatives, List.mem_cons, List.not_mem_nil, or_false] at houtput
  rcases houtput with rfl | rfl | rfl | rfl | rfl
  · obtain ⟨t, _, hkind, rfl, rfl⟩ := hw
    exact hliteral t (.inl hkind)
  · obtain ⟨t, _, hkind, rfl, rfl⟩ := hw
    exact hliteral t (.inr (.inl hkind))
  · obtain ⟨t, _, hkind, rfl, rfl⟩ := hw
    exact hliteral t (.inr (.inr hkind))
  · obtain ⟨t, _, hname, rfl, rfl⟩ := hw
    obtain ⟨name, hname⟩ := Token.eq_name hname
    rw [hname]
    exact ⟨.name name _, rfl⟩
  · obtain ⟨a, _, hopen, ⟨_, ⟨inner, rfl⟩, _, ⟨b, _, hclose, rfl, rfl⟩, rfl⟩, rfl⟩ := hw
    rw [Token.eq_symbol hopen, Token.eq_symbol hclose]
    exact ⟨.group a.line inner b.line, by simp⟩

/-- What an alternative for a nonterminal stands for, the nonterminal stands for. -/
theorem mem_meaning_of_alternative {n : Nonterminal} {output : Form Kind Nonterminal}
    (houtput : output ∈ n.alternatives) {w : List Token} (hw : w ∈ wordsOf output) :
    w ∈ n.meaning := by
  cases n with
  | statement => exact mem_meaning_of_statement houtput hw
  | operand => exact mem_meaning_of_operand houtput hw
  | statements =>
      simp only [Nonterminal.alternatives, List.mem_cons, List.not_mem_nil, or_false] at houtput
      rcases houtput with rfl | rfl
      · exact ⟨.done, hw⟩
      · obtain ⟨_, ⟨statement, rfl⟩, _, ⟨a, _, hsemicolon, ⟨_, ⟨rest, rfl⟩, _, rfl, rfl⟩, rfl⟩,
          rfl⟩ := hw
        rw [Token.eq_symbol hsemicolon]
        exact ⟨.next statement a.line rest, by simp⟩
  | initializer =>
      simp only [Nonterminal.alternatives, List.mem_cons, List.not_mem_nil, or_false] at houtput
      rcases houtput with rfl | rfl
      · exact ⟨none, hw⟩
      · obtain ⟨a, _, hassign, ⟨_, ⟨source, rfl⟩, _, rfl, rfl⟩, rfl⟩ := hw
        rw [Token.eq_symbol hassign]
        exact ⟨some ⟨a.line, source⟩, by simp [Initializer.tokens]⟩
  | expression =>
      simp only [Nonterminal.alternatives, List.mem_cons, List.not_mem_nil, or_false] at houtput
      rcases houtput with rfl | rfl
      · obtain ⟨a, _, hnot, ⟨_, ⟨operand, rfl⟩, _, rfl, rfl⟩, rfl⟩ := hw
        rw [Token.eq_symbol hnot]
        exact ⟨.negation a.line operand, by simp⟩
      · obtain ⟨_, ⟨left, rfl⟩, _, ⟨_, rfl | ⟨operator, line, right, rfl⟩, _, rfl, rfl⟩, rfl⟩ := hw
        · exact ⟨.single left, by simp⟩
        · exact ⟨.operation left operator line right, by simp⟩
  | remainder =>
      simp only [Nonterminal.alternatives, List.mem_cons, List.not_mem_nil, or_false] at houtput
      rcases houtput with rfl | rfl
      · exact .inl hw
      · obtain ⟨_, ⟨operator, line, rfl⟩, _, ⟨_, ⟨right, rfl⟩, _, rfl, rfl⟩, rfl⟩ := hw
        exact .inr ⟨operator, line, right, by simp⟩
  | operator =>
      simp only [Nonterminal.alternatives, List.mem_cons, List.not_mem_nil, or_false] at houtput
      rcases houtput with rfl | rfl | rfl | rfl | rfl | rfl | rfl
      all_goals
        obtain ⟨_, _, hkind, rfl, rfl⟩ := hw
        rw [Token.eq_symbol hkind]
      · exact ⟨.add, _, rfl⟩
      · exact ⟨.subtract, _, rfl⟩
      · exact ⟨.multiply, _, rfl⟩
      · exact ⟨.divide, _, rfl⟩
      · exact ⟨.less, _, rfl⟩
      · exact ⟨.equal, _, rfl⟩
      · exact ⟨.both, _, rfl⟩

/-! ## Tokens of programs are derivable -/

/-- The tokens of which the kinds are derivable from a nonterminal. -/
abbrev derivableFrom (n : Nonterminal) : Language Token := grammar.derivable Token.kind n

/-- Tokens spelled by an alternative of a nonterminal are derivable from it. -/
theorem mem_derivableFrom {n : Nonterminal} (output : Form Kind Nonterminal) {w : List Token}
    (houtput : output ∈ n.alternatives)
    (hw : w ∈ words Token.kind (grammar.derivable Token.kind) output) : w ∈ derivableFrom n :=
  mem_derivable_of_rule (r := ⟨n, output⟩) (mem_grammar_rules.mpr houtput) hw

theorem operator_mem_derivableFrom (operator : Operator) (line : Nat) :
    [⟨.symbol operator.symbol, line⟩] ∈ derivableFrom .operator :=
  mem_derivableFrom [.terminal (.symbol operator.symbol)] (by cases operator <;> decide)
    ⟨_, [], rfl, rfl, rfl⟩

mutual

theorem operand_mem_derivableFrom (operand : Operand) :
    operand.tokens ∈ derivableFrom .operand := by
  cases operand with
  | literal value line =>
      refine mem_derivableFrom [.terminal value.lexeme.kind] ?_ ⟨_, [], rfl, rfl, rfl⟩
      cases value <;> simp [Nonterminal.alternatives, Value.lexeme, Lexeme.kind]
  | name name line =>
      exact mem_derivableFrom [.terminal .name] (by simp [Nonterminal.alternatives])
        ⟨_, [], rfl, rfl, rfl⟩
  | group openLine inner closeLine =>
      refine mem_derivableFrom [.terminal (.symbol .leftParen), .nonterminal .expression,
        .terminal (.symbol .rightParen)] (by simp [Nonterminal.alternatives]) ?_
      exact ⟨_, _, rfl, ⟨_, expression_mem_derivableFrom inner, _, ⟨_, _, rfl, rfl, rfl⟩, rfl⟩,
        rfl⟩

theorem expression_mem_derivableFrom (expression : Expression) :
    expression.tokens ∈ derivableFrom .expression := by
  cases expression with
  | negation line operand =>
      refine mem_derivableFrom [.terminal (.symbol .exclamation), .nonterminal .operand]
        (by simp [Nonterminal.alternatives]) ?_
      exact ⟨_, _, rfl, ⟨_, operand_mem_derivableFrom operand, _, rfl, rfl⟩,
        by rw [Expression.tokens_negation, List.append_nil]⟩
  | single operand =>
      have hremainder : [] ∈ derivableFrom .remainder :=
        mem_derivableFrom [] (by simp [Nonterminal.alternatives]) rfl
      refine mem_derivableFrom [.nonterminal .operand, .nonterminal .remainder]
        (by simp [Nonterminal.alternatives]) ?_
      exact ⟨_, operand_mem_derivableFrom operand, _, ⟨_, hremainder, _, rfl, rfl⟩, by simp⟩
  | operation left operator line right =>
      have hremainder :
          ⟨.symbol operator.symbol, line⟩ :: right.tokens ∈ derivableFrom .remainder :=
        mem_derivableFrom [.nonterminal .operator, .nonterminal .operand]
          (by simp [Nonterminal.alternatives])
          ⟨_, operator_mem_derivableFrom operator line, _,
            ⟨_, operand_mem_derivableFrom right, _, rfl, rfl⟩, by simp⟩
      refine mem_derivableFrom [.nonterminal .operand, .nonterminal .remainder]
        (by simp [Nonterminal.alternatives]) ?_
      exact ⟨_, operand_mem_derivableFrom left, _, ⟨_, hremainder, _, rfl, rfl⟩, by simp⟩

end

theorem initializer_mem_derivableFrom (initializer? : Option Initializer) :
    Initializer.tokens initializer? ∈ derivableFrom .initializer := by
  cases initializer? with
  | none => exact mem_derivableFrom [] (by simp [Nonterminal.alternatives]) rfl
  | some initializer =>
      obtain ⟨line, source⟩ := initializer
      exact mem_derivableFrom [.terminal (.symbol .assign), .nonterminal .expression]
        (by simp [Nonterminal.alternatives])
        ⟨_, _, rfl, ⟨_, expression_mem_derivableFrom source, _, rfl, rfl⟩, by
          rw [List.append_nil, Initializer.tokens]⟩

mutual

theorem statement_mem_derivableFrom (statement : Statement) :
    statement.tokens ∈ derivableFrom .statement := by
  cases statement with
  | declaration line name nameLine colonLine ty tyLine initializer? =>
      refine mem_derivableFrom [.terminal (.keyword .kwVar), .terminal .name,
        .terminal (.symbol .colon), .terminal .typeName, .nonterminal .initializer]
        (by simp [Nonterminal.alternatives]) ?_
      rw [Statement.tokens_declaration, ← List.append_nil (Initializer.tokens initializer?)]
      exact ⟨_, _, rfl, ⟨_, _, rfl, ⟨_, _, rfl, ⟨_, _, rfl,
        ⟨_, initializer_mem_derivableFrom initializer?, _, rfl, rfl⟩, rfl⟩, rfl⟩, rfl⟩, rfl⟩
  | assignment name line assignLine source =>
      refine mem_derivableFrom [.terminal .name, .terminal (.symbol .assign),
        .nonterminal .expression] (by simp [Nonterminal.alternatives]) ?_
      rw [Statement.tokens_assignment, ← List.append_nil source.tokens]
      exact ⟨_, _, rfl, ⟨_, _, rfl, ⟨_, expression_mem_derivableFrom source, _, rfl, rfl⟩, rfl⟩,
        rfl⟩
  | printing line source =>
      refine mem_derivableFrom [.terminal (.keyword .kwPrint), .nonterminal .expression]
        (by simp [Nonterminal.alternatives]) ?_
      rw [Statement.tokens_printing, ← List.append_nil source.tokens]
      exact ⟨_, _, rfl, ⟨_, expression_mem_derivableFrom source, _, rfl, rfl⟩, rfl⟩
  | reading line name nameLine =>
      exact mem_derivableFrom [.terminal (.keyword .kwRead), .terminal .name]
        (by simp [Nonterminal.alternatives]) ⟨_, _, rfl, ⟨_, _, rfl, rfl, rfl⟩, rfl⟩
  | assertion line openLine condition closeLine =>
      refine mem_derivableFrom [.terminal (.keyword .kwAssert), .terminal (.symbol .leftParen),
        .nonterminal .expression, .terminal (.symbol .rightParen)]
        (by simp [Nonterminal.alternatives]) ?_
      exact ⟨_, _, rfl, ⟨_, _, rfl, ⟨_, expression_mem_derivableFrom condition, _,
        ⟨_, _, rfl, rfl, rfl⟩, rfl⟩, rfl⟩, rfl⟩
  | loop forLine counter line inLine first rangeLine last doLine body endLine closingLine =>
      refine mem_derivableFrom [.terminal (.keyword .kwFor), .terminal .name,
        .terminal (.keyword .kwIn), .nonterminal .expression, .terminal (.symbol .range),
        .nonterminal .expression, .terminal (.keyword .kwDo), .nonterminal .statements,
        .terminal (.keyword .kwEnd), .terminal (.keyword .kwFor)]
        (by simp [Nonterminal.alternatives]) ?_
      exact ⟨_, _, rfl, ⟨_, _, rfl, ⟨_, _, rfl, ⟨_, expression_mem_derivableFrom first, _,
        ⟨_, _, rfl, ⟨_, expression_mem_derivableFrom last, _, ⟨_, _, rfl,
          ⟨_, program_mem_derivableFrom body, _, ⟨_, _, rfl, ⟨_, _, rfl, rfl, rfl⟩, rfl⟩, rfl⟩,
          rfl⟩, rfl⟩, rfl⟩, rfl⟩, rfl⟩, rfl⟩, rfl⟩

theorem program_mem_derivableFrom (program : Program) :
    program.tokens ∈ derivableFrom .statements := by
  cases program with
  | done => exact mem_derivableFrom [] (by simp [Nonterminal.alternatives]) rfl
  | next statement semicolonLine rest =>
      refine mem_derivableFrom [.nonterminal .statement, .terminal (.symbol .semicolon),
        .nonterminal .statements] (by simp [Nonterminal.alternatives]) ?_
      rw [Program.tokens_next, ← List.append_nil rest.tokens]
      exact ⟨_, statement_mem_derivableFrom statement, _,
        ⟨_, _, rfl, ⟨_, program_mem_derivableFrom rest, _, rfl, rfl⟩, rfl⟩, rfl⟩

end

/-! ## The language -/

/-- A list of tokens belongs to the language if and only if it is that of a program. -/
theorem mem_language_grammar {body : List Token} :
    body.map Token.kind ∈ grammar.language ↔ ∃ program : Program, body = program.tokens := by
  constructor
  · intro hbody
    exact mem_meaning_of_mem_language Nonterminal.meaning
      (fun r hr w hw => mem_meaning_of_alternative (mem_grammar_rules.mp hr) hw) hbody
  · rintro ⟨program, rfl⟩
    exact program_mem_derivableFrom program

theorem Program.kind_ne_endMarker (program : Program) :
    ∀ t ∈ program.tokens, t.kind ≠ .endMarker := by
  have halternatives : ∀ n : Nonterminal, ∀ output ∈ n.alternatives,
      .terminal .endMarker ∉ output := by
    intro n
    cases n <;> decide
  exact kindOf_ne_of_mem_language
    (fun r hr => halternatives r.input r.output (mem_grammar_rules.mp hr))
    (mem_language_grammar.mpr ⟨program, rfl⟩)

/-- Of a list of tokens with one end marker, at its end, everything is parsed or nothing. -/
theorem parse_endMarker_eq_ok {body : List Token} (hbody : ∀ t ∈ body, t.kind ≠ .endMarker)
    {line : Nat} {node : Node} :
    parse (body ++ [⟨.endMarker, line⟩]) = .ok node ↔
      ∃ program : Program, node = program.tree ∧ body = program.tokens := by
  rw [parse_eq_ok]
  constructor
  · rintro ⟨program, line', rest, rfl, htokens⟩
    refine ⟨program, rfl, ?_⟩
    rcases List.append_eq_append_iff.mp htokens with ⟨u, hu, hend⟩ | ⟨u, hu, hend⟩
    · cases u with
      | nil => simpa using hu.symm
      | cons t u => simp at hend
    · cases u with
      | nil => simpa using hu
      | cons t u =>
          cases hend
          exact absurd rfl (hbody ⟨.endMarker, line'⟩ (by simp [hu]))
  · rintro ⟨program, rfl, rfl⟩
    exact ⟨program, line, [], rfl, rfl⟩

/-- The parser decides the language of the grammar.  Its tree is that of the one
program with the tokens given, in which an optional part is present if and only
if its tokens are. -/
theorem parse_ok_iff_mem_language {body : List Token} (line : Nat)
    (hbody : ∀ t ∈ body, t.kind ≠ .endMarker) :
    ((∃ node, parse (body ++ [⟨.endMarker, line⟩]) = .ok node) ↔
      body.map Token.kind ∈ grammar.language) ∧
    ∀ node, parse (body ++ [⟨.endMarker, line⟩]) = .ok node →
      ∃ program : Program, program.tree = node ∧ program.tokens = body ∧
        ∀ other : Program, other.tokens = body → other = program := by
  refine ⟨?_, fun node hnode => ?_⟩
  · rw [mem_language_grammar]
    constructor
    · rintro ⟨node, hnode⟩
      obtain ⟨program, -, hprogram⟩ := (parse_endMarker_eq_ok hbody).mp hnode
      exact ⟨program, hprogram⟩
    · rintro ⟨program, hprogram⟩
      exact ⟨program.tree, (parse_endMarker_eq_ok hbody).mpr ⟨program, rfl, hprogram⟩⟩
  · obtain ⟨program, rfl, rfl⟩ := (parse_endMarker_eq_ok hbody).mp hnode
    exact ⟨program, rfl, rfl, fun _ => Program.tokens_injective⟩

theorem parse_ok_iff_mem_language_print :
    let body : List Token :=
      [⟨.keyword .kwPrint, 1⟩, ⟨.symbol .exclamation, 2⟩, ⟨.name "b", 2⟩, ⟨.symbol .semicolon, 3⟩]
    (∀ t ∈ body, t.kind ≠ .endMarker) ∧ body.map Token.kind ∈ grammar.language ∧
      ∃ node, parse (body ++ [⟨.endMarker, 3⟩]) = .ok node := by
  have hlanguage := mem_language_grammar.mpr
    ⟨.next (.printing 1 (.negation 2 (.name "b" 2))) 3 .done, rfl⟩
  exact ⟨by decide, hlanguage, (parse_ok_iff_mem_language 3 (by decide)).1.mpr hlanguage⟩

end Primer
