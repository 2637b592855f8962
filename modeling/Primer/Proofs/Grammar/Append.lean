import Primer.Proofs.Grammar.Parsing
import Primer.Proofs.Semantics.Running

/-!
# Programs one after the other

If the tokens of a program begin with those of another one, then it is that
program followed by a third one: a statement is cut at its semicolon in one way
only.  Running a program that was put together runs its parts in turn.
-/

namespace Primer

namespace Program

/-- The statements of one program and then those of another. -/
def append : Program → Program → Program
  | .done, after => after
  | .next statement semicolonLine rest, after => .next statement semicolonLine (rest.append after)

@[simp] theorem append_done (after : Program) : done.append after = after := rfl

@[simp] theorem append_next (statement : Statement) (semicolonLine : Nat) (rest after : Program) :
    (next statement semicolonLine rest).append after =
      next statement semicolonLine (rest.append after) := rfl

@[simp] theorem tokens_append (program after : Program) :
    (program.append after).tokens = program.tokens ++ after.tokens := by
  cases program with
  | done => rfl
  | next statement semicolonLine rest =>
      simp [tokens_append rest after]

theorem run_append (program after : Program) :
    (program.append after).run = program.run >>= fun _ => after.run := by
  cases program with
  | done => rw [append_done, run, pure_bind]
  | next statement semicolonLine rest =>
      rw [append_next, run, run, bind_assoc]
      simp only [run_append rest after]

end Program

/-- A statement ends at its semicolon. -/
theorem Statement.tokens_append_semicolon {statement other : Statement} {line line' : Nat}
    {after after' : List Token}
    (htokens : statement.tokens ++ ⟨.symbol .semicolon, line⟩ :: after =
      other.tokens ++ ⟨.symbol .semicolon, line'⟩ :: after') :
    statement = other ∧ line = line' ∧ after = after' := by
  -- the parser reads a statement off its tokens if a semicolon follows, and it reads only one
  have hconsume : ∀ (s : Statement) (l : Nat) (ts : List Token),
      ∃ rest, rest.ahead = ⟨.symbol .semicolon, l⟩ :: ts ∧
        Rule.statement.consume (.ofTokens (s.tokens ++ ⟨.symbol .semicolon, l⟩ :: ts)) =
          .ok s.tree rest := by
    intro s l ts
    obtain ⟨rest, hmoves, hahead⟩ := TokenStream.exists_moves
      (s := .ofTokens (s.tokens ++ ⟨.symbol .semicolon, l⟩ :: ts)) s.tokens rfl
    refine ⟨rest, hahead, Rule.consume_statement s hmoves ?_⟩
    rw [TokenStream.nextKind?, TokenStream.peek?, hahead]
    rfl
  obtain ⟨rest, hahead, hfirst⟩ := hconsume statement line after
  obtain ⟨rest', hahead', hsecond⟩ := hconsume other line' after'
  rw [htokens, hsecond] at hfirst
  injection hfirst with htree hrest
  rw [hrest, hahead] at hahead'
  injection hahead' with hsemicolon hafter
  exact ⟨(Statement.tree_injective htree).symm, by cases hsemicolon; rfl, hafter⟩

/-- A program that begins with the tokens of another one begins with that program. -/
theorem Program.exists_append {whole : Program} {after : List Token} (program : Program)
    (htokens : whole.tokens = program.tokens ++ after) :
    ∃ rest : Program, whole = program.append rest ∧ rest.tokens = after := by
  cases program with
  | done => exact ⟨whole, rfl, htokens⟩
  | next statement semicolonLine rest =>
      cases whole with
      | done => simp at htokens
      | next other line others =>
          simp only [Program.tokens_next, List.append_assoc, List.cons_append] at htokens
          obtain ⟨rfl, rfl, hrest⟩ := Statement.tokens_append_semicolon htokens
          obtain ⟨last, rfl, hlast⟩ := Program.exists_append rest hrest
          exact ⟨last, rfl, hlast⟩

end Primer
