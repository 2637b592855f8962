import Primer.Proofs.Relocation
import Primer.Proofs.Grammar.Lookahead

/-!
# Lines do not matter to the parser

Every choice of a rule is made on the kind of the next token.  Lines go from
tokens into the tree and into the error, so tokens on other lines are accepted
or refused alike, with the error on its other line.

Neither do the tokens behind matter: the statements of a program can be taken
off first, and what follows is then refused as if it stood alone.

## Main results

* `parse_append_eq_error` : a text that is refused is refused after a program.
-/

namespace Primer

open Stateful

variable {f : Nat → Nat}

/-! ## Programs -/

theorem Program.relocate_relocate (f g : Nat → Nat) (program : Program) :
    (program.relocate g).relocate f = program.relocate (f ∘ g) := by
  refine Program.tokens_injective ?_
  simp [Program.tokens_relocate, Token.relocate, Function.comp_def]

theorem Program.relocate_id (program : Program) : program.relocate id = program := by
  have htoken : Token.relocate id = id := rfl
  refine Program.tokens_injective ?_
  rw [tokens_relocate, htoken, List.map_id]

/-! ## Streams -/

namespace TokenStream

/-- Ahead of both streams are the same tokens, but for their lines. -/
structure Relocates (f : Nat → Nat) (s s' : TokenStream) : Prop where
  ahead : s'.ahead = s.ahead.map (Token.relocate f)
  line : s'.line = f s.line

namespace Relocates

variable {s s' t t' : TokenStream}

theorem peek?_eq (hs : s.Relocates f s') : s'.peek? = s.peek?.map (Token.relocate f) := by
  rw [peek?, peek?, hs.ahead, List.head?_map]

theorem nextKind?_eq (hs : s.Relocates f s') : s'.nextKind? = s.nextKind? := by
  rw [nextKind?, nextKind?, hs.peek?_eq, Option.map_map]
  rfl

theorem remaining_eq (hs : s.Relocates f s') : s'.remaining = s.remaining := by
  rw [s.remaining_eq, s'.remaining_eq, hs.ahead, List.length_map]

/-- Once a token was taken, the line at the end is the one of the last token. -/
theorem of_moves {token : Token} (hs : s.Relocates f s') (hmoves : s.Moves [token] t)
    (hmoves' : s'.Moves [token.relocate f] t') : t.Relocates f t' := by
  have hahead : t'.ahead = t.ahead.map (Token.relocate f) := by
    simpa [hmoves.ahead, hmoves'.ahead] using hs.ahead
  refine ⟨hahead, ?_⟩
  cases hnext : t.ahead with
  | nil =>
      rw [hnext] at hahead
      simp [TokenStream.line, hahead, hnext, hmoves.behind, hmoves'.behind, Token.relocate]
  | cons next rest =>
      rw [hnext] at hahead
      simp [TokenStream.line, hahead, hnext, Token.relocate]

end Relocates

end TokenStream

/-! ## Parsers -/

/-- Both results are successes, or the same failure on other lines. -/
inductive EndsAlike (f : Nat → Nat) {α : Type} :
    EStateM.Result Failure TokenStream α → EStateM.Result Failure TokenStream α → Prop
  | ok {a a' : α} {s s' : TokenStream} (hs : s.Relocates f s') :
      EndsAlike f (.ok a s) (.ok a' s')
  | error {failure : Failure} {s s' : TokenStream} (hs : s.Relocates f s') :
      EndsAlike f (.error failure s) (.error (failure.relocate f) s')

/-- From streams that differ in their lines, the parsers end alike. -/
def ParsesAlike (f : Nat → Nat) {α : Type} (m m' : ParseM α) : Prop :=
  ∀ s s' : TokenStream, s.Relocates f s' → EndsAlike f (m s) (m' s')

namespace ParsesAlike

variable {α β : Type}

theorem pure (a a' : α) : ParsesAlike f (Pure.pure a) (Pure.pure a') := fun _ _ hs => .ok hs

/-- The second parts have to be alike whatever the first ones yield, since trees
hold lines. -/
theorem bind_at {m m' : ParseM α} {g g' : α → ParseM β} {s s' : TokenStream}
    (hm : EndsAlike f (m s) (m' s')) (hg : ∀ a a', ParsesAlike f (g a) (g' a')) :
    EndsAlike f ((m >>= g) s) ((m' >>= g') s') := by
  rw [bind_apply, bind_apply]
  generalize m s = result, m' s' = result' at hm
  cases hm with
  | ok hs => exact hg _ _ _ _ hs
  | error hs => exact .error hs

theorem bind {m m' : ParseM α} {g g' : α → ParseM β} (hm : ParsesAlike f m m')
    (hg : ∀ a a', ParsesAlike f (g a) (g' a')) : ParsesAlike f (m >>= g) (m' >>= g') :=
  fun s s' hs => bind_at (hm s s' hs) hg

theorem expect (kind : Kind) :
    ParsesAlike f (TokenStream.expect kind) (TokenStream.expect kind) := by
  intro s s' hs
  -- both streams hold tokens of the same kinds, so both find the token or both miss it
  cases hexpect : TokenStream.expect kind s with
  | ok token t =>
      obtain ⟨hkind, hmoves⟩ := TokenStream.expect_eq_ok.mp hexpect
      have hahead : s'.ahead = [token.relocate f] ++ t.ahead.map (Token.relocate f) := by
        rw [hs.ahead, hmoves.ahead, List.map_append]
        rfl
      obtain ⟨t', hmoves', -⟩ := TokenStream.exists_moves _ hahead
      have hexpect' : TokenStream.expect kind s' = .ok (token.relocate f) t' :=
        TokenStream.expect_eq_ok.mpr ⟨hkind, hmoves'⟩
      rw [hexpect']
      exact .ok (hs.of_moves hmoves hmoves')
  | error failure t =>
      obtain ⟨rfl, hfailure⟩ := TokenStream.expect_eq_error.mp hexpect
      have hexpect' : TokenStream.expect kind s' = .error (failure.relocate f) s' := by
        refine TokenStream.expect_eq_error.mpr ⟨rfl, ?_⟩
        rw [hs.peek?_eq, hs.line]
        cases hpeek : t.peek? with
        | none =>
            rw [hpeek] at hfailure
            rw [hfailure]
            rfl
        | some token =>
            rw [hpeek] at hfailure
            exact ⟨hfailure.1, by rw [hfailure.2]; rfl⟩
      rw [hexpect']
      exact .error hs

theorem choice (c : Option Kind → Bool) {m m' n n' : ParseM Node} (hm : ParsesAlike f m m')
    (hn : ParsesAlike f n n') :
    ParsesAlike f (fun s => if c s.nextKind? then m s else n s)
      (fun s => if c s.nextKind? then m' s else n' s) := by
  intro s s' hs
  dsimp only
  rw [hs.nextKind?_eq]
  split
  · exact hm s s' hs
  · exact hn s s' hs

theorem noAlternative :
    ParsesAlike (α := Node) f
      (fun s => .error (.error (.noAlternative s.line (s.nextKind?.getD .endMarker))) s)
      (fun s => .error (.error (.noAlternative s.line (s.nextKind?.getD .endMarker))) s) := by
  intro s s' hs
  dsimp only
  rw [hs.nextKind?_eq, hs.line]
  exact .error hs

theorem repeatWhile (continues : Option Kind → Bool) {body body' : ParseM Node}
    (hbody : ParsesAlike f body body') :
    ParsesAlike f (repeatWhile continues body) (repeatWhile continues body') := by
  intro s
  -- induction on the remaining tokens; both repetitions see the same kind, so they go on together
  induction hremaining : s.remaining using Nat.strongRecOn generalizing s with
  | ind remaining ih =>
      subst hremaining
      intro s' hs
      cases hcontinues : continues s.nextKind? with
      | false =>
          rw [repeatWhile_stop hcontinues, repeatWhile_stop (hs.nextKind?_eq ▸ hcontinues)]
          exact .ok hs
      | true =>
          have hcontinues' : continues s'.nextKind? = true := hs.nextKind?_eq ▸ hcontinues
          have halike := hbody s s' hs
          generalize hresult : body s = result, hresult' : body' s' = result' at halike
          cases halike with
          | error hs' =>
              rw [repeatWhile_of_error hcontinues hresult,
                repeatWhile_of_error hcontinues' hresult']
              exact .error hs'
          | @ok _ _ t t' ht =>
              by_cases hless : t.remaining < s.remaining
              · have hless' : t'.remaining < s'.remaining := by
                  rwa [ht.remaining_eq, hs.remaining_eq]
                rw [repeatWhile_of_ok hcontinues hresult hless,
                  repeatWhile_of_ok hcontinues' hresult' hless']
                exact bind_at (ih t.remaining hless t rfl t' ht) fun _ _ => pure _ _
              · have hless' : ¬t'.remaining < s'.remaining := by
                  rwa [ht.remaining_eq, hs.remaining_eq]
                rw [repeatWhile_of_not_lt hcontinues hresult hless,
                  repeatWhile_of_not_lt hcontinues' hresult' hless']
                exact .error ht

end ParsesAlike

/-! ## Rules -/

namespace Rule

variable {enter enter' : Production → ParseM Node}

mutual

theorem parsesAlike_consumeFor (henter : ∀ p, ParsesAlike f (enter p) (enter' p)) (rule : Rule) :
    ParsesAlike f (rule.consumeFor enter) (rule.consumeFor enter') := by
  cases rule with
  | terminal kind => exact .bind (.expect kind) fun _ _ => .pure _ _
  | sequence first others =>
      exact .bind (parsesAlike_consumeFor henter first) fun _ _ =>
        .bind (parsesAlike_consumeAllFor henter others) fun _ _ => .pure _ _
  | alternative branches => exact parsesAlike_consumeFirstFor henter branches
  | optional body =>
      exact .choice body.startsWith (parsesAlike_consumeFor henter body) (.pure _ _)
  | repeated body =>
      exact .bind (.repeatWhile body.startsWith (parsesAlike_consumeFor henter body))
        fun _ _ => .pure _ _
  | empty => exact .pure _ _
  | reference production => exact henter production
  | deferred action body => exact .bind (parsesAlike_consumeFor henter body) fun _ _ => .pure _ _

theorem parsesAlike_consumeAllFor (henter : ∀ p, ParsesAlike f (enter p) (enter' p))
    (rules : List Rule) :
    ParsesAlike f (consumeAllFor enter rules) (consumeAllFor enter' rules) := by
  cases rules with
  | nil => exact .pure _ _
  | cons rule rules =>
      exact .bind (parsesAlike_consumeFor henter rule) fun _ _ =>
        .bind (parsesAlike_consumeAllFor henter rules) fun _ _ => .pure _ _

theorem parsesAlike_consumeFirstFor (henter : ∀ p, ParsesAlike f (enter p) (enter' p))
    (branches : List Rule) :
    ParsesAlike f (consumeFirstFor enter branches) (consumeFirstFor enter' branches) := by
  cases branches with
  | nil => exact .noAlternative
  | cons branch branches =>
      exact .choice branch.startsWith (parsesAlike_consumeFor henter branch)
        (parsesAlike_consumeFirstFor henter branches)

end

end Rule

theorem Production.parsesAlike_consumeWithin (depth : Nat) (production : Production) :
    ParsesAlike f (production.consumeWithin depth) (production.consumeWithin depth) := by
  induction depth generalizing production with
  | zero =>
      intro s s' hs
      have hendless : EndsAlike f (.error .endless s)
          (.error (Failure.relocate f .endless) s' : EStateM.Result _ _ Node) := .error hs
      exact hendless
  | succ depth ih => exact Rule.parsesAlike_consumeFor ih production.rule

theorem Production.parsesAlike_consume (production : Production) :
    ParsesAlike f production.consume production.consume := by
  intro s s' hs
  have hless := Nat.lt_succ_self s.remaining
  have hless' : s'.remaining < s.remaining + 1 := hs.remaining_eq ▸ hless
  rw [consume_eq_consumeWithin production hless, consume_eq_consumeWithin production hless']
  exact production.parsesAlike_consumeWithin _ s s' hs

theorem parsesAlike_consumeProgram : ParsesAlike f consumeProgram consumeProgram :=
  .bind (Production.parsesAlike_consume .statements) fun _ _ =>
    .bind (.expect .endMarker) fun _ _ => .pure _ _

/-! ## After a program -/

/-- A program is its statements and an end marker. -/
theorem consumeProgram_eq (s : TokenStream) :
    consumeProgram s =
      match repeatWhile Rule.occurrence.startsWith Rule.occurrence.consume s with
      | .ok nodes t => bind (m := ParseM) (TokenStream.expect .endMarker)
          (fun _ => pure (Node.defer .statements (.list nodes))) t
      | .error failure t => .error failure t := by
  have hstatements : Production.consume .statements s = Rule.statements.consume s := by
    rw [Production.consume_eq_rule]
    rfl
  cases hrepeat : repeatWhile Rule.occurrence.startsWith Rule.occurrence.consume s with
  | ok nodes t =>
      have hrepeated : (Rule.repeated Rule.occurrence).consume s = .ok (.list nodes) t :=
        bind_of_ok hrepeat _
      exact bind_of_ok (hstatements.trans (Rule.consume_deferred hrepeated)) _
  | error failure t =>
      have hrepeated : (Rule.repeated Rule.occurrence).consume s = .error failure t :=
        bind_of_error hrepeat _
      have hrule : Rule.statements.consume s = .error failure t := bind_of_error hrepeated _
      exact bind_of_error (hstatements.trans hrule) _

theorem consumeProgram_of_moves {program : Program} {s s' t : TokenStream} {failure : Failure}
    (hmoves : s.Moves program.tokens s') (herror : consumeProgram s' = .error failure t) :
    consumeProgram s = .error failure t := by
  rw [consumeProgram_eq] at herror ⊢
  rw [Rule.repeatWhile_of_moves program hmoves]
  cases hrepeat : repeatWhile Rule.occurrence.startsWith Rule.occurrence.consume s' with
  | error failure t' =>
      rw [hrepeat] at herror
      exact herror
  | ok nodes t' =>
      rw [hrepeat] at herror
      rcases bind_eq_error.mp herror with hexpect | ⟨_, _, _, heq⟩
      · exact bind_of_error hexpect _
      · cases heq

/-- Tokens that are refused are refused on other lines, and after a program. -/
theorem parse_append_eq_error (program : Program) {tokens : List Token} {failure : Failure}
    (hne : tokens ≠ []) (hparse : parse tokens = .error failure) (f : Nat → Nat) :
    parse (program.tokens ++ tokens.map (Token.relocate f)) = .error (failure.relocate f) := by
  obtain ⟨s', hmoves, hahead⟩ := TokenStream.exists_moves
    (s := .ofTokens (program.tokens ++ tokens.map (Token.relocate f))) program.tokens rfl
  have hs : (TokenStream.ofTokens tokens).Relocates f s' := by
    obtain ⟨t, ts, rfl⟩ := List.exists_cons_of_ne_nil hne
    refine ⟨hahead, ?_⟩
    rw [TokenStream.line, hahead]
    rfl
  have halike := parsesAlike_consumeProgram _ _ hs
  rw [parse] at hparse
  generalize hfirst : consumeProgram (.ofTokens tokens) = result,
    hsecond : consumeProgram s' = result' at hparse halike
  cases halike with
  | ok => cases hparse
  | error =>
      cases hparse
      rw [parse, consumeProgram_of_moves hmoves hsecond]

end Primer
