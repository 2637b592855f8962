import Primer.Proofs.Grammar.Progress

/-!
# Parsing ends

What a repetition repeats takes a token, and a production is entered anew only
once a token was taken.  So no rule of the grammar ever fails as `endless`,
whatever the tokens are.
-/

namespace Primer

open Stateful

/-- A parser does not go on for ever from a stream. -/
def Ends {α : Type} (m : ParseM α) (s : TokenStream) : Prop := ∀ s', m s ≠ .error .endless s'

namespace Ends

variable {α β : Type} {s : TokenStream}

theorem of_ok {m : ParseM α} {a : α} {s' : TokenStream} (hok : m s = .ok a s') : Ends m s :=
  fun _ heq => nomatch hok.symm.trans heq

theorem bind {m : ParseM α} {f : α → ParseM β} (hm : Ends m s)
    (hf : ∀ a s', m s = .ok a s' → Ends (f a) s') : Ends (m >>= f) s := by
  intro s'' heq
  rcases bind_eq_error.mp heq with hfirst | ⟨a, s', ha, hsecond⟩
  · exact hm s'' hfirst
  · exact hf a s' ha s'' hsecond

theorem expect (kind : Kind) : Ends (TokenStream.expect kind) s := by
  intro s' heq
  cases hahead : s.ahead with
  | nil =>
      rw [TokenStream.expect_of_ahead_eq_nil hahead] at heq
      cases heq
  | cons t ts =>
      rw [TokenStream.expect_of_ahead_eq_cons hahead] at heq
      split at heq <;> cases heq

theorem repeatWhile (continues : Option Kind → Bool) {body : ParseM Node} {bound : Nat}
    (hbody : ∀ s, s.remaining ≤ bound → Ends body s)
    (hprogress : ∀ s node s', body s = .ok node s' → s'.remaining < s.remaining)
    (hs : s.remaining ≤ bound) : Ends (repeatWhile continues body) s := by
  -- the fourth case, a round without progress, is the one that would be endless
  fun_induction Primer.repeatWhile continues body s with
  | case1 s hcontinues failure s' hfailure =>
      intro s'' heq
      rw [Primer.repeatWhile, if_pos hcontinues, hfailure] at heq
      cases heq
      exact hbody s hs _ hfailure
  | case2 s hcontinues node s' hnode hless failure s'' hrest ih =>
      intro s₃ heq
      rw [Primer.repeatWhile, if_pos hcontinues, hnode] at heq
      simp only [if_pos hless, hrest] at heq
      cases heq
      exact ih (by omega) _ hrest
  | case3 s hcontinues node s' hnode hless nodes s'' hrest ih =>
      have hok : Primer.repeatWhile continues body s = .ok (node :: nodes) s'' := by
        rw [Primer.repeatWhile, if_pos hcontinues, hnode]
        simp only [if_pos hless, hrest]
      exact of_ok hok
  | case4 s hcontinues node s' hnode hless => exact absurd (hprogress s node s' hnode) hless
  | case5 s hcontinues =>
      have hok : Primer.repeatWhile continues body s = .ok [] s := by
        rw [Primer.repeatWhile, if_neg hcontinues]
      exact of_ok hok

end Ends

namespace Rule

mutual

/-- Whether everything that is repeated in the rule takes a token. -/
def progresses : Rule → Bool
  | .terminal _ | .empty | .reference _ => true
  | .sequence first others => progresses first && allProgress others
  | .alternative branches => allProgress branches
  | .optional body | .deferred _ body => progresses body
  | .repeated body => takesToken body && progresses body

/-- Whether everything that is repeated in one of the rules takes a token. -/
def allProgress : List Rule → Bool
  | [] => true
  | rule :: rules => progresses rule && allProgress rules

end

end Rule

theorem Production.progresses_rule (production : Production) :
    production.rule.progresses = true := by
  cases production <;> decide

namespace Rule

variable {enter : Production → ParseM Node} {bound : Nat}

mutual

theorem ends_consumeFor (hforward : ∀ p, Forward (enter p))
    (henter : ∀ p s, s.remaining < bound → Ends (enter p) s) (rule : Rule)
    (hprogress : rule.progresses = true) (s : TokenStream) (hs : Admits bound s rule.guarded) :
    Ends (rule.consumeFor enter) s := by
  -- a reference is admitted only where a token was taken since the production was entered
  cases rule with
  | terminal kind => exact (Ends.expect kind).bind fun _ _ _ => .of_ok rfl
  | empty => exact .of_ok rfl
  | sequence first others =>
      obtain ⟨hfirst, hothers⟩ := Bool.and_eq_true_iff.mp hprogress
      obtain ⟨hs, hafter⟩ := Admits.and_iff.mp hs
      exact (ends_consumeFor hforward henter first hfirst s hs).bind fun _ s' hnode =>
        (ends_consumeAllFor hforward henter others hothers s' (hafter.after hforward hnode)).bind
          fun _ _ _ => .of_ok rfl
  | alternative branches => exact ends_consumeFirstFor hforward henter branches hprogress s hs
  | optional body =>
      intro s' heq
      simp only [consumeFor] at heq
      split at heq
      · exact ends_consumeFor hforward henter body hprogress s hs s' heq
      · cases heq
  | repeated body =>
      obtain ⟨htakes, hbody⟩ := Bool.and_eq_true_iff.mp hprogress
      refine (Ends.repeatWhile body.startsWith ?_ ?_ (Nat.le_refl s.remaining)).bind
        fun _ _ _ => .of_ok rfl
      · intro s' hs'
        exact ends_consumeFor hforward henter body hbody s' (hs.of_remaining_le hs')
      · intro s' node s'' hnode
        exact remaining_lt_of_takesToken hforward htakes hnode
  | reference production =>
      rcases hs with hs | ⟨_, hguarded⟩
      · exact henter production s hs
      · cases hguarded
  | deferred action body =>
      exact (ends_consumeFor hforward henter body hprogress s hs).bind fun _ _ _ => .of_ok rfl

theorem ends_consumeAllFor (hforward : ∀ p, Forward (enter p))
    (henter : ∀ p s, s.remaining < bound → Ends (enter p) s) (rules : List Rule)
    (hprogress : allProgress rules = true) (s : TokenStream)
    (hs : Admits bound s (guardedInTurn rules)) : Ends (consumeAllFor enter rules) s := by
  cases rules with
  | nil => exact .of_ok rfl
  | cons rule rules =>
      obtain ⟨hrule, hrules⟩ := Bool.and_eq_true_iff.mp hprogress
      obtain ⟨hs, hafter⟩ := Admits.and_iff.mp hs
      exact (ends_consumeFor hforward henter rule hrule s hs).bind fun _ s' hnode =>
        (ends_consumeAllFor hforward henter rules hrules s' (hafter.after hforward hnode)).bind
          fun _ _ _ => .of_ok rfl

theorem ends_consumeFirstFor (hforward : ∀ p, Forward (enter p))
    (henter : ∀ p s, s.remaining < bound → Ends (enter p) s) (branches : List Rule)
    (hprogress : allProgress branches = true) (s : TokenStream)
    (hs : Admits bound s (everyGuarded branches)) : Ends (consumeFirstFor enter branches) s := by
  cases branches with
  | nil => exact fun _ heq => nomatch heq
  | cons branch branches =>
      obtain ⟨hbranch, hbranches⟩ := Bool.and_eq_true_iff.mp hprogress
      obtain ⟨hs, hs'⟩ := Admits.and_iff.mp hs
      intro s' heq
      simp only [consumeFirstFor] at heq
      split at heq
      · exact ends_consumeFor hforward henter branch hbranch s hs _ heq
      · exact ends_consumeFirstFor hforward henter branches hbranches s hs' _ heq

end

end Rule

/-- Whatever the tokens are, a production succeeds or fails after finitely many steps. -/
theorem Production.ends_consume (production : Production) (s : TokenStream) :
    Ends production.consume s := by
  induction hremaining : s.remaining using Nat.strongRecOn generalizing production s with
  | ind remaining ih =>
      subst hremaining
      rw [consume_eq_rule, Rule.consume]
      exact Rule.ends_consumeFor forward_consume (fun p s' hs' => ih _ hs' p s' rfl) production.rule
        production.progresses_rule s (.inr ⟨Nat.le_refl _, production.guarded_rule⟩)

theorem parse_ne_endless (tokens : List Token) : parse tokens ≠ .error .endless := by
  intro heq
  unfold parse at heq
  split at heq
  · cases heq
  · next failure s' hfailure =>
      cases heq
      have hends : Ends consumeProgram (.ofTokens tokens) :=
        (Production.ends_consume .statements _).bind fun _ _ _ =>
          (Ends.expect .endMarker).bind fun _ _ _ => .of_ok rfl
      exact hends s' hfailure

end Primer
