import Primer.Proofs.Stateful
import Primer.Grammar.Consume

/-!
# Parsing moves forward

A rule never gives back a token, and a rule that may take nothing is guarded by
one that must take something.  Hence no rule is entered again without progress:
the bound on the depth of the recursion is never reached, and consuming can be
opened like a plain recursion over the grammar.

What holds of all rules is proved once: `ParserProperty` lists what a property
of computations on a stream has to be closed under.
-/

namespace Primer

open Stateful

namespace TokenStream

/-- `after` is the stream `before` once the tokens `taken` are taken off it. -/
structure Moves (before : TokenStream) (taken : List Token) (after : TokenStream) : Prop where
  ahead : before.ahead = taken ++ after.ahead
  behind : after.behind = taken.reverse ++ before.behind

@[simp] theorem ahead_ofTokens (tokens : List Token) : (ofTokens tokens).ahead = tokens := rfl

theorem Moves.refl (s : TokenStream) : s.Moves [] s := ⟨rfl, rfl⟩

theorem Moves.trans {s s' s'' : TokenStream} {ts us : List Token} (hfirst : s.Moves ts s')
    (hsecond : s'.Moves us s'') : s.Moves (ts ++ us) s'' := by
  refine ⟨?_, ?_⟩
  · rw [hfirst.ahead, hsecond.ahead, List.append_assoc]
  · rw [hsecond.behind, hfirst.behind, List.reverse_append, List.append_assoc]

theorem Moves.remaining {s s' : TokenStream} {ts : List Token} (hmoves : s.Moves ts s') :
    s.remaining = ts.length + s'.remaining := by
  rw [s.remaining_eq, s'.remaining_eq, hmoves.ahead, List.length_append]

theorem Moves.unique {s s₁ s₂ : TokenStream} {ts : List Token} (h₁ : s.Moves ts s₁)
    (h₂ : s.Moves ts s₂) : s₁ = s₂ := by
  refine eq_of_lists ?_ ?_
  · rw [h₁.behind, h₂.behind]
  · exact List.append_cancel_left (h₁.ahead.symm.trans h₂.ahead)

theorem Moves.taken_unique {s s' : TokenStream} {ts us : List Token} (hts : s.Moves ts s')
    (hus : s.Moves us s') : ts = us :=
  List.append_cancel_right (hts.ahead.symm.trans hus.ahead)

/-- Any tokens at the head of a stream can be taken off it. -/
theorem exists_moves {s : TokenStream} (ts : List Token) {rest : List Token}
    (hahead : s.ahead = ts ++ rest) : ∃ s', s.Moves ts s' ∧ s'.ahead = rest :=
  ⟨⟨ts.reverse ++ s.behind, rest, rest.length, rfl⟩, ⟨hahead, rfl⟩, rfl⟩

theorem Moves.split {s s'' : TokenStream} {ts us : List Token} (hmoves : s.Moves (ts ++ us) s'') :
    ∃ s', s.Moves ts s' ∧ s'.Moves us s'' := by
  obtain ⟨s', hfirst, hahead⟩ := exists_moves ts (hmoves.ahead.trans (List.append_assoc ..))
  refine ⟨s', hfirst, hahead, ?_⟩
  rw [hmoves.behind, hfirst.behind, List.reverse_append, List.append_assoc]

theorem moves_after {s : TokenStream} {t : Token} {ts : List Token} (hahead : s.ahead = t :: ts) :
    s.Moves [t] (s.after t ts hahead) := ⟨hahead, rfl⟩

theorem expect_eq_ok {kind : Kind} {s s' : TokenStream} {t : Token} :
    expect kind s = .ok t s' ↔ t.kind = kind ∧ s.Moves [t] s' := by
  constructor
  · intro hexpect
    obtain ⟨hkind, hahead, hbehind⟩ := expect_ok hexpect
    exact ⟨hkind, hahead, hbehind⟩
  · rintro ⟨hkind, hmoves⟩
    have hahead : s.ahead = t :: s'.ahead := hmoves.ahead
    rw [expect_of_ahead_eq_cons hahead, if_pos hkind, (moves_after hahead).unique hmoves]

end TokenStream

/-! ## What all rules have in common -/

/-- A property of parsers that is kept by everything that rules are made of. -/
structure ParserProperty (P : (α : Type) → ParseM α → Prop) : Prop where
  pure : ∀ {α : Type} (a : α), P α (pure a)
  bind : ∀ {α β : Type} {m : ParseM α} {f : α → ParseM β},
    P α m → (∀ a, P β (f a)) → P β (m >>= f)
  expect : ∀ kind, P Token (TokenStream.expect kind)
  choice : ∀ (c : Option Kind → Bool) {m m' : ParseM Node},
    P Node m → P Node m' → P Node fun s => if c s.nextKind? then m s else m' s
  noAlternative : P Node fun s =>
    .error (.error (.noAlternative s.line (s.nextKind?.getD .endMarker))) s
  repeatWhile : ∀ (c : Option Kind → Bool) {m : ParseM Node},
    P Node m → P (List Node) (repeatWhile c m)

namespace ParserProperty

variable {P : (α : Type) → ParseM α → Prop} {enter : Production → ParseM Node}

mutual

/-- A rule has the property if the productions that it refers to have it. -/
theorem consumeFor (hP : ParserProperty P) (henter : ∀ p, P Node (enter p)) (rule : Rule) :
    P Node (rule.consumeFor enter) := by
  cases rule with
  | terminal kind => exact hP.bind (hP.expect kind) fun t => hP.pure _
  | sequence first others =>
      exact hP.bind (hP.consumeFor henter first) fun node =>
        hP.bind (hP.consumeAllFor henter others) fun nodes => hP.pure _
  | alternative branches => exact hP.consumeFirstFor henter branches
  | optional body => exact hP.choice body.startsWith (hP.consumeFor henter body) (hP.pure _)
  | repeated body =>
      exact hP.bind (hP.repeatWhile body.startsWith (hP.consumeFor henter body)) fun nodes =>
        hP.pure _
  | empty => exact hP.pure _
  | reference production => exact henter production
  | deferred action body =>
      exact hP.bind (hP.consumeFor henter body) fun node => hP.pure _

theorem consumeAllFor (hP : ParserProperty P) (henter : ∀ p, P Node (enter p))
    (rules : List Rule) : P (List Node) (Rule.consumeAllFor enter rules) := by
  cases rules with
  | nil => exact hP.pure _
  | cons rule rules =>
      exact hP.bind (hP.consumeFor henter rule) fun node =>
        hP.bind (hP.consumeAllFor henter rules) fun nodes => hP.pure _

theorem consumeFirstFor (hP : ParserProperty P) (henter : ∀ p, P Node (enter p))
    (branches : List Rule) : P Node (Rule.consumeFirstFor enter branches) := by
  cases branches with
  | nil => exact hP.noAlternative
  | cons branch branches =>
      exact hP.choice branch.startsWith (hP.consumeFor henter branch)
        (hP.consumeFirstFor henter branches)

end

end ParserProperty

/-! ## Rules only move forward -/

/-- However a parser ends, the stream has moved forward, if at all. -/
def Forward {α : Type} (m : ParseM α) : Prop :=
  ∀ s, (∀ a s', m s = .ok a s' → ∃ taken, s.Moves taken s') ∧
    ∀ failure s', m s = .error failure s' → ∃ taken, s.Moves taken s'

theorem Forward.bind {α β : Type} {m : ParseM α} {f : α → ParseM β} (hm : Forward m)
    (hf : ∀ a, Forward (f a)) : Forward (m >>= f) := by
  intro s
  refine ⟨fun b s'' hb => ?_, fun failure s'' hfailure => ?_⟩
  · obtain ⟨a, s', ha, hb⟩ := bind_eq_ok.mp hb
    obtain ⟨ts, hts⟩ := (hm s).1 a s' ha
    obtain ⟨us, hus⟩ := (hf a s').1 b s'' hb
    exact ⟨ts ++ us, hts.trans hus⟩
  · rcases bind_eq_error.mp hfailure with hfailure | ⟨a, s', ha, hfailure⟩
    · exact (hm s).2 failure s'' hfailure
    · obtain ⟨ts, hts⟩ := (hm s).1 a s' ha
      obtain ⟨us, hus⟩ := (hf a s').2 failure s'' hfailure
      exact ⟨ts ++ us, hts.trans hus⟩

theorem forward_of_stays {α : Type} {m : ParseM α}
    (hok : ∀ s a s', m s = .ok a s' → s' = s)
    (herror : ∀ s failure s', m s = .error failure s' → s' = s) : Forward m := by
  intro s
  refine ⟨fun a s' ha => ?_, fun failure s' hfailure => ?_⟩
  · exact ⟨[], hok s a s' ha ▸ .refl s⟩
  · exact ⟨[], herror s failure s' hfailure ▸ .refl s⟩

theorem forward_expect (kind : Kind) : Forward (TokenStream.expect kind) := fun s =>
  ⟨fun t _ hexpect => ⟨[t], (TokenStream.expect_eq_ok.mp hexpect).2⟩,
    fun _ _ hexpect => ⟨[], TokenStream.expect_error hexpect ▸ .refl s⟩⟩

section RepeatWhile

variable {continues : Option Kind → Bool} {body : ParseM Node} {s s' : TokenStream}

theorem repeatWhile_stop (hcontinues : continues s.nextKind? = false) :
    repeatWhile continues body s = .ok [] s := by
  rw [repeatWhile, hcontinues]
  rfl

theorem repeatWhile_of_error {failure : Failure} (hcontinues : continues s.nextKind? = true)
    (hbody : body s = .error failure s') : repeatWhile continues body s = .error failure s' := by
  rw [repeatWhile, if_pos hcontinues, hbody]

theorem repeatWhile_of_ok {node : Node} (hcontinues : continues s.nextKind? = true)
    (hbody : body s = .ok node s') (hless : s'.remaining < s.remaining) :
    repeatWhile continues body s =
      bind (m := ParseM) (repeatWhile continues body) (fun nodes => pure (node :: nodes)) s' := by
  rw [repeatWhile, if_pos hcontinues, hbody]
  simp only [if_pos hless]
  cases hrest : repeatWhile continues body s' with
  | ok nodes s'' => exact (bind_of_ok hrest fun nodes => pure (node :: nodes)).symm
  | error failure s'' => exact (bind_of_error hrest fun nodes => pure (node :: nodes)).symm

theorem repeatWhile_of_not_lt {node : Node} (hcontinues : continues s.nextKind? = true)
    (hbody : body s = .ok node s') (hless : ¬s'.remaining < s.remaining) :
    repeatWhile continues body s = .error .endless s' := by
  rw [repeatWhile, if_pos hcontinues, hbody]
  simp only [if_neg hless]

end RepeatWhile

theorem Forward.repeatWhile (continues : Option Kind → Bool) {body : ParseM Node}
    (hbody : Forward body) : Forward (repeatWhile continues body) := by
  intro s
  -- one case for each way a round can go; only the two that go on need what holds of the later ones
  fun_induction Primer.repeatWhile continues body s with
  | case1 s hcontinues failure s' hfailure =>
      refine ⟨(fun _ _ heq => nomatch heq), fun failure s'' heq => ?_⟩
      cases heq
      exact (hbody s).2 _ _ hfailure
  | case2 s hcontinues node s' hnode hless failure s'' hrest ih =>
      refine ⟨(fun _ _ heq => nomatch heq), fun failure s'' heq => ?_⟩
      cases heq
      obtain ⟨ts, hts⟩ := (hbody s).1 _ _ hnode
      obtain ⟨us, hus⟩ := ih.2 _ _ hrest
      exact ⟨ts ++ us, hts.trans hus⟩
  | case3 s hcontinues node s' hnode hless nodes s'' hrest ih =>
      refine ⟨fun nodes s'' heq => ?_, fun _ _ heq => nomatch heq⟩
      cases heq
      obtain ⟨ts, hts⟩ := (hbody s).1 _ _ hnode
      obtain ⟨us, hus⟩ := ih.1 _ _ hrest
      exact ⟨ts ++ us, hts.trans hus⟩
  | case4 s hcontinues node s' hnode hless =>
      refine ⟨(fun _ _ heq => nomatch heq), fun failure s'' heq => ?_⟩
      cases heq
      exact (hbody s).1 _ _ hnode
  | case5 s hcontinues =>
      refine ⟨fun nodes s'' heq => ?_, fun _ _ heq => nomatch heq⟩
      cases heq
      exact ⟨[], .refl s⟩

theorem parserProperty_forward : ParserProperty @Forward where
  pure _ := forward_of_stays (fun _ _ _ heq => by cases heq; rfl) fun _ _ _ heq => nomatch heq
  bind := Forward.bind
  expect := forward_expect
  choice c _ _ hm hm' := fun s => by
    by_cases hc : c s.nextKind? = true
    · simpa only [if_pos hc] using hm s
    · simpa only [if_neg hc] using hm' s
  noAlternative :=
    forward_of_stays (fun _ _ _ heq => nomatch heq) fun _ _ _ heq => by cases heq; rfl
  repeatWhile := Forward.repeatWhile

/-! ## Rules that take a token, and rules that refer to productions only then -/

namespace Rule

mutual

/-- Whether the rule takes a token wherever it succeeds, told from its shape.
Nothing is said of what references take. -/
def takesToken : Rule → Bool
  | .terminal _ => true
  | .sequence first others => takesToken first || someTakesToken others
  | .alternative branches => everyTakesToken branches
  | .optional _ | .repeated _ | .empty | .reference _ => false
  | .deferred _ body => takesToken body

/-- Whether one of the rules takes a token. -/
def someTakesToken : List Rule → Bool
  | [] => false
  | rule :: rules => takesToken rule || someTakesToken rules

/-- Whether each of the rules takes a token. -/
def everyTakesToken : List Rule → Bool
  | [] => true
  | branch :: branches => takesToken branch && everyTakesToken branches

end

mutual

/-- Whether a token is taken before any reference in the rule is followed. -/
def guarded : Rule → Bool
  | .terminal _ | .empty => true
  | .sequence first others => guarded first && (takesToken first || guardedInTurn others)
  | .alternative branches => everyGuarded branches
  | .optional body | .repeated body | .deferred _ body => guarded body
  | .reference _ => false

/-- Whether rules in turn take a token before any reference in them is followed. -/
def guardedInTurn : List Rule → Bool
  | [] => true
  | rule :: rules => guarded rule && (takesToken rule || guardedInTurn rules)

/-- Whether each of the rules takes a token before any reference in it is followed. -/
def everyGuarded : List Rule → Bool
  | [] => true
  | branch :: branches => guarded branch && everyGuarded branches

end

end Rule

theorem Production.guarded_rule (production : Production) : production.rule.guarded = true := by
  cases production <;> decide

section Progress

variable {enter : Production → ParseM Node}

theorem Forward.remaining_le {α : Type} {m : ParseM α} (hm : Forward m) {s s' : TokenStream}
    {a : α} (ha : m s = .ok a s') : s'.remaining ≤ s.remaining := by
  obtain ⟨taken, htaken⟩ := (hm s).1 a s' ha
  have := htaken.remaining
  omega

namespace Rule

theorem forward_consumeFor (henter : ∀ p, Forward (enter p)) (rule : Rule) :
    Forward (rule.consumeFor enter) := parserProperty_forward.consumeFor henter rule

theorem forward_consumeAllFor (henter : ∀ p, Forward (enter p)) (rules : List Rule) :
    Forward (consumeAllFor enter rules) := parserProperty_forward.consumeAllFor henter rules

mutual

theorem remaining_lt_of_takesToken (henter : ∀ p, Forward (enter p)) {rule : Rule}
    (htakes : rule.takesToken = true) {s s' : TokenStream} {node : Node}
    (hnode : rule.consumeFor enter s = .ok node s') : s'.remaining < s.remaining := by
  cases rule with
  | terminal kind =>
      obtain ⟨t, s₁, ht, heq⟩ := bind_eq_ok.mp hnode
      cases heq
      have := (TokenStream.expect_eq_ok.mp ht).2.remaining
      simp only [List.length_singleton] at this
      omega
  | sequence first others =>
      obtain ⟨node, s₁, hfirst, hrest⟩ := bind_eq_ok.mp hnode
      obtain ⟨nodes, s₂, hothers, heq⟩ := bind_eq_ok.mp hrest
      cases heq
      have hle₁ := (forward_consumeFor henter first).remaining_le hfirst
      have hle₂ := (forward_consumeAllFor henter others).remaining_le hothers
      -- one of the two parts takes the token, and neither goes back
      rcases Bool.or_eq_true_iff.mp htakes with htakes | htakes
      · have := remaining_lt_of_takesToken henter htakes hfirst
        omega
      · have := remaining_lt_of_someTakesToken henter htakes hothers
        omega
  | alternative branches => exact remaining_lt_of_everyTakesToken henter htakes hnode
  | optional _ | repeated _ | empty | reference _ => cases htakes
  | deferred action body =>
      obtain ⟨node, s₁, hbody, heq⟩ := bind_eq_ok.mp hnode
      cases heq
      rw [takesToken] at htakes
      exact remaining_lt_of_takesToken henter htakes hbody

theorem remaining_lt_of_someTakesToken (henter : ∀ p, Forward (enter p)) {rules : List Rule}
    (htakes : someTakesToken rules = true) {s s' : TokenStream} {nodes : List Node}
    (hnodes : consumeAllFor enter rules s = .ok nodes s') : s'.remaining < s.remaining := by
  cases rules with
  | nil => cases htakes
  | cons rule rules =>
      obtain ⟨node, s₁, hrule, hrest⟩ := bind_eq_ok.mp hnodes
      obtain ⟨nodes, s₂, hrules, heq⟩ := bind_eq_ok.mp hrest
      cases heq
      have hle₁ := (forward_consumeFor henter rule).remaining_le hrule
      have hle₂ := (forward_consumeAllFor henter rules).remaining_le hrules
      rcases Bool.or_eq_true_iff.mp htakes with htakes | htakes
      · have := remaining_lt_of_takesToken henter htakes hrule
        omega
      · have := remaining_lt_of_someTakesToken henter htakes hrules
        omega

theorem remaining_lt_of_everyTakesToken (henter : ∀ p, Forward (enter p)) {branches : List Rule}
    (htakes : everyTakesToken branches = true) {s s' : TokenStream} {node : Node}
    (hnode : consumeFirstFor enter branches s = .ok node s') : s'.remaining < s.remaining := by
  cases branches with
  | nil => cases hnode
  | cons branch branches =>
      obtain ⟨hbranch, hbranches⟩ := Bool.and_eq_true_iff.mp htakes
      simp only [consumeFirstFor] at hnode
      split at hnode
      · exact remaining_lt_of_takesToken henter hbranch hnode
      · exact remaining_lt_of_everyTakesToken henter hbranches hnode

end

end Rule

/-! ## References are followed on shorter streams only -/

theorem repeatWhile_congr (continues : Option Kind → Bool) {body body' : ParseM Node} {bound : Nat}
    (hbody : ∀ s, s.remaining ≤ bound → body s = body' s) (s : TokenStream)
    (hs : s.remaining ≤ bound) : repeatWhile continues body s = repeatWhile continues body' s := by
  fun_induction repeatWhile continues body s with
  | case1 s hcontinues failure s' hfailure =>
      rw [repeatWhile, if_pos hcontinues, ← hbody s hs, hfailure]
  | case2 s hcontinues node s' hnode hless failure s'' hrest ih =>
      rw [repeatWhile, if_pos hcontinues, ← hbody s hs, hnode]
      simp only [if_pos hless, ← ih (by omega), hrest]
  | case3 s hcontinues node s' hnode hless nodes s'' hrest ih =>
      rw [repeatWhile, if_pos hcontinues, ← hbody s hs, hnode]
      simp only [if_pos hless, ← ih (by omega), hrest]
  | case4 s hcontinues node s' hnode hless =>
      rw [repeatWhile, if_pos hcontinues, ← hbody s hs, hnode]
      simp only [if_neg hless]
  | case5 s hcontinues => rw [repeatWhile, if_neg hcontinues]

namespace Rule

variable {enter' : Production → ParseM Node} {bound : Nat}

/-- A stream on which a rule may follow all of its references. -/
def Admits (bound : Nat) (s : TokenStream) (guarded : Bool) : Prop :=
  s.remaining < bound ∨ s.remaining ≤ bound ∧ guarded = true

namespace Admits

variable {s s' : TokenStream} {guarded guarded' : Bool}

theorem and_iff :
    Admits bound s (guarded && guarded') ↔ Admits bound s guarded ∧ Admits bound s guarded' := by
  simp only [Admits, Bool.and_eq_true]
  grind

theorem of_remaining_le (hs : Admits bound s guarded) (hle : s'.remaining ≤ s.remaining) :
    Admits bound s' guarded := by
  rcases hs with hs | ⟨hs, hguarded⟩
  · exact .inl (by omega)
  · exact .inr ⟨by omega, hguarded⟩

/-- What comes after a rule is only looked at once the rule has succeeded.  If
that took a token, the stream is short enough for any reference. -/
theorem after (henter : ∀ p, Forward (enter p)) {rule : Rule} {node : Node}
    (hs : Admits bound s (rule.takesToken || guarded))
    (hnode : rule.consumeFor enter s = .ok node s') : Admits bound s' guarded := by
  have hle := (forward_consumeFor henter rule).remaining_le hnode
  rcases hs with hs | ⟨hs, hguarded⟩
  · exact .inl (by omega)
  · rcases Bool.or_eq_true_iff.mp hguarded with htakes | hguarded
    · have := remaining_lt_of_takesToken henter htakes hnode
      exact .inl (by omega)
    · exact .inr ⟨by omega, hguarded⟩

end Admits

mutual

/-- A guarded rule asks only for what productions do with shorter streams, and
any rule only for what they do with streams that are not longer. -/
theorem consumeFor_congr (henter' : ∀ p, Forward (enter' p))
    (heq : ∀ p s, s.remaining < bound → enter p s = enter' p s) (rule : Rule) (s : TokenStream)
    (hs : Admits bound s rule.guarded) :
    rule.consumeFor enter s = rule.consumeFor enter' s := by
  cases rule with
  | terminal _ | empty => rfl
  | sequence first others =>
      obtain ⟨hs, hafter⟩ := Admits.and_iff.mp hs
      have hfirst := consumeFor_congr henter' heq first s hs
      simp only [consumeFor, bind_apply, hfirst]
      cases hnode : first.consumeFor enter' s with
      | error failure s' => rfl
      | ok node s' =>
          simp only [consumeAllFor_congr henter' heq others s' (hafter.after henter' hnode)]
  | alternative branches => exact consumeFirstFor_congr henter' heq branches s hs
  | optional body =>
      simp only [consumeFor]
      split
      · exact consumeFor_congr henter' heq body s hs
      · rfl
  | repeated body =>
      refine bind_congr_left (repeatWhile_congr body.startsWith ?_ s (Nat.le_refl _)) _
      exact fun s' hs' => consumeFor_congr henter' heq body s' (hs.of_remaining_le hs')
  | reference production =>
      -- a reference is not guarded, so the stream must be shorter
      rcases hs with hs | ⟨_, hguarded⟩
      · exact heq production s hs
      · cases hguarded
  | deferred action body =>
      exact bind_congr_left (consumeFor_congr henter' heq body s hs) _

theorem consumeAllFor_congr (henter' : ∀ p, Forward (enter' p))
    (heq : ∀ p s, s.remaining < bound → enter p s = enter' p s) (rules : List Rule)
    (s : TokenStream) (hs : Admits bound s (guardedInTurn rules)) :
    consumeAllFor enter rules s = consumeAllFor enter' rules s := by
  cases rules with
  | nil => rfl
  | cons rule rules =>
      obtain ⟨hs, hafter⟩ := Admits.and_iff.mp hs
      have hrule := consumeFor_congr henter' heq rule s hs
      simp only [consumeAllFor, bind_apply, hrule]
      cases hnode : rule.consumeFor enter' s with
      | error failure s' => rfl
      | ok node s' =>
          simp only [consumeAllFor_congr henter' heq rules s' (hafter.after henter' hnode)]

theorem consumeFirstFor_congr (henter' : ∀ p, Forward (enter' p))
    (heq : ∀ p s, s.remaining < bound → enter p s = enter' p s) (branches : List Rule)
    (s : TokenStream) (hs : Admits bound s (everyGuarded branches)) :
    consumeFirstFor enter branches s = consumeFirstFor enter' branches s := by
  cases branches with
  | nil => rfl
  | cons branch branches =>
      obtain ⟨hbranch, hbranches⟩ := Admits.and_iff.mp hs
      simp only [consumeFirstFor]
      split
      · exact consumeFor_congr henter' heq branch s hbranch
      · exact consumeFirstFor_congr henter' heq branches s hbranches

end

end Rule

end Progress

/-! ## Productions by the number of references followed -/

namespace Production

/-- Consumes a production, following at most the given number of references
into one another. -/
def consumeWithin : Nat → Production → ParseM Node
  | 0, _ => fun s => .error .endless s
  | depth + 1, production => production.rule.consumeFor (consumeWithin depth)

/-- What every rule has if productions have it, productions have at any depth. -/
theorem consumeWithin_of_property {P : (α : Type) → ParseM α → Prop} (hP : ParserProperty P)
    (hendless : P Node fun s => .error .endless s) (depth : Nat) (production : Production) :
    P Node (production.consumeWithin depth) := by
  induction depth generalizing production with
  | zero => exact hendless
  | succ depth ih => exact hP.consumeFor ih production.rule

theorem forward_consumeWithin (depth : Nat) (production : Production) :
    Forward (production.consumeWithin depth) :=
  consumeWithin_of_property parserProperty_forward
    (forward_of_stays (fun _ _ _ heq => nomatch heq) fun _ _ _ heq => by cases heq; rfl)
    depth production

/-- A depth beyond the number of tokens ahead is never reached, and neither is
the test that stops a production from entering itself on the spot. -/
theorem consume_eq_consumeWithin {depth : Nat} (production : Production) {s : TokenStream}
    (hdepth : s.remaining < depth) : production.consume s = production.consumeWithin depth s := by
  induction depth generalizing production s with
  | zero => omega
  | succ depth ih =>
      rw [Production.consume, consumeWithin]
      refine Rule.consumeFor_congr (forward_consumeWithin depth) ?_
        production.rule s (.inr ⟨Nat.le_refl _, production.guarded_rule⟩)
      intro inner s' hs'
      rw [if_pos hs', ih inner (by omega)]

theorem forward_consume (production : Production) : Forward production.consume := by
  intro s
  rw [consume_eq_consumeWithin production (Nat.lt_succ_self s.remaining)]
  exact forward_consumeWithin _ production s

/-- A production consumes what its right-hand side does. -/
theorem consume_eq_rule (production : Production) :
    production.consume = production.rule.consume := by
  funext s
  rw [Production.consume, Rule.consume]
  refine Rule.consumeFor_congr forward_consume ?_ production.rule s
    (.inr ⟨Nat.le_refl _, production.guarded_rule⟩)
  intro inner s' hs'
  rw [if_pos hs']

end Production

/-- A rule needs no more references than it has tokens ahead. -/
theorem Rule.consume_eq_consumeFor {depth : Nat} (rule : Rule) {s : TokenStream}
    (hdepth : s.remaining < depth) :
    rule.consume s = rule.consumeFor (Production.consumeWithin depth) s :=
  Rule.consumeFor_congr (Production.forward_consumeWithin depth)
    (fun _ _ hs => Production.consume_eq_consumeWithin _ hs) rule s (.inl hdepth)

theorem Rule.forward_consume (rule : Rule) : Forward rule.consume :=
  Rule.forward_consumeFor Production.forward_consume rule

end Primer
