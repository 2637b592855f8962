import Primer.Proofs.Grammar.Parsing
import Primer.Proofs.Grammar.Termination

/-!
# One token of lookahead

How a rule ends is decided by the tokens that it takes and the one after them.
If it fails, the error is about that one token, so an error about anything but
the end marker stays the same whatever comes later.

## Main results

* `Rule.oneAhead_consume` : nothing beyond one token is looked at.
* `Rule.failsAhead_consume` : errors describe the token that was not taken.
* `parse_error_of_prefix` : an error before the end marker is there to stay.
-/

namespace Primer

open Stateful

namespace TokenStream

/-- After the same tokens, what was next was the same if what is next is. -/
theorem Moves.peek?_eq {s₁ s₂ s₁' s₂' : TokenStream} {taken : List Token}
    (h₁ : s₁.Moves taken s₁') (h₂ : s₂.Moves taken s₂') (hpeek : s₁'.peek? = s₂'.peek?) :
    s₁.peek? = s₂.peek? := by
  unfold peek? at hpeek ⊢
  rw [h₁.ahead, h₂.ahead, List.head?_append, List.head?_append, hpeek]

theorem Moves.behind_eq {s₁ s₂ s₁' s₂' : TokenStream} {taken : List Token}
    (h₁ : s₁.Moves taken s₁') (h₂ : s₂.Moves taken s₂') (hbehind : s₁.behind = s₂.behind) :
    s₁'.behind = s₂'.behind := by
  rw [h₁.behind, h₂.behind, hbehind]

theorem line_eq {s₁ s₂ : TokenStream} (hbehind : s₁.behind = s₂.behind)
    (hpeek : s₁.peek? = s₂.peek?) : s₁.line = s₂.line := by
  obtain ⟨behind₁, ahead₁, _, _⟩ := s₁
  obtain ⟨behind₂, ahead₂, _, _⟩ := s₂
  obtain rfl : behind₁ = behind₂ := hbehind
  cases ahead₁ <;> cases ahead₂ <;> simp_all [peek?, line]

/-- What is expected is missing if and only if the next token is another one or
there is none, and the error says so. -/
theorem expect_eq_error {kind : Kind} {s s' : TokenStream} {failure : Failure} :
    expect kind s = .error failure s' ↔ s' = s ∧
      match s.peek? with
      | none => failure = .error (.unexpectedEnd s.line)
      | some t => t.kind ≠ kind ∧ failure = .error (.unexpectedToken t.line t.kind kind) := by
  cases hahead : s.ahead with
  | nil =>
      rw [expect_of_ahead_eq_nil hahead]
      simp [peek?, hahead, eq_comm, and_comm]
  | cons t ts =>
      rw [expect_of_ahead_eq_cons hahead]
      simp only [peek?, hahead, List.head?_cons]
      split
      · next hkind => simp [hkind]
      · next hkind => simp [hkind, eq_comm, and_comm]

end TokenStream

/-! ## Looking no further than one token -/

theorem Forward.moves_endState {α : Type} {m : ParseM α} (hm : Forward m) (s : TokenStream) :
    ∃ taken, s.Moves taken (endState (m s)) := by
  cases hresult : m s with
  | ok a s' => exact (hm s).1 a s' hresult
  | error failure s' => exact (hm s).2 failure s' hresult

/-- From two streams at one position, a parser ends in the same way if the
tokens it takes and the one after them are the same. -/
def OneAheadAt {α : Type} (m : ParseM α) (s₁ : TokenStream) : Prop :=
  ∀ s₂ s₂' : TokenStream, ∀ taken, s₁.behind = s₂.behind → s₁.Moves taken (endState (m s₁)) →
    s₂.Moves taken s₂' → (endState (m s₁)).peek? = s₂'.peek? → m s₂ = endingIn s₂' (m s₁)

/-- From every stream, a parser looks no further than one token. -/
def OneAhead {α : Type} (m : ParseM α) : Prop := ∀ s, OneAheadAt m s

namespace OneAheadAt

variable {α β : Type} {m : ParseM α} {s₁ : TokenStream}

/-- A first computation leaves both streams at one position again. -/
theorem of_ok (hm : OneAheadAt m s₁) (hforward : Forward m) {a : α}
    {t₁ s₁' s₂ s₂' : TokenStream} (hok : m s₁ = .ok a t₁) (hbehind : s₁.behind = s₂.behind)
    {taken vs : List Token} (hvs : t₁.Moves vs s₁') (h₁ : s₁.Moves taken s₁')
    (h₂ : s₂.Moves taken s₂') (hpeek : s₁'.peek? = s₂'.peek?) :
    ∃ us t₂, m s₂ = .ok a t₂ ∧ s₁.Moves us t₁ ∧ s₂.Moves us t₂ ∧ t₂.Moves vs s₂' ∧
      t₁.behind = t₂.behind := by
  -- what the first run took is cut in two where the first computation stopped
  obtain ⟨us, hus⟩ := (hforward s₁).1 a t₁ hok
  obtain rfl := h₁.taken_unique (hus.trans hvs)
  obtain ⟨t₂, hus₂, hvs₂⟩ := h₂.split
  have hsecond := hm s₂ t₂ us hbehind (by rwa [hok]) hus₂
    (by rw [hok]; exact hvs.peek?_eq hvs₂ hpeek)
  rw [hok] at hsecond
  exact ⟨us, t₂, hsecond, hus, hus₂, hvs₂, hus.behind_eq hus₂ hbehind⟩

/-- What comes second only matters where the first computation ends. -/
theorem bind {f : α → ParseM β} (hm : OneAheadAt m s₁) (hforward : Forward m)
    (hforward' : ∀ a, Forward (f a)) (hf : ∀ a t₁, m s₁ = .ok a t₁ → OneAheadAt (f a) t₁) :
    OneAheadAt (m >>= f) s₁ := by
  intro s₂ s₂' taken hbehind h₁ h₂ hpeek
  cases hfirst : m s₁ with
  | error failure s₁' =>
      rw [bind_of_error hfirst] at h₁ hpeek ⊢
      have hsecond := hm s₂ s₂' taken hbehind (by rwa [hfirst]) h₂ (by rwa [hfirst])
      rw [hfirst] at hsecond
      exact bind_of_error hsecond f
  | ok a t₁ =>
      rw [bind_of_ok hfirst] at h₁ hpeek ⊢
      obtain ⟨vs, hvs⟩ := (hforward' a).moves_endState t₁
      obtain ⟨us, t₂, hsecond, -, -, hvs₂, hbehind'⟩ :=
        hm.of_ok hforward hfirst hbehind hvs h₁ h₂ hpeek
      rw [bind_of_ok hsecond]
      exact hf a t₁ hfirst t₂ s₂' vs hbehind' hvs hvs₂ hpeek

end OneAheadAt

namespace OneAhead

/-- What takes no token and depends on the next one alone. -/
theorem of_stays {α : Type} {m : ParseM α} (hstays : ∀ s, endState (m s) = s)
    (hnext : ∀ s₁ s₂ : TokenStream, s₁.behind = s₂.behind → s₁.peek? = s₂.peek? →
      m s₂ = endingIn s₂ (m s₁)) : OneAhead m := by
  intro s₁ s₂ s₂' taken hbehind h₁ h₂ hpeek
  rw [hstays] at h₁ hpeek
  obtain rfl := h₁.taken_unique (.refl s₁)
  obtain rfl := h₂.unique (.refl s₂)
  exact hnext s₁ s₂' hbehind hpeek

theorem pure {α : Type} (a : α) : OneAhead (Pure.pure a : ParseM α) :=
  of_stays (fun _ => rfl) fun _ _ _ _ => rfl

theorem bind {α β : Type} {m : ParseM α} {f : α → ParseM β} (hforward : Forward m)
    (hm : OneAhead m) (hforward' : ∀ a, Forward (f a)) (hf : ∀ a, OneAhead (f a)) :
    OneAhead (m >>= f) :=
  fun s => (hm s).bind hforward hforward' fun a t₁ _ => hf a t₁

theorem expect (kind : Kind) : OneAhead (TokenStream.expect kind) := by
  intro s₁ s₂ s₂' taken hbehind h₁ h₂ hpeek
  cases hexpect : TokenStream.expect kind s₁ with
  | ok t s₁' =>
      rw [hexpect] at h₁
      obtain ⟨hkind, hmoves⟩ := TokenStream.expect_eq_ok.mp hexpect
      obtain rfl := h₁.taken_unique hmoves
      exact TokenStream.expect_eq_ok.mpr ⟨hkind, h₂⟩
  | error failure s₁' =>
      obtain ⟨rfl, hfailure⟩ := TokenStream.expect_eq_error.mp hexpect
      rw [hexpect] at h₁ hpeek
      -- on a failure nothing was taken, so both streams stand where they began
      obtain rfl := h₁.taken_unique (.refl s₁')
      obtain rfl := h₂.unique (.refl s₂)
      change s₁'.peek? = s₂'.peek? at hpeek
      rw [hpeek, TokenStream.line_eq hbehind hpeek] at hfailure
      exact TokenStream.expect_eq_error.mpr ⟨rfl, hfailure⟩

theorem choice (c : Option Kind → Bool) {m m' : ParseM Node} (hm : OneAhead m)
    (hm' : OneAhead m') : OneAhead fun s => if c s.nextKind? then m s else m' s := by
  intro s₁ s₂ s₂' taken hbehind h₁ h₂ hpeek
  -- only the next kind decides, and it is that of a token both streams agree on
  have hnext : s₁.nextKind? = s₂.nextKind? := by
    rw [TokenStream.nextKind?, TokenStream.nextKind?, h₁.peek?_eq h₂ hpeek]
  dsimp only at h₁ hpeek ⊢
  rw [hnext] at h₁ hpeek ⊢
  split at h₁
  · next hc =>
      rw [if_pos hc] at hpeek ⊢
      rw [if_pos hc]
      exact hm s₁ s₂ s₂' taken hbehind h₁ h₂ hpeek
  · next hc =>
      rw [if_neg hc] at hpeek ⊢
      rw [if_neg hc]
      exact hm' s₁ s₂ s₂' taken hbehind h₁ h₂ hpeek

theorem noAlternative : OneAhead (α := Node) fun s =>
    .error (.error (.noAlternative s.line (s.nextKind?.getD .endMarker))) s := by
  refine of_stays (fun _ => rfl) fun s₁ s₂ hbehind hpeek => ?_
  simp only [endingIn, TokenStream.nextKind?, TokenStream.line_eq hbehind hpeek, hpeek]

theorem repeatWhile (continues : Option Kind → Bool) {body : ParseM Node} (hforward : Forward body)
    (hbody : OneAhead body) : OneAhead (repeatWhile continues body) := by
  intro s₁
  induction hremaining : s₁.remaining using Nat.strongRecOn generalizing s₁ with
  | ind remaining ih =>
      subst hremaining
      intro s₂ s₂' taken hbehind h₁ h₂ hpeek
      have hnext : s₂.nextKind? = s₁.nextKind? := by
        rw [TokenStream.nextKind?, TokenStream.nextKind?, h₁.peek?_eq h₂ hpeek]
      cases hcontinues : continues s₁.nextKind? with
      | false =>
          rw [repeatWhile_stop hcontinues] at h₁
          rw [repeatWhile_stop hcontinues, repeatWhile_stop (hnext ▸ hcontinues)]
          obtain rfl := h₁.taken_unique (.refl s₁)
          rw [h₂.unique (.refl s₂)]
          rfl
      | true =>
          have hcontinues₂ : continues s₂.nextKind? = true := hnext ▸ hcontinues
          cases hnode : body s₁ with
          | error failure s₁' =>
              rw [repeatWhile_of_error hcontinues hnode] at h₁ hpeek ⊢
              have hsecond := hbody s₁ s₂ s₂' taken hbehind (by rwa [hnode]) h₂ (by rwa [hnode])
              rw [hnode] at hsecond
              exact repeatWhile_of_error hcontinues₂ hsecond
          | ok node t₁ =>
              by_cases hless : t₁.remaining < s₁.remaining
              · rw [repeatWhile_of_ok hcontinues hnode hless] at h₁ hpeek ⊢
                obtain ⟨vs, hvs⟩ := (Forward.bind (hforward.repeatWhile continues)
                  fun nodes => parserProperty_forward.pure (node :: nodes)).moves_endState t₁
                obtain ⟨us, t₂, hsecond, hus, hus₂, hvs₂, hbehind'⟩ :=
                  (hbody s₁).of_ok hforward hnode hbehind hvs h₁ h₂ hpeek
                have hless₂ : t₂.remaining < s₂.remaining := by
                  have := hus.remaining
                  have := hus₂.remaining
                  omega
                rw [repeatWhile_of_ok hcontinues₂ hsecond hless₂]
                -- after the body, the repetition goes on with fewer tokens ahead
                exact (ih t₁.remaining hless t₁ rfl).bind (hforward.repeatWhile continues)
                  (fun nodes => parserProperty_forward.pure (node :: nodes))
                  (fun nodes u _ => pure (node :: nodes) u) t₂ s₂' vs hbehind' hvs hvs₂ hpeek
              · rw [repeatWhile_of_not_lt hcontinues hnode hless] at h₁ hpeek ⊢
                obtain ⟨us, t₂, hsecond, hus, hus₂, hvs₂, -⟩ :=
                  (hbody s₁).of_ok hforward hnode hbehind (.refl t₁) h₁ h₂ hpeek
                have hless₂ : ¬t₂.remaining < s₂.remaining := by
                  have := hus.remaining
                  have := hus₂.remaining
                  omega
                rw [repeatWhile_of_not_lt hcontinues₂ hsecond hless₂, hvs₂.unique (.refl t₂)]
                rfl

end OneAhead

theorem parserProperty_oneAhead : ParserProperty fun _ m => Forward m ∧ OneAhead m where
  pure a := ⟨parserProperty_forward.pure a, .pure a⟩
  bind hm hf :=
    ⟨hm.1.bind fun a => (hf a).1, .bind hm.1 hm.2 (fun a => (hf a).1) fun a => (hf a).2⟩
  expect kind := ⟨forward_expect kind, .expect kind⟩
  choice c _ _ hm hm' := ⟨parserProperty_forward.choice c hm.1 hm'.1, .choice c hm.2 hm'.2⟩
  noAlternative := ⟨parserProperty_forward.noAlternative, .noAlternative⟩
  repeatWhile c _ hm := ⟨hm.1.repeatWhile c, .repeatWhile c hm.1 hm.2⟩

theorem Production.oneAhead_consume (production : Production) : OneAhead production.consume := by
  intro s₁ s₂ s₂' taken hbehind h₁ h₂ hpeek
  -- a depth that suffices for both streams
  have hwithin := consumeWithin_of_property (P := fun _ m => Forward m ∧ OneAhead m)
    parserProperty_oneAhead
    ⟨forward_of_stays (fun _ _ _ heq => nomatch heq) fun _ _ _ heq => by cases heq; rfl,
      .of_stays (fun _ => rfl) fun _ _ _ _ => rfl⟩ (s₁.remaining + s₂.remaining + 1) production
  have hfirst : s₁.remaining < s₁.remaining + s₂.remaining + 1 := by omega
  have hsecond : s₂.remaining < s₁.remaining + s₂.remaining + 1 := by omega
  rw [consume_eq_consumeWithin production hfirst] at h₁ hpeek ⊢
  rw [consume_eq_consumeWithin production hsecond]
  exact hwithin.2 s₁ s₂ s₂' taken hbehind h₁ h₂ hpeek

theorem Rule.oneAhead_consume (rule : Rule) : OneAhead rule.consume :=
  (parserProperty_oneAhead.consumeFor
    (fun p => ⟨p.forward_consume, p.oneAhead_consume⟩) rule).2

/-! ## Errors are about the next token -/

/-- The error is about the next token of the stream, or about its end. -/
def Error.Describes (error : Error) (s : TokenStream) : Prop :=
  match s.peek? with
  | some t => (∃ expected, error = .unexpectedToken t.line t.kind expected) ∨
      error = .noAlternative t.line t.kind
  | none => error = .unexpectedEnd s.line ∨ error = .noAlternative s.line .endMarker

/-- A parser fails with an error about the token it did not take. -/
def FailsAhead {α : Type} (m : ParseM α) : Prop :=
  ∀ s failure s', m s = .error failure s' →
    failure = .endless ∨ ∃ error, failure = .error error ∧ error.Describes s'

namespace FailsAhead

theorem expect (kind : Kind) : FailsAhead (TokenStream.expect kind) := by
  intro s failure s' heq
  obtain ⟨rfl, hfailure⟩ := TokenStream.expect_eq_error.mp heq
  unfold Error.Describes
  cases hpeek : s'.peek? with
  | none =>
      rw [hpeek] at hfailure
      exact .inr ⟨_, hfailure, .inl rfl⟩
  | some t =>
      rw [hpeek] at hfailure
      exact .inr ⟨_, hfailure.2, .inl ⟨kind, rfl⟩⟩

theorem noAlternative : FailsAhead (α := Node) fun s =>
    .error (.error (.noAlternative s.line (s.nextKind?.getD .endMarker))) s := by
  intro s failure s' heq
  cases heq
  refine .inr ⟨_, rfl, ?_⟩
  unfold Error.Describes
  cases hpeek : s.peek? with
  | none => exact .inr (by simp [TokenStream.nextKind?, hpeek])
  | some t =>
      refine .inr ?_
      obtain ⟨behind, ahead, remaining, hremaining⟩ := s
      cases ahead with
      | nil => cases hpeek
      | cons u us =>
          cases hpeek
          rfl

theorem repeatWhile (continues : Option Kind → Bool) {body : ParseM Node}
    (hbody : FailsAhead body) : FailsAhead (repeatWhile continues body) := by
  intro s
  fun_induction Primer.repeatWhile continues body s with
  | case1 s _ failure s' hfailure =>
      rintro _ _ ⟨⟩
      exact hbody s failure s' hfailure
  | case2 s _ node s' _ _ failure s'' hrest ih =>
      rintro _ _ ⟨⟩
      exact ih failure s'' hrest
  | case3 => rintro _ _ ⟨⟩
  | case4 =>
      rintro _ _ ⟨⟩
      exact .inl rfl
  | case5 => rintro _ _ ⟨⟩

end FailsAhead

theorem parserProperty_failsAhead : ParserProperty @FailsAhead where
  pure _ _ _ _ heq := by cases heq
  bind hm hf s failure s'' heq := by
    rcases bind_eq_error.mp heq with hfirst | ⟨a, s', _, hsecond⟩
    · exact hm s failure s'' hfirst
    · exact hf a s' failure s'' hsecond
  expect := FailsAhead.expect
  choice c _ _ hm hm' s failure s' heq := by
    dsimp only at heq
    split at heq
    · exact hm s failure s' heq
    · exact hm' s failure s' heq
  noAlternative := FailsAhead.noAlternative
  repeatWhile := FailsAhead.repeatWhile

theorem Production.failsAhead_consume (production : Production) :
    FailsAhead production.consume := by
  intro s failure s' heq
  rw [consume_eq_consumeWithin production (Nat.lt_succ_self s.remaining)] at heq
  exact consumeWithin_of_property parserProperty_failsAhead
    (fun _ _ _ heq => .inl (by cases heq; rfl)) _ production s failure s' heq

theorem Rule.failsAhead_consume (rule : Rule) : FailsAhead rule.consume :=
  parserProperty_failsAhead.consumeFor Production.failsAhead_consume rule

/-- An error that could still go away is about the end marker or the end. -/
theorem Error.Describes.isIncomplete {error : Error} {s : TokenStream}
    (hdescribes : error.Describes s) :
    error.isIncomplete = (s.nextKind?.getD .endMarker == .endMarker) := by
  unfold Error.Describes at hdescribes
  rw [TokenStream.nextKind?]
  -- an error is incomplete where the stream was at its end, or at the end marker
  cases hpeek : s.peek? with
  | none =>
      rw [hpeek] at hdescribes
      rcases hdescribes with rfl | rfl <;> rfl
  | some t =>
      rw [hpeek] at hdescribes
      rcases hdescribes with ⟨expected, rfl⟩ | rfl <;> rfl

/-! ## Whole programs -/

theorem oneAhead_consumeProgram : OneAhead consumeProgram :=
  (parserProperty_oneAhead.bind
    ⟨Production.forward_consume .statements, Production.oneAhead_consume .statements⟩ fun _ =>
      parserProperty_oneAhead.bind (parserProperty_oneAhead.expect .endMarker) fun _ =>
        parserProperty_oneAhead.pure _).2

theorem failsAhead_consumeProgram : FailsAhead consumeProgram :=
  parserProperty_failsAhead.bind (Production.failsAhead_consume .statements) fun _ =>
    parserProperty_failsAhead.bind (parserProperty_failsAhead.expect .endMarker) fun _ =>
      parserProperty_failsAhead.pure _

theorem forward_consumeProgram : Forward consumeProgram :=
  (Production.forward_consume .statements).bind fun _ =>
    (forward_expect .endMarker).bind fun _ => parserProperty_forward.pure _

/-- Parsing fails with an error of the text, if it fails. -/
theorem parse_eq_error {tokens : List Token} {failure : Failure}
    (hparse : parse tokens = .error failure) :
    ∃ error s', failure = .error error ∧ consumeProgram (.ofTokens tokens) = .error failure s' ∧
      error.Describes s' := by
  have hends := parse_ne_endless tokens
  unfold parse at hparse hends
  split at hparse
  · cases hparse
  · next failure' s' hfailure =>
      cases hparse
      -- a failure of the consumer is an error or the endless repetition, which does not happen
      rcases failsAhead_consumeProgram _ _ _ hfailure with rfl | ⟨error, rfl, hdescribes⟩
      · rw [hfailure] at hends
        exact absurd rfl hends
      · exact ⟨error, s', rfl, hfailure, hdescribes⟩

/-- What is not the last element is among those before it. -/
theorem exists_append_cons_of_ne {α : Type} {as first others : List α} {a last : α}
    (heq : as ++ [last] = first ++ a :: others) (hne : a ≠ last) :
    ∃ others', as = first ++ a :: others' := by
  rcases List.eq_nil_or_concat others with rfl | ⟨others', b, rfl⟩
  · obtain ⟨-, hlast⟩ := List.append_inj' heq rfl
    cases hlast
    exact absurd rfl hne
  · refine ⟨others', ?_⟩
    have hsplit : first ++ a :: others'.concat b = (first ++ a :: others') ++ [b] := by simp
    exact (List.append_inj' (heq.trans hsplit) rfl).1

/-- An error about a token before the end marker stays, whatever follows instead
of the end marker. -/
theorem parse_error_of_prefix {tokens : List Token} {line : Nat} {error : Error}
    (hparse : parse (tokens ++ [⟨.endMarker, line⟩]) = .error (.error error))
    (hcomplete : error.isIncomplete = false) (rest : List Token) :
    parse (tokens ++ rest) = .error (.error error) := by
  obtain ⟨_, s₁', heq, hfailure, hdescribes⟩ := parse_eq_error hparse
  cases heq
  obtain ⟨taken, h₁⟩ := forward_consumeProgram.moves_endState
    (.ofTokens (tokens ++ [⟨.endMarker, line⟩]))
  rw [hfailure] at h₁
  change TokenStream.Moves _ taken s₁' at h₁
  -- the error is about a token that is not the end marker, so it is one of `tokens`
  have hkind := hdescribes.isIncomplete.symm.trans hcomplete
  cases hahead : s₁'.ahead with
  | nil => simp [TokenStream.nextKind?, TokenStream.peek?, hahead] at hkind
  | cons t ts =>
      simp only [TokenStream.nextKind?, TokenStream.peek?, hahead, List.head?_cons,
        Option.map_some, Option.getD_some, beq_eq_false_iff_ne] at hkind
      have htokens : tokens ++ [⟨.endMarker, line⟩] = taken ++ t :: ts := by
        rw [← hahead, ← h₁.ahead, TokenStream.ahead_ofTokens]
      obtain ⟨us, rfl⟩ := exists_append_cons_of_ne htokens fun heq => hkind (by rw [heq]; rfl)
      obtain ⟨s₂', h₂, hahead₂⟩ := TokenStream.exists_moves
        (s := .ofTokens (taken ++ t :: us ++ rest)) taken (List.append_assoc taken (t :: us) rest)
      have hpeek : s₁'.peek? = s₂'.peek? := by
        simp [TokenStream.peek?, hahead, hahead₂]
      have hsecond := oneAhead_consumeProgram
        (.ofTokens (taken ++ t :: us ++ [⟨.endMarker, line⟩]))
        (.ofTokens (taken ++ t :: us ++ rest)) s₂' taken rfl (by rwa [hfailure]) h₂
        (by rwa [hfailure])
      rw [hfailure] at hsecond
      rw [parse, hsecond]
      rfl

/-- Where the tokens of a program are cut, there is a program or it is incomplete. -/
theorem parse_of_append_eq {program : Program} {tokens rest : List Token} {last : Nat}
    (htokens : tokens ++ rest = program.tokens ++ [⟨.endMarker, last⟩]) (line : Nat) :
    (∃ node, parse (tokens ++ [⟨.endMarker, line⟩]) = .ok node) ∨
      ∃ error, parse (tokens ++ [⟨.endMarker, line⟩]) = .error (.error error) ∧
        error.isIncomplete = true := by
  cases hparse : parse (tokens ++ [⟨.endMarker, line⟩]) with
  | ok node => exact .inl ⟨node, rfl⟩
  | error failure =>
      obtain ⟨error, -, rfl, -⟩ := parse_eq_error hparse
      refine .inr ⟨error, rfl, ?_⟩
      by_cases hincomplete : error.isIncomplete = true
      · exact hincomplete
      · -- any other error would be one of the whole program too
        have hfails := parse_error_of_prefix hparse (Bool.eq_false_iff.mpr hincomplete) rest
        have hparses := parse_eq_ok.mpr ⟨program, last, [], rfl, htokens⟩
        cases hparses.symm.trans hfails

end Primer
