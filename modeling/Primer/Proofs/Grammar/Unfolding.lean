import Primer.Proofs.Grammar.Lookahead

/-!
# Rules defined by one another

The rules of a grammar refer to one another by names, and a name is looked up
only when it is needed.  There may be any number of names, and looking them up
may go on for ever; but consuming that ends has followed references to some
depth only, and what lies deeper has not mattered.  `unfold` follows the
references of a rule to a depth and puts other rules in the place of those that
are left.  A rule ends in a way if at some depth it does so whatever these are.

Two laws hold of everything that rules can be put together to:

```text
lookahead      a rule that cannot begin fails on the spot, and a failure is
               about the token in front of which the stream was left
one token      the tokens taken and the one behind them decide everything
```

## Main results

* `Rule.consumes_reference`, `Rule.not_consumes_of_rule_eq_reference` : what a reference
  consumes, and that one which is followed for ever does not end.
* `Rule.matches_startsWith`, `Rule.consumes_consume` : the productions of the grammar
  are such names.
* `Rule.consumes_lookahead` : the first law.
* `Rule.consumes_oneAhead` : the second law.
-/

namespace Primer

open Stateful

namespace Rule

variable {Name Other : Type}

/-! ## Following references -/

mutual

/-- The rule with a rule in the place of each reference. -/
def substitute (f : Name → Rule Other) : Rule Name → Rule Other
  | .terminal kind => .terminal kind
  | .sequence first others => .sequence (substitute f first) (substituteAll f others)
  | .alternative branches => .alternative (substituteAll f branches)
  | .optional body => .optional (substitute f body)
  | .repeated body => .repeated (substitute f body)
  | .empty => .empty
  | .reference name => f name
  | .deferred action body => .deferred action (substitute f body)

/-- Rules with a rule in the place of each reference. -/
def substituteAll (f : Name → Rule Other) : List (Rule Name) → List (Rule Other)
  | [] => []
  | rule :: rules => substitute f rule :: substituteAll f rules

end

/-- The rule after references were followed to a depth, with the `rest` in the
place of those left over. -/
def unfold (rules : Name → Rule Name) (rest : Name → Rule) : Nat → Rule Name → Rule
  | 0, rule => rule.substitute rest
  | depth + 1, rule => rule.substitute fun name => unfold rules rest depth (rules name)

/-- Whether the rule can begin at a stream, where names stand for `rules`. -/
def Matches (rules : Name → Rule Name) (rule : Rule Name) (s : TokenStream) (answer : Bool) :
    Prop :=
  ∃ depth, ∀ rest, (rule.unfold rules rest depth).startsWith s.nextKind? = answer

/-- How consuming the rule off a stream ends, where names stand for `rules`. -/
def Consumes (rules : Name → Rule Name) (rule : Rule Name) (s : TokenStream)
    (result : EStateM.Result Failure TokenStream Node) : Prop :=
  ∃ depth, ∀ rest, (rule.unfold rules rest depth).consume s = result

/-- To follow references deeper is to put what they stand for in their place. -/
theorem exists_unfold_eq (rules : Name → Rule Name) (rest : Name → Rule) {depth n : Nat}
    (hle : depth ≤ n) :
    ∃ rest', ∀ rule : Rule Name, rule.unfold rules rest n = rule.unfold rules rest' depth := by
  induction depth generalizing n with
  | zero =>
      cases n with
      | zero => exact ⟨rest, fun _ => rfl⟩
      | succ n => exact ⟨fun name => (rules name).unfold rules rest n, fun _ => rfl⟩
  | succ depth ih =>
      obtain ⟨m, rfl⟩ : ∃ m, n = m + 1 := ⟨n - 1, by omega⟩
      obtain ⟨rest', hrest'⟩ := ih (n := m) (by omega)
      exact ⟨rest', fun rule => by simp only [unfold, hrest']⟩

section Depths

variable {rules : Name → Rule Name} {rule : Rule Name} {s : TokenStream}

theorem Matches.eventually {answer : Bool} (hmatches : rule.Matches rules s answer) :
    ∃ depth, ∀ n ≥ depth, ∀ rest,
      (rule.unfold rules rest n).startsWith s.nextKind? = answer := by
  obtain ⟨depth, hdepth⟩ := hmatches
  refine ⟨depth, fun n hn rest => ?_⟩
  obtain ⟨rest', hrest'⟩ := exists_unfold_eq rules rest hn
  rw [hrest' rule, hdepth rest']

theorem Consumes.eventually {result : EStateM.Result Failure TokenStream Node}
    (hconsumes : rule.Consumes rules s result) :
    ∃ depth, ∀ n ≥ depth, ∀ rest, (rule.unfold rules rest n).consume s = result := by
  obtain ⟨depth, hdepth⟩ := hconsumes
  refine ⟨depth, fun n hn rest => ?_⟩
  obtain ⟨rest', hrest'⟩ := exists_unfold_eq rules rest hn
  rw [hrest' rule, hdepth rest']

theorem Consumes.unique {result result' : EStateM.Result Failure TokenStream Node}
    (hresult : rule.Consumes rules s result) (hresult' : rule.Consumes rules s result') :
    result = result' := by
  obtain ⟨depth, hdepth⟩ := hresult.eventually
  obtain ⟨depth', hdepth'⟩ := hresult'.eventually
  rw [← hdepth (depth + depth') (by omega) fun _ => .empty,
    ← hdepth' (depth + depth') (by omega) fun _ => .empty]

/-- A reference consumes what the rule of its name does. -/
theorem consumes_reference {name : Name} {result : EStateM.Result Failure TokenStream Node} :
    (reference name).Consumes rules s result ↔ (rules name).Consumes rules s result := by
  constructor
  · intro hconsumes
    obtain ⟨depth, hdepth⟩ := hconsumes.eventually
    exact ⟨depth, hdepth (depth + 1) (by omega)⟩
  · rintro ⟨depth, hdepth⟩
    exact ⟨depth + 1, hdepth⟩

/-- A name that stands for itself is looked up for ever. -/
theorem not_consumes_of_rule_eq_reference {name : Name} (hself : rules name = reference name)
    (result : EStateM.Result Failure TokenStream Node) :
    ¬(reference name).Consumes rules s result := by
  rintro ⟨depth, hdepth⟩
  have hunfold : ∀ rest, (reference name).unfold rules rest depth = rest name := by
    intro rest
    clear hdepth
    induction depth with
    | zero => rfl
    | succ depth ih => rw [unfold, substitute, hself, ih]
  -- what is left over decides everything, at every depth
  have hempty := hdepth fun _ => .empty
  have hfails := hdepth fun _ => .alternative []
  rw [hunfold] at hempty hfails
  cases hempty.trans hfails.symm

end Depths

/-! ## Substitution and consuming -/

mutual

theorem startsWithFor_substitute (enter : Other → Option Kind → Bool) (f : Name → Rule Other)
    (rule : Rule Name) (next : Option Kind) :
    (rule.substitute f).startsWithFor enter next =
      rule.startsWithFor (fun name => (f name).startsWithFor enter) next := by
  cases rule with
  | sequence first others => exact startsWithFor_substitute enter f first next
  | alternative branches => exact someStartsWithFor_substitute enter f branches next
  | deferred action body => exact startsWithFor_substitute enter f body next
  | terminal | optional | repeated | empty | reference => rfl

theorem someStartsWithFor_substitute (enter : Other → Option Kind → Bool)
    (f : Name → Rule Other) (branches : List (Rule Name)) (next : Option Kind) :
    someStartsWithFor enter (substituteAll f branches) next =
      someStartsWithFor (fun name => (f name).startsWithFor enter) branches next := by
  cases branches with
  | nil => rfl
  | cons branch branches =>
      simp only [substituteAll, someStartsWithFor, startsWithFor_substitute enter f branch next,
        someStartsWithFor_substitute enter f branches next]

end

section Productions

variable {f : Production → Rule}

/-- Rules that begin where the productions do can stand in their place. -/
theorem startsWith_substitute (hstarts : ∀ p, (f p).startsWith = p.startsWith) (rule : Rule) :
    (rule.substitute f).startsWith = rule.startsWith := by
  funext next
  have henter : (fun p => (f p).startsWithFor Production.startsWith) = Production.startsWith :=
    funext hstarts
  rw [startsWith, startsWithFor_substitute, henter, startsWith]

mutual

theorem consumeFor_substitute (hstarts : ∀ p, (f p).startsWith = p.startsWith)
    (enter : Production → ParseM Node) (rule : Rule) :
    (rule.substitute f).consumeFor enter = rule.consumeFor fun p => (f p).consumeFor enter := by
  cases rule with
  | terminal | empty | reference => rfl
  | sequence first others =>
      simp only [substitute, consumeFor, consumeFor_substitute hstarts enter first,
        consumeAllFor_substitute hstarts enter others]
  | alternative branches => exact consumeFirstFor_substitute hstarts enter branches
  | optional body =>
      funext s
      simp only [substitute, consumeFor, consumeFor_substitute hstarts enter body,
        startsWith_substitute hstarts body]
  | repeated body =>
      simp only [substitute, consumeFor, consumeFor_substitute hstarts enter body,
        startsWith_substitute hstarts body]
  | deferred action body =>
      simp only [substitute, consumeFor, consumeFor_substitute hstarts enter body]

theorem consumeAllFor_substitute (hstarts : ∀ p, (f p).startsWith = p.startsWith)
    (enter : Production → ParseM Node) (rules : List Rule) :
    consumeAllFor enter (substituteAll f rules) =
      consumeAllFor (fun p => (f p).consumeFor enter) rules := by
  cases rules with
  | nil => rfl
  | cons rule rules =>
      simp only [substituteAll, consumeAllFor, consumeFor_substitute hstarts enter rule,
        consumeAllFor_substitute hstarts enter rules]

theorem consumeFirstFor_substitute (hstarts : ∀ p, (f p).startsWith = p.startsWith)
    (enter : Production → ParseM Node) (branches : List Rule) :
    consumeFirstFor enter (substituteAll f branches) =
      consumeFirstFor (fun p => (f p).consumeFor enter) branches := by
  cases branches with
  | nil => rfl
  | cons branch branches =>
      funext s
      simp only [substituteAll, consumeFirstFor, consumeFor_substitute hstarts enter branch,
        consumeFirstFor_substitute hstarts enter branches, startsWith_substitute hstarts branch]

end

theorem consume_substitute (hstarts : ∀ p, (f p).startsWith = p.startsWith) (rule : Rule) :
    (rule.substitute f).consume = rule.consumeFor fun p => (f p).consume :=
  consumeFor_substitute hstarts Production.consume rule

end Productions

/-! ## The grammar -/

/-- A production begins with a token, so what its references stand for does not matter. -/
theorem startsWith_unfold_rule (rest : Production → Rule) (depth : Nat)
    (production : Production) :
    (production.rule.unfold Production.rule rest depth).startsWith = production.startsWith := by
  funext next
  cases depth <;> cases production <;> rfl

/-- Where names are productions, a rule begins where it does when references are
followed as they come. -/
theorem matches_startsWith (rule : Rule) (s : TokenStream) :
    rule.Matches Production.rule s (rule.startsWith s.nextKind?) := by
  refine ⟨1, fun rest => ?_⟩
  rw [unfold, startsWith_substitute (startsWith_unfold_rule rest 0)]

/-- A production follows fewer references than it has tokens ahead. -/
theorem consume_unfold_rule (rest : Production → Rule) {depth : Nat} (production : Production)
    {s : TokenStream} (hdepth : s.remaining < depth) :
    (production.rule.unfold Production.rule rest depth).consume s = production.consume s := by
  induction depth generalizing production s with
  | zero => exact absurd hdepth (Nat.not_lt_zero _)
  | succ depth ih =>
      have hadmits : Admits depth s production.rule.guarded :=
        .inr ⟨Nat.le_of_lt_succ hdepth, production.guarded_rule⟩
      rw [unfold, consume_substitute (startsWith_unfold_rule rest depth),
        Production.consume_eq_rule]
      exact consumeFor_congr Production.forward_consume (fun inner _ hless => ih inner hless)
        production.rule s hadmits

/-- Likewise it consumes what it does then. -/
theorem consumes_consume (rule : Rule) (s : TokenStream) :
    rule.Consumes Production.rule s (rule.consume s) := by
  refine ⟨s.remaining + 2, fun rest => ?_⟩
  have hadmits : Admits (s.remaining + 1) s rule.guarded := .inl (by omega)
  rw [unfold, consume_substitute (startsWith_unfold_rule rest (s.remaining + 1))]
  exact consumeFor_congr Production.forward_consume
    (fun inner _ hless => consume_unfold_rule rest inner hless) rule s hadmits

end Rule

/-! ## Where rules cannot begin -/

/-- Where its lookahead says no, a parser fails and takes nothing. -/
def StaysUnless {α : Type} (starts : Option Kind → Bool) (m : ParseM α) : Prop :=
  ∀ s : TokenStream, starts s.nextKind? = false → ∃ failure, m s = .error failure s

theorem StaysUnless.bind {α β : Type} {starts : Option Kind → Bool} {m : ParseM α}
    (hm : StaysUnless starts m) (f : α → ParseM β) : StaysUnless starts (m >>= f) := by
  intro s hstarts
  obtain ⟨failure, hfailure⟩ := hm s hstarts
  exact ⟨failure, bind_of_error hfailure f⟩

theorem staysUnless_expect (kind : Kind) :
    StaysUnless (fun next => next == some kind) (TokenStream.expect kind) := by
  intro s hstarts
  cases hexpect : TokenStream.expect kind s with
  | error failure s' => exact ⟨failure, by rw [TokenStream.expect_error hexpect]⟩
  | ok t s' =>
      obtain ⟨hkind, hahead, -⟩ := TokenStream.expect_ok hexpect
      simp [TokenStream.nextKind?, TokenStream.peek?, hahead, hkind] at hstarts

namespace Rule

variable {enter : Production → ParseM Node}

mutual

theorem staysUnless_consumeFor (henter : ∀ p, StaysUnless p.startsWith (enter p)) (rule : Rule) :
    StaysUnless rule.startsWith (rule.consumeFor enter) := by
  cases rule with
  | terminal kind => exact (staysUnless_expect kind).bind _
  | sequence first others => exact (staysUnless_consumeFor henter first).bind _
  | alternative branches => exact staysUnless_consumeFirstFor henter branches
  | reference production => exact henter production
  | deferred action body => exact (staysUnless_consumeFor henter body).bind _
  | optional | repeated | empty => exact fun _ hstarts => nomatch hstarts

theorem staysUnless_consumeFirstFor (henter : ∀ p, StaysUnless p.startsWith (enter p))
    (branches : List Rule) :
    StaysUnless (someStartsWithFor Production.startsWith branches)
      (consumeFirstFor enter branches) := by
  cases branches with
  | nil => exact fun s _ => ⟨_, rfl⟩
  | cons branch branches =>
      intro s hstarts
      obtain ⟨hbranch, hbranches⟩ := Bool.or_eq_false_iff.mp hstarts
      obtain ⟨failure, hfailure⟩ := staysUnless_consumeFirstFor henter branches s hbranches
      refine ⟨failure, ?_⟩
      have hpassed : branch.startsWith s.nextKind? = false := hbranch
      simp only [consumeFirstFor, hpassed]
      exact hfailure

end

end Rule

theorem Production.staysUnless_consumeWithin (depth : Nat) (production : Production) :
    StaysUnless production.startsWith (production.consumeWithin depth) := by
  induction depth generalizing production with
  | zero => exact fun s _ => ⟨_, rfl⟩
  | succ depth ih =>
      have hstarts : production.rule.startsWith = production.startsWith := by
        cases production <;> rfl
      rw [← hstarts]
      exact Rule.staysUnless_consumeFor ih production.rule

theorem Rule.staysUnless_consume (rule : Rule) : StaysUnless rule.startsWith rule.consume := by
  intro s hstarts
  rw [Rule.consume_eq_consumeFor rule (Nat.lt_succ_self s.remaining)]
  exact Rule.staysUnless_consumeFor (Production.staysUnless_consumeWithin _) rule s hstarts

/-! ## Positions in streams -/

namespace TokenStream

theorem peek?_eq_getElem? (s : TokenStream) : s.peek? = s.tokens[s.position]? := by
  have hbehind : s.behind.reverse.length = s.position := List.length_reverse
  rw [peek?, tokens, List.getElem?_append_right (Nat.le_of_eq hbehind), hbehind, Nat.sub_self,
    List.head?_eq_getElem?]

/-- Once the stream is exhausted, its line is that of its last token. -/
theorem line_of_peek?_eq_none {s : TokenStream} (hpeek : s.peek? = none) :
    s.line = (s.tokens.getLast?.map Token.line).getD 1 := by
  obtain ⟨behind, ahead, remaining, hremaining⟩ := s
  obtain rfl : ahead = [] := List.head?_eq_none_iff.mp hpeek
  cases behind with
  | nil => rfl
  | cons t behind => simp [line, tokens]

theorem Moves.tokens_eq {s s' : TokenStream} {taken : List Token} (hmoves : s.Moves taken s') :
    s'.tokens = s.tokens := by
  rw [tokens, tokens, hmoves.behind, hmoves.ahead]
  simp

theorem Moves.position_eq {s s' : TokenStream} {taken : List Token}
    (hmoves : s.Moves taken s') : s'.position = taken.length + s.position := by
  rw [position, position, hmoves.behind, List.length_append, List.length_reverse]

/-- What can be taken off one stream can be taken off another one at the same
position, if the two hold the same tokens up to there. -/
theorem Moves.exists_of_agree {s₁ s₁' s₂ : TokenStream} {taken : List Token}
    (hmoves : s₁.Moves taken s₁') (hposition : s₁.position = s₂.position)
    (hagree : ∀ i < s₁'.position, s₁.tokens[i]? = s₂.tokens[i]?) :
    s₁.behind = s₂.behind ∧ ∃ s₂', s₂.Moves taken s₂' := by
  have hlength : (s₁.behind.reverse ++ taken).length = s₁'.position := by
    rw [hmoves.position_eq, List.length_append, List.length_reverse, position, Nat.add_comm]
  -- up to where the first stream stops, the tokens are what lies behind it and what it took
  have htake : s₂.tokens.take s₁'.position = s₁.behind.reverse ++ taken := by
    have htokens : s₁.tokens = (s₁.behind.reverse ++ taken) ++ s₁'.ahead := by
      rw [tokens, hmoves.ahead, List.append_assoc]
    have htake₁ : s₁.tokens.take s₁'.position = s₁.behind.reverse ++ taken := by
      rw [htokens, List.take_left' hlength]
    rw [← htake₁]
    refine List.ext_getElem? fun i => ?_
    rw [List.getElem?_take, List.getElem?_take]
    split
    · next hless => exact (hagree i hless).symm
    · rfl
  -- the second stream begins with the same tokens, and the equal positions cut it at the same place
  have hsplit : s₂.behind.reverse ++ s₂.ahead =
      s₁.behind.reverse ++ (taken ++ s₂.tokens.drop s₁'.position) := by
    rw [← List.append_assoc, ← htake, List.take_append_drop, tokens]
  have hbehind : s₂.behind.reverse.length = s₁.behind.reverse.length := by
    rw [List.length_reverse, List.length_reverse]
    exact hposition.symm
  obtain ⟨hreverse, hahead⟩ := List.append_inj hsplit hbehind
  obtain ⟨s₂', hmoves₂, -⟩ := exists_moves taken hahead
  exact ⟨(List.reverse_inj.mp hreverse).symm, s₂', hmoves₂⟩

end TokenStream

/-! ## The two laws -/

namespace Rule

variable {Name : Type}

/-- Lookahead, consuming and errors agree.  A rule that cannot begin fails where it
stands.  Whenever a rule fails, the error is about the first token that was not
taken, or about the end of the tokens, and it is there to go away with more text
exactly if that token is an end marker or there is none. -/
theorem consumes_lookahead {rules : Name → Rule Name} {rule : Rule Name} {s : TokenStream}
    {result : EStateM.Result Failure TokenStream Node} (hconsumes : rule.Consumes rules s result)
    (hreturns : ∀ s', result ≠ .error .endless s') :
    (rule.Matches rules s false → ∃ error, result = .error (.error error) s) ∧
    (∀ node s', result = .ok node s' → rule.Matches rules s true) ∧
    ∀ failure s', result = .error failure s' →
      s'.tokens = s.tokens ∧ ∃ error, failure = .error error ∧
        (∀ t, s'.peek? = some t →
          (∃ expected, error = .unexpectedToken t.line t.kind expected) ∨
            error = .noAlternative t.line t.kind) ∧
        (s'.peek? = none →
          let last := (s.tokens.getLast?.map Token.line).getD 1
          error = .unexpectedEnd last ∨ error = .noAlternative last .endMarker) ∧
        (error.isIncomplete = true ↔ ∀ t, s'.peek? = some t → t.kind = .endMarker) := by
  obtain ⟨depth, hdepth⟩ := hconsumes.eventually
  -- the laws hold of any unfolding that is deep enough
  have hconsume := hdepth depth (Nat.le_refl _) fun _ => .empty
  have hfails : ∀ failure s', result = .error failure s' →
      ∃ error, failure = .error error ∧ error.Describes s' := by
    rintro failure s' hresult
    rw [hresult] at hconsume
    rcases failsAhead_consume _ s failure s' hconsume with rfl | hdescribes
    · exact absurd hresult (hreturns s')
    · exact hdescribes
  refine ⟨?_, ?_, ?_⟩
  · intro hmatches
    obtain ⟨depth', hdepth'⟩ := hmatches.eventually
    obtain ⟨failure, hfailure⟩ :=
      staysUnless_consume _ s (hdepth' (depth + depth') (by omega) fun _ => .empty)
    rw [hdepth _ (by omega)] at hfailure
    obtain ⟨error, rfl, -⟩ := hfails failure s hfailure
    exact ⟨error, hfailure⟩
  · intro node s' hresult
    refine ⟨depth, fun rest => ?_⟩
    cases hstarts : (rule.unfold rules rest depth).startsWith s.nextKind? with
    | true => rfl
    | false =>
        obtain ⟨failure, hfailure⟩ := staysUnless_consume _ s hstarts
        rw [hdepth depth (Nat.le_refl _), hresult] at hfailure
        cases hfailure
  · intro failure s' hresult
    obtain ⟨taken, hmoves⟩ := (forward_consume _ s).2 failure s' (hconsume.trans hresult)
    obtain ⟨error, rfl, hdescribes⟩ := hfails failure s' hresult
    refine ⟨hmoves.tokens_eq, error, rfl, ?_, ?_, ?_⟩
    · intro t hpeek
      simpa only [Error.Describes, hpeek] using hdescribes
    · intro hpeek
      rw [← hmoves.tokens_eq, ← TokenStream.line_of_peek?_eq_none hpeek]
      simpa only [Error.Describes, hpeek] using hdescribes
    · rw [hdescribes.isIncomplete, TokenStream.nextKind?]
      cases s'.peek? <;> simp

/-- Brackets in brackets: one name, which stands for a rule that refers to it. -/
def brackets : Unit → Rule Unit := fun _ =>
  .sequence (.terminal (.symbol .leftParen))
    [.optional (.reference ()), .terminal (.symbol .rightParen)]

theorem consumes_lookahead_brackets :
    let s : TokenStream :=
      .ofTokens [⟨.symbol .leftParen, 1⟩, ⟨.symbol .leftParen, 1⟩, ⟨.symbol .semicolon, 2⟩]
    ∃ error s', (reference ()).Consumes brackets s (.error (.error error) s') ∧
      s'.position = 2 ∧ error = .unexpectedToken 2 (.symbol .semicolon) (.symbol .rightParen) ∧
      error.isIncomplete = false := by
  intro s
  have hconsumes : (reference ()).Consumes brackets s (.error
      (.error (.unexpectedToken 2 (.symbol .semicolon) (.symbol .rightParen)))
      ⟨[⟨.symbol .leftParen, 1⟩, ⟨.symbol .leftParen, 1⟩], [⟨.symbol .semicolon, 2⟩], 1, rfl⟩) :=
    ⟨4, fun _ => rfl⟩
  obtain ⟨-, -, hfails⟩ := consumes_lookahead hconsumes (fun _ heq => nomatch heq)
  obtain ⟨-, error, heq, -, -, hincomplete⟩ := hfails _ _ rfl
  cases heq
  refine ⟨_, _, hconsumes, rfl, rfl, ?_⟩
  refine Bool.eq_false_iff.mpr fun hwaits => ?_
  exact nomatch hincomplete.mp hwaits _ rfl

/-- Nothing is looked at but the tokens taken and the one behind them, and whether a
rule can begin is told by the kind of the next token. -/
theorem consumes_oneAhead (rules : Name → Rule Name) (rule : Rule Name) :
    (∀ (s₁ s₂ : TokenStream) (result : EStateM.Result Failure TokenStream Node),
      s₁.position = s₂.position → rule.Consumes rules s₁ result →
      (∀ i ≤ (endState result).position, s₁.tokens[i]? = s₂.tokens[i]?) →
      ∃ s₂', s₂'.tokens = s₂.tokens ∧ s₂'.position = (endState result).position ∧
        ∀ outcome, rule.Consumes rules s₂ outcome ↔ outcome = endingIn s₂' result) ∧
    ∀ (s₁ s₂ : TokenStream) (answer : Bool),
      s₁.tokens[s₁.position]?.map Token.kind = s₂.tokens[s₂.position]?.map Token.kind →
      rule.Matches rules s₁ answer → rule.Matches rules s₂ answer := by
  constructor
  · rintro s₁ s₂ result hposition ⟨depth, hdepth⟩ hagree
    obtain ⟨taken, hmoves₁⟩ :=
      (forward_consume (rule.unfold rules (fun _ => .empty) depth)).moves_endState s₁
    rw [hdepth] at hmoves₁
    obtain ⟨hbehind, s₂', hmoves₂⟩ :=
      hmoves₁.exists_of_agree hposition fun i hi => hagree i (Nat.le_of_lt hi)
    have hend : s₂'.position = (endState result).position := by
      rw [hmoves₁.position_eq, hmoves₂.position_eq, hposition]
    -- the token at the place where the first run ends is looked at and not taken
    have hpeek : (endState result).peek? = s₂'.peek? := by
      rw [TokenStream.peek?_eq_getElem?, TokenStream.peek?_eq_getElem?, hmoves₁.tokens_eq,
        hmoves₂.tokens_eq, hend]
      exact hagree _ (Nat.le_refl _)
    have hconsumes : rule.Consumes rules s₂ (endingIn s₂' result) := by
      refine ⟨depth, fun rest => ?_⟩
      have honeAhead := oneAhead_consume (rule.unfold rules rest depth) s₁ s₂ s₂' taken hbehind
      rw [hdepth rest] at honeAhead
      exact honeAhead hmoves₁ hmoves₂ hpeek
    exact ⟨s₂', hmoves₂.tokens_eq, hend, fun outcome =>
      ⟨fun houtcome => houtcome.unique hconsumes, fun houtcome => houtcome ▸ hconsumes⟩⟩
  · rintro s₁ s₂ answer hkind ⟨depth, hdepth⟩
    refine ⟨depth, fun rest => ?_⟩
    rw [← hdepth rest, TokenStream.nextKind?, TokenStream.nextKind?,
      TokenStream.peek?_eq_getElem?, TokenStream.peek?_eq_getElem?, hkind]

theorem consumes_oneAhead_brackets :
    let taken : List Token := [⟨.symbol .leftParen, 1⟩, ⟨.symbol .rightParen, 1⟩]
    let next : Token := ⟨.symbol .semicolon, 1⟩
    ∃ node s', (reference ()).Consumes brackets
        (.ofTokens (taken ++ [next, ⟨.keyword .kwPrint, 2⟩])) (.ok node s') ∧
      s'.position = 2 := by
  intro taken next
  let s₁ := TokenStream.ofTokens (taken ++ [next])
  let s₂ := TokenStream.ofTokens (taken ++ [next, ⟨.keyword .kwPrint, 2⟩])
  have hconsumes : (reference ()).Consumes brackets s₁
      (.ok (.list [.token ⟨.symbol .leftParen, 1⟩, .list [], .token ⟨.symbol .rightParen, 1⟩])
        ⟨[⟨.symbol .rightParen, 1⟩, ⟨.symbol .leftParen, 1⟩], [next], 1, rfl⟩) :=
    ⟨4, fun _ => rfl⟩
  have hagree : ∀ i ≤ 2, s₁.tokens[i]? = s₂.tokens[i]? := by decide
  obtain ⟨s₂', -, hposition, houtcome⟩ :=
    (consumes_oneAhead brackets (reference ())).1 s₁ s₂ _ rfl hconsumes hagree
  exact ⟨_, s₂', (houtcome _).mpr rfl, hposition⟩

end Rule

end Primer
