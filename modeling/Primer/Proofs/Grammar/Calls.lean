import Mathlib.Logic.Relation
import Primer.Proofs.Grammar.Unfolding

/-!
# Parsing takes finitely many steps

To consume a rule is to consume others, and each of these comes to others again.
`Rule.Calls` lists what comes to what.  There are two ways in which this could go on for
ever, and neither can be ruled out by looking at one rule alone.

* **A repetition goes on** as long as its body can begin, whether or not the body takes a
  token.  Options, repetitions and `empty` can always begin.
* **A reference is followed** to a rule that is larger than the reference.

What gets smaller is first the number of tokens ahead.  Where it stays, a rule that is
not guarded comes to one that is: a reference is not guarded, and the right-hand sides
of all productions are.  Where that stays too, the rule gets smaller.

A repetition over any other names ends if its body does and takes a token.  Here the
trouble is the lookahead.  It follows references too, and it is another function than
consuming; but a rule of which the consuming ends has its first references followed as
far as the lookahead needs them.

## Main results

* `Rule.Calls.decreases` : what gets smaller with each call.
* `Rule.acc_calls` : no rule calls others for ever.
* `Rule.consumeFor_eq_consume` : references matter only where calls lead to them.
* `Rule.Consumes.exists_matches` : the lookahead ends where consuming does.
* `Rule.returns_repeated` : when a repetition ends.
* `parsing_ends` : all of this for the productions of the grammar.
-/

namespace Primer

open Stateful

theorem TokenStream.Moves.position_lt_iff {s s' : TokenStream} {taken : List Token}
    (hmoves : s.Moves taken s') : s.position < s'.position ↔ s'.remaining < s.remaining := by
  have hremaining := hmoves.remaining
  have hposition := hmoves.position_eq
  omega

theorem Forward.position_lt_iff {α : Type} {m : ParseM α} (hm : Forward m) {s s' : TokenStream}
    {a : α} (ha : m s = .ok a s') : s.position < s'.position ↔ s'.remaining < s.remaining := by
  obtain ⟨taken, hmoves⟩ := (hm s).1 a s' ha
  exact hmoves.position_lt_iff

namespace Rule

/-! ## Calls -/

/-- Consuming the first rule comes to consuming the second one, each from the stream that
goes with it.  What is left of a sequence is a sequence, and what is left of a repetition
after one round is the repetition. -/
inductive Calls : Rule × TokenStream → Rule × TokenStream → Prop
  | first {first : Rule} {others : List Rule} {s : TokenStream} :
      Calls (.sequence first others, s) (first, s)
  | next {first second : Rule} {others : List Rule} {s s' : TokenStream} {node : Node}
      (hfirst : first.consume s = .ok node s') :
      Calls (.sequence first (second :: others), s) (.sequence second others, s')
  | branch {branch : Rule} {earlier later : List Rule} {s : TokenStream}
      (hpassed : ∀ other ∈ earlier, other.startsWith s.nextKind? = false)
      (hstarts : branch.startsWith s.nextKind? = true) :
      Calls (.alternative (earlier ++ branch :: later), s) (branch, s)
  | option {body : Rule} {s : TokenStream} (hstarts : body.startsWith s.nextKind? = true) :
      Calls (.optional body, s) (body, s)
  | round {body : Rule} {s : TokenStream} (hstarts : body.startsWith s.nextKind? = true) :
      Calls (.repeated body, s) (body, s)
  | again {body : Rule} {s s' : TokenStream} {node : Node}
      (hstarts : body.startsWith s.nextKind? = true) (hbody : body.consume s = .ok node s') :
      Calls (.repeated body, s) (.repeated body, s')
  | enter {production : Production} {s : TokenStream} :
      Calls (.reference production, s) (production.rule, s)
  | body {action : Action} {body : Rule} {s : TokenStream} :
      Calls (.deferred action body, s) (body, s)

/-- What gets smaller with every call: the number of tokens ahead, or else whether the
rule is yet to be guarded, or else the rule. -/
noncomputable def weight (c : Rule × TokenStream) : Nat × Nat × Nat :=
  (c.2.remaining, (!c.1.guarded).toNat, sizeOf c.1)

/-- A call by which no production is entered. -/
def CallsInside (c d : Rule × TokenStream) : Prop := Calls c d ∧ ∀ p, c.1 ≠ .reference p

/-- So many rounds of a repetition lead from one stream to the other. -/
inductive Rounds (body : Rule) : TokenStream → Nat → TokenStream → Prop
  | zero (s : TokenStream) : Rounds body s 0 s
  | succ {s s' s'' : TokenStream} {node : Node} {n : Nat}
      (hstarts : body.startsWith s.nextKind? = true) (hbody : body.consume s = .ok node s')
      (hrounds : Rounds body s' n s'') : Rounds body s (n + 1) s''

theorem allProgress_eq_true {rules : List Rule} :
    allProgress rules = true ↔ ∀ rule ∈ rules, rule.progresses = true := by
  induction rules with
  | nil => simp [allProgress]
  | cons rule rules ih => simp [allProgress, ih]

theorem everyGuarded_eq_true {rules : List Rule} :
    everyGuarded rules = true ↔ ∀ rule ∈ rules, rule.guarded = true := by
  induction rules with
  | nil => simp [everyGuarded]
  | cons rule rules ih => simp [everyGuarded, ih]

namespace Calls

variable {c d : Rule × TokenStream} {bound : Nat}

/-- Calls do not go back on the stream. -/
theorem moves (hcalls : Calls c d) : ∃ taken, c.2.Moves taken d.2 := by
  cases hcalls with
  | next hfirst => exact (forward_consume _ _).1 _ _ hfirst
  | again _ hbody => exact (forward_consume _ _).1 _ _ hbody
  | first | branch | option | round | enter | body => exact ⟨[], .refl _⟩

theorem remaining_le (hcalls : Calls c d) : d.2.remaining ≤ c.2.remaining := by
  obtain ⟨taken, hmoves⟩ := hcalls.moves
  have hremaining := hmoves.remaining
  omega

/-- Whatever is called repeats only what takes a token, if the caller does. -/
theorem progresses (hcalls : Calls c d) (hprogress : c.1.progresses = true) :
    d.1.progresses = true := by
  cases hcalls with
  | first => exact (Bool.and_eq_true_iff.mp hprogress).1
  | next => exact (Bool.and_eq_true_iff.mp hprogress).2
  | branch => exact allProgress_eq_true.mp hprogress _ (by simp)
  | round => exact (Bool.and_eq_true_iff.mp hprogress).2
  | enter => exact Production.progresses_rule _
  | option | again | body => exact hprogress

/-- Inside a production, references are reached only once a token was taken. -/
theorem admits (hcalls : Calls c d) (hinside : ∀ p, c.1 ≠ .reference p)
    (hs : Admits bound c.2 c.1.guarded) : Admits bound d.2 d.1.guarded := by
  cases hcalls with
  | first => exact (Admits.and_iff.mp hs).1
  | next hfirst => exact (Admits.and_iff.mp hs).2.after Production.forward_consume hfirst
  | branch =>
      rcases hs with hs | ⟨hs, hguarded⟩
      · exact .inl hs
      · exact .inr ⟨hs, everyGuarded_eq_true.mp hguarded _ (by simp)⟩
  | again _ hbody => exact hs.of_remaining_le ((forward_consume _).remaining_le hbody)
  | enter => exact absurd rfl (hinside _)
  | option | round | body => exact hs

/-- Inside a production the rule gets smaller, but for a repetition that goes on. -/
theorem remaining_lt_or_sizeOf_lt (hcalls : Calls c d) (hinside : ∀ p, c.1 ≠ .reference p)
    (hprogress : c.1.progresses = true) :
    d.2.remaining < c.2.remaining ∨ sizeOf d.1 < sizeOf c.1 := by
  cases hcalls with
  | again _ hbody =>
      exact .inl (remaining_lt_of_takesToken Production.forward_consume
        (Bool.and_eq_true_iff.mp hprogress).1 hbody)
  | enter => exact absurd rfl (hinside _)
  | @branch branch earlier later =>
      have hbranch : sizeOf branch < sizeOf (earlier ++ branch :: later) :=
        List.sizeOf_lt_of_mem (by simp)
      simp only [alternative.sizeOf_spec]
      omega
  | first | next | option | round | body =>
      refine .inr ?_
      simp only [sequence.sizeOf_spec, List.cons.sizeOf_spec, optional.sizeOf_spec,
        repeated.sizeOf_spec, deferred.sizeOf_spec]
      omega

/-- From a guarded rule, one that is not guarded is called on a shorter stream only. -/
theorem remaining_lt_or_guarded (hcalls : Calls c d) (hinside : ∀ p, c.1 ≠ .reference p)
    (hguarded : c.1.guarded = true) : d.2.remaining < c.2.remaining ∨ d.1.guarded = true :=
  (hcalls.admits hinside (.inr ⟨Nat.le_refl _, hguarded⟩)).imp_right And.right

theorem decreases (hcalls : Calls c d) (hprogress : c.1.progresses = true) :
    Prod.Lex (· < ·) (Prod.Lex (· < ·) (· < ·)) (weight d) (weight c) := by
  -- inside a production the rule gets smaller, if it takes no token before
  by_cases hinside : ∀ p, c.1 ≠ .reference p
  · rcases Nat.lt_or_eq_of_le hcalls.remaining_le with hless | hsame
    · exact .left _ _ hless
    · have hstays : ¬d.2.remaining < c.2.remaining := by omega
      have hsize := (hcalls.remaining_lt_or_sizeOf_lt hinside hprogress).resolve_left hstays
      have hguard : (!d.1.guarded).toNat ≤ (!c.1.guarded).toNat := by
        have hguarded := fun h => (hcalls.remaining_lt_or_guarded hinside h).resolve_left hstays
        cases hc : c.1.guarded with
        | false => exact Bool.toNat_le _
        | true => exact Nat.le_of_eq (by rw [hguarded hc])
      rw [weight, weight, hsame]
      rcases Nat.lt_or_eq_of_le hguard with hless | hsame
      · exact .right _ (.left _ _ hless)
      · rw [hsame]
        exact .right _ (.right _ hsize)
  · -- a production is entered from where the reference to it is
    obtain ⟨rule, s⟩ := c
    obtain ⟨production, rfl⟩ : ∃ production, rule = .reference production :=
      Classical.not_forall_not.mp hinside
    cases hcalls with
    | enter =>
        rw [weight, weight, production.guarded_rule]
        exact .right _ (.left _ _ Nat.zero_lt_one)

end Calls

/-- Consuming does not call for ever. -/
theorem acc_calls (c : Rule × TokenStream) (hprogress : c.1.progresses = true) :
    Acc (fun inner outer => Calls outer inner) c :=
  .intro c fun d hcalls => acc_calls d (hcalls.progresses hprogress)
termination_by weight c
decreasing_by exact hcalls.decreases hprogress

/-! ## Chains of calls -/

section Chains

variable {c d : Rule × TokenStream} {body : Rule} {s s' : TokenStream} {n : Nat}

theorem progresses_of_reaches (hreaches : Relation.ReflTransGen Calls c d)
    (hprogress : c.1.progresses = true) : d.1.progresses = true := by
  induction hreaches with
  | refl => exact hprogress
  | tail _ hcalls ih => exact hcalls.progresses ih

theorem moves_of_reachesInside (hreaches : Relation.ReflTransGen CallsInside c d) :
    ∃ taken, c.2.Moves taken d.2 := by
  induction hreaches with
  | refl => exact ⟨[], .refl _⟩
  | tail _ hcalls ih =>
      obtain ⟨ts, hts⟩ := ih
      obtain ⟨us, hus⟩ := hcalls.1.moves
      exact ⟨ts ++ us, hts.trans hus⟩

theorem admits_of_reachesInside (hreaches : Relation.ReflTransGen CallsInside c d) {bound : Nat}
    (hs : Admits bound c.2 c.1.guarded) : Admits bound d.2 d.1.guarded := by
  induction hreaches with
  | refl => exact hs
  | tail _ hcalls ih => exact hcalls.1.admits hcalls.2 ih

/-- A round takes a token where the rule is one whose repetitions do. -/
theorem position_lt_of_round (hprogress : (Rule.repeated body).progresses = true) {node : Node}
    (hbody : body.consume s = .ok node s') : s.position < s'.position := by
  rw [(forward_consume body).position_lt_iff hbody]
  exact remaining_lt_of_takesToken Production.forward_consume
    (Bool.and_eq_true_iff.mp hprogress).1 hbody

/-- So there are no more rounds than tokens. -/
theorem Rounds.add_remaining_le (hprogress : (Rule.repeated body).progresses = true)
    (hrounds : Rounds body s n s') : n + s'.remaining ≤ s.remaining := by
  induction hrounds with
  | zero => exact Nat.le_of_eq (Nat.zero_add _)
  | succ _ hbody _ ih =>
      have hless := ((forward_consume body).position_lt_iff hbody).mp
        (position_lt_of_round hprogress hbody)
      omega

/-- A production is entered from another one only once that has taken a token. -/
theorem position_lt_of_reachesInside {production inner : Production}
    (hreaches : Relation.ReflTransGen CallsInside (production.rule, s) (.reference inner, s')) :
    s.position < s'.position := by
  obtain ⟨taken, hmoves⟩ := moves_of_reachesInside hreaches
  rcases admits_of_reachesInside hreaches (.inr ⟨Nat.le_refl _, production.guarded_rule⟩) with
    hless | ⟨-, hguarded⟩
  · exact hmoves.position_lt_iff.mpr hless
  · cases hguarded

end Chains

/-! ## Calls are all that there is to consuming -/

section Reached

variable {enter : Production → ParseM Node} {body : Rule} {s s' : TokenStream} {n : Nat}

theorem Rounds.reaches (hrounds : Rounds body s n s') :
    Relation.ReflTransGen CallsInside (repeated body, s) (repeated body, s') := by
  induction hrounds with
  | zero => exact .refl
  | succ hstarts hbody _ ih => exact .head ⟨.again hstarts hbody, nofun⟩ ih

/-- A repetition that succeeds has made one round for each element of its list. -/
theorem rounds_of_consume {node : Node} (hnode : (Rule.repeated body).consume s = .ok node s') :
    ∃ nodes, node = .list nodes ∧ Rounds body s nodes.length s' := by
  obtain ⟨nodes, s₁, hnodes, heq⟩ := bind_eq_ok.mp hnode
  cases heq
  refine ⟨nodes, rfl, ?_⟩
  clear hnode
  change repeatWhile body.startsWith body.consume s = .ok nodes s' at hnodes
  fun_induction repeatWhile body.startsWith body.consume s generalizing nodes with
  | case3 s hstarts node s₁ hbody hless nodes' s₂ hrest ih =>
      cases hnodes
      exact .succ hstarts hbody (ih nodes' hrest)
  | case5 s =>
      cases hnodes
      exact .zero s'
  | case1 | case2 | case4 => cases hnodes

/-- What is repeated is consumed where the rounds lead to, and nowhere else. -/
theorem repeatWhile_eq_of_rounds {m : ParseM Node}
    (hbody : ∀ n s', Rounds body s n s' → body.startsWith s'.nextKind? = true →
      m s' = body.consume s') :
    repeatWhile body.startsWith m s = repeatWhile body.startsWith body.consume s := by
  fun_induction repeatWhile body.startsWith body.consume s with
  | case1 s hstarts failure s' hfailure =>
      rw [repeatWhile, if_pos hstarts, hbody 0 s (.zero s) hstarts, hfailure]
  | case2 s hstarts node s' hnode hless failure s'' hrest ih =>
      rw [repeatWhile, if_pos hstarts, hbody 0 s (.zero s) hstarts, hnode]
      have hlater := ih fun n s₁ hrounds => hbody (n + 1) s₁ (.succ hstarts hnode hrounds)
      simp only [if_pos hless, hlater, hrest]
  | case3 s hstarts node s' hnode hless nodes s'' hrest ih =>
      rw [repeatWhile, if_pos hstarts, hbody 0 s (.zero s) hstarts, hnode]
      have hlater := ih fun n s₁ hrounds => hbody (n + 1) s₁ (.succ hstarts hnode hrounds)
      simp only [if_pos hless, hlater, hrest]
  | case4 s hstarts node s' hnode hless =>
      rw [repeatWhile, if_pos hstarts, hbody 0 s (.zero s) hstarts, hnode]
      simp only [if_neg hless]
  | case5 s hstays => rw [repeatWhile, if_neg hstays]

mutual

/-- What references do matters only where calls lead to them. -/
theorem consumeFor_eq_consume (rule : Rule) (s : TokenStream)
    (hreached : ∀ inner s', Relation.ReflTransGen CallsInside (rule, s) (.reference inner, s') →
      enter inner s' = inner.consume s') : rule.consumeFor enter s = rule.consume s := by
  -- each case passes to its parts what they reach, since whoever calls the part reaches it too
  cases rule with
  | terminal | empty => rfl
  | sequence first others =>
      have hfirst : first.consumeFor enter s = first.consume s :=
        consumeFor_eq_consume first s fun inner s' h =>
          hreached inner s' (.head ⟨.first, nofun⟩ h)
      rw [consume] at hfirst ⊢
      simp only [consumeFor, bind_apply, hfirst]
      cases hnode : first.consumeFor Production.consume s with
      | error failure s' => rfl
      | ok node s' =>
          have hothers := consumeAllFor_eq_consume others s' fun second rest heq inner s'' h =>
            hreached inner s'' (.head ⟨heq ▸ .next hnode, nofun⟩ h)
          simp only [hothers]
  | alternative branches => exact consumeFirstFor_eq_consume [] branches s nofun hreached
  | optional body =>
      rw [consume]
      simp only [consumeFor]
      split
      · next hstarts =>
          exact consumeFor_eq_consume body s fun inner s' h =>
            hreached inner s' (.head ⟨.option hstarts, nofun⟩ h)
      · rfl
  | repeated body =>
      refine bind_congr_left (repeatWhile_eq_of_rounds fun n s' hrounds hstarts => ?_) _
      exact consumeFor_eq_consume body s' fun inner s'' h =>
        hreached inner s'' (hrounds.reaches.trans (.head ⟨.round hstarts, nofun⟩ h))
  | reference production => exact hreached production s .refl
  | deferred action body =>
      exact bind_congr_left (consumeFor_eq_consume body s fun inner s' h =>
        hreached inner s' (.head ⟨.body, nofun⟩ h)) _

theorem consumeAllFor_eq_consume (rules : List Rule) (s : TokenStream)
    (hreached : ∀ first others, rules = first :: others → ∀ inner s',
      Relation.ReflTransGen CallsInside (.sequence first others, s) (.reference inner, s') →
      enter inner s' = inner.consume s') :
    consumeAllFor enter rules s = consumeAllFor Production.consume rules s := by
  cases rules with
  | nil => rfl
  | cons first others =>
      have hfirst : first.consumeFor enter s = first.consume s :=
        consumeFor_eq_consume first s fun inner s' h =>
          hreached first others rfl inner s' (.head ⟨.first, nofun⟩ h)
      rw [consume] at hfirst
      simp only [consumeAllFor, bind_apply, hfirst]
      cases hnode : first.consumeFor Production.consume s with
      | error failure s' => rfl
      | ok node s' =>
          have hothers := consumeAllFor_eq_consume others s' fun second rest heq inner s'' h =>
            hreached first others rfl inner s'' (.head ⟨heq ▸ .next hnode, nofun⟩ h)
          simp only [hothers]

theorem consumeFirstFor_eq_consume (earlier branches : List Rule) (s : TokenStream)
    (hpassed : ∀ other ∈ earlier, other.startsWith s.nextKind? = false)
    (hreached : ∀ inner s', Relation.ReflTransGen CallsInside
      (.alternative (earlier ++ branches), s) (.reference inner, s') →
      enter inner s' = inner.consume s') :
    consumeFirstFor enter branches s = consumeFirstFor Production.consume branches s := by
  -- the branches passed over are kept: that they do not start is what makes the next one called
  cases branches with
  | nil => rfl
  | cons branch branches =>
      simp only [consumeFirstFor]
      split
      · next hstarts =>
          exact consumeFor_eq_consume branch s fun inner s' h =>
            hreached inner s' (.head ⟨.branch hpassed hstarts, nofun⟩ h)
      · next hstays =>
          refine consumeFirstFor_eq_consume (earlier ++ [branch]) branches s ?_ ?_
          · intro other hother
            rcases List.mem_append.mp hother with hother | hother
            · exact hpassed other hother
            · rw [List.mem_singleton.mp hother]
              exact Bool.eq_false_iff.mpr hstays
          · rwa [List.append_assoc]

end

end Reached

/-! ## The lookahead ends where consuming does -/

section Lookahead

variable {Name : Type}

mutual

/-- The more references can begin, the more rules can. -/
theorem startsWithFor_mono {enter enter' : Name → Option Kind → Bool} {next : Option Kind}
    (henter : ∀ name, enter name next = true → enter' name next = true) (rule : Rule Name)
    (hstarts : rule.startsWithFor enter next = true) : rule.startsWithFor enter' next = true := by
  cases rule with
  | terminal | optional | repeated | empty => exact hstarts
  | sequence first others => exact startsWithFor_mono henter first hstarts
  | alternative branches => exact someStartsWithFor_mono henter branches hstarts
  | reference name => exact henter name hstarts
  | deferred action body => exact startsWithFor_mono henter body hstarts

theorem someStartsWithFor_mono {enter enter' : Name → Option Kind → Bool} {next : Option Kind}
    (henter : ∀ name, enter name next = true → enter' name next = true)
    (branches : List (Rule Name)) (hstarts : someStartsWithFor enter branches next = true) :
    someStartsWithFor enter' branches next = true := by
  cases branches with
  | nil => exact hstarts
  | cons branch branches =>
      rcases Bool.or_eq_true_iff.mp hstarts with hbranch | hbranches
      · exact Bool.or_eq_true_iff.mpr (.inl (startsWithFor_mono henter branch hbranch))
      · exact Bool.or_eq_true_iff.mpr (.inr (someStartsWithFor_mono henter branches hbranches))

end

theorem startsWith_substitute_mono {f g : Name → Rule} {next : Option Kind}
    (hstarts : ∀ name, (f name).startsWith next = true → (g name).startsWith next = true)
    (rule : Rule Name) (hrule : (rule.substitute f).startsWith next = true) :
    (rule.substitute g).startsWith next = true := by
  rw [startsWith, startsWithFor_substitute] at hrule ⊢
  exact startsWithFor_mono hstarts rule hrule

theorem startsWith_unfold_mono (rules : Name → Rule Name) {rest rest' : Name → Rule}
    {next : Option Kind} (hstarts : ∀ name, (rest name).startsWith next = true →
      (rest' name).startsWith next = true) (depth : Nat) (rule : Rule Name)
    (hrule : (rule.unfold rules rest depth).startsWith next = true) :
    (rule.unfold rules rest' depth).startsWith next = true := by
  induction depth generalizing rule with
  | zero => exact startsWith_substitute_mono hstarts rule hrule
  | succ depth ih => exact startsWith_substitute_mono (fun name => ih (rules name)) rule hrule

section Blocked

variable {f g : Name → Rule} {s : TokenStream} {failure : Failure}

mutual

/-- If a rule can begin with some rules in the place of its references and cannot begin
with others, one of these is the first that it consumes, and it fails as that one does. -/
theorem consume_substitute_of_error
    (hfails : ∀ name, (f name).startsWith s.nextKind? = true →
      (g name).startsWith s.nextKind? = false → (f name).consume s = .error failure s)
    (rule : Rule Name) (hstarts : (rule.substitute f).startsWith s.nextKind? = true)
    (hstays : (rule.substitute g).startsWith s.nextKind? = false) :
    (rule.substitute f).consume s = .error failure s := by
  cases rule with
  | terminal | optional | repeated | empty => cases hstarts.symm.trans hstays
  | sequence first others =>
      exact bind_of_error (consume_substitute_of_error hfails first hstarts hstays) _
  | alternative branches => exact consumeFirst_substitute_of_error hfails branches hstarts hstays
  | reference name => exact hfails name hstarts hstays
  | deferred action body =>
      exact bind_of_error (consume_substitute_of_error hfails body hstarts hstays) _

theorem consumeFirst_substitute_of_error
    (hfails : ∀ name, (f name).startsWith s.nextKind? = true →
      (g name).startsWith s.nextKind? = false → (f name).consume s = .error failure s)
    (branches : List (Rule Name))
    (hstarts : (Rule.alternative (substituteAll f branches)).startsWith s.nextKind? = true)
    (hstays : (Rule.alternative (substituteAll g branches)).startsWith s.nextKind? = false) :
    consumeFirstFor Production.consume (substituteAll f branches) s = .error failure s := by
  cases branches with
  | nil => cases hstarts
  | cons branch branches =>
      obtain ⟨hbranch, hbranches⟩ := Bool.or_eq_false_iff.mp hstays
      simp only [substituteAll, consumeFirstFor]
      split
      · next hbegins => exact consume_substitute_of_error hfails branch hbegins hbranch
      · next hpassed =>
          rcases Bool.or_eq_true_iff.mp hstarts with hbegins | hothers
          · exact absurd hbegins hpassed
          · exact consumeFirst_substitute_of_error hfails branches hothers hbranches

end

theorem consume_unfold_of_error (rules : Name → Rule Name) {rest rest' : Name → Rule}
    (hfails : ∀ name, (rest name).startsWith s.nextKind? = true →
      (rest' name).startsWith s.nextKind? = false → (rest name).consume s = .error failure s)
    (depth : Nat) (rule : Rule Name)
    (hstarts : (rule.unfold rules rest depth).startsWith s.nextKind? = true)
    (hstays : (rule.unfold rules rest' depth).startsWith s.nextKind? = false) :
    (rule.unfold rules rest depth).consume s = .error failure s := by
  induction depth generalizing rule with
  | zero => exact consume_substitute_of_error hfails rule hstarts hstays
  | succ depth ih =>
      exact consume_substitute_of_error (fun name => ih (rules name)) rule hstarts hstays

end Blocked

variable {rules : Name → Rule Name} {rule : Rule Name} {s : TokenStream}

/-- Where consuming ends, so does the lookahead.  If it depended on what references stand
for, so would the way in which consuming ends. -/
theorem Consumes.exists_matches {result : EStateM.Result Failure TokenStream Node}
    (hconsumes : rule.Consumes rules s result) : ∃ answer, rule.Matches rules s answer := by
  obtain ⟨depth, hdepth⟩ := hconsumes
  -- one rule that cannot begin, and two that can and fail in different ways
  let never : Name → Rule := fun _ => .alternative []
  let endless : Name → Rule := fun _ => .repeated .empty
  let stuck : Name → Rule := fun _ => .sequence .empty [.alternative []]
  cases hendless : (rule.unfold rules endless depth).startsWith s.nextKind? with
  | false =>
      refine ⟨false, depth, fun rest => Bool.eq_false_iff.mpr fun hstarts => ?_⟩
      exact Bool.eq_false_iff.mp hendless
        (startsWith_unfold_mono rules (fun _ _ => rfl) depth rule hstarts)
  | true =>
      cases hnever : (rule.unfold rules never depth).startsWith s.nextKind? with
      | true =>
          have hnone : ∀ (rest : Name → Rule) name, (never name).startsWith s.nextKind? = true →
              (rest name).startsWith s.nextKind? = true := fun _ _ hstarts => nomatch hstarts
          exact ⟨true, depth, fun rest =>
            startsWith_unfold_mono rules (hnone rest) depth rule hnever⟩
      | false =>
          have hstuck : (rule.unfold rules stuck depth).startsWith s.nextKind? = true :=
            startsWith_unfold_mono rules (fun _ _ => rfl) depth rule hendless
          have hfails : (rule.unfold rules endless depth).consume s = .error .endless s :=
            consume_unfold_of_error rules (fun _ _ _ => bind_of_error
              (repeatWhile_of_not_lt rfl rfl (Nat.lt_irrefl _)) _) depth rule hendless hnever
          have hfails' : (rule.unfold rules stuck depth).consume s =
              .error (.error (.noAlternative s.line (s.nextKind?.getD .endMarker))) s :=
            consume_unfold_of_error rules (fun _ _ _ => rfl) depth rule hstuck hnever
          rw [hdepth] at hfails hfails'
          cases hfails.symm.trans hfails'

end Lookahead

/-! ## Repetitions -/

section Repetitions

variable {Name : Type} {rules : Name → Rule Name} {body : Rule Name} {s : TokenStream}

/-- Consuming the rule off the stream ends, and not because it would go on for ever. -/
def Returns (rules : Name → Rule Name) (rule : Rule Name) (s : TokenStream) : Prop :=
  ∃ result, rule.Consumes rules s result ∧ ∀ s', result ≠ .error .endless s'

theorem unfold_repeated (rules : Name → Rule Name) (rest : Name → Rule) (depth : Nat)
    (body : Rule Name) :
    (repeated body).unfold rules rest depth = .repeated (body.unfold rules rest depth) := by
  cases depth <;> rfl

/-- The rounds of a repetition end if each of them does and takes a token. -/
theorem exists_repeatWhile_eq (hreturns : ∀ s, body.Returns rules s)
    (hadvances : ∀ s node s', body.Matches rules s true → body.Consumes rules s (.ok node s') →
      s.position < s'.position) (s : TokenStream) :
    ∃ depth result, (∀ s', result ≠ .error .endless s') ∧ ∀ n ≥ depth, ∀ rest,
      repeatWhile (body.unfold rules rest n).startsWith (body.unfold rules rest n).consume s =
        result := by
  -- induction on the remaining tokens, of which every round takes one
  induction hremaining : s.remaining using Nat.strongRecOn generalizing s with
  | ind remaining ih =>
      subst hremaining
      obtain ⟨result, hconsumes, hresult⟩ := hreturns s
      obtain ⟨answer, hmatches⟩ := hconsumes.exists_matches
      -- the question whether to go on and the round need a depth each; the sum does for both
      obtain ⟨depth, hdepth⟩ := hconsumes.eventually
      obtain ⟨depth', hdepth'⟩ := hmatches.eventually
      cases answer with
      | false =>
          exact ⟨depth', .ok [] s, nofun, fun n hn rest => repeatWhile_stop (hdepth' n hn rest)⟩
      | true =>
          cases result with
          | error failure s' =>
              refine ⟨depth + depth', .error failure s', ?_, fun n hn rest => ?_⟩
              · rintro s'' ⟨⟩
                exact hresult s' rfl
              · exact repeatWhile_of_error (hdepth' n (by omega) rest) (hdepth n (by omega) rest)
          | ok node s' =>
              have hless : s'.remaining < s.remaining :=
                ((forward_consume _).position_lt_iff
                  (hdepth depth (Nat.le_refl _) fun _ => .empty)).mp
                  (hadvances s node s' hmatches hconsumes)
              obtain ⟨depth'', result, hends, hrest⟩ := ih s'.remaining hless s' rfl
              have hround : ∀ n ≥ depth + depth', ∀ rest, repeatWhile
                  (body.unfold rules rest n).startsWith (body.unfold rules rest n).consume s = _ :=
                fun n hn rest =>
                  repeatWhile_of_ok (hdepth' n (by omega) rest) (hdepth n (by omega) rest) hless
              cases result with
              | ok nodes s'' =>
                  exact ⟨depth + depth' + depth'', .ok (node :: nodes) s'', nofun, fun n hn rest =>
                    (hround n (by omega) rest).trans (bind_of_ok (hrest n (by omega) rest) _)⟩
              | error failure s'' =>
                  refine ⟨depth + depth' + depth'', .error failure s'', ?_, fun n hn rest =>
                    (hround n (by omega) rest).trans (bind_of_error (hrest n (by omega) rest) _)⟩
                  rintro _ ⟨⟩
                  exact hends s'' rfl

theorem returns_repeated (hreturns : ∀ s, body.Returns rules s)
    (hadvances : ∀ s node s', body.Matches rules s true → body.Consumes rules s (.ok node s') →
      s.position < s'.position) (s : TokenStream) : (repeated body).Returns rules s := by
  obtain ⟨depth, result, hends, hresult⟩ := exists_repeatWhile_eq hreturns hadvances s
  cases result with
  | ok nodes s' =>
      refine ⟨.ok (.list nodes) s', ⟨depth, fun rest => ?_⟩, nofun⟩
      rw [unfold_repeated]
      exact bind_of_ok (hresult depth (Nat.le_refl _) rest) _
  | error failure s' =>
      refine ⟨.error failure s', ⟨depth, fun rest => ?_⟩, ?_⟩
      · rw [unfold_repeated]
        exact bind_of_error (hresult depth (Nat.le_refl _) rest) _
      · rintro _ ⟨⟩
        exact hends s' rfl

end Repetitions

end Rule

/-! ## The grammar -/

open Rule

/-- Whatever the tokens are, parsing them ends, and so does consuming a production from
anywhere: no rule calls others for ever.  Each round of a repetition takes a token, so
there are no more of them than tokens ahead.  Only the references that calls lead to are
followed, and these only once a token was taken since the production around them was
entered.  Over any names, a repetition ends if its body does and takes a token where it
can begin. -/
theorem parsing_ends :
    (∀ tokens, (∃ node, parse tokens = .ok node) ∨ ∃ error, parse tokens = .error (.error error)) ∧
    (∀ (production : Production) (s : TokenStream),
      (reference production).Consumes Production.rule s (production.consume s) ∧
      (∀ s', production.consume s ≠ .error .endless s') ∧
      Acc (fun inner outer => Calls outer inner) (reference production, s) ∧
      (∀ body s', Relation.ReflTransGen Calls (reference production, s) (repeated body, s') →
        (∀ node s'', body.startsWith s'.nextKind? = true → body.consume s' = .ok node s'' →
          s'.position < s''.position) ∧
        (∀ node s'', (repeated body).consume s' = .ok node s'' →
          ∃ nodes, node = .list nodes ∧ Rounds body s' nodes.length s'') ∧
        ∀ n s'', Rounds body s' n s'' → n ≤ s'.remaining) ∧
      (∀ enter, (∀ inner s',
        Relation.ReflTransGen CallsInside (production.rule, s) (reference inner, s') →
          enter inner s' = inner.consume s') →
        production.rule.consumeFor enter s = production.consume s) ∧
      ∀ inner s', Relation.ReflTransGen CallsInside (production.rule, s) (reference inner, s') →
        s.position < s'.position) ∧
    ∀ (Name : Type) (rules : Name → Rule Name) (body : Rule Name),
      (∀ s, body.Returns rules s) →
      (∀ s node s', body.Matches rules s true → body.Consumes rules s (.ok node s') →
        s.position < s'.position) →
      ∀ s, (repeated body).Returns rules s := by
  refine ⟨fun tokens => ?_, fun production s => ⟨consumes_consume (reference production) s,
    production.ends_consume s, acc_calls _ rfl, fun body s' hreaches => ?_,
    fun enter hreached => ?_, fun inner s' => position_lt_of_reachesInside⟩,
    fun Name rules body => returns_repeated⟩
  · cases hparse : parse tokens with
    | ok node => exact .inl ⟨node, rfl⟩
    | error failure =>
        obtain ⟨error, -, rfl, -⟩ := parse_eq_error hparse
        exact .inr ⟨error, rfl⟩
  · have hprogress : (repeated body).progresses = true := progresses_of_reaches hreaches rfl
    exact ⟨fun node s'' _ => position_lt_of_round hprogress, fun node s'' => rounds_of_consume,
      fun n s'' hrounds => Nat.le_of_add_right_le (hrounds.add_remaining_le hprogress)⟩
  · rw [production.consume_eq_rule]
    exact consumeFor_eq_consume production.rule s hreached

/-- One round of the repetition of a program, the brackets of an operand, and a repetition
whose body begins with a reference. -/
theorem parsing_ends_statement :
    let body : Rule := .sequence Rule.statement [.symbol .semicolon]
    (∃ s s' : TokenStream, Rounds body s 1 s' ∧ s.position < s'.position ∧ 1 ≤ s.remaining) ∧
      (∃ s s' : TokenStream, Relation.ReflTransGen CallsInside
        (Production.operand.rule, s) (reference .expression, s') ∧ s.position < s'.position) ∧
      ∀ s, (repeated (.sequence (.reference .statement) [.symbol .semicolon])).Returns
        Production.rule s := by
  intro body
  obtain ⟨-, hgrammar, hrepeated⟩ := parsing_ends
  refine ⟨?_, ?_, ?_⟩
  · let s : TokenStream :=
      .ofTokens [⟨.keyword .kwPrint, 1⟩, ⟨.number 1, 1⟩, ⟨.symbol .semicolon, 1⟩]
    let s' : TokenStream :=
      ⟨[⟨.symbol .semicolon, 1⟩, ⟨.number 1, 1⟩, ⟨.keyword .kwPrint, 1⟩], [], 0, rfl⟩
    obtain ⟨node, hbody⟩ : ∃ node, body.consume s = .ok node s' := ⟨_, rfl⟩
    have hreaches : Relation.ReflTransGen Calls (reference .statements, s) (repeated body, s) :=
      .tail (.single .enter) .body
    have hrounds : Rounds body s 1 s' := .succ rfl hbody (.zero s')
    obtain ⟨hadvances, -, hbound⟩ := (hgrammar .statements s).2.2.2.1 body s hreaches
    exact ⟨s, s', hrounds, hadvances node s' rfl hbody, hbound 1 s' hrounds⟩
  · let s : TokenStream := .ofTokens [⟨.symbol .leftParen, 1⟩, ⟨.number 1, 1⟩]
    let s' : TokenStream := ⟨[⟨.symbol .leftParen, 1⟩], [⟨.number 1, 1⟩], 1, rfl⟩
    have hreaches : Relation.ReflTransGen CallsInside
        (Production.operand.rule, s) (reference .expression, s') :=
      .head ⟨@Calls.branch _ [_, _] [] s (by decide) rfl, nofun⟩
        (.head ⟨.body, nofun⟩ (.head ⟨.next rfl, nofun⟩ (.single ⟨.first, nofun⟩)))
    exact ⟨s, s', hreaches, (hgrammar .operand s).2.2.2.2.2 .expression s' hreaches⟩
  · let statement : Rule := .sequence (.reference .statement) [.symbol .semicolon]
    refine hrepeated Production Production.rule statement (fun s => ?_)
      fun s node s' _ hconsumes => ?_
    · have hadmits : Admits (s.remaining + 1) s statement.guarded := .inl (Nat.lt_succ_self _)
      exact ⟨statement.consume s, consumes_consume statement s,
        ends_consumeFor Production.forward_consume (fun p s _ => p.ends_consume s) statement rfl s
          hadmits⟩
    · have hconsume : statement.consume s = .ok node s' :=
        (consumes_consume statement s).unique hconsumes
      have hprogress : (Rule.repeated statement).progresses = true := rfl
      exact position_lt_of_round hprogress hconsume

end Primer
