import Primer.Proofs.Grammar.ContextFree
import Primer.Proofs.Grammar.Lookahead

/-!
# What was taken can be completed

Where a rule fails, the tokens that it has taken are the beginning of something
that it describes: every choice was decided by the token at hand, so nothing
was taken that the rule could not go on with.  Tokens before an end marker at
which parsing fails are therefore the beginning of a program.

The completion is built rule by rule.  The part of a rule that failed is
completed by induction, the parts before it are the nodes that they yielded,
and the parts after it are any nodes at all.  That there are such nodes is what
`Rule.productive` is about: a choice without branches describes nothing.

## Main results

* `Rule.stopsAt_consume` : what a failing rule has taken begins one of its nodes.
* `exists_program_of_isIncomplete` : tokens that are found incomplete begin a
  program.
-/

namespace Primer

open Stateful

/-! ## Rules describe nodes -/

/-- Every kind is that of some token. -/
theorem Token.kind_surjective : Function.Surjective Token.kind := by
  intro kind
  cases kind with
  | endMarker => exact ⟨⟨.endMarker, 1⟩, rfl⟩
  | name => exact ⟨⟨.name "x", 1⟩, rfl⟩
  | number => exact ⟨⟨.number 0, 1⟩, rfl⟩
  | string => exact ⟨⟨.string "", 1⟩, rfl⟩
  | boolean => exact ⟨⟨.boolean true, 1⟩, rfl⟩
  | typeName => exact ⟨⟨.typeName .int, 1⟩, rfl⟩
  | keyword k => exact ⟨⟨.keyword k, 1⟩, rfl⟩
  | symbol s => exact ⟨⟨.symbol s, 1⟩, rfl⟩

namespace Rule

mutual

/-- Whether the rule and all of its parts describe some node, told from its
shape: every choice has to have a branch.  References are taken to do so. -/
def productive : Rule → Bool
  | .terminal _ | .empty | .reference _ => true
  | .sequence first others => productive first && allProductive others
  | .alternative branches => !branches.isEmpty && allProductive branches
  | .optional body | .repeated body | .deferred _ body => productive body

/-- Whether each of the rules is productive. -/
def allProductive : List Rule → Bool
  | [] => true
  | rule :: rules => productive rule && allProductive rules

end

end Rule

theorem Production.productive_rule (production : Production) :
    production.rule.productive = true := by
  cases production <;> decide

/-- The simplest node of each production. -/
theorem Production.exists_builds (production : Production) :
    ∃ node, production.rule.Builds node := by
  have hnumber : Rule.operand.Builds (.deferred .constant [.token ⟨.number 0, 1⟩]) := by
    have hliteral : Rule.literal.Builds (.token ⟨.number 0, 1⟩) :=
      .alternative List.mem_cons_self (.terminal rfl)
    exact .alternative List.mem_cons_self (.deferred (.sequence hliteral .nil))
  -- one tree for each production, the smallest one its branches allow
  cases production with
  | statements =>
      have hnone : ∀ node ∈ ([] : List Node),
          (Rule.sequence Rule.statement [.symbol .semicolon]).Builds node := by simp
      exact ⟨_, .deferred (.repeated hnone)⟩
  | statement =>
      have hread : (Rule.keyword .kwRead).Builds (.keyword .kwRead 1) := .terminal rfl
      have hname : (Rule.terminal .name).Builds (.name "x" 1) := .terminal rfl
      have hreading : Rule.reading.Builds _ := .deferred (.sequence hread (.cons hname .nil))
      exact ⟨_, .alternative (by simp) hreading⟩
  | expression =>
      have hsingle : (Rule.deferred .operation (.sequence Rule.operand
          [.optional (.sequence Rule.operator [Rule.operand])])).Builds _ :=
        .deferred (.sequence hnumber (.cons .absent .nil))
      exact ⟨_, .alternative (List.mem_cons_of_mem _ List.mem_cons_self) hsingle⟩
  | operator => exact ⟨.symbol .plus 1, .alternative List.mem_cons_self (.terminal rfl)⟩
  | operand => exact ⟨_, hnumber⟩

namespace Rule

mutual

theorem exists_builds {rule : Rule} (hrule : rule.productive = true) :
    ∃ node, rule.Builds node := by
  -- the productions are settled above, so the recursion never passes a reference
  cases rule with
  | terminal kind =>
      obtain ⟨t, hkind⟩ := Token.kind_surjective kind
      exact ⟨_, .terminal hkind⟩
  | sequence first others =>
      obtain ⟨hfirst, hothers⟩ := Bool.and_eq_true_iff.mp hrule
      obtain ⟨node, hnode⟩ := exists_builds hfirst
      obtain ⟨nodes, hnodes⟩ := exists_buildsAll hothers
      exact ⟨_, .sequence hnode hnodes⟩
  | alternative branches =>
      obtain ⟨hnonempty, hbranches⟩ := Bool.and_eq_true_iff.mp hrule
      cases branches with
      | nil => cases hnonempty
      | cons branch branches =>
          obtain ⟨hbranch, -⟩ := Bool.and_eq_true_iff.mp hbranches
          obtain ⟨node, hnode⟩ := exists_builds hbranch
          exact ⟨_, .alternative List.mem_cons_self hnode⟩
  | optional body => exact ⟨_, .absent⟩
  | repeated body => exact ⟨_, .repeated fun node hnode => absurd hnode List.not_mem_nil⟩
  | empty => exact ⟨_, .empty⟩
  | reference production =>
      obtain ⟨node, hnode⟩ := production.exists_builds
      exact ⟨_, .reference hnode⟩
  | deferred action body =>
      rw [productive] at hrule
      obtain ⟨node, hnode⟩ := exists_builds hrule
      exact ⟨_, .deferred hnode⟩

theorem exists_buildsAll {rules : List Rule} (hrules : allProductive rules = true) :
    ∃ nodes, BuildsAll rules nodes := by
  cases rules with
  | nil => exact ⟨_, .nil⟩
  | cons rule rules =>
      obtain ⟨hrule, hrules⟩ := Bool.and_eq_true_iff.mp hrules
      obtain ⟨node, hnode⟩ := exists_builds hrule
      obtain ⟨nodes, hnodes⟩ := exists_buildsAll hrules
      exact ⟨_, .cons hnode hnodes⟩

end

/-! ## What a failing rule has taken -/

/-- The tokens are the first ones of some node that the rule describes. -/
def Begins (rule : Rule) (taken : List Token) : Prop :=
  ∃ node more, rule.Builds node ∧ node.leaves = taken ++ more

/-- The tokens are the first ones of some nodes, one for each of the rules. -/
def BeginsAll (rules : List Rule) (taken : List Token) : Prop :=
  ∃ nodes more, BuildsAll rules nodes ∧ Node.leavesOfAll nodes = taken ++ more

theorem begins_nil {rule : Rule} (hrule : rule.productive = true) : rule.Begins [] := by
  obtain ⟨node, hnode⟩ := exists_builds hrule
  exact ⟨node, node.leaves, hnode, rfl⟩

theorem beginsAll_cons {rule : Rule} {rules : List Rule} {taken : List Token}
    (hrule : rule.Begins taken) (hrules : allProductive rules = true) :
    BeginsAll (rule :: rules) taken := by
  obtain ⟨node, more, hnode, hleaves⟩ := hrule
  obtain ⟨nodes, hnodes⟩ := exists_buildsAll hrules
  refine ⟨node :: nodes, more ++ Node.leavesOfAll nodes, .cons hnode hnodes, ?_⟩
  rw [Node.leavesOfAll, hleaves, List.append_assoc]

theorem beginsAll_cons_of_builds {rule : Rule} {rules : List Rule} {node : Node}
    {taken : List Token} (hnode : rule.Builds node) (hrules : BeginsAll rules taken) :
    BeginsAll (rule :: rules) (node.leaves ++ taken) := by
  obtain ⟨nodes, more, hnodes, hleaves⟩ := hrules
  refine ⟨node :: nodes, more, .cons hnode hnodes, ?_⟩
  rw [Node.leavesOfAll, hleaves, List.append_assoc]

theorem begins_sequence {first : Rule} {others : List Rule} {taken : List Token}
    (hall : BeginsAll (first :: others) taken) : (sequence first others).Begins taken := by
  obtain ⟨_, more, hall, hleaves⟩ := hall
  obtain ⟨node, nodes, hnode, hnodes, rfl⟩ := buildsAll_cons.mp hall
  exact ⟨.list (node :: nodes), more, .sequence hnode hnodes, hleaves⟩

/-- The stream after the tokens that a failing rule has taken. -/
def StopsAt (rule : Rule) (s s' : TokenStream) : Prop :=
  ∃ taken, s.Moves taken s' ∧ rule.Begins taken

/-- The stream after the tokens that rules in turn have taken when one of them fails. -/
def AllStopAt (rules : List Rule) (s s' : TokenStream) : Prop :=
  ∃ taken, s.Moves taken s' ∧ BeginsAll rules taken

theorem stopsAt_self {rule : Rule} (hrule : rule.productive = true) (s : TokenStream) :
    rule.StopsAt s s := ⟨[], .refl s, begins_nil hrule⟩

/-- What begins with one rule instead of another, begins with the same tokens. -/
theorem StopsAt.imp {rule rule' : Rule} {s s' : TokenStream} (hstops : rule.StopsAt s s')
    (hbuilds : ∀ node, rule.Builds node →
      ∃ node', rule'.Builds node' ∧ node'.leaves = node.leaves) : rule'.StopsAt s s' := by
  obtain ⟨taken, hmoves, node, more, hnode, hleaves⟩ := hstops
  obtain ⟨node', hnode', hsame⟩ := hbuilds node hnode
  exact ⟨taken, hmoves, node', more, hnode', hsame.trans hleaves⟩

/-- A repetition that fails has repeated its body some times and then begun it. -/
theorem stopsAt_repeatWhile {body : Rule} {m : ParseM Node}
    (hok : ∀ s node s', m s = .ok node s' → body.Explains s node s')
    (herror : ∀ s failure s', m s = .error failure s' → body.StopsAt s s')
    (continues : Option Kind → Bool) {s s' : TokenStream} {failure : Failure}
    (hfailure : repeatWhile continues m s = .error failure s') :
    (repeated body).StopsAt s s' := by
  -- the rounds that were finished and the one that failed, as one list of trees
  suffices hnodes : ∃ taken nodes more, s.Moves taken s' ∧ (∀ node ∈ nodes, body.Builds node) ∧
      Node.leavesOfAll nodes = taken ++ more by
    obtain ⟨taken, nodes, more, hmoves, hnodes, hleaves⟩ := hnodes
    exact ⟨taken, hmoves, .list nodes, more, .repeated hnodes, hleaves⟩
  -- induction on the rounds; what each one took is put in front of where the later ones stop
  fun_induction repeatWhile continues m s generalizing s' failure with
  | case1 s hcontinues failure s₁ hbody =>
      cases hfailure
      obtain ⟨taken, hmoves, node, more, hnode, hleaves⟩ := herror s failure s₁ hbody
      refine ⟨taken, [node], more, hmoves, by simpa using hnode, ?_⟩
      simpa [Node.leavesOfAll] using hleaves
  | case2 s hcontinues node s₁ hbody hless failure s₂ hrest ih =>
      cases hfailure
      obtain ⟨hnode, hfirst⟩ := hok s node s₁ hbody
      obtain ⟨taken, nodes, more, hmoves, hnodes, hleaves⟩ := ih hrest
      refine ⟨node.leaves ++ taken, node :: nodes, more, hfirst.trans hmoves,
        List.forall_mem_cons.mpr ⟨hnode, hnodes⟩, ?_⟩
      rw [Node.leavesOfAll, hleaves, List.append_assoc]
  | case3 => cases hfailure
  | case4 s hcontinues node s₁ hbody hless =>
      cases hfailure
      obtain ⟨hnode, hmoves⟩ := hok s node s₁ hbody
      exact ⟨node.leaves, [node], [], hmoves, by simpa using hnode, by simp [Node.leavesOfAll]⟩
  | case5 => cases hfailure

/-- What is asked of productions that a rule refers to, however these are entered. -/
structure EntersWell (enter : Production → ParseM Node) : Prop where
  explains : ∀ (p : Production) s node s', enter p s = .ok node s' → p.rule.Explains s node s'
  stopsAt : ∀ (p : Production) s failure s', enter p s = .error failure s' → p.rule.StopsAt s s'

section Stops

variable {enter : Production → ParseM Node}

mutual

theorem stopsAt_consumeFor (henter : EntersWell enter) {rule : Rule}
    (hrule : rule.productive = true) {s s' : TokenStream} {failure : Failure}
    (hfailure : rule.consumeFor enter s = .error failure s') : rule.StopsAt s s' := by
  -- a failure is that of a part; the parts behind it are completed by the trees they allow
  cases rule with
  | terminal kind =>
      rcases bind_eq_error.mp hfailure with hexpect | ⟨t, s₁, _, hpure⟩
      · rw [TokenStream.expect_error hexpect]
        exact stopsAt_self rfl s
      · cases hpure
  | sequence first others =>
      obtain ⟨hfirst, hothers⟩ := Bool.and_eq_true_iff.mp hrule
      rcases bind_eq_error.mp hfailure with hstops | ⟨node, s₁, hnode, hrest⟩
      · obtain ⟨taken, hmoves, hbegins⟩ := stopsAt_consumeFor henter hfirst hstops
        exact ⟨taken, hmoves, begins_sequence (beginsAll_cons hbegins hothers)⟩
      · obtain ⟨hbuilds, hmoves₁⟩ := explains_consumeFor henter.explains hnode
        rcases bind_eq_error.mp hrest with hstops | ⟨nodes, s₂, _, hpure⟩
        · obtain ⟨taken, hmoves, hbegins⟩ := allStopAt_consumeAllFor henter hothers hstops
          exact ⟨node.leaves ++ taken, hmoves₁.trans hmoves,
            begins_sequence (beginsAll_cons_of_builds hbuilds hbegins)⟩
        · cases hpure
  | alternative branches =>
      obtain ⟨-, hbranches⟩ := Bool.and_eq_true_iff.mp hrule
      rcases stopsAt_consumeFirstFor henter hbranches hfailure with
        rfl | ⟨branch, hmem, hstops⟩
      · exact stopsAt_self hrule s
      · exact hstops.imp fun node hnode => ⟨node, .alternative hmem hnode, rfl⟩
  | optional body =>
      rw [productive] at hrule
      simp only [consumeFor] at hfailure
      split at hfailure
      · have hstops := stopsAt_consumeFor henter hrule hfailure
        exact hstops.imp fun node hnode => ⟨node, .present hnode, rfl⟩
      · cases hfailure
  | repeated body =>
      rw [productive] at hrule
      rcases bind_eq_error.mp hfailure with hstops | ⟨nodes, s₁, _, hpure⟩
      · exact stopsAt_repeatWhile (fun _ _ _ hnode => explains_consumeFor henter.explains hnode)
          (fun _ _ _ hbody => stopsAt_consumeFor henter hrule hbody) _ hstops
      · cases hpure
  | empty => cases hfailure
  | reference production =>
      have hstops := henter.stopsAt production s failure s' hfailure
      exact hstops.imp fun node hnode => ⟨node, .reference hnode, rfl⟩
  | deferred action body =>
      rw [productive] at hrule
      rcases bind_eq_error.mp hfailure with hbody | ⟨node, s₁, _, hpure⟩
      · have hstops := stopsAt_consumeFor henter hrule hbody
        exact hstops.imp fun node hnode => ⟨_, .deferred hnode, node.leaves_defer action⟩
      · cases hpure

theorem allStopAt_consumeAllFor (henter : EntersWell enter) {rules : List Rule}
    (hrules : allProductive rules = true) {s s' : TokenStream} {failure : Failure}
    (hfailure : consumeAllFor enter rules s = .error failure s') :
    AllStopAt rules s s' := by
  cases rules with
  | nil => cases hfailure
  | cons rule rules =>
      obtain ⟨hrule, hrules⟩ := Bool.and_eq_true_iff.mp hrules
      rcases bind_eq_error.mp hfailure with hstops | ⟨node, s₁, hnode, hrest⟩
      · obtain ⟨taken, hmoves, hbegins⟩ := stopsAt_consumeFor henter hrule hstops
        exact ⟨taken, hmoves, beginsAll_cons hbegins hrules⟩
      · obtain ⟨hbuilds, hmoves₁⟩ := explains_consumeFor henter.explains hnode
        rcases bind_eq_error.mp hrest with hstops | ⟨nodes, s₂, _, hpure⟩
        · obtain ⟨taken, hmoves, hbegins⟩ := allStopAt_consumeAllFor henter hrules hstops
          exact ⟨node.leaves ++ taken, hmoves₁.trans hmoves,
            beginsAll_cons_of_builds hbuilds hbegins⟩
        · cases hpure

/-- Where no branch can begin nothing is taken, and otherwise the branch chosen fails. -/
theorem stopsAt_consumeFirstFor (henter : EntersWell enter) {branches : List Rule}
    (hbranches : allProductive branches = true) {s s' : TokenStream} {failure : Failure}
    (hfailure : consumeFirstFor enter branches s = .error failure s') :
    s = s' ∨ ∃ branch ∈ branches, branch.StopsAt s s' := by
  cases branches with
  | nil =>
      cases hfailure
      exact .inl rfl
  | cons branch branches =>
      obtain ⟨hbranch, hbranches⟩ := Bool.and_eq_true_iff.mp hbranches
      simp only [consumeFirstFor] at hfailure
      split at hfailure
      · exact .inr ⟨branch, List.mem_cons_self, stopsAt_consumeFor henter hbranch hfailure⟩
      · rcases stopsAt_consumeFirstFor henter hbranches hfailure with
          hself | ⟨chosen, hmem, hstops⟩
        · exact .inl hself
        · exact .inr ⟨chosen, List.mem_cons_of_mem _ hmem, hstops⟩

end

end Stops

end Rule

theorem Production.stopsAt_consumeWithin {depth : Nat} {production : Production}
    {s s' : TokenStream} {failure : Failure}
    (hfailure : production.consumeWithin depth s = .error failure s') :
    production.rule.StopsAt s s' := by
  induction depth generalizing production s s' failure with
  | zero =>
      cases hfailure
      exact Rule.stopsAt_self production.productive_rule s
  | succ depth ih =>
      exact Rule.stopsAt_consumeFor
        ⟨fun _ _ _ _ hnode => explains_consumeWithin hnode, fun _ _ _ _ hinner => ih hinner⟩
        production.productive_rule hfailure

/-- What a rule has taken where it fails is the beginning of a node that it describes. -/
theorem Rule.stopsAt_consume {rule : Rule} (hrule : rule.productive = true) {s s' : TokenStream}
    {failure : Failure} (hfailure : rule.consume s = .error failure s') : rule.StopsAt s s' := by
  rw [rule.consume_eq_consumeFor (Nat.lt_succ_self s.remaining)] at hfailure
  exact Rule.stopsAt_consumeFor
    ⟨fun _ _ _ _ hnode => Production.explains_consumeWithin hnode,
      fun _ _ _ _ hinner => Production.stopsAt_consumeWithin hinner⟩ hrule hfailure

/-! ## Whole programs -/

/-- What parsing has taken where it fails is the beginning of a program. -/
theorem exists_program_of_consumeProgram {s s' : TokenStream} {failure : Failure}
    (hfailure : consumeProgram s = .error failure s') :
    ∃ (taken more : List Token) (program : Program), s.Moves taken s' ∧
      program.tokens = taken ++ more := by
  rcases bind_eq_error.mp hfailure with hstatements | ⟨node, s₁, hnode, hend⟩
  · rw [Production.consume_eq_rule] at hstatements
    obtain ⟨taken, hmoves, node, more, hbuilds, hleaves⟩ :=
      Rule.stopsAt_consume (Production.productive_rule .statements) hstatements
    obtain ⟨program, rfl⟩ := Rule.statements_of_builds hbuilds
    exact ⟨taken, more, program, hmoves, hleaves⟩
  · -- all statements are there, and the end marker is missing
    rw [Production.consume_eq_rule] at hnode
    obtain ⟨hbuilds, hmoves⟩ := Rule.explains_consume hnode
    obtain ⟨program, rfl⟩ := Rule.statements_of_builds hbuilds
    rcases bind_eq_error.mp hend with hexpect | ⟨t, s₂, _, hpure⟩
    · rw [TokenStream.expect_error hexpect]
      exact ⟨program.tokens, [], program, hmoves, (List.append_nil _).symm⟩
    · cases hpure

/-- Tokens that are only found incomplete are the beginning of a program. -/
theorem exists_program_of_isIncomplete {body : List Token} {line : Nat} {error : Error}
    (hbody : ∀ t ∈ body, t.kind ≠ .endMarker)
    (hparse : parse (body ++ [⟨.endMarker, line⟩]) = .error (.error error))
    (hincomplete : error.isIncomplete = true) :
    ∃ (more : List Token) (program : Program), program.tokens = body ++ more := by
  obtain ⟨_, s', heq, hfailure, hdescribes⟩ := parse_eq_error hparse
  cases heq
  obtain ⟨taken, more, program, hmoves, htokens⟩ := exists_program_of_consumeProgram hfailure
  have hnext : s'.nextKind?.getD .endMarker = .endMarker := by
    rw [hdescribes.isIncomplete] at hincomplete
    exact beq_iff_eq.mp hincomplete
  -- the tokens taken hold no end marker, and the one after them is one
  have hahead : body ++ [⟨.endMarker, line⟩] = taken ++ s'.ahead := hmoves.ahead
  rcases List.append_eq_append_iff.mp hahead with ⟨u, rfl, hend⟩ | ⟨u, rfl, hrest⟩
  · cases u with
    | nil => exact ⟨more, program, by simpa using htokens⟩
    | cons t u =>
        obtain ⟨rfl, -⟩ := List.cons.inj hend
        exact absurd rfl (program.kind_ne_endMarker ⟨.endMarker, line⟩ (by simp [htokens]))
  · cases u with
    | nil => exact ⟨more, program, by simpa using htokens⟩
    | cons t u =>
        have hkind : t.kind = .endMarker := by
          simpa [TokenStream.nextKind?, TokenStream.peek?, hrest] using hnext
        exact absurd hkind (hbody t (by simp))

end Primer
