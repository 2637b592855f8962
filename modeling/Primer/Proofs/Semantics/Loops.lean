import Primer.Proofs.Semantics.Discipline
import Primer.Proofs.Semantics.Targets

/-!
# The rounds of loops

A loop counts with a variable that it finds under a name.  The body never sees
this variable: in each round the name refers to a copy, in a frame that is made
for the round and holds nothing else.  So the body may assign to the name, or
run further loops over it, and the variable outside still has the value with
which the round started.  Only the loop itself moves it on, by one after each
round that ends well.

Thus the rounds are determined by the bounds alone, which are evaluated before
anything changes, until one of them fails.

## Main results

* `Loop.At.round_cases` : one round, whatever the body is.
* `Loop.iterate` : the rounds of a loop, by induction on their number.
* `execute_loop` : the loops of whatever compiles.
-/

namespace Primer

open Stateful

/-! ## Where a variable is held -/

/-- The variable with a value to count with. -/
def Variable.counting (v : Variable) (i : Int64) : Variable := { v with value? := some (.int i) }

/-- The context without its innermost frame. -/
def Context.leaveFrame (context : Context) : Context :=
  { context with scopes := context.scopes.tail }

namespace Scopes

/-- The variable is held by the frame at the depth, and no frame further inside
holds another one of its name. -/
inductive HoldsAt (v : Variable) : Nat → Scopes → Prop
  | here {frame : Frame} {frames : Scopes} (hget : frame.get? v.name = some v) :
      HoldsAt v 0 (frame :: frames)
  | outside {depth : Nat} {frame : Frame} {frames : Scopes} (hget : frame.get? v.name = none)
      (hframes : HoldsAt v depth frames) : HoldsAt v (depth + 1) (frame :: frames)

variable {v w : Variable} {depth : Nat} {scopes scopes' : Scopes}

/-- What a name refers to is held somewhere. -/
theorem exists_holdsAt (hresolve : scopes.resolve? v.name = some v) :
    ∃ depth, HoldsAt v depth scopes := by
  induction scopes with
  | nil => cases hresolve
  | cons frame frames ih =>
      simp only [resolve?, List.findSome?_cons] at hresolve ih
      cases hget : frame.get? v.name with
      | some found =>
          simp only [hget, Option.some.injEq] at hresolve
          exact ⟨0, .here (hresolve ▸ hget)⟩
      | none =>
          simp only [hget] at hresolve
          obtain ⟨depth, hframes⟩ := ih hresolve
          exact ⟨depth + 1, .outside hget hframes⟩

namespace HoldsAt

theorem resolve? (hholds : HoldsAt v depth scopes) : scopes.resolve? v.name = some v := by
  induction hholds with
  | here hget => simp only [Scopes.resolve?, List.findSome?_cons, hget]
  | outside hget _ ih =>
      simp only [Scopes.resolve?, List.findSome?_cons, hget] at ih ⊢
      exact ih

/-- Where it is held depends on the variables of its name alone. -/
theorem of_sameAt (hholds : HoldsAt v depth scopes) (hsame : scopes.SameAt v.name scopes') :
    HoldsAt v depth scopes' := by
  induction hholds generalizing scopes' with
  | here hget =>
      cases hsame with
      | cons hframe _ => exact .here (hframe.trans hget)
  | outside hget _ ih =>
      cases hsame with
      | cons hframe hframes => exact .outside (hframe.trans hget) (ih hframes)

/-- An update puts the new variable in its place. -/
theorem of_update? (hholds : HoldsAt v depth scopes) (hname : w.name = v.name)
    (hupdate : scopes.update? w = some scopes') : HoldsAt w depth scopes' := by
  induction hholds generalizing scopes' with
  | here hget =>
      rw [← hname] at hget
      rw [update?, if_pos (Option.isSome_of_eq_some hget)] at hupdate
      cases hupdate
      exact .here (by rw [Frame.get?_rebind, if_pos rfl, hget, Option.map_some])
  | @outside _ frame _ hget _ ih =>
      rw [← hname] at hget
      have hnone : ¬(frame.get? w.name).isSome := by simp [hget]
      rw [update?, if_neg hnone] at hupdate
      obtain ⟨frames', hrest, rfl⟩ := Option.map_eq_some_iff.mp hupdate
      exact .outside hget (ih hrest)

/-- A variable can become what it may become wherever it is held. -/
theorem exists_update? (hwf : scopes.WellFormed) (hholds : HoldsAt v depth scopes)
    (hevolves : v.Evolves w) (hw : w.WellTyped) :
    ∃ scopes', scopes.update? w = some scopes' ∧ scopes'.WellFormed ∧
      scopes.Evolves [] scopes' ∧ HoldsAt w depth scopes' := by
  have hresolve : scopes.resolve? w.name = some v := hevolves.name ▸ hholds.resolve?
  obtain ⟨scopes', hupdate, hwf', hscopes⟩ := Scopes.exists_update? hwf hresolve hevolves hw
  exact ⟨scopes', hupdate, hwf', hscopes, hholds.of_update? hevolves.name hupdate⟩

end HoldsAt

end Scopes

/-! ## Rounds -/

/-- A loop that has evaluated its bounds and found its counter. -/
structure Loop where
  body : Program
  /-- The variable to count with, as it was found. -/
  counter : Variable
  counter_ty : counter.ty = .int
  /-- The line on which the loop names it. -/
  line : Nat
  first : Int64
  /-- The number of frames outside of the body. -/
  frames : Nat
  /-- How many of these frames are inside of the one that holds the counter. -/
  depth : Nat

namespace Loop

/-- Outside of the body, the counter is where it was found and has the value. -/
structure At (loop : Loop) (i : Int64) (context : Context) : Prop where
  wellFormed : context.scopes.WellFormed
  frames : context.scopes.length = loop.frames
  holds : Scopes.HoldsAt (loop.counter.counting i) loop.depth context.scopes

/-- The context in which the body starts: the innermost frame holds nothing but
a copy of the counter. -/
def enter (loop : Loop) (i : Int64) (context : Context) : Context :=
  { context with scopes := [(loop.counter.name, loop.counter.counting i)] :: context.scopes }

/-- The body in the frame made for it, which is dropped afterwards. -/
def round (loop : Loop) (i : Int64) : Exec Unit :=
  Exec.inNewFrame do
    Exec.declare (loop.counter.counting i)
    execute loop.body.tree

/-- The contexts before and after a number of rounds, each with the next counter,
which the body leaves alone. -/
inductive Rounds (loop : Loop) (start : Context) : Nat → Context → Prop
  | zero : Rounds loop start 0 start
  | succ {done : Nat} {i : Int64} {context inner after : Context}
      (hrounds : Rounds loop start done context) (hi : i.toInt = loop.first.toInt + done)
      (hbefore : loop.At i context)
      (hbody : execute loop.body.tree (loop.enter i context) = .ok () inner)
      (hafter : loop.At i inner.leaveFrame)
      (hnext : Exec.update (loop.counter.counting (.ofInt (i.toInt + 1))) loop.line
        inner.leaveFrame = .ok () after) :
      Rounds loop start (done + 1) after

/-- How a loop with a number of rounds ends: after all of them, or with the error
of the first that fails. -/
inductive Ends (loop : Loop) (start : Context) (total : Nat) :
    EStateM.Result Failure Context Unit → Prop
  | finished {after : Context} (hrounds : loop.Rounds start total after)
      (hafter : loop.At (.ofInt (loop.first.toInt + total)) after) :
      Ends loop start total (.ok () after)
  | failed {done : Nat} {i : Int64} {error : Error} {context inner : Context}
      (hdone : done < total) (hrounds : loop.Rounds start done context)
      (hi : i.toInt = loop.first.toInt + done) (hbefore : loop.At i context)
      (hbody : execute loop.body.tree (loop.enter i context) = .error (.error error) inner)
      (hafter : loop.At i inner.leaveFrame) :
      Ends loop start total (.error (.error error) inner.leaveFrame)

variable {loop : Loop} {i : Int64} {context : Context}

theorem withValue?_counter (loop : Loop) (i : Int64) :
    loop.counter.withValue? (.int i) = some (loop.counter.counting i) :=
  loop.counter.withValue?_eq_some (.int i) loop.counter_ty.symm

theorem wellTyped_counting (loop : Loop) (i : Int64) : (loop.counter.counting i).WellTyped :=
  Variable.wellTyped_withValue loop.counter_ty.symm

/-- The counter can be set to any value, whatever value it has. -/
theorem exists_update {v : Variable} (hwf : context.scopes.WellFormed)
    (hframes : context.scopes.length = loop.frames)
    (hholds : Scopes.HoldsAt v loop.depth context.scopes)
    (hv : ∀ i, v.Evolves (loop.counter.counting i)) (i : Int64) :
    ∃ after, Exec.update (loop.counter.counting i) loop.line context = .ok () after ∧
      loop.At i after := by
  obtain ⟨scopes, hupdate, hwf', hevolves, hholds'⟩ :=
    hholds.exists_update? hwf (hv i) (loop.wellTyped_counting i)
  refine ⟨{ context with scopes }, by rw [Exec.update, hupdate], hwf', ?_, hholds'⟩
  rw [← hevolves.forall₂.length_eq, hframes]

/-! ### One round -/

theorem At.wellFormed_enter (hat : loop.At i context) :
    (loop.enter i context).scopes.WellFormed :=
  Scopes.wellFormed_push hat.wellFormed (loop.wellTyped_counting i)

theorem At.mirrors_round (hat : loop.At i context) :
    Mirrors [] (loop.round i) (Run.withCounter loop.counter i loop.body.run) context :=
  .withCounter (fun _ => loop.body.mirrors_run) hat.wellFormed loop.counter_ty i

theorem outcome_withCounter :
    (Run.withCounter loop.counter i loop.body.run).outcome context =
      ((loop.body.run.outcome (loop.enter i context)).1,
        (loop.body.run.outcome (loop.enter i context)).2.leaveFrame) :=
  Run.outcome_withCounter loop.counter i loop.body.run context

/-- However the body ends, the variable outside is as it was: in the body, its name
refers to the copy. -/
theorem At.leaveFrame (hat : loop.At i context) :
    loop.At i (loop.body.run.outcome (loop.enter i context)).2.leaveFrame := by
  obtain ⟨-, hwf, hevolves⟩ := hat.mirrors_round
  rw [outcome_withCounter] at hwf hevolves
  have hspares : loop.body.run.Spares 1 loop.counter.name (loop.enter i context) := by
    refine loop.body.spares_run ⟨hat.wellFormed_enter.labelled, fun _ => ?_⟩
    exact Scopes.covers_cons.mpr (.inl (by simp [Frame.get?]))
  have hsame := hspares.outer
  rw [List.drop_one, List.drop_one] at hsame
  exact ⟨hwf, hevolves.forall₂.length_eq.symm.trans hat.frames, hat.holds.of_sameAt hsame⟩

/-- A round ends as its body does, without the frame made for it. -/
theorem At.round_cases (hat : loop.At i context) :
    ∃ inner : Context, loop.At i inner.leaveFrame ∧
      ((execute loop.body.tree (loop.enter i context) = .ok () inner ∧
        loop.round i context = .ok () inner.leaveFrame) ∨
      ∃ error, execute loop.body.tree (loop.enter i context) = .error (.error error) inner ∧
        loop.round i context = .error (.error error) inner.leaveFrame) := by
  refine ⟨_, hat.leaveFrame, ?_⟩
  have hround := hat.mirrors_round.agrees
  have hinner := (loop.body.mirrors_run hat.wellFormed_enter).agrees
  rw [Run.toExec_apply, outcome_withCounter] at hround
  rw [Run.toExec_apply] at hinner
  rcases hrun : loop.body.run.outcome (loop.enter i context) with ⟨error | _, inner⟩
  all_goals rw [hrun] at hround hinner
  · exact .inr ⟨error, hinner, hround⟩
  · exact .inl ⟨hinner, hround⟩

/-! ### All rounds -/

theorem iterate_succ (loop : Loop) (count : Nat) (i : Int64) :
    Primer.iterate (execute loop.body.tree) loop.counter loop.line (count + 1) i =
      (do
        loop.round i
        Exec.update (loop.counter.counting (i + 1)) loop.line
        Primer.iterate (execute loop.body.tree) loop.counter loop.line count (i + 1)) := by
  rw [Primer.iterate]
  simp only [withValue?_counter, Exec.demand, pure_bind]
  rfl

/-- The rounds that are still to go, after some have been run.  None of their
counters wraps around, only the value behind the last one can. -/
theorem iterate {start : Context} {done : Nat} (hrounds : loop.Rounds start done context)
    (hi : i = .ofInt (loop.first.toInt + done)) (hat : loop.At i context) (count : Nat)
    (hfits : loop.first.toInt + done + count ≤ 2 ^ 63) :
    loop.Ends start (done + count)
      (Primer.iterate (execute loop.body.tree) loop.counter loop.line count i context) := by
  -- induction on the rounds to come; `hi` keeps the counter in step with those that are done
  induction count generalizing done i context with
  | zero => exact .finished hrounds (hi ▸ hat)
  | succ count ih =>
      -- the counter has not wrapped around yet, since all rounds together fit below the limit
      have hexact : i.toInt = loop.first.toInt + done := by
        rw [hi]
        have hmin := loop.first.minValue_le_toInt
        exact Int64.toInt_ofInt_of_le (by simp at hmin ⊢; omega) (by omega)
      have hnext : Int64.ofInt (i.toInt + 1) = i + 1 := ofInt_toInt_succ i
      rw [iterate_succ]
      obtain ⟨inner, hinner, ⟨hrun, hround⟩ | ⟨error, hrun, hround⟩⟩ := hat.round_cases
      · rw [bind_of_ok hround]
        obtain ⟨after, hupdate, hafter⟩ := exists_update hinner.wellFormed hinner.frames
          hinner.holds (fun _ => ⟨rfl, rfl, rfl, fun _ => rfl⟩) (i + 1)
        rw [bind_of_ok hupdate]
        have hrounds' : loop.Rounds start (done + 1) after :=
          .succ hrounds hexact hat hrun hinner (hnext ▸ hupdate)
        have hi' : i + 1 = .ofInt (loop.first.toInt + (done + 1 : Nat)) := by
          rw [← hnext, hexact]
          congr 1
          omega
        have hends := ih hrounds' hi' hafter (by omega)
        rwa [show done + 1 + count = done + (count + 1) by omega] at hends
      · rw [bind_of_error hround]
        exact .failed (by omega) hrounds hexact hat hrun hinner

/-- A loop that finds its counter and sets it only has its rounds left. -/
theorem runLoop_of_update {World : Type} (body : ExecOn World Unit) {context start : Context World}
    {name : String} {line : Nat} {counter : Variable} {first : Int64}
    (hresolve : context.scopes.resolve? name = some counter) (hty : counter.ty = .int)
    (hupdate : Exec.update (counter.counting first) line context = .ok () start) (last : Int64) :
    Primer.runLoop name line first last body context =
      Primer.iterate body counter line (rangeLength first last) first start := by
  have hlookup : Exec.lookup name line context = .ok counter context := by
    rw [Exec.lookup, hresolve]
  have hstart : counter.withValue? (.int first) = some (counter.counting first) :=
    counter.withValue?_eq_some (.int first) hty.symm
  rw [Primer.runLoop, bind_of_ok hlookup, if_pos hty, hstart, Exec.demand, pure_bind,
    bind_of_ok hupdate]

/-- A loop counts its rounds from where it sets its counter. -/
theorem runLoop (loop : Loop) (hwf : context.scopes.WellFormed)
    (hframes : context.scopes.length = loop.frames)
    (hholds : Scopes.HoldsAt loop.counter loop.depth context.scopes) (last : Int64) :
    ∃ start, Exec.update (loop.counter.counting loop.first) loop.line context = .ok () start ∧
      loop.Ends start (rangeLength loop.first last)
        (Primer.runLoop loop.counter.name loop.line loop.first last (execute loop.body.tree)
          context) := by
  obtain ⟨start, hupdate, hstart⟩ := exists_update hwf hframes hholds
    (fun _ => ⟨rfl, rfl, rfl, fun _ => rfl⟩) loop.first
  refine ⟨start, hupdate, ?_⟩
  have hfits : loop.first.toInt + (0 : Nat) + rangeLength loop.first last ≤ 2 ^ 63 := by
    have hfirst := loop.first.toInt_lt
    have hlast := last.toInt_lt
    rw [rangeLength]
    omega
  have hends := iterate .zero (by simp) hstart (rangeLength loop.first last) hfits
  rw [Nat.zero_add] at hends
  rw [runLoop_of_update _ hholds.resolve? loop.counter_ty hupdate]
  exact hends

end Loop

/-! ## Loops in trees -/

theorem execute_loop_tree {forLine line inLine rangeLine doLine endLine closingLine : Nat}
    {name : String} {first last : Expression} {body : Program} {context : Context} {a b : Int64}
    (hfirst : evaluate first.tree context = .ok (.int a) context)
    (hlast : evaluate last.tree context = .ok (.int b) context) :
    execute (Statement.loop forLine name line inLine first rangeLine last doLine body endLine
      closingLine).tree context = runLoop name line a b (execute body.tree) context := by
  simp only [Statement.tree, execute, perform, Node.keyword, Node.name, Node.symbol, Lexeme.name?,
    Exec.demand, pure_bind, bind_assoc, bind_pure_unit]
  rw [bind_of_ok hfirst, asBound, pure_bind, bind_of_ok hlast, asBound, pure_bind]
  rfl

/-- The value of the counter after all rounds. -/
theorem ofInt_add_rangeLength (first last : Int64) :
    Int64.ofInt (first.toInt + rangeLength first last) =
      if first.toInt ≤ last.toInt then .ofInt (last.toInt + 1) else first := by
  rw [rangeLength]
  split
  · congr 1
    omega
  · have hlength : (last.toInt - first.toInt + 1).toNat = 0 := by omega
    rw [hlength, Int.natCast_zero, Int.add_zero, Int64.ofInt_toInt]

/-- What the loops of a text that compiles do, from contexts in which their bounds
are integers and their counter is declared as one. -/
theorem execute_loop {source : String} {node : Node} (hcompile : compile source = .ok node)
    {children : List Node} (hpart : .deferred .loop children ∈ node.parts) :
    ∃ (forLeaf inLeaf rangeLeaf doLeaf endLeaf closingLeaf : Node) (first last : Expression)
      (body : Program) (name : String) (line : Nat),
      children = [forLeaf, .name name line, inLeaf, first.tree, rangeLeaf, last.tree, doLeaf,
        body.tree, endLeaf, closingLeaf] ∧
      ∀ (context afterFirst afterLast : Context) (a b : Int64) (counter : Variable)
        (hty : counter.ty = .int), context.scopes.WellFormed →
        evaluate first.tree context = .ok (.int a) afterFirst →
        evaluate last.tree context = .ok (.int b) afterLast →
        context.scopes.resolve? name = some counter →
        afterFirst = context ∧ afterLast = context ∧ ∃ (depth : Nat) (start : Context),
          let loop : Loop := ⟨body, counter, hty, line, a, context.scopes.length, depth⟩
          Scopes.HoldsAt counter depth context.scopes ∧
          Exec.update (counter.counting a) line context = .ok () start ∧
          ((∃ after, execute (.deferred .loop children) context = .ok () after ∧
            loop.Rounds start (b.toInt - a.toInt + 1).toNat after ∧
            loop.At (if a.toInt ≤ b.toInt then .ofInt (b.toInt + 1) else a) after) ∨
          ∃ (done : Nat) (i : Int64) (error : Error) (before inner : Context),
            done < (b.toInt - a.toInt + 1).toNat ∧ loop.Rounds start done before ∧
            i.toInt = a.toInt + done ∧ loop.At i before ∧
            execute body.tree (loop.enter i before) = .error (.error error) inner ∧
            execute (.deferred .loop children) context = .error (.error error) inner.leaveFrame ∧
            loop.At i inner.leaveFrame) := by
  obtain ⟨program, -, -, rfl, -⟩ := compile_eq_ok.mp hcompile
  obtain ⟨forLine, name, line, inLine, first, rangeLine, last, doLine, body, endLine,
    closingLine, hloop⟩ := Program.loop_of_mem_parts hpart
  refine ⟨_, _, _, _, _, _, first, last, body, name, line, (Node.deferred.inj hloop).2, ?_⟩
  intro context afterFirst afterLast a b counter hty hwf hfirst hlast hresolve
  obtain ⟨-, rfl⟩ := Expression.evaluate_eq_ok.mp hfirst
  obtain ⟨-, rfl⟩ := Expression.evaluate_eq_ok.mp hlast
  obtain rfl : counter.name = name := (hwf.resolve? hresolve).1
  obtain ⟨depth, hholds⟩ := Scopes.exists_holdsAt hresolve
  let loop : Loop := ⟨body, counter, hty, line, a, context.scopes.length, depth⟩
  obtain ⟨start, hupdate, hends⟩ := loop.runLoop hwf rfl hholds b
  refine ⟨rfl, rfl, depth, start, hholds, hupdate, ?_⟩
  rw [hloop, execute_loop_tree hfirst hlast]
  change loop.Ends start _ (runLoop counter.name line a b (execute body.tree) context) at hends
  -- the run of the rounds says already which of the two ends is reached, and after how many rounds
  generalize runLoop counter.name line a b (execute body.tree) context = result at hends ⊢
  cases hends with
  | finished hrounds hafter =>
      exact .inl ⟨_, rfl, hrounds, ofInt_add_rangeLength a b ▸ hafter⟩
  | failed hdone hrounds hi hbefore hrun hafter =>
      exact .inr ⟨_, _, _, _, _, hdone, hrounds, hi, hbefore, hrun, rfl, hafter⟩

theorem execute_loop_assigned :
    let source := "for i in 1..2 do i:=9;end for;"
    let counter : Variable := ⟨"i", 4, .int, none⟩
    let context : Context := ⟨[[("i", counter)]], .ofLines []⟩
    ∃ node children after, compile source = .ok node ∧ .deferred .loop children ∈ node.parts ∧
      context.scopes.WellFormed ∧ context.scopes.resolve? "i" = some counter ∧
      execute (.deferred .loop children) context = .ok () after ∧
      ∃ depth, Scopes.HoldsAt (counter.counting 3) depth after.scopes := by
  intro source counter context
  let statement : Statement := .loop 1 "i" 1 1 (.single (.literal (.int 1) 1)) 1
    (.single (.literal (.int 2) 1)) 1
    (.next (.assignment "i" 1 1 (.single (.literal (.int 9) 1))) 1 .done) 1 1
  have hcompile : compile source = .ok (Program.tree (.next statement 1 .done)) :=
    compile_eq_ok.mpr ⟨_, 1, [], rfl, by cbv⟩
  have hpart : statement.tree ∈ (Program.tree (.next statement 1 .done)).parts := by
    simp [Program.tree, Program.occurrences, Node.parts, Node.partsOfAll, statement, Statement.tree]
  have hwf : context.scopes.WellFormed := by decide
  have hrun : execute statement.tree context =
      .ok () ⟨[[("i", counter.counting 3)]], .ofLines []⟩ := by
    rw [(statement.mirrors_run hwf).agrees]
    rfl
  obtain ⟨_, _, _, _, _, _, first, last, body, name, line, hchildren, hlaw⟩ :=
    execute_loop hcompile hpart
  simp only [List.cons.injEq] at hchildren
  obtain ⟨-, hname, -, hfirst, -, hlast, -⟩ := hchildren
  cases hname
  obtain ⟨-, -, depth, start, -, -, ⟨after, hexecute, -, hafter⟩ | hfailed⟩ :=
    hlaw context context context 1 2 counter rfl hwf (hfirst ▸ rfl) (hlast ▸ rfl) rfl
  · exact ⟨_, _, after, hcompile, hpart, hwf, rfl, hexecute, depth, hafter.holds⟩
  · obtain ⟨done, i, error, before, inner, -, -, -, -, -, hexecute, -⟩ := hfailed
    cases hrun.symm.trans hexecute

end Primer
