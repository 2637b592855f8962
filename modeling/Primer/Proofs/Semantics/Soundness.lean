import Primer.Proofs.Semantics.Refinement
import Primer.Proofs.Semantics.Types

/-!
# Programs that pass the static check

A program that checks under the types of the variables it starts with never
ends in an error that is about types or names.  The assumptions after each
statement are the types of the variables there: a declaration adds to both, and
the frame that a loop makes is assumed to hold the counter and is dropped from
both.  What remains are errors that depend on values and on the input.

## Main results

* `Statement.safe_run`, `Program.safe_run` : a part that checks is safe, and the
  variables have the types found by the check afterwards.
* `execute_of_checks` : programs that compile and check.
-/

namespace Primer

/-- The errors that the static check cannot rule out, if `lines` can be read. -/
inductive Error.Unforeseen (lines : List Line) : Error → Prop
  | assertionFailed (line : Nat) : Unforeseen lines (.assertionFailed line)
  | arithmeticFault (line : Nat) : Unforeseen lines (.arithmeticFault line)
  | uninitialized (line : Nat) (name : String) : Unforeseen lines (.uninitialized line name)
  | notAnInteger (line : Nat) (input : String) : Unforeseen lines (.notAnInteger line input)
  | inputExhausted (line : Nat) : Unforeseen lines (.inputExhausted line)
  | undecodableInput (hline : .undecodable ∈ lines) : Unforeseen lines .undecodableInput

/-- The variables have the assumed types, and nothing but `lines` is left to read. -/
structure Context.Fits (lines : List Line) (assumptions : Assumptions) (context : Context) :
    Prop where
  wellFormed : context.scopes.WellFormed
  types : context.scopes.types = assumptions
  input : context.console.input ⊆ lines

namespace Run

variable {α β : Type} {lines : List Line} {assumptions assumptions' : Assumptions}
  {context : Context}

/-- From a context, a run ends as `ensures` says or in an unforeseen error. -/
def Safe (lines : List Line) (m : Run α) (ensures : α → Context → Prop) (context : Context) :
    Prop :=
  match m.outcome context with
  | (.ok a, after) => ensures a after
  | (.error error, _) => error.Unforeseen lines

theorem safe_of_ok {m : Run α} {ensures : α → Context → Prop} {a : α} {after : Context}
    (hm : m.outcome context = (.ok a, after)) :
    Safe lines m ensures context ↔ ensures a after := by
  rw [Safe, hm]

theorem safe_of_error {m : Run α} {ensures : α → Context → Prop} {error : Error} {after : Context}
    (hm : m.outcome context = (.error error, after)) :
    Safe lines m ensures context ↔ error.Unforeseen lines := by
  rw [Safe, hm]

theorem safe_bind {m : Run α} {f : α → Run β} {ensures : β → Context → Prop}
    (hsafe : Safe lines m (fun a after => Safe lines (f a) ensures after) context) :
    Safe lines (m >>= f) ensures context := by
  rcases hm : m.outcome context with ⟨error | a, after⟩
  · exact (safe_of_error (outcome_bind_of_error hm f)).mpr ((safe_of_error hm).mp hsafe)
  · rw [Safe, outcome_bind_of_ok hm]
    exact (safe_of_ok hm).mp hsafe

theorem Safe.imp {m : Run α} {ensures ensures' : α → Context → Prop}
    (hsafe : Safe lines m ensures context) (himp : ∀ a after, ensures a after → ensures' a after) :
    Safe lines m ensures' context := by
  rcases hm : m.outcome context with ⟨error | a, after⟩
  · exact (safe_of_error hm).mpr ((safe_of_error hm).mp hsafe)
  · exact (safe_of_ok hm).mpr (himp a after ((safe_of_ok hm).mp hsafe))

/-! ## Parts of statements -/

theorem safe_ofScopes {g : Scopes → Except Error α} {property : α → Prop} {f : α → Run β}
    {ensures : β → Context → Prop} (hyields : Yields property (g context.scopes))
    (hf : ∀ a, property a → Safe lines (f a) ensures context) :
    Safe lines (ofScopes g >>= f) ensures context := by
  have houtcome := outcome_ofScopes g context
  refine safe_bind ?_
  generalize g context.scopes = result at hyields houtcome
  cases hyields with
  | value ha => exact (safe_of_ok houtcome).mpr (hf _ ha)
  | uninitialized line name => exact (safe_of_error houtcome).mpr (.uninitialized line name)
  | arithmeticFault line => exact (safe_of_error houtcome).mpr (.arithmeticFault line)

/-- A name with a type is that of a variable of this type. -/
theorem safe_resolve {name : String} {ty : Ty} {f : Variable → Run β}
    {ensures : β → Context → Prop} (hfits : context.Fits lines assumptions)
    (htype : assumptions.typeOf? name = some ty) (line : Nat)
    (hf : ∀ v, context.scopes.Refers v → v.name = name → v.ty = ty →
      Safe lines (f v) ensures context) :
    Safe lines (resolve name line >>= f) ensures context := by
  rw [← hfits.types, Scopes.typeOf?_types] at htype
  obtain ⟨v, hresolve, hty⟩ := Option.map_eq_some_iff.mp htype
  have hname : v.name = name := (hfits.wellFormed.resolve? hresolve).1
  have hresolved : (resolve name line).outcome context = (.ok v, context) := by
    rw [outcome_resolve, hresolve]
  refine safe_bind ((safe_of_ok hresolved).mpr ?_)
  exact hf v ⟨v, by rw [hname, hresolve], rfl, rfl⟩ hname hty

theorem safe_assign {v : Variable} {value : Value} (hfits : context.Fits lines assumptions)
    (hrefers : context.scopes.Refers v) (hty : value.ty = v.ty) :
    Safe lines (assign v value)
      (fun _ after => after.Fits lines assumptions ∧ context.scopes.Evolves [] after.scopes)
      context := by
  have hmirrors : Mirrors [] (Exec.update { v with value? := some value } 0) (assign v value)
      context := .assign hfits.wellFormed hrefers value hty 0
  obtain ⟨-, hwf, hevolves⟩ := hmirrors
  rw [outcome_assign] at hwf hevolves
  refine (safe_of_ok (outcome_assign v value context)).mpr ?_
  exact ⟨⟨hwf, hevolves.types.trans hfits.types, hfits.input⟩, hevolves⟩

theorem safe_declare {v : Variable} (hfits : context.Fits lines assumptions)
    (hv : v.WellTyped) (hdeclare : assumptions.declare? v.name v.ty = some assumptions') :
    Safe lines (declare v) (fun _ after => after.Fits lines assumptions') context := by
  obtain ⟨hwf, htypes, hinput⟩ := hfits
  obtain ⟨_ | ⟨frame, frames⟩, console⟩ := context
  · exact absurd rfl hwf.1
  · subst htypes
    simp only [Scopes.types, List.map_cons, Assumptions.declare?, Frame.lookup_types] at hdeclare
    cases hget : frame.get? v.name with
    | some previous => simp [hget] at hdeclare
    | none =>
        simp only [hget, Option.map_none, Option.some.injEq] at hdeclare
        have houtcome : (declare v).outcome ⟨frame :: frames, console⟩ =
            (.ok (), ⟨frame.bind v :: frames, console⟩) := by
          simp only [outcome_declare, hget]
        exact (safe_of_ok houtcome).mpr
          ⟨Scopes.wellFormed_declare hwf hget hv, hdeclare, hinput⟩

theorem safe_readLine {f : String → Run β} {ensures : β → Context → Prop}
    (hfits : context.Fits lines assumptions) (line : Nat)
    (hf : ∀ content after, after.scopes = context.scopes → after.Fits lines assumptions →
      Safe lines (f content) ensures after) :
    Safe lines (readLine line >>= f) ensures context := by
  obtain ⟨hwf, htypes, hinput⟩ := hfits
  have houtcome := outcome_readLine line context
  refine safe_bind ?_
  obtain ⟨scopes, ⟨_ | ⟨first, rest⟩, printed, reads⟩⟩ := context
  · exact (safe_of_error houtcome).mpr (.inputExhausted line)
  · obtain ⟨hfirst, hrest⟩ := List.cons_subset.mp hinput
    cases first with
    | undecodable => exact (safe_of_error houtcome).mpr (.undecodableInput hfirst)
    | text content => exact (safe_of_ok houtcome).mpr (hf content _ rfl ⟨hwf, htypes, hrest⟩)

/-! ## Loops -/

section Loops

variable {body : Program} {counter : Variable}

/-- The frame that is made for a run of the body holds the counter, and it is
gone afterwards. -/
theorem safe_withCounter
    (hbody : ∀ inner, Context.Fits lines ([(counter.name, .int)] :: assumptions) inner →
      Safe lines body.run (fun _ after => after.Fits lines assumptions') inner)
    (hfits : context.Fits lines assumptions) (hty : counter.ty = .int) (i : Int64) :
    Safe lines (withCounter counter i body.run)
      (fun _ after => after.Fits lines assumptions ∧ context.scopes.Evolves [] after.scopes)
      context := by
  obtain ⟨-, hwf, hevolves⟩ :=
    Mirrors.withCounter (fun _ => body.mirrors_run) hfits.wellFormed hty i
  have hcopy : Variable.WellTyped { counter with value? := some (.int i) } :=
    Variable.wellTyped_withValue hty.symm
  have hinner : Context.Fits lines ([(counter.name, .int)] :: assumptions)
      { context with
        scopes := [(counter.name, { counter with value? := some (.int i) })] :: context.scopes } :=
    ⟨Scopes.wellFormed_push hfits.wellFormed hcopy, by
      simp [Scopes.types, Frame.types, hty, ← hfits.types], hfits.input⟩
  have houtcome := outcome_withCounter counter i body.run context
  have hsafe := hbody _ hinner
  rw [houtcome] at hwf hevolves
  dsimp only at houtcome hwf hevolves
  -- the scopes after the round are settled by the mirroring run, only the input is left to the body
  rcases hrun : body.run.outcome _ with ⟨error | _, after⟩
  all_goals rw [hrun] at houtcome hwf hevolves
  · exact (safe_of_error houtcome).mpr ((safe_of_error hrun).mp hsafe)
  · refine (safe_of_ok houtcome).mpr ⟨⟨hwf, hevolves.types.trans hfits.types, ?_⟩, hevolves⟩
    exact ((safe_of_ok hrun).mp hsafe).input

/-- The invariant is that the variables have the assumed types and that the
counter still refers to the variable it was resolved to. -/
theorem safe_iterate
    (hbody : ∀ inner, Context.Fits lines ([(counter.name, .int)] :: assumptions) inner →
      Safe lines body.run (fun _ after => after.Fits lines assumptions') inner)
    (hty : counter.ty = .int) (counters : List Int64)
    (hfits : context.Fits lines assumptions) (hrefers : context.scopes.Refers counter) :
    Safe lines
      (counters.forM fun k => do
        withCounter counter k body.run
        assign counter (.int (.ofInt (k.toInt + 1))))
      (fun _ after => after.Fits lines assumptions) context := by
  -- what carries over from round to round: the types fit, and the counter is where it was found
  induction counters generalizing context with
  | nil => exact hfits
  | cons k counters ih =>
      rw [List.forM, bind_assoc]
      refine safe_bind ((safe_withCounter hbody hfits hty k).imp fun _ inner hinner => ?_)
      obtain ⟨hfits', hevolves⟩ := hinner
      have hrefers' := hrefers.of_evolves hevolves
      have hnext : (Value.int (.ofInt (k.toInt + 1))).ty = counter.ty := hty.symm
      refine safe_bind ((safe_assign hfits' hrefers' hnext).imp fun _ next hnext => ?_)
      exact ih hnext.1 (hrefers'.of_evolves hnext.2)

end Loops

end Run

/-! ## Statements and programs -/

open Run

variable {lines : List Line}

mutual

theorem Statement.safe_run (statement : Statement) {assumptions assumptions' : Assumptions}
    (hcheck : statement.check? assumptions = some assumptions') {context : Context}
    (hfits : context.Fits lines assumptions) :
    Safe lines statement.run (fun _ after => after.Fits lines assumptions') context := by
  have hwf := hfits.wellFormed
  have htypes := hfits.types
  cases statement with
  | declaration line name nameLine colonLine ty tyLine initializer? =>
      rcases initializer? with _ | ⟨assignLine, source⟩
      · exact safe_declare hfits (v := ⟨name, line, ty, none⟩) (fun _ hvalue => nomatch hvalue)
          hcheck
      · rw [Statement.check?] at hcheck
        split at hcheck
        · next htype =>
            rw [← htypes] at htype
            refine safe_ofScopes (Expression.yields_valueOfType hwf htype line)
              fun value hvalue => ?_
            refine safe_declare hfits (v := ⟨name, line, ty, some value⟩) ?_ hcheck
            rintro _ ⟨⟩
            exact hvalue
        · cases hcheck
  | assignment name line assignLine source =>
      obtain ⟨ty, hname, hrest⟩ := Option.bind_eq_some_iff.mp hcheck
      split at hrest
      · next htype =>
          cases hrest
          rw [← htypes] at htype
          refine safe_resolve hfits hname line fun v hrefers _ hty => ?_
          subst hty
          refine safe_ofScopes (Expression.yields_valueOfType hwf htype source.firstLine)
            fun value hvalue => ?_
          exact (safe_assign hfits hrefers hvalue).imp fun _ _ hafter => hafter.1
      · cases hrest
  | printing line source =>
      obtain ⟨ty, htype, heq⟩ := Option.map_eq_some_iff.mp hcheck
      subst heq
      rw [← htypes] at htype
      exact safe_ofScopes (source.yields_value hwf htype) fun value _ =>
        ⟨hwf, htypes, hfits.input⟩
  | reading line name nameLine =>
      rw [Statement.check?] at hcheck
      cases hname : assumptions.typeOf? name with
      | none => simp [hname] at hcheck
      | some ty =>
          refine safe_resolve hfits hname line fun v hrefers _ hty => ?_
          rw [hname] at hcheck
          simp only [hty]
          cases ty with
          | int =>
              cases hcheck
              refine safe_readLine hfits line fun content inner hscopes hinner => ?_
              cases Decimal.read? content with
              | none => exact Error.Unforeseen.notAnInteger line content
              | some i =>
                  have hvalue : (Value.int i).ty = v.ty := hty.symm
                  exact (safe_assign hinner (hscopes ▸ hrefers) hvalue).imp
                    fun _ _ hafter => hafter.1
          | string =>
              cases hcheck
              refine safe_readLine hfits line fun content inner hscopes hinner => ?_
              have hvalue : (Value.string content).ty = v.ty := hty.symm
              exact (safe_assign hinner (hscopes ▸ hrefers) hvalue).imp
                fun _ _ hafter => hafter.1
          | bool => cases hcheck
  | assertion line openLine condition closeLine =>
      rw [Statement.check?] at hcheck
      split at hcheck
      · next htype =>
          cases hcheck
          rw [← htypes] at htype
          refine safe_ofScopes (condition.yields_value hwf htype) fun value hvalue => ?_
          rcases value with _ | _ | (_ | _)
          · cases hvalue
          · cases hvalue
          · exact Error.Unforeseen.assertionFailed line
          · exact hfits
      · cases hcheck
  | loop forLine name line inLine first rangeLine last doLine body endLine closingLine =>
      rw [Statement.check?] at hcheck
      split at hcheck
      · next htype =>
          obtain ⟨hfirst, hlast, hname⟩ := htype
          obtain ⟨inner, hbody, rfl⟩ := Option.map_eq_some_iff.mp hcheck
          rw [← htypes] at hfirst hlast
          refine safe_ofScopes (Expression.yields_bound hwf hfirst) fun i _ => ?_
          refine safe_ofScopes (Expression.yields_bound hwf hlast) fun j _ => ?_
          refine safe_resolve hfits hname line fun counter hrefers hcounter hty => ?_
          subst hcounter
          rw [if_neg (not_not.mpr hty)]
          have hstart : (Value.int i).ty = counter.ty := hty.symm
          -- the body is checked above a frame of the counter, with which its declarations end
          refine safe_bind ((safe_assign hfits hrefers hstart).imp fun _ after hafter => ?_)
          exact safe_iterate (fun _ hinner => body.safe_run hbody hinner) hty _ hafter.1
            (hrefers.of_evolves hafter.2)
      · cases hcheck

theorem Program.safe_run (program : Program) {assumptions assumptions' : Assumptions}
    (hcheck : program.check? assumptions = some assumptions') {context : Context}
    (hfits : context.Fits lines assumptions) :
    Safe lines program.run (fun _ after => after.Fits lines assumptions') context := by
  cases program with
  | done =>
      cases hcheck
      exact hfits
  | next statement semicolonLine rest =>
      obtain ⟨between, hstatement, hrest⟩ := Option.bind_eq_some_iff.mp hcheck
      refine safe_bind ((statement.safe_run hstatement hfits).imp fun _ inner hinner => ?_)
      exact rest.safe_run hrest hinner

end

/-- A program that compiles, and that checks under the types of the variables
there are, runs to its end or to an error that is not about types or names.  In
the first case the variables have the types that the check found. -/
theorem execute_of_checks {source : String} {node : Node} (hcompile : compile source = .ok node)
    {context : Context} (hwf : context.scopes.WellFormed) :
    ∃ program : Program, node = program.tree ∧
      ∀ assumptions, program.check? context.scopes.types = some assumptions →
        (∃ after, execute node context = .ok () after ∧ after.scopes.types = assumptions) ∨
          ∃ error after, execute node context = .error (.error error) after ∧
            error.Unforeseen context.console.input := by
  obtain ⟨program, line, rest, rfl, -⟩ := compile_eq_ok.mp hcompile
  refine ⟨program, rfl, fun assumptions hcheck => ?_⟩
  have hfits : context.Fits context.console.input context.scopes.types :=
    ⟨hwf, rfl, List.Subset.refl _⟩
  have hsafe := program.safe_run hcheck hfits
  rw [(program.mirrors_run hwf).agrees, toExec_apply]
  rcases houtcome : program.run.outcome context with ⟨error | _, after⟩
  · exact .inr ⟨error, after, rfl, (safe_of_error houtcome).mp hsafe⟩
  · exact .inl ⟨after, rfl, ((safe_of_ok houtcome).mp hsafe).types⟩

/-- Under the same types, the bound that is read decides whether a division by the counter
of a loop succeeds.  The counter hides another `i` that is not an integer. -/
theorem execute_of_checks_loop :
    let source := "var s:int;read n;for i in n..2 do s:=6/i;print s;end for;"
    let program : Program :=
      .next (.declaration 1 "s" 1 1 .int 1 none) 1
      (.next (.reading 1 "n" 1) 1
      (.next (.loop 1 "i" 1 1 (.single (.name "n" 1)) 1 (.single (.literal (.int 2) 1)) 1
        (.next (.assignment "s" 1 1 (.operation (.literal (.int 6) 1) .divide 1 (.name "i" 1))) 1
        (.next (.printing 1 (.single (.name "s" 1))) 1 .done)) 1 1) 1 .done))
    let scopes : Scopes := [[("i", ⟨"i", 3, .int, none⟩)],
      [("n", ⟨"n", 2, .int, none⟩), ("i", ⟨"i", 1, .bool, some (.bool true)⟩)]]
    let context (line : String) : Context := ⟨scopes, .ofLines [.text line]⟩
    let assumptions : Assumptions := [[("s", .int), ("i", .int)], [("n", .int), ("i", .bool)]]
    compile source = .ok program.tree ∧ scopes.WellFormed ∧
      program.check? scopes.types = some assumptions ∧
      (∃ after, execute program.tree (context "1") = .ok () after ∧
        after.scopes.types = assumptions) ∧
      ∃ error after, execute program.tree (context "0") = .error (.error error) after ∧
        error.Unforeseen [.text "0"] := by
  intro source program scopes context assumptions
  have hcompile : compile source = .ok program.tree :=
    compile_eq_ok.mpr ⟨program, 1, [], rfl, by cbv⟩
  have hwf : scopes.WellFormed := by decide
  have hline : ∀ line, (context line).scopes.WellFormed := fun _ => hwf
  have hcheck : program.check? scopes.types = some assumptions := rfl
  have hends : ∀ line, (∃ after, execute program.tree (context line) = .ok () after ∧
      after.scopes.types = assumptions) ∨ ∃ error after,
        execute program.tree (context line) = .error (.error error) after ∧
          error.Unforeseen [.text line] := by
    intro line
    obtain ⟨other, htree, hsafe⟩ := execute_of_checks hcompile (hline line)
    obtain rfl := Program.tree_injective htree
    exact hsafe assumptions hcheck
  -- of the two ends that the theorem leaves open, running the program excludes one for each input
  refine ⟨hcompile, hwf, hcheck, (hends "1").resolve_right ?_, (hends "0").resolve_left ?_⟩
  · rintro ⟨error, after, hexecute, -⟩
    rw [(program.mirrors_run (hline "1")).agrees] at hexecute
    cases hexecute
  · rintro ⟨after, hexecute, -⟩
    rw [(program.mirrors_run (hline "0")).agrees] at hexecute
    cases hexecute

end Primer
