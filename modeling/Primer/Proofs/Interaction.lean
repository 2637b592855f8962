import Primer.Repl
import Primer.Proofs.Continuation
import Primer.Proofs.Grammar.Append
import Primer.Proofs.Grammar.ContextFree
import Primer.Proofs.Grammar.Lines
import Primer.Proofs.Grammar.Lookahead
import Primer.Proofs.Semantics.Lines
import Primer.Proofs.Semantics.Output
import Primer.Proofs.Semantics.Refinement
import Primer.Proofs.Token.Restart

/-!
# Programs entered line by line

The loop runs the lines entered so far as soon as they are a program.  A program
that reads nothing may be entered that way: its lines are cut into programs, and
running these in turn is running the whole.

The rounds have one invariant, `Repl.Remaining`.  In it the program that is
still to be run begins at the start of the buffer, and its lines are counted
from there.  So they are other lines than those of the file, and a variable may
remember another line of declaration.  Apart from that the outcome is the same.

## Main results

* `Repl.interact_eq_run` : entering the lines of a file has the outcome of
  running the file.
-/

namespace Primer

/-! ## Programs up to lines -/

/-- The context with other lines to read. -/
def Context.withInput (context : Context) (input : List Line) : Context :=
  { context with console := { context.console with input } }

/-- From `context`, the program runs to its end, and this is `final` apart from
the lines of variables and from what can still be read. -/
def Program.EndsLike (final : Context) (program : Program) (context : Context) : Prop :=
  ∃ context', program.run.outcome context = (.ok (), context') ∧
    context'.scopes.relocate (fun _ => 0) = final.scopes.relocate (fun _ => 0) ∧
    context'.console.printed = final.console.printed

/-- A run that reads nothing only prints. -/
theorem Run.ReadsNothing.exists_printAll {α : Type} {m : Run α} (hreads : m.ReadsNothing)
    {context context' : Context} {result : Except Error α}
    (houtcome : m.outcome context = (result, context')) :
    ∃ values, context'.console = context.console.printAll values := by
  obtain ⟨_, scopes, values, hvalues⟩ := hreads context.scopes
  obtain ⟨-, rfl⟩ := Prod.mk.inj (houtcome.symm.trans (hvalues context.console))
  exact ⟨values, rfl⟩

namespace Program.EndsLike

variable {final context : Context}

theorem of_relocate {program : Program} {f : Nat → Nat}
    (hends : EndsLike final (program.relocate f) context) : EndsLike final program context := by
  obtain ⟨context', houtcome, hscopes, hprinted⟩ := hends
  -- without any lines, the two programs are one
  have hsame : (program.relocate f).relocate (fun _ => 0) = program.relocate (fun _ => 0) :=
    relocate_relocate _ f program
  have hfirst := (program.relocate f).relocates_run (f := fun _ => 0) context
  have hsecond := program.relocates_run (f := fun _ => 0) context
  rw [hsame, hsecond, houtcome] at hfirst
  obtain ⟨hresult, hcontext⟩ := Prod.mk.inj hfirst
  rcases hprogram : program.run.outcome context with ⟨error | _, context''⟩
  · rw [hprogram] at hresult
    cases hresult
  · rw [hprogram] at hcontext
    obtain ⟨hscopes', hconsole⟩ := Context.mk.inj hcontext
    exact ⟨context'', hprogram, hscopes'.trans hscopes,
      (congrArg Console.printed hconsole).trans hprinted⟩

/-- What can still be read has no part in a program that reads nothing. -/
theorem withInput {program : Program} (hreads : program.run.ReadsNothing)
    (hends : EndsLike final program context) (input : List Line) :
    EndsLike final program (context.withInput input) := by
  obtain ⟨context', houtcome, hscopes, hprinted⟩ := hends
  obtain ⟨result, scopes, values, hvalues⟩ := hreads context.scopes
  obtain ⟨rfl, rfl⟩ := Prod.mk.inj ((hvalues context.console).symm.trans houtcome)
  refine ⟨_, hvalues _, hscopes, ?_⟩
  rw [Console.printAll_eq] at hprinted ⊢
  exact hprinted

theorem append {first second : Program}
    (hends : EndsLike final (first.append second) context) :
    ∃ middle, first.run.outcome context = (.ok (), middle) ∧ EndsLike final second middle := by
  obtain ⟨context', houtcome, hfinal⟩ := hends
  rw [run_append, Run.outcome_bind] at houtcome
  rcases hfirst : first.run.outcome context with ⟨error | _, middle⟩
  · rw [hfirst] at houtcome
    cases houtcome
  · rw [hfirst] at houtcome
    exact ⟨middle, rfl, context', houtcome, hfinal⟩

end Program.EndsLike

/-- If a text is a program, and the text up to a line break is one too, then the
text after the line break is a program, and it is run after the first one. -/
theorem Program.exists_after_newline {text rest : List Char} {program whole : Program} {last : Nat}
    (hrestart : Lexer.tokensFrom 1 (text ++ '\n' :: rest) =
      (Lexer.tokensFrom (1 + Lexer.lineBreaks text + 1) rest).map (program.tokens ++ ·))
    (hwhole : Lexer.tokensFrom 1 (text ++ '\n' :: rest) =
      .ok (whole.tokens ++ [⟨.endMarker, last⟩])) :
    ∃ (later : Program) (k last' : Nat), whole = program.append (later.relocate (· + k)) ∧
      Lexer.tokensFrom 1 rest = .ok (later.tokens ++ [⟨.endMarker, last'⟩]) := by
  obtain ⟨k, hk⟩ : ∃ k, k = Lexer.lineBreaks text + 1 := ⟨_, rfl⟩
  rw [hrestart, Nat.add_assoc, ← hk, Lexer.tokensFrom_add] at hwhole
  cases hrest : Lexer.tokensFrom 1 rest with
  | error error =>
      rw [hrest] at hwhole
      cases hwhole
  | ok tokens =>
      obtain ⟨body, rfl, -⟩ := Lexer.tokensFrom_eq_ok hrest
      rw [hrest] at hwhole
      have htokens : (program.tokens ++ body.map (Token.relocate (· + k))) ++
          [Token.relocate (· + k) ⟨.endMarker, 1 + Lexer.lineBreaks rest⟩] =
            whole.tokens ++ [⟨.endMarker, last⟩] := by
        simpa [Except.map, Except.mapError] using hwhole
      obtain ⟨hbody, -⟩ := List.append_inj' htokens rfl
      obtain ⟨second, rfl, hsecond⟩ := exists_append program hbody.symm
      -- being a program is a matter of kinds, and these do not depend on lines
      have hkinds : body.map Token.kind = second.tokens.map Token.kind := by
        simp [hsecond, Function.comp_def]
      obtain ⟨later, rfl⟩ := mem_language_grammar.mp
        (hkinds ▸ mem_language_grammar.mpr ⟨second, rfl⟩)
      refine ⟨later, k, _, ?_, rfl⟩
      rw [tokens_injective (hsecond.trans (tokens_relocate later).symm)]

/-- The text of a program, cut after a line break, is a program or incomplete. -/
theorem compile_until_newline {source : String} {text rest : List Char} {whole : Program}
    {last : Nat} (hsource : source.toList = text ++ ['\n'])
    (hwhole : Lexer.tokensFrom 1 (text ++ '\n' :: rest) =
      .ok (whole.tokens ++ [⟨.endMarker, last⟩])) :
    (∃ (program later : Program) (k last' : Nat), compile source = .ok program.tree ∧
        whole = program.append (later.relocate (· + k)) ∧
        Lexer.tokensFrom 1 rest = .ok (later.tokens ++ [⟨.endMarker, last'⟩])) ∨
      ∃ error, compile source = .error (.error error) ∧ error.isIncomplete = true := by
  -- at the line break the text is read completely, or at fault for good, or inside an open item
  rcases Lexer.atNextLine 1 text with ⟨tokens, -, hrestart⟩ | ⟨error, -, -, hstuck⟩ | ⟨-, hopen⟩
  · have htokens : tokenize source =
        .ok (tokens ++ [⟨.endMarker, 1 + Lexer.lineBreaks text + 1⟩]) :=
      tokenize_of_restart hsource hrestart
    have hcompile : compile source =
        parse (tokens ++ [⟨.endMarker, 1 + Lexer.lineBreaks text + 1⟩]) :=
      compile_of_tokenize_ok htokens
    obtain ⟨more, hmore⟩ : ∃ more, tokens ++ more = whole.tokens ++ [⟨.endMarker, last⟩] := by
      rw [hrestart] at hwhole
      cases hrest : Lexer.tokensFrom (1 + Lexer.lineBreaks text + 1) rest with
      | error error =>
          rw [hrest] at hwhole
          cases hwhole
      | ok more =>
          rw [hrest] at hwhole
          exact ⟨more, Except.ok.inj hwhole⟩
    rcases parse_of_append_eq hmore (1 + Lexer.lineBreaks text + 1) with
      ⟨node, hparse⟩ | ⟨error, hparse, hincomplete⟩
    · obtain ⟨program, _, rfl, htokens'⟩ := exists_program_of_compile (hcompile.trans hparse)
      obtain ⟨rfl, -⟩ := List.append_inj' (Except.ok.inj (htokens.symm.trans htokens')) rfl
      obtain ⟨later, k, last', hsplit, hrest⟩ :=
        Program.exists_after_newline (hrestart rest) hwhole
      exact .inl ⟨program, later, k, last', hcompile.trans hparse, hsplit, hrest⟩
    · exact .inr ⟨error, hcompile.trans hparse, hincomplete⟩
  · cases (hstuck rest).symm.trans hwhole
  · refine .inr ⟨.unexpectedEnd (1 + Lexer.lineBreaks text + 1), ?_, rfl⟩
    refine compile_of_tokenize_error ?_
    rw [tokenize, hsource, hopen]

/-- A file that runs to its end is a program that does. -/
theorem exists_program_of_run {source : String} {input : List Line} {final : Context}
    (hrun : run source input = .ok () final) :
    ∃ (program : Program) (last : Nat),
      tokenize source = .ok (program.tokens ++ [⟨.endMarker, last⟩]) ∧
        program.run.outcome (.ofLines input) = (.ok (), final) := by
  cases hcompile : compile source with
  | error failure =>
      rw [run, runIn, hcompile] at hrun
      cases hrun
  | ok node =>
      obtain ⟨program, last, -, htokens⟩ := exists_program_of_compile hcompile
      rw [run, runIn_eq_run htokens Scopes.wellFormed_initial, Run.toExec_apply] at hrun
      refine ⟨program, last, htokens, ?_⟩
      rcases houtcome : program.run.outcome (.ofLines input) with ⟨_ | _, context'⟩
      · rw [houtcome] at hrun
        cases hrun
      · rw [houtcome] at hrun
        cases hrun
        rfl

/-! ## One round -/

namespace Repl

/-- The file with the given lines. -/
def fileOf (lines : List String) : String := String.join (lines.map (· ++ "\n"))

@[simp] theorem toList_fileOf_nil : (fileOf []).toList = [] := rfl

@[simp] theorem toList_fileOf_cons (line : String) (lines : List String) :
    (fileOf (line :: lines)).toList = line.toList ++ '\n' :: (fileOf lines).toList := by
  simp [fileOf]

/-- What the loop has shown besides its requests for lines. -/
def shown (repl : Repl) : List Event :=
  repl.events.toList.filter fun event =>
    match event with
    | .prompt _ => false
    | _ => true

@[simp] theorem shown_ask (repl : Repl) : repl.ask.shown = repl.shown := by
  simp [shown, ask]

/-- A run shows the values that it prints. -/
theorem shown_next {repl : Repl} {before after : Context} (values : List Value) (buffer : String)
    (hshown : repl.shown = before.console.printed.toList.map .printed)
    (hconsole : after.console = before.console.printAll values) :
    (repl.next before after buffer).shown = after.console.printed.toList.map .printed := by
  have hnew : newlyPrinted before after = (values.map Event.printed).toArray := by
    simp [newlyPrinted, hconsole, Console.printAll_eq]
  have hnext : (repl.next before after buffer).shown = repl.shown ++ values.map .printed := by
    rw [shown, next, hnew, Array.toList_append, List.filter_append]
    refine congrArg (repl.shown ++ ·) (List.filter_eq_self.mpr fun event hevent => ?_)
    obtain ⟨value, -, rfl⟩ := List.mem_map.mp hevent
    rfl
  rw [hnext, hshown, hconsole, Console.printAll_eq]
  simp

/-- Between two rounds, what is still to be run is a program that begins with the
buffer and goes on with the lines not read yet. -/
structure Remaining (final : Context) (repl : Repl) (lines : List String) : Prop where
  ends : ∃ (program : Program) (last : Nat),
    Lexer.tokensFrom 1 (repl.buffer.toList ++ (fileOf lines).toList) =
        .ok (program.tokens ++ [⟨.endMarker, last⟩]) ∧
      (∀ t ∈ program.tokens, t.kind ≠ .keyword .kwRead) ∧ program.EndsLike final repl.context
  /-- What is in the buffer did not compile. -/
  waits : repl.buffer = "" ∨ ∀ node, compile repl.buffer ≠ .ok node
  wellFormed : repl.context.scopes.WellFormed
  input : repl.context.console.input = lines.map .text
  shown : repl.shown = repl.context.console.printed.toList.map .printed

variable {final : Context}

theorem enter_of_ok {repl : Repl} {line : String} {rest : List Line} {node : Node}
    {after : Context} (hcompile : compile (repl.buffer ++ line ++ "\n") = .ok node)
    (hexecute : execute node (repl.context.withInput rest) = .ok () after) :
    repl.enter line rest = (repl.next (repl.context.withInput rest) after "", none) := by
  have hrun : runIn (repl.buffer ++ line ++ "\n") (repl.context.withInput rest) = .ok () after := by
    rw [runIn, hcompile]
    exact hexecute
  unfold Context.withInput at hrun
  simp only [enter, hrun]
  rfl

theorem enter_of_incomplete {repl : Repl} {line : String} {rest : List Line} {error : Error}
    (hcompile : compile (repl.buffer ++ line ++ "\n") = .error (.error error))
    (hincomplete : error.isIncomplete = true) :
    repl.enter line rest =
      (repl.next (repl.context.withInput rest) (repl.context.withInput rest)
        (repl.buffer ++ line ++ "\n"), none) := by
  have hrun : runIn (repl.buffer ++ line ++ "\n") (repl.context.withInput rest) =
      .error (.error error) (repl.context.withInput rest) := by
    rw [runIn, hcompile]
  unfold Context.withInput at hrun
  simp only [enter, hrun, hincomplete]
  rfl

/-- A round runs what has become a program, and keeps everything else. -/
theorem Remaining.enter {repl : Repl} {line : String} {lines : List String}
    (hremaining : Remaining final repl (line :: lines)) :
    ∃ repl', repl.ask.enter line (lines.map .text) = (repl', none) ∧
      Remaining final repl' lines := by
  obtain ⟨⟨whole, last, htokens, hread, hends⟩, -, hwf, hinput, hshown⟩ := hremaining
  have hbuffer : (repl.buffer ++ line ++ "\n").toList =
      repl.buffer.toList ++ line.toList ++ ['\n'] := by
    simp
  rw [toList_fileOf_cons, ← List.append_assoc] at htokens
  -- what remains reads nothing, so the lines the interpreter has not taken yet do not matter to it
  replace hends := hends.withInput (whole.readsNothing_run hread) (lines.map .text)
  -- the line completes a program, of which the rest remains, or it is kept until more lines come
  rcases compile_until_newline hbuffer htokens with
    ⟨program, later, k, last', hcompile, rfl, hlater⟩ | ⟨error, hcompile, hincomplete⟩
  · rw [Program.tokens_append, Program.tokens_relocate] at hread
    obtain ⟨after, houtcome, hends'⟩ := hends.append
    have hwf₁ : (repl.context.withInput (lines.map .text)).scopes.WellFormed := hwf
    obtain ⟨hagrees, hwf₂, -⟩ := program.mirrors_run hwf₁
    rw [Run.toExec_apply, houtcome] at hagrees
    rw [houtcome] at hwf₂
    obtain ⟨values, hconsole⟩ := (program.readsNothing_run
      fun t ht => hread t (List.mem_append_left _ ht)).exists_printAll houtcome
    refine ⟨_, enter_of_ok hcompile hagrees, ⟨later, last', hlater, fun t ht => ?_,
      hends'.of_relocate⟩, .inl rfl, hwf₂, ?_, ?_⟩
    · exact hread (t.relocate (· + k)) (List.mem_append_right _ (List.mem_map_of_mem ht))
    · exact (congrArg Console.input hconsole).trans (by rw [Console.printAll_eq]; rfl)
    · exact shown_next values "" ((shown_ask repl).trans hshown) hconsole
  · refine ⟨_, enter_of_incomplete hcompile hincomplete, ⟨whole, last, ?_, hread, hends⟩,
      .inr fun node hnode => ?_, hwf, rfl, ?_⟩
    · simpa [next, ask] using htokens
    · cases hcompile.symm.trans hnode
    · exact shown_next [] _ ((shown_ask repl).trans hshown) rfl

/-! ## All rounds -/

theorem Remaining.loop {repl : Repl} {lines : List String}
    (hremaining : Remaining final repl lines) :
    ∃ last, Repl.loop lines.length repl = (last.ask, .endOfInput) ∧ Remaining final last [] := by
  induction lines generalizing repl with
  | nil => exact ⟨repl, rfl, hremaining⟩
  | cons line lines ih =>
      obtain ⟨repl', hround, hremaining'⟩ := hremaining.enter
      obtain ⟨last, hloop, hlast⟩ := ih hremaining'
      refine ⟨last, ?_, hlast⟩
      rw [List.length_cons, Repl.loop, hremaining.input]
      simp only [List.map_cons, hround]
      exact hloop

/-- When all lines were read, everything has been run. -/
theorem Remaining.finished {repl : Repl} (hremaining : Remaining final repl []) :
    repl.buffer = "" ∧
      repl.context.scopes.relocate (fun _ => 0) = final.scopes.relocate (fun _ => 0) ∧
      repl.context.console.printed = final.console.printed := by
  obtain ⟨⟨program, last, htokens, -, hends⟩, hwaits, -, -, -⟩ := hremaining
  rw [toList_fileOf_nil, List.append_nil] at htokens
  have hbuffer : repl.buffer = "" := hwaits.resolve_right fun hwaits =>
    hwaits _ (compile_eq_ok.mpr ⟨program, last, [], rfl, htokens⟩)
  rw [hbuffer, String.toList_empty, Lexer.tokensFrom_nil] at htokens
  have hdone : program.tokens = Program.done.tokens := by
    have happend : [] ++ [_] = program.tokens ++ [_] := Except.ok.inj htokens
    exact (List.append_inj' happend rfl).1.symm
  rw [Program.tokens_injective hdone] at hends
  obtain ⟨context', houtcome, hscopes, hprinted⟩ := hends
  obtain ⟨-, rfl⟩ := Prod.mk.inj houtcome
  exact ⟨hbuffer, hscopes, hprinted⟩

/-- Lines are entered one by one, and as a file they are a program that reads
nothing and runs to its end.  Then the loop shows what the file prints and no
report, nothing is left in its buffer, and its variables are those of the file,
except that they may remember other lines of declaration. -/
theorem interact_eq_run {lines : List String} {tokens : List Token} {input : List Line}
    {final : Context} (htokens : tokenize (fileOf lines) = .ok tokens)
    (hread : ∀ t ∈ tokens, t.kind ≠ .keyword .kwRead)
    (hrun : run (fileOf lines) input = .ok () final) :
    ∃ repl, interact (lines.map .text) = (repl, .endOfInput) ∧
      repl.shown = final.console.printed.toList.map .printed ∧ repl.buffer = "" ∧
      repl.context.scopes.relocate (fun _ => 0) = final.scopes.relocate (fun _ => 0) := by
  obtain ⟨program, last, htokens', houtcome⟩ := exists_program_of_run hrun
  cases htokens.symm.trans htokens'
  have hread' : ∀ t ∈ program.tokens, t.kind ≠ .keyword .kwRead := fun t ht =>
    hread t (List.mem_append_left _ ht)
  have hends : program.EndsLike final (.ofLines input) := ⟨final, houtcome, rfl, rfl⟩
  have hremaining : Remaining final (ofLines (lines.map .text)) lines :=
    { ends := ⟨program, last, htokens, hread',
        hends.withInput (program.readsNothing_run hread') (lines.map .text)⟩
      waits := .inl rfl
      wellFormed := Scopes.wellFormed_initial
      input := rfl
      shown := rfl }
  obtain ⟨repl, hloop, hlast⟩ := hremaining.loop
  obtain ⟨hbuffer, hscopes, hprinted⟩ := hlast.finished
  refine ⟨repl.ask, ?_, ?_, hbuffer, hscopes⟩
  · rw [interact, List.length_map]
    exact hloop
  · rw [shown_ask, hlast.shown, hprinted]

theorem interact_eq_run_loop :
    let lines := ["var i : int; for i in 1..2", "do print \"a", "b\"; end for;"]
    ∃ tokens final, tokenize (fileOf lines) = .ok tokens ∧
      (∀ t ∈ tokens, t.kind ≠ .keyword .kwRead) ∧ run (fileOf lines) [] = .ok () final ∧
      ∃ repl, interact (lines.map .text) = (repl, .endOfInput) ∧
        repl.shown = [.printed (.string "a\nb"), .printed (.string "a\nb")] ∧ repl.buffer = "" ∧
        repl.context.scopes.relocate (fun _ => 0) = final.scopes.relocate (fun _ => 0) := by
  intro lines
  let program : Program :=
    .next (.declaration 1 "i" 1 1 .int 1 none) 1
      (.next (.loop 1 "i" 1 1 (.single (.literal (.int 1) 1)) 1 (.single (.literal (.int 2) 1)) 2
        (.next (.printing 2 (.single (.literal (.string "a\nb") 2))) 3 .done) 3 3) 3 .done)
  have htokens : tokenize (fileOf lines) = .ok (program.tokens ++ [⟨.endMarker, 4⟩]) := by cbv
  have hread : ∀ t ∈ program.tokens ++ [⟨.endMarker, 4⟩], t.kind ≠ .keyword .kwRead := by decide
  have hrun : run (fileOf lines) [] = .ok () ⟨[[("i", ⟨"i", 1, .int, some (.int 3)⟩)]],
      ⟨[], #[.string "a\nb", .string "a\nb"], 0⟩⟩ :=
    (runIn_eq_run htokens Scopes.wellFormed_initial).trans (by cbv)
  exact ⟨_, _, htokens, hread, hrun, interact_eq_run htokens hread hrun⟩

end Repl

end Primer
