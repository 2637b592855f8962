import Primer.Proofs.Semantics.Operations
import Primer.Proofs.Semantics.Refinement

/-!
# Lines of input

A program takes its lines from the front of the queue, one for each attempt to
read, and it cannot see how many more there are.  Only the attempt after the last
line tells: it fails, and with it the program.  So with more lines at the end of
the queue, a program that did not get that far does the same again, and one that
did prints at least what it had printed by then.

A program that goes on with more lines may print anything, but it never takes back
what it printed.  This is what makes the second part hold of sequences.

## Main results

* `Exec.consuming_execute` : how executing a tree uses its input.
* `run_consumes` : the same for programs, from their first line on.
-/

namespace Primer

open Stateful

/-! ## Consoles -/

namespace Console

/-- The console with more lines to read, after those that it holds. -/
def feed (console : Console) (extra : List Line) : Console :=
  { console with input := console.input ++ extra }

/-- From one console to the other, lines were read off the queue and values were
printed, and no attempt to read failed. -/
def Advances (console console' : Console) : Prop :=
  ∃ (taken : List Line) (values : List Value), console.input = taken ++ console'.input ∧
    console'.printed.toList = console.printed.toList ++ values ∧
    console'.reads = console.reads + taken.length

namespace Advances

variable {console console' console'' : Console}

theorem refl (console : Console) : console.Advances console := ⟨[], [], by simp⟩

theorem trans (hfirst : console.Advances console') (hsecond : console'.Advances console'') :
    console.Advances console'' := by
  obtain ⟨taken, values, hinput, hprinted, hreads⟩ := hfirst
  obtain ⟨taken', values', hinput', hprinted', hreads'⟩ := hsecond
  refine ⟨taken ++ taken', values ++ values', ?_, ?_, ?_⟩
  · rw [hinput, hinput', List.append_assoc]
  · rw [hprinted', hprinted, List.append_assoc]
  · rw [hreads', hreads, List.length_append, Nat.add_assoc]

theorem print (console : Console) (value : Value) : console.Advances (console.print value) :=
  ⟨[], [value], by simp [Console.print]⟩

theorem keeps_printed (hadvances : console.Advances console') :
    console.printed.toList <+: console'.printed.toList := by
  obtain ⟨_, values, -, hprinted, -⟩ := hadvances
  exact ⟨values, hprinted.symm⟩

/-- The attempts count the lines taken. -/
theorem input_eq_drop {input : List Line} (hadvances : (ofLines input).Advances console) :
    console.input = input.drop console.reads ∧ console.reads ≤ input.length := by
  obtain ⟨taken, values, hinput, -, hreads⟩ := hadvances
  have hsplit : input = taken ++ console.input := hinput
  have hcount : console.reads = taken.length := hreads.trans (Nat.zero_add _)
  rw [hcount, hsplit, List.drop_left, List.length_append]
  exact ⟨rfl, Nat.le_add_right _ _⟩

end Advances

theorem read?_of_cons {console : Console} {line : Line} {lines : List Line}
    (hinput : console.input = line :: lines) :
    console.read? = (some line, ⟨lines, console.printed, console.reads + 1⟩) := by
  rw [read?, hinput]

theorem read?_of_nil {console : Console} (hinput : console.input = []) :
    console.read? = (none, ⟨[], console.printed, console.reads + 1⟩) := by
  rw [read?, hinput]

end Console

/-! ## Contexts -/

/-- The context with more lines to read, after those that it holds. -/
def Context.feed (context : Context) (extra : List Line) : Context :=
  { context with console := context.console.feed extra }

/-- The context in which the body of a frame starts. -/
def Context.entered (context : Context) : Context :=
  { context with scopes := context.scopes.push }

namespace Exec

variable {α β : Type}

/-! ## Results -/

/-- The same result, with more lines left to read. -/
def feedResult (extra : List Line) :
    EStateM.Result Failure Context α → EStateM.Result Failure Context α
  | .ok a context => .ok a (context.feed extra)
  | .error failure context => .error failure (context.feed extra)

/-- Whether a computation ended because there was no line left to read. -/
def RanDry : EStateM.Result Failure Context α → Prop
  | .ok _ _ => False
  | .error failure _ => failure.IsExhausted

/-! ## Computations -/

/-- How a computation uses the input of the context in which it starts.  Frames are
counted because a frame that cannot be dropped would hide why its body failed. -/
inductive Consumes (m : Exec α) (context : Context) : Prop
  | done (a : α) (after : Context) (hresult : m context = .ok a after)
      (hdepth : after.depth = context.depth) (hadvances : context.console.Advances after.console)
      (hfed : ∀ extra, m (context.feed extra) = .ok a (after.feed extra))
  | failed (failure : Failure) (after : Context) (hresult : m context = .error failure after)
      (hother : ¬failure.IsExhausted)
      (hdepth : ∀ error, failure = .error error → after.depth = context.depth)
      (hadvances : context.console.Advances after.console)
      (hfed : ∀ extra, m (context.feed extra) = .error failure (after.feed extra))
  /-- The console `last` is the one before the attempt that failed. -/
  | ranDry (line : Nat) (last : Console) (after : Context)
      (hresult : m context = .error (.error (.inputExhausted line)) after)
      (hdepth : after.depth = context.depth) (hadvances : context.console.Advances last)
      (hlast : last.input = []) (hafter : after.console = last.read?.2)
      (hfed : ∀ extra,
        last.printed.toList <+: (ending (m (context.feed extra))).console.printed.toList)

/-- The computation uses its input in order, wherever something can be declared. -/
def Consuming (m : Exec α) : Prop := ∀ context : Context, context.scopes ≠ [] → Consumes m context

/-- What was printed stays printed. -/
theorem Consumes.keeps_printed {m : Exec α} {context : Context} (hm : Consumes m context) :
    context.console.printed.toList <+: (ending (m context)).console.printed.toList := by
  cases hm with
  | done a after hresult hdepth hadvances hfed =>
      rw [hresult]
      exact hadvances.keeps_printed
  | failed failure after hresult hother hdepth hadvances hfed =>
      rw [hresult]
      exact hadvances.keeps_printed
  | ranDry line last after hresult hdepth hadvances hlast hafter hfed =>
      rw [hresult, ending, hafter, Console.read?_of_nil hlast]
      exact hadvances.keeps_printed

theorem Consumes.depth_of_ok {m : Exec α} {context after : Context} {a : α}
    (hm : Consumes m context) (hresult : m context = .ok a after) :
    after.depth = context.depth := by
  cases hm with
  | done a' after' hresult' hdepth hadvances hfed =>
      cases hresult.symm.trans hresult'
      exact hdepth
  | failed failure after' hresult' hother hdepth hadvances hfed =>
      cases hresult.symm.trans hresult'
  | ranDry line last after' hresult' hdepth hadvances hlast hafter hfed =>
      cases hresult.symm.trans hresult'

/-! ## Operations on scopes -/

section

variable {m : Exec α} {context : Context}

theorem Consumes.of_ok (a : α) (scopes : Scopes) (hdepth : scopes.length = context.depth)
    (hm : ∀ console, m ⟨context.scopes, console⟩ = .ok a ⟨scopes, console⟩) : Consumes m context :=
  .done a ⟨scopes, context.console⟩ (hm _) hdepth (.refl _) fun _ => hm _

theorem Consumes.of_error (failure : Failure) (hother : ¬failure.IsExhausted)
    (hm : ∀ console, m ⟨context.scopes, console⟩ = .error failure ⟨context.scopes, console⟩) :
    Consumes m context :=
  .failed failure context (hm _) hother (fun _ _ => rfl) (.refl _) fun _ => hm _

end

theorem scopes_ne_nil {context context' : Context} (hscopes : context.scopes ≠ [])
    (hdepth : context'.depth = context.depth) : context'.scopes ≠ [] := by
  rw [← List.length_pos_iff] at hscopes ⊢
  rwa [← Context.depth, hdepth]

/-! ## Frames -/

section

variable {body : Exec Unit} {context inner : Context} {failure : Failure}

/-- Only errors of the program are passed on by dropping the frame. -/
theorem inNewFrame_of_failure
    (hbody : (pushFrame >>= fun _ => body) context = .error failure inner)
    (hfailure : ∀ error, failure ≠ .error error) :
    inNewFrame body context = .error failure inner := by
  rw [inNewFrame, hbody]
  cases failure with
  | error error => exact absurd rfl (hfailure error)
  | misuse => rfl
  | endless => rfl

theorem console_popFrame (context : Context) :
    (ending (popFrame context)).console = context.console := by
  rw [popFrame]
  cases context.scopes.pop? <;> rfl

/-- However the frame is left, printing and reading are those of its body. -/
theorem console_inNewFrame (body : Exec Unit) (context : Context) :
    (ending (inNewFrame body context)).console = (ending (body context.entered)).console := by
  have hinside : (pushFrame >>= fun _ => body) context = body context.entered := rfl
  rw [inNewFrame, hinside]
  rcases body context.entered with ⟨_, inner⟩ | ⟨error | _ | _, inner⟩
  · exact console_popFrame inner
  · have hpop := console_popFrame inner
    simp only
    cases hresult : popFrame inner with
    | ok _ outer => rwa [hresult] at hpop
    | error failure outer => rwa [hresult] at hpop
  · rfl
  · rfl

/-- A body that keeps the depth leaves a frame to drop and one below it. -/
theorem exists_popFrame (hscopes : context.scopes ≠ [])
    (hdepth : inner.depth = context.entered.depth) :
    ∃ scopes : Scopes, scopes.length = context.depth ∧
      ∀ console : Console, popFrame ⟨inner.scopes, console⟩ = .ok () ⟨scopes, console⟩ := by
  obtain ⟨_ | ⟨frame, _ | ⟨frame', frames⟩⟩, console⟩ := inner
  · cases hdepth
  · exact absurd (List.length_eq_zero_iff.mp (Nat.succ_inj.mp hdepth).symm) hscopes
  · exact ⟨frame' :: frames, Nat.succ_inj.mp hdepth, fun _ => rfl⟩

end

namespace Consuming

theorem pure (a : α) : Consuming (Pure.pure a) := fun context _ =>
  .of_ok a context.scopes rfl fun _ => rfl

theorem raise {failure : Failure} (hother : ¬failure.IsExhausted) :
    Consuming (throw failure : Exec α) := fun _ _ => .of_error failure hother fun _ => rfl

theorem declare (v : Variable) : Consuming (declare v) := by
  rintro ⟨_ | ⟨frame, frames⟩, console⟩ hscopes
  · exact absurd rfl hscopes
  · cases hget : frame.get? v.name with
    | none =>
        refine .of_ok () (frame.bind v :: frames) rfl fun console' => ?_
        simp only [Exec.declare, Scopes.declare, hget]
    | some previous =>
        refine .of_error (.error (.alreadyDefined v.line v.name previous.line)) not_false
          fun console' => ?_
        simp only [Exec.declare, Scopes.declare, hget]

theorem lookup (name : String) (line : Nat) : Consuming (lookup name line) := by
  intro context _
  cases hresolve : context.scopes.resolve? name with
  | some v =>
      refine .of_ok v context.scopes rfl fun console => ?_
      simp only [Exec.lookup, hresolve]
  | none =>
      refine .of_error (.error (.undefinedVariable line name)) not_false fun console => ?_
      simp only [Exec.lookup, hresolve]

theorem update (v : Variable) (line : Nat) : Consuming (update v line) := by
  intro context _
  cases hupdate : context.scopes.update? v with
  | some scopes =>
      refine .of_ok () scopes (Scopes.length_update? hupdate) fun console => ?_
      simp only [Exec.update, hupdate]
  | none =>
      refine .of_error (.error (.undefinedVariable line v.name)) not_false fun console => ?_
      simp only [Exec.update, hupdate]

/-! ## Printing and reading -/

theorem print (value : Value) : Consuming (print value) := fun context _ =>
  .done () _ rfl rfl (.print context.console value) fun _ => rfl

theorem printed_readLine (line : Nat) (context : Context) :
    (ending (Exec.readLine line context)).console.printed = context.console.printed := by
  obtain ⟨scopes, ⟨_ | ⟨_ | _, lines⟩, printed, reads⟩⟩ := context <;> rfl

theorem readLine (line : Nat) : Consuming (readLine line) := by
  rintro ⟨scopes, console⟩ _
  -- only without a line left does more input change the outcome
  cases hinput : console.input with
  | nil =>
      refine .ranDry line console ⟨scopes, console.read?.2⟩ ?_ rfl (.refl _) hinput rfl
        fun extra => ?_
      · rw [Exec.readLine, Console.inputOutput_read?, Console.read?_of_nil hinput]
      · rw [printed_readLine]
        exact List.prefix_rfl
  | cons first lines =>
      let console' : Console := ⟨lines, console.printed, console.reads + 1⟩
      have hadvances : console.Advances console' :=
        ⟨[first], [], hinput, (List.append_nil _).symm, rfl⟩
      have hread : console.read? = (some first, console') := Console.read?_of_cons hinput
      have hfed (extra : List Line) : (console.feed extra).read? =
          (some first, console'.feed extra) :=
        Console.read?_of_cons (congrArg (· ++ extra) hinput)
      cases first with
      | text content =>
          refine .done content ⟨scopes, console'⟩ ?_ rfl hadvances fun extra => ?_
          · rw [Exec.readLine, Console.inputOutput_read?, hread]
          · rw [Exec.readLine, Console.inputOutput_read?, Context.feed, hfed]
            rfl
      | undecodable =>
          refine .failed (.error .undecodableInput) ⟨scopes, console'⟩ ?_ not_false
            (fun _ _ => rfl) hadvances fun extra => ?_
          · rw [Exec.readLine, Console.inputOutput_read?, hread]
          · rw [Exec.readLine, Console.inputOutput_read?, Context.feed, hfed]
            rfl

/-! ## Sequences and frames -/

theorem bind {m : Exec α} {f : α → Exec β} (hm : Consuming m) (hf : ∀ a, Consuming (f a)) :
    Consuming (m >>= f) := by
  intro context hscopes
  cases hm context hscopes with
  | done a middle hresult hdepth hadvances hfed =>
      have hsequence : (m >>= f) context = f a middle := bind_of_ok hresult f
      have hsequenceFed : ∀ extra, (m >>= f) (context.feed extra) = f a (middle.feed extra) :=
        fun extra => bind_of_ok (hfed extra) f
      cases hf a middle (scopes_ne_nil hscopes hdepth) with
      | done b after hresult' hdepth' hadvances' hfed' =>
          exact .done b after (hsequence.trans hresult') (hdepth'.trans hdepth)
            (hadvances.trans hadvances') fun extra => (hsequenceFed extra).trans (hfed' extra)
      | failed failure after hresult' hother hdepth' hadvances' hfed' =>
          exact .failed failure after (hsequence.trans hresult') hother
            (fun error herror => (hdepth' error herror).trans hdepth) (hadvances.trans hadvances')
            fun extra => (hsequenceFed extra).trans (hfed' extra)
      | ranDry line last after hresult' hdepth' hadvances' hlast hafter hfed' =>
          refine .ranDry line last after (hsequence.trans hresult') (hdepth'.trans hdepth)
            (hadvances.trans hadvances') hlast hafter fun extra => ?_
          rw [hsequenceFed]
          exact hfed' extra
  | failed failure after hresult hother hdepth hadvances hfed =>
      exact .failed failure after (bind_of_error hresult f) hother hdepth hadvances
        fun extra => bind_of_error (hfed extra) f
  | ranDry line last after hresult hdepth hadvances hlast hafter hfed =>
      refine .ranDry line last after (bind_of_error hresult f) hdepth hadvances hlast hafter
        fun extra => (hfed extra).trans ?_
      -- with more lines, `m` may end well, and then `f` goes on from there
      have hmore : (context.feed extra).scopes ≠ [] := hscopes
      cases hresult' : m (context.feed extra) with
      | ok a middle =>
          have hmiddle := scopes_ne_nil hmore ((hm _ hmore).depth_of_ok hresult')
          rw [bind_of_ok hresult']
          exact (hf a middle hmiddle).keeps_printed
      | error failure middle =>
          rw [bind_of_error hresult']
          exact List.prefix_rfl

theorem inNewFrame {body : Exec Unit} (hbody : Consuming body) : Consuming (inNewFrame body) := by
  intro context hscopes
  have hentered (c : Context) : (pushFrame >>= fun _ => body) c = body c.entered := rfl
  cases hbody context.entered (List.cons_ne_nil [] context.scopes) with
  | done _ inner hresult hdepth hadvances hfed =>
      obtain ⟨scopes, hlength, hpop⟩ := exists_popFrame hscopes hdepth
      refine .done () ⟨scopes, inner.console⟩ ?_ hlength hadvances fun extra => ?_
      · exact (inNewFrame_of_ok ((hentered context).trans hresult)).trans (hpop _)
      · exact (inNewFrame_of_ok ((hentered (context.feed extra)).trans (hfed extra))).trans (hpop _)
  | failed failure inner hresult hother hdepth hadvances hfed =>
      -- the frame is removed after an error, and left standing after a failure of another kind
      by_cases hfailure : ∃ error, failure = .error error
      · obtain ⟨error, rfl⟩ := hfailure
        obtain ⟨scopes, hlength, hpop⟩ := exists_popFrame hscopes (hdepth error rfl)
        refine .failed (.error error) ⟨scopes, inner.console⟩ ?_ hother (fun _ _ => hlength)
          hadvances fun extra => ?_
        · exact inNewFrame_of_error ((hentered context).trans hresult) (hpop _)
        · exact inNewFrame_of_error ((hentered (context.feed extra)).trans (hfed extra)) (hpop _)
      · have hnone := not_exists.mp hfailure
        refine .failed failure inner ?_ hother (fun error herror => absurd herror (hnone error))
          hadvances fun extra => ?_
        · exact inNewFrame_of_failure ((hentered context).trans hresult) hnone
        · exact inNewFrame_of_failure ((hentered (context.feed extra)).trans (hfed extra)) hnone
  | ranDry line last inner hresult hdepth hadvances hlast hafter hfed =>
      obtain ⟨scopes, hlength, hpop⟩ := exists_popFrame hscopes hdepth
      refine .ranDry line last ⟨scopes, inner.console⟩ ?_ hlength hadvances hlast hafter
        fun extra => ?_
      · exact inNewFrame_of_error ((hentered context).trans hresult) (hpop _)
      · -- closing the frame leaves the console alone, whatever the longer run makes of its input
        rw [console_inNewFrame]
        exact hfed extra

theorem compositional : Compositional (V := Console) (W := Console) fun m _ => Consuming m where
  pure := pure
  raise := raise
  bind := bind
  declare := declare
  lookup := lookup
  update := update
  inNewFrame := inNewFrame
  print := print
  readLine := readLine

end Consuming

/-- Wherever something can be declared, executing a tree uses its input in order. -/
theorem consuming_execute (node : Node) : Consuming (execute node) :=
  Consuming.compositional.execute node

end Exec

/-! ## Programs -/

open Exec in
/-- A program takes its input line by line and each line once.  It needs one more
line than there are if and only if it fails for lack of input.  More lines behind
those that it is given are seen only by a program that fails so, and then what it
had printed is printed first. -/
theorem run_consumes {source : String} {node : Node} (hcompile : compile source = .ok node)
    (input : List Line) :
    (ending (run source input)).console.input =
        input.drop (ending (run source input)).console.reads ∧
      (ending (run source input)).console.reads ≤ input.length + 1 ∧
      ((ending (run source input)).console.reads = input.length + 1 ↔
        RanDry (run source input)) ∧
      ∀ extra,
        (¬RanDry (run source input) →
          run source (input ++ extra) = feedResult extra (run source input)) ∧
        (RanDry (run source input) →
          (ending (run source input)).console.printed.toList <+:
            (ending (run source (input ++ extra))).console.printed.toList) := by
  have hrun (lines : List Line) : run source lines = execute node (.ofLines lines) := by
    rw [run, runIn, hcompile]
  have hfeed (extra : List Line) :
      run source (input ++ extra) = execute node ((Context.ofLines input).feed extra) := hrun _
  simp only [hfeed, hrun input]
  have hinitial : (Context.ofLines input).scopes ≠ [] := Scopes.wellFormed_initial.1
  cases consuming_execute node _ hinitial with
  | done _ after hresult hdepth hadvances hfed =>
      obtain ⟨hinput, hreads⟩ := hadvances.input_eq_drop
      rw [hresult]
      refine ⟨hinput, Nat.le_succ_of_le hreads, iff_of_false (Nat.ne_of_lt ?_) not_false, ?_⟩
      · exact Nat.lt_succ_of_le hreads
      · exact fun extra => ⟨fun _ => hfed extra, False.elim⟩
  | failed failure after hresult hother hdepth hadvances hfed =>
      obtain ⟨hinput, hreads⟩ := hadvances.input_eq_drop
      rw [hresult]
      refine ⟨hinput, Nat.le_succ_of_le hreads, iff_of_false (Nat.ne_of_lt ?_) hother, ?_⟩
      · exact Nat.lt_succ_of_le hreads
      · exact fun extra => ⟨fun _ => hfed extra, fun hdry => absurd hdry hother⟩
  | ranDry line last after hresult hdepth hadvances hlast hafter hfed =>
      obtain ⟨hinput, hreads⟩ := hadvances.input_eq_drop
      have hall : input.length ≤ last.reads := List.drop_eq_nil_iff.mp (hinput.symm.trans hlast)
      rw [Console.read?_of_nil hlast] at hafter
      rw [hresult]
      simp only [ending, hafter, RanDry, Failure.IsExhausted]
      -- the request that found no line is the one beyond the length of the input
      have hneeded : last.reads = input.length := by omega
      rw [hneeded]
      refine ⟨(List.drop_eq_nil_of_le (Nat.le_succ _)).symm, le_rfl, iff_of_true rfl trivial, ?_⟩
      exact fun extra => ⟨fun hnot => absurd trivial hnot, fun _ => hfed extra⟩

open Exec in
/-- The second run of the body finds no line unless there is a third one. -/
theorem run_consumes_loop :
    let source := "var i:int;read i;for i in 1..i do read i;print i;end for;"
    ∃ node, compile source = .ok node ∧
      (ending (run source [.text "2", .text "5"])).console.printed.toList = [.int 5] ∧
      (ending (run source [.text "2", .text "5"])).console.printed.toList <+:
        (ending (run source [.text "2", .text "5", .text "6"])).console.printed.toList := by
  intro source
  let program : Program := .next (.declaration 1 "i" 1 1 .int 1 none) 1
    (.next (.reading 1 "i" 1) 1
      (.next (.loop 1 "i" 1 1 (.single (.literal (.int 1) 1)) 1 (.single (.name "i" 1)) 1
        (.next (.reading 1 "i" 1) 1 (.next (.printing 1 (.single (.name "i" 1))) 1 .done)) 1 1) 1
          .done))
  have htokens : tokenize source = .ok (program.tokens ++ [⟨.endMarker, 1⟩]) := by cbv
  have hcompile : compile source = .ok program.tree := compile_eq_ok.mpr ⟨_, _, _, rfl, htokens⟩
  have hrun : run source [.text "2", .text "5"] = .error (.error (.inputExhausted 1))
      ⟨[[("i", ⟨"i", 1, .int, some (.int 2)⟩)]], ⟨[], #[.int 5], 3⟩⟩ :=
    (runIn_eq_run htokens Scopes.wellFormed_initial).trans (by cbv)
  have hdry : RanDry (run source [.text "2", .text "5"]) := by
    rw [hrun]
    trivial
  obtain ⟨-, -, -, hmore⟩ := run_consumes hcompile [.text "2", .text "5"]
  exact ⟨_, hcompile, by rw [hrun, ending], (hmore [.text "6"]).2 hdry⟩

end Primer
