import Primer.Proofs.Grammar.Lines
import Primer.Proofs.Semantics.Discipline
import Primer.Proofs.Semantics.Faults
import Primer.Proofs.Semantics.Lines

/-!
# Where lines come from

The lines in the outcome of a run are lines of the program that is run, or lines
that variables had before it.  To tell which, the program is run with its lines
marked by odd numbers, in the context with its lines marked by even ones: since
lines do not matter to a run, taking the marks off gives back the outcome, and
it gives the outcome of the program moved down by some lines if these are added
to the odd ones.

## Main results

* `Program.grows_run` : the variables that a run adds are on lines of the program.
* `Program.movesDown_run` : what moving a program down does to its outcome.
-/

namespace Primer

/-! ## New variables -/

/-- A frame keeps what it binds, and what else it binds then is on the lines. -/
structure Frame.Grows (lines : List Nat) (frame frame' : Frame) : Prop where
  keeps : frame.Keeps frame'
  added : ∀ name v, frame'.get? name = some v → frame.get? name = none → v.line ∈ lines

namespace Frame

variable {lines : List Nat} {frame frame' frame'' : Frame}

theorem Evolves.grows (hevolves : frame.Evolves frame') : frame.Grows lines frame' := by
  refine ⟨hevolves.keeps, fun name v hget' hget => ?_⟩
  have hnone := hevolves.get? name
  rw [hget] at hnone
  cases hnone.symm.trans hget'

theorem Grows.trans (hfirst : frame.Grows lines frame') (hsecond : frame'.Grows lines frame'') :
    frame.Grows lines frame'' := by
  refine ⟨fun name v hget => ?_, fun name v hget'' hget => ?_⟩
  · obtain ⟨v', hget', hv⟩ := hfirst.keeps name v hget
    obtain ⟨v'', hget'', hv'⟩ := hsecond.keeps name v' hget'
    exact ⟨v'', hget'', hv.trans hv'⟩
  · cases hget' : frame'.get? name with
    | none => exact hsecond.added name v hget'' hget'
    | some v' =>
        -- a variable that the first run added is still on its line
        obtain ⟨_, hfound, hv⟩ := hsecond.keeps name v' hget'
        obtain rfl := Option.some.inj (hfound.symm.trans hget'')
        rw [hv.line]
        exact hfirst.added name v' hget' hget

theorem grows_bind {v : Variable} (hget : frame.get? v.name = none) (hline : v.line ∈ lines) :
    frame.Grows lines (frame.bind v) := by
  refine ⟨fun name w hw => ?_, fun name w hw' hw => ?_⟩
  all_goals simp only [Frame.get?, bind, List.lookup_cons] at *
  · cases hname : name == v.name with
    | true =>
        rw [beq_iff_eq.mp hname, hget] at hw
        cases hw
    | false => exact ⟨w, hw, .refl w⟩
  · cases hname : name == v.name with
    | true =>
        rw [hname] at hw'
        cases hw'
        exact hline
    | false =>
        rw [hname, hw] at hw'
        cases hw'

end Frame

/-- Every frame grows. -/
def Scopes.Grows (lines : List Nat) : Scopes → Scopes → Prop :=
  List.Forall₂ (Frame.Grows lines)

namespace Scopes

variable {lines : List Nat} {scopes scopes' scopes'' : Scopes}

theorem Evolves.grows (hevolves : Evolves [] scopes scopes') : scopes.Grows lines scopes' :=
  hevolves.forall₂.imp fun _ _ => Frame.Evolves.grows

theorem Grows.refl (scopes : Scopes) : scopes.Grows lines scopes :=
  List.forall₂_same.mpr fun frame _ => (Frame.Evolves.refl frame).grows

theorem Grows.trans (hfirst : scopes.Grows lines scopes') (hsecond : scopes'.Grows lines scopes'') :
    scopes.Grows lines scopes'' :=
  forall₂_trans (fun hframe hframe' => hframe.trans hframe') hfirst hsecond

end Scopes

theorem Run.grows_declare (v : Variable) {lines : List Nat} (hline : v.line ∈ lines)
    (context : Context) :
    context.scopes.Grows lines ((Run.declare v).outcome context).2.scopes := by
  rw [outcome_declare]
  obtain ⟨_ | ⟨frame, frames⟩, console⟩ := context
  · exact .refl _
  · cases hget : frame.get? v.name with
    | some previous => simpa [hget] using Scopes.Grows.refl (frame :: frames)
    | none =>
        simp only [hget]
        exact .cons (Frame.grows_bind hget hline) (Scopes.Grows.refl frames)

theorem Statement.grows_run (statement : Statement) {lines : List Nat}
    (hlines : ∀ t ∈ statement.tokens, t.line ∈ lines) {context : Context}
    (hwf : context.scopes.WellFormed) :
    context.scopes.Grows lines (statement.run.outcome context).2.scopes := by
  -- what declares nothing adds no binding; of the others there is only the declaration
  cases hdeclared : statement.declared with
  | nil => exact (hdeclared ▸ (statement.mirrors_run hwf).evolves).grows
  | cons =>
      cases statement with
      | declaration line name nameLine colonLine ty tyLine initializer? =>
          have hline : line ∈ lines := by
            refine hlines ⟨.keyword .kwVar, line⟩ ?_
            simp
          rcases initializer? with _ | ⟨assignLine, source⟩
          · exact Run.grows_declare ⟨name, line, ty, none⟩ hline context
          · rw [Statement.run, Run.outcome_bind, Run.outcome_ofScopes]
            cases source.valueOfType context.scopes ty line with
            | error error => exact .refl _
            | ok value => exact Run.grows_declare ⟨name, line, ty, some value⟩ hline context
      | _ => cases hdeclared

/-- The variables that a run adds are on lines of the program. -/
theorem Program.grows_run (program : Program) {lines : List Nat}
    (hlines : ∀ t ∈ program.tokens, t.line ∈ lines) {context : Context}
    (hwf : context.scopes.WellFormed) :
    context.scopes.Grows lines (program.run.outcome context).2.scopes := by
  cases program with
  | done => exact .refl _
  | next statement semicolonLine rest =>
      simp only [tokens_next, List.mem_append, List.mem_cons] at hlines
      have hstatement := statement.grows_run (fun t ht => hlines t (.inl ht)) hwf
      have hwf' := (statement.mirrors_run hwf).wellFormed
      rw [Program.run]
      rcases houtcome : statement.run.outcome context with ⟨error | _, context'⟩
      all_goals rw [houtcome] at hstatement hwf'
      · rwa [Run.outcome_bind_of_error houtcome]
      · rw [Run.outcome_bind_of_ok houtcome]
        exact hstatement.trans (rest.grows_run (fun t ht => hlines t (.inr (.inr ht))) hwf')

/-! ## Marks -/

/-- The mark of a line of the program that is run. -/
def ownLine (line : Nat) : Nat := 2 * line + 1

/-- The mark of a line that a variable had before the run. -/
def olderLine (line : Nat) : Nat := 2 * line

/-- The line that a mark stands for, if the program is moved down by `k` lines. -/
def unmark (k mark : Nat) : Nat := if mark % 2 = 1 then mark / 2 + k else mark / 2

theorem unmark_comp_ownLine (k : Nat) : unmark k ∘ ownLine = (· + k) := by
  funext line
  rw [Function.comp_apply, unmark, ownLine, if_pos (by omega)]
  omega

theorem unmark_comp_olderLine (k : Nat) : unmark k ∘ olderLine = id := by
  funext line
  rw [Function.comp_apply, unmark, olderLine, if_neg (by omega), id]
  omega

theorem unmark_of_own {mark : Nat} (hown : mark % 2 = 1) (k : Nat) :
    unmark k mark = unmark 0 mark + k := by
  simp [unmark, hown]

theorem unmark_of_older {mark : Nat} (holder : mark % 2 = 0) (k : Nat) :
    unmark k mark = unmark 0 mark := by
  simp [unmark, holder]

/-- What a program does in a context if its lines are odd numbers and those of
the variables in the context even ones. -/
def Program.markedResult (program : Program) (context : Context) :
    EStateM.Result Failure Context Unit :=
  (program.relocate ownLine).run.toExec (context.relocate olderLine)

/-- Moved down by some lines, a program does what its marked result says. -/
theorem Program.toExec_relocate_add (program : Program) (k : Nat) (context : Context) :
    (program.relocate (· + k)).run.toExec context =
      Exec.relocateResult (unmark k) (program.markedResult context) := by
  have hprogram : (program.relocate ownLine).relocate (unmark k) = program.relocate (· + k) := by
    rw [relocate_relocate, unmark_comp_ownLine]
  have hcontext : (context.relocate olderLine).relocate (unmark k) = context := by
    rw [Context.relocate_relocate, unmark_comp_olderLine, Context.relocate_id]
  have hrun := (program.relocate ownLine).relocates_run (f := unmark k)
    (context.relocate olderLine)
  rw [hprogram, hcontext] at hrun
  rw [Run.toExec_apply, hrun, markedResult, Run.toExec_apply]
  rcases (program.relocate ownLine).run.outcome (context.relocate olderLine) with ⟨error | _, after⟩
  · rfl
  · rfl

theorem Program.toExec_run (program : Program) (context : Context) :
    program.run.toExec context =
      Exec.relocateResult (unmark 0) (program.markedResult context) := by
  have hstays : program.relocate (· + 0) = program := program.relocate_id
  rw [← program.toExec_relocate_add, hstays]

/-! ## Moving a program down -/

/-- The later frame with what the earlier one did not bind `k` lines further down. -/
def Frame.moveAdded (k : Nat) (before after : Frame) : Frame :=
  after.map fun (name, v) =>
    (name, if (before.get? name).isSome then v else v.relocate (· + k))

/-- The later context with everything that was added to the earlier one `k` lines further down. -/
def Context.moveAdded (k : Nat) (before after : Context) : Context :=
  { after with scopes := List.zipWith (Frame.moveAdded k) before.scopes after.scopes }

/-- The second error is that of a program moved down by `k` lines.  It may be
about a variable that was there before, which did not move. -/
inductive Error.MovesDown (k : Nat) : Error → Error → Prop
  | own (error : Error) : MovesDown k error (error.relocate (· + k))
  | older (line : Nat) (name : String) (previousLine : Nat) :
      MovesDown k (.alreadyDefined line name previousLine)
        (.alreadyDefined (line + k) name previousLine)

/-- The second result is that of a program moved down by `k` lines, from the same
context. -/
inductive Exec.MovesDown (k : Nat) (before : Context) :
    EStateM.Result Failure Context Unit → EStateM.Result Failure Context Unit → Prop
  | ok (after : Context) : MovesDown k before (.ok () after) (.ok () (before.moveAdded k after))
  | error {error error' : Error} (herror : error.MovesDown k error') (after : Context) :
      MovesDown k before (.error (.error error) after)
        (.error (.error error') (before.moveAdded k after))

section Displacement

variable {lines : List Nat} {f : Nat → Nat}

theorem Frame.wellFormed_relocate {frame : Frame} (hwf : frame.WellFormed) :
    (frame.relocate f).WellFormed := by
  refine ⟨?_, fun binding hmem => ?_⟩
  · have hnames : (frame.relocate f).map Prod.fst = frame.map Prod.fst := by
      rw [relocate, List.map_map]
      rfl
    rw [hnames]
    exact hwf.1
  · obtain ⟨original, horiginal, rfl⟩ := List.mem_map.mp hmem
    exact hwf.2 original horiginal

theorem Scopes.wellFormed_relocate {scopes : Scopes} (hwf : scopes.WellFormed) :
    (scopes.relocate f).WellFormed := by
  refine ⟨by simpa [relocate] using hwf.1, fun frame hmem => ?_⟩
  obtain ⟨original, horiginal, rfl⟩ := List.mem_map.mp hmem
  exact Frame.wellFormed_relocate (hwf.2 original horiginal)

/-- A variable that was there before is on an even line, any other on an odd one. -/
theorem Frame.relocate_unmark {before after : Frame} (hown : ∀ line ∈ lines, line % 2 = 1)
    (hwf : after.WellFormed) (hgrows : (before.relocate olderLine).Grows lines after) (k : Nat) :
    after.relocate (unmark k) = before.moveAdded k (after.relocate (unmark 0)) := by
  simp only [moveAdded, relocate, List.map_map]
  refine List.map_congr_left fun binding hmem => ?_
  obtain ⟨name, v⟩ := binding
  have hget := hwf.get?_of_mem hmem
  have hrelocate := before.get?_relocate (f := olderLine) name
  -- a binding is new and has a line of the run, or it evolved from an older one and keeps its line
  cases hbefore : before.get? name with
  | none =>
      rw [hbefore] at hrelocate
      have hline := hown _ (hgrows.added name v hget hrelocate)
      simp [hbefore, Variable.relocate, unmark_of_own hline k]
  | some w =>
      rw [hbefore] at hrelocate
      obtain ⟨_, hfound, hevolves⟩ := hgrows.keeps name _ hrelocate
      obtain rfl := Option.some.inj (hfound.symm.trans hget)
      have hline := hevolves.line
      simp only [Variable.relocate, olderLine] at hline
      have holder : unmark k (2 * w.line) = unmark 0 (2 * w.line) := unmark_of_older (by omega) k
      simp [hbefore, Variable.relocate, hline, holder]

theorem Context.relocate_unmark {before after : Context} (hown : ∀ line ∈ lines, line % 2 = 1)
    (hwf : after.scopes.WellFormed)
    (hgrows : (before.relocate olderLine).scopes.Grows lines after.scopes) (k : Nat) :
    after.relocate (unmark k) = before.moveAdded k (after.relocate (unmark 0)) := by
  obtain ⟨beforeScopes, beforeConsole⟩ := before
  obtain ⟨scopes, console⟩ := after
  have hframes : List.Forall₂ (fun old frame => (Frame.relocate olderLine old).Grows lines frame)
      beforeScopes scopes := List.forall₂_map_left_iff.mp hgrows
  simp only [relocate, moveAdded, Scopes.relocate, Context.mk.injEq, and_true]
  replace hwf := hwf.2
  clear hgrows
  induction hframes with
  | nil => rfl
  | cons hframe _ ih =>
      obtain ⟨hfirst, hrest⟩ := List.forall_mem_cons.mp hwf
      rw [List.map_cons, List.map_cons, List.zipWith_cons_cons, ih hrest,
        Frame.relocate_unmark hown hfirst hframe]

theorem Error.OfRun.movesDown {error : Error} (hown : ∀ line ∈ lines, line % 2 = 1)
    (hrun : error.OfRun lines) (k : Nat) :
    (error.relocate (unmark 0)).MovesDown k (error.relocate (unmark k)) := by
  cases error with
  | alreadyDefined line name previousLine =>
      have hline := unmark_of_own (hown line hrun) k
      simp only [relocate, hline]
      -- the second line is that of the earlier declaration, which may be older than the run
      rcases Nat.mod_two_eq_zero_or_one previousLine with holder | hmoved
      · rw [unmark_of_older holder k]
        exact .older _ _ _
      · rw [unmark_of_own hmoved k]
        exact .own _
  | undecodableInput => exact .own _
  | unexpectedCharacter | unexpectedEnd | literalOutOfRange | unexpectedToken | noAlternative =>
      exact hrun.elim
  | _ =>
      have hline := unmark_of_own (hown _ hrun) k
      simp only [relocate, hline]
      exact .own _

end Displacement

/-- What moving a program down does to its result. -/
theorem Program.movesDown_run (program : Program) (k : Nat) {context : Context}
    (hwf : context.scopes.WellFormed) :
    Exec.MovesDown k context (program.run.toExec context)
      ((program.relocate (· + k)).run.toExec context) := by
  rw [program.toExec_run, program.toExec_relocate_add k]
  -- the marked program, from a context that it tells apart from itself
  obtain ⟨marked, hmarked⟩ : ∃ marked, marked = program.relocate ownLine := ⟨_, rfl⟩
  have hodd : ∀ line ∈ marked.tokens.map Token.line, line % 2 = 1 := by
    simp only [hmarked, tokens_relocate, List.map_map, List.mem_map]
    rintro _ ⟨t, -, rfl⟩
    simp [Token.relocate, ownLine]
  have hwf' : (context.relocate olderLine).scopes.WellFormed := Scopes.wellFormed_relocate hwf
  have hgrows := marked.grows_run (fun t ht => List.mem_map_of_mem (f := Token.line) ht) hwf'
  have hafter := (marked.mirrors_run hwf').wellFormed
  have hfails := marked.tree.failsOn_lines (context.relocate olderLine)
  have hagrees := (marked.mirrors_run hwf').agrees
  rw [markedResult, ← hmarked, Run.toExec_apply]
  rw [Run.toExec_apply] at hagrees
  rcases houtcome : marked.run.outcome (context.relocate olderLine) with ⟨error | _, after⟩
  all_goals
    rw [houtcome] at hgrows hafter hagrees
    simp only [Exec.relocateResult, Context.relocate_unmark hodd hafter hgrows k]
  · exact .error ((hfails after error hagrees).movesDown hodd k) _
  · exact .ok _

end Primer
