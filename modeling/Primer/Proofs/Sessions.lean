import Primer.Session
import Primer.Proofs.Semantics.Balance

/-!
# Scopes in sessions

Whatever is done to a context through its operations, and in whatever order it is
mixed with running programs, its scopes stay well-formed.  The operations may do
what no program does: they replace a variable by one of another type or without a
value, push frames that stay, and try to drop the outermost frame.  They may fail,
and a program may fail inside its loops, and then the next command goes on from
there.

Two facts carry this from command to command, `Session.Sound`.  The scopes are
well-formed, so that running a program keeps them so.  And the slots hold nothing
but trees of programs, so that evaluating a slot is running a program.

## Main results

* `Session.Sound.step` : a command keeps both facts.
* `Session.Sound.fault_step` : what running a program can fail with.
* `Session.after_wellFormed` : the scopes in every session, and their number around
  running a program.
-/

namespace Primer

/-- Whether a command runs a program. -/
def Command.RunsProgram : Command → Prop
  | .run _ | .evaluate _ => True
  | _ => False

namespace Session

open Exec

/-! ## One command -/

/-- What holds of a session between two commands. -/
structure Sound (session : Session) : Prop where
  scopes : session.context.scopes.WellFormed
  programs : ∀ node, some node ∈ session.programs → ∃ source, compile source = .ok node

theorem sound_ofLines (input : List Line) : Sound (ofLines input) :=
  ⟨Scopes.wellFormed_initial, fun _ hmem => nomatch hmem⟩

variable {session : Session}

theorem onContext_snd (session : Session) (action : Exec Answer) :
    (session.onContext action).2 = ⟨ending (action session.context), session.programs⟩ := by
  rw [onContext]
  cases action session.context <;> rfl

theorem exists_error_of_onContext {action : Exec Answer} {failure : Failure}
    (hfailure : (session.onContext action).1 = .error failure) :
    ∃ after, action session.context = .error failure after := by
  rw [onContext] at hfailure
  cases hresult : action session.context with
  | ok answer after =>
      rw [hresult] at hfailure
      cases hfailure
  | error failure' after =>
      rw [hresult] at hfailure
      cases hfailure
      exact ⟨after, rfl⟩

theorem Sound.onContext (hsound : session.Sound) {action : Exec Answer}
    (haction : Keeping action) : (session.onContext action).2.Sound := by
  rw [onContext_snd]
  exact ⟨haction _ hsound.scopes, hsound.programs⟩

theorem Sound.fill (hsound : session.Sound) {slot : Option Node}
    (hslot : ∀ node, slot = some node → ∃ source, compile source = .ok node) :
    Sound ⟨session.context, session.programs ++ [slot]⟩ := by
  refine ⟨hsound.scopes, fun node hmem => ?_⟩
  rcases List.mem_append.mp hmem with hmem | hmem
  · exact hsound.programs node hmem
  · exact hslot node (List.mem_singleton.mp hmem).symm

theorem Sound.slot (hsound : session.Sound) {slot : Nat} {node : Node}
    (hslot : session.programs[slot]? = some (some node)) : Balanced (execute node) := by
  obtain ⟨source, hcompile⟩ := hsound.programs node (List.mem_of_getElem? hslot)
  exact balanced_execute hcompile

/-- A command keeps the scopes well-formed and the slots filled with programs,
whatever it answers. -/
theorem Sound.step (hsound : session.Sound) (command : Command) :
    (step command session).2.Sound := by
  -- only `compile` fills a slot; all that the other commands do keeps the context well-formed
  cases command with
  | run source => exact hsound.onContext ((balanced_runIn source).bind_pure _).keeping
  | compile source =>
      rw [Session.step]
      cases hcompile : Primer.compile source with
      | ok node =>
          refine hsound.fill fun node' hnode => ⟨source, ?_⟩
          rw [hcompile, Option.some.inj hnode]
      | error failure => exact hsound.fill nofun
  | evaluate slot =>
      rw [Session.step]
      split
      · next node hslot => exact hsound.onContext ((hsound.slot hslot).bind_pure _).keeping
      · exact hsound
      · exact hsound
  | declare name line ty value? =>
      exact hsound.onContext (.demand_bind fun v hmake =>
        (Keeping.declare (Variable.wellTyped_of_make? hmake)).bind fun _ => .pure _)
  | update name declared ty value? line =>
      exact hsound.onContext (.demand_bind fun v hmake =>
        (Keeping.update (Variable.wellTyped_of_make? hmake) line).bind fun _ => .pure _)
  | set name value line =>
      exact hsound.onContext ((Keeping.lookup name line).bind fun old =>
        .demand_bind fun v hmake =>
          (Keeping.update (Variable.wellTyped_of_make? hmake) line).bind fun _ => .pure _)
  | lookup name line =>
      exact hsound.onContext ((Keeping.lookup name line).bind fun v => .pure _)
  | push => exact hsound.onContext (Keeping.pushFrame.bind fun _ => .pure _)
  | pop => exact hsound.onContext (Keeping.popFrame.bind fun _ => .pure _)
  | print value => exact hsound.onContext ((Keeping.print value).bind fun _ => .pure _)
  | readLine line => exact hsound.onContext ((Keeping.readLine line).bind fun _ => .pure _)

theorem Sound.depth_step (hsound : session.Sound) {command : Command}
    (hruns : command.RunsProgram) :
    (Session.step command session).2.context.depth = session.context.depth := by
  cases command with
  | run source =>
      rw [Session.step, onContext_snd]
      exact ((balanced_runIn source).bind_pure _).depth hsound.scopes
  | evaluate slot =>
      rw [Session.step]
      split
      · next node hslot =>
          rw [onContext_snd]
          exact ((hsound.slot hslot).bind_pure _).depth hsound.scopes
      · rfl
      · rfl
  | _ => exact hruns.elim

/-- Running a program in a session fails through a fault of the program only. -/
theorem Sound.fault_step (hsound : session.Sound) {command : Command}
    (hruns : command.RunsProgram) {failure : Failure}
    (hfailure : (Session.step command session).1 = .error failure) :
    ∃ error, failure = .error error := by
  cases command with
  | run source =>
      obtain ⟨after, hresult⟩ := exists_error_of_onContext hfailure
      exact ((balanced_runIn source).bind_pure _).fault hsound.scopes hresult
  | evaluate slot =>
      rw [Session.step] at hfailure
      split at hfailure
      · next node hslot =>
          obtain ⟨after, hresult⟩ := exists_error_of_onContext hfailure
          exact ((hsound.slot hslot).bind_pure _).fault hsound.scopes hresult
      · cases hfailure
      · cases hfailure
  | _ => exact hruns.elim

/-! ## All commands -/

/-- The session after some commands, whatever they answer. -/
def after (session : Session) (commands : List Command) : Session :=
  commands.foldl (fun session command => (step command session).2) session

theorem Sound.after (hsound : session.Sound) (commands : List Command) :
    (session.after commands).Sound := by
  induction commands generalizing session with
  | nil => exact hsound
  | cons command commands ih => exact ih (hsound.step command)

/-- In every session the scopes are well-formed after each command, and running a
program, however it ends, leaves as many frames as there were. -/
theorem after_wellFormed (input : List Line) (commands : List Command) :
    ((ofLines input).after commands).context.scopes.WellFormed ∧
    ∀ command : Command, command.RunsProgram →
      (step command ((ofLines input).after commands)).2.context.depth =
        ((ofLines input).after commands).context.depth := by
  have hsound := (sound_ofLines input).after commands
  exact ⟨hsound.scopes, fun command hruns => hsound.depth_step hruns⟩

/-- A variable can change its type, and the outermost frame is not dropped. -/
example : ((ofLines []).after [.declare "x" 1 .int none, .update "x" 2 .string none 3, .pop,
    .push]).context.scopes = [[], [("x", ⟨"x", 2, .string, none⟩)]] := by decide

end Session

end Primer
