import Primer.Interpreter

/-!
# Sessions

A session is one context over which programs are compiled and run and whose
scopes and console are also used directly, in any order.  Programs that were
compiled stay available; a slot is kept for each attempt, empty if it failed.

A command that fails leaves the session as the failed computation left its
context, and the next command goes on from there.
-/

namespace Primer

/-- What a session can be asked to do. -/
inductive Command
  | run (source : String)
  | compile (source : String)
  /-- Runs the program in a slot, slots being counted from zero. -/
  | evaluate (slot : Nat)
  | declare (name : String) (line : Nat) (ty : Ty) (value? : Option Value)
  /-- Replaces a variable, with a declaration line of its own. -/
  | update (name : String) (declared : Nat) (ty : Ty) (value? : Option Value) (line : Nat)
  /-- Gives a variable a new value. -/
  | set (name : String) (value : Value) (line : Nat)
  | lookup (name : String) (line : Nat)
  | push
  | pop
  | print (value : Value)
  | readLine (line : Nat)
  deriving DecidableEq, Repr

/-- What a command answers when it succeeds. -/
inductive Answer
  | done
  | line (content : String)
  /-- A variable and what its use on the line of the command gives. -/
  | variable (v : Variable) (value : Except Error Value)
  /-- The slot is empty or was never filled. -/
  | noProgram

/-- A context together with the programs compiled so far. -/
structure Session where
  context : Context
  /-- The slots, oldest first. -/
  programs : List (Option Node)

namespace Session

/-- A session in which nothing has happened yet. -/
def ofLines (input : List Line) : Session := ⟨.ofLines input, []⟩

/-- Runs a computation on the context of a session. -/
def onContext (session : Session) (action : Exec Answer) : Except Failure Answer × Session :=
  match action session.context with
  | .ok answer context => (.ok answer, ⟨context, session.programs⟩)
  | .error failure context => (.error failure, ⟨context, session.programs⟩)

/-- Carries out one command. -/
def step (command : Command) (session : Session) : Except Failure Answer × Session :=
  match command with
  | .run source => session.onContext do
      runIn source
      return .done
  | .compile source =>
      match Primer.compile source with
      | .ok program => (.ok .done, ⟨session.context, session.programs ++ [some program]⟩)
      | .error failure => (.error failure, ⟨session.context, session.programs ++ [none]⟩)
  | .evaluate slot =>
      match session.programs[slot]? with
      | some (some program) => session.onContext do
          execute program
          return .done
      | some none | none => (.ok .noProgram, session)
  | .declare name line ty value? => session.onContext do
      let v ← Exec.demand (Variable.make? name line ty value?)
      Exec.declare v
      return .done
  | .update name declared ty value? line => session.onContext do
      let v ← Exec.demand (Variable.make? name declared ty value?)
      Exec.update v line
      return .done
  | .set name value line => session.onContext do
      let v ← Exec.lookup name line
      let v ← Exec.demand (v.withValue? value)
      Exec.update v line
      return .done
  | .lookup name line => session.onContext do
      let v ← Exec.lookup name line
      return .variable v (v.valueAt line)
  | .push => session.onContext do
      Exec.pushFrame
      return .done
  | .pop => session.onContext do
      Exec.popFrame
      return .done
  | .print value => session.onContext do
      Exec.print value
      return .done
  | .readLine line => session.onContext do
      let content ← Exec.readLine line
      return .line content

end Session

end Primer
