import Mathlib.Data.List.Forall2
import Primer.Proofs.Semantics.Operations
import Primer.Proofs.Stateful

/-!
# Executions that cannot be told apart

A tree asks frames only for the variable under a name, and its world only for the
next line.  So executing it twice goes the same way if frame by frame the same
variables are found, in whatever order they were declared, and the two worlds
answer alike.  The worlds need not be of one type.

## Main results

* `Exec.matches_execute` : executing a tree in two worlds that answer alike.
-/

namespace Primer

open Stateful

/-! ## Frames as maps -/

namespace Frame

theorem get?_bind (frame : Frame) (v : Variable) (name : String) :
    (frame.bind v).get? name = if name = v.name then some v else frame.get? name := by
  rw [get?, bind, List.lookup_cons]
  by_cases hname : name = v.name
  · rw [if_pos hname, beq_iff_eq.mpr hname]
  · rw [if_neg hname, beq_false_of_ne hname, get?]

theorem get?_rebind (frame : Frame) (v : Variable) (name : String) :
    (frame.rebind v).get? name =
      if name = v.name then (frame.get? name).map fun _ => v else frame.get? name := by
  -- a frame is rebound at every binding of the name but read at the first: induction on bindings
  induction frame with
  | nil => simp [rebind, get?]
  | cons binding frame ih =>
      obtain ⟨bound, w⟩ := binding
      simp only [rebind, List.map_cons, get?] at ih ⊢
      by_cases hbound : bound = v.name
      · rw [if_pos hbound, List.lookup_cons, List.lookup_cons]
        by_cases hname : name = bound
        · simp [hname, hbound]
        · rw [beq_false_of_ne hname]
          exact ih
      · rw [if_neg hbound, List.lookup_cons, List.lookup_cons]
        by_cases hname : name = bound
        · simp [hname, hbound]
        · rw [beq_false_of_ne hname]
          exact ih

/-- The same variables under the same names. -/
def Same (frame frame' : Frame) : Prop := ∀ name, frame.get? name = frame'.get? name

theorem Same.bind {frame frame' : Frame} (hsame : frame.Same frame') (v : Variable) :
    (frame.bind v).Same (frame'.bind v) := by
  intro name
  rw [get?_bind, get?_bind, hsame name]

theorem Same.rebind {frame frame' : Frame} (hsame : frame.Same frame') (v : Variable) :
    (frame.rebind v).Same (frame'.rebind v) := by
  intro name
  rw [get?_rebind, get?_rebind, hsame name]

end Frame

namespace Scopes

/-- As many frames, with the same variables frame by frame. -/
def Same : Scopes → Scopes → Prop := List.Forall₂ Frame.Same

variable {scopes scopes' : Scopes}

theorem Same.refl (scopes : Scopes) : scopes.Same scopes :=
  List.forall₂_same.mpr fun _ _ _ => rfl

/-- A search passes the same frames if they hold the same under the name. -/
theorem resolve?_congr {relates : Frame → Frame → Prop} {name : String}
    (hget : ∀ frame frame', relates frame frame' → frame.get? name = frame'.get? name)
    (hscopes : List.Forall₂ relates scopes scopes') :
    scopes.resolve? name = scopes'.resolve? name := by
  induction hscopes with
  | nil => rfl
  | cons hframe _ ih =>
      simp only [resolve?, List.findSome?_cons, hget _ _ hframe] at ih ⊢
      rw [ih]

/-- An update finds its frame at the same depth if the frames hold the same under the name. -/
theorem update?_congr {relates : Frame → Frame → Prop} {v : Variable}
    (hget : ∀ frame frame', relates frame frame' → frame.get? v.name = frame'.get? v.name)
    (hrebind : ∀ frame frame', relates frame frame' → relates (frame.rebind v) (frame'.rebind v))
    (hscopes : List.Forall₂ relates scopes scopes') :
    Option.Rel (List.Forall₂ relates) (scopes.update? v) (scopes'.update? v) := by
  induction hscopes with
  | nil => exact .none
  | @cons frame frame' frames frames' hframe hframes ih =>
      rw [Scopes.update?, Scopes.update?, hget frame frame' hframe]
      by_cases hbound : (frame'.get? v.name).isSome
      · rw [if_pos hbound, if_pos hbound]
        exact .some (.cons (hrebind frame frame' hframe) hframes)
      · rw [if_neg hbound, if_neg hbound]
        generalize Scopes.update? frames v = outer, Scopes.update? frames' v = outer' at ih
        cases ih with
        | none => exact .none
        | some hrest => exact .some (.cons hframe hrest)

theorem Same.resolve?_eq (hsame : scopes.Same scopes') (name : String) :
    scopes.resolve? name = scopes'.resolve? name :=
  resolve?_congr (fun _ _ hframe => hframe name) hsame

theorem Same.update? (hsame : scopes.Same scopes') (v : Variable) :
    Option.Rel Same (scopes.update? v) (scopes'.update? v) :=
  update?_congr (fun _ _ hframe => hframe v.name) (fun _ _ hframe => hframe.rebind v) hsame

end Scopes

/-! ## Worlds -/

/-- Related worlds answer with the same lines and stay related. -/
structure InputOutput.Simulates {V W : Type} [InputOutput V] [InputOutput W]
    (related : V → W → Prop) : Prop where
  print {v : V} {w : W} (h : related v w) (value : Value) :
    related (InputOutput.print v value) (InputOutput.print w value)
  line_eq {v : V} {w : W} (h : related v w) :
    (InputOutput.read? v).1 = (InputOutput.read? w).1
  read {v : V} {w : W} (h : related v w) :
    related (InputOutput.read? v).2 (InputOutput.read? w).2

namespace Context

variable {V W : Type}

/-- The same variables frame by frame, and related worlds. -/
structure Alike (related : V → W → Prop) (context : Context V) (context' : Context W) : Prop where
  scopes : context.scopes.Same context'.scopes
  console : related context.console context'.console

end Context

/-! ## Computations -/

namespace Exec

variable {V W : Type} {related : V → W → Prop} {α β : Type}

/-- The same value or the same failure, in contexts that are alike. -/
inductive ResultsMatch (related : V → W → Prop) {α : Type} :
    EStateM.Result Failure (Context V) α → EStateM.Result Failure (Context W) α → Prop
  | ok (a : α) {context : Context V} {context' : Context W}
      (halike : context.Alike related context') :
      ResultsMatch related (.ok a context) (.ok a context')
  | error (failure : Failure) {context : Context V} {context' : Context W}
      (halike : context.Alike related context') :
      ResultsMatch related (.error failure context) (.error failure context')

/-- From contexts that are alike, the results match. -/
def Matches (related : V → W → Prop) {α : Type} (m : ExecOn V α) (m' : ExecOn W α) : Prop :=
  ∀ (context : Context V) (context' : Context W), context.Alike related context' →
    ResultsMatch related (m context) (m' context')

namespace Matches

theorem pure (a : α) : Matches related (Pure.pure a) (Pure.pure a) := fun _ _ h => .ok a h

theorem raise (failure : Failure) :
    Matches related (throw failure : ExecOn V α) (throw failure) := fun _ _ h => .error failure h

theorem bind {m : ExecOn V α} {m' : ExecOn W α} {f : α → ExecOn V β} {f' : α → ExecOn W β}
    (hm : Matches related m m') (hf : ∀ a, Matches related (f a) (f' a)) :
    Matches related (m >>= f) (m' >>= f') := by
  intro context context' halike
  have hfirst := hm context context' halike
  rw [bind_apply, bind_apply]
  generalize m context = result, m' context' = result' at hfirst
  cases hfirst with
  | ok a halike' => exact hf a _ _ halike'
  | error failure halike' => exact .error failure halike'

theorem declare (v : Variable) : Matches related (declare v) (declare v) := by
  rintro ⟨scopes, console⟩ ⟨scopes', console'⟩ ⟨hscopes, hconsole⟩
  simp only [Exec.declare]
  cases hscopes with
  | nil => exact .error .misuse ⟨.nil, hconsole⟩
  | @cons frame frame' frames frames' hframe hframes =>
      simp only [Scopes.declare, hframe v.name]
      cases frame'.get? v.name with
      | some previous => exact .error _ ⟨.cons hframe hframes, hconsole⟩
      | none => exact .ok () ⟨.cons (hframe.bind v) hframes, hconsole⟩

theorem lookup (name : String) (line : Nat) :
    Matches related (lookup name line) (lookup name line) := by
  intro context context' halike
  simp only [Exec.lookup, halike.scopes.resolve?_eq name]
  cases context'.scopes.resolve? name with
  | some v => exact .ok v halike
  | none => exact .error _ halike

theorem update (v : Variable) (line : Nat) :
    Matches related (update v line) (update v line) := by
  intro context context' halike
  have hupdate := halike.scopes.update? v
  simp only [Exec.update]
  generalize context.scopes.update? v = scopes?, context'.scopes.update? v = scopes'? at hupdate
  cases hupdate with
  | none => exact .error _ halike
  | some hscopes => exact .ok () ⟨hscopes, halike.console⟩

theorem pushFrame : Matches related pushFrame pushFrame := fun _ _ halike =>
  .ok () ⟨.cons (fun _ => rfl) halike.scopes, halike.console⟩

theorem popFrame : Matches related popFrame popFrame := by
  rintro ⟨scopes, console⟩ ⟨scopes', console'⟩ ⟨hscopes, hconsole⟩
  simp only [Exec.popFrame]
  cases hscopes with
  | nil => exact .error .misuse ⟨.nil, hconsole⟩
  | cons hframe hframes =>
      cases hframes with
      | nil => exact .error .misuse ⟨.cons hframe .nil, hconsole⟩
      | cons hframe' hframes' => exact .ok () ⟨.cons hframe' hframes', hconsole⟩

theorem inNewFrame {body : ExecOn V Unit} {body' : ExecOn W Unit}
    (hbody : Matches related body body') :
    Matches related (inNewFrame body) (inNewFrame body') := by
  intro context context' halike
  have hinside := (pushFrame.bind fun _ => hbody) context context' halike
  rw [Exec.inNewFrame, Exec.inNewFrame]
  generalize (Exec.pushFrame >>= fun _ => body) context = result,
    (Exec.pushFrame >>= fun _ => body') context' = result' at hinside
  cases hinside with
  | ok _ hinner => exact popFrame _ _ hinner
  | @error failure inner inner' hinner =>
      -- only an error closes the frame
      cases failure with
      | error cause =>
          have houter := popFrame inner inner' hinner
          simp only
          generalize Exec.popFrame inner = closed, Exec.popFrame inner' = closed' at houter
          cases houter with
          | ok _ h => exact .error _ h
          | error failure h => exact .error failure h
      | misuse => exact .error .misuse hinner
      | endless => exact .error .endless hinner

variable [InputOutput V] [InputOutput W]

theorem print (hsimulates : InputOutput.Simulates related) (value : Value) :
    Matches related (print value) (print value) := fun _ _ halike =>
  .ok () ⟨halike.scopes, hsimulates.print halike.console value⟩

theorem readLine (hsimulates : InputOutput.Simulates related) (line : Nat) :
    Matches related (readLine line) (readLine line) := by
  intro context context' halike
  have hline := hsimulates.line_eq halike.console
  have hconsole := hsimulates.read halike.console
  simp only [Exec.readLine]
  generalize InputOutput.read? context.console = answer,
    InputOutput.read? context'.console = answer' at hline hconsole
  obtain ⟨line?, console⟩ := answer
  obtain ⟨_, console'⟩ := answer'
  obtain rfl : line? = _ := hline
  rcases line? with _ | _ | _
  · exact .error _ ⟨halike.scopes, hconsole⟩
  · exact .ok _ ⟨halike.scopes, hconsole⟩
  · exact .error _ ⟨halike.scopes, hconsole⟩

theorem compositional (hsimulates : InputOutput.Simulates related) :
    Compositional (V := V) (W := W) (Matches related) where
  pure := pure
  raise _ := raise _
  bind := bind
  declare := declare
  lookup := lookup
  update := update
  inNewFrame := inNewFrame
  print := print hsimulates
  readLine := readLine hsimulates

end Matches

/-- In worlds that answer alike, executing a tree gives the same. -/
theorem matches_execute [InputOutput V] [InputOutput W]
    (hsimulates : InputOutput.Simulates related) (node : Node) :
    Matches related (execute node) (execute node) :=
  (Matches.compositional hsimulates).execute node

end Exec

end Primer
