import Primer.Proofs.Semantics.Scopes
import Primer.Proofs.Semantics.Worlds

/-!
# Shadowing

Frames lie one upon the other, and a name means the variable in the innermost frame
that holds it.  A lookup and an update search for this frame each by itself.  They
find the same one, so an update replaces just what a lookup has found; what lies
further out under the same name stays as it was, and is found again once the frames
in front of it are gone.

So of all that is done while a frame is there, the frames below it are reached by
those updates alone whose name no frame above them holds.  Which ones these are can
be told without the frames below: the frames above are followed by themselves, and an
update goes further down where they do not resolve its name.

## Main results

* `Scopes.update?_append` : an update of frames that lie upon others.
* `Context.replaces_of_update`, `Context.declares_of_declare` : one update and one
  declaration.
* `Scopes.Change.apply_append` : one change of frames that lie upon others.
* `Context.scope_laws` : all of this, and what is left when a frame is dropped again.
-/

namespace Primer

open Stateful

/-! ## Frames upon other frames -/

namespace Scopes

variable {scopes inner outer : Scopes} {frame : Frame} {v old : Variable} {name : String}

theorem resolve?_append (inner outer : Scopes) (name : String) :
    (inner ++ outer).resolve? name = (inner.resolve? name).or (outer.resolve? name) :=
  List.findSome?_append

theorem resolve?_eq_none : scopes.resolve? name = none ↔
    ∀ frame ∈ scopes, Frame.get? frame name = none :=
  List.findSome?_eq_none_iff

/-- An update finds a frame where a lookup does. -/
theorem update?_eq_none : scopes.update? v = none ↔ scopes.resolve? v.name = none := by
  induction scopes with
  | nil => exact ⟨fun _ => rfl, fun _ => rfl⟩
  | cons frame frames ih =>
      rw [update?, resolve?, List.findSome?_cons]
      cases hget : frame.get? v.name with
      | some old => simp
      | none => simpa [resolve?] using ih

/-- An update goes further out only where no frame in front resolves the name. -/
theorem update?_append (inner outer : Scopes) (v : Variable) :
    (inner ++ outer).update? v =
      ((inner.update? v).map (· ++ outer)).or ((outer.update? v).map (inner ++ ·)) := by
  induction inner with
  | nil => simp [update?]
  | cons frame frames ih =>
      rw [List.cons_append, update?, update?, ih]
      by_cases hbound : (frame.get? v.name).isSome
      · rw [if_pos hbound, if_pos hbound]
        rfl
      · rw [if_neg hbound, if_neg hbound]
        cases Scopes.update? frames v with
        | some frames' => rfl
        | none => simp [Function.comp_def]

/-- The frame that is found is the first one that holds the name. -/
theorem update?_of_first (hinner : inner.resolve? v.name = none)
    (hold : frame.get? v.name = some old) :
    (inner ++ frame :: outer).update? v = some (inner ++ frame.rebind v :: outer) := by
  rw [update?_append, update?_eq_none.mpr hinner, update?, hold]
  rfl

/-- Behind frames that do not hold the name, the new variable is found, and under any
other name what was found before. -/
theorem resolve?_rebind (hinner : inner.resolve? v.name = none)
    (hold : frame.get? v.name = some old) (name : String) :
    (inner ++ frame.rebind v :: outer).resolve? name =
      if name = v.name then some v else (inner ++ frame :: outer).resolve? name := by
  rw [resolve?_append, resolve?_append]
  simp only [resolve?, List.findSome?_cons, Frame.get?_rebind] at hinner ⊢
  by_cases hname : name = v.name
  · rw [if_pos hname, if_pos hname, hname, hinner, hold]
    rfl
  · rw [if_neg hname, if_neg hname]

/-- So it is after some frames are dropped, as long as the frame with the new variable is
not one of them. -/
theorem resolve?_drop_rebind (hinner : inner.resolve? v.name = none)
    (hold : frame.get? v.name = some old) (n : Nat) (name : String) :
    Scopes.resolve? ((inner ++ frame.rebind v :: outer).drop n) name =
      if n ≤ inner.length ∧ name = v.name then some v
      else Scopes.resolve? ((inner ++ frame :: outer).drop n) name := by
  by_cases hle : n ≤ inner.length
  · have hnone : Scopes.resolve? (inner.drop n) v.name = none :=
      resolve?_eq_none.mpr fun f hf => resolve?_eq_none.mp hinner f (List.mem_of_mem_drop hf)
    rw [List.drop_append_of_le_length hle, List.drop_append_of_le_length hle,
      resolve?_rebind hnone hold]
    simp only [hle, true_and]
  · obtain ⟨m, hm⟩ : ∃ m, n - inner.length = m + 1 := ⟨n - inner.length - 1, by omega⟩
    rw [if_neg fun h => hle h.1, List.drop_append, List.drop_append, hm, List.drop_succ_cons,
      List.drop_succ_cons]

theorem resolve?_bind (frame : Frame) (frames : Scopes) (v : Variable) (name : String) :
    Scopes.resolve? (frame.bind v :: frames) name =
      if name = v.name then some v else Scopes.resolve? (frame :: frames) name := by
  simp only [resolve?, List.findSome?_cons, Frame.get?_bind]
  by_cases hname : name = v.name
  · rw [if_pos hname, if_pos hname]
  · rw [if_neg hname, if_neg hname]

/-! ## Single frames -/

/-- The variable that one of the frames holds under a name, whether or not frames
further inside hide it.  The innermost frame is the first one. -/
def binding? (scopes : Scopes) (i : Nat) (name : String) : Option Variable :=
  scopes[i]?.bind fun frame => Frame.get? frame name

/-- Where the variables of one frame are those of another one but for `v`, so are those
of all frames. -/
theorem binding?_append_cons {frame' : Frame} (inner outer : Scopes)
    (hframe : ∀ name, frame'.get? name = if name = v.name then some v else frame.get? name)
    (i : Nat) (name : String) :
    (inner ++ frame' :: outer).binding? i name =
      if i = inner.length ∧ name = v.name then some v
      else (inner ++ frame :: outer).binding? i name := by
  rw [binding?, binding?, List.getElem?_append, List.getElem?_append]
  rcases Nat.lt_trichotomy i inner.length with hless | rfl | hlarger
  · have hne : i ≠ inner.length := Nat.ne_of_lt hless
    simp only [hless, hne, if_true, false_and, if_false]
  · simp only [Nat.lt_irrefl, if_false, Nat.sub_self, List.getElem?_cons_zero, Option.bind_some,
      true_and, hframe]
  · obtain ⟨j, hj⟩ : ∃ j, i - inner.length = j + 1 := ⟨i - inner.length - 1, by omega⟩
    have hne : i ≠ inner.length := Nat.ne_of_gt hlarger
    simp only [Nat.lt_asymm hlarger, hne, if_false, false_and, hj, List.getElem?_cons_succ]

theorem binding?_length (inner outer : Scopes) (frame : Frame) (name : String) :
    (inner ++ frame :: outer).binding? inner.length name = frame.get? name := by
  rw [binding?, List.getElem?_append_right (Nat.le_refl _), Nat.sub_self]
  rfl

/-- Frames that do not resolve a name hold nothing under it. -/
theorem binding?_eq_none (hinner : inner.resolve? name = none) (outer : Scopes) {i : Nat}
    (hi : i < inner.length) : (inner ++ outer).binding? i name = none := by
  rw [binding?, List.getElem?_append_left hi, List.getElem?_eq_getElem hi]
  exact resolve?_eq_none.mp hinner _ (List.getElem_mem hi)

end Scopes

/-! ## The operations of contexts -/

namespace Exec

variable {World : Type}

theorem lookup_apply (name : String) (line : Nat) (context : Context World) :
    lookup name line context =
      match context.scopes.resolve? name with
      | some v => .ok v context
      | none => .error (.error (.undefinedVariable line name)) context := rfl

theorem update_apply (v : Variable) (line : Nat) (context : Context World) :
    update v line context =
      match context.scopes.update? v with
      | some scopes => .ok () { context with scopes }
      | none => .error (.error (.undefinedVariable line v.name)) context := rfl

theorem declare_apply (v : Variable) (frame : Frame) (frames : Scopes) (console : World) :
    declare v ⟨frame :: frames, console⟩ =
      match frame.get? v.name with
      | some previous => .error (.error (.alreadyDefined v.line v.name previous.line))
          ⟨frame :: frames, console⟩
      | none => .ok () ⟨frame.bind v :: frames, console⟩ := by
  rw [declare, Scopes.declare]
  cases frame.get? v.name <;> rfl

/-- Drops some of the innermost frames. -/
def popFrames : Nat → ExecOn World Unit
  | 0 => pure ()
  | n + 1 => popFrame >>= fun _ => popFrames n

theorem popFrames_apply {n : Nat} {context : Context World} (hn : n < context.scopes.length) :
    popFrames n context = .ok () { context with scopes := context.scopes.drop n } := by
  induction n generalizing context with
  | zero => rfl
  | succ n ih =>
      obtain ⟨_ | ⟨frame, _ | ⟨frame', frames⟩⟩, console⟩ := context
      · exact absurd hn (Nat.not_lt_zero _)
      · exact absurd hn (by simp)
      · have hpop : popFrame (⟨frame :: frame' :: frames, console⟩ : Context World) =
            .ok () ⟨frame' :: frames, console⟩ := rfl
        rw [popFrames, bind_of_ok hpop, ih (Nat.lt_of_succ_lt_succ hn)]
        rfl

/-- If names are resolved as before except for `v`, a lookup ends as before except for it. -/
theorem lookup_of_resolve? {context after : Context World} {name : String} {v : Variable}
    {c : Prop} [Decidable c] (hresolve : after.scopes.resolve? name =
      if c then some v else context.scopes.resolve? name) (line : Nat) :
    lookup name line after =
      if c then .ok v after else endingIn after (lookup name line context) := by
  rw [lookup_apply, lookup_apply, hresolve]
  by_cases hc : c
  · simp only [if_pos hc]
  · simp only [if_neg hc]
    cases context.scopes.resolve? name <;> rfl

end Exec

/-! ## One update, one declaration -/

namespace Context

open Exec

variable {World : Type}

/-- From one context to the other, `v` takes the place of the variable `old`, which is
what its name refers to and which the frame at the depth holds.  Nothing else changes. -/
structure Replaces (v old : Variable) (depth : Nat) (context after : Context World) : Prop where
  found : ∀ line, lookup v.name line context = .ok old context
  held : context.scopes.binding? depth v.name = some old
  first : ∀ i < depth, context.scopes.binding? i v.name = none
  bindings : ∀ i name, after.scopes.binding? i name =
    if i = depth ∧ name = v.name then some v else context.scopes.binding? i name
  frames : after.scopes.length = context.scopes.length
  console : after.console = context.console
  /-- What is found then, and after some frames are dropped. -/
  visible : ∀ n < context.scopes.length, ∃ dropped dropped',
    popFrames n context = .ok () dropped ∧ popFrames n after = .ok () dropped' ∧
      ∀ name line, lookup name line dropped' =
        if n ≤ depth ∧ name = v.name then .ok v dropped'
        else endingIn dropped' (lookup name line dropped)

/-- From one context to the other, the innermost frame gets the variable `v`, whose name
it did not hold.  Nothing else changes. -/
structure Declares (v : Variable) (context after : Context World) : Prop where
  bindings : ∀ i name, after.scopes.binding? i name =
    if i = 0 ∧ name = v.name then some v else context.scopes.binding? i name
  frames : after.scopes.length = context.scopes.length
  console : after.console = context.console
  visible : ∀ name line, lookup name line after =
    if name = v.name then .ok v after else endingIn after (lookup name line context)

variable {context after : Context World} {v : Variable} {failure : Failure}

/-- An update fails where a lookup of the name does, and in the same way. -/
theorem update_eq_error {line : Nat} : update v line context = .error failure after ↔
    lookup v.name line context = .error failure after := by
  rw [update_apply, lookup_apply]
  cases hresolve : context.scopes.resolve? v.name with
  | none => simp [Scopes.update?_eq_none.mpr hresolve]
  | some old =>
      cases hupdate : context.scopes.update? v with
      | none => cases hresolve.symm.trans (Scopes.update?_eq_none.mp hupdate)
      | some scopes => exact ⟨nofun, nofun⟩

theorem replaces_of_update {line : Nat} (hupdate : update v line context = .ok () after) :
    ∃ old depth, Replaces v old depth context after := by
  obtain ⟨scopes, console⟩ := context
  cases hresolve : scopes.resolve? v.name with
  | none =>
      rw [update_apply, Scopes.update?_eq_none.mpr hresolve] at hupdate
      cases hupdate
  | some old =>
      -- the update takes place in the first frame that holds the name; the ones inside it do not
      obtain ⟨inner, frame, outer, rfl, hold, hnone⟩ := List.findSome?_eq_some_iff.mp hresolve
      have hinner : Scopes.resolve? inner v.name = none := Scopes.resolve?_eq_none.mpr hnone
      rw [update_apply, Scopes.update?_of_first hinner hold] at hupdate
      cases hupdate
      have hframe : ∀ name, (frame.rebind v).get? name =
          if name = v.name then some v else frame.get? name := by
        intro name
        rw [Frame.get?_rebind]
        split
        · next hname => rw [hname, hold, Option.map_some]
        · rfl
      refine ⟨old, inner.length, ?_⟩
      exact {
        found := fun line => by rw [lookup_apply, hresolve]
        held := by rw [Scopes.binding?_length, hold]
        first := fun i hi => Scopes.binding?_eq_none hinner _ hi
        bindings := Scopes.binding?_append_cons inner outer hframe
        frames := by simp
        console := rfl
        visible := fun n hn => ⟨_, _, popFrames_apply hn, popFrames_apply (by simpa using hn),
          fun name => lookup_of_resolve? (Scopes.resolve?_drop_rebind hinner hold n name)⟩ }

/-- A declaration fails where the innermost frame holds the name. -/
theorem declare_eq_error (hnonempty : context.scopes ≠ []) :
    declare v context = .error failure after ↔
      after = context ∧ ∃ previous, context.scopes.binding? 0 v.name = some previous ∧
        failure = .error (.alreadyDefined v.line v.name previous.line) := by
  obtain ⟨_ | ⟨frame, frames⟩, console⟩ := context
  · exact absurd rfl hnonempty
  · have hbinding : Scopes.binding? (frame :: frames) 0 v.name = frame.get? v.name := rfl
    rw [declare_apply, hbinding]
    cases frame.get? v.name with
    | some previous => simp [eq_comm, and_comm]
    | none => simp

theorem declares_of_declare (hnonempty : context.scopes ≠ [])
    (hdeclare : declare v context = .ok () after) : Declares v context after := by
  obtain ⟨_ | ⟨frame, frames⟩, console⟩ := context
  · exact absurd rfl hnonempty
  · rw [declare_apply] at hdeclare
    cases hget : frame.get? v.name with
    | some previous =>
        rw [hget] at hdeclare
        cases hdeclare
    | none =>
        rw [hget] at hdeclare
        cases hdeclare
        exact {
          bindings := Scopes.binding?_append_cons [] frames (Frame.get?_bind frame v)
          frames := rfl
          console := rfl
          visible := fun name => lookup_of_resolve? (Scopes.resolve?_bind frame frames v name) }

end Context

/-! ## Changes one after the other -/

namespace Scopes

/-- What a context can be asked to do to its scopes. -/
inductive Change
  | declare (v : Variable)
  | update (v : Variable) (line : Nat)
  | push
  | pop
  deriving DecidableEq, Repr

namespace Change

/-- Asks a context for the change. -/
def perform {World : Type} : Change → ExecOn World Unit
  | .declare v => Exec.declare v
  | .update v line => Exec.update v line
  | .push => Exec.pushFrame
  | .pop => Exec.popFrame

/-- The frames after the change, which are as before if it fails. -/
def apply (scopes : Scopes) : Change → Scopes
  | .declare v =>
      match scopes.declare v with
      | .ok scopes' => scopes'
      | .error _ => scopes
  | .update v _ => (scopes.update? v).getD scopes
  | .push => scopes.push
  | .pop => scopes.pop?.getD scopes

/-- Whether the change is an update of which the frames do not hold the name. -/
def passes (scopes : Scopes) : Change → Bool
  | .update v _ => (scopes.resolve? v.name).isNone
  | .declare _ | .push | .pop => false

/-- Whether, after `depth` frames were pushed, the changes drop these and all that they
push themselves, and no other frame. -/
def balanced : Nat → List Change → Bool
  | depth, [] => depth == 0
  | depth, .push :: changes => balanced (depth + 1) changes
  | 0, .pop :: _ => false
  | depth + 1, .pop :: changes => balanced depth changes
  | depth, .declare _ :: changes | depth, .update _ _ :: changes => balanced depth changes

/-- The updates that pass the frames.  These are followed through the changes as if
there were no others. -/
def passing (inner : Scopes) : List Change → List Change
  | [] => []
  | change :: changes =>
      (if change.passes inner then [change] else []) ++ passing (change.apply inner) changes

variable {scopes inner : Scopes}

theorem length_apply_declare (scopes : Scopes) (v : Variable) :
    ((Change.declare v).apply scopes).length = scopes.length := by
  obtain _ | ⟨frame, frames⟩ := scopes
  · rfl
  · rw [apply, Scopes.declare]
    cases frame.get? v.name <;> rfl

theorem length_apply_update (scopes : Scopes) (v : Variable) (line : Nat) :
    ((Change.update v line).apply scopes).length = scopes.length := by
  rw [apply]
  cases hupdate : scopes.update? v with
  | none => rfl
  | some scopes' => exact length_update? hupdate

theorem passes_update (scopes : Scopes) (v : Variable) (line : Nat) :
    (Change.update v line).passes scopes = (scopes.update? v).isNone := by
  rw [passes, Bool.eq_iff_iff, Option.isNone_iff_eq_none, Option.isNone_iff_eq_none,
    update?_eq_none]

/-- The outermost frame is never lost. -/
theorem apply_ne_nil (hnonempty : scopes ≠ []) (change : Change) : change.apply scopes ≠ [] := by
  rw [← List.length_pos_iff] at hnonempty ⊢
  cases change with
  | declare v => rwa [length_apply_declare]
  | update v line => rwa [length_apply_update]
  | push => exact Nat.succ_pos _
  | pop =>
      obtain _ | ⟨_, _ | ⟨frame, frames⟩⟩ := scopes
      · exact hnonempty
      · exact hnonempty
      · exact Nat.succ_pos _

/-- What one change does to frames that lie upon others: it changes those above, as if
they were alone, and it changes those below only if it is an update that passes.  The
frame on which the others lie is not dropped. -/
theorem apply_append (hnonempty : inner ≠ []) (outer : Scopes) {change : Change}
    (hpop : change = .pop → inner.length ≠ 1) :
    change.apply (inner ++ outer) =
      change.apply inner ++ (if change.passes inner then change.apply outer else outer) := by
  -- a change stops at the frames inside, except an update of a name that none of them holds
  cases change with
  | declare v =>
      obtain _ | ⟨frame, frames⟩ := inner
      · exact absurd rfl hnonempty
      · simp only [apply, passes, List.cons_append, Scopes.declare]
        cases frame.get? v.name <;> rfl
  | update v line =>
      rw [passes_update, apply, apply, apply, update?_append]
      cases inner.update? v with
      | none => cases outer.update? v <;> rfl
      | some inner' => rfl
  | push => rfl
  | pop =>
      obtain _ | ⟨_, _ | ⟨frame, frames⟩⟩ := inner
      · exact absurd rfl hnonempty
      · exact absurd rfl (hpop rfl)
      · rfl

/-- The next change of a balanced sequence does not drop the frame on which the others
lie, and the sequence goes on from the number of frames that there are then. -/
theorem exists_balanced_of_cons {depth : Nat} {change : Change} {changes : List Change}
    (hbalanced : balanced depth (change :: changes) = true) (hlength : inner.length = depth + 1) :
    (change = .pop → inner.length ≠ 1) ∧
      ∃ depth', balanced depth' changes = true ∧ (change.apply inner).length = depth' + 1 := by
  cases change with
  | declare v => exact ⟨nofun, depth, hbalanced, by rw [length_apply_declare, hlength]⟩
  | update v line => exact ⟨nofun, depth, hbalanced, by rw [length_apply_update, hlength]⟩
  | push => exact ⟨nofun, depth + 1, hbalanced, congrArg (· + 1) hlength⟩
  | pop =>
      obtain _ | depth := depth
      · cases hbalanced
      · obtain _ | ⟨_, _ | ⟨frame, frames⟩⟩ := inner
        · cases hlength
        · cases hlength
        · exact ⟨fun _ => by simp, depth, hbalanced, Nat.succ.inj hlength⟩

/-- Up to any moment, the changes make of the frames above what they make of them alone,
and of those below what the updates make that pass. -/
theorem foldl_append (changes : List Change) {depth : Nat} {inner : Scopes}
    (hbalanced : balanced depth changes = true) (hlength : inner.length = depth + 1)
    (outer : Scopes) (n : Nat) :
    (changes.take n).foldl apply (inner ++ outer) =
      (changes.take n).foldl apply inner ++ (passing inner (changes.take n)).foldl apply outer := by
  induction changes generalizing depth inner outer n with
  | nil =>
      rw [List.take_nil]
      rfl
  | cons change changes ih =>
      cases n with
      | zero => rfl
      | succ n =>
          obtain ⟨hpop, depth', hbalanced', hlength'⟩ := exists_balanced_of_cons hbalanced hlength
          have hnonempty : inner ≠ [] := List.ne_nil_of_length_eq_add_one hlength
          rw [List.take_succ_cons, List.foldl_cons, apply_append hnonempty outer hpop,
            ih hbalanced' hlength', passing, List.foldl_append, List.foldl_cons]
          split <;> rfl

/-- When all changes are made, one frame is left of those above. -/
theorem length_foldl (changes : List Change) {depth : Nat} {inner : Scopes}
    (hbalanced : balanced depth changes = true) (hlength : inner.length = depth + 1) :
    (changes.foldl apply inner).length = 1 := by
  induction changes generalizing depth inner with
  | nil =>
      obtain rfl : depth = 0 := by simpa [balanced] using hbalanced
      exact hlength
  | cons change changes ih =>
      obtain ⟨-, depth', hbalanced', hlength'⟩ := exists_balanced_of_cons hbalanced hlength
      exact ih hbalanced' hlength'

theorem foldl_ne_nil (hnonempty : scopes ≠ []) (changes : List Change) :
    changes.foldl apply scopes ≠ [] := by
  induction changes generalizing scopes with
  | nil => exact hnonempty
  | cons change changes ih => exact ih (apply_ne_nil hnonempty change)

end Change

end Scopes

namespace Context

open Exec Scopes

variable {World : Type} {context : Context World}

/-- The context after some changes, each of them made whether or not others failed. -/
def changed (context : Context World) (changes : List Change) : Context World :=
  changes.foldl (fun context change => ending (change.perform context)) context

theorem ending_perform (change : Change) (context : Context World) :
    ending (change.perform context) =
      { context with scopes := change.apply context.scopes } := by
  cases change with
  | declare v =>
      simp only [Change.perform, Exec.declare, Change.apply]
      cases context.scopes.declare v <;> rfl
  | update v line =>
      simp only [Change.perform, update_apply, Change.apply]
      cases context.scopes.update? v <;> rfl
  | push => rfl
  | pop =>
      simp only [Change.perform, popFrame, Change.apply]
      cases context.scopes.pop? <;> rfl

theorem changed_eq (context : Context World) (changes : List Change) :
    context.changed changes =
      { context with scopes := changes.foldl Change.apply context.scopes } := by
  induction changes generalizing context with
  | nil => rfl
  | cons change changes ih =>
      rw [changed, List.foldl_cons, ending_perform]
      exact ih _

/-- After a frame was pushed, the frames below it are at any moment what the updates
leave that pass the frames above. -/
theorem changed_push {changes : List Change} (hbalanced : Change.balanced 0 changes = true)
    (context : Context World) (n : Nat) :
    (context.changed (.push :: changes.take n)).scopes =
      (changes.take n).foldl Change.apply [[]] ++
        (context.changed (Change.passing [[]] (changes.take n))).scopes := by
  rw [changed_eq, changed_eq]
  exact Change.foldl_append changes hbalanced List.length_singleton context.scopes n

/-- Once it is dropped again, there is nothing else left of the changes. -/
theorem changed_push_pop (hnonempty : context.scopes ≠ []) {changes : List Change}
    (hbalanced : Change.balanced 0 changes = true) :
    context.changed (.push :: changes ++ [.pop]) =
      context.changed (Change.passing [[]] changes) := by
  have hbelow : (Change.passing [[]] changes).foldl Change.apply context.scopes ≠ [] :=
    Change.foldl_ne_nil hnonempty _
  obtain ⟨frame, habove⟩ := List.length_eq_one_iff.mp
    (Change.length_foldl changes hbalanced (List.length_singleton (a := ([] : Frame))))
  obtain ⟨outermost, frames, hframes⟩ := List.exists_cons_of_ne_nil hbelow
  have hpush : (Change.push :: changes).foldl Change.apply context.scopes =
      [frame] ++ (Change.passing [[]] changes).foldl Change.apply context.scopes := by
    have happend := Change.foldl_append changes hbalanced
      (List.length_singleton (a := ([] : Frame))) context.scopes changes.length
    rwa [List.take_length, habove] at happend
  rw [changed_eq, changed_eq, List.foldl_append, hpush, hframes]
  rfl

/-- Updates and lookups mean the same variable, declarations concern the innermost frame
alone, and what is done while a frame is there reaches the frames below it by the updates
alone whose name was not bound above. -/
theorem scope_laws (hwf : context.scopes.WellFormed) :
    (∀ v line,
      ((∃ failure after, update v line context = .error failure after) ↔
        ∃ failure after, lookup v.name line context = .error failure after) ∧
      (∀ failure after, update v line context = .error failure after →
        failure = .error (.undefinedVariable line v.name) ∧ after = context) ∧
      ∀ after, update v line context = .ok () after →
        ∃ old depth, Replaces v old depth context after) ∧
    (∀ v,
      ((∃ failure after, Exec.declare v context = .error failure after) ↔
        ∃ previous, context.scopes.binding? 0 v.name = some previous) ∧
      (∀ failure after, Exec.declare v context = .error failure after →
        after = context ∧ ∃ previous, context.scopes.binding? 0 v.name = some previous ∧
          failure = .error (.alreadyDefined v.line v.name previous.line)) ∧
      ∀ after, Exec.declare v context = .ok () after → Declares v context after) ∧
    ∀ changes, Change.balanced 0 changes = true →
      (∀ n, (context.changed (.push :: changes.take n)).scopes =
        (changes.take n).foldl Change.apply [[]] ++
          (context.changed (Change.passing [[]] (changes.take n))).scopes) ∧
      context.changed (.push :: changes ++ [.pop]) =
        context.changed (Change.passing [[]] changes) := by
  refine ⟨fun v line => ⟨?_, fun failure after hfailure => ?_, fun after => replaces_of_update⟩,
    fun v => ⟨?_, fun failure after => (declare_eq_error hwf.1).mp,
      fun after => declares_of_declare hwf.1⟩,
    fun changes hbalanced => ⟨changed_push hbalanced context, changed_push_pop hwf.1 hbalanced⟩⟩
  · simp only [update_eq_error]
  · rw [update_eq_error, lookup_apply] at hfailure
    cases hresolve : context.scopes.resolve? v.name with
    | none =>
        rw [hresolve] at hfailure
        cases hfailure
        exact ⟨rfl, rfl⟩
    | some old =>
        rw [hresolve] at hfailure
        cases hfailure
  · simp only [declare_eq_error hwf.1]
    constructor
    · rintro ⟨_, _, -, previous, hprevious, -⟩
      exact ⟨previous, hprevious⟩
    · rintro ⟨previous, hprevious⟩
      exact ⟨_, _, rfl, previous, hprevious, rfl⟩

/-- An `x` in front of another one, and what changes while a third one is in front of both. -/
theorem scope_laws_shadowed :
    let x (n : Int64) : Variable := ⟨"x", 1, .int, some (.int n)⟩
    let y (n : Int64) : Variable := ⟨"y", 1, .int, some (.int n)⟩
    let context : Context := ⟨[[("x", x 2)], [("y", y 0), ("x", x 1)]], .ofLines []⟩
    context.scopes.WellFormed ∧
      (∃ old depth, Replaces (x 5) old depth context
        ⟨[[("x", x 5)], [("y", y 0), ("x", x 1)]], .ofLines []⟩) ∧
      Declares (y 6) context
        ⟨[[("y", y 6), ("x", x 2)], [("y", y 0), ("x", x 1)]], .ofLines []⟩ ∧
      context.changed [.push, .update (x 3) 2, .declare (x 4), .push, .update (y 7) 3,
          .update (x 8) 3, .pop, .declare (y 9), .update (y 10) 4, .pop] =
        context.changed [.update (x 3) 2, .update (y 7) 3] := by
  intro x y context
  have hwf : context.scopes.WellFormed := by decide
  have hupdate : update (x 5) 2 context =
      .ok () ⟨[[("x", x 5)], [("y", y 0), ("x", x 1)]], .ofLines []⟩ := by rfl
  have hdeclare : Exec.declare (y 6) context =
      .ok () ⟨[[("y", y 6), ("x", x 2)], [("y", y 0), ("x", x 1)]], .ofLines []⟩ := by rfl
  have hbalanced : Change.balanced 0 [.update (x 3) 2, .declare (x 4), .push, .update (y 7) 3,
      .update (x 8) 3, .pop, .declare (y 9), .update (y 10) 4] = true := by decide
  have hlaws := scope_laws hwf
  exact ⟨hwf, (hlaws.1 (x 5) 2).2.2 _ hupdate, (hlaws.2.1 (y 6)).2.2 _ hdeclare,
    (hlaws.2.2 _ hbalanced).2⟩

end Context

end Primer
