import Primer.Error

/-!
# Variables and scopes

A variable has a type from its declaration on, and a value once it was assigned
one.  Variables live in frames, and frames form a stack: the body of a loop
runs in a frame of its own.  A name refers to the innermost frame that holds it.

`Scopes.WellFormed` is what every operation keeps: there is an outermost frame,
each frame holds a name at most once and under the name of its variable, and a
value has the type of its variable.
-/

namespace Primer

/-! ## Variables -/

/-- A variable: how it was declared, and the value that it has since. -/
structure Variable where
  name : String
  /-- The line of the declaration. -/
  line : Nat
  ty : Ty
  value? : Option Value
  deriving DecidableEq, Repr

namespace Variable

/-- The value has the type of the variable. -/
def WellTyped (v : Variable) : Prop := ∀ value ∈ v.value?, value.ty = v.ty

instance (v : Variable) : Decidable v.WellTyped :=
  inferInstanceAs (Decidable (∀ value ∈ v.value?, value.ty = v.ty))

/-- A variable with the given value, whose type has to be the variable's. -/
def make? (name : String) (line : Nat) (ty : Ty) (value? : Option Value) : Option Variable :=
  if value?.all fun value => value.ty == ty then some ⟨name, line, ty, value?⟩ else none

/-- A variable that was declared without a value. -/
def declared (name : String) (line : Nat) (ty : Ty) : Variable := ⟨name, line, ty, none⟩

/-- The same variable with a new value, which has to be of its type. -/
def withValue? (v : Variable) (value : Value) : Option Variable :=
  make? v.name v.line v.ty (some value)

/-- The value for a use on `line`. -/
def valueAt (v : Variable) (line : Nat) : Except Error Value :=
  match v.value? with
  | some value => .ok value
  | none => .error (.uninitialized line v.name)

theorem wellTyped_of_make? {name : String} {line : Nat} {ty : Ty} {value? : Option Value}
    {v : Variable} (hmake : make? name line ty value? = some v) : v.WellTyped := by
  unfold make? at hmake
  split at hmake
  · next hall =>
      cases hmake
      intro value hvalue
      cases hvalue
      simpa using hall
  · cases hmake

end Variable

/-! ## Frames -/

/-- The variables of one frame, each under its name. -/
abbrev Frame := List (String × Variable)

namespace Frame

/-- The variable that a frame holds under a name. -/
def get? (frame : Frame) (name : String) : Option Variable := List.lookup name frame

/-- Binds the name of a variable that the frame does not hold yet. -/
def bind (frame : Frame) (v : Variable) : Frame := (v.name, v) :: frame

/-- Replaces what the name of a variable is bound to. -/
def rebind (frame : Frame) (v : Variable) : Frame :=
  frame.map fun (name, old) => if name = v.name then (name, v) else (name, old)

/-- Each name is bound once, to a well-typed variable of that name. -/
def WellFormed (frame : Frame) : Prop :=
  (frame.map Prod.fst).Nodup ∧ ∀ binding ∈ frame, binding.2.name = binding.1 ∧ binding.2.WellTyped

instance (frame : Frame) : Decidable frame.WellFormed := inferInstanceAs (Decidable (_ ∧ _))

end Frame

/-! ## Stacks of frames -/

/-- The frames in use, innermost first. -/
abbrev Scopes := List Frame

namespace Scopes

/-- The outermost frame alone, with nothing declared. -/
def initial : Scopes := [[]]

/-- There is an outermost frame, and every frame is well-formed. -/
def WellFormed (scopes : Scopes) : Prop :=
  scopes ≠ [] ∧ ∀ frame ∈ scopes, Frame.WellFormed frame

instance (scopes : Scopes) : Decidable scopes.WellFormed := inferInstanceAs (Decidable (_ ∧ _))

/-- The variable that a name refers to. -/
def resolve? (scopes : Scopes) (name : String) : Option Variable :=
  scopes.findSome? fun frame => frame.get? name

/-- Declares a variable in the innermost frame, which must not hold its name. -/
def declare : Scopes → Variable → Except Failure Scopes
  | [], _ => .error .misuse
  | frame :: frames, v =>
      match frame.get? v.name with
      | some previous => .error (.error (.alreadyDefined v.line v.name previous.line))
      | none => .ok (frame.bind v :: frames)

/-- Replaces the variable that the name of `v` refers to by `v`. -/
def update? : Scopes → Variable → Option Scopes
  | [], _ => none
  | frame :: frames, v =>
      if (frame.get? v.name).isSome then some (frame.rebind v :: frames)
      else (update? frames v).map (frame :: ·)

/-- Puts an empty frame in front of the others. -/
def push (scopes : Scopes) : Scopes := [] :: scopes

/-- Drops the innermost frame, never the outermost one. -/
def pop? : Scopes → Option Scopes
  | _ :: frame :: frames => some (frame :: frames)
  | _ => none

theorem wellFormed_initial : initial.WellFormed := by
  refine ⟨by decide, ?_⟩
  intro frame hframe
  obtain rfl := List.mem_singleton.mp hframe
  exact ⟨List.nodup_nil, fun _ hbinding => nomatch hbinding⟩

@[simp] theorem pop?_push (scopes : Scopes) (hnonempty : scopes ≠ []) :
    pop? (push scopes) = some scopes := by
  cases scopes with
  | nil => exact absurd rfl hnonempty
  | cons frame frames => rfl

end Scopes

end Primer
