/-!
# Computations with a state that can fail

Parsing and running are both computations of this kind.  A sequence of two
computations is opened by these equations wherever one of its ends is known.
-/

namespace Primer.Stateful

variable {ε σ α β : Type}

/-- The state in which a computation ends. -/
def endState : EStateM.Result ε σ α → σ
  | .ok _ s | .error _ s => s

/-- The same result in another state. -/
def endingIn (s : σ) : EStateM.Result ε σ α → EStateM.Result ε σ α
  | .ok a _ => .ok a s
  | .error failure _ => .error failure s

theorem bind_apply (m : EStateM ε σ α) (f : α → EStateM ε σ β) (s : σ) :
    (m >>= f) s =
      match m s with
      | .ok a s' => f a s'
      | .error failure s' => .error failure s' := rfl

theorem bind_of_ok {m : EStateM ε σ α} {s s' : σ} {a : α} (hm : m s = .ok a s')
    (f : α → EStateM ε σ β) : (m >>= f) s = f a s' := by
  rw [bind_apply, hm]

theorem bind_of_error {m : EStateM ε σ α} {s s' : σ} {failure : ε} (hm : m s = .error failure s')
    (f : α → EStateM ε σ β) : (m >>= f) s = .error failure s' := by
  rw [bind_apply, hm]

theorem bind_congr_left {m m' : EStateM ε σ α} {s : σ} (hm : m s = m' s)
    (f : α → EStateM ε σ β) : (m >>= f) s = (m' >>= f) s := by
  rw [bind_apply, bind_apply, hm]

/-- A sequence succeeds if both of its parts do. -/
theorem bind_eq_ok {m : EStateM ε σ α} {f : α → EStateM ε σ β} {s s'' : σ} {b : β} :
    (m >>= f) s = .ok b s'' ↔ ∃ a s', m s = .ok a s' ∧ f a s' = .ok b s'' := by
  cases hm : m s with
  | ok a s' => simp [bind_of_ok hm, and_assoc]
  | error failure s' => simp [bind_of_error hm]

/-- A sequence fails where its first failing part does. -/
theorem bind_eq_error {m : EStateM ε σ α} {f : α → EStateM ε σ β} {s s'' : σ} {failure : ε} :
    (m >>= f) s = .error failure s'' ↔
      m s = .error failure s'' ∨ ∃ a s', m s = .ok a s' ∧ f a s' = .error failure s'' := by
  cases hm : m s with
  | ok a s' => simp [bind_of_ok hm, and_assoc]
  | error failure s' => simp [bind_of_error hm]

end Primer.Stateful
