import Primer.Execution
import Primer.Proofs.Grammar.Parts
import Primer.Proofs.Semantics.Running

/-!
# Expressions on trees

Evaluating the tree of an expression yields the value that the expression has
in the scopes, or the same error, and changes nothing.  This needs no
assumption about the scopes: the trees of expressions always have the shape
that the actions rely on.
-/

namespace Primer

open Stateful

/-! ## Operators -/

/-- The quotient of words is that of the integers they stand for. -/
theorem quotient?_eq_exactQuotient? (dividend divisor : Int64) :
    quotient? dividend divisor = Operator.exactQuotient? dividend.toInt divisor.toInt := by
  unfold quotient? Operator.exactQuotient?
  by_cases hzero : divisor = 0
  · simp [hzero]
  have hzero' : divisor.toInt ≠ 0 := fun heq => hzero (Int64.toInt.inj heq)
  rw [if_neg hzero']
  by_cases hoverflow : dividend = Int64.minValue ∧ divisor = -1
  · obtain ⟨rfl, rfl⟩ := hoverflow
    decide
  rw [if_neg (not_or.mpr ⟨hzero, hoverflow⟩)]
  have hdiv : (dividend / divisor).toInt = dividend.toInt.tdiv divisor.toInt := by
    by_cases hleft : dividend = Int64.minValue
    · exact Int64.toInt_div_of_ne_right dividend divisor fun heq => hoverflow ⟨hleft, heq⟩
    · exact Int64.toInt_div_of_ne_left dividend divisor hleft
  rw [Decimal.word?, ← hdiv, if_pos ⟨Int64.minValue_le_toInt _, Int64.toInt_le _⟩,
    Int64.ofInt_toInt]

@[simp] theorem Token.kind_symbol (s : Symbol) (line : Nat) :
    (⟨.symbol s, line⟩ : Token).kind = .symbol s := rfl

theorem applyOperator_symbol (operator : Operator) (line : Nat) (left right : Value) :
    applyOperator left ⟨.symbol operator.symbol, line⟩ right = operator.apply line left right := by
  -- both sides ask for the types first; operands of different types fail whatever the symbol
  cases left with
  | int l =>
      cases right with
      | int r =>
          cases operator with
          | divide =>
              simp only [Operator.apply, ← quotient?_eq_exactQuotient?]
              simp only [applyOperator, combine?, Token.kind_symbol, Operator.symbol]
              cases quotient? l r <;> rfl
          | less =>
              simp [applyOperator, combine?, Operator.apply, Operator.symbol,
                Int64.lt_iff_toInt_lt]
          | _ =>
              simp [applyOperator, combine?, Operator.apply, Operator.symbol, Bool.beq_eq_decide_eq]
      | _ => cases operator <;> simp [applyOperator, Operator.apply]
  | string l =>
      cases right with
      | string r =>
          cases operator <;>
            simp [applyOperator, combine?, Operator.apply, Operator.symbol, Bool.beq_eq_decide_eq]
      | _ => cases operator <;> simp [applyOperator, Operator.apply]
  | bool l =>
      cases right with
      | bool r =>
          cases operator <;>
            simp [applyOperator, combine?, Operator.apply, Operator.symbol, Bool.beq_eq_decide_eq]
      | _ => cases operator <;> simp [applyOperator, Operator.apply]

/-! ## Evaluation -/

@[simp] theorem Exec.ofExcept_ok {α : Type} (a : α) :
    Exec.ofExcept (.ok a) = (pure a : Exec α) := rfl

theorem Exec.ofExcept_bind {α β : Type} (x : Except Error α) (f : α → Except Error β)
    (context : Context) :
    Exec.ofExcept (x >>= f) context =
      (Exec.ofExcept x >>= fun a => Exec.ofExcept (f a)) context := by
  cases x <;> rfl

theorem exists_of_bind_eq_ok {α β : Type} {result : Except Error α} {f : α → Except Error β} {b : β}
    (hbind : result >>= f = .ok b) : ∃ a, result = .ok a ∧ f a = .ok b := by
  cases result with
  | error error => cases hbind
  | ok a => exact ⟨a, rfl, hbind⟩

theorem Exec.lookup_valueAt (name : String) (line : Nat) (context : Context) :
    (Exec.lookup name line >>= fun v => Exec.ofExcept (v.valueAt line)) context =
      Exec.ofExcept (context.scopes.valueOf name line) context := by
  rw [bind_apply, Exec.lookup, Scopes.valueOf]
  cases context.scopes.resolve? name <;> rfl

mutual

theorem Operand.evaluate_tree (operand : Operand) (context : Context) :
    evaluate operand.tree context = Exec.ofExcept (operand.value context.scopes) context := by
  cases operand with
  | literal value line => cases value <;> rfl
  | name name line =>
      simp only [Operand.tree, evaluate, perform, Node.name, Lexeme.name?, Exec.demand, pure_bind,
        bind_assoc, bind_pure, Operand.value]
      exact Exec.lookup_valueAt name line context
  | group openLine inner closeLine =>
      simp only [Operand.tree, evaluate, perform, Exec.demand, pure_bind, bind_assoc, bind_pure,
        Operand.value]
      exact inner.evaluate_tree context

theorem Expression.evaluate_tree (expression : Expression) (context : Context) :
    evaluate expression.tree context =
      Exec.ofExcept (expression.value context.scopes) context := by
  cases expression with
  | negation line operand =>
      simp only [Expression.tree, evaluate, perform, Node.symbol, Exec.demand, pure_bind,
        bind_assoc, bind_pure, Expression.value]
      rw [bind_congr_left (operand.evaluate_tree context), Exec.ofExcept_bind]
      rcases operand.value context.scopes with _ | (_ | _ | _) <;> rfl
  | single operand =>
      simp only [Expression.tree, evaluate, perform, Exec.demand, pure_bind, bind_assoc,
        bind_pure, Expression.value]
      exact operand.evaluate_tree context
  | operation left operator line right =>
      simp only [Expression.tree, evaluate, perform, Node.symbol, Node.token?, Exec.demand,
        pure_bind, bind_assoc, bind_pure, applyOperator_symbol, Expression.value]
      rw [bind_congr_left (left.evaluate_tree context), Exec.ofExcept_bind]
      -- the right operand is evaluated where the left one left off, which is the same context
      cases left.value context.scopes with
      | error error => rfl
      | ok l =>
          show (evaluate right.tree >>= fun r => Exec.ofExcept (operator.apply line l r)) context =
            Exec.ofExcept (right.value context.scopes >>= fun r => operator.apply line l r) context
          rw [bind_congr_left (right.evaluate_tree context), Exec.ofExcept_bind]

end

theorem Exec.ofExcept_eq_ok {α : Type} {result : Except Error α} {context after : Context} {a : α} :
    Exec.ofExcept result context = .ok a after ↔ result = .ok a ∧ context = after := by
  cases result with
  | error error => exact ⟨(fun heq => nomatch heq), fun heq => nomatch heq.1⟩
  | ok b =>
      show EStateM.Result.ok b context = .ok a after ↔ _
      simp

theorem Expression.evaluate_eq_ok {source : Expression} {value : Value} {context after : Context} :
    evaluate source.tree context = .ok value after ↔
      source.value context.scopes = .ok value ∧ context = after := by
  rw [source.evaluate_tree, Exec.ofExcept_eq_ok]

/-- Every node with a value in a program is evaluated like an expression; an
operand is like the expression that consists of it. -/
theorem Program.exists_evaluate_eq {program : Program} {action : Action} {children : List Node}
    (hpart : .deferred action children ∈ program.tree.parts) (hvalue : action.hasValue = true) :
    ∃ source : Expression, ∀ context : Context, evaluate (.deferred action children) context =
      Exec.ofExcept (source.value context.scopes) context := by
  rcases program.source_of_mem_parts hpart hvalue with ⟨source, htree⟩ | ⟨operand, htree⟩
  · exact ⟨source, fun context => htree ▸ source.evaluate_tree context⟩
  · exact ⟨.single operand, fun context => htree ▸ operand.evaluate_tree context⟩

/-! ## Where expressions start -/

mutual

@[simp] theorem Operand.line?_tree (operand : Operand) :
    operand.tree.line? = some operand.firstLine := by
  cases operand <;> rfl

@[simp] theorem Expression.line?_tree (expression : Expression) :
    expression.tree.line? = some expression.firstLine := by
  cases expression with
  | negation line operand => rfl
  | single operand =>
      have hfirst := operand.line?_tree
      simp only [Node.line?, Option.map_eq_some_iff] at hfirst ⊢
      obtain ⟨t, ht, hline⟩ := hfirst
      exact ⟨t, by simp [Expression.tree, Node.firstToken?, Node.firstTokenOfAll?, ht], hline⟩
  | operation left operator line right =>
      have hfirst := left.line?_tree
      simp only [Node.line?, Option.map_eq_some_iff] at hfirst ⊢
      obtain ⟨t, ht, hline⟩ := hfirst
      exact ⟨t, by simp [Expression.tree, Node.firstToken?, Node.firstTokenOfAll?, ht], hline⟩

end

/-! ## Expressions of a required type -/

theorem Expression.evaluate_valueOfType (source : Expression) (ty : Ty) (line : Nat)
    (context : Context) :
    (do
      let value ← evaluate source.tree
      expectType ty value line
      return value : Exec Value) context =
      Exec.ofExcept (source.valueOfType context.scopes ty line) context := by
  rw [bind_congr_left (source.evaluate_tree context), valueOfType, Exec.ofExcept_bind]
  cases source.value context.scopes with
  | error error => rfl
  | ok value =>
      rw [Exec.ofExcept_ok, pure_bind, pure_bind, expectType]
      split <;> rfl

theorem Expression.valueOfType_eq_ok {source : Expression} {scopes : Scopes} {ty : Ty}
    {line : Nat} {value : Value} (hvalue : source.valueOfType scopes ty line = .ok value) :
    value.ty = ty := by
  obtain ⟨held, -, hheld⟩ := exists_of_bind_eq_ok hvalue
  split at hheld
  · next hty =>
      cases hheld
      exact hty
  · cases hheld

theorem Expression.bound_eq_ok {source : Expression} {scopes : Scopes} {i : Int64} :
    source.bound scopes = .ok i ↔ source.value scopes = .ok (.int i) := by
  unfold bound
  rcases source.value scopes with _ | (_ | _ | _) <;> simp [bind, Except.bind, pure, Except.pure]

theorem Expression.evaluate_bound (source : Expression) (line : Nat) (context : Context) :
    (evaluate source.tree >>= asBound source.tree line) context =
      Exec.ofExcept (source.bound context.scopes) context := by
  rw [bind_congr_left (source.evaluate_tree context), bound, Exec.ofExcept_bind]
  rcases source.value context.scopes with _ | (_ | _ | _)
  · rfl
  · rfl
  · simp only [Exec.ofExcept_ok, pure_bind, asBound, source.line?_tree]
    rfl
  · simp only [Exec.ofExcept_ok, pure_bind, asBound, source.line?_tree]
    rfl

end Primer
