import Mathlib
import Primer.Proofs.Semantics.Expressions
import Primer.Proofs.Token.LongestMatch

/-!
# Integer arithmetic at its limits

Sums, differences and products wrap: what they yield is the one word that is
congruent to the exact result modulo `2 ^ 64`.  Congruence is kept by all three,
so in an expression it does not matter how often a result has wrapped before
(`Expression.value_of_unbounded?`).  A quotient does not wrap.  It is the exact one
toward zero, or a fault where there is none or where it does not fit a word, and
so congruence is of no use to it.

## Main results

* `toInt_modEq_iff` : words and their congruence classes.
* `truncated_iff` : quotients toward zero.
* `integer_arithmetic` : the operators on integers, and expressions that are made
  of sums, differences and products.
-/

namespace Primer

open Lexer

/-! ## Integers modulo the number of words -/

/-- A word is congruent to exactly the integers that wrap to it. -/
theorem toInt_modEq_iff {i : Int64} {n : Int} : i.toInt ≡ n [ZMOD 2 ^ 64] ↔ i = .ofInt n := by
  have hofInt : (Int64.ofInt n).toInt = n.bmod (2 ^ 64) := Int64.toInt_ofInt
  constructor
  · intro hmod
    refine Int64.toInt.inj ?_
    calc i.toInt = i.toInt.bmod (2 ^ 64) := i.toInt_bmod.symm
      _ = (i.toInt % 2 ^ 64).bmod (2 ^ 64) := (Int.emod_bmod ..).symm
      _ = (n % 2 ^ 64).bmod (2 ^ 64) := by rw [hmod]
      _ = n.bmod (2 ^ 64) := Int.emod_bmod ..
      _ = (Int64.ofInt n).toInt := hofInt.symm
  · rintro rfl
    rw [hofInt]
    exact Int.bmod_emod

namespace Operator

/-- What an operator whose results wrap does with integers that have no bound. -/
def onIntegers? : Operator → Option (Int → Int → Int)
  | .add => some (· + ·)
  | .subtract => some (· - ·)
  | .multiply => some (· * ·)
  | .divide | .less | .equal | .both => none

variable {operator : Operator} {f : Int → Int → Int}

theorem apply_of_onIntegers? (hf : operator.onIntegers? = some f) (line : Nat) (l r : Int64) :
    operator.apply line (.int l) (.int r) = .ok (.int (.ofInt (f l.toInt r.toInt))) := by
  cases operator <;> cases hf <;> rfl

/-- Congruent operands have congruent results. -/
theorem modEq_of_onIntegers? (hf : operator.onIntegers? = some f) {modulus a a' b b' : Int}
    (ha : a ≡ a' [ZMOD modulus]) (hb : b ≡ b' [ZMOD modulus]) : f a b ≡ f a' b' [ZMOD modulus] := by
  cases operator with
  | add =>
      cases hf
      exact ha.add hb
  | subtract =>
      cases hf
      exact ha.sub hb
  | multiply =>
      cases hf
      exact ha.mul hb
  | divide | less | equal | both => cases hf

/-! ## Quotients -/

theorem exactQuotient?_eq_none {dividend divisor : Int} :
    exactQuotient? dividend divisor = none ↔
      divisor = 0 ∨ ¬(-2 ^ 63 ≤ dividend.tdiv divisor ∧ dividend.tdiv divisor < 2 ^ 63) := by
  unfold exactQuotient?
  by_cases hzero : divisor = 0
  · simp [hzero]
  · rw [if_neg hzero, word?_eq_none]
    exact (or_iff_right hzero).symm

theorem exactQuotient?_eq_some {dividend divisor : Int} {q : Int64}
    (hquotient : exactQuotient? dividend divisor = some q) :
    divisor ≠ 0 ∧ q.toInt = dividend.tdiv divisor := by
  unfold exactQuotient? at hquotient
  split at hquotient
  · cases hquotient
  · next hzero => exact ⟨hzero, word?_eq_some.mp hquotient⟩

/-- A quotient is a fault where there is none that fits a word. -/
theorem apply_divide_eq_error {l r : Int64} {line : Nat} :
    divide.apply line (.int l) (.int r) = .error (.arithmeticFault line) ↔
      r = 0 ∨ ¬(-2 ^ 63 ≤ l.toInt.tdiv r.toInt ∧ l.toInt.tdiv r.toInt < 2 ^ 63) := by
  have hzero : r.toInt = 0 ↔ r = 0 := Int64.toInt_inj (y := 0)
  rw [← hzero, ← exactQuotient?_eq_none, Operator.apply]
  cases exactQuotient? l.toInt r.toInt <;> simp

theorem exists_apply_divide {l r : Int64} {line : Nat}
    (hfault : divide.apply line (.int l) (.int r) ≠ .error (.arithmeticFault line)) :
    ∃ q : Int64, divide.apply line (.int l) (.int r) = .ok (.int q) ∧
      r.toInt ≠ 0 ∧ q.toInt = l.toInt.tdiv r.toInt := by
  rw [Operator.apply] at hfault ⊢
  cases hquotient : exactQuotient? l.toInt r.toInt with
  | none =>
      rw [hquotient] at hfault
      exact absurd rfl hfault
  | some q => exact ⟨q, rfl, exactQuotient?_eq_some hquotient⟩

end Operator

/-- The quotient toward zero is the one that leaves a remainder which is smaller
than the divisor and does not have the other sign than the dividend. -/
theorem truncated_iff {dividend divisor : Int} (hzero : divisor ≠ 0) (q : Int) :
    (∃ m, dividend = q * divisor + m ∧ |m| < |divisor| ∧ (m = 0 ∨ m.sign = dividend.sign)) ↔
      q = dividend.tdiv divisor := by
  constructor
  · rintro ⟨m, hsum, hless, hsign⟩
    rw [Int.abs_eq_natAbs, Int.abs_eq_natAbs, Int.ofNat_lt] at hless
    have hsum' : m + divisor * q = dividend := by rw [hsum, Int.mul_comm, Int.add_comm]
    -- the remainder has the sign of the dividend, and with that sign there is only one
    rcases Int.le_total 0 dividend with hdividend | hdividend
    · have hm : 0 ≤ m := by
        rcases hsign with rfl | hsign
        · exact le_refl 0
        · rwa [← Int.sign_nonneg_iff, hsign, Int.sign_nonneg_iff]
      exact ((Int.tdiv_tmod_unique hdividend hzero).mpr ⟨hsum', hm, by omega⟩).1.symm
    · have hm : m ≤ 0 := by
        rcases hsign with rfl | hsign
        · exact le_refl 0
        · rwa [← Int.sign_nonpos_iff, hsign, Int.sign_nonpos_iff]
      exact ((Int.tdiv_tmod_unique' hdividend hzero).mpr ⟨hsum', by omega, hm⟩).1.symm
  · rintro rfl
    refine ⟨dividend.tmod divisor, ?_, ?_, ?_⟩
    · rw [Int.mul_comm, Int.mul_tdiv_add_tmod]
    · rw [Int.abs_eq_natAbs, Int.abs_eq_natAbs, Int.natAbs_tmod, Int.ofNat_lt]
      exact Nat.mod_lt _ (Int.natAbs_pos.mpr hzero)
    · by_cases hdvd : divisor ∣ dividend
      · exact .inl (Int.tmod_eq_zero_of_dvd hdvd)
      · exact .inr (by rw [Int.sign_tmod, if_neg hdvd])

/-! ## Expressions over integers without a bound -/

mutual

/-- The value that an operand has over the integers, if it is made of integer
literals, of variables that have integers, and of operators whose results wrap. -/
def Operand.unbounded? (scopes : Scopes) : Operand → Option Int
  | .literal (.int i) _ => some i.toInt
  | .literal _ _ => none
  | .name name _ => do
      match ← (← scopes.resolve? name).value? with
      | .int i => return i.toInt
      | _ => none
  | .group _ inner _ => inner.unbounded? scopes

/-- The value that an expression has over the integers, if it is one of such operands. -/
def Expression.unbounded? (scopes : Scopes) : Expression → Option Int
  | .negation _ _ => none
  | .single operand => operand.unbounded? scopes
  | .operation left operator _ right => do
      let f ← operator.onIntegers?
      return f (← left.unbounded? scopes) (← right.unbounded? scopes)

end

theorem Scopes.exists_valueOf {scopes : Scopes} {name : String} {n : Int} (line : Nat)
    (hunbounded : (Operand.name name line).unbounded? scopes = some n) :
    ∃ i, scopes.valueOf name line = .ok (.int i) ∧ i.toInt = n := by
  obtain ⟨v, hresolve, hv⟩ := Option.bind_eq_some_iff.mp hunbounded
  obtain ⟨value, hvalue, hn⟩ := Option.bind_eq_some_iff.mp hv
  cases value with
  | int i =>
      exact ⟨i, by simp only [valueOf, hresolve, Variable.valueAt, hvalue], Option.some.inj hn⟩
  | string | bool => cases hn

mutual

theorem Operand.value_of_unbounded? (operand : Operand) {scopes : Scopes} {n : Int}
    (hunbounded : operand.unbounded? scopes = some n) :
    ∃ i, operand.value scopes = .ok (.int i) ∧ i.toInt ≡ n [ZMOD 2 ^ 64] := by
  cases operand with
  | literal value line =>
      cases value with
      | int i =>
          cases hunbounded
          exact ⟨i, rfl, .rfl⟩
      | string | bool => cases hunbounded
  | name name line =>
      obtain ⟨i, hvalue, rfl⟩ := Scopes.exists_valueOf line hunbounded
      exact ⟨i, hvalue, .rfl⟩
  | group openLine inner closeLine => exact inner.value_of_unbounded? hunbounded

/-- Evaluation stays congruent to the exact value, wherever results have wrapped. -/
theorem Expression.value_of_unbounded? (source : Expression) {scopes : Scopes} {n : Int}
    (hunbounded : source.unbounded? scopes = some n) :
    ∃ i, source.value scopes = .ok (.int i) ∧ i.toInt ≡ n [ZMOD 2 ^ 64] := by
  cases source with
  | negation line operand => cases hunbounded
  | single operand => exact operand.value_of_unbounded? hunbounded
  | operation left operator line right =>
      obtain ⟨f, hf, hoperands⟩ := Option.bind_eq_some_iff.mp hunbounded
      obtain ⟨a, hleft, hb⟩ := Option.bind_eq_some_iff.mp hoperands
      obtain ⟨b, hright, hn⟩ := Option.bind_eq_some_iff.mp hb
      cases hn
      obtain ⟨l, hl, hla⟩ := left.value_of_unbounded? hleft
      obtain ⟨r, hr, hrb⟩ := right.value_of_unbounded? hright
      refine ⟨.ofInt (f l.toInt r.toInt), ?_, ?_⟩
      · rw [Expression.value, hl, hr]
        exact Operator.apply_of_onIntegers? hf line l r
      · exact (toInt_modEq_iff.mpr rfl).trans (Operator.modEq_of_onIntegers? hf hla hrb)

end

/-! ## The operators -/

/-- Sums, differences and products of integers wrap, and quotients are cut off or
a fault.  The order of integers and their equality are exact.  So an expression
made of sums, differences and products has the value that it has over the
integers, up to multiples of `2 ^ 64`. -/
theorem integer_arithmetic :
    (∀ (l r : Int64) (line : Nat),
      let result (s : Symbol) := applyOperator (.int l) ⟨.symbol s, line⟩ (.int r)
      let quotient := l.toInt.tdiv r.toInt
      (∀ operator f, Operator.onIntegers? operator = some f →
        ∃ i, result operator.symbol = .ok (.int i) ∧
          ∀ j : Int64, j.toInt ≡ f l.toInt r.toInt [ZMOD 2 ^ 64] ↔ j = i) ∧
      (result .slash = .error (.arithmeticFault line) ↔
        r = 0 ∨ ¬(-2 ^ 63 ≤ quotient ∧ quotient < 2 ^ 63)) ∧
      (result .slash ≠ .error (.arithmeticFault line) →
        ∃ i, result .slash = .ok (.int i) ∧
          ∀ q : Int, (∃ m, l.toInt = q * r.toInt + m ∧ |m| < |r.toInt| ∧
            (m = 0 ∨ m.sign = l.toInt.sign)) ↔ q = i.toInt) ∧
      result .less = .ok (.bool (decide (l.toInt < r.toInt))) ∧
      result .equal = .ok (.bool (decide (l.toInt = r.toInt)))) ∧
    ∀ (source : Expression) (context : Context) (n : Int),
      source.unbounded? context.scopes = some n →
        ∃ i, evaluate source.tree context = .ok (.int i) context ∧
          ∀ j : Int64, j.toInt ≡ n [ZMOD 2 ^ 64] ↔ j = i := by
  refine ⟨fun l r line => ?_, fun source context n hunbounded => ?_⟩
  · intro result quotient
    have hresult : ∀ operator : Operator,
        result operator.symbol = operator.apply line (.int l) (.int r) :=
      fun operator => applyOperator_symbol operator line (.int l) (.int r)
    refine ⟨fun operator f hf => ?_, ?_, fun hquotient => ?_, hresult .less, ?_⟩
    · exact ⟨_, (hresult operator).trans (Operator.apply_of_onIntegers? hf line l r),
        fun _ => toInt_modEq_iff⟩
    · exact hresult .divide ▸ Operator.apply_divide_eq_error
    · have hslash : result .slash = Operator.divide.apply line (.int l) (.int r) := hresult .divide
      rw [hslash] at hquotient ⊢
      obtain ⟨q, hq, hzero, hvalue⟩ := Operator.exists_apply_divide hquotient
      exact ⟨q, hq, fun other => hvalue ▸ truncated_iff hzero other⟩
    · -- equality is that of values; on integers it is that of the numbers they stand for
      have hequal : result .equal = .ok (.bool (decide (Value.int l = Value.int r))) :=
        hresult .equal
      simpa only [Value.int.injEq, ← Int64.toInt_inj] using hequal
  · obtain ⟨i, hvalue, hmod⟩ := source.value_of_unbounded? hunbounded
    refine ⟨i, Expression.evaluate_eq_ok.mpr ⟨hvalue, rfl⟩, fun j => ?_⟩
    rw [toInt_modEq_iff, toInt_modEq_iff.mp hmod]

/-- The smallest integer wraps when it is multiplied by `-1` and cannot be divided by
it.  In the expression the sum wraps and then the product, and what is left is `2`. -/
theorem integer_arithmetic_limits :
    let result (l : Int64) (s : Symbol) (r : Int64) :=
      applyOperator (.int l) ⟨.symbol s, 1⟩ (.int r)
    let x : Operand := .name "x" 1
    let source : Expression := .operation (.group 1 (.operation x .add 1 x) 1) .multiply 1 x
    let context : Context :=
      ⟨[[("x", ⟨"x", 1, .int, some (.int Int64.maxValue)⟩)]], .ofLines []⟩
    result Int64.minValue .star (-1) = .ok (.int Int64.minValue) ∧
      (∃ i, result Int64.minValue .star (-1) = .ok (.int i) ∧
        ∀ j : Int64, j.toInt ≡ -2 ^ 63 * -1 [ZMOD 2 ^ 64] ↔ j = i) ∧
      result Int64.minValue .slash (-1) = .error (.arithmeticFault 1) ∧
      (∃ i, result (-7) .slash 2 = .ok (.int i) ∧
        ∀ q : Int, (∃ m, -7 = q * 2 + m ∧ |m| < |2| ∧ (m = 0 ∨ m.sign = Int.sign (-7))) ↔
          q = i.toInt) ∧
      source.unbounded? context.scopes = some ((2 ^ 63 - 1 + (2 ^ 63 - 1)) * (2 ^ 63 - 1)) ∧
      (∃ i, evaluate source.tree context = .ok (.int i) context ∧
        ∀ j : Int64, j.toInt ≡ (2 ^ 63 - 1 + (2 ^ 63 - 1)) * (2 ^ 63 - 1) [ZMOD 2 ^ 64] ↔ j = i) ∧
      evaluate source.tree context = .ok (.int 2) context := by
  intro result x source context
  obtain ⟨hoperators, hsources⟩ := integer_arithmetic
  obtain ⟨hwraps, hfault, -⟩ := hoperators Int64.minValue (-1) 1
  obtain ⟨-, -, hquotient, -⟩ := hoperators (-7) 2 1
  have hunbounded : source.unbounded? context.scopes =
      some ((2 ^ 63 - 1 + (2 ^ 63 - 1)) * (2 ^ 63 - 1)) := rfl
  exact ⟨rfl, hwraps .multiply _ rfl, hfault.mpr (.inr (by decide)),
    hquotient (by decide), hunbounded, hsources source context _ hunbounded, rfl⟩

end Primer
