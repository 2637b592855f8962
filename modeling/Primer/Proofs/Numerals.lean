import Mathlib
import Primer.Proofs.Semantics.Atomicity
import Primer.Proofs.Semantics.Loops
import Primer.Proofs.Token.LineNumbers
import Primer.Proofs.Token.Rendering

/-!
# Integers as texts

A program meets texts that stand for integers in two places: a line that is read
into an integer variable, and a literal in its source.  A line may carry one sign
and stands for any integer that fits a word.  A literal has no sign, so the
smallest integer can be read and is printed, but has no literal.

Both are measured against `Decimal.Denotes`, which values each digit by its place
and knows no bound.  Scanning goes from the first digit on instead, and the two
agree (`Decimal.ofDigits_eq`).

## Main results

* `Decimal.read?_eq_some`, `Decimal.read?_eq_none` : the lines that are integers.
* `Decimal.read?_write` : what is written is read back.
* `numerals_exact` : reading, printing and tokenizing integers.
-/

namespace Primer

open Stateful Lexer

/-! ## What texts denote -/

namespace Decimal

/-- The text is a run of ASCII digits, and the number is the sum of their values
at their places. -/
structure Digits (text : List Char) (n : Nat) : Prop where
  nonempty : text ≠ []
  digits : ∀ c ∈ text, c.isDigit = true
  value : n = Nat.ofDigits 10 (text.reverse.map fun c => c.toNat - '0'.toNat)

/-- The text is a run of digits, after one sign or none, that stands for the integer. -/
inductive Denotes : List Char → Int → Prop
  | unsigned {text : List Char} {n : Nat} (hdigits : Digits text n) : Denotes text n
  | plus {text : List Char} {n : Nat} (hdigits : Digits text n) : Denotes ('+' :: text) n
  | minus {text : List Char} {n : Nat} (hdigits : Digits text n) : Denotes ('-' :: text) (-n)

theorem ofDigits_eq (text : List Char) :
    ofDigits text = Nat.ofDigits 10 (text.reverse.map fun c => c.toNat - '0'.toNat) := by
  rw [ofDigits]
  induction text with
  | nil => rfl
  | cons c cs ih =>
      rw [Nat.ofDigitChars_cons, Nat.ofDigitChars_eq_ofDigitChars_zero, ih, List.reverse_cons,
        List.map_append, List.map_singleton, Nat.ofDigits_append, Nat.ofDigits_singleton,
        List.length_map, List.length_reverse, Nat.mul_zero, Nat.zero_add, Nat.add_comm]

theorem digits_iff {text : List Char} {n : Nat} :
    Digits text n ↔ text ≠ [] ∧ (∀ c ∈ text, c.isDigit = true) ∧ n = ofDigits text := by
  rw [ofDigits_eq]
  exact ⟨fun ⟨hnonempty, hdigits, hvalue⟩ => ⟨hnonempty, hdigits, hvalue⟩,
    fun ⟨hnonempty, hdigits, hvalue⟩ => ⟨hnonempty, hdigits, hvalue⟩⟩

/-! ## Reading -/

theorem signed?_eq_some {negative : Bool} {text : List Char} {i : Int64} :
    signed? negative text = some i ↔
      ∃ n, Digits text n ∧ i.toInt = if negative then -(n : Int) else n := by
  simp only [signed?, digits_iff, List.all_eq_true]
  constructor
  · intro hsigned
    split at hsigned
    · next hall => exact ⟨_, ⟨hall.1, hall.2, rfl⟩, word?_eq_some.mp hsigned⟩
    · cases hsigned
  · rintro ⟨n, ⟨hnonempty, hdigits, rfl⟩, hvalue⟩
    rw [if_pos ⟨hnonempty, hdigits⟩]
    exact word?_eq_some.mpr hvalue

/-- A text is read as the integer that it denotes. -/
theorem read?_eq_some {content : String} {i : Int64} :
    read? content = some i ↔ Denotes content.toList i.toInt := by
  rw [read?]
  constructor
  · intro hread
    split at hread
    · next htext =>
        obtain ⟨n, hdigits, hvalue⟩ := signed?_eq_some.mp hread
        rw [htext, hvalue]
        exact .minus hdigits
    · next htext =>
        obtain ⟨n, hdigits, hvalue⟩ := signed?_eq_some.mp hread
        rw [htext, hvalue]
        exact .plus hdigits
    · obtain ⟨n, hdigits, hvalue⟩ := signed?_eq_some.mp hread
      rw [hvalue]
      exact .unsigned hdigits
  · generalize htext : content.toList = text
    generalize hvalue : i.toInt = value
    intro hdenotes
    cases hdenotes with
    | plus hdigits => exact signed?_eq_some.mpr ⟨_, hdigits, hvalue⟩
    | minus hdigits => exact signed?_eq_some.mpr ⟨_, hdigits, hvalue⟩
    | unsigned hdigits =>
        -- no digit is a sign
        split
        · exact absurd (hdigits.digits '-' List.mem_cons_self) (by decide)
        · exact absurd (hdigits.digits '+' List.mem_cons_self) (by decide)
        · exact signed?_eq_some.mpr ⟨_, hdigits, hvalue⟩

/-- A text that is not read denotes no integer that fits a word. -/
theorem read?_eq_none {content : String} :
    read? content = none ↔ ¬∃ n : Int, Denotes content.toList n ∧ -2 ^ 63 ≤ n ∧ n < 2 ^ 63 := by
  constructor
  · rintro hread ⟨n, hdenotes, hmin, hmax⟩
    have hvalue : (Int64.ofInt n).toInt = n := Int64.toInt_ofInt_of_le hmin hmax
    rw [read?_eq_some.mpr (hvalue.symm ▸ hdenotes : Denotes _ (Int64.ofInt n).toInt)] at hread
    cases hread
  · intro hnone
    refine Option.eq_none_iff_forall_ne_some.mpr fun i hread => hnone ⟨i.toInt, ?_, ?_, ?_⟩
    · exact read?_eq_some.mp hread
    · exact i.le_toInt
    · exact i.toInt_lt

/-! ## Writing -/

theorem digits_repr (n : Nat) : Digits (Nat.repr n).toList n := by
  rw [Nat.repr_eq_ofList_toDigits, String.toList_ofList]
  refine digits_iff.mpr ⟨Nat.toDigits_ne_nil, fun c hc => ?_, Nat.ofDigitChars_ten_toDigits.symm⟩
  exact Nat.isDigit_of_mem_toDigits (by decide) (le_refl 10) hc

theorem digits_write {i : Int64} (hi : 0 ≤ i.toInt) : Digits (write i).toList i.toInt.toNat := by
  refine digits_iff.mpr ⟨toList_write_ne_nil hi, isDigit_of_mem_write hi, ?_⟩
  rw [← ofDigits_write hi, Int.toNat_natCast]

theorem denotes_write (i : Int64) : Denotes (write i).toList i.toInt := by
  rw [write]
  cases i.toInt with
  | ofNat n => exact .unsigned (digits_repr n)
  | negSucc n =>
      have hminus : (Int.negSucc n).repr.toList = '-' :: (Nat.repr (n + 1)).toList :=
        String.toList_append
      rw [hminus]
      exact .minus (digits_repr (n + 1))

theorem read?_write (i : Int64) : read? (write i) = some i := read?_eq_some.mpr (denotes_write i)

end Decimal

/-! ## Reading variables -/

section Reading

variable {context : Context} {v : Variable} {content : String} {rest : List Line}

/-- Afterwards, the variable that is visible under its name has the integer as its
value, and this is all that is different. -/
structure Context.Stored (context : Context) (v : Variable) (i : Int64) (after : Context) :
    Prop where
  update : context.scopes.update? { v with value? := some (.int i) } = some after.scopes
  resolve : after.scopes.resolve? v.name = some { v with value? := some (.int i) }
  console : after.console = context.console

theorem Context.Stored.unique {after : Context} {i j : Int64} (hi : context.Stored v i after)
    (hj : context.Stored v j after) : i = j := by
  cases hi.resolve.symm.trans hj.resolve
  rfl

theorem Context.exists_stored (hwf : context.scopes.WellFormed)
    (hresolve : context.scopes.resolve? v.name = some v) (hty : v.ty = .int) (i : Int64) :
    ∃ after, context.Stored v i after := by
  obtain ⟨depth, hholds⟩ := Scopes.exists_holdsAt hresolve
  have hevolves : v.Evolves { v with value? := some (.int i) } := ⟨rfl, rfl, rfl, fun _ => rfl⟩
  obtain ⟨scopes, hupdate, -, -, hholds'⟩ :=
    hholds.exists_update? hwf hevolves (Variable.wellTyped_withValue hty.symm)
  exact ⟨{ context with scopes }, hupdate, hholds'.resolve?, rfl⟩

/-- A reading takes the line, and then it is a matter of the line alone. -/
theorem execute_reading (line nameLine : Nat) {name : String}
    (hresolve : context.scopes.resolve? name = some v) (hty : v.ty = .int)
    (hinput : context.console.input = .text content :: rest) :
    execute (Statement.reading line name nameLine).tree context =
      match Decimal.read? content with
      | some i => Exec.update { v with value? := some (.int i) } line context.afterRead
      | none => .error (.error (.notAnInteger line content)) context.afterRead := by
  have hlookup : Exec.lookup name line context = .ok v context := by rw [Exec.lookup, hresolve]
  have hread : Exec.readLine line context = .ok content context.afterRead := by
    rw [Exec.readLine, Context.afterRead]
    simp only [Console.inputOutput_read?, Console.read?, hinput]
  simp only [Statement.tree, execute, perform, Node.keyword, Node.name, Lexeme.name?, Exec.demand,
    pure_bind, bind_assoc, bind_pure_unit]
  have hvalue : (readValue v.ty line : Exec Value) = readValue .int line := by rw [hty]
  rw [bind_of_ok hlookup, hvalue, readValue]
  simp only [bind_assoc]
  rw [bind_of_ok hread]
  cases Decimal.read? content with
  | none => rfl
  | some i => simp only [pure_bind, Variable.withValue?_eq_some v (.int i) hty.symm]

/-- An integer is stored exactly for the lines that are read as it. -/
theorem exists_stored_iff (line nameLine : Nat) {name : String} (hwf : context.scopes.WellFormed)
    (hresolve : context.scopes.resolve? name = some v) (hty : v.ty = .int)
    (hinput : context.console.input = .text content :: rest) (i : Int64) :
    (∃ after, execute (Statement.reading line name nameLine).tree context = .ok () after ∧
      context.afterRead.Stored v i after) ↔ Decimal.read? content = some i := by
  have hname : v.name = name := (hwf.resolve? hresolve).1
  -- what the line denotes is stored at the variable, and a binding holds one value
  have hstored : ∀ j, Decimal.read? content = some j → ∃ after,
      execute (Statement.reading line name nameLine).tree context = .ok () after ∧
        context.afterRead.Stored v j after := by
    intro j hj
    have hwf' : context.afterRead.scopes.WellFormed := hwf
    obtain ⟨after, hafter⟩ := Context.exists_stored hwf' (hname ▸ hresolve) hty j
    refine ⟨after, ?_, hafter⟩
    rw [execute_reading line nameLine hresolve hty hinput, hj]
    simp only [Exec.update, hafter.update, ← hafter.console]
  constructor
  · rintro ⟨after, hexecute, hi⟩
    cases hread : Decimal.read? content with
    | none =>
        rw [execute_reading line nameLine hresolve hty hinput, hread] at hexecute
        cases hexecute
    | some j =>
        obtain ⟨after', hexecute', hj⟩ := hstored j hread
        cases hexecute.symm.trans hexecute'
        rw [hi.unique hj]
  · exact hstored i

end Reading

/-! ## Literals -/

section Literals

variable {source : String} {items : List Item} {digits rest : List Char} {n : Nat}

/-- A run of digits whose value fits a word is one token with that value. -/
theorem tokenize_digits {i : Int64} (hitems : Decomposes source.toList items (digits ++ rest))
    (hdigits : Decimal.Digits digits n) (hends : EndsNumber rest) (hi : i.toInt = n) :
    tokenize source = (tokensFrom (1 + lineBreaks (Item.textOf items)) rest).map
      (Item.tokensOf 1 items ++ ⟨.number i, 1 + lineBreaks (Item.textOf items)⟩ :: ·) := by
  obtain ⟨hnonempty, hall, hvalue⟩ := Decimal.digits_iff.mp hdigits
  have hlongest := longest_digits hnonempty hall hends (hi.trans (congrArg _ hvalue))
  have hnone : lineBreaks digits = 0 := lineBreaks_eq_zero rfl hall
  rw [tokenize, hitems.tokensFrom_eq, (Decomposes.next hlongest (.done rest)).tokensFrom_eq,
    map_append_append]
  simp [Item.textOf, Item.tokensOf, hnone]

/-- A run of digits whose value does not fit a word is at fault. -/
theorem tokenize_digits_tooLarge (hitems : Decomposes source.toList items (digits ++ rest))
    (hdigits : Decimal.Digits digits n) (hends : EndsNumber rest) (hn : 2 ^ 63 ≤ n) :
    tokenize source = .error (.literalOutOfRange (1 + lineBreaks (Item.textOf items))
      (String.ofList digits)) := by
  obtain ⟨hnonempty, hall, rfl⟩ := Decimal.digits_iff.mp hdigits
  exact hitems.tokensFrom_of_malformed (.tooLarge hnonempty hall hends hn) 1

/-- What is printed of an integer is a literal, if it has no sign. -/
theorem tokenize_write {i : Int64} (hi : 0 ≤ i.toInt) :
    tokenize (Decimal.write i) = .ok [⟨.number i, 1⟩, ⟨.endMarker, 1⟩] := by
  have hitems : Decomposes (Decimal.write i).toList [] ((Decimal.write i).toList ++ []) := by
    rw [List.append_nil]
    exact .done _
  rw [tokenize_digits hitems (Decimal.digits_write hi) (fun _ hc => nomatch hc)
    (Int.toNat_of_nonneg hi).symm, tokensFrom_nil]
  rfl

end Literals

/-- Reading into an integer variable stores what the line denotes, if it denotes an
integer that fits a word, and otherwise fails and stores nothing.  What is printed
of an integer is read back, and tokenized to it if it has no sign.  Digits in a
source are a token with their value, if it fits a word, and a fault otherwise. -/
theorem numerals_exact :
    (∀ (context : Context) (line nameLine : Nat) (name : String) (v : Variable) (content : String)
      (rest : List Line), context.scopes.WellFormed → context.scopes.resolve? name = some v →
      v.ty = .int → context.console.input = .text content :: rest →
      let result := execute (Statement.reading line name nameLine).tree context
      (∀ n : Int, (∃ i after, i.toInt = n ∧ result = .ok () after ∧
          context.afterRead.Stored v i after) ↔
        Decimal.Denotes content.toList n ∧ -2 ^ 63 ≤ n ∧ n < 2 ^ 63) ∧
      ((¬∃ n : Int, Decimal.Denotes content.toList n ∧ -2 ^ 63 ≤ n ∧ n < 2 ^ 63) →
        result = .error (.error (.notAnInteger line content)) context.afterRead) ∧
      ∀ i, content = (Value.int i).text →
        ∃ after, result = .ok () after ∧ context.afterRead.Stored v i after) ∧
    (∀ i : Int64, 0 ≤ i.toInt →
      tokenize (Value.int i).text = .ok [⟨.number i, 1⟩, ⟨.endMarker, 1⟩]) ∧
    ∀ (source : String) (items : List Item) (digits rest : List Char) (n : Nat),
      Decomposes source.toList items (digits ++ rest) → Decimal.Digits digits n →
      EndsNumber rest →
      let line := 1 + lineBreaks (Item.textOf items)
      (n < 2 ^ 63 → ∃ i : Int64, i.toInt = n ∧
        tokenize source =
          (tokensFrom line rest).map (Item.tokensOf 1 items ++ ⟨.number i, line⟩ :: ·)) ∧
      (2 ^ 63 ≤ n → tokenize source = .error (.literalOutOfRange line (String.ofList digits))) := by
  refine ⟨?_, fun i => tokenize_write, ?_⟩
  · intro context line nameLine name v content rest hwf hresolve hty hinput
    have hstored := exists_stored_iff line nameLine hwf hresolve hty hinput
    refine ⟨fun n => ⟨?_, ?_⟩, fun hnone => ?_, ?_⟩
    · rintro ⟨i, after, rfl, hresult⟩
      exact ⟨Decimal.read?_eq_some.mp ((hstored i).mp ⟨after, hresult⟩), i.le_toInt, i.toInt_lt⟩
    · rintro ⟨hdenotes, hmin, hmax⟩
      have hn : (Int64.ofInt n).toInt = n := Int64.toInt_ofInt_of_le hmin hmax
      rw [← hn] at hdenotes
      obtain ⟨after, hresult⟩ := (hstored _).mpr (Decimal.read?_eq_some.mpr hdenotes)
      exact ⟨Int64.ofInt n, after, hn, hresult⟩
    · rw [execute_reading line nameLine hresolve hty hinput, Decimal.read?_eq_none.mpr hnone]
    · rintro i rfl
      exact (hstored i).mpr (Decimal.read?_write i)
  · intro source items digits rest n hitems hdigits hends
    refine ⟨fun hn => ?_, tokenize_digits_tooLarge hitems hdigits hends⟩
    have hi : (Int64.ofInt n).toInt = n := Int64.toInt_ofInt_of_le (by omega) (by omega)
    exact ⟨Int64.ofInt n, hi, tokenize_digits hitems hdigits hends hi⟩

/-- The smallest integer is read from its printed text, but without its sign it is
too large for a line and for a literal.  Zeros before a literal do not count. -/
theorem numerals_exact_smallest :
    let v : Variable := ⟨"n", 3, .int, none⟩
    let context (content : String) : Context := ⟨[[("n", v)]], .ofLines [.text content]⟩
    let result (content : String) :=
      execute (Statement.reading 1 "n" 1).tree (context content)
    (∃ after, result "-9223372036854775808" = .ok () after ∧
        (context "-9223372036854775808").afterRead.Stored v Int64.minValue after) ∧
      result "+9223372036854775808" = .error (.error (.notAnInteger 1 "+9223372036854775808"))
        (context "+9223372036854775808").afterRead ∧
      tokenize (Value.int 7).text = .ok [⟨.number 7, 1⟩, ⟨.endMarker, 1⟩] ∧
      (∃ i : Int64, i.toInt = 7 ∧ tokenize "\n007;" =
        .ok [⟨.number i, 2⟩, ⟨.symbol .semicolon, 2⟩, ⟨.endMarker, 2⟩]) ∧
      tokenize "9223372036854775808" = .error (.literalOutOfRange 1 "9223372036854775808") := by
  intro v context result
  obtain ⟨hread, hprinted, hliteral⟩ := numerals_exact
  have hwf : Scopes.WellFormed [[("n", v)]] := by decide
  replace hread := fun content => hread (context content) 1 1 "n" v content [] hwf rfl rfl rfl
  have hzeros : Decimal.Digits "007".toList 7 :=
    Decimal.digits_iff.mpr ⟨by decide, by simp, rfl⟩
  have hlarge : Decimal.Digits "9223372036854775808".toList 9223372036854775808 :=
    Decimal.digits_iff.mpr ⟨by decide, by simp, rfl⟩
  have hblank : Decomposes "\n007;".toList [⟨['\n'], none, "007;".toList⟩]
      ("007".toList ++ [';']) := .next (nextItem_eq_ok.mp rfl) (.done _)
  refine ⟨(hread _).2.2 Int64.minValue rfl, (hread _).2.1 (Decimal.read?_eq_none.mp rfl),
    hprinted 7 (by decide), ?_, ?_⟩
  · obtain ⟨i, hi, htokens⟩ :=
      (hliteral _ _ _ _ _ hblank hzeros (by simp [EndsNumber])).1 (by decide)
    exact ⟨i, hi, htokens.trans (by cbv)⟩
  · exact (hliteral _ [] _ [] _ (.done _) hlarge (by simp [EndsNumber])).2 (by decide)

end Primer
