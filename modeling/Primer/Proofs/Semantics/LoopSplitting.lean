import Primer.Proofs.Semantics.Framing
import Primer.Proofs.Semantics.Loops

/-!
# Cutting the range of a loop

A loop over a range does what a loop over the first part of the range does and,
if that ends well, a loop over the rest.  Nothing of the first loop is left but
its counter, and this is where the second loop would put it:

* the rounds of a range are the rounds of its parts, one after the other
  (`iterate_add`), and none of them knows which loop it belongs to;
* after the first part, the counter has the value at which the rest begins
  (`Loop.At`), so that the second loop finds the variable that the first one
  found and changes nothing by setting it (`Scopes.HoldsAt.update?_self`).

The bounds of the second loop are evaluated after the first, when variables may
have changed, so they are to mention none.

## Main results

* `Loop.runLoop_split` : the counting of a loop, once its bounds are known.
* `execute_loop_split` : the loops of whatever compiles.
-/

namespace Primer

open Stateful

/-! ## Rounds of a part of a range -/

section Rounds

variable {World : Type}

/-- Rounds are run one after the other. -/
theorem iterate_add (body : ExecOn World Unit) (counter : Variable) (line count more : Nat)
    (i : Int64) :
    iterate body counter line (count + more) i =
      (do
        iterate body counter line count i
        iterate body counter line more (.ofInt (i.toInt + count))) := by
  induction count generalizing i with
  | zero => simp [iterate]
  | succ count ih =>
      rw [Nat.succ_add, iterate, iterate]
      simp only [ih, ofInt_succ_add, bind_assoc]

/-- A round takes from the variable to count with what its copies keep: all but
the value. -/
theorem iterate_counting (body : ExecOn World Unit) (counter : Variable) (j : Int64)
    (line count : Nat) (i : Int64) :
    iterate body (counter.counting j) line count i = iterate body counter line count i := by
  induction count generalizing i with
  | zero => rfl
  | succ count ih =>
      rw [iterate, iterate]
      simp only [ih]
      rfl

theorem toInt_succ {i last : Int64} (hlast : i < last) : (i + 1).toInt = i.toInt + 1 := by
  have hlt := Int64.lt_iff_toInt_lt.mp hlast
  have hmin := i.minValue_le_toInt
  have hmax := last.toInt_lt
  rw [← ofInt_toInt_succ]
  exact Int64.toInt_ofInt_of_le (by simp at hmin ⊢; omega) (by omega)

theorem rangeLength_add {first middle last : Int64} (hfirst : first ≤ middle)
    (hlast : middle < last) :
    rangeLength first last = rangeLength first middle + rangeLength (middle + 1) last := by
  have hle := Int64.le_iff_toInt_le.mp hfirst
  have hlt := Int64.lt_iff_toInt_lt.mp hlast
  simp only [rangeLength, toInt_succ hlast]
  omega

end Rounds

/-! ## Setting a variable to what it is -/

theorem Frame.WellFormed.rebind_self {frame : Frame} {v : Variable} (hwf : frame.WellFormed)
    (hget : frame.get? v.name = some v) : frame.rebind v = frame := by
  refine (List.map_congr_left ?_).trans (List.map_id frame)
  rintro ⟨name, old⟩ hmem
  dsimp only
  split
  · next heq =>
      -- the name is bound once, so this is where it was found
      subst heq
      obtain rfl := Option.some.inj ((hwf.get?_of_mem hmem).symm.trans hget)
      rfl
  · rfl

theorem Scopes.HoldsAt.update?_self {v : Variable} {depth : Nat} {scopes : Scopes}
    (hwf : ∀ frame ∈ scopes, Frame.WellFormed frame) (hholds : HoldsAt v depth scopes) :
    scopes.update? v = some scopes := by
  induction hholds with
  | here hget =>
      rw [update?, if_pos (Option.isSome_of_eq_some hget),
        (hwf _ List.mem_cons_self).rebind_self hget]
  | @outside _ frame _ hget _ ih =>
      have hnone : ¬(frame.get? v.name).isSome := by simp [hget]
      rw [update?, if_neg hnone, ih (List.forall_mem_cons.mp hwf).2, Option.map_some]

/-! ## Loops that have found their counter -/

namespace Loop

variable {loop : Loop} {context : Context} {middle last : Int64}

/-- A loop over the rest of a range goes on where its counter is. -/
theorem At.runLoop_eq_iterate (hat : loop.At middle context) (last : Int64) :
    Primer.runLoop loop.counter.name loop.line middle last (execute loop.body.tree) context =
      Primer.iterate (execute loop.body.tree) loop.counter loop.line (rangeLength middle last)
        middle context := by
  have hself : Exec.update (loop.counter.counting middle) loop.line context = .ok () context := by
    rw [Exec.update, hat.holds.update?_self hat.wellFormed.2]
  rw [← iterate_counting _ loop.counter middle]
  exact runLoop_of_update _ hat.holds.resolve? loop.counter_ty hself last

/-- A loop over the first part of a range, and then one over the rest. -/
theorem runLoop_split (loop : Loop) (hwf : context.scopes.WellFormed)
    (hframes : context.scopes.length = loop.frames)
    (hholds : Scopes.HoldsAt loop.counter loop.depth context.scopes)
    (hfirst : loop.first ≤ middle) (hlast : middle < last) :
    Primer.runLoop loop.counter.name loop.line loop.first last (execute loop.body.tree) context =
      (do
        Primer.runLoop loop.counter.name loop.line loop.first middle (execute loop.body.tree)
        Primer.runLoop loop.counter.name loop.line (middle + 1) last (execute loop.body.tree) :
        Exec Unit) context := by
  obtain ⟨start, hupdate, hends⟩ := loop.runLoop hwf hframes hholds middle
  have hrounds := runLoop_of_update (execute loop.body.tree) hholds.resolve? loop.counter_ty
    hupdate
  have hnext : Int64.ofInt (loop.first.toInt + rangeLength loop.first middle) = middle + 1 := by
    rw [ofInt_add_rangeLength, if_pos (Int64.le_iff_toInt_le.mp hfirst), ofInt_toInt_succ]
  rw [hrounds last, rangeLength_add hfirst hlast, iterate_add, hnext]
  -- if the first part fails, so does the whole; otherwise it ends where the second part starts
  cases hresult : Primer.runLoop loop.counter.name loop.line loop.first middle
      (execute loop.body.tree) context with
  | error failure after =>
      rw [bind_of_error hresult, bind_of_error ((hrounds middle).symm.trans hresult)]
  | ok _ after =>
      rw [hresult] at hends
      cases hends with
      | finished _ hafter =>
          rw [hnext] at hafter
          rw [bind_of_ok hresult, bind_of_ok ((hrounds middle).symm.trans hresult),
            hafter.runLoop_eq_iterate]

end Loop

/-! ## Bounds without variables -/

mutual

/-- What mentions no variable has the same value everywhere. -/
theorem Operand.value_of_unmentioned (operand : Operand)
    (hnames : ∀ x, Unmentioned x operand.tokens) (scopes scopes' : Scopes) :
    operand.value scopes = operand.value scopes' := by
  cases operand with
  | literal value line => rfl
  | name name line => simpa using hnames name
  | group openLine inner closeLine =>
      exact inner.value_of_unmentioned (by simp_all) scopes scopes'

theorem Expression.value_of_unmentioned (source : Expression)
    (hnames : ∀ x, Unmentioned x source.tokens) (scopes scopes' : Scopes) :
    source.value scopes = source.value scopes' := by
  cases source with
  | negation line operand =>
      have hoperand : ∀ x, Unmentioned x operand.tokens := by simp_all
      simp only [Expression.value, operand.value_of_unmentioned hoperand scopes scopes']
  | single operand =>
      exact operand.value_of_unmentioned (by simp_all) scopes scopes'
  | operation left operator line right =>
      have hleft : ∀ x, Unmentioned x left.tokens := by simp_all
      have hright : ∀ x, Unmentioned x right.tokens := by simp_all
      simp only [Expression.value, left.value_of_unmentioned hleft scopes scopes',
        right.value_of_unmentioned hright scopes scopes']

end

theorem Expression.evaluate_of_unmentioned {source : Expression} {context : Context} {value : Value}
    (hnames : ∀ x, Unmentioned x source.tokens)
    (hvalue : evaluate source.tree context = .ok value context) (context' : Context) :
    evaluate source.tree context' = .ok value context' := by
  obtain ⟨hok, -⟩ := Expression.evaluate_eq_ok.mp hvalue
  rw [source.value_of_unmentioned hnames _ context'.scopes] at hok
  exact Expression.evaluate_eq_ok.mpr ⟨hok, rfl⟩

/-! ## Loops in trees -/

/-- A loop whose bounds are left open: its counter, its body and the lines of its
own tokens. -/
structure OpenLoop where
  name : String
  body : Node
  forLine : Nat
  line : Nat
  inLine : Nat
  rangeLine : Nat
  doLine : Nat
  endLine : Nat
  closingLine : Nat

/-- The loop with the bounds. -/
def OpenLoop.over (loop : OpenLoop) (first last : Node) : Node :=
  .deferred .loop
    [.keyword .kwFor loop.forLine, .name loop.name loop.line, .keyword .kwIn loop.inLine, first,
      .symbol .range loop.rangeLine, last, .keyword .kwDo loop.doLine, loop.body,
      .keyword .kwEnd loop.endLine, .keyword .kwFor loop.closingLine]

theorem OpenLoop.execute_over {loop : OpenLoop} {body : Program} (hbody : loop.body = body.tree)
    {first last : Expression} {a b : Int64}
    (hfirst : ∀ context, evaluate first.tree context = .ok (.int a) context)
    (hlast : ∀ context, evaluate last.tree context = .ok (.int b) context) :
    execute (loop.over first.tree last.tree) =
      runLoop loop.name loop.line a b (execute body.tree) := by
  funext context
  rw [OpenLoop.over, hbody]
  exact execute_loop_tree (hfirst context) (hlast context)

/-- A loop of whatever compiles, over any range that is cut into two parts: it
does what the loop over the first part does and, if that ends well, the one over
the second. -/
theorem execute_loop_split {source : String} {node : Node} (hcompile : compile source = .ok node)
    {children : List Node} (hpart : .deferred .loop children ∈ node.parts) (loop : OpenLoop)
    (hbody : children[7]? = some loop.body) {first middle next last : Expression}
    (hnames : ∀ bound ∈ [first, middle, next, last], ∀ x, Unmentioned x bound.tokens)
    {context : Context} (hwf : context.scopes.WellFormed) {counter : Variable}
    (hresolve : context.scopes.resolve? loop.name = some counter) (hty : counter.ty = .int)
    {a m b : Int64} (hfirst : evaluate first.tree context = .ok (.int a) context)
    (hmiddle : evaluate middle.tree context = .ok (.int m) context)
    (hnext : evaluate next.tree context = .ok (.int (m + 1)) context)
    (hlast : evaluate last.tree context = .ok (.int b) context) (ham : a ≤ m) (hmb : m < b) :
    execute (loop.over first.tree last.tree) context =
      (do
        execute (loop.over first.tree middle.tree)
        execute (loop.over next.tree last.tree)) context := by
  obtain ⟨program, -, -, rfl, -⟩ := compile_eq_ok.mp hcompile
  obtain ⟨_, _, _, _, _, _, _, _, body, _, _, hloop⟩ := Program.loop_of_mem_parts hpart
  obtain rfl := (Node.deferred.inj hloop).2
  replace hbody : loop.body = body.tree := (Option.some.inj hbody).symm
  simp only [List.forall_mem_cons, List.not_mem_nil, false_imp_iff, implies_true, and_true]
    at hnames
  obtain ⟨hfirstNames, hmiddleNames, hnextNames, hlastNames⟩ := hnames
  -- without names the bounds have their values also in the context between the two parts
  replace hfirst := Expression.evaluate_of_unmentioned hfirstNames hfirst
  replace hmiddle := Expression.evaluate_of_unmentioned hmiddleNames hmiddle
  replace hnext := Expression.evaluate_of_unmentioned hnextNames hnext
  replace hlast := Expression.evaluate_of_unmentioned hlastNames hlast
  have hname : counter.name = loop.name := (hwf.resolve? hresolve).1
  obtain ⟨depth, hholds⟩ := Scopes.exists_holdsAt (hname.symm ▸ hresolve)
  let counting : Loop := ⟨body, counter, hty, loop.line, a, context.scopes.length, depth⟩
  have hsplit := counting.runLoop_split hwf rfl hholds ham hmb
  rw [OpenLoop.execute_over hbody hfirst hlast, OpenLoop.execute_over hbody hfirst hmiddle,
    OpenLoop.execute_over hbody hnext hlast, ← hname]
  exact hsplit

/-- The third round of a loop fails, which is the first of the second part, on a
line that is no numeral.  The body sets its copy of the counter. -/
theorem execute_loop_split_failing :
    let source := "for k in 5..5 do i:=9;read n;print n;end for;"
    let loop : Node → OpenLoop := fun body => ⟨"i", body, 1, 1, 2, 2, 2, 3, 3⟩
    let first : Expression := .operation (.literal (.int 0) 1) .subtract 1 (.literal (.int 1) 1)
    let literal : Int64 → Expression := fun i => .single (.literal (.int i) 1)
    let i : Variable := ⟨"i", 4, .int, none⟩
    let n : Variable := ⟨"n", 7, .int, none⟩
    let context : Context := ⟨[[("n", n), ("i", i)]], .ofLines [.text "4", .text "+5", .text "x"]⟩
    ∃ node children body, compile source = .ok node ∧ .deferred .loop children ∈ node.parts ∧
      children[7]? = some body ∧ context.scopes.WellFormed ∧
      context.scopes.resolve? "i" = some i ∧
      execute ((loop body).over first.tree (literal 1).tree) context =
        (do
          execute ((loop body).over first.tree (literal 0).tree)
          execute ((loop body).over (literal 1).tree (literal 1).tree)) context ∧
      execute ((loop body).over first.tree (literal 1).tree) context =
        .error (.error (.notAnInteger 1 "x"))
          ⟨[[("n", { n with value? := some (.int 5) }), ("i", i.counting 1)]],
            ⟨[], #[.int 4, .int 5], 3⟩⟩ := by
  intro source loop first literal i n context
  let body : Program := .next (.assignment "i" 1 1 (literal 9)) 1
    (.next (.reading 1 "n" 1) 1 (.next (.printing 1 (.single (.name "n" 1))) 1 .done))
  let statement : Statement := .loop 1 "k" 1 1 (literal 5) 1 (literal 5) 1 body 1 1
  have hcompile : compile source = .ok (Program.tree (.next statement 1 .done)) :=
    compile_eq_ok.mpr ⟨_, 1, [], rfl, by cbv⟩
  have hpart : statement.tree ∈ (Program.tree (.next statement 1 .done)).parts := by
    simp [Program.tree, Program.occurrences, Node.parts, Node.partsOfAll, statement, Statement.tree]
  have hwf : context.scopes.WellFormed := by decide
  have hnames : ∀ bound ∈ [first, literal 0, literal 1, literal 1],
      ∀ x, Unmentioned x bound.tokens := by
    simp [first, literal, Value.lexeme]
  have hresolve : context.scopes.resolve? "i" = some i := rfl
  have hsplit := execute_loop_split hcompile hpart (loop body.tree) rfl hnames hwf hresolve rfl
    (a := -1) (m := 0) (b := 1) rfl rfl rfl rfl (by decide) (by decide)
  exact ⟨_, _, _, hcompile, hpart, rfl, hwf, hresolve, hsplit, rfl⟩

end Primer
