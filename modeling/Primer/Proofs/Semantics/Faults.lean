import Mathlib
import Primer.Program
import Primer.Proofs.Stateful
import Primer.Repl

/-!
# What can go wrong in a run

The errors of running a tree are not those of reading a text, and each is on
the line of a token of the tree.  This holds for every tree and every context,
also for those that parsing and running never give: an action takes the line of
its error from its own tokens, never from the variables it finds.

No error of a run is incomplete, therefore.  Where an incomplete error comes
out of running a text, the text did not compile and nothing was run, so that
running a longer text from the start does nothing twice.

## Main results

* `failsOn_execute`, `Node.failsOn_lines` : the errors of running a tree.
* `runIn_incomplete` : an incomplete error comes from a text that did not compile.
* `Repl.enter_waiting` : the loop waits for another line only if it ran nothing.
-/

namespace Primer

/-- An error of running a tree whose tokens are on the given lines. -/
def Error.OfRun (lines : List Nat) : Error → Prop
  | undefinedVariable line _
  | alreadyDefined line _ _
  | typeMismatch line _ _
  | unsupportedOperator line _ _
  | unreadableType line _
  | uninitialized line _
  | notAnInteger line _
  | assertionFailed line
  | arithmeticFault line
  | inputExhausted line => line ∈ lines
  | undecodableInput => True
  | unexpectedCharacter _ _
  | unexpectedEnd _
  | literalOutOfRange _ _
  | unexpectedToken _ _ _
  | noAlternative _ _ => False

theorem Error.OfRun.isIncomplete {lines : List Nat} {error : Error} (hrun : error.OfRun lines) :
    error.isIncomplete = false := by
  cases error with
  | unexpectedEnd line => exact hrun.elim
  | unexpectedToken line actual expected => exact hrun.elim
  | noAlternative line actual => exact hrun.elim
  | _ => rfl

/-! ## Trees on given lines -/

namespace Node

/-- Every token of the node is on one of the lines. -/
def OnLines (lines : List Nat) (node : Node) : Prop := ∀ t ∈ node.leaves, t.line ∈ lines

/-- Every token of the nodes is on one of the lines. -/
def AllOnLines (lines : List Nat) (nodes : List Node) : Prop :=
  ∀ t ∈ leavesOfAll nodes, t.line ∈ lines

variable {lines : List Nat}

@[simp] theorem onLines_token {t : Token} : OnLines lines (.token t) ↔ t.line ∈ lines := by
  simp [OnLines, leaves]

@[simp] theorem onLines_list {children : List Node} :
    OnLines lines (.list children) ↔ AllOnLines lines children := Iff.rfl

@[simp] theorem onLines_deferred {action : Action} {children : List Node} :
    OnLines lines (.deferred action children) ↔ AllOnLines lines children := Iff.rfl

@[simp] theorem allOnLines_cons {node : Node} {nodes : List Node} :
    AllOnLines lines (node :: nodes) ↔ OnLines lines node ∧ AllOnLines lines nodes := by
  simp only [AllOnLines, OnLines, leavesOfAll, List.forall_mem_append]

theorem OnLines.line?_getD {node : Node} (hnode : node.OnLines lines) {line : Nat}
    (hline : line ∈ lines) : node.line?.getD line ∈ lines := by
  rw [line?, firstToken?_eq]
  cases hhead : node.leaves.head? with
  | none => exact hline
  | some t => exact hnode t (List.mem_of_head? hhead)

end Node

/-! ## Computations -/

namespace Exec

/-- Whatever error of the program the computation ends in, it is one of a run
on the given lines. -/
def FailsOn {α : Type} (lines : List Nat) (m : Exec α) : Prop :=
  ∀ (context context' : Context) (error : Error),
    m context = .error (.error error) context' → error.OfRun lines

namespace FailsOn

variable {α β : Type} {lines : List Nat} {line : Nat}

theorem pure (a : α) : FailsOn lines (Pure.pure a) := fun _ _ _ herror => nomatch herror

theorem misuse : FailsOn lines (throw .misuse : Exec α) := fun _ _ _ herror => nomatch herror

theorem fail {error : Error} (hrun : error.OfRun lines) :
    FailsOn lines (Exec.fail error : Exec α) := by
  intro context context' error' herror
  cases herror
  exact hrun

theorem bind {m : Exec α} {f : α → Exec β} (hm : FailsOn lines m)
    (hf : ∀ a, FailsOn lines (f a)) : FailsOn lines (m >>= f) := by
  intro context context' error herror
  rcases Stateful.bind_eq_error.mp herror with hfirst | ⟨a, inner, -, hsecond⟩
  · exact hm _ _ _ hfirst
  · exact hf a _ _ _ hsecond

/-- What follows a demand may use what the demand is met by. -/
theorem demand_bind {a? : Option α} {f : α → Exec β} (hf : ∀ a, a? = some a → FailsOn lines (f a)) :
    FailsOn lines (Exec.demand a? >>= f) := by
  cases a? with
  | none => exact .misuse
  | some a => exact hf a rfl

theorem demand (a? : Option α) : FailsOn lines (Exec.demand a?) := by
  cases a? with
  | none => exact .misuse
  | some a => exact .pure a

theorem ofExcept {result : Except Error α} (hresult : ∀ error, result = .error error →
    error.OfRun lines) : FailsOn lines (Exec.ofExcept result) := by
  cases result with
  | ok a => exact .pure a
  | error error => exact .fail (hresult error rfl)

/-! ### Scopes and console -/

theorem lookup (name : String) (hline : line ∈ lines) :
    FailsOn lines (Exec.lookup name line) := by
  intro context context' error herror
  unfold Exec.lookup at herror
  split at herror
  · cases herror
  · cases herror
    exact hline

theorem update (v : Variable) (hline : line ∈ lines) : FailsOn lines (Exec.update v line) := by
  intro context context' error herror
  unfold Exec.update at herror
  split at herror
  · cases herror
  · cases herror
    exact hline

theorem declare {v : Variable} (hline : v.line ∈ lines) : FailsOn lines (Exec.declare v) := by
  rintro ⟨scopes, console⟩ context' error herror
  cases scopes with
  | nil => cases herror
  | cons frame frames =>
      simp only [Exec.declare, Scopes.declare] at herror
      cases hget : frame.get? v.name with
      | none =>
          rw [hget] at herror
          cases herror
      | some previous =>
          rw [hget] at herror
          cases herror
          exact hline

theorem print (value : Value) : FailsOn lines (Exec.print value) :=
  fun _ _ _ herror => nomatch herror

theorem readLine (hline : line ∈ lines) : FailsOn lines (Exec.readLine line) := by
  intro context context' error herror
  unfold Exec.readLine at herror
  split at herror
  · cases herror
  · cases herror
    exact trivial
  · cases herror
    exact hline

theorem popFrame : FailsOn lines Exec.popFrame := by
  intro context context' error herror
  unfold Exec.popFrame at herror
  split at herror <;> cases herror

/-- The copy of a loop's counter may come from anywhere, but the frame in which
it is declared is empty. -/
theorem inNewFrame_declare {body : Exec Unit} (hbody : FailsOn lines body) (copy : Variable) :
    FailsOn lines (Exec.inNewFrame do
      Exec.declare copy
      body) := by
  intro context context' error herror
  -- in a new frame the declaration cannot fail, so an error is the body's
  have hinside : (Exec.pushFrame >>= fun _ => Exec.declare copy >>= fun _ => body) context =
      body { context with scopes := [(copy.name, copy)] :: context.scopes } := rfl
  rw [Exec.inNewFrame, hinside] at herror
  split at herror
  · next inner _ => exact popFrame inner _ _ herror
  · next cause inner houtcome =>
      split at herror
      · cases herror
        exact hbody _ _ _ houtcome
      · next failure outer hpop =>
          cases herror
          exact popFrame inner _ _ hpop
  · next failure inner hother houtcome =>
      cases herror
      exact hbody _ _ _ houtcome

end FailsOn

end Exec

open Exec (FailsOn)

/-! ## Parts of the actions -/

section Parts

variable {lines : List Nat} {line : Nat}

theorem Variable.line_of_make? {name : String} {ty : Ty} {value? : Option Value} {v : Variable}
    (hmake : make? name line ty value? = some v) : v.line = line := by
  unfold make? at hmake
  split at hmake
  · cases hmake
    rfl
  · cases hmake

theorem Variable.ofRun_of_valueAt {v : Variable} (hline : line ∈ lines) (error : Error)
    (herror : v.valueAt line = .error error) : error.OfRun lines := by
  unfold valueAt at herror
  split at herror
  · cases herror
  · cases herror
    exact hline

theorem ofRun_of_applyNegation {operator : Token} {value : Value} (hline : operator.line ∈ lines)
    (error : Error) (herror : applyNegation operator value = .error error) :
    error.OfRun lines := by
  cases value with
  | bool b => cases herror
  | int i =>
      cases herror
      exact hline
  | string content =>
      cases herror
      exact hline

theorem ofRun_of_combine? {operator : Kind} {left right : Value} (hline : line ∈ lines)
    {error : Error} (herror : combine? line operator left right = some (.error error)) :
    error.OfRun lines := by
  unfold combine? at herror
  split at herror
  · next l r =>
      split at herror
      case h_4 =>
        split at herror
        · cases herror
        · cases herror
          exact hline
      all_goals cases herror
  · split at herror <;> cases herror
  · split at herror <;> cases herror
  · cases herror

theorem ofRun_of_applyOperator {operator : Token} {left right : Value}
    (hline : operator.line ∈ lines) (error : Error)
    (herror : applyOperator left operator right = .error error) : error.OfRun lines := by
  unfold applyOperator at herror
  split at herror
  · cases hcombine : combine? operator.line operator.kind left right with
    | none =>
        rw [hcombine] at herror
        cases herror
        exact hline
    | some result =>
        rw [hcombine] at herror
        cases herror
        exact ofRun_of_combine? hline hcombine
  · cases herror
    exact hline

theorem failsOn_expectType (ty : Ty) (value : Value) (hline : line ∈ lines) :
    FailsOn lines (expectType ty value line) := by
  unfold expectType
  split
  · exact .pure ()
  · exact .fail hline

theorem failsOn_asBound {bound : Node} (hbound : bound.OnLines lines) (hline : line ∈ lines)
    (value : Value) : FailsOn lines (asBound bound line value) := by
  cases value with
  | int i => exact .pure i
  | string content => exact .fail (hbound.line?_getD hline)
  | bool b => exact .fail (hbound.line?_getD hline)

theorem failsOn_readValue (ty : Ty) (hline : line ∈ lines) :
    FailsOn lines (readValue ty line) := by
  cases ty with
  | int =>
      refine .bind (.readLine hline) fun input => ?_
      split
      · exact .pure _
      · exact .fail hline
  | string => exact .bind (.readLine hline) fun input => .pure _
  | bool => exact .fail hline

theorem failsOn_iterate {body : Exec Unit} (hbody : FailsOn lines body) (counter : Variable)
    (hline : line ∈ lines) (count : Nat) (i : Int64) :
    FailsOn lines (iterate body counter line count i) := by
  induction count generalizing i with
  | zero => exact .pure ()
  | succ count ih =>
      exact .bind (.demand _) fun copy => .bind (.inNewFrame_declare hbody copy) fun _ =>
        .bind (.demand _) fun next => .bind (.update next hline) fun _ => ih (i + 1)

theorem failsOn_runLoop (name : String) (hline : line ∈ lines) (first last : Int64)
    {body : Exec Unit} (hbody : FailsOn lines body) :
    FailsOn lines (runLoop name line first last body) := by
  refine .bind (.lookup name hline) fun counter => ?_
  split
  · exact .bind (.demand _) fun start => .bind (.update start hline) fun _ =>
      failsOn_iterate hbody counter hline _ first
  · exact .fail hline

end Parts

/-! ## Trees -/

section Trees

variable {lines : List Nat}

-- an action reaches into the lists among its children, so the recursion is on sizes
mutual

theorem failsOn_evaluate (node : Node) (hnode : node.OnLines lines) :
    FailsOn lines (evaluate node) := by
  cases node with
  | token t => exact .misuse
  | list children => exact .misuse
  | deferred action children =>
      have hchildren := Node.onLines_deferred.mp hnode
      exact .bind (failsOn_perform action children hchildren) fun value? => .demand value?
termination_by sizeOf node
decreasing_by
  all_goals
    subst_vars
    simp only [Node.deferred.sizeOf_spec]
    omega

theorem failsOn_execute (node : Node) (hnode : node.OnLines lines) :
    FailsOn lines (execute node) := by
  cases node with
  | token t => exact .misuse
  | list children => exact failsOn_executeAll children (Node.onLines_list.mp hnode)
  | deferred action children =>
      have hchildren := Node.onLines_deferred.mp hnode
      exact .bind (failsOn_perform action children hchildren) fun _ => .pure ()
termination_by sizeOf node
decreasing_by
  all_goals
    subst_vars
    simp only [Node.list.sizeOf_spec, Node.deferred.sizeOf_spec]
    omega

theorem failsOn_executeAll (nodes : List Node) (hnodes : Node.AllOnLines lines nodes) :
    FailsOn lines (executeAll nodes) := by
  cases nodes with
  | nil => exact .pure ()
  | cons node nodes =>
      rw [Node.allOnLines_cons] at hnodes
      exact .bind (failsOn_execute node hnodes.1) fun _ => failsOn_executeAll nodes hnodes.2
termination_by sizeOf nodes
decreasing_by
  all_goals
    subst_vars
    simp only [List.cons.sizeOf_spec]
    omega

theorem failsOn_perform (action : Action) (children : List Node)
    (hchildren : Node.AllOnLines lines children) : FailsOn lines (perform action children) := by
  unfold perform
  -- one case for each shape of children that an action accepts, the last for all others
  split
  · exact .pure none
  · next statement _ occurrences =>
      simp only [Node.allOnLines_cons, Node.onLines_list] at hchildren
      obtain ⟨⟨hstatement, -⟩, hoccurrences⟩ := hchildren
      exact .bind (failsOn_execute statement hstatement) fun _ =>
        failsOn_perform .statements occurrences hoccurrences
  · next start name _ typeName _ =>
      simp only [Node.allOnLines_cons, Node.onLines_token] at hchildren
      exact .bind (.demand _) fun name => .bind (.demand _) fun ty =>
        .bind (.declare hchildren.1) fun _ => .pure none
  · next start name _ typeName _ initializer _ =>
      simp only [Node.allOnLines_cons, Node.onLines_token, Node.onLines_list] at hchildren
      obtain ⟨hstart, -, -, -, ⟨-, hinitializer, -⟩, -⟩ := hchildren
      refine .bind (.demand _) fun name => .bind (.demand _) fun ty =>
        .bind (failsOn_evaluate initializer hinitializer) fun value =>
          .bind (failsOn_expectType ty value hstart) fun _ => .demand_bind fun v hmake => ?_
      rw [← Variable.line_of_make? hmake] at hstart
      exact .bind (.declare hstart) fun _ => .pure none
  · next target children =>
      simp only [Node.allOnLines_cons, Node.onLines_token] at hchildren
      obtain ⟨htarget, hchildren⟩ := hchildren
      refine .bind (.demand _) fun name => .bind (.lookup name htarget) fun v => ?_
      split
      · next _ source _ =>
          simp only [Node.allOnLines_cons] at hchildren
          obtain ⟨-, hsource, -⟩ := hchildren
          exact .bind (failsOn_evaluate source hsource) fun value =>
            .bind (failsOn_expectType v.ty value (hsource.line?_getD htarget)) fun _ =>
              .bind (.demand _) fun v => .bind (.update v htarget) fun _ => .pure none
      · exact .misuse
  · next _ source _ =>
      simp only [Node.allOnLines_cons] at hchildren
      exact .bind (failsOn_evaluate source hchildren.2.1) fun value =>
        .bind (.print value) fun _ => .pure none
  · next start target _ =>
      simp only [Node.allOnLines_cons, Node.onLines_token] at hchildren
      have hstart := hchildren.1
      exact .bind (.demand _) fun name => .bind (.lookup name hstart) fun v =>
        .bind (failsOn_readValue v.ty hstart) fun value => .bind (.demand _) fun v =>
          .bind (.update v hstart) fun _ => .pure none
  · next start _ condition _ =>
      simp only [Node.allOnLines_cons, Node.onLines_token] at hchildren
      obtain ⟨hstart, -, hcondition, -⟩ := hchildren
      refine .bind (failsOn_evaluate condition hcondition) fun value => ?_
      split
      · exact .pure none
      · exact .fail hstart
      · exact .fail hstart
  · next _ counter opening first children =>
      simp only [Node.allOnLines_cons, Node.onLines_token] at hchildren
      obtain ⟨-, hcounter, hopening, hfirst, hchildren⟩ := hchildren
      refine .bind (failsOn_evaluate first hfirst) fun value =>
        .bind (failsOn_asBound hfirst hopening value) fun i => ?_
      split
      · next dots last children =>
          simp only [Node.allOnLines_cons, Node.onLines_token] at hchildren
          obtain ⟨hdots, hlast, hchildren⟩ := hchildren
          refine .bind (failsOn_evaluate last hlast) fun value =>
            .bind (failsOn_asBound hlast hdots value) fun j => ?_
          split
          · next _ body _ =>
              simp only [Node.allOnLines_cons] at hchildren
              have hbody := failsOn_execute body hchildren.2.1
              exact .bind (.demand _) fun name =>
                .bind (failsOn_runLoop name hcounter i j hbody) fun _ => .pure none
          · exact .misuse
      · exact .misuse
  · next operator operand _ =>
      simp only [Node.allOnLines_cons, Node.onLines_token] at hchildren
      obtain ⟨hoperator, hoperand, -⟩ := hchildren
      exact .bind (failsOn_evaluate operand hoperand) fun value =>
        .bind (.ofExcept (ofRun_of_applyNegation hoperator)) fun value => .pure (some value)
  · next left children =>
      simp only [Node.allOnLines_cons] at hchildren
      obtain ⟨hleft, hchildren⟩ := hchildren
      refine .bind (failsOn_evaluate left hleft) fun leftValue => ?_
      split
      · exact .pure (some leftValue)
      · next operator right _ =>
          simp only [Node.allOnLines_cons, Node.onLines_list] at hchildren
          obtain ⟨⟨hoperator, hright, -⟩, -⟩ := hchildren
          refine .bind (failsOn_evaluate right hright) fun rightValue =>
            .demand_bind fun t ht => ?_
          have hline : t.line ∈ lines := by
            cases operator <;> cases ht
            exact Node.onLines_token.mp hoperator
          exact .bind (.ofExcept (ofRun_of_applyOperator hline)) fun value => .pure (some value)
      · exact .misuse
  · next literal _ => exact .bind (.demand _) fun value => .pure (some value)
  · next use _ =>
      simp only [Node.allOnLines_cons, Node.onLines_token] at hchildren
      have huse := hchildren.1
      exact .bind (.demand _) fun name => .bind (.lookup name huse) fun v =>
        .bind (.ofExcept (Variable.ofRun_of_valueAt huse)) fun value => .pure (some value)
  · next _ inner _ =>
      simp only [Node.allOnLines_cons] at hchildren
      exact .bind (failsOn_evaluate inner hchildren.2.1) fun value => .pure (some value)
  · exact .misuse
termination_by sizeOf children
decreasing_by
  all_goals
    subst_vars
    simp only [Node.list.sizeOf_spec, List.cons.sizeOf_spec]
    omega

end

end Trees

/-- Running a tree fails on the line of one of its tokens. -/
theorem Node.failsOn_lines (node : Node) :
    FailsOn (node.leaves.map Token.line) (execute node) :=
  failsOn_execute node fun _ ht => List.mem_map_of_mem ht

/-! ## Texts -/

section Texts

variable {source : String} {context context' : Context} {error : Error}

theorem isIncomplete_of_execute {node : Node}
    (herror : execute node context = .error (.error error) context') :
    error.isIncomplete = false :=
  (node.failsOn_lines context context' error herror).isIncomplete

theorem compile_eq_error_of_runIn (hrun : runIn source context = .error (.error error) context')
    (hincomplete : error.isIncomplete = true) :
    compile source = .error (.error error) ∧ context' = context := by
  rw [runIn] at hrun
  cases hcompile : compile source with
  | ok node =>
      rw [hcompile] at hrun
      have hcomplete : error.isIncomplete = false := isIncomplete_of_execute hrun
      cases hcomplete.symm.trans hincomplete
  | error failure =>
      rw [hcompile] at hrun
      cases hrun
      exact ⟨rfl, rfl⟩

end Texts

/-- If running a text ends in an incomplete error, the text did not compile and
the context is what it was.  No run of what did compile ends in such an error. -/
theorem runIn_incomplete (source : String) :
    (∀ context error context', runIn source context = .error (.error error) context' →
      error.isIncomplete = true →
      compile source = .error (.error error) ∧ context' = context) ∧
    ∀ node, compile source = .ok node → ∀ context error context',
      execute node context = .error (.error error) context' → error.isIncomplete = false :=
  ⟨fun _ _ _ hrun hincomplete => compile_eq_error_of_runIn hrun hincomplete,
    fun _ _ _ _ _ herror => isIncomplete_of_execute herror⟩

theorem runIn_incomplete_assertion :
    let context : Context :=
      ⟨[[("x", ⟨"x", 1, .int, some (.int 7)⟩)]], ⟨[.text "5"], #[.int 7], 1⟩⟩
    (∃ error context', runIn "read x; assert (x =" context = .error (.error error) context' ∧
      error.isIncomplete = true ∧
      compile "read x; assert (x =" = .error (.error error) ∧ context' = context) ∧
    ∃ node error context', compile "read x; assert (x = 7);" = .ok node ∧
      execute node context = .error (.error error) context' ∧ error.isIncomplete = false := by
  intro context
  -- the missing operand makes the text incomplete before anything is read
  have hrun : runIn "read x; assert (x =" context =
      .error (.error (.noAlternative 1 .endMarker)) context := by cbv
  obtain ⟨hcompile, hcontext⟩ := (runIn_incomplete _).1 context _ context hrun rfl
  let program : Program :=
    .next (.reading 1 "x" 1) 1 (.next (.assertion 1 1
      (.operation (.name "x" 1) .equal 1 (.literal (.int 7) 1)) 1) 1 .done)
  have hprogram : compile "read x; assert (x = 7);" = .ok program.tree := by cbv
  have hexecute : execute program.tree context = .error (.error (.assertionFailed 1))
      ⟨[[("x", ⟨"x", 1, .int, some (.int 5)⟩)]], ⟨[], #[.int 7], 2⟩⟩ := by cbv
  exact ⟨⟨_, _, hrun, rfl, hcompile, hcontext⟩,
    _, _, _, hprogram, hexecute, (runIn_incomplete _).2 _ hprogram _ _ _ hexecute⟩

/-! ## The loop -/

/-- If there is something in the buffer after a round, the round ran nothing: it
took a line and showed nothing. -/
theorem Repl.enter_waiting {repl repl' : Repl} {line : String} {rest : List Line}
    {ending? : Option Ending} (henter : repl.enter line rest = (repl', ending?))
    (hbuffer : repl'.buffer ≠ "") :
    ending? = none ∧ repl' = ⟨{ repl.context with
      console := { repl.context.console with input := rest } }, repl.buffer ++ line ++ "\n",
      repl.events⟩ := by
  unfold enter at henter
  dsimp only at henter
  split at henter
  · cases henter
    exact absurd rfl hbuffer
  · next error after hrun =>
      split at henter
      · next hincomplete =>
          obtain ⟨-, rfl⟩ := compile_eq_error_of_runIn hrun hincomplete
          cases henter
          simp [next, newlyPrinted]
      · cases henter
        exact absurd rfl hbuffer
  · cases henter
    exact absurd rfl hbuffer

end Primer
