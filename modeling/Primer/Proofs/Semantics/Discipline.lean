import Primer.Proofs.Grammar.Parts
import Primer.Proofs.Semantics.Refinement

/-!
# Scopes after runs

However a run ends, the frames are those with which it started.  The innermost
one may hold more names, but only names that the program declares outside of
its loops, and what was bound is still bound, on its line and with its type.
An error can leave a run at any depth of nested loops; each loop on the way out
drops the frame that it made.

## Main results

* `Scopes.Evolves.keeps` : what is left of the scopes that a run started with.
* `execute_keeps_scopes` : the same for whatever compiles, and for its loops.
-/

namespace Primer

/-! ## What is kept -/

namespace Frame

/-- The names that a frame binds. -/
def names (frame : Frame) : List String := frame.map Prod.fst

/-- What the frame binds is bound in the other one, with nothing changed but its
value, and with a value if it had one. -/
def Keeps (frame frame' : Frame) : Prop :=
  ∀ name v, frame.get? name = some v → ∃ v', frame'.get? name = some v' ∧ v.Evolves v'

theorem Evolves.keeps {frame frame' : Frame} (hevolves : frame.Evolves frame') :
    frame.Keeps frame' := by
  intro name v hget
  have hfound := hevolves.get? name
  rwa [hget] at hfound

end Frame

namespace Scopes

/-- What a run keeps of the scopes with which it starts, if it declares the
given names outside of its loops. -/
structure Keeps (declared : List String) (scopes scopes' : Scopes) : Prop where
  depth : scopes'.length = scopes.length
  /-- Only the innermost frame can gain names, and no frame loses one. -/
  outer : scopes'.tail.map Frame.names = scopes.tail.map Frame.names
  innermost : Frame.names (scopes'.headD []) ⊆ Frame.names (scopes.headD []) ++ declared
  bindings : List.Forall₂ Frame.Keeps scopes scopes'

variable {declared : List String} {scopes scopes' : Scopes}

theorem map_names_of_evolves {frames frames' : Scopes}
    (hframes : List.Forall₂ Frame.Evolves frames frames') :
    frames'.map Frame.names = frames.map Frame.names := by
  induction hframes with
  | nil => rfl
  | cons hframe _ ih =>
      rw [List.map_cons, List.map_cons, ih, Frame.names, Frame.names, hframe.names]

theorem Evolves.keeps (hevolves : Evolves declared scopes scopes') (hwf : scopes'.WellFormed) :
    Keeps declared scopes scopes' := by
  obtain @⟨frame, added, kept, frames, frames', hadded, hkept, houter⟩ := hevolves
  have hnames : kept.map Prod.fst = frame.map Prod.fst := hkept.names
  refine ⟨by simp [houter.length_eq], map_names_of_evolves houter, ?_, .cons ?_ ?_⟩
  · intro name hname
    rw [List.headD_cons, Frame.names, List.map_append, hnames] at hname
    rcases List.mem_append.mp hname with hname | hname
    · obtain ⟨binding, hbinding, rfl⟩ := List.mem_map.mp hname
      exact List.mem_append_right _ (hadded binding hbinding)
    · exact List.mem_append_left _ hname
  · -- no name is bound twice, so what was added hides nothing
    intro name v hget
    obtain ⟨v', hget', hv⟩ := hkept.keeps name v hget
    have hmem : (name, v') ∈ added ++ kept := List.mem_append_right _ (Frame.mem_of_get? hget')
    exact ⟨v', (hwf.2 _ List.mem_cons_self).get?_of_mem hmem, hv⟩
  · exact houter.imp fun _ _ => Frame.Evolves.keeps

end Scopes

/-! ## Executions -/

/-- From a context, the execution ends in another one, as it should or with an
error of the program. -/
def ExecOn.Ends {World : Type} (execution : ExecOn World Unit) (context after : Context World) :
    Prop :=
  execution context = .ok () after ∨ ∃ error, execution context = .error (.error error) after

theorem Mirrors.exists_ends {declared : List String} {execution : Exec Unit} {run : Run Unit}
    {context : Context} (hmirrors : Mirrors declared execution run context) :
    ∃ after, execution.Ends context after ∧ context.scopes.Keeps declared after.scopes := by
  refine ⟨(run.outcome context).2, ?_, hmirrors.evolves.keeps hmirrors.wellFormed⟩
  have hagrees := hmirrors.agrees
  rw [Run.toExec_apply] at hagrees
  rcases houtcome : run.outcome context with ⟨error | _, after⟩
  · rw [houtcome] at hagrees
    exact .inr ⟨error, hagrees⟩
  · rw [houtcome] at hagrees
    exact .inl hagrees

/-- Executing what compiles keeps the scopes, and so does each loop in it, which
leaves no name behind. -/
theorem execute_keeps_scopes {source : String} {node : Node} (hcompile : compile source = .ok node)
    {context : Context} (hwf : context.scopes.WellFormed) :
    (∃ (program : Program) (after : Context), node = program.tree ∧
      (execute node).Ends context after ∧
        context.scopes.Keeps program.declared after.scopes) ∧
    ∀ children, .deferred .loop children ∈ node.parts →
      ∀ inner : Context, inner.scopes.WellFormed →
        ∃ after, (execute (.deferred .loop children)).Ends inner after ∧
          inner.scopes.Keeps [] after.scopes := by
  obtain ⟨program, line, rest, rfl, -⟩ := compile_eq_ok.mp hcompile
  constructor
  -- a program may declare in the innermost frame, a loop in none that outlives it
  · obtain ⟨after, hends, hkeeps⟩ := (program.mirrors_run hwf).exists_ends
    exact ⟨program, after, rfl, hends, hkeeps⟩
  · intro children hpart inner hinner
    obtain ⟨forLine, name, line, inLine, first, rangeLine, last, doLine, body, endLine,
      closingLine, hloop⟩ := Program.loop_of_mem_parts hpart
    rw [hloop]
    exact (Statement.mirrors_run _ hinner).exists_ends

theorem execute_keeps_scopes_loop :
    let source := "var i:int;for i in 1..1 do var y:int;assert(false);end for;"
    ∃ node, compile source = .ok node ∧ Scopes.WellFormed .initial ∧
      ∃ after, (execute node).Ends (.ofLines []) after ∧ after.scopes.length = 1 := by
  intro source
  have hcompile : compile source = .ok (Program.tree
      (.next (.declaration 1 "i" 1 1 .int 1 none) 1
        (.next (.loop 1 "i" 1 1 (.single (.literal (.int 1) 1)) 1 (.single (.literal (.int 1) 1)) 1
          (.next (.declaration 1 "y" 1 1 .int 1 none) 1
            (.next (.assertion 1 1 (.single (.literal (.bool false) 1)) 1) 1 .done)) 1 1) 1
              .done))) :=
    compile_eq_ok.mpr ⟨_, 1, [], rfl, by cbv⟩
  have hwf : (Context.ofLines []).scopes.WellFormed := Scopes.wellFormed_initial
  obtain ⟨⟨program, after, -, hends, hkeeps⟩, -⟩ := execute_keeps_scopes hcompile hwf
  exact ⟨_, hcompile, hwf, after, hends, hkeeps.depth⟩

end Primer
