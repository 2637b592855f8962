import Primer.Proofs.Semantics.Running
import Primer.Proofs.Semantics.Scopes
import Primer.Proofs.Semantics.Worlds

/-!
# What runs leave alone

A run changes variables through the names that its statements declare, assign,
read into or count with.  A name that is none of these targets keeps all of its
variables.  A target keeps those that are out of reach: a name refers to the
innermost frame that holds it, so once one of the first `n` frames does, nothing
beyond these frames can be changed through it.  Both are one statement, about the
variables of a name in the frames from `n` on.

The induction follows the frames through loops: in the frame made for a run of
the body, what was beyond `n` frames is beyond `n + 1`.

## Main results

* `Statement.spares_run`, `Program.spares_run` : what a run cannot change.
-/

namespace Primer

/-! ## Targets -/

mutual

/-- The names that a statement declares, assigns, reads into or counts with. -/
def Statement.targets : Statement → List String
  | .declaration _ name _ _ _ _ _ => [name]
  | .assignment name _ _ _ => [name]
  | .printing _ _ => []
  | .reading _ name _ => [name]
  | .assertion _ _ _ _ => []
  | .loop _ name _ _ _ _ _ _ body _ _ => name :: body.targets

/-- The names that one of the statements declares, assigns, reads into or counts with. -/
def Program.targets : Program → List String
  | .done => []
  | .next statement _ rest => statement.targets ++ rest.targets

end

/-! ## Frames and scopes -/

/-- What is found under a name has that name. -/
def Frame.Labelled (frame : Frame) : Prop := ∀ name v, frame.get? name = some v → v.name = name

namespace Frame

variable {frame : Frame} {v : Variable} {y : String}

theorem WellFormed.labelled (hwf : frame.WellFormed) : frame.Labelled :=
  fun _ _ hget => (hwf.get? hget).1

theorem labelled_nil : Frame.Labelled [] := Frame.wellFormed_nil.labelled

theorem Labelled.bind (hlabelled : frame.Labelled) (v : Variable) : (frame.bind v).Labelled := by
  intro name w hget
  rw [get?_bind] at hget
  split at hget
  · next hname =>
      cases hget
      exact hname.symm
  · exact hlabelled name w hget

theorem Labelled.rebind (hlabelled : frame.Labelled) (v : Variable) :
    (frame.rebind v).Labelled := by
  intro name w hget
  rw [get?_rebind] at hget
  split at hget
  · next hname =>
      obtain ⟨_, -, rfl⟩ := Option.map_eq_some_iff.mp hget
      exact hname.symm
  · exact hlabelled name w hget

theorem isSome_get?_bind (hget : (frame.get? y).isSome) : ((frame.bind v).get? y).isSome := by
  rw [get?_bind]
  split
  · rfl
  · exact hget

theorem isSome_get?_rebind (hget : (frame.get? y).isSome) :
    ((frame.rebind v).get? y).isSome := by
  rw [get?_rebind]
  split
  · rwa [Option.isSome_map]
  · exact hget

end Frame

namespace Scopes

/-- What is found under a name in one of the frames has that name. -/
def Labelled (scopes : Scopes) : Prop := ∀ frame ∈ scopes, Frame.Labelled frame

/-- One of the first `n` frames holds the name. -/
def Covers (n : Nat) (y : String) (scopes : Scopes) : Prop :=
  ∃ frame ∈ scopes.take n, (Frame.get? frame y).isSome

/-- Frame by frame, a name has the same variable or has none in both. -/
def SameAt (y : String) : Scopes → Scopes → Prop :=
  List.Forall₂ fun frame frame' => Frame.get? frame' y = Frame.get? frame y

/-- From the first scopes to the second, the variables of a name have stayed as
they were from the frame `n` on, and no frame has lost the name. -/
structure Spares (n : Nat) (y : String) (scopes scopes' : Scopes) : Prop where
  labelled : scopes.Labelled → scopes'.Labelled
  bound : List.Forall₂ (fun frame frame' : Frame => (frame.get? y).isSome → (frame'.get? y).isSome)
    scopes scopes'
  outer : SameAt y (scopes.drop n) (scopes'.drop n)

variable {n : Nat} {y : String} {scopes scopes' scopes'' : Scopes} {frame frame' : Frame}

theorem SameAt.refl (y : String) (scopes : Scopes) : SameAt y scopes scopes :=
  List.forall₂_same.mpr fun _ _ => rfl

theorem WellFormed.labelled (hwf : scopes.WellFormed) : scopes.Labelled :=
  fun frame hframe => (hwf.2 frame hframe).labelled

theorem Labelled.resolve? (hlabelled : scopes.Labelled) {name : String} {v : Variable}
    (hresolve : scopes.resolve? name = some v) : v.name = name := by
  obtain ⟨frame, hframe, hget⟩ := List.exists_of_findSome?_eq_some hresolve
  exact hlabelled frame hframe name v hget

theorem not_covers_zero : ¬Covers 0 y scopes := by
  rintro ⟨frame, hframe, -⟩
  exact nomatch hframe

theorem covers_cons : Covers (n + 1) y (frame :: scopes) ↔
    (frame.get? y).isSome ∨ Covers n y scopes := by
  simp only [Covers, List.take_succ_cons, List.mem_cons, exists_eq_or_imp]

namespace Spares

theorem refl (n : Nat) (y : String) (scopes : Scopes) : Spares n y scopes scopes :=
  ⟨id, List.forall₂_same.mpr fun _ _ => id, .refl y (scopes.drop n)⟩

theorem trans (hfirst : Spares n y scopes scopes') (hsecond : Spares n y scopes' scopes'') :
    Spares n y scopes scopes'' where
  labelled := hsecond.labelled ∘ hfirst.labelled
  bound := forall₂_trans (fun hframe hframe' hsome => hframe' (hframe hsome)) hfirst.bound
    hsecond.bound
  outer := forall₂_trans (fun hframe hframe' => hframe'.trans hframe) hfirst.outer hsecond.outer

/-- A name that was covered still is. -/
theorem covers (hspares : Spares n y scopes scopes') (hcovers : Covers n y scopes) :
    Covers n y scopes' := by
  obtain ⟨frame, hframe, hget⟩ := hcovers
  have hbound := List.forall₂_take n hspares.bound
  obtain ⟨i, hi, rfl⟩ := List.mem_iff_getElem.mp hframe
  have hi' : i < (scopes'.take n).length := hbound.length_eq ▸ hi
  exact ⟨_, List.getElem_mem hi', hbound.get hi hi' hget⟩

/-- A change of the innermost frame alone. -/
theorem head (hlabelled : frame.Labelled → frame'.Labelled)
    (hbound : (frame.get? y).isSome → (frame'.get? y).isSome)
    (houter : n = 0 → frame'.get? y = frame.get? y) :
    Spares n y (frame :: scopes) (frame' :: scopes) := by
  refine ⟨fun hscopes => ?_, .cons hbound (List.forall₂_same.mpr fun _ _ => id), ?_⟩
  · obtain ⟨hframe, hframes⟩ := List.forall_mem_cons.mp hscopes
    exact List.forall_mem_cons.mpr ⟨hlabelled hframe, hframes⟩
  · cases n with
    | zero => exact .cons (houter rfl) (SameAt.refl y scopes)
    | succ n => exact .refl y (scopes.drop n)

/-- A change of the frames behind the innermost one, as far as it reaches there. -/
theorem tail (hspares : Spares (n - 1) y scopes scopes') :
    Spares n y (frame :: scopes) (frame :: scopes') := by
  refine ⟨fun hscopes => ?_, .cons id hspares.bound, ?_⟩
  · obtain ⟨hframe, hframes⟩ := List.forall_mem_cons.mp hscopes
    exact List.forall_mem_cons.mpr ⟨hframe, hspares.labelled hframes⟩
  · cases n with
    | zero => exact .cons rfl hspares.outer
    | succ n => exact hspares.outer

end Spares

/-- An update reaches the innermost frame that holds the name of its variable. -/
theorem spares_update? {v : Variable} (hcovers : v.name = y → Covers n y scopes)
    (hupdate : scopes.update? v = some scopes') : Spares n y scopes scopes' := by
  induction scopes generalizing n scopes' with
  | nil => cases hupdate
  | cons frame frames ih =>
      rw [update?] at hupdate
      split at hupdate
      · cases hupdate
        refine .head (·.rebind v) Frame.isSome_get?_rebind fun hzero => ?_
        subst hzero
        rw [Frame.get?_rebind, if_neg fun hname => not_covers_zero (hcovers hname.symm)]
      · next hframe =>
          obtain ⟨frames', hrest, rfl⟩ := Option.map_eq_some_iff.mp hupdate
          -- this frame does not hold the name, so one of the next `n - 1` does
          refine .tail (ih (fun hname => ?_) hrest)
          cases n with
          | zero => exact absurd (hcovers hname) not_covers_zero
          | succ n =>
              rw [hname] at hframe
              exact (covers_cons.mp (hcovers hname)).resolve_left hframe

end Scopes

/-! ## Runs -/

namespace Run

variable {α β : Type} {n : Nat} {y : String} {context : Context}

/-- What the run leaves alone of the variables of a name. -/
def Spares (n : Nat) (y : String) (m : Run α) (context : Context) : Prop :=
  context.scopes.Spares n y (m.outcome context).2.scopes

theorem spares_of_scopes_eq {m : Run α} (hscopes : (m.outcome context).2.scopes = context.scopes) :
    m.Spares n y context := by
  rw [Spares, hscopes]
  exact .refl n y context.scopes

/-- The second part starts where the first one succeeds, with what this one spared. -/
theorem spares_bind {m : Run α} {f : α → Run β} (hm : m.Spares n y context)
    (hf : ∀ a after, m.outcome context = (.ok a, after) →
      context.scopes.Spares n y after.scopes → (f a).Spares n y after) :
    (m >>= f).Spares n y context := by
  rcases houtcome : m.outcome context with ⟨error | a, after⟩
  all_goals rw [Spares, houtcome] at hm
  · rw [Spares, outcome_bind_of_error houtcome]
    exact hm
  · rw [Spares, outcome_bind_of_ok houtcome]
    exact hm.trans (hf a after houtcome hm)

theorem spares_ofScopes (g : Scopes → Except Error α) {f : α → Run β}
    (hf : ∀ a, (f a).Spares n y context) : (ofScopes g >>= f).Spares n y context := by
  rw [Spares, outcome_ofScopes_bind]
  cases g context.scopes with
  | error error => exact .refl n y context.scopes
  | ok a => exact hf a

theorem spares_resolve {name : String} {line : Nat} {f : Variable → Run β}
    (hlabelled : context.scopes.Labelled)
    (hf : ∀ v, v.name = name → (f v).Spares n y context) :
    (resolve name line >>= f).Spares n y context := by
  rw [Spares, outcome_resolve_bind]
  cases hresolve : context.scopes.resolve? name with
  | none => exact .refl n y context.scopes
  | some v => exact hf v (hlabelled.resolve? hresolve)

theorem spares_readLine {line : Nat} {f : String → Run β}
    (hf : ∀ content after, after.scopes = context.scopes → (f content).Spares n y after) :
    (readLine line >>= f).Spares n y context := by
  have hscopes : ((readLine line).outcome context).2.scopes = context.scopes := by
    rw [outcome_readLine]
    rcases context.console.read? with ⟨_ | _ | _, console⟩ <;> rfl
  refine spares_bind (spares_of_scopes_eq hscopes) fun content after houtcome _ => ?_
  rw [houtcome] at hscopes
  exact hf content after hscopes

theorem spares_assign {v : Variable} (hcovers : v.name = y → context.scopes.Covers n y)
    (value : Value) : (assign v value).Spares n y context := by
  rw [Spares, outcome_assign]
  cases hupdate : context.scopes.update? { v with value? := some value } with
  | none => exact .refl n y context.scopes
  | some scopes =>
      have hname : ({ v with value? := some value } : Variable).name = y →
          context.scopes.Covers n y := hcovers
      exact Scopes.spares_update? hname hupdate

theorem spares_declare {v : Variable} (hcovers : v.name = y → context.scopes.Covers n y) :
    (declare v).Spares n y context := by
  rw [Spares, outcome_declare]
  obtain ⟨_ | ⟨frame, frames⟩, console⟩ := context
  · exact .refl n y []
  · cases hget : frame.get? v.name with
    | some previous => simpa only [hget] using Scopes.Spares.refl n y (frame :: frames)
    | none =>
        simp only [hget]
        refine .head (·.bind v) Frame.isSome_get?_bind fun hzero => ?_
        subst hzero
        rw [Frame.get?_bind, if_neg fun hname => Scopes.not_covers_zero (hcovers hname.symm)]

/-- The frame made for a run of the body is dropped, whatever was changed in it. -/
theorem spares_withCounter {counter : Variable} {body : Run Unit} (i : Int64)
    (hlabelled : context.scopes.Labelled)
    (hbody : ∀ (frame : Frame) (inner : Context), inner.scopes = frame :: context.scopes →
      inner.scopes.Labelled → body.Spares (n + 1) y inner) :
    (withCounter counter i body).Spares n y context := by
  let copy : Variable := { counter with value? := some (.int i) }
  let inner : Context := { context with scopes := [(copy.name, copy)] :: context.scopes }
  have hcopy : Frame.Labelled (Frame.bind [] copy) := Frame.labelled_nil.bind copy
  have hinner : inner.scopes.Labelled := List.forall_mem_cons.mpr ⟨hcopy, hlabelled⟩
  have hspares : inner.scopes.Spares (n + 1) y (body.outcome inner).2.scopes :=
    hbody _ inner rfl hinner
  rw [Spares, outcome_withCounter]
  change context.scopes.Spares n y (body.outcome inner).2.scopes.tail
  obtain ⟨hlabels, hbound, houter⟩ := hspares
  replace hlabels := hlabels hinner
  -- the body leaves at least the frame of the round, which is then dropped
  cases hscopes : (body.outcome inner).2.scopes with
  | nil =>
      rw [hscopes] at hbound
      cases hbound
  | cons frame' scopes' =>
      rw [hscopes] at hlabels hbound houter
      cases hbound with
      | cons _ hbound => exact ⟨fun _ => (List.forall_mem_cons.mp hlabels).2, hbound, houter⟩

theorem spares_forM {body : Int64 → Run Unit} (invariant : Scopes → Prop)
    (hbody : ∀ i context, invariant context.scopes → (body i).Spares n y context)
    (hkeeps : ∀ scopes scopes', invariant scopes → scopes.Spares n y scopes' → invariant scopes')
    (is : List Int64) (hinvariant : invariant context.scopes) :
    (is.forM body).Spares n y context := by
  induction is generalizing context with
  | nil => exact .refl n y context.scopes
  | cons i is ih =>
      exact spares_bind (hbody i context hinvariant) fun _ after _ hspares =>
        ih (hkeeps _ _ hinvariant hspares)

end Run

/-! ## Statements and programs -/

/-- Scopes on which a run with the given targets spares the variables of a name. -/
structure Scopes.Shields (n : Nat) (y : String) (targets : List String) (scopes : Scopes) :
    Prop where
  labelled : scopes.Labelled
  covers : y ∈ targets → scopes.Covers n y

namespace Scopes.Shields

variable {n : Nat} {y name : String} {targets fewer : List String} {scopes scopes' : Scopes}

theorem of_spares (hshields : scopes.Shields n y targets) (hspares : scopes.Spares n y scopes') :
    scopes'.Shields n y targets :=
  ⟨hspares.labelled hshields.labelled, fun htarget => hspares.covers (hshields.covers htarget)⟩

theorem mono (hshields : scopes.Shields n y targets) (hsubset : fewer ⊆ targets) :
    scopes.Shields n y fewer :=
  ⟨hshields.labelled, fun htarget => hshields.covers (hsubset htarget)⟩

/-- A variable with the name of a target is changed within the first frames only. -/
theorem covers_head (hshields : scopes.Shields n y (name :: targets)) {v : Variable}
    (hv : v.name = name) : v.name = y → scopes.Covers n y := by
  rintro rfl
  exact hshields.covers (hv ▸ List.mem_cons_self)

end Scopes.Shields

open Run

/-- One run of the body of a loop and the step to the next counter. -/
theorem Run.spares_round {n : Nat} {y name : String} {targets : List String} {counter : Variable}
    {body : Run Unit} {context : Context}
    (hbody : ∀ inner : Context, inner.scopes.Shields (n + 1) y targets →
      body.Spares (n + 1) y inner)
    (hcounter : counter.name = name) (k next : Int64)
    (hshields : context.scopes.Shields n y (name :: targets)) :
    (withCounter counter k body >>= fun _ => assign counter (.int next)).Spares n y context := by
  have hrun : (withCounter counter k body).Spares n y context := by
    refine spares_withCounter k hshields.labelled fun frame inner hscopes hlabelled => ?_
    refine hbody inner ⟨hlabelled, fun htarget => ?_⟩
    rw [hscopes]
    exact Scopes.covers_cons.mpr (.inr (hshields.covers (List.mem_cons_of_mem name htarget)))
  exact spares_bind hrun fun _ after _ hspares =>
    spares_assign ((hshields.of_spares hspares).covers_head hcounter) _

mutual

theorem Statement.spares_run (statement : Statement) {n : Nat} {y : String} {context : Context}
    (hshields : context.scopes.Shields n y statement.targets) :
    statement.run.Spares n y context := by
  have hlabelled := hshields.labelled
  cases statement with
  | declaration line name nameLine colonLine ty tyLine initializer? =>
      cases initializer? with
      | none => exact spares_declare (hshields.covers_head rfl)
      | some initializer =>
          exact spares_ofScopes _ fun value => spares_declare (hshields.covers_head rfl)
  | assignment name line assignLine source =>
      exact spares_resolve hlabelled fun v hv => spares_ofScopes _ fun value =>
        spares_assign (hshields.covers_head hv) value
  | printing line source => exact spares_ofScopes _ fun value => .refl n y context.scopes
  | reading line name nameLine =>
      refine spares_resolve hlabelled fun v hv => ?_
      have hname : v.name = y → context.scopes.Covers n y := hshields.covers_head hv
      cases v.ty with
      | int =>
          refine spares_readLine fun content after hscopes => ?_
          cases Decimal.read? content with
          | none => exact .refl n y after.scopes
          | some i => exact spares_assign (hscopes ▸ hname) (.int i)
      | string =>
          exact spares_readLine fun content after hscopes =>
            spares_assign (hscopes ▸ hname) (.string content)
      | bool => exact .refl n y context.scopes
  | assertion line openLine condition closeLine =>
      refine spares_ofScopes _ fun value => ?_
      rcases value with _ | _ | (_ | _) <;> exact .refl n y context.scopes
  | loop forLine name line inLine first rangeLine last doLine body endLine closingLine =>
      refine spares_ofScopes _ fun i => spares_ofScopes _ fun j =>
        spares_resolve hlabelled fun counter hcounter => ?_
      split
      · exact .refl n y context.scopes
      · refine spares_bind (spares_assign (hshields.covers_head hcounter) _)
          fun _ after _ hspares => ?_
        -- each round starts from frames that shield the name as the ones before did
        exact spares_forM (Scopes.Shields n y (name :: body.targets))
          (fun k _ => spares_round (fun inner => body.spares_run) hcounter k _)
          (fun _ _ => .of_spares) _ (hshields.of_spares hspares)

theorem Program.spares_run (program : Program) {n : Nat} {y : String} {context : Context}
    (hshields : context.scopes.Shields n y program.targets) : program.run.Spares n y context := by
  cases program with
  | done => exact .refl n y context.scopes
  | next statement semicolonLine rest =>
      have hstatement : statement.run.Spares n y context :=
        statement.spares_run (hshields.mono (List.subset_append_left _ _))
      exact spares_bind hstatement fun _ after _ hspares =>
        rest.spares_run ((hshields.of_spares hspares).mono (List.subset_append_right _ _))

end

end Primer
