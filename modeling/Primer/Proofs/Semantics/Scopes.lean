import Mathlib.Data.List.Forall2
import Primer.Scope

/-!
# How scopes change

Whatever a program does, the frames that were there stay, in their order, with
the names they had; only the innermost frame can get more names.  A variable
keeps its line and its type, and once it has a value it always has one.
`Scopes.Evolves` is this relation, and each operation on well-formed scopes
leads to well-formed scopes that are related to those before.
-/

namespace Primer

/-! ## Variables and frames -/

/-- Nothing but the value of a variable changes, and it is not lost. -/
structure Variable.Evolves (v v' : Variable) : Prop where
  name : v'.name = v.name
  line : v'.line = v.line
  ty : v'.ty = v.ty
  initialized : v.value?.isSome → v'.value?.isSome

namespace Variable.Evolves

@[simp] theorem refl (v : Variable) : v.Evolves v := ⟨rfl, rfl, rfl, id⟩

theorem trans {v v' v'' : Variable} (hfirst : v.Evolves v') (hsecond : v'.Evolves v'') :
    v.Evolves v'' where
  name := hsecond.name.trans hfirst.name
  line := hsecond.line.trans hfirst.line
  ty := hsecond.ty.trans hfirst.ty
  initialized := hsecond.initialized ∘ hfirst.initialized

end Variable.Evolves

theorem Variable.wellTyped_withValue {v : Variable} {value : Value} (hty : value.ty = v.ty) :
    ({ v with value? := some value } : Variable).WellTyped := by
  rintro _ ⟨⟩
  exact hty

theorem Variable.withValue?_eq_some (v : Variable) (value : Value) (hty : value.ty = v.ty) :
    v.withValue? value = some { v with value? := some value } := by
  simp [withValue?, make?, hty]

namespace Frame

/-- The same names in the same order, each still bound to its variable. -/
def Evolves : Frame → Frame → Prop :=
  List.Forall₂ fun binding binding' => binding'.1 = binding.1 ∧ binding.2.Evolves binding'.2

namespace Evolves

@[simp] theorem refl (frame : Frame) : frame.Evolves frame :=
  List.forall₂_same.mpr fun binding _ => ⟨rfl, .refl binding.2⟩

theorem trans {frame frame' frame'' : Frame} (hfirst : frame.Evolves frame')
    (hsecond : frame'.Evolves frame'') : frame.Evolves frame'' := by
  induction hfirst generalizing frame'' with
  | nil => exact hsecond
  | cons hbinding _ ih =>
      cases hsecond with
      | cons hbinding' hrest =>
          exact .cons ⟨hbinding'.1.trans hbinding.1, hbinding.2.trans hbinding'.2⟩ (ih hrest)

theorem names {frame frame' : Frame} (hevolves : frame.Evolves frame') :
    frame'.map Prod.fst = frame.map Prod.fst := by
  induction hevolves with
  | nil => rfl
  | cons hbinding _ ih => rw [List.map_cons, List.map_cons, hbinding.1, ih]

/-- A name that was bound is still bound, and no other is. -/
theorem get? {frame frame' : Frame} (hevolves : frame.Evolves frame') (name : String) :
    match frame.get? name with
    | none => frame'.get? name = none
    | some v => ∃ v', frame'.get? name = some v' ∧ v.Evolves v' := by
  induction hevolves with
  | nil => rfl
  | @cons binding binding' _ _ hbinding _ ih =>
      obtain ⟨_, v⟩ := binding
      obtain ⟨bound, v'⟩ := binding'
      obtain ⟨rfl, hv⟩ := hbinding
      simp only [Frame.get?, List.lookup_cons] at ih ⊢
      cases name == bound with
      | true => exact ⟨v', rfl, hv⟩
      | false => exact ih

end Evolves

@[simp] theorem wellFormed_nil : WellFormed [] := ⟨List.nodup_nil, fun _ hmem => nomatch hmem⟩

theorem mem_of_get? {frame : Frame} {name : String} {v : Variable}
    (hget : frame.get? name = some v) : (name, v) ∈ frame := by
  obtain ⟨first, rest, rfl, -⟩ := List.lookup_eq_some_iff.mp hget
  simp

theorem get?_eq_none {frame : Frame} {name : String} :
    frame.get? name = none ↔ name ∉ frame.map Prod.fst := by
  simp only [Frame.get?, List.lookup_eq_none_iff, bne_iff_ne, List.mem_map, not_exists, not_and]
  exact ⟨fun hall binding hmem heq => hall binding hmem heq.symm,
    fun hall binding hmem heq => hall binding hmem heq.symm⟩

/-- Names are bound once, so what is bound is what is found. -/
theorem WellFormed.get?_of_mem {frame : Frame} (hwf : frame.WellFormed) {name : String}
    {v : Variable} (hmem : (name, v) ∈ frame) : frame.get? name = some v := by
  induction frame with
  | nil => exact nomatch hmem
  | cons binding frame ih =>
      obtain ⟨hnodup, hbindings⟩ := hwf
      rw [List.map_cons, List.nodup_cons] at hnodup
      rcases List.mem_cons.mp hmem with rfl | hmem
      · simp [Frame.get?]
      · have hne : name ≠ binding.1 := fun heq =>
          hnodup.1 (heq ▸ List.mem_map_of_mem (f := Prod.fst) hmem)
        have hframe : WellFormed frame :=
          ⟨hnodup.2, fun binding' hmem' => hbindings binding' (List.mem_cons_of_mem _ hmem')⟩
        rw [← ih hframe hmem, Frame.get?, List.lookup_cons, beq_false_of_ne hne, Frame.get?]

theorem WellFormed.get? {frame : Frame} (hwf : frame.WellFormed) {name : String} {v : Variable}
    (hget : frame.get? name = some v) : v.name = name ∧ v.WellTyped :=
  hwf.2 _ (mem_of_get? hget)

theorem wellFormed_bind {frame : Frame} {v : Variable} (hwf : frame.WellFormed)
    (hget : frame.get? v.name = none) (hv : v.WellTyped) : (frame.bind v).WellFormed := by
  refine ⟨?_, ?_⟩
  · rw [bind, List.map_cons, List.nodup_cons]
    exact ⟨get?_eq_none.mp hget, hwf.1⟩
  · intro binding hmem
    rcases List.mem_cons.mp hmem with rfl | hmem
    · exact ⟨rfl, hv⟩
    · exact hwf.2 binding hmem

theorem names_rebind (frame : Frame) (v : Variable) :
    (frame.rebind v).map Prod.fst = frame.map Prod.fst := by
  simp only [rebind, List.map_map]
  refine List.map_congr_left fun binding _ => ?_
  simp only [Function.comp_apply]
  split <;> rfl

theorem wellFormed_rebind {frame : Frame} {v : Variable} (hwf : frame.WellFormed)
    (hv : v.WellTyped) : (frame.rebind v).WellFormed := by
  refine ⟨by rw [names_rebind]; exact hwf.1, ?_⟩
  intro binding hmem
  obtain ⟨⟨name, old⟩, hold, rfl⟩ := List.mem_map.mp hmem
  dsimp only
  split
  · next heq => exact ⟨heq.symm, hv⟩
  · exact hwf.2 (name, old) hold

theorem evolves_rebind {frame : Frame} {old v : Variable} (hwf : frame.WellFormed)
    (hget : frame.get? v.name = some old) (hevolves : old.Evolves v) :
    frame.Evolves (frame.rebind v) := by
  refine List.forall₂_map_right_iff.mpr (List.forall₂_same.mpr ?_)
  rintro ⟨name, w⟩ hmem
  dsimp only
  split
  · next heq =>
      subst heq
      obtain rfl := Option.some.inj ((hwf.get?_of_mem hmem).symm.trans hget)
      exact ⟨rfl, hevolves⟩
  · exact ⟨rfl, .refl w⟩

end Frame

/-! ## Stacks of frames -/

theorem forall₂_trans {α : Type} {relates : α → α → Prop}
    (htrans : ∀ {a b c}, relates a b → relates b c → relates a c) {as bs cs : List α}
    (hfirst : List.Forall₂ relates as bs) (hsecond : List.Forall₂ relates bs cs) :
    List.Forall₂ relates as cs := by
  induction hfirst generalizing cs with
  | nil => exact hsecond
  | cons hab _ ih =>
      cases hsecond with
      | cons hbc hrest => exact .cons (htrans hab hbc) (ih hrest)

namespace Scopes

/-- The frames after a run are those before it, except that the innermost one
may also hold names that were `declared`. -/
inductive Evolves (declared : List String) : Scopes → Scopes → Prop
  | intro {frame added kept : Frame} {frames frames' : Scopes}
      (hadded : ∀ binding ∈ added, binding.1 ∈ declared) (hkept : frame.Evolves kept)
      (houter : List.Forall₂ Frame.Evolves frames frames') :
      Evolves declared (frame :: frames) ((added ++ kept) :: frames')

namespace Evolves

variable {declared : List String} {scopes scopes' scopes'' : Scopes}

/-- Frames that gained no name. -/
theorem of_forall₂ (hnonempty : scopes ≠ []) (hframes : List.Forall₂ Frame.Evolves scopes scopes') :
    Evolves declared scopes scopes' := by
  cases hframes with
  | nil => exact absurd rfl hnonempty
  | cons hframe houter =>
      have hnone : ∀ binding ∈ ([] : Frame), binding.1 ∈ declared := fun _ hmem => nomatch hmem
      exact .intro hnone hframe houter

theorem refl (hnonempty : scopes ≠ []) : Evolves declared scopes scopes :=
  of_forall₂ hnonempty (List.forall₂_same.mpr fun frame _ => .refl frame)

theorem mono {more : List String} (hsubset : declared ⊆ more)
    (hevolves : Evolves declared scopes scopes') : Evolves more scopes scopes' := by
  obtain ⟨hadded, hkept, houter⟩ := hevolves
  exact .intro (fun binding hmem => hsubset (hadded binding hmem)) hkept houter

theorem trans (hfirst : Evolves declared scopes scopes')
    (hsecond : Evolves declared scopes' scopes'') : Evolves declared scopes scopes'' := by
  obtain @⟨frame, added, kept, frames, frames', hadded, hkept, houter⟩ := hfirst
  obtain @⟨_, added', kept', _, frames'', hadded', hkept', houter'⟩ := hsecond
  -- what was kept splits into what the first run added and what it kept
  have hadds : Frame.Evolves added (kept'.take added.length) := by
    have htake := List.forall₂_take added.length hkept'
    rwa [List.take_left] at htake
  have hkeeps : Frame.Evolves kept (kept'.drop added.length) := by
    have hdrop := List.forall₂_drop added.length hkept'
    rwa [List.drop_left] at hdrop
  have hframe : added' ++ kept' =
      (added' ++ kept'.take added.length) ++ kept'.drop added.length := by
    rw [List.append_assoc, List.take_append_drop]
  rw [hframe]
  refine .intro ?_ (hkept.trans hkeeps) ?_
  · intro binding hmem
    rcases List.mem_append.mp hmem with hmem | hmem
    · exact hadded' binding hmem
    · have hname : binding.1 ∈ added.map Prod.fst := by
        rw [← hadds.names]
        exact List.mem_map_of_mem hmem
      obtain ⟨original, horiginal, heq⟩ := List.mem_map.mp hname
      exact heq ▸ hadded original horiginal
  · exact forall₂_trans (fun hframe hframe' => hframe.trans hframe') houter houter'

theorem length (hevolves : Evolves declared scopes scopes') : scopes'.length = scopes.length := by
  obtain ⟨-, -, houter⟩ := hevolves
  simp [houter.length_eq]

theorem ne_nil (hevolves : Evolves declared scopes scopes') : scopes' ≠ [] := by
  cases hevolves
  exact List.cons_ne_nil _ _

/-- If nothing was declared, no frame gained a name. -/
theorem forall₂ (hevolves : Evolves [] scopes scopes') :
    List.Forall₂ Frame.Evolves scopes scopes' := by
  obtain @⟨_, added, _, _, _, hadded, hkept, houter⟩ := hevolves
  obtain rfl : added = [] := List.eq_nil_iff_forall_not_mem.mpr fun binding hmem =>
    nomatch hadded binding hmem
  exact .cons hkept houter

/-- If nothing was declared, a name that was bound is bound in the same frame. -/
theorem resolve? (hevolves : Evolves [] scopes scopes') {name : String} {v : Variable}
    (hresolve : scopes.resolve? name = some v) :
    ∃ v', scopes'.resolve? name = some v' ∧ v.Evolves v' := by
  have hframes := hevolves.forall₂
  clear hevolves
  -- the search passes the same frames, as none of them gained a name
  induction hframes with
  | nil => exact nomatch hresolve
  | @cons frame frame' frames frames' hframe _ ih =>
      have hget := hframe.get? name
      simp only [Scopes.resolve?, List.findSome?_cons] at hresolve ih ⊢
      cases hbound : frame.get? name with
      | none =>
          simp only [hbound] at hget hresolve
          simp only [hget]
          exact ih hresolve
      | some w =>
          simp only [hbound, Option.some.injEq] at hget hresolve
          obtain ⟨v', hv', hw⟩ := hget
          simp only [hv']
          exact ⟨v', rfl, hresolve ▸ hw⟩

end Evolves

/-! ## Operations -/

theorem WellFormed.cons {frame : Frame} {frames : Scopes} (hframe : frame.WellFormed)
    (hframes : ∀ f ∈ frames, Frame.WellFormed f) : WellFormed (frame :: frames) :=
  ⟨List.cons_ne_nil _ _, List.forall_mem_cons.mpr ⟨hframe, hframes⟩⟩

/-- What a name refers to has that name and a value of its type, if any. -/
theorem WellFormed.resolve? {scopes : Scopes} (hwf : scopes.WellFormed) {name : String}
    {v : Variable} (hresolve : scopes.resolve? name = some v) : v.name = name ∧ v.WellTyped := by
  obtain ⟨frame, hframe, hget⟩ := List.exists_of_findSome?_eq_some hresolve
  exact (hwf.2 frame hframe).get? hget

theorem wellFormed_declare {frame : Frame} {frames : Scopes} {v : Variable}
    (hwf : WellFormed (frame :: frames)) (hget : frame.get? v.name = none) (hv : v.WellTyped) :
    WellFormed (frame.bind v :: frames) :=
  have hframes := List.forall_mem_cons.mp hwf.2
  .cons (Frame.wellFormed_bind hframes.1 hget hv) hframes.2

theorem evolves_declare (frame : Frame) (frames : Scopes) (v : Variable) :
    Evolves [v.name] (frame :: frames) (frame.bind v :: frames) := by
  have hadded : ∀ binding ∈ [(v.name, v)], binding.1 ∈ [v.name] := by simp
  exact .intro hadded (.refl frame) (List.forall₂_same.mpr fun frame _ => .refl frame)

theorem length_update? {scopes scopes' : Scopes} {v : Variable}
    (hupdate : scopes.update? v = some scopes') : scopes'.length = scopes.length := by
  induction scopes generalizing scopes' with
  | nil => cases hupdate
  | cons frame frames ih =>
      rw [update?] at hupdate
      split at hupdate
      · cases hupdate
        rfl
      · obtain ⟨frames', hrest, rfl⟩ := Option.map_eq_some_iff.mp hupdate
        rw [List.length_cons, List.length_cons, ih hrest]

/-- A variable to which a name refers can be replaced by one that it may become. -/
theorem exists_update? {scopes : Scopes} {old v : Variable} (hwf : scopes.WellFormed)
    (hresolve : scopes.resolve? v.name = some old) (hevolves : old.Evolves v) (hv : v.WellTyped) :
    ∃ scopes', scopes.update? v = some scopes' ∧ scopes'.WellFormed ∧
      Evolves [] scopes scopes' := by
  -- an induction on the frames has to let go of there being at least one
  suffices hframes : ∃ scopes', scopes.update? v = some scopes' ∧
      (∀ frame ∈ scopes', Frame.WellFormed frame) ∧ List.Forall₂ Frame.Evolves scopes scopes' by
    obtain ⟨scopes', hupdate, hwf', hevolves⟩ := hframes
    have hnonempty : scopes' ≠ [] := by
      rw [← List.length_pos_iff, ← hevolves.length_eq]
      exact List.length_pos_iff.mpr hwf.1
    exact ⟨scopes', hupdate, ⟨hnonempty, hwf'⟩, .of_forall₂ hwf.1 hevolves⟩
  replace hwf := hwf.2
  induction scopes with
  | nil => exact nomatch hresolve
  | cons frame frames ih =>
      obtain ⟨hframe, hframes⟩ := List.forall_mem_cons.mp hwf
      simp only [Scopes.resolve?, List.findSome?_cons] at hresolve ih
      rw [update?]
      cases hget : frame.get? v.name with
      | none =>
          simp only [hget] at hresolve
          obtain ⟨frames', hupdate, hwf', hframes'⟩ := ih hresolve hframes
          refine ⟨frame :: frames', by simp [hupdate], List.forall_mem_cons.mpr ⟨hframe, hwf'⟩,
            .cons (.refl frame) hframes'⟩
      | some w =>
          simp only [hget, Option.some.injEq] at hresolve
          subst hresolve
          refine ⟨frame.rebind v :: frames, by simp, ?_, ?_⟩
          · exact List.forall_mem_cons.mpr ⟨Frame.wellFormed_rebind hframe hv, hframes⟩
          · exact .cons (Frame.evolves_rebind hframe hget hevolves)
              (List.forall₂_same.mpr fun frame _ => .refl frame)

theorem wellFormed_push {scopes : Scopes} (hwf : scopes.WellFormed) {v : Variable}
    (hv : v.WellTyped) : WellFormed ([(v.name, v)] :: scopes) :=
  .cons (Frame.wellFormed_bind Frame.wellFormed_nil rfl hv) hwf.2

/-- Once the frame is dropped in which something was run, nothing declared
there is left. -/
theorem Evolves.tail {declared : List String} {frame : Frame} {scopes scopes' : Scopes}
    (hevolves : Evolves declared (frame :: scopes) scopes') (hnonempty : scopes ≠ []) :
    Evolves [] scopes scopes'.tail := by
  cases hevolves with
  | intro _ _ houter => exact .of_forall₂ hnonempty houter

theorem Evolves.pop? {declared : List String} {frame : Frame} {scopes scopes' : Scopes}
    (hevolves : Evolves declared (frame :: scopes) scopes') (hnonempty : scopes ≠ []) :
    scopes'.pop? = some scopes'.tail := by
  cases hevolves with
  | intro _ _ houter =>
      cases houter with
      | nil => exact absurd rfl hnonempty
      | cons _ _ => rfl

theorem WellFormed.tail {scopes : Scopes} (hwf : scopes.WellFormed) (hnonempty : scopes.tail ≠ []) :
    WellFormed scopes.tail :=
  ⟨hnonempty, fun frame hmem => hwf.2 frame (List.mem_of_mem_tail hmem)⟩

/-- The name of a variable still refers to a variable with its line and its type. -/
def Refers (scopes : Scopes) (v : Variable) : Prop :=
  ∃ old, scopes.resolve? v.name = some old ∧ old.line = v.line ∧ old.ty = v.ty

theorem Refers.of_evolves {scopes scopes' : Scopes} {v : Variable} (hrefers : scopes.Refers v)
    (hevolves : Evolves [] scopes scopes') : scopes'.Refers v := by
  obtain ⟨old, hresolve, hline, hty⟩ := hrefers
  obtain ⟨new, hresolve', hnew⟩ := hevolves.resolve? hresolve
  exact ⟨new, hresolve', hnew.line.trans hline, hnew.ty.trans hty⟩

end Scopes

end Primer
