/-
ArrayFusion/Proofs/Fused/Representation.lean

What holds of every array, whatever is done with arrays.

Design.  A heap is a store together with the arrays that were made so far, and
an operation may use these arrays and no others.  Arrays over one buffer are
clones of each other, so a write that suits one of them suits all
(`Sound.write`).  Every operation either fails and does nothing, or has one of
three effects (`Behaves`): new arrays in new buffers (`Sound.placed`), new
contents for its targets (`Sound.update`), or, for a fused call, both
(`Sound.delivered`).  Each of them keeps the heap sound (`Sound.step`).

Main result: arrays are well formed after any operations
(`arrays_wellFormed`).
-/
import ArrayFusion.Proofs.Fused.Aliasing
import ArrayFusion.Proofs.Fused.Call
import ArrayFusion.Proofs.Fused.ResultSize

namespace ArrayFusion

open ArrayFusion.Graph (Suits)
open Recorder (Reached)
open Tensor (HasForm)

/-! ### Arrays -/

/-- The buffer of an array exists, has one element for each index of the
shape, and holds every element in the form that the dtype stores. -/
structure NDArray.WellFormed (a : NDArray) (s : Store) : Prop where
  stored : a.loc < s.buffers.length
  sized : (a.elems s).length = a.shape.count
  canonical : ∀ e ∈ a.elems s, e.cast a.dtype = e

/-- An array is well formed for as long as its elements stay. -/
theorem NDArray.WellFormed.keep {a : NDArray} {s s' : Store} (h : a.WellFormed s)
    (hlen : s.buffers.length ≤ s'.buffers.length) (helems : a.elems s' = a.elems s) :
    a.WellFormed s' := by
  constructor
  case stored => exact Nat.lt_of_lt_of_le h.stored hlen
  case sized => rw [helems, h.sized]
  case canonical =>
    rw [helems]
    exact h.canonical

/-- A well-formed array can be passed. -/
theorem NDArray.WellFormed.fits {a : NDArray} {s : Store} (h : a.WellFormed s) :
    (Arg.array a).Fits s := by
  intro b hb
  cases hb
  exact ⟨h.stored, h.sized, h.canonical⟩

/-- An array that holds contents which suit it is well formed. -/
theorem NDArray.wellFormed_of_suits {a : NDArray} {s : Store} (hstored : a.loc < s.buffers.length)
    {t : Tensor} (h : Suits a t) (helems : a.elems s = t.data) : a.WellFormed s := by
  obtain ⟨hdtype, hshape, hsized, hcan⟩ := h
  constructor
  case stored => exact hstored
  case sized => rw [helems, ← hshape, hsized]
  case canonical =>
    rw [helems, ← hdtype]
    exact hcan

theorem Operand.mem_filterMap_array? {a : NDArray} {os : List Operand} :
    a ∈ os.filterMap Operand.array? ↔ .array a ∈ os := by
  rw [List.mem_filterMap]
  constructor
  · rintro ⟨o, ho, ha⟩
    cases o with
    | scalar c => cases ha
    | array b =>
      cases ha
      exact ho
  · intro h
    exact ⟨.array a, h, rfl⟩

/-! ### Operations -/

/-- The arguments that a launch writes back to. -/
def Bundle.updated (b : Bundle) (args : List Arg) : List Operand :=
  b.graph.written.filterMap fun i => (args[i]?).bind Arg.operand?

/-- The arguments that a call of the function on the host updates in place. -/
def Fused.updated (f : Fused) (args : List Arg) : List Operand :=
  match Bundle.compile f.function (args.map ArgClass.ofArg) f.kernelName Host.backend with
  | .ok b => b.updated args
  | .error _ => []

/-- An operation that makes or changes arrays, with what it is given. -/
inductive Action
  | zeros (shape : Shape) (dtype : DType)
  | ones (shape : Shape) (dtype : DType)
  | full (value : Scalar) (shape : Shape)
  | ofScalar (value : Scalar)
  | ofElems (data : List Elem) (shape : Shape) (dtype : DType)
  /-- Another handle on the same buffer. -/
  | clone (a : NDArray)
  | copy (a : NDArray)
  | astype (value : Operand) (dtype : DType)
  | ufunc (f : Ufunc) (inputs : List Operand)
  | ufuncOut (f : Ufunc) (inputs outs : List Operand)
  | inplace (f : Ufunc) (target other : Operand)
  | reduce (op : Reduction) (value : Operand) (axis : Option Nat)
  | assign (target source : Operand) (region : Region)
  /-- A call of a fused function on the host, whatever it was used for before. -/
  | call (f : Fused) (current : Backend) (args : List Arg) (reachable : f.Reachable)
      (host : f.backendFor current = Host.backend)

namespace Action

/-- The values that an operation uses. -/
def operands : Action → List Operand
  | .zeros _ _ => []
  | .ones _ _ => []
  | .full _ _ => []
  | .ofScalar _ => []
  | .ofElems _ _ _ => []
  | .clone a => [.array a]
  | .copy a => [.array a]
  | .astype value _ => [value]
  | .ufunc _ inputs => inputs
  | .ufuncOut _ inputs outs => inputs ++ outs
  | .inplace _ target other => [target, other]
  | .reduce _ value _ => [value]
  | .assign target source _ => [target, source]
  | .call _ _ args _ _ => args.filterMap Arg.operand?

/-- The values that an operation writes. -/
def targets : Action → List Operand
  | .ufuncOut _ _ outs => outs
  | .inplace _ target _ => [target]
  | .assign target _ _ => [target]
  | .call f _ args _ _ => f.updated args
  | _ => []

/-- Carries out an operation; the result are the values that it returns. -/
def run : Action → Exec Store (List Operand)
  | .zeros shape dtype => do return [.array (← NDArray.zeros shape dtype)]
  | .ones shape dtype => do return [.array (← NDArray.ones shape dtype)]
  | .full value shape => do return [.array (← NDArray.full value shape)]
  | .ofScalar value => do return [.array (← NDArray.ofScalar value)]
  | .ofElems data shape dtype => do return [.array (← NDArray.ofElems data shape dtype)]
  | .clone a => return [.array a]
  | .copy a => do return [.array (← a.copy)]
  | .astype value dtype => do return [← Eager.astype value dtype]
  | .ufunc f inputs => Eager.ufunc f inputs
  | .ufuncOut f inputs outs => Eager.ufuncOut f inputs outs
  | .inplace f target other => (Eager.ops Host.backend.name).inplace f target other
  | .reduce op value axis => do return [← (Eager.ops Host.backend.name).reduce op value axis]
  | .assign target source region => do
    Eager.assign target source region
    return []
  | .call f current args _ _ => fun s =>
    let out := Fused.call current args (f, s)
    (out.1.map Returned.toList, out.2.2)

end Action

/-- A store and the arrays that were made in it. -/
structure Heap where
  store : Store
  live : List NDArray

namespace Heap

/-- The heap at the start. -/
def start : Heap := ⟨.empty, []⟩

/-- An operation uses arrays of the heap only. -/
def Owns (h : Heap) (act : Action) : Prop :=
  ∀ a ∈ act.operands.filterMap Operand.array?, a ∈ h.live

instance (h : Heap) (act : Action) : Decidable (h.Owns act) :=
  inferInstanceAs (Decidable (∀ a ∈ act.operands.filterMap Operand.array?, a ∈ h.live))

/-- The heap after an operation that may have failed. -/
def step (h : Heap) (act : Action) : Heap :=
  match act.run h.store with
  | (.ok us, s) => ⟨s, h.live ++ us.filterMap Operand.array?⟩
  | (.error _, s) => ⟨s, h.live⟩

/-- Heaps after any operations on their own arrays. -/
inductive History : Heap → Prop
  | start : History .start
  | step {h : Heap} {act : Action} (before : History h) (owned : h.Owns act) :
      History (h.step act)

/-- What holds of the arrays of every heap. -/
structure Sound (h : Heap) : Prop where
  wellFormed : ∀ a ∈ h.live, a.WellFormed h.store
  /-- Arrays over one buffer are clones of each other. -/
  cloned : ∀ a ∈ h.live, ∀ b ∈ h.live, a.Shares b → a = b

/-- What an operation does to the arrays of a heap. -/
structure Confined (h : Heap) (act : Action) : Prop where
  /-- All arrays stay, with their dtypes and shapes. -/
  kept : h.live <+: (h.step act).live
  /-- Elements change only in arrays that share storage with a target. -/
  frame : ∀ a ∈ h.live, (∀ t, .array t ∈ act.targets → ¬ t.Shares a) →
    a.elems (h.step act).store = a.elems h.store
  /-- Where the operation fails nothing changes. -/
  atomic : ∀ e, (act.run h.store).1 = .error e → h.step act = h

/-! ### Effects -/

/-- What an operation has done that wrote the targets and returned the
values. -/
structure Effect (h : Heap) (targets us : List Operand) (s' : Store) : Prop where
  wellFormed : ∀ a ∈ h.live, a.WellFormed s'
  frame : ∀ a ∈ h.live, (∀ t, .array t ∈ targets → ¬ t.Shares a) → a.elems s' = a.elems h.store
  /-- Returned arrays were there before, or are new ones in new buffers. -/
  returned : ∀ a, .array a ∈ us →
    a ∈ h.live ∨ h.store.buffers.length ≤ a.loc ∧ a.WellFormed s'
  apart : ∀ a b, .array a ∈ us → .array b ∈ us → h.store.buffers.length ≤ a.loc →
    a.Shares b → a = b

/-- An operation has failed and done nothing, or has had its effect. -/
inductive Behaves (h : Heap) (targets : List Operand) :
    Except Error (List Operand) × Store → Prop
  | failed (e : Error) : Behaves h targets (.error e, h.store)
  | done {us : List Operand} {s' : Store} (effect : h.Effect targets us s') :
      Behaves h targets (.ok us, s')

section

variable {h : Heap}

/-- With the returned arrays added, the heap is sound again. -/
theorem Sound.after (hs : h.Sound) {targets us : List Operand} {s' : Store}
    (he : h.Effect targets us s') : Sound ⟨s', h.live ++ us.filterMap Operand.array?⟩ := by
  have hcases : ∀ a ∈ h.live ++ us.filterMap Operand.array?,
      a ∈ h.live ∨ .array a ∈ us ∧ h.store.buffers.length ≤ a.loc ∧ a.WellFormed s' := by
    intro a ha
    rcases List.mem_append.mp ha with ha | ha
    · exact .inl ha
    · have hmem := Operand.mem_filterMap_array?.mp ha
      exact (he.returned a hmem).imp_right fun hnew => ⟨hmem, hnew⟩
  -- the buffers of arrays that were there before come before the new ones
  have hold : ∀ a ∈ h.live, a.loc < h.store.buffers.length :=
    fun a ha => (hs.wellFormed a ha).stored
  constructor
  case wellFormed =>
    intro a ha
    rcases hcases a ha with ha | ⟨-, -, hwell⟩
    · exact he.wellFormed a ha
    · exact hwell
  case cloned =>
    intro a ha b hb hshares
    have hloc : a.loc = b.loc := hshares
    rcases hcases a ha with ha | ⟨hua, hfresh, -⟩
    · rcases hcases b hb with hb | ⟨-, hfresh, -⟩
      · exact hs.cloned a ha b hb hshares
      · have := hold a ha
        omega
    · rcases hcases b hb with hb | ⟨hub, -, -⟩
      · have := hold b hb
        omega
      · exact he.apart a b hua hub hfresh hshares

/-! ### Values of a heap -/

/-- Values whose arrays are in the heap. -/
def Holds (h : Heap) (os : List Operand) : Prop := ∀ a, .array a ∈ os → a ∈ h.live

/-- An operation that returns arrays of the heap only. -/
theorem Sound.effect (hs : h.Sound) {targets us : List Operand} (hu : h.Holds us) {s' : Store}
    (hwell : ∀ a ∈ h.live, a.WellFormed s')
    (hframe : ∀ a ∈ h.live, (∀ t, .array t ∈ targets → ¬ t.Shares a) →
      a.elems s' = a.elems h.store) : h.Effect targets us s' where
  wellFormed := hwell
  frame := hframe
  returned a ha := .inl (hu a ha)
  apart a b ha hb _ hshares := hs.cloned a (hu a ha) b (hu b hb) hshares

theorem Owns.holds {act : Action} (ho : h.Owns act) : h.Holds act.operands :=
  fun a ha => ho a (Operand.mem_filterMap_array?.mpr ha)

theorem Holds.mono {os os' : List Operand} (ho : h.Holds os) (hsub : ∀ o ∈ os', o ∈ os) :
    h.Holds os' :=
  fun a ha => ho a (hsub _ ha)

theorem Sound.hasForm (hs : h.Sound) {os : List Operand} (ho : h.Holds os) {o : Operand}
    (hmem : o ∈ os) : o.StoredIn h.store ∧ (o.tensor h.store).HasForm o.form := by
  have hfits : o.toArg.Fits h.store := by
    cases o with
    | scalar c =>
      intro a ha
      cases ha
    | array a => exact (hs.wellFormed a (ho a hmem)).fits
  apply Arg.hasForm_of_fits hfits
  cases o <;> rfl

theorem Sound.hasForms (hs : h.Sound) {os : List Operand} (ho : h.Holds os) :
    List.Forall₂ HasForm (os.map (·.tensor h.store)) (os.map Operand.form) := by
  rw [List.forall₂_map_left_iff, List.forall₂_map_right_iff, List.forall₂_same]
  intro o hmem
  exact (hs.hasForm ho hmem).2

/-! ### New arrays -/

/-- Adding buffers leaves the arrays of the heap alone. -/
theorem Sound.grow (hs : h.Sound) {s' : Store} (hgrows : h.store.buffers <+: s'.buffers)
    {a : NDArray} (ha : a ∈ h.live) : a.WellFormed s' ∧ a.elems s' = a.elems h.store := by
  have hwell := hs.wellFormed a ha
  have hstored : (Operand.array a).StoredIn h.store := by
    intro b hb
    cases hb
    exact hwell.stored
  have helems : a.elems s' = a.elems h.store :=
    congrArg Tensor.data (Operand.tensor_of_isPrefix hstored hgrows)
  exact ⟨hwell.keep hgrows.length_le helems, helems⟩

/-- Contents placed in new values. -/
theorem Sound.placed (hs : h.Sound) {outs : List Tensor} {kind : ArgKind} {us : List Operand}
    {s' : Store} (hp : Eager.Placed h.store outs kind us s')
    (houts : ∀ t ∈ outs, t.Sized ∧ t.Canonical) (targets : List Operand) :
    h.Effect targets us s' := by
  constructor
  case wellFormed => exact fun a ha => (hs.grow hp.grows ha).1
  case frame => exact fun a ha _ => (hs.grow hp.grows ha).2
  case returned =>
    intro a ha
    obtain ⟨k, hk⟩ := List.getElem?_of_mem ha
    obtain ⟨hfresh, hstored⟩ := hp.fresh hk
    have hout : (Operand.array a).tensor s' ∈ outs := by
      rw [← hp.contents]
      exact List.mem_map_of_mem ha
    obtain ⟨hsized, hcan⟩ := houts _ hout
    exact .inr ⟨hfresh, hstored, hsized, hcan⟩
  case apart =>
    intro a b ha hb _ hshares
    obtain ⟨j, hj⟩ := List.getElem?_of_mem ha
    obtain ⟨k, hk⟩ := List.getElem?_of_mem hb
    obtain rfl := hp.apart hj hk hshares
    rw [hj] at hk
    cases hk
    rfl

/-- One new array over elements that suit it. -/
theorem Sound.alloc (hs : h.Sound) {data : List Elem} {d : DType} {shape : Shape}
    (hlen : data.length = shape.count) (hcan : ∀ e ∈ data, e.Canonical d) (targets : List Operand) :
    h.Effect targets [.array ⟨h.store.buffers.length, d, shape⟩] (h.store.push data) := by
  obtain ⟨us, s', hus, hp⟩ := Eager.placeAll_spec false [⟨d, shape, data⟩] h.store (by simp)
  cases hus
  refine hs.placed hp ?_ targets
  intro t ht
  rw [List.mem_singleton.mp ht]
  exact ⟨hlen, hcan⟩

/-- What an operation without targets yields, placed in new values. -/
theorem Sound.produce (hs : h.Sound) {asScalar : Bool} {op : Op} {os : List Operand}
    (ho : h.Holds os) {forms : List Form} (typed : op.Typed (os.map Operand.form) [] forms)
    (hkind : ∀ f ∈ forms, f.kind = Eager.placedKind asScalar) {outs : List Tensor}
    (hout : op.outcome (os.map (·.tensor h.store)) [] = .ok outs) (targets : List Operand) :
    ∃ us s', outs.mapM (Eager.place asScalar) h.store = (.ok us, s') ∧ h.Effect targets us s' := by
  have hforms := hs.hasForms ho
  obtain ⟨us, s', hus, hp⟩ := Eager.placeAll_outcome typed hkind hforms hout h.store
  refine ⟨us, s', hus, hs.placed hp ?_ targets⟩
  intro t ht
  exact ⟨Op.sized_of_hasForm (typed.forms_outcome hforms .nil hout) t ht,
    typed.canonical_outcome hforms .nil hout t ht⟩

/-- The same for an operation with one result. -/
theorem Sound.produce_one (hs : h.Sound) {asScalar : Bool} {op : Op} {o : Operand}
    (ho : h.Holds [o]) {form : Form} (typed : op.Typed [o.form] [] [form])
    (hkind : form.kind = Eager.placedKind asScalar) {t : Tensor}
    (hout : op.outcome [o.tensor h.store] [] = .ok [t]) (targets : List Operand) :
    ∃ u s', Eager.place asScalar t h.store = (.ok u, s') ∧ h.Effect targets [u] s' := by
  obtain ⟨us, s', hus, heffect⟩ := hs.produce ho typed (by simpa using hkind) hout targets
  rw [List.mapM_cons] at hus
  obtain ⟨u, s₁, hu, hrest⟩ := Exec.bind_eq_ok.mp hus
  cases hrest
  exact ⟨u, s', hu, heffect⟩

/-! ### Writes -/

/-- A write that suits its target: the target holds it, and so do the clones
of the target. -/
theorem Sound.write {s : Store} {live : List NDArray} (hs : Sound ⟨s, live⟩) {a : NDArray}
    (ha : a ∈ live) {t : Tensor} (hsuits : Suits a t) : Sound ⟨s.write a.loc t.data, live⟩ := by
  refine ⟨?_, hs.cloned⟩
  intro b hb
  have hwell := hs.wellFormed b hb
  have hlen : s.buffers.length = (s.write a.loc t.data).buffers.length :=
    (Store.length_write s _ _).symm
  by_cases hloc : a.loc = b.loc
  · obtain rfl := hs.cloned a ha b hb hloc
    apply NDArray.wellFormed_of_suits (hlen ▸ hwell.stored) hsuits
    exact Store.read_write_self hwell.stored _
  · apply hwell.keep (Nat.le_of_eq hlen)
    exact Store.read_write_of_ne s hloc _

/-- All writes of an operation.  A target that is named twice is written
twice. -/
theorem Sound.writeAll {s : Store} {live : List NDArray} (hs : Sound ⟨s, live⟩)
    {writes : List (Operand × Tensor)}
    (hsuits : ∀ p ∈ writes, ∀ a, p.1 = .array a → a ∈ live ∧ Suits a p.2) :
    Sound ⟨Eager.writeAll writes s, live⟩ := by
  fun_induction Eager.writeAll writes s with
  | case1 => exact hs
  | case2 a t rest s ih =>
    obtain ⟨ha, hat⟩ := hsuits _ List.mem_cons_self a rfl
    exact ih (hs.write ha hat) fun p hp => hsuits p (List.mem_cons_of_mem _ hp)
  | case3 c t rest s ih => exact ih hs fun p hp => hsuits p (List.mem_cons_of_mem _ hp)

/-- What an operation with targets yields, written into them. -/
theorem Sound.update (hs : h.Sound) {op : Op} {os ws : List Operand} (ho : h.Holds os)
    (hw : h.Holds ws) (hne : ws ≠ [])
    (typed : op.Typed (os.map Operand.form) (ws.map Operand.form) (ws.map Operand.form))
    {news : List Tensor}
    (hout : op.outcome (os.map (·.tensor h.store)) (ws.map (·.tensor h.store)) = .ok news)
    {us : List Operand} (hu : h.Holds us) :
    h.Effect ws us (Eager.writeAll (ws.zip news) h.store) := by
  have hi := hs.hasForms ho
  have ht := hs.hasForms hw
  have hkept := typed.update_outcome (by simpa using hne) hi ht hout
  have hsized := Op.sized_of_hasForm (typed.forms_outcome hi ht hout)
  have hcan := typed.canonical_outcome hi ht hout
  have hsuits : ∀ p ∈ ws.zip news, ∀ a, p.1 = .array a → a ∈ h.live ∧ Suits a p.2 := by
    rintro ⟨o, new⟩ hp a rfl
    obtain ⟨hmem, hnew⟩ := List.of_mem_zip hp
    obtain ⟨k, hk⟩ := List.getElem?_of_mem hp
    obtain ⟨hk₁, hk₂⟩ := List.getElem?_zip_eq_some.mp hk
    obtain ⟨old, hold, hdtype, hshape⟩ := forall₂_getElem? hkept hk₂
    rw [List.getElem?_map, hk₁] at hold
    cases hold
    exact ⟨hw a hmem, hdtype, hshape, hsized new hnew, hcan new hnew⟩
  have hafter : Sound ⟨Eager.writeAll (ws.zip news) h.store, h.live⟩ := Sound.writeAll hs hsuits
  apply hs.effect hu hafter.wellFormed
  intro a _ hno
  apply Eager.read_writeAll
  rintro ⟨o, new⟩ hp b rfl
  exact hno b (List.of_mem_zip hp).1

/-! ### Operations on arrays -/

theorem Sound.behaves_full (hs : h.Sound) (value : Scalar) (shape : Shape) :
    h.Behaves [] ((Action.full value shape).run h.store) := by
  apply Behaves.done
  apply hs.alloc (List.length_replicate ..)
  intro e he
  rw [List.eq_of_mem_replicate he]
  exact Elem.canonical_cast _ _

theorem Sound.behaves_ofElems (hs : h.Sound) (data : List Elem) (shape : Shape) (d : DType) :
    h.Behaves [] ((Action.ofElems data shape d).run h.store) := by
  show h.Behaves [] (Exec.bind (NDArray.ofElems data shape d) _ h.store)
  by_cases hlen : data.length = shape.count
  · rw [NDArray.ofElems, if_pos hlen]
    apply Behaves.done
    apply hs.alloc (by rw [List.length_map, hlen])
    intro e he
    obtain ⟨e', -, rfl⟩ := List.mem_map.mp he
    exact Elem.canonical_cast e' d
  · rw [NDArray.ofElems, if_neg hlen]
    exact .failed _

theorem Sound.behaves_copy (hs : h.Sound) {a : NDArray} (ha : a ∈ h.live) :
    h.Behaves [] ((Action.copy a).run h.store) := by
  have hwell := hs.wellFormed a ha
  exact .done (hs.alloc hwell.sized hwell.canonical [])

theorem Sound.behaves_astype (hs : h.Sound) {value : Operand} (hv : h.Holds [value]) (d : DType) :
    h.Behaves [] ((Action.astype value d).run h.store) := by
  have hform := (hs.hasForm hv List.mem_cons_self).2
  obtain ⟨t, hout, heq⟩ := Eager.astype_eq hform.sized d
  have hkind : value.form.kind = Eager.placedKind value.isScalar := by
    cases value <;> rfl
  have typed : (Op.cast d).Typed [value.form] [] [⟨d, value.form.ndim, value.form.kind⟩] := .cast
  obtain ⟨u, s', hu, heffect⟩ := hs.produce_one hv typed hkind hout []
  have hrun : (Action.astype value d).run h.store = (.ok [u], s') :=
    Exec.bind_eq_ok.mpr ⟨u, s', heq.trans hu, rfl⟩
  rw [hrun]
  exact .done heffect

theorem Sound.behaves_reduce (hs : h.Sound) (op : Reduction) {value : Operand}
    (hv : h.Holds [value]) (axis : Option Nat) :
    h.Behaves [] ((Action.reduce op value axis).run h.store) := by
  rcases hout : (Op.reduce op axis).outcome [value.tensor h.store] [] with e | outs
  · have hrun : (Action.reduce op value axis).run h.store = (.error e, h.store) :=
      Exec.bind_eq_error.mpr (.inl (Eager.reduce_of_error hout))
    rw [hrun]
    exact .failed e
  · obtain ⟨t, rfl, heq⟩ := Eager.reduce_of_ok hout
    -- the number of axes is known, or the outcome would be an error
    rcases hnd : Recorder.reducedNdim value.ndim axis with e | ndim
    · have hfails : (Op.reduce op axis).outcome [value.tensor h.store] [] = .error e :=
        Op.outcome_reduce_error hnd
      rw [hfails] at hout
      cases hout
    · have typed : (Op.reduce op axis).Typed [value.form] []
          [⟨op.outputDType value.form.dtype, ndim, .array⟩] := .reduce hnd
      have hkind : ArgKind.array = Eager.placedKind false := rfl
      obtain ⟨u, s', hu, heffect⟩ := hs.produce_one hv typed hkind hout []
      have hrun : (Action.reduce op value axis).run h.store = (.ok [u], s') :=
        Exec.bind_eq_ok.mpr ⟨u, s', heq.trans hu, rfl⟩
      rw [hrun]
      exact .done heffect

theorem Sound.behaves_ufunc (hs : h.Sound) (f : Ufunc) {inputs : List Operand}
    (hi : h.Holds inputs) (targets : List Operand) :
    h.Behaves targets (Eager.ufunc f inputs h.store) := by
  rw [Eager.ufunc_eq]
  rcases hres : f.resolve (inputs.map Operand.type) with e | loop
  · exact .failed e
  · dsimp only
    rcases hout : (Op.ufunc f loop).outcome (inputs.map (·.tensor h.store)) [] with e | outs
    · simp only [hout]
      exact .failed e
    · have typed : (Op.ufunc f loop).Typed (inputs.map Operand.form) [] _ :=
        .ufunc (by rw [Operand.map_operandType_form]; exact hres)
      have hkind : ∀ form ∈ loop.outputs.map fun d => (⟨d, Form.maxNdim (inputs.map Operand.form),
          Form.commonKind (inputs.map Operand.form)⟩ : Form),
          form.kind = Eager.placedKind (inputs.all Operand.isScalar) := by
        intro form hform
        obtain ⟨d, -, rfl⟩ := List.mem_map.mp hform
        rw [Operand.all_isScalar]
        rfl
      obtain ⟨us, s', hus, heffect⟩ := hs.produce hi typed hkind hout targets
      simp only [hout, hus]
      exact .done heffect

theorem Sound.behaves_ufuncOut (hs : h.Sound) (f : Ufunc) {inputs outs : List Operand}
    (hi : h.Holds inputs) (ho : h.Holds outs) :
    h.Behaves outs (Eager.ufuncOut f inputs outs h.store) := by
  rw [Eager.ufuncOut_eq f (fun o hmem => (hs.hasForm hi hmem).2.sized)
    fun o hmem => (hs.hasForm ho hmem).imp_right HasForm.sized]
  rcases hres : f.resolve (inputs.map Operand.type) with e | loop
  · exact .failed e
  · dsimp only
    rcases hcheck : f.checkOutputs loop (outs.map fun o => o.array?.map (·.dtype)) with e | u
    · simp only [hcheck]
      exact .failed e
    · simp only [hcheck]
      obtain ⟨hne, typed⟩ := Eager.typed_of_checkOutputs hres hcheck
      rcases hout : (Op.ufunc f loop).outcome (inputs.map (·.tensor h.store))
        (outs.map (·.tensor h.store)) with e | news
      · simp only [hout]
        exact .failed e
      · simp only [hout]
        exact .done (hs.update hi ho hne typed hout ho)

/-- An operation that returns some of the arrays that another one returns, or
arrays of the heap. -/
theorem Sound.behaves_bind (hs : h.Sound) {targets : List Operand} {m : Exec Store (List Operand)}
    (hm : h.Behaves targets (m h.store)) {f : List Operand → List Operand}
    (hf : ∀ us a, .array a ∈ f us → .array a ∈ us ∨ a ∈ h.live) :
    h.Behaves targets ((m >>= fun us => pure (f us)) h.store) := by
  rw [Exec.bind_apply]
  generalize m h.store = out at hm
  cases hm with
  | failed e => exact .failed e
  | @done us s' he =>
    apply Behaves.done
    -- an array in a new buffer is one that the first operation returned
    have hnew : ∀ a, .array a ∈ f us → h.store.buffers.length ≤ a.loc → .array a ∈ us := by
      intro a ha hfresh
      rcases hf us a ha with hmem | hlive
      · exact hmem
      · exact absurd (hs.wellFormed a hlive).stored (Nat.not_lt_of_le hfresh)
    constructor
    case wellFormed => exact he.wellFormed
    case frame => exact he.frame
    case returned =>
      intro a ha
      rcases hf us a ha with hmem | hlive
      · exact he.returned a hmem
      · exact .inl hlive
    case apart =>
      intro a b ha hb hfresh hshares
      have hloc : a.loc = b.loc := hshares
      exact he.apart a b (hnew a ha hfresh) (hnew b hb (hloc ▸ hfresh)) hfresh hshares

theorem Sound.behaves_inplace (hs : h.Sound) (f : Ufunc) {target other : Operand}
    (ho : h.Holds [target, other]) :
    h.Behaves [target] ((Action.inplace f target other).run h.store) := by
  have ht : h.Holds [target] := ho.mono (by simp)
  cases target with
  | array a =>
    -- updated in place
    apply hs.behaves_bind (hs.behaves_ufuncOut f ho ht)
    intro us b hb
    exact .inr (ht b hb)
  | scalar c =>
    -- a scalar cannot be updated, so the result is new
    apply hs.behaves_bind (hs.behaves_ufunc f ho _)
    intro us b hb
    exact .inl (List.mem_of_mem_take hb)

theorem Sound.behaves_assign (hs : h.Sound) {target source : Operand}
    (ho : h.Holds [target, source]) (region : Region) :
    h.Behaves [target] ((Action.assign target source region).run h.store) := by
  have hsource : h.Holds [source] := ho.mono (by simp)
  have htarget : h.Holds [target] := ho.mono (by simp)
  cases target with
  | scalar c => exact .failed _
  | array a =>
    have heq := Eager.assign_eq a source region h.store
    rcases hout : (Op.assign region).outcome [source.tensor h.store]
      [(Operand.array a).tensor h.store] with e | news
    · rw [hout] at heq
      have hrun : (Action.assign (.array a) source region).run h.store = (.error e, h.store) :=
        Exec.bind_eq_error.mpr (.inl heq)
      rw [hrun]
      exact .failed e
    · rw [hout] at heq
      have hrun : (Action.assign (.array a) source region).run h.store =
          (.ok [], Eager.writeAll ([.array a].zip news) h.store) :=
        Exec.bind_eq_ok.mpr ⟨(), _, heq, rfl⟩
      rw [hrun]
      have typed : (Op.assign region).Typed ([source].map Operand.form)
          ([Operand.array a].map Operand.form) ([Operand.array a].map Operand.form) := .assign rfl
      exact .done (hs.update hsource htarget (by simp) typed hout (fun b hb => by cases hb))

/-! ### Fused calls -/

/-- The arrays of the arguments are in the heap. -/
theorem Sound.fits (hs : h.Sound) {args : List Arg} (ho : h.Holds (args.filterMap Arg.operand?)) :
    ∀ arg ∈ args, arg.Fits h.store := by
  rintro arg harg a rfl
  have ha : a ∈ h.live := ho a (List.mem_filterMap.mpr ⟨.array a, harg, rfl⟩)
  exact (hs.wellFormed a ha).fits a rfl

theorem Holds.getElem? {args : List Arg} (ho : h.Holds (args.filterMap Arg.operand?)) {i : Nat}
    {a : NDArray} (hi : args[i]? = some (.array a)) : a ∈ h.live :=
  ho a (List.mem_filterMap.mpr ⟨.array a, List.mem_of_getElem? hi, rfl⟩)

theorem mem_updated {b : Bundle} {args : List Arg} {i : Nat} {v : ValueId} {a : NDArray}
    (hw : (i, v) ∈ b.graph.writeBacks) (hi : args[i]? = some (.array a)) :
    .array a ∈ b.updated args := by
  refine List.mem_filterMap.mpr ⟨i, List.mem_map.mpr ⟨(i, v), hw, rfl⟩, ?_⟩
  rw [hi]
  rfl

section

variable {r : Recorder} {args : List Arg} {env : List Tensor} {s' : Store}

/-- A built array has the contents of its value, which suit it. -/
theorem wellFormed_of_built (hr : Reached r)
    (hclass : r.tape.params.map Param.argClass = args.map ArgClass.ofArg) {s : Store}
    (hfits : ∀ arg ∈ args, arg.Fits s)
    (henv : r.tape.snapshot (Bundle.inputsOf args s) = .ok env) {base : Nat}
    {built : List (ValueId × Operand)} (hbuilt : Bundle.Built r.tape env base s' built) {v : ValueId}
    {a : NDArray} (ha : built.lookup v = some (.array a)) : a.WellFormed s' := by
  obtain ⟨hcont, hform⟩ := hbuilt.contents ha
  have hlt : v < r.tape.values.length := by
    rw [← Tape.length_snapshot henv]
    exact (List.getElem?_eq_some_iff.mp hcont).1
  have hhas := Tape.hasForm_getD (hr.recorded.forms_snapshot
    (Bundle.accepts_of_args hr hclass hfits) env henv) hlt
  rw [List.getD, hcont, Option.getD_some, ← hform] at hhas
  exact ⟨(hbuilt.fresh ha).2, hhas.sized, hhas.canonical rfl⟩

/-- An array that is updated holds its final version, one that shares storage
with none of the updated ones is as it was. -/
theorem Sound.committed (hs : h.Sound) (ho : h.Holds (args.filterMap Arg.operand?))
    (hr : Reached r) (hclass : r.tape.params.map Param.argClass = args.map ArgClass.ofArg)
    (henv : r.tape.snapshot (Bundle.inputsOf args h.store) = .ok env)
    (hgrows : h.store.buffers.length ≤ s'.buffers.length)
    (hcom : Bundle.Committed r env args h.store s') {a : NDArray} (ha : a ∈ h.live) :
    a.WellFormed s' := by
  have hwell := hs.wellFormed a ha
  by_cases hupdated : ∃ i v b, (i, v) ∈ r.writeBacks ∧ args[i]? = some (.array b) ∧ b.loc = a.loc
  · obtain ⟨i, v, b, hw, hi, hloc⟩ := hupdated
    obtain rfl := hs.cloned b (ho.getElem? hi) a ha hloc
    obtain ⟨hv, -, hlen, hcan⟩ := Bundle.writeBack_fits hr hclass (hs.fits ho) henv hw hi
    have helems : b.elems s' = (env.getD v .blank).data :=
      congrArg Tensor.data (Option.some.inj ((hcom.written hw hi).symm.trans hv))
    have hsuits : Suits b ⟨b.dtype, b.shape, (env.getD v .blank).data⟩ :=
      ⟨rfl, rfl, hlen.trans hwell.sized, hcan⟩
    exact NDArray.wellFormed_of_suits (Nat.lt_of_lt_of_le hwell.stored hgrows) hsuits helems
  · apply hwell.keep hgrows
    apply hcom.kept hwell.stored
    intro i v b hw hi hloc
    exact hupdated ⟨i, v, b, hw, hi, hloc⟩

/-- A launch that delivers. -/
theorem Sound.delivered (hs : h.Sound) (ho : h.Holds (args.filterMap Arg.operand?))
    (hr : Reached r) (hclass : r.tape.params.map Param.argClass = args.map ArgClass.ofArg)
    (henv : r.tape.snapshot (Bundle.inputsOf args h.store) = .ok env) {slots : List ReturnSlot}
    {us : List Operand} (hdel : Bundle.Delivered r env args h.store slots us s') {b : Bundle}
    (hb : b.graph.writeBacks = r.writeBacks) : h.Effect (b.updated args) us s' := by
  obtain ⟨built, hbuilt, hfills⟩ := hdel.values
  -- a returned array was passed, or was built for a value
  have hcases : ∀ a, .array a ∈ us →
      a ∈ h.live ∨ ∃ v, built.lookup v = some (.array a) := by
    intro a ha
    obtain ⟨slot, -, hfill⟩ := forall₂_mem_right hfills ha
    cases slot with
    | param i =>
      obtain ⟨arg, harg, hop⟩ := Bundle.argOperand_eq_ok.mp hfill
      exact .inl (ho a (List.mem_filterMap.mpr ⟨arg, List.mem_of_getElem? harg, hop⟩))
    | value v => exact .inr ⟨v, hfill⟩
  have hold : ∀ {a}, a ∈ h.live → a.loc < h.store.buffers.length :=
    fun ha => (hs.wellFormed _ ha).stored
  constructor
  case wellFormed =>
    intro a ha
    exact hs.committed ho hr hclass henv hdel.grows hdel.toCommitted ha
  case frame =>
    intro a ha hno
    apply hdel.kept (hold ha)
    intro i v t hw hi
    exact hno t (mem_updated (hb ▸ hw) hi)
  case returned =>
    intro a ha
    rcases hcases a ha with hlive | ⟨v, hv⟩
    · exact .inl hlive
    · exact .inr ⟨(hbuilt.fresh hv).1,
        wellFormed_of_built hr hclass (hs.fits ho) henv hbuilt hv⟩
  case apart =>
    intro a b ha hb hfresh hshares
    have hloc : a.loc = b.loc := hshares
    rcases hcases a ha with hlive | ⟨v, hv⟩
    · exact absurd (hold hlive) (Nat.not_lt_of_le hfresh)
    · rcases hcases b hb with hlive | ⟨w, hw⟩
      · exact absurd (hold hlive) (by omega)
      · -- no two values are built in one buffer
        obtain rfl := hbuilt.apart hv hw hloc
        rw [hv] at hw
        cases hw
        rfl

end

/-- A launch on the host fails and does nothing, or delivers. -/
theorem Sound.behaves_launch (hs : h.Sound) {args : List Arg}
    (ho : h.Holds (args.filterMap Arg.operand?)) {fn : Function} {name : String} {b : Bundle}
    (hb : Bundle.compile fn (args.map ArgClass.ofArg) name Host.backend = .ok b) :
    h.Behaves (b.updated args)
      ((b.launch args h.store).1.map Returned.toList, (b.launch args h.store).2) := by
  rcases hprep : b.prepare args h.store with e | ⟨shapes, results, writes⟩
  · rw [Bundle.launch_eq, hprep]
    exact .failed e
  · obtain ⟨-, hfailure, hraces, -, -⟩ := Bundle.prepare_eq_ok.mp hprep
    obtain ⟨returned, r, hrec, hgraph⟩ := Bundle.record_of_compile hb hfailure
    obtain ⟨hr, hclass, hvalid⟩ := Bundle.reached_of_record hrec
    have heq := Bundle.graph_of_ofGraph hgraph
    rcases henv : r.tape.snapshot (Bundle.inputsOf args h.store) with e | env
    · rw [Bundle.launch_of_snapshot_error hr hclass (hs.fits ho) henv heq]
      exact .failed e
    · have hhazards : b.hazards = (r.finish name returned).hazards := by
        obtain ⟨stages, -, hk⟩ := except_bind_eq_ok.mp hgraph
        obtain ⟨kernels, -, hk⟩ := except_bind_eq_ok.mp hk
        cases hk
        rfl
      rw [hhazards] at hraces
      have hone := Bundle.oneWriter_of_hazards hr (Bundle.checkRaces_eq_ok.mp hraces)
      obtain ⟨us, s', hlaunch, -, hdel⟩ := Bundle.launch_host rfl hr (hvalid returned rfl) hclass
        (hs.fits ho) henv hraces hone hgraph
      rw [hlaunch]
      exact .done (hs.delivered ho hr hclass henv hdel (by rw [heq]; rfl))

theorem Sound.behaves_call (hs : h.Sound) {f : Fused} {current : Backend} {args : List Arg}
    (ho : h.Holds (args.filterMap Arg.operand?)) (hf : f.Reachable)
    (hhost : f.backendFor current = Host.backend) :
    h.Behaves (f.updated args) ((Action.call f current args hf hhost).run h.store) := by
  obtain ⟨f', hcall⟩ := Fused.call_eq (f := f) current args h.store (by
    intro b hfound
    rw [hhost] at hfound ⊢
    exact hf.faithful hfound rfl)
  rw [hhost] at hcall
  show h.Behaves _ ((Fused.call current args (f, h.store)).1.map Returned.toList,
    (Fused.call current args (f, h.store)).2.2)
  rw [hcall, Fused.updated]
  rcases hb : Bundle.compile f.function (args.map ArgClass.ofArg) f.kernelName Host.backend with
    e | b
  · exact .failed e
  · exact hs.behaves_launch ho hb

/-! ### All operations -/

/-- Every operation on arrays of a heap fails and does nothing, or has its
effect. -/
theorem Sound.behaves (hs : h.Sound) {act : Action} (howned : h.Owns act) :
    h.Behaves act.targets (act.run h.store) := by
  have ho := howned.holds
  cases act with
  | zeros shape dtype => exact hs.behaves_full _ shape
  | ones shape dtype => exact hs.behaves_full _ shape
  | full value shape => exact hs.behaves_full value shape
  | ofScalar value => exact hs.behaves_full value _
  | ofElems data shape dtype => exact hs.behaves_ofElems data shape dtype
  | clone a => exact .done (hs.effect ho hs.wellFormed fun _ _ _ => rfl)
  | copy a => exact hs.behaves_copy (ho a List.mem_cons_self)
  | astype value dtype => exact hs.behaves_astype ho dtype
  | ufunc f inputs => exact hs.behaves_ufunc f ho []
  | ufuncOut f inputs outs =>
    exact hs.behaves_ufuncOut f (ho.mono fun o hmem => List.mem_append_left _ hmem)
      (ho.mono fun o hmem => List.mem_append_right _ hmem)
  | inplace f target other => exact hs.behaves_inplace f ho
  | reduce op value axis => exact hs.behaves_reduce op ho axis
  | assign target source region => exact hs.behaves_assign ho region
  | call f current args reachable host => exact hs.behaves_call ho reachable host

theorem Sound.step (hs : h.Sound) {act : Action} (howned : h.Owns act) : (h.step act).Sound := by
  have hb := hs.behaves howned
  unfold Heap.step
  generalize act.run h.store = out at hb
  cases hb with
  | failed e => exact hs
  | done effect => exact hs.after effect

theorem Sound.confined (hs : h.Sound) {act : Action} (howned : h.Owns act) : h.Confined act := by
  have hb := hs.behaves howned
  rcases hrun : act.run h.store with ⟨e | us, s⟩
  · rw [hrun] at hb
    cases hb
    have hstep : h.step act = h := by
      rw [Heap.step, hrun]
    refine ⟨?_, ?_, fun _ _ => hstep⟩
    · exact ⟨[], by rw [hstep, List.append_nil]⟩
    · intro a _ _
      rw [hstep]
  · rw [hrun] at hb
    cases hb with
    | done effect =>
      have hstep : h.step act = ⟨s, h.live ++ us.filterMap Operand.array?⟩ := by
        rw [Heap.step, hrun]
      constructor
      case kept =>
        rw [hstep]
        exact List.prefix_append _ _
      case frame =>
        rw [hstep]
        exact effect.frame
      case atomic =>
        intro e he
        rw [hrun] at he
        cases he

theorem History.sound (hist : h.History) : h.Sound := by
  induction hist with
  | start => exact ⟨(fun a ha => by cases ha), (fun a ha => by cases ha)⟩
  | step before owned ih => exact ih.step owned

end

/-- **Arrays keep their representation.**  After any operations on arrays that
were made before, failed ones included, every array has as many elements as
its shape says, each in the form that its dtype stores, and shares storage
with its clones only.  Whatever is done next, all arrays stay with their
dtypes and shapes, only arrays that share storage with a target can change
their elements, and an operation that fails changes nothing. -/
theorem arrays_wellFormed {h : Heap} (hist : h.History) :
    h.Sound ∧ ∀ act, h.Owns act → h.Confined act := by
  have hs := hist.sound
  exact ⟨hs, fun act howned => hs.confined howned⟩

/-- A body that doubles its argument in place and returns the negative. -/
def doubleAndNegate : Function :=
  ⟨"double_and_negate", none,
    [.arg (.one "a") 0, .inplace .drop .add "a" "a", .ufunc (.one "b") .negative ["a"] none,
      .ret (.single "b")]⟩

/-- Two clones and a new array after a fused call that updated the clones. -/
theorem arrays_wellFormed_clone_updated :
    let a : NDArray := ⟨0, .int .w64, ⟨[2]⟩⟩
    let f := Fused.make 0 doubleAndNegate ⟨none, none, false⟩
    let h := ((start.step (.ones ⟨[2]⟩ (.int .w64))).step (.clone a)).step
      (.call f Host.backend [.array a] (.make 0 doubleAndNegate ⟨none, none, false⟩) rfl)
    h.History ∧ h.live = [a, a, ⟨1, .int .w64, ⟨[2]⟩⟩] ∧
      h.store.buffers = [[.int 2, .int 2], [.int (-2), .int (-2)]] ∧
      h.Sound ∧ ∀ act, h.Owns act → h.Confined act := by
  intro a f h
  have hist : h.History := by
    refine .step (.step (.step .start ?_) ?_) ?_
    · decide +kernel
    · decide +kernel
    · decide +kernel
  refine ⟨hist, ?_, ?_, arrays_wellFormed hist⟩
  · decide +kernel
  · decide +kernel

end Heap

end ArrayFusion
