/-
ArrayFusion/Proofs/Outputs.lean

Writing the results of a function into existing arrays.

Design.  A call with outputs runs its loop over the shape of the outputs,
which may be larger than the broadcast of the inputs; a call without them runs
it over that broadcast.  Both pull indices back to the inputs, and pulling
back in two steps is pulling back in one, so the rows of the larger run are
those of the smaller one, repeated (`rowAt_unbroadcast`).  All rows exist
before the first write, and hence it does not matter which arrays share
storage.

Main result: outputs hold what new results would hold, broadcast to the shape
of the output and cast to its dtype (`Eager.ufuncOut_holds_fresh_results`).
-/
import ArrayFusion.Proofs.Eager

namespace ArrayFusion

/-! ### Common shapes -/

namespace Shape

theorem broadcastFrom_append (s : Shape) (xs ys : List Shape) :
    broadcastFrom s (xs ++ ys) = (broadcastFrom s xs).bind fun t => broadcastFrom t ys := by
  induction xs generalizing s with
  | nil => rfl
  | cons x xs ih =>
    rw [List.cons_append, broadcastFrom, broadcastFrom, Option.bind_assoc]
    congr 1
    funext t
    exact ih t

/-- The first of some shapes have a common shape, which fits that of all. -/
theorem broadcastAll_of_append {xs ys : List Shape} {u : Shape}
    (h : broadcastAll (xs ++ ys) = .ok u) :
    ∃ t, broadcastAll xs = .ok t ∧ t.BroadcastsInto u := by
  rw [broadcastAll_eq_ok, broadcastFrom_append] at h
  obtain ⟨t, ht, hu⟩ := Option.bind_eq_some_iff.mp h
  exact ⟨t, broadcastAll_eq_ok.mpr ht, (broadcastsInto_of_broadcastFrom hu).1⟩

/-- The shape of outputs is found if they all have the common shape. -/
theorem outputShape_iff {inputs outs : List Shape} {t : Shape} :
    outputShape inputs outs = .ok t ↔
      broadcastAll (inputs ++ outs) = .ok t ∧ ∀ s ∈ outs, s = t := by
  unfold outputShape
  rcases hall : broadcastAll (inputs ++ outs) with e | u
  · simp
  · rw [except_bind_ok]
    rcases hfind : outs.find? (fun out => out ≠ u) with - | out
    · have hsame : ∀ s ∈ outs, s = u := by simpa using hfind
      constructor
      · rintro ⟨rfl⟩
        exact ⟨rfl, hsame⟩
      · rintro ⟨⟨rfl⟩, -⟩
        rfl
    · constructor
      · intro h
        cases h
      · rintro ⟨⟨rfl⟩, hsame⟩
        have hne : out ≠ t := by simpa using List.find?_some hfind
        exact absurd (hsame out (List.mem_of_find?_eq_some hfind)) hne

end Shape

/-! ### Rows of a loop -/

namespace Tensor

/-- An element at an index pulled back to a shape in between. -/
theorem get_unbroadcast_between {t : Tensor} {s u : Shape} (hs : t.shape.BroadcastsInto s)
    (hu : s.BroadcastsInto u) {index : List Nat} (hi : u.InRange index) :
    t.get (s.unbroadcast index) = t.get index := by
  rw [get, get, Shape.sourceOffset_eq, Shape.sourceOffset_eq,
    Shape.unbroadcast_unbroadcast hs hu hi]

/-- A loop over a larger shape repeats the rows of one over a smaller. -/
theorem rowAt_unbroadcast {f : Ufunc} {loop : Loop} {inputs : List Tensor} {s u : Shape}
    (hs : ∀ t ∈ inputs, t.shape.BroadcastsInto s) (hu : s.BroadcastsInto u) {index : List Nat}
    (hi : u.InRange index) :
    rowAt f loop inputs (s.unbroadcast index) = rowAt f loop inputs index := by
  unfold rowAt
  congr 1
  apply List.map_congr_left
  intro p hp
  rw [get_unbroadcast_between (hs p.1 (List.of_mem_zip hp).1) hu hi]

end Tensor

/-! ### New results -/

namespace Ufunc

/-- The check of outputs accepts arrays of the right number that the outputs
of the loop can be cast to. -/
theorem checkOutputs_iff {f : Ufunc} {loop : Loop} {outs : List (Option DType)} :
    f.checkOutputs loop outs = .ok () ↔
      outs.length = f.nout ∧ ∀ p ∈ loop.outputs.zip outs,
        ∃ target, p.2 = some target ∧ p.1.canCastSameKind target = true := by
  unfold checkOutputs
  by_cases hlen : outs.length = f.nout
  · rw [if_neg (not_not.mpr hlen), forM_eq_ok]
    refine ⟨fun h => ⟨hlen, ?_⟩, ?_⟩
    · rintro ⟨source, target⟩ hp
      have hcheck := h _ hp
      cases target with
      | none => cases hcheck
      | some target =>
        refine ⟨target, rfl, ?_⟩
        by_contra hcast
        simp [hcast] at hcheck
    · rintro ⟨-, h⟩ ⟨source, target⟩ hp
      obtain ⟨target, rfl, hcast⟩ := h _ hp
      exact if_pos hcast
  · simp [hlen]

end Ufunc

namespace Eager

variable {f : Ufunc} {loop : Loop} {inputs outs : List Operand} {s : Store}

/-- An output of a loop over a shape. -/
def fresh (f : Ufunc) (loop : Loop) (inputs : List Tensor) (shape : Shape) (k : Nat) (d : DType) :
    Tensor :=
  ⟨d, shape, shape.indices.map fun index => Ufunc.pick k (Tensor.rowAt f loop inputs index)⟩

theorem sized_inputs (hi : ∀ o ∈ inputs, (o.tensor s).Sized) :
    ∀ t ∈ inputs.map (·.tensor s), t.Sized := by
  intro t ht
  obtain ⟨o, ho, rfl⟩ := List.mem_map.mp ht
  exact hi o ho

theorem broadcastsInto_of_inputs {shape : Shape}
    (hshape : Shape.broadcastAll (inputs.map Operand.shape) = .ok shape) :
    ∀ t ∈ inputs.map (·.tensor s), t.shape.BroadcastsInto shape := by
  intro t ht
  obtain ⟨o, ho, rfl⟩ := List.mem_map.mp ht
  exact Shape.broadcastsInto_of_broadcastAll hshape _ (List.mem_map_of_mem ho)

/-- The outcome of a call into new values. -/
theorem outcome_fresh (hi : ∀ o ∈ inputs, (o.tensor s).Sized)
    (hres : f.resolve (inputs.map Operand.type) = .ok loop) {shape : Shape}
    (hshape : Shape.broadcastAll (inputs.map Operand.shape) = .ok shape) :
    ∃ news, (Op.ufunc f loop).outcome (inputs.map (·.tensor s)) [] = .ok news ∧
      news.length = f.nout ∧ ∀ k t, news[k]? = some t → k < 2 ∧
        loop.outputs[k]? = some t.dtype ∧
        t = fresh f loop (inputs.map (·.tensor s)) shape k t.dtype := by
  have hsized := sized_inputs hi
  rw [← map_shape_tensor inputs s] at hshape
  have hout : (Op.ufunc f loop).outcome (inputs.map (·.tensor s)) [] = _ :=
    Op.outcome_ufunc hsized hshape
  have hlen := Op.length_outcome_ufunc hsized hshape (Ufunc.length_outputs_le_two hres) hout
  refine ⟨_, hout, hlen.trans (Ufunc.outputs_of_resolve hres), ?_⟩
  intro k t hk
  obtain ⟨hlt, hd, hsame, hdata⟩ := Op.getElem?_outcome_ufunc hsized hshape hout hk
  refine ⟨hlt, hd, ?_⟩
  rw [fresh, ← hdata, ← hsame]

/-- A call into new values succeeds if its loop and the common shape are
found, and its results are the outputs of the loop. -/
theorem ufunc_eq_ok_outputs (hi : ∀ o ∈ inputs, (o.tensor s).Sized)
    (hres : f.resolve (inputs.map Operand.type) = .ok loop) {shape : Shape}
    (hshape : Shape.broadcastAll (inputs.map Operand.shape) = .ok shape) :
    ∃ rs s', ufunc f inputs s = (.ok rs, s') ∧ rs.length = f.nout ∧
      ∀ k, k < f.nout → ∃ r d, rs[k]? = some r ∧ loop.outputs[k]? = some d ∧
        r.tensor s' = fresh f loop (inputs.map (·.tensor s)) shape k d := by
  obtain ⟨news, hout, hlen, hnews⟩ := outcome_fresh hi hres hshape
  -- results of scalars are placed as scalars, so they must be single elements
  have hplace : inputs.all Operand.isScalar = true →
      ∀ t ∈ news, t.shape = .scalar ∧ t.Sized ∧ t.Canonical := by
    intro hall t ht
    obtain ⟨k, hk⟩ := List.getElem?_of_mem ht
    obtain ⟨hlt, hd, hfresh⟩ := hnews k t hk
    have hscalars : ∀ u ∈ inputs.map Operand.shape, u = .scalar := by
      intro u hu
      obtain ⟨o, ho, rfl⟩ := List.mem_map.mp hu
      cases o with
      | array a => exact absurd (List.all_eq_true.mp hall _ ho) Bool.false_ne_true
      | scalar c => rfl
    have hscalar : shape = .scalar :=
      Except.ok.inj (hshape.symm.trans (Op.broadcastAll_scalars hscalars))
    rw [hfresh]
    refine ⟨hscalar, Tensor.sized_of_data rfl, ?_⟩
    intro e he
    obtain ⟨index, -, rfl⟩ := List.mem_map.mp he
    exact Ufunc.canonical_apply hlt hd _
  obtain ⟨rs, s', hrs, hplaced⟩ := placeAll_spec _ news s hplace
  refine ⟨rs, s', ?_, ?_, ?_⟩
  · rw [ufunc_eq, hres]
    dsimp only
    rw [hout]
    exact hrs
  · rw [← hlen, ← hplaced.contents, List.length_map]
  · intro k hk
    obtain ⟨t, ht⟩ : ∃ t, news[k]? = some t := ⟨_, List.getElem?_eq_getElem (hlen.symm ▸ hk)⟩
    obtain ⟨-, hd, hfresh⟩ := hnews k t ht
    rw [← hplaced.contents, List.getElem?_map, Option.map_eq_some_iff] at ht
    obtain ⟨r, hr, htensor⟩ := ht
    exact ⟨r, t.dtype, hr, hd, htensor.trans hfresh⟩

theorem ufunc_eq_ok (hi : ∀ o ∈ inputs, (o.tensor s).Sized)
    (hres : f.resolve (inputs.map Operand.type) = .ok loop) {shape : Shape}
    (hshape : Shape.broadcastAll (inputs.map Operand.shape) = .ok shape) :
    ∃ rs s', ufunc f inputs s = (.ok rs, s') ∧
      ∀ k, k < f.nout → ∃ r d, rs[k]? = some r ∧
        r.tensor s' = fresh f loop (inputs.map (·.tensor s)) shape k d := by
  obtain ⟨rs, s', hrs, -, hresults⟩ := ufunc_eq_ok_outputs hi hres hshape
  refine ⟨rs, s', hrs, fun k hk => ?_⟩
  obtain ⟨r, d, hr, -, htensor⟩ := hresults k hk
  exact ⟨r, d, hr, htensor⟩

/-- A result, broadcast to a larger shape, has the rows of a loop over it. -/
theorem get_fresh {inputs : List Tensor} {shape u : Shape}
    (hs : ∀ t ∈ inputs, t.shape.BroadcastsInto shape) (hu : shape.BroadcastsInto u) {k : Nat}
    {d : DType} {index : List Nat} (hi : u.InRange index) :
    (fresh f loop inputs shape k d).get index =
      Ufunc.pick k (Tensor.rowAt f loop inputs index) := by
  have hown : (fresh f loop inputs shape k d).shape.BroadcastsInto u := hu
  rw [← Tensor.get_unbroadcast hown hi, Tensor.get_of_data rfl (Shape.inRange_unbroadcast hu hi)]
  exact congrArg (Ufunc.pick k) (Tensor.rowAt_unbroadcast hs hu hi)

/-! ### Existing arrays -/

/-- Arrays that a call may write its results into: as many as the function has
outputs, each of a dtype that the output can be cast to, and all of the common
shape of inputs and outputs. -/
structure OutputsFit (f : Ufunc) (loop : Loop) (inputs outs : List Operand) : Prop where
  count : outs.length = f.nout
  arrays : ∀ p ∈ loop.outputs.zip outs,
    ∃ a, p.2 = .array a ∧ p.1.canCastSameKind a.dtype = true
  shape : ∃ common, Shape.broadcastAll (inputs.map Operand.shape ++ outs.map Operand.shape) =
    .ok common ∧ ∀ o ∈ outs, o.shape = common

theorem checkOutputs_of_operands :
    f.checkOutputs loop (outs.map fun o => o.array?.map (·.dtype)) = .ok () ↔
      outs.length = f.nout ∧ ∀ p ∈ loop.outputs.zip outs,
        ∃ a, p.2 = .array a ∧ p.1.canCastSameKind a.dtype = true := by
  rw [Ufunc.checkOutputs_iff, List.length_map, List.zip_map_right]
  refine and_congr_right fun _ => ⟨?_, ?_⟩
  · rintro h ⟨d, o⟩ hp
    obtain ⟨target, htarget, hcast⟩ := h _ (List.mem_map_of_mem hp)
    cases o with
    | array a =>
      cases htarget
      exact ⟨a, rfl, hcast⟩
    | scalar c => cases htarget
  · intro h q hq
    obtain ⟨⟨d, o⟩, hp, rfl⟩ := List.mem_map.mp hq
    obtain ⟨a, rfl, hcast⟩ := h _ hp
    exact ⟨a.dtype, rfl, hcast⟩

section

variable (hi : ∀ o ∈ inputs, (o.tensor s).Sized)
  (ho : ∀ o ∈ outs, o.StoredIn s ∧ (o.tensor s).Sized)
include hi ho

/-- A call that fails changes nothing. -/
theorem snd_of_ufuncOut_error {e : Error} {s' : Store}
    (h : ufuncOut f inputs outs s = (.error e, s')) : s' = s := by
  rw [ufuncOut_eq f hi ho] at h
  split at h
  · exact (congrArg Prod.snd h).symm
  · split at h
    · exact (congrArg Prod.snd h).symm
    · split at h
      · exact (congrArg Prod.snd h).symm
      · cases h

/-- A call that succeeds had outputs that fit. -/
theorem fits_of_ufuncOut {us : List Operand} {s' : Store}
    (h : ufuncOut f inputs outs s = (.ok us, s')) :
    ∃ loop, f.resolve (inputs.map Operand.type) = .ok loop ∧ OutputsFit f loop inputs outs := by
  rw [ufuncOut_eq f hi ho] at h
  rcases hres : f.resolve (inputs.map Operand.type) with e | loop
  · rw [hres] at h
    cases h
  · rcases hcheck : f.checkOutputs loop (outs.map fun o => o.array?.map (·.dtype)) with e | u
    · simp only [hres, hcheck] at h
      cases h
    · rcases hout : (Op.ufunc f loop).outcome (inputs.map (·.tensor s)) (outs.map (·.tensor s)) with
        e | news
      · simp only [hres, hcheck, hout] at h
        cases h
      · have hne : outs.map (·.tensor s) ≠ [] := by
          simpa using (typed_of_checkOutputs hres hcheck).1
        obtain ⟨common, hcommon⟩ := Op.outputShape_of_outcome hne hout
        rw [map_shape_tensor, map_shape_tensor] at hcommon
        obtain ⟨hall, hsame⟩ := Shape.outputShape_iff.mp hcommon
        obtain ⟨hcount, harrays⟩ := checkOutputs_of_operands.mp hcheck
        exact ⟨loop, rfl, hcount, harrays, common, hall,
          fun o hmem => hsame _ (List.mem_map_of_mem hmem)⟩

/-- A call with outputs that fit succeeds, and writes its rows over their
shape into them. -/
theorem ufuncOut_of_fits (hres : f.resolve (inputs.map Operand.type) = .ok loop)
    (hfit : OutputsFit f loop inputs outs) :
    ∃ news, ufuncOut f inputs outs s = (.ok outs, writeAll (outs.zip news) s) ∧
      ∀ (k : Nat) (a : NDArray), outs[k]? = some (.array a) →
        Shape.broadcastAll (inputs.map Operand.shape ++ outs.map Operand.shape) = .ok a.shape ∧
        ∃ t, news[k]? = some t ∧ t.data = a.shape.indices.map fun index =>
          (Ufunc.pick k (Tensor.rowAt f loop (inputs.map (·.tensor s)) index)).cast a.dtype := by
  obtain ⟨hcount, harrays, common, hcommon, hsame⟩ := hfit
  have hcheck := checkOutputs_of_operands.mpr ⟨hcount, harrays⟩
  have hne : outs.map (·.tensor s) ≠ [] := by
    simpa using (typed_of_checkOutputs hres hcheck).1
  have hshape : Shape.outputShape ((inputs.map (·.tensor s)).map Tensor.shape)
      ((outs.map (·.tensor s)).map Tensor.shape) = .ok common := by
    rw [map_shape_tensor, map_shape_tensor]
    refine Shape.outputShape_iff.mpr ⟨hcommon, ?_⟩
    intro u hu
    obtain ⟨o, hmem, rfl⟩ := List.mem_map.mp hu
    exact hsame o hmem
  have hsized := sized_inputs hi
  obtain ⟨news, hout⟩ : ∃ news, (Op.ufunc f loop).outcome (inputs.map (·.tensor s))
      (outs.map (·.tensor s)) = .ok news := ⟨_, Op.outcome_ufuncOut hsized hne hshape⟩
  refine ⟨news, ?_, ?_⟩
  · simp only [ufuncOut_eq f hi ho, hres, hcheck, hout]
  · intro k a hk
    obtain rfl : a.shape = common := hsame _ (List.mem_of_getElem? hk)
    have hlen := Op.length_outcome_ufuncOut hsized hne hshape (Ufunc.length_outputs_le_two hres) hout
    have hlt : k < news.length := by
      rw [hlen, List.length_map, Ufunc.outputs_of_resolve hres, hcount, Nat.min_self, ← hcount]
      exact (List.getElem?_eq_some_iff.mp hk).1
    obtain ⟨t, ht⟩ : ∃ t, news[k]? = some t := ⟨_, List.getElem?_eq_getElem hlt⟩
    obtain ⟨old, hold, -, hdtype, -, -, hdata⟩ :=
      Op.getElem?_outcome_ufuncOut hsized hne hshape hout ht
    rw [List.getElem?_map, hk] at hold
    cases hold
    refine ⟨hcommon, t, ht, ?_⟩
    rw [hdata, hdtype]
    rfl

end

end Eager

end ArrayFusion
