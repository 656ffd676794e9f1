/-
ArrayFusion/Proofs/Outcome.lean

The meaning of one recorded operation on contents.

Design.  `Op.outcome` takes the contents of inputs and targets to those of
the outputs, with the checks that evaluation op at a time makes.  `Op.Typed`
is the static rule of each operation: which forms of inputs and targets it
accepts, and the forms of its outputs.

Main results: on contents of the right forms an outcome succeeds exactly when
the shapes of the node resolve, with those shapes (`Typed.shapes_outcome`),
and what it yields has the forms that the rule says (`Typed.forms_outcome`).
-/
import ArrayFusion.Graph.Recorder
import ArrayFusion.Graph.Shapes
import ArrayFusion.Proofs.Lists
import ArrayFusion.Proofs.Slice

namespace ArrayFusion

/-- The outputs of an operation on the contents of its inputs and targets. -/
def Op.outcome (op : Op) (inputs targets : List Tensor) : Except Error (List Tensor) :=
  match op with
  | .ufunc f loop =>
    if targets.isEmpty then do
      let shape ← Shape.broadcastAll (inputs.map Tensor.shape)
      let rows ← Eager.runLoop f loop (inputs.map Tensor.content) shape
      return ((Eager.columns loop rows).zip loop.outputs).map fun p => ⟨p.2, shape, p.1⟩
    else do
      let shape ← Shape.outputShape (inputs.map Tensor.shape) (targets.map Tensor.shape)
      let rows ← Eager.runLoop f loop (inputs.map Tensor.content) shape
      return (targets.zip (Eager.columns loop rows)).map fun p =>
        ⟨p.1.dtype, p.1.shape, p.2.map (·.cast p.1.dtype)⟩
  | .cast d =>
    match inputs with
    | t :: _ => .ok [⟨d, t.shape, t.data.map (·.cast d)⟩]
    | [] => .error (.fault .operand)
  | .reduce op axis =>
    match inputs with
    | t :: _ => do
      let out ← op.reduceElems t.data t.shape t.dtype axis
      return [⟨op.outputDType t.dtype, out.2, out.1⟩]
    | [] => .error (.fault .operand)
  | .assign region =>
    match inputs, targets with
    | s :: _, t :: _ => do return [⟨t.dtype, t.shape, ← assigned region s t⟩]
    | _, _ => .error (.fault .operand)

/-! ### Forms -/

namespace Form

/-- What promotion looks at. -/
def operandType (f : Form) : OperandType :=
  ⟨f.dtype, f.kind == .scalar⟩

/-- Number of axes of a broadcast. -/
def maxNdim (forms : List Form) : Nat :=
  forms.foldl (fun n f => max n f.ndim) 0

/-- Scalar if all are. -/
def commonKind (forms : List Form) : ArgKind :=
  if forms.all fun f => f.kind == .scalar then .scalar else .array

end Form

/-- Contents of the form that is known before a call. -/
structure Tensor.HasForm (t : Tensor) (f : Form) : Prop where
  dtype : t.dtype = f.dtype
  ndim : t.shape.ndim = f.ndim
  sized : t.Sized
  /-- Only arrays are stored, so only they must be canonical. -/
  canonical : f.kind = .array → t.Canonical
  scalar : f.kind ≠ .array → t.shape = .scalar

/-- A shape of the form that is known before a call. -/
structure Shape.HasForm (s : Shape) (f : Form) : Prop where
  ndim : s.ndim = f.ndim
  scalar : f.kind ≠ .array → s = .scalar

theorem Tensor.forms_shapes {ts : List Tensor} {fs : List Form}
    (h : List.Forall₂ Tensor.HasForm ts fs) :
    List.Forall₂ Shape.HasForm (ts.map Tensor.shape) fs :=
  List.forall₂_map_left_iff.mpr (h.imp fun _ _ hf => ⟨hf.ndim, hf.scalar⟩)

/-- Contents that differ in their elements only. -/
def Tensor.Alike (t t' : Tensor) : Prop :=
  t.dtype = t'.dtype ∧ t.shape = t'.shape

theorem Tensor.map_shape_of_alike {ts ts' : List Tensor} (h : List.Forall₂ Alike ts ts') :
    ts.map Tensor.shape = ts'.map Tensor.shape := by
  rw [← List.forall₂_eq_eq_eq, List.forall₂_map_left_iff, List.forall₂_map_right_iff]
  exact h.imp fun _ _ h => h.2

/-- The static rule of an operation: forms of inputs, targets and outputs. -/
inductive Op.Typed : Op → (inputs targets outputs : List Form) → Prop
  | ufunc {f : Ufunc} {loop : Loop} {inputs : List Form}
      (resolved : f.resolve (inputs.map Form.operandType) = .ok loop) :
      Op.Typed (.ufunc f loop) inputs []
        (loop.outputs.map fun d => ⟨d, Form.maxNdim inputs, Form.commonKind inputs⟩)
  | ufuncOut {f : Ufunc} {loop : Loop} {inputs targets : List Form}
      (resolved : f.resolve (inputs.map Form.operandType) = .ok loop)
      (count : targets.length = loop.outputs.length)
      (arrays : ∀ t ∈ targets, t.kind = .array) :
      Op.Typed (.ufunc f loop) inputs targets targets
  | cast {d : DType} {input : Form} :
      Op.Typed (.cast d) [input] [] [⟨d, input.ndim, input.kind⟩]
  | reduce {op : Reduction} {axis : Option Nat} {input : Form} {ndim : Nat}
      (reduced : Recorder.reducedNdim input.ndim axis = .ok ndim) :
      Op.Typed (.reduce op axis) [input] [] [⟨op.outputDType input.dtype, ndim, .array⟩]
  | assign {region : Region} {source target : Form} (array : target.kind = .array) :
      Op.Typed (.assign region) [source] [target] [target]

/-! ### Elementwise functions -/

namespace Op

open Tensor (Alike HasForm)

section Ufunc

variable {f : Ufunc} {loop : Loop} {inputs targets : List Tensor}

/-- Into new values: one output per column of the loop. -/
theorem outcome_ufunc {s : Shape} (hs : ∀ t ∈ inputs, t.Sized)
    (h : Shape.broadcastAll (inputs.map Tensor.shape) = .ok s) :
    (Op.ufunc f loop).outcome inputs [] =
      .ok (((Eager.columns loop (s.indices.map (Tensor.rowAt f loop inputs))).zip loop.outputs).map
        fun p => ⟨p.2, s, p.1⟩) := by
  have hrows : Eager.runLoop f loop (inputs.map Tensor.content) s = _ :=
    Tensor.runLoop_eq_ok (fun t ht =>
      ⟨hs t ht, Shape.broadcastsInto_of_broadcastAll h _ (List.mem_map_of_mem ht)⟩) f loop
  simp only [outcome, List.isEmpty_nil, if_true, h, except_bind_ok, hrows]
  rfl

/-- Into existing arrays: one output per target. -/
theorem outcome_ufuncOut {s : Shape} (hs : ∀ t ∈ inputs, t.Sized) (hne : targets ≠ [])
    (h : Shape.outputShape (inputs.map Tensor.shape) (targets.map Tensor.shape) = .ok s) :
    (Op.ufunc f loop).outcome inputs targets =
      .ok ((targets.zip (Eager.columns loop (s.indices.map (Tensor.rowAt f loop inputs)))).map
        fun p => ⟨p.1.dtype, p.1.shape, p.2.map (·.cast p.1.dtype)⟩) := by
  have hrows : Eager.runLoop f loop (inputs.map Tensor.content) s = _ :=
    Tensor.runLoop_eq_ok (fun t ht =>
      ⟨hs t ht, (Shape.outputShape_eq_ok h).1 _ (List.mem_map_of_mem ht)⟩) f loop
  have hempty : targets.isEmpty = false := by
    simpa using hne
  simp only [outcome, hempty, Bool.false_eq_true, if_false, h, except_bind_ok, hrows]
  rfl

/-- An output of a loop into new values, by its position. -/
theorem getElem?_outcome_ufunc {s : Shape} (hs : ∀ t ∈ inputs, t.Sized)
    (h : Shape.broadcastAll (inputs.map Tensor.shape) = .ok s) {outs : List Tensor}
    (ho : (Op.ufunc f loop).outcome inputs [] = .ok outs) {k : Nat} {t : Tensor}
    (ht : outs[k]? = some t) :
    k < 2 ∧ loop.outputs[k]? = some t.dtype ∧ t.shape = s ∧
      t.data = s.indices.map fun index => Ufunc.pick k (Tensor.rowAt f loop inputs index) := by
  rw [outcome_ufunc hs h] at ho
  cases ho
  rw [List.getElem?_map, Option.map_eq_some_iff] at ht
  obtain ⟨⟨col, d⟩, hp, rfl⟩ := ht
  rw [List.getElem?_zip_eq_some] at hp
  obtain ⟨hcol, hd⟩ := hp
  have hk : k < loop.outputs.length := (List.getElem?_eq_some_iff.mp hd).1
  have hk2 : k < 2 := by
    have hlt := (List.getElem?_eq_some_iff.mp hcol).1
    simp only [Eager.columns, List.length_take, List.length_cons, List.length_nil] at hlt
    omega
  rw [Tensor.getElem?_columns hk hk2] at hcol
  cases hcol
  refine ⟨hk2, hd, rfl, ?_⟩
  rw [List.map_map]
  rfl

/-- An output of a loop into existing arrays, by its position. -/
theorem getElem?_outcome_ufuncOut {s : Shape} (hs : ∀ t ∈ inputs, t.Sized) (hne : targets ≠ [])
    (h : Shape.outputShape (inputs.map Tensor.shape) (targets.map Tensor.shape) = .ok s)
    {outs : List Tensor} (ho : (Op.ufunc f loop).outcome inputs targets = .ok outs) {k : Nat}
    {t : Tensor} (ht : outs[k]? = some t) :
    ∃ old, targets[k]? = some old ∧ k < 2 ∧ t.dtype = old.dtype ∧ t.shape = old.shape ∧
      t.shape = s ∧ t.data = s.indices.map fun index =>
        (Ufunc.pick k (Tensor.rowAt f loop inputs index)).cast t.dtype := by
  rw [outcome_ufuncOut hs hne h] at ho
  cases ho
  rw [List.getElem?_map, Option.map_eq_some_iff] at ht
  obtain ⟨⟨old, col⟩, hp, rfl⟩ := ht
  rw [List.getElem?_zip_eq_some] at hp
  obtain ⟨hold, hcol⟩ := hp
  have hlt := (List.getElem?_eq_some_iff.mp hcol).1
  simp only [Eager.columns, List.length_take, List.length_cons, List.length_nil] at hlt
  have hk2 : k < 2 := by omega
  rw [Tensor.getElem?_columns (by omega) hk2] at hcol
  cases hcol
  have hshape := (Shape.outputShape_eq_ok h).2 old.shape
    (List.mem_map_of_mem (List.mem_of_getElem? hold))
  refine ⟨old, hold, hk2, rfl, rfl, hshape, ?_⟩
  rw [List.map_map, List.map_map]
  rfl

theorem broadcastAll_of_outcome {outs : List Tensor}
    (h : (Op.ufunc f loop).outcome inputs [] = .ok outs) :
    ∃ s, Shape.broadcastAll (inputs.map Tensor.shape) = .ok s := by
  obtain ⟨s, hs, -⟩ := except_bind_eq_ok.mp h
  exact ⟨s, hs⟩

theorem outputShape_of_outcome (hne : targets ≠ []) {outs : List Tensor}
    (h : (Op.ufunc f loop).outcome inputs targets = .ok outs) :
    ∃ s, Shape.outputShape (inputs.map Tensor.shape) (targets.map Tensor.shape) = .ok s := by
  simp only [outcome] at h
  rw [if_neg (by simpa using hne)] at h
  obtain ⟨s, hs, -⟩ := except_bind_eq_ok.mp h
  exact ⟨s, hs⟩

theorem length_outcome_ufunc {s : Shape} (hs : ∀ t ∈ inputs, t.Sized)
    (h : Shape.broadcastAll (inputs.map Tensor.shape) = .ok s) (h2 : loop.outputs.length ≤ 2)
    {outs : List Tensor} (ho : (Op.ufunc f loop).outcome inputs [] = .ok outs) :
    outs.length = loop.outputs.length := by
  rw [outcome_ufunc hs h] at ho
  cases ho
  rw [List.length_map, List.length_zip, Tensor.length_columns h2, Nat.min_self]

theorem length_outcome_ufuncOut {s : Shape} (hs : ∀ t ∈ inputs, t.Sized) (hne : targets ≠ [])
    (h : Shape.outputShape (inputs.map Tensor.shape) (targets.map Tensor.shape) = .ok s)
    (h2 : loop.outputs.length ≤ 2) {outs : List Tensor}
    (ho : (Op.ufunc f loop).outcome inputs targets = .ok outs) :
    outs.length = min targets.length loop.outputs.length := by
  rw [outcome_ufuncOut hs hne h] at ho
  cases ho
  rw [List.length_map, List.length_zip, Tensor.length_columns h2]

end Ufunc

/-! ### The other operations -/

theorem canonical_assignedAt {region : Region} {s t : Tensor} (hc : t.Canonical) (ht : t.Sized)
    {own : List Nat} (hi : t.shape.InRange own) :
    (assignedAt region s t own).Canonical t.dtype := by
  unfold assignedAt
  split
  · exact Elem.canonical_cast _ _
  · exact hc _ (List.mem_of_getElem?
      (Tensor.getElem?_of_broadcast ht (Shape.broadcastsInto_refl _) hi))

theorem outcome_reduce {op : Reduction} {axis : Option Nat} {t : Tensor} (ht : t.Sized)
    {out : Shape} (h : op.reducedShape t.shape axis = .ok out) :
    ∃ data, (Op.reduce op axis).outcome [t] [] = .ok [⟨op.outputDType t.dtype, out, data⟩] ∧
      data.length = out.count ∧ (∀ e ∈ data, e.Canonical (op.outputDType t.dtype)) ∧
      op.reduceElems t.data t.shape t.dtype axis = .ok (data, out) := by
  obtain ⟨acc, -, hred, hlen, hcan⟩ := Reduction.reduceElems_spec t.dtype ht h
  refine ⟨acc.finish, ?_, hlen, hcan, hred⟩
  simp only [outcome, hred]
  rfl

/-- An axis that does not exist is found by the static check already. -/
theorem outcome_reduce_error {op : Reduction} {axis : Option Nat} {t : Tensor} {e : Error}
    (h : Recorder.reducedNdim t.shape.ndim axis = .error e) :
    (Op.reduce op axis).outcome [t] [] = .error e := by
  cases axis with
  | none => cases h
  | some a =>
    unfold Recorder.reducedNdim at h
    dsimp only at h
    split at h
    · cases h
    · next ha =>
      cases h
      have hred : op.reducedShape t.shape (some a) =
          .error (.shape (.axisOutOfBounds a t.shape.ndim)) := by
        show (t.shape.removeAxis a >>= _) = _
        rw [Shape.removeAxis, if_neg ha]
        rfl
      simp only [outcome, Reduction.reduceElems, hred]
      rfl

theorem outcome_assign {region : Region} {s t : Tensor} (hs : s.Sized) (ht : t.Sized)
    {inner : Shape} (h : region.checkSource s.shape t.shape = .ok inner) :
    (Op.assign region).outcome [s] [t] =
      .ok [⟨t.dtype, t.shape, t.shape.indices.map (assignedAt region s t)⟩] := by
  simp only [outcome, assigned_eq_ok hs ht h]
  rfl

/-- The output of a reduction. -/
theorem reduce_outcome {op : Reduction} {axis : Option Nat} {x : Tensor} (hx : x.Sized)
    {outs : List Tensor} (ho : (Op.reduce op axis).outcome [x] [] = .ok outs) :
    ∃ out acc, op.reducedShape x.shape axis = .ok out ∧
      (Accumulator.start op (op.outputDType x.dtype) out.count).pushAll
        (Reduction.slotOf x.shape axis) 0 x.data = .ok acc ∧
      outs = [⟨op.outputDType x.dtype, out, acc.finish⟩] ∧ acc.finish.length = out.count ∧
      ∀ e ∈ acc.finish, e.Canonical (op.outputDType x.dtype) := by
  rcases e : op.reducedShape x.shape axis with err | out
  · simp [outcome, Reduction.reduceElems, e] at ho
  · obtain ⟨acc, hacc, hred, hlen, hcan⟩ := Reduction.reduceElems_spec x.dtype hx e
    simp only [outcome, hred] at ho
    cases ho
    exact ⟨out, acc, rfl, hacc, rfl, hlen, hcan⟩

/-- The output of a slice assignment. -/
theorem assign_outcome {region : Region} {x y : Tensor} (hx : x.Sized) (hy : y.Sized)
    {outs : List Tensor} (ho : (Op.assign region).outcome [x] [y] = .ok outs) :
    ∃ inner, region.shapeIn y.shape = .ok inner ∧ x.shape.BroadcastsInto inner ∧
      outs = [⟨y.dtype, y.shape, y.shape.indices.map (assignedAt region x y)⟩] := by
  rcases e : region.checkSource x.shape y.shape with err | inner
  · simp [outcome, assigned, e] at ho
  · obtain ⟨hin, hb⟩ := Region.checkSource_eq_ok e
    rw [outcome_assign hx hy e] at ho
    cases ho
    exact ⟨inner, hin, hb, rfl⟩

/-! ### Shapes -/

theorem sized_of_hasForm {ts : List Tensor} {fs : List Form} (h : List.Forall₂ HasForm ts fs) :
    ∀ t ∈ ts, t.Sized := by
  intro t ht
  obtain ⟨_, -, hf⟩ := forall₂_mem_left h ht
  exact hf.sized

/-- Into existing arrays means into at least one. -/
theorem targets_ne_nil {f : Ufunc} {loop : Loop} {operands : List OperandType}
    (resolved : f.resolve operands = .ok loop) {tgts : List Tensor} {ft : List Form}
    (ht : List.Forall₂ HasForm tgts ft) (count : ft.length = loop.outputs.length) : tgts ≠ [] := by
  rintro rfl
  have hpos := Ufunc.length_outputs_pos resolved
  rw [← count, ← ht.length_eq] at hpos
  exact Nat.lt_irrefl _ hpos

/-- An outcome succeeds exactly when the shapes of the node resolve, and then
has those shapes. -/
theorem Typed.shapes_outcome {op : Op} {fi ft fo : List Form} (h : op.Typed fi ft fo)
    {ins tgts : List Tensor} (hi : List.Forall₂ HasForm ins fi) (ht : List.Forall₂ HasForm tgts ft)
    {n : Node} (hop : n.op = op) (hn : n.outputs.length = fo.length) :
    (op.outcome ins tgts).map (List.map Tensor.shape) =
      Graph.nodeShapes n (ins.map Tensor.shape) (tgts.map Tensor.shape) := by
  have hsized := sized_of_hasForm hi
  unfold Graph.nodeShapes
  rw [hop]
  cases h with
  | @ufunc f loop _ resolved =>
    cases ht
    dsimp only
    rw [if_pos (by rfl)]
    rcases e : Shape.broadcastAll (ins.map Tensor.shape) with err | s
    · simp [outcome, e, Except.map]
    · rw [outcome_ufunc hsized e, hn, List.length_map]
      simp only [Except.map, List.map_map, except_bind_ok]
      congr 1
      rw [List.eq_replicate_iff]
      refine ⟨?_, ?_⟩
      · rw [List.length_map, List.length_zip,
          Tensor.length_columns (Ufunc.length_outputs_le_two resolved), Nat.min_self]
      · intro x hx
        obtain ⟨_, -, rfl⟩ := List.mem_map.mp hx
        rfl
  | @ufuncOut f loop _ _ resolved count arrays =>
    have hne := targets_ne_nil resolved ht count
    have hcolumns := Ufunc.length_outputs_le_two resolved
    dsimp only
    rw [if_neg (by simpa using hne)]
    rcases e : Shape.outputShape (ins.map Tensor.shape) (tgts.map Tensor.shape) with err | s
    · have hempty : tgts.isEmpty = false := by simpa using hne
      simp [outcome, e, hempty, Except.map]
    · rw [outcome_ufuncOut hsized hne e]
      simp only [Except.map, List.map_map, except_bind_ok]
      congr 1
      show (tgts.zip _).map (Tensor.shape ∘ Prod.fst) = _
      rw [← List.map_map, List.map_fst_zip]
      exact Nat.le_of_eq (by rw [Tensor.length_columns hcolumns, ← count, ht.length_eq])
  | @cast d input =>
    cases hi with
    | cons _ hnil =>
      cases hnil
      rfl
  | @reduce red axis input ndim reduced =>
    cases hi with
    | @cons t _ _ _ hform hnil =>
      cases hnil
      show _ = (red.reducedShape t.shape axis >>= _)
      rcases e : red.reducedShape t.shape axis with err | s
      · simp [outcome, Reduction.reduceElems, e, Except.map]
      · obtain ⟨data, hd, -⟩ := outcome_reduce hform.sized e
        cases ht
        rw [hd]
        rfl
  | @assign region source target array =>
    cases hi with
    | @cons s _ _ _ hs hnil =>
      cases hnil
      cases ht with
      | @cons t _ _ _ hform hnil =>
        cases hnil
        show _ = (region.checkSource s.shape t.shape >>= _)
        rcases e : region.checkSource s.shape t.shape with err | inner
        · simp [outcome, assigned, e, Except.map]
        · rw [outcome_assign hs.sized hform.sized e]
          rfl

/-! ### Forms of the outputs -/

theorem scalar_of_commonKind {shapes : List Shape} {fi : List Form}
    (hi : List.Forall₂ Shape.HasForm shapes fi) (h : Form.commonKind fi ≠ .array) :
    ∀ s ∈ shapes, s = .scalar := by
  have hall : fi.all (fun f => f.kind == .scalar) = true := by
    by_contra hc
    exact h (by rw [Form.commonKind, if_neg hc])
  intro s hs
  obtain ⟨f, hf, hform⟩ := forall₂_mem_left hi hs
  apply hform.scalar
  have hk := List.all_eq_true.mp hall f hf
  rw [beq_iff_eq.mp hk]
  decide

theorem broadcastAll_scalars {shapes : List Shape} (h : ∀ s ∈ shapes, s = .scalar) :
    Shape.broadcastAll shapes = .ok .scalar := by
  have hfrom : Shape.broadcastFrom .scalar shapes = some .scalar := by
    induction shapes with
    | nil => rfl
    | cons s ss ih =>
      rw [h s List.mem_cons_self]
      exact ih fun u hu => h u (List.mem_cons_of_mem s hu)
  rw [Shape.broadcastAll, hfrom]

theorem maxNdim_eq {shapes : List Shape} {fi : List Form}
    (hi : List.Forall₂ Shape.HasForm shapes fi) :
    shapes.foldl (fun n u => max n u.ndim) 0 = Form.maxNdim fi := by
  unfold Form.maxNdim
  generalize 0 = start
  induction hi generalizing start with
  | nil => rfl
  | cons hform _ ih =>
    rw [List.foldl_cons, List.foldl_cons, hform.ndim]
    exact ih _

/-- The common shape of some inputs has the form that is known of the
outputs. -/
theorem hasForm_of_broadcastAll {shapes : List Shape} {fi : List Form}
    (hi : List.Forall₂ Shape.HasForm shapes fi) {s : Shape}
    (hs : Shape.broadcastAll shapes = .ok s) (d : DType) :
    s.HasForm ⟨d, Form.maxNdim fi, Form.commonKind fi⟩ where
  ndim := by rw [Shape.ndim_of_broadcastAll hs, maxNdim_eq hi]
  scalar hkind := by
    rw [broadcastAll_scalars (scalar_of_commonKind hi hkind)] at hs
    cases hs
    rfl

theorem ndim_reduced {op : Reduction} {shape out : Shape} {axis : Option Nat} {ndim : Nat}
    (hs : op.reducedShape shape axis = .ok out)
    (hr : Recorder.reducedNdim shape.ndim axis = .ok ndim) : out.ndim = ndim := by
  cases axis with
  | none =>
    cases hr
    rw [Reduction.reducedShape_none hs]
    rfl
  | some a =>
    obtain ⟨ha, rfl⟩ := Reduction.reducedShape_some hs
    rw [Recorder.reducedNdim, if_pos ha] at hr
    cases hr
    exact List.length_eraseIdx_of_lt ha

/-- What an outcome yields is in the form that its dtype stores. -/
theorem Typed.canonical_outcome {op : Op} {fi ft fo : List Form} (h : op.Typed fi ft fo)
    {ins tgts : List Tensor} (hi : List.Forall₂ HasForm ins fi) (ht : List.Forall₂ HasForm tgts ft)
    {outs : List Tensor} (ho : op.outcome ins tgts = .ok outs) : ∀ t ∈ outs, t.Canonical := by
  have hsized := sized_of_hasForm hi
  intro t hmem e he
  obtain ⟨k, hk⟩ := List.getElem?_of_mem hmem
  cases h with
  | @ufunc f loop _ resolved =>
    cases ht
    obtain ⟨s, hs⟩ := broadcastAll_of_outcome ho
    obtain ⟨hk2, hd, -, hdata⟩ := getElem?_outcome_ufunc hsized hs ho hk
    rw [hdata] at he
    obtain ⟨index, -, rfl⟩ := List.mem_map.mp he
    exact Ufunc.canonical_apply hk2 hd _
  | @ufuncOut f loop _ _ resolved count arrays =>
    have hne := targets_ne_nil resolved ht count
    obtain ⟨s, hs⟩ := outputShape_of_outcome hne ho
    obtain ⟨old, -, -, -, -, -, hdata⟩ := getElem?_outcome_ufuncOut hsized hne hs ho hk
    rw [hdata] at he
    obtain ⟨index, -, rfl⟩ := List.mem_map.mp he
    exact Elem.canonical_cast _ _
  | @cast d input =>
    cases hi with
    | cons hform hnil =>
      cases hnil
      cases ho
      obtain rfl := List.mem_singleton.mp hmem
      obtain ⟨e', -, rfl⟩ := List.mem_map.mp he
      exact Elem.canonical_cast _ _
  | @reduce red axis input ndim reduced =>
    cases ht
    cases hi with
    | @cons x _ _ _ hform hnil =>
      cases hnil
      obtain ⟨out, acc, -, -, rfl, -, hcan⟩ := reduce_outcome hform.sized ho
      obtain rfl := List.mem_singleton.mp hmem
      exact hcan e he
  | @assign region source target array =>
    cases hi with
    | @cons x _ _ _ hs hnil =>
      cases hnil
      cases ht with
      | @cons y _ _ _ hform hnil =>
        cases hnil
        obtain ⟨inner, -, -, rfl⟩ := assign_outcome hs.sized hform.sized ho
        obtain rfl := List.mem_singleton.mp hmem
        obtain ⟨own, hown, rfl⟩ := List.mem_map.mp he
        exact canonical_assignedAt (hform.canonical array) hform.sized
          (Shape.mem_indices_iff.mp hown)

/-- What an outcome yields has the forms that the rule says. -/
theorem Typed.forms_outcome {op : Op} {fi ft fo : List Form} (h : op.Typed fi ft fo)
    {ins tgts : List Tensor} (hi : List.Forall₂ HasForm ins fi) (ht : List.Forall₂ HasForm tgts ft)
    {outs : List Tensor} (ho : op.outcome ins tgts = .ok outs) : List.Forall₂ HasForm outs fo := by
  have hsized := sized_of_hasForm hi
  have hcan := h.canonical_outcome hi ht ho
  cases h with
  | @ufunc f loop _ resolved =>
    cases ht
    obtain ⟨s, hs⟩ := broadcastAll_of_outcome ho
    have hcolumns := Ufunc.length_outputs_le_two resolved
    apply forall₂_of_getElem?
    · rw [length_outcome_ufunc hsized hs hcolumns ho, List.length_map]
    · intro k t form hk hform
      obtain ⟨-, hd, rfl, hdata⟩ := getElem?_outcome_ufunc hsized hs ho hk
      rw [List.getElem?_map, hd, Option.map_some, Option.some.injEq] at hform
      subst hform
      have hshape := hasForm_of_broadcastAll (Tensor.forms_shapes hi) hs t.dtype
      exact ⟨rfl, hshape.ndim, Tensor.sized_of_data hdata,
        fun _ => hcan t (List.mem_of_getElem? hk), hshape.scalar⟩
  | @ufuncOut f loop _ _ resolved count arrays =>
    have hne := targets_ne_nil resolved ht count
    have hcolumns := Ufunc.length_outputs_le_two resolved
    obtain ⟨s, hs⟩ := outputShape_of_outcome hne ho
    apply forall₂_of_getElem?
    · rw [length_outcome_ufuncOut hsized hne hs hcolumns ho, ← count, ht.length_eq, Nat.min_self]
    · intro k t form hk hform
      obtain ⟨old, hold, -, hdt, hsh, hshape, hdata⟩ :=
        getElem?_outcome_ufuncOut hsized hne hs ho hk
      obtain ⟨form', hform', hf⟩ := forall₂_getElem? ht hold
      obtain rfl : form' = form := Option.some.inj (hform'.symm.trans hform)
      have harray := arrays form' (List.mem_of_getElem? hform)
      rw [← hshape] at hdata
      refine ⟨hdt.trans hf.dtype, ?_, Tensor.sized_of_data hdata, ?_, ?_⟩
      · rw [hsh, hf.ndim]
      · exact fun _ => hcan t (List.mem_of_getElem? hk)
      · intro hkind
        exact absurd harray hkind
  | @cast d input =>
    cases hi with
    | @cons t _ _ _ hform hnil =>
      cases hnil
      cases ho
      refine .cons ⟨rfl, hform.ndim, ?_, ?_, hform.scalar⟩ .nil
      · exact (List.length_map _).trans hform.sized
      · exact fun _ => hcan _ List.mem_cons_self
  | @reduce red axis input ndim reduced =>
    cases ht
    cases hi with
    | @cons t _ _ _ hform hnil =>
      cases hnil
      obtain ⟨out, acc, hout, -, rfl, hlen, -⟩ := reduce_outcome hform.sized ho
      rw [← hform.ndim] at reduced
      refine .cons ⟨?_, ndim_reduced hout reduced, hlen, fun _ => hcan _ List.mem_cons_self,
        fun h => absurd rfl h⟩ .nil
      rw [hform.dtype]
  | @assign region source target array =>
    cases hi with
    | @cons s _ _ _ hs hnil =>
      cases hnil
      cases ht with
      | @cons t _ _ _ hform hnil =>
        cases hnil
        obtain ⟨inner, -, -, rfl⟩ := assign_outcome hs.sized hform.sized ho
        refine .cons ⟨hform.dtype, hform.ndim, ?_, ?_, fun h => absurd array h⟩ .nil
        · exact Tensor.sized_of_data rfl
        · exact fun _ => hcan _ List.mem_cons_self

/-- A node has a shape for each of its outputs. -/
theorem Typed.length_nodeShapes {op : Op} {fi ft fo : List Form} (h : op.Typed fi ft fo)
    {ins tgts : List Shape} (ht : tgts.length = ft.length) {n : Node} (hop : n.op = op)
    (hn : n.outputs.length = fo.length) {outs : List Shape}
    (ho : Graph.nodeShapes n ins tgts = .ok outs) : outs.length = fo.length := by
  unfold Graph.nodeShapes at ho
  rw [hop] at ho
  cases h with
  | ufunc resolved =>
    dsimp only at ho
    rw [if_pos (List.isEmpty_iff_length_eq_zero.mpr ht)] at ho
    obtain ⟨s, -, ho⟩ := except_bind_eq_ok.mp ho
    cases ho
    rw [List.length_replicate, hn]
  | ufuncOut resolved count arrays =>
    dsimp only at ho
    split at ho
    · obtain ⟨s, -, ho⟩ := except_bind_eq_ok.mp ho
      cases ho
      rw [List.length_replicate, hn]
    · obtain ⟨s, -, ho⟩ := except_bind_eq_ok.mp ho
      cases ho
      exact ht
  | cast =>
    obtain ⟨s, -, ho⟩ := except_bind_eq_ok.mp ho
    cases ho
    rfl
  | reduce reduced =>
    obtain ⟨s, -, ho⟩ := except_bind_eq_ok.mp ho
    obtain ⟨out, -, ho⟩ := except_bind_eq_ok.mp ho
    cases ho
    rfl
  | assign array =>
    obtain ⟨source, -, ho⟩ := except_bind_eq_ok.mp ho
    obtain ⟨target, -, ho⟩ := except_bind_eq_ok.mp ho
    obtain ⟨inner, -, ho⟩ := except_bind_eq_ok.mp ho
    cases ho
    rfl

/-- Shapes of nodes have the forms that the rule says. -/
theorem Typed.forms_nodeShapes {op : Op} {fi ft fo : List Form} (h : op.Typed fi ft fo)
    {ins tgts : List Shape} (hi : List.Forall₂ Shape.HasForm ins fi)
    (ht : List.Forall₂ Shape.HasForm tgts ft) {n : Node} (hop : n.op = op)
    (hn : n.outputs.length = fo.length) {outs : List Shape}
    (ho : Graph.nodeShapes n ins tgts = .ok outs) : List.Forall₂ Shape.HasForm outs fo := by
  unfold Graph.nodeShapes at ho
  rw [hop] at ho
  cases h with
  | @ufunc f loop _ resolved =>
    cases ht
    obtain ⟨s, hs, ho⟩ := except_bind_eq_ok.mp ho
    cases ho
    rw [hn, List.length_map]
    apply forall₂_of_getElem?
    · rw [List.length_replicate, List.length_map]
    · intro k x form hk hform
      obtain ⟨d, -, rfl⟩ := List.mem_map.mp (List.mem_of_getElem? hform)
      rw [List.eq_of_mem_replicate (List.mem_of_getElem? hk)]
      exact hasForm_of_broadcastAll hi hs d
  | @ufuncOut f loop _ _ resolved count arrays =>
    dsimp only at ho
    split at ho
    · next hempty =>
      obtain rfl : tgts = [] := List.isEmpty_iff.mp hempty
      cases ht
      obtain ⟨s, -, ho⟩ := except_bind_eq_ok.mp ho
      cases ho
      rw [hn]
      exact .nil
    · obtain ⟨s, -, ho⟩ := except_bind_eq_ok.mp ho
      cases ho
      exact ht
  | @cast d input =>
    cases hi with
    | cons hform hnil =>
      cases hnil
      cases ho
      exact .cons ⟨hform.ndim, hform.scalar⟩ .nil
  | @reduce red axis input ndim reduced =>
    cases hi with
    | @cons s _ _ _ hform hnil =>
      cases hnil
      change (red.reducedShape s axis >>= fun out => pure [out]) = _ at ho
      obtain ⟨out, hout, ho⟩ := except_bind_eq_ok.mp ho
      cases ho
      rw [← hform.ndim] at reduced
      exact .cons ⟨ndim_reduced hout reduced, fun h => absurd rfl h⟩ .nil
  | @assign region source target array =>
    cases hi with
    | @cons s _ _ _ _ hnil =>
      cases hnil
      cases ht with
      | @cons t _ _ _ hform hnil =>
        cases hnil
        change (region.checkSource s t >>= fun _ => pure [t]) = _ at ho
        obtain ⟨inner, -, ho⟩ := except_bind_eq_ok.mp ho
        cases ho
        exact .cons hform .nil

/-! ### In-place operations -/

/-- Targets are arrays. -/
theorem Typed.arrays {op : Op} {fi ft fo : List Form} (h : op.Typed fi ft fo) :
    ∀ f ∈ ft, f.kind = .array := by
  cases h with
  | ufuncOut resolved count arrays => exact arrays
  | assign array => simpa using array
  | ufunc _ | cast | reduce _ => simp

theorem Typed.kind_ne_absent {op : Op} {fi ft fo : List Form} (h : op.Typed fi ft fo)
    (hi : ∀ f ∈ fi, f.kind ≠ .absent) : ∀ f ∈ fo, f.kind ≠ .absent := by
  intro f hf
  cases h with
  | ufunc resolved =>
    obtain ⟨d, -, rfl⟩ := List.mem_map.mp hf
    show Form.commonKind fi ≠ .absent
    unfold Form.commonKind
    split <;> simp
  | ufuncOut resolved count arrays =>
    rw [arrays f hf]
    simp
  | @cast d input =>
    rw [List.mem_singleton.mp hf]
    exact hi input List.mem_cons_self
  | reduce reduced =>
    rw [List.mem_singleton.mp hf]
    simp
  | assign array =>
    rw [List.mem_singleton.mp hf, array]
    simp

/-- An operation has no targets, or one output of the same form for each. -/
theorem Typed.targets_cases {op : Op} {fi ft fo : List Form} (h : op.Typed fi ft fo) :
    ft = [] ∨ fo = ft := by
  cases h with
  | ufuncOut resolved count arrays => exact .inr rfl
  | assign array => exact .inr rfl
  | ufunc _ | cast | reduce _ => exact .inl rfl

/-- An in-place operation keeps dtypes and shapes of its targets. -/
theorem Typed.update_outcome {op : Op} {fi ft fo : List Form} (h : op.Typed fi ft fo) (hne : ft ≠ [])
    {ins tgts : List Tensor} (hi : List.Forall₂ HasForm ins fi) (ht : List.Forall₂ HasForm tgts ft)
    {outs : List Tensor} (ho : op.outcome ins tgts = .ok outs) :
    List.Forall₂ Alike outs tgts := by
  have hlen := (h.forms_outcome hi ht ho).length_eq
  have hsized := sized_of_hasForm hi
  have hne' : tgts ≠ [] := by
    rintro rfl
    cases ht
    exact hne rfl
  cases h with
  | @ufuncOut f loop _ _ resolved count arrays =>
    obtain ⟨s, hs⟩ := outputShape_of_outcome hne' ho
    apply forall₂_of_getElem? (hlen.trans ht.length_eq.symm)
    intro k new old hnew hold
    obtain ⟨old', hold', -, hdt, hsh, -⟩ := getElem?_outcome_ufuncOut hsized hne' hs ho hnew
    obtain rfl : old' = old := Option.some.inj (hold'.symm.trans hold)
    exact ⟨hdt, hsh⟩
  | @assign region source target array =>
    cases hi with
    | @cons x _ _ _ hx hnil =>
      cases hnil
      cases ht with
      | @cons y _ _ _ hy hnil =>
        cases hnil
        obtain ⟨inner, -, -, rfl⟩ := assign_outcome hx.sized hy.sized ho
        exact .cons ⟨rfl, rfl⟩ .nil
  | ufunc _ | cast | reduce _ => exact absurd rfl hne

/-- New elements for some targets, by dtypes and shapes of these. -/
theorem map_zip_columns {tgts tgts' : List Tensor}
    (h : List.Forall₂ Alike tgts tgts')
    (columns : List (List Elem)) :
    ((tgts.zip columns).map fun p =>
        (⟨p.1.dtype, p.1.shape, p.2.map (·.cast p.1.dtype)⟩ : Tensor)) =
      (tgts'.zip columns).map fun p => ⟨p.1.dtype, p.1.shape, p.2.map (·.cast p.1.dtype)⟩ := by
  induction h generalizing columns with
  | nil => rfl
  | cons h _ ih =>
    cases columns with
    | nil => rfl
    | cons column columns =>
      rw [List.zip_cons_cons, List.zip_cons_cons, List.map_cons, List.map_cons, ih, h.1, h.2]

/-- A whole assignment replaces every element, whatever it was. -/
theorem assigned_full_congr {source t t' : Tensor} (hs : source.Sized) (ht : t.Sized)
    (ht' : t'.Sized) (hdtype : t.dtype = t'.dtype) (hshape : t.shape = t'.shape) :
    assigned .full source t = assigned .full source t' := by
  rcases e : Region.full.checkSource source.shape t.shape with err | inner
  · rw [assigned, assigned, ← hshape, e]
    rfl
  · rw [assigned_eq_ok hs ht e, assigned_eq_ok hs ht' (hshape ▸ e), hshape]
    refine congrArg Except.ok (List.map_congr_left fun own _ => ?_)
    simp only [assignedAt, Region.sourceIndex?, hdtype]

/-- Of its targets an operation looks at dtype and shape only, unless it keeps
some of their rows. -/
theorem outcome_congr {op : Op} {ins tgts tgts' : List Tensor} (hs : ∀ t ∈ ins, t.Sized)
    (ht : ∀ t ∈ tgts, t.Sized) (ht' : ∀ t ∈ tgts', t.Sized)
    (h : List.Forall₂ Alike tgts tgts')
    (hrows : ∀ start stop, op = .assign (.rows start stop) → tgts = tgts') :
    op.outcome ins tgts = op.outcome ins tgts' := by
  cases op with
  | cast d => rfl
  | reduce red axis => rfl
  | ufunc f loop =>
    have hempty : tgts.isEmpty = tgts'.isEmpty := by
      cases h <;> rfl
    simp only [outcome, hempty, Tensor.map_shape_of_alike h, map_zip_columns h]
  | assign region =>
    cases region with
    | rows start stop => rw [hrows start stop rfl]
    | full =>
      cases h with
      | nil => rfl
      | cons h _ =>
        cases ins with
        | nil => rfl
        | cons source _ =>
          simp only [outcome, h.1, h.2, assigned_full_congr (hs _ List.mem_cons_self)
            (ht _ List.mem_cons_self) (ht' _ List.mem_cons_self) h.1 h.2]

/-! ### Elements of the outputs -/

/-- All outputs of an elementwise function have one shape that the inputs
broadcast into, and the elements that the function makes of theirs. -/
theorem ufunc_outcome {f : Ufunc} {loop : Loop} {ins tgts outs : List Tensor}
    (hsized : ∀ t ∈ ins, t.Sized) (ho : (Op.ufunc f loop).outcome ins tgts = .ok outs) :
    ∃ s, (∀ t ∈ ins, t.shape.BroadcastsInto s) ∧
      ∀ (k : Nat) (t : Tensor), outs[k]? = some t → k < 2 ∧ t.shape = s ∧
        ∀ index, s.InRange index →
          t.get index = (Ufunc.pick k (Tensor.rowAt f loop ins index)).cast t.dtype := by
  by_cases hne : tgts = []
  · subst hne
    obtain ⟨s, hs⟩ := broadcastAll_of_outcome ho
    refine ⟨s, fun t ht =>
      Shape.broadcastsInto_of_broadcastAll hs _ (List.mem_map_of_mem ht), ?_⟩
    intro k t hk
    obtain ⟨hk2, hd, rfl, hdata⟩ := getElem?_outcome_ufunc hsized hs ho hk
    refine ⟨hk2, rfl, ?_⟩
    intro index hindex
    rw [Tensor.get_of_data hdata hindex]
    exact (Ufunc.canonical_apply hk2 hd _).symm
  · obtain ⟨s, hs⟩ := outputShape_of_outcome hne ho
    refine ⟨s, fun t ht => (Shape.outputShape_eq_ok hs).1 _ (List.mem_map_of_mem ht), ?_⟩
    intro k t hk
    obtain ⟨old, -, hk2, -, -, rfl, hdata⟩ := getElem?_outcome_ufuncOut hsized hne hs ho hk
    exact ⟨hk2, rfl, fun index hindex => Tensor.get_of_data hdata hindex⟩

theorem get_cast {d : DType} {x : Tensor} (hx : x.Sized) {index : List Nat}
    (hi : x.shape.InRange index) :
    (Tensor.mk d x.shape (x.data.map (·.cast d))).get index = (x.get index).cast d := by
  have hdata : x.data.map (·.cast d) = x.shape.indices.map fun i => (x.get i).cast d := by
    rw [← Tensor.map_get_indices hx, List.map_map]
    rfl
  exact Tensor.get_of_data (t := ⟨d, x.shape, x.data.map (·.cast d)⟩) hdata hi

end Op

end ArrayFusion
