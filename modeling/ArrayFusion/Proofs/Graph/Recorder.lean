/-
ArrayFusion/Proofs/Graph/Recorder.lean

What a recorder can have become.

Design.  Whatever a body does, its recorder takes four kinds of steps: it
declares a parameter, adds a constant, adds a node whose outputs get new
variables (`produce`), or adds a node whose outputs replace the values of
existing variables (`update`).  Every operation is a static check followed by
one such step (`ufunc_eq`, `ufuncOut_eq`, ...), and `Reached` is closed under
the steps, so facts about recordings are inductions with four cases.

Main result: every body takes a recorder that was reached to one that was
reached, and keeps the forms of its handles (`preserves_reached`).
-/
import ArrayFusion.Fused.Bundle
import ArrayFusion.Proofs.Body
import ArrayFusion.Proofs.Graph.Sweep

namespace ArrayFusion.Recorder

/-! ### Variables -/

/-- Current value of a variable. -/
def valueOf (r : Recorder) (x : Nat) : ValueId :=
  r.vars.getD x 0

/-- The form of a variable's value. -/
def formOf (r : Recorder) (x : Nat) : Form :=
  r.tape.formOf (r.valueOf x)

theorem valueOf_of_getElem? {r : Recorder} {x : Nat} {v : ValueId} (h : r.vars[x]? = some v) :
    r.valueOf x = v := by
  rw [valueOf, List.getD, h, Option.getD_some]

theorem getElem?_vars {r : Recorder} {x : Nat} (h : x < r.vars.length) :
    r.vars[x]? = some (r.valueOf x) := by
  rw [valueOf, List.getD, List.getElem?_eq_getElem h, Option.getD_some]

/-! ### Steps -/

/-- Adds a node whose outputs get new variables. -/
def produce (r : Recorder) (op : Op) (inputs : List Nat) (forms : List Form) : Recorder :=
  ⟨(r.tape.node op (inputs.map r.valueOf) [] forms).2, r.vars ++ r.tape.nextIds forms.length,
    r.paramVars⟩

/-- Adds a node whose outputs become the values of the target variables. -/
def update (r : Recorder) (op : Op) (inputs targets : List Nat) : Recorder :=
  ⟨(r.tape.node op (inputs.map r.valueOf) (targets.map r.valueOf) (targets.map r.formOf)).2,
    putAll r.vars (targets.zip (r.tape.nextIds targets.length)), r.paramVars⟩

/-- Handles on new variables. -/
def handles (start : Nat) (forms : List Form) : List Handle :=
  forms.mapIdx fun k form => ⟨form, start + k⟩

theorem getElem?_handles {start : Nat} {forms : List Form} {k : Nat} {h : Handle} :
    (handles start forms)[k]? = some h ↔ ∃ form, forms[k]? = some form ∧ h = ⟨form, start + k⟩ := by
  rw [handles, List.getElem?_mapIdx, Option.map_eq_some_iff]
  constructor
  · rintro ⟨form, hf, rfl⟩
    exact ⟨form, hf, rfl⟩
  · rintro ⟨form, hf, rfl⟩
    exact ⟨form, hf, rfl⟩

theorem handles_cons (start : Nat) (form : Form) (forms : List Form) :
    handles start (form :: forms) = ⟨form, start⟩ :: handles (start + 1) forms := by
  have hshift : (fun k form => (⟨form, start + (k + 1)⟩ : Handle)) =
      fun k form => ⟨form, start + 1 + k⟩ := by
    funext k form
    rw [Nat.add_assoc start 1 k, Nat.add_comm 1 k]
  rw [handles, List.mapIdx_cons, handles, hshift]
  rfl

theorem wrapAll_eq {values : List ValueId} {forms : List Form}
    (h : values.length = forms.length) (r : Recorder) :
    wrapAll values forms r =
      (.ok (handles r.vars.length forms), { r with vars := r.vars ++ values }) := by
  induction forms generalizing values r with
  | nil =>
    obtain rfl := List.length_eq_zero_iff.mp h
    simp [wrapAll, handles]
  | cons form forms ih =>
    obtain ⟨v, values, rfl⟩ := List.exists_cons_of_length_eq_add_one h
    have hih := ih (by simpa using h) { r with vars := r.vars ++ [v] }
    unfold wrapAll at hih ⊢
    rw [List.zip_cons_cons, List.mapM_cons, Exec.bind_apply]
    simp only [wrap, Exec.bind_apply] at hih ⊢
    rw [hih]
    simp [handles_cons]

theorem rebindAll_eq (pairs : List (Handle × ValueId)) (r : Recorder) :
    rebindAll pairs r =
      (.ok (), { r with vars := putAll r.vars (pairs.map fun p => (p.1.var, p.2)) }) := by
  induction pairs generalizing r with
  | nil => rfl
  | cons p pairs ih =>
    rw [rebindAll, Exec.bind_apply]
    simp only [rebind, ih, List.map_cons, putAll_cons]

/-! ### Operations as checks and steps -/

/-- Recording a node for new variables. -/
theorem record_wrapAll (op : Op) (inputs : List Handle) (forms : List Form) (r : Recorder) :
    (record op inputs [] forms >>= fun ids => wrapAll ids forms) r =
      (.ok (handles r.vars.length forms), r.produce op (inputs.map Handle.var) forms) := by
  simp only [Exec.bind_apply, record, List.map_nil]
  rw [wrapAll_eq (by simp [Tape.fst_node])]
  simp only [produce, List.map_map]
  rfl

theorem ufunc_eq (f : Ufunc) (inputs : List Handle) (r : Recorder) :
    ufunc f inputs r =
      match f.resolve (inputs.map operandType) with
      | .error e => (.error e, r)
      | .ok loop =>
        let forms := loop.outputs.map fun d => (⟨d, maxNdim inputs, commonKind inputs⟩ : Form)
        (.ok (handles r.vars.length forms),
          r.produce (.ufunc f loop) (inputs.map Handle.var) forms) := by
  rw [ufunc, Exec.bind_apply, Exec.lift_apply]
  rcases f.resolve (inputs.map operandType) with e | loop
  · rfl
  · exact record_wrapAll (.ufunc f loop) inputs _ r

/-- A node with one output for a new variable. -/
theorem record_firstOf (op : Op) (value : Handle) (form : Form) (r : Recorder) :
    (do
      let ids ← record op [value] [] [form]
      Exec.lift (firstOf (← wrapAll ids [form]))) r =
      (.ok ⟨form, r.vars.length⟩, r.produce op [value.var] [form]) := by
  have h := record_wrapAll op [value] [form] r
  rw [← bind_assoc, Exec.bind_apply, h]
  rfl

theorem reduce_eq (op : Reduction) (value : Handle) (axis : Option Nat) (r : Recorder) :
    reduce op value axis r =
      match reducedNdim value.ndim axis with
      | .error e => (.error e, r)
      | .ok ndim =>
        let form : Form := ⟨op.outputDType value.dtype, ndim, .array⟩
        (.ok ⟨form, r.vars.length⟩, r.produce (.reduce op axis) [value.var] [form]) := by
  rw [reduce, Exec.bind_apply, Exec.lift_apply]
  rcases reducedNdim value.ndim axis with e | ndim
  · rfl
  · exact record_firstOf _ value _ r

theorem astype_eq (value : Handle) (d : DType) (r : Recorder) :
    astype value d r =
      (.ok ⟨⟨d, value.ndim, value.kind⟩, r.vars.length⟩,
        r.produce (.cast d) [value.var] [⟨d, value.ndim, value.kind⟩]) :=
  record_firstOf _ value _ r

/-- A handle that agrees with its variable. -/
def Valid (r : Recorder) (h : Handle) : Prop :=
  h.var < r.vars.length ∧ r.formOf h.var = h.toForm

theorem map_formOf {r : Recorder} {hs : List Handle} (h : ∀ x ∈ hs, r.Valid x) :
    (hs.map Handle.var).map r.formOf = hs.map Handle.toForm := by
  rw [List.map_map]
  exact List.map_congr_left fun x hx => (h x hx).2

/-- Recording a node that updates variables. -/
theorem record_rebindAll {op : Op} {inputs targets : List Handle} {r : Recorder}
    (h : ∀ x ∈ targets, r.Valid x) :
    (do
      let ids ← record op inputs targets (targets.map Handle.toForm)
      rebindAll (targets.zip ids)) r =
      (.ok (), r.update op (inputs.map Handle.var) (targets.map Handle.var)) := by
  simp only [Exec.bind_apply, record, rebindAll_eq]
  simp only [update, List.map_map, List.length_map]
  have hforms : targets.map (r.formOf ∘ Handle.var) = targets.map Handle.toForm :=
    List.map_congr_left fun x hx => (h x hx).2
  rw [hforms]
  congr 2
  rw [Tape.fst_node, List.length_map, List.zip_map_left]
  rfl

/-- Outputs that are arrays have the forms that are recorded for them. -/
theorem forms_of_checkOutputs {f : Ufunc} {ops : List OperandType} {loop : Loop}
    (hres : f.resolve ops = .ok loop) {outs : List Handle}
    (h : f.checkOutputs loop (outs.map fun o => if o.kind = .array then some o.dtype else none) =
      .ok ()) :
    outs.length = loop.outputs.length ∧ (∀ o ∈ outs, o.kind = .array) ∧
      (outs.map fun o => (⟨o.dtype, o.ndim, .array⟩ : Form)) = outs.map Handle.toForm := by
  obtain ⟨hlen, hall⟩ := Ufunc.checkOutputs_eq_ok (Ufunc.outputs_of_resolve hres) h
  have hkind : ∀ o ∈ outs, o.kind = .array := by
    intro o ho
    by_contra hk
    have := hall _ (List.mem_map_of_mem ho)
    rw [if_neg hk] at this
    cases this
  refine ⟨by simpa using hlen, hkind, ?_⟩
  apply List.map_congr_left
  intro o ho
  rw [← hkind o ho]

theorem ufuncOut_eq (f : Ufunc) (inputs : List Handle) {outs : List Handle} {r : Recorder}
    (h : ∀ x ∈ outs, r.Valid x) :
    ufuncOut f inputs outs r =
      match f.resolve (inputs.map operandType) with
      | .error e => (.error e, r)
      | .ok loop =>
        match f.checkOutputs loop
            (outs.map fun o => if o.kind = .array then some o.dtype else none) with
        | .error e => (.error e, r)
        | .ok _ => (.ok outs,
            r.update (.ufunc f loop) (inputs.map Handle.var) (outs.map Handle.var)) := by
  rw [ufuncOut, Exec.bind_apply, Exec.lift_apply]
  rcases hres : f.resolve (inputs.map operandType) with e | loop
  · rfl
  · dsimp only
    rw [Exec.bind_apply, Exec.lift_apply]
    rcases hout : f.checkOutputs loop
        (outs.map fun o => if o.kind = .array then some o.dtype else none) with e | u
    · simp only [hout]
    · obtain ⟨-, -, hforms⟩ := forms_of_checkOutputs hres hout
      simp only [hout]
      rw [hforms, ← bind_assoc, Exec.bind_apply, record_rebindAll h]
      rfl

theorem kind_of_checkTarget {target : Handle} {region : Region}
    (h : checkTarget target region = .ok ()) : target.kind = .array := by
  unfold checkTarget at h
  split at h
  · next hk => exact hk
  · cases h

theorem assign_eq {target : Handle} (source : Handle) (region : Region) {r : Recorder}
    (h : r.Valid target) :
    assign target source region r =
      match checkTarget target region with
      | .error e => (.error e, r)
      | .ok _ => (.ok (), r.update (.assign region) [source.var] [target.var]) := by
  rw [assign, Exec.bind_apply, Exec.lift_apply]
  rcases hc : checkTarget target region with e | u
  · rfl
  · have hform : (⟨target.dtype, target.ndim, .array⟩ : Form) = target.toForm := by
      rw [← kind_of_checkTarget hc]
    dsimp only
    rw [hform]
    have hvalid : ∀ x ∈ [target], r.Valid x := by simpa using h
    have hstep : (record (.assign region) [source] [target] [target.toForm] >>= fun ids =>
        rebindAll ([target].zip ids)) r = _ := record_rebindAll hvalid
    exact hstep

/-- Adds a constant with a new variable. -/
def addScalar (r : Recorder) (c : Scalar) : Recorder :=
  ⟨(r.tape.constant c).2, r.vars ++ [r.tape.values.length], r.paramVars⟩

theorem scalar_eq (c : Scalar) (r : Recorder) :
    scalar c r = (.ok ⟨⟨c.dtype, 0, .scalar⟩, r.vars.length⟩, r.addScalar c) := rfl

/-- Declares a parameter without a value. -/
def addAbsent (r : Recorder) (kind : ArgKind) (dtype : Option DType) (ndim : Nat) : Recorder :=
  ⟨{ r.tape with params := r.tape.params ++ [⟨kind, dtype, ndim, none⟩] }, r.vars,
    r.paramVars ++ [none]⟩

/-- Declares a parameter with a new variable for its initial value. -/
def addParam (r : Recorder) (form : Form) : Recorder :=
  ⟨r.tape.addParam form, r.vars ++ [r.tape.values.length], r.paramVars ++ [some r.vars.length]⟩

theorem getElem?_vars_addParam {r : Recorder} {x : Nat} (h : x < r.vars.length) (form : Form) :
    (r.addParam form).vars[x]? = some (r.valueOf x) := by
  rw [addParam, List.getElem?_append_left h, getElem?_vars h]

theorem valueOf_addParam {r : Recorder} {x : Nat} (h : x < r.vars.length) (form : Form) :
    (r.addParam form).valueOf x = r.valueOf x :=
  valueOf_of_getElem? (getElem?_vars_addParam h form)

theorem valueOf_addParam_new (r : Recorder) (form : Form) :
    (r.addParam form).valueOf r.vars.length = r.tape.values.length :=
  valueOf_of_getElem? (getElem?_concat_length _ _)

/-- A variable after a declaration is an old one or that of the parameter. -/
theorem lt_or_eq_of_lt_addParam {r : Recorder} {form : Form} {x : Nat}
    (h : x < (r.addParam form).vars.length) : x < r.vars.length ∨ x = r.vars.length := by
  rw [addParam, List.length_append, List.length_singleton] at h
  exact Nat.lt_succ_iff_lt_or_eq.mp h

/-- A declared parameter has no variable, or a new one. -/
theorem param_cases (r : Recorder) (kind : ArgKind) (dtype : Option DType) (ndim : Nat) :
    (param kind dtype ndim r = (.ok none, r.addAbsent kind dtype ndim) ∧
      (kind = .absent ∨ dtype = none)) ∨
    ∃ d, dtype = some d ∧ kind ≠ .absent ∧
      param kind dtype ndim r =
        (.ok (some ⟨⟨d, ndim, kind⟩, r.vars.length⟩), r.addParam ⟨d, ndim, kind⟩) := by
  rcases r.tape.param_cases kind dtype ndim with ⟨h, hk⟩ | ⟨d, rfl, hk, h⟩
  · left
    refine ⟨?_, hk⟩
    unfold param
    rw [h]
    rfl
  · right
    refine ⟨d, rfl, hk, ?_⟩
    unfold param
    rw [h]
    rfl

theorem tape_param (r : Recorder) (kind : ArgKind) (dtype : Option DType) (ndim : Nat) :
    (param kind dtype ndim r).2.tape = (r.tape.param kind dtype ndim).2 := by
  unfold param
  split <;> simp_all

/-! ### Recorders that were reached -/

/-- How a recorder comes about. -/
inductive Reached : Recorder → Prop
  | empty : Reached .empty
  | param {r : Recorder} (kind : ArgKind) (dtype : Option DType) (ndim : Nat) (before : Reached r) :
      Reached (param kind dtype ndim r).2
  | scalar {r : Recorder} (c : Scalar) (before : Reached r) : Reached (r.addScalar c)
  | produce {r : Recorder} {op : Op} {inputs : List Nat} {forms : List Form} (before : Reached r)
      (known : ∀ x ∈ inputs, x < r.vars.length)
      (typed : op.Typed (inputs.map r.formOf) [] forms) : Reached (r.produce op inputs forms)
  | update {r : Recorder} {op : Op} {inputs targets : List Nat} (before : Reached r)
      (known : ∀ x ∈ inputs ++ targets, x < r.vars.length)
      (typed : op.Typed (inputs.map r.formOf) (targets.map r.formOf) (targets.map r.formOf)) :
      Reached (r.update op inputs targets)

theorem valueOf_mem {r : Recorder} {x : Nat} (h : x < r.vars.length) : r.valueOf x ∈ r.vars :=
  List.mem_of_getElem? (getElem?_vars h)

theorem map_valueOf_lt {r : Recorder} {xs : List Nat} (h : ∀ x ∈ xs, x < r.vars.length)
    (hv : ∀ v ∈ r.vars, v < r.tape.values.length) :
    ∀ v ∈ xs.map r.valueOf, v < r.tape.values.length := by
  intro v hmem
  obtain ⟨x, hx, rfl⟩ := List.mem_map.mp hmem
  exact hv _ (valueOf_mem (h x hx))

/-- A variable after an update holds its old value or an output. -/
theorem mem_vars_update {r : Recorder} {op : Op} {inputs targets : List Nat} {x : Nat} {v : ValueId}
    (h : (r.update op inputs targets).vars[x]? = some v) :
    r.vars[x]? = some v ∨
      ∃ k, targets[k]? = some x ∧ v = r.tape.values.length + k := by
  rcases getElem?_putAll_cases h with hold | hnew
  · exact .inl hold
  · obtain ⟨k, hk⟩ := List.getElem?_of_mem hnew
    obtain ⟨hx, hv⟩ := List.getElem?_zip_eq_some.mp hk
    exact .inr ⟨k, hx, (Tape.getElem?_nextIds_eq_some.mp hv).2⟩

/-- A variable for one more value. -/
theorem forall_lt_concat {vars : List ValueId} {values : List GraphValue}
    (h : ∀ v ∈ vars, v < values.length) (info : GraphValue) :
    ∀ v ∈ vars ++ [values.length], v < (values ++ [info]).length := by
  intro v hv
  rw [List.length_append, List.length_singleton]
  rcases List.mem_append.mp hv with hv | hv
  · exact Nat.lt_succ_of_lt (h v hv)
  · rw [List.mem_singleton.mp hv]
    exact Nat.lt_succ_self _

/-- Tapes of recorders are recorded, and variables hold values of the
tape. -/
theorem Reached.sound {r : Recorder} (h : Reached r) :
    r.tape.Recorded ∧ ∀ v ∈ r.vars, v < r.tape.values.length := by
  induction h with
  | empty => exact ⟨.empty, by simp [Recorder.empty]⟩
  | @param r kind dtype ndim _ ih =>
    obtain ⟨hrec, hlt⟩ := ih
    refine ⟨tape_param r kind dtype ndim ▸ .param kind dtype ndim hrec, ?_⟩
    rcases r.param_cases kind dtype ndim with ⟨h, -⟩ | ⟨d, -, -, h⟩
    · rw [h]
      exact hlt
    · rw [h]
      exact forall_lt_concat hlt _
  | @scalar r c _ ih =>
    obtain ⟨hrec, hlt⟩ := ih
    exact ⟨.constant c hrec, forall_lt_concat hlt _⟩
  | @produce r op inputs forms _ known typed ih =>
    obtain ⟨hrec, hlt⟩ := ih
    refine ⟨.node hrec (by simpa using map_valueOf_lt known hlt) ?_, ?_⟩
    · rw [List.map_map]
      exact typed
    · intro v hv
      show v < (r.tape.values ++ r.tape.infos forms).length
      rw [List.length_append, Tape.length_infos]
      rcases List.mem_append.mp hv with hv | hv
      · exact Nat.lt_add_right _ (hlt v hv)
      · obtain ⟨k, hk, rfl⟩ := Tape.mem_nextIds.mp hv
        exact Nat.add_lt_add_left hk _
  | @update r op inputs targets _ known typed ih =>
    obtain ⟨hrec, hlt⟩ := ih
    refine ⟨.node hrec ?_ ?_, ?_⟩
    · rw [← List.map_append]
      exact map_valueOf_lt known hlt
    · rw [List.map_map, List.map_map]
      exact typed
    · intro v hv
      obtain ⟨x, hx⟩ := List.getElem?_of_mem hv
      show v < (r.tape.values ++ r.tape.infos (targets.map r.formOf)).length
      rw [List.length_append, Tape.length_infos, List.length_map]
      rcases mem_vars_update hx with hx | ⟨k, hk, rfl⟩
      · exact Nat.lt_add_right _ (hlt v (List.mem_of_getElem? hx))
      · exact Nat.add_lt_add_left (List.getElem?_eq_some_iff.mp hk).1 _

theorem Reached.recorded {r : Recorder} (h : Reached r) : r.tape.Recorded :=
  h.sound.1

theorem Reached.valueOf_lt {r : Recorder} (h : Reached r) {x : Nat} (hx : x < r.vars.length) :
    r.valueOf x < r.tape.values.length :=
  h.sound.2 _ (valueOf_mem hx)

/-! ### Growth -/

/-- What the body of a recorder never takes back. -/
structure Grows (r s : Recorder) : Prop where
  tape : r.tape.Extends s.tape
  params : s.tape.params = r.tape.params
  paramVars : s.paramVars = r.paramVars
  vars : r.vars.length ≤ s.vars.length
  forms : ∀ x, x < r.vars.length → s.formOf x = r.formOf x

theorem Grows.refl (r : Recorder) : r.Grows r :=
  ⟨.refl _, rfl, rfl, Nat.le_refl _, fun _ _ => rfl⟩

theorem Grows.trans {r s t : Recorder} (h : r.Grows s) (h' : s.Grows t) : r.Grows t :=
  ⟨h.tape.trans h'.tape, h'.params.trans h.params, h'.paramVars.trans h.paramVars,
    Nat.le_trans h.vars h'.vars, fun x hx =>
      (h'.forms x (Nat.lt_of_lt_of_le hx h.vars)).trans (h.forms x hx)⟩

theorem Valid.mono {r s : Recorder} (h : r.Grows s) {x : Handle} (hx : r.Valid x) : s.Valid x :=
  ⟨Nat.lt_of_lt_of_le hx.1 h.vars, (h.forms _ hx.1).trans hx.2⟩

/-- A variable that keeps its value keeps its form. -/
theorem formOf_of_getElem? {r s : Recorder} (hr : Reached r) (ht : r.tape.Extends s.tape) {x : Nat}
    (hx : x < r.vars.length) (hs : s.vars[x]? = some (r.valueOf x)) : s.formOf x = r.formOf x := by
  rw [formOf, valueOf_of_getElem? hs, ht.formOf (hr.valueOf_lt hx), formOf]

/-- New variables behind the old ones leave these alone. -/
theorem grows_of_append {r s : Recorder} (hr : Reached r) (ht : r.tape.Extends s.tape)
    (hp : s.tape.params = r.tape.params) (hpv : s.paramVars = r.paramVars) {extra : List ValueId}
    (hv : s.vars = r.vars ++ extra) : r.Grows s := by
  refine ⟨ht, hp, hpv, ?_, ?_⟩
  · rw [hv, List.length_append]
    exact Nat.le_add_right _ _
  · intro x hx
    apply formOf_of_getElem? hr ht hx
    rw [hv, List.getElem?_append_left hx, getElem?_vars hx]

theorem grows_addScalar {r : Recorder} (hr : Reached r) (c : Scalar) : r.Grows (r.addScalar c) :=
  grows_of_append hr (r.tape.extends_constant c) rfl rfl rfl

theorem grows_produce {r : Recorder} (hr : Reached r) (op : Op) (inputs : List Nat)
    (forms : List Form) : r.Grows (r.produce op inputs forms) :=
  grows_of_append hr (r.tape.extends_node _ _ _ _) rfl rfl rfl

theorem length_vars_update (r : Recorder) (op : Op) (inputs targets : List Nat) :
    (r.update op inputs targets).vars.length = r.vars.length :=
  length_putAll _ _

theorem grows_update {r : Recorder} (hr : Reached r) (op : Op) (inputs targets : List Nat) :
    r.Grows (r.update op inputs targets) := by
  have hext : r.tape.Extends (r.update op inputs targets).tape := r.tape.extends_node _ _ _ _
  refine ⟨hext, rfl, rfl, Nat.le_of_eq (length_vars_update r op inputs targets).symm, ?_⟩
  intro x hx
  have hget := getElem?_vars (r := r.update op inputs targets)
    (by rwa [length_vars_update] : x < _)
  rcases mem_vars_update hget with hold | ⟨k, hk, hv⟩
  · apply formOf_of_getElem? hr hext hx
    rw [hget, valueOf_of_getElem? hold]
  · have hform : (targets.map r.formOf)[k]? = some (r.formOf x) := by
      rw [List.getElem?_map, hk, Option.map_some]
    rw [formOf, hv]
    exact Tape.formOf_of_getElem? (Tape.getElem?_values_node_new hform)

/-! ### What the operations preserve -/

theorem maxNdim_eq (hs : List Handle) : maxNdim hs = Form.maxNdim (hs.map Handle.toForm) := by
  rw [Form.maxNdim, List.foldl_map]
  rfl

theorem commonKind_eq (hs : List Handle) :
    commonKind hs = Form.commonKind (hs.map Handle.toForm) := by
  rw [Form.commonKind, List.all_map]
  rfl

theorem var_lt {r : Recorder} {hs : List Handle} (h : ∀ x ∈ hs, r.Valid x) :
    ∀ x ∈ hs.map Handle.var, x < r.vars.length := by
  intro x hx
  obtain ⟨y, hy, rfl⟩ := List.mem_map.mp hx
  exact (h y hy).1

/-- Handles on the outputs of a node are valid. -/
theorem valid_handles {r : Recorder} (op : Op) (inputs : List Nat) (forms : List Form) :
    ∀ x ∈ handles r.vars.length forms, (r.produce op inputs forms).Valid x := by
  intro x hx
  obtain ⟨k, hk⟩ := List.getElem?_of_mem hx
  obtain ⟨form, hform, rfl⟩ := getElem?_handles.mp hk
  have hlt := (List.getElem?_eq_some_iff.mp hform).1
  refine ⟨?_, ?_⟩
  · show _ < (r.vars ++ r.tape.nextIds forms.length).length
    rw [List.length_append, Tape.length_nextIds]
    exact Nat.add_lt_add_left hlt _
  · have hget : (r.produce op inputs forms).vars[r.vars.length + k]? =
        some (r.tape.values.length + k) := by
      show (r.vars ++ r.tape.nextIds forms.length)[_]? = _
      rw [List.getElem?_append_right (Nat.le_add_right _ _), Nat.add_sub_cancel_left,
        Tape.getElem?_nextIds hlt]
    rw [formOf, valueOf_of_getElem? hget]
    exact Tape.formOf_of_getElem? (Tape.getElem?_values_node_new hform)

theorem typed_ufunc {f : Ufunc} {loop : Loop} {inputs : List Handle} {r : Recorder}
    (h : ∀ x ∈ inputs, r.Valid x) (hres : f.resolve (inputs.map operandType) = .ok loop) :
    (Op.ufunc f loop).Typed ((inputs.map Handle.var).map r.formOf) []
      (loop.outputs.map fun d => ⟨d, maxNdim inputs, commonKind inputs⟩) := by
  rw [map_formOf h, maxNdim_eq, commonKind_eq]
  exact .ufunc (by rw [List.map_map]; exact hres)

theorem typed_ufuncOut {f : Ufunc} {loop : Loop} {inputs outs : List Handle} {r : Recorder}
    (h : ∀ x ∈ inputs, r.Valid x) (ho : ∀ x ∈ outs, r.Valid x)
    (hres : f.resolve (inputs.map operandType) = .ok loop)
    (hcheck : f.checkOutputs loop
      (outs.map fun o => if o.kind = .array then some o.dtype else none) = .ok ()) :
    (Op.ufunc f loop).Typed ((inputs.map Handle.var).map r.formOf)
      ((outs.map Handle.var).map r.formOf) ((outs.map Handle.var).map r.formOf) := by
  obtain ⟨hlen, hkind, -⟩ := forms_of_checkOutputs hres hcheck
  rw [map_formOf h, map_formOf ho]
  refine .ufuncOut (by rw [List.map_map]; exact hres) (by rw [List.length_map]; exact hlen) ?_
  intro form hform
  obtain ⟨o, hmem, rfl⟩ := List.mem_map.mp hform
  exact hkind o hmem

section

variable {α : Type} {Q : Recorder → α → Prop} {m : Exec Recorder α} {r s : Recorder}

theorem keeps_of_error {e : Error} (hr : Reached r) (h : m r = (.error e, r)) :
    m.Keeps Reached Grows Q r := by
  unfold Exec.Keeps
  rw [h]
  exact ⟨hr, .refl r, fun a ha => by cases ha⟩

theorem keeps_of_ok {a : α} (hs : Reached s) (hg : r.Grows s) (ha : Q s a)
    (h : m r = (.ok a, s)) : m.Keeps Reached Grows Q r := by
  unfold Exec.Keeps
  rw [h]
  exact ⟨hs, hg, fun b hb => by cases hb; exact ha⟩

end

section

variable {r : Recorder}

theorem keeps_scalar (hr : Reached r) (c : Scalar) : (scalar c).Keeps Reached Grows Valid r := by
  refine keeps_of_ok (.scalar c hr) (grows_addScalar hr c) ⟨?_, ?_⟩ (scalar_eq c r)
  · show r.vars.length < (r.vars ++ [_]).length
    simp
  · rw [formOf, valueOf_of_getElem? (getElem?_concat_length _ _)]
    apply Tape.formOf_concat
    rfl

theorem keeps_ufunc (hr : Reached r) {f : Ufunc} {inputs : List Handle}
    (hi : ∀ x ∈ inputs, r.Valid x) :
    (ufunc f inputs).Keeps Reached Grows (fun t us => ∀ u ∈ us, t.Valid u) r := by
  have heq := ufunc_eq f inputs r
  rcases hres : f.resolve (inputs.map operandType) with e | loop
  · rw [hres] at heq
    exact keeps_of_error hr heq
  · rw [hres] at heq
    exact keeps_of_ok (.produce hr (var_lt hi) (typed_ufunc hi hres)) (grows_produce hr _ _ _)
      (valid_handles _ _ _) heq

theorem keeps_ufuncOut (hr : Reached r) {f : Ufunc} {inputs outs : List Handle}
    (hi : ∀ x ∈ inputs, r.Valid x) (ho : ∀ x ∈ outs, r.Valid x) :
    (ufuncOut f inputs outs).Keeps Reached Grows (fun t us => ∀ u ∈ us, t.Valid u) r := by
  have heq := ufuncOut_eq f inputs ho
  rcases hres : f.resolve (inputs.map operandType) with e | loop
  · rw [hres] at heq
    exact keeps_of_error hr heq
  · rw [hres] at heq
    dsimp only at heq
    rcases hout : f.checkOutputs loop
        (outs.map fun o => if o.kind = .array then some o.dtype else none) with e | u
    · rw [hout] at heq
      exact keeps_of_error hr heq
    · rw [hout] at heq
      have hknown : ∀ x ∈ inputs.map Handle.var ++ outs.map Handle.var, x < r.vars.length := by
        intro x hx
        rcases List.mem_append.mp hx with hx | hx
        · exact var_lt hi x hx
        · exact var_lt ho x hx
      have hg := grows_update hr (.ufunc f loop) (inputs.map Handle.var) (outs.map Handle.var)
      exact keeps_of_ok (.update hr hknown (typed_ufuncOut hi ho hres hout)) hg
        (fun u hu => (ho u hu).mono hg) heq

theorem keeps_reduce (hr : Reached r) {op : Reduction} {value : Handle} {axis : Option Nat}
    (hv : r.Valid value) : (reduce op value axis).Keeps Reached Grows Valid r := by
  have heq := reduce_eq op value axis r
  rcases hn : reducedNdim value.ndim axis with e | ndim
  · rw [hn] at heq
    exact keeps_of_error hr heq
  · rw [hn] at heq
    refine keeps_of_ok (.produce hr (by simpa using hv.1) ?_) (grows_produce hr _ _ _)
      (valid_handles _ _ _ _ List.mem_cons_self) heq
    rw [List.map_singleton, hv.2]
    exact .reduce hn

theorem keeps_astype (hr : Reached r) {value : Handle} {d : DType} (hv : r.Valid value) :
    (astype value d).Keeps Reached Grows Valid r := by
  refine keeps_of_ok (.produce hr (by simpa using hv.1) ?_) (grows_produce hr _ _ _)
    (valid_handles _ _ _ _ List.mem_cons_self) (astype_eq value d r)
  rw [List.map_singleton, hv.2]
  exact .cast

theorem keeps_assign (hr : Reached r) {target source : Handle} {region : Region}
    (ht : r.Valid target) (hs : r.Valid source) :
    (assign target source region).Keeps Reached Grows (fun _ _ => True) r := by
  have heq := assign_eq source region ht
  rcases hc : checkTarget target region with e | u
  · rw [hc] at heq
    exact keeps_of_error hr heq
  · rw [hc] at heq
    refine keeps_of_ok (.update hr (by simpa using ⟨hs.1, ht.1⟩) ?_) (grows_update hr _ _ _)
      trivial heq
    rw [List.map_singleton, List.map_singleton, hs.2, ht.2]
    exact .assign (kind_of_checkTarget hc)

end

/-- Whatever a body records, the recorder stays one that was reached. -/
theorem preserves_reached (tag : String) : (ops tag).Preserves Reached Grows Valid where
  refl := Grows.refl
  trans := Grows.trans
  mono hg hx := hx.mono hg
  scalar c hr := keeps_scalar hr c
  ufunc hr hi := keeps_ufunc hr hi
  ufuncOut hr hi ho := keeps_ufuncOut hr hi ho
  reduce hr hv := keeps_reduce hr hv
  astype hr hv := keeps_astype hr hv
  assign hr ht hs := keeps_assign hr ht hs
  truth hr _ := keeps_of_error hr rfl
  item hr _ := keeps_of_error hr rfl

end ArrayFusion.Recorder
