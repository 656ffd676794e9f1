/-
ArrayFusion/Proofs/Fused/Launch.lean

A launch that fails changes nothing.

Design.  A launch is a preparation that touches no buffer, then the
write-backs, then the returned values (`launch_eq`).  The preparation can fail
in many ways, and does not write.  After it, every returned value is there to
be built: it is an argument, a constant, or the root of some stage, and each
kernel has a result for each of its roots (`build_ok`).

Building takes a result out of the map, so a second attempt on the same value
would fail.  There is none: what has been taken out has been built
(`Taken`), and what has been built is not built again.  So the values are
those that reading the results without taking them out would give
(`buildAll_eq_readAll`).

Main result: `launch_error_unchanged`.
-/
import ArrayFusion.Fused.Launch
import ArrayFusion.Kernel.Probe
import ArrayFusion.Proofs.Fused.Record
import ArrayFusion.Proofs.Graph.Finish
import ArrayFusion.Proofs.Kernel.Stage

namespace ArrayFusion

/-- The kernel of a stage is for the plan it was compiled from, and a launch
of it fails or yields one vector, of any length, per output of the plan. -/
def Backend.OnePerOutput (backend : Backend) : Prop :=
  ∀ name stage g kernel, backend.compile (.ofStage name stage g) = .ok kernel →
    kernel.plan = .ofStage name stage g ∧
    ∀ args columns, kernel.launch args = .ok columns → columns.length = stage.roots.length

/-! ### Backends -/

namespace Host

theorem length_map {lookup : Lookup} {f : Frame} {roots : List ValueId} {m m' : Memory}
    {columns : List (List Elem)} (h : map lookup f roots m = (.ok columns, m')) :
    columns.length = roots.length := by
  obtain ⟨rows, m₁, -, h⟩ := Exec.bind_eq_ok.mp h
  cases h
  simp

/-- A launch yields one vector per root of the stage. -/
theorem length_launch {plan : KernelPlan} {args : KernelInput} {columns : List (List Elem)}
    (h : launch plan args = .ok columns) : columns.length = plan.stage.roots.length := by
  rw [launch, launchWith] at h
  rcases hrun : run Memory.find? plan args (Memory.empty plan.graph.values.length) with ⟨r, m⟩
  rw [hrun] at h
  cases h
  rcases e : plan.stage.kind with - | ⟨n, op, axis⟩
  · simp only [run, e] at hrun
    exact length_map hrun
  · simp only [run, e] at hrun
    obtain ⟨reduced, m₁, -, hmap⟩ := Exec.bind_eq_ok.mp hrun
    exact length_map hmap

theorem compile_eq_ok {plan : KernelPlan} {kernel : Kernel} (h : compile plan = .ok kernel) :
    kernel = ⟨plan, launch plan⟩ := by
  obtain ⟨u, -, h⟩ := except_bind_eq_ok.mp h
  cases h
  rfl

theorem onePerOutput : backend.OnePerOutput := by
  intro name stage g kernel h
  obtain rfl := compile_eq_ok h
  exact ⟨rfl, fun args columns hc => length_launch hc⟩

end Host

/-- A backend that changes what the kernels of the host yield, but not how many
vectors that are. -/
theorem Probe.onePerOutput_through {name : String} {records : Bool}
    {change : KernelPlan → Except Error (List (List Elem)) → Except Error (List (List Elem))}
    (h : ∀ {plan result columns}, change plan result = .ok columns →
      ∃ before, result = .ok before ∧ columns.length = before.length) :
    Backend.OnePerOutput ⟨name, records, through change⟩ := by
  intro name stage g kernel hk
  obtain ⟨inner, hinner, hk⟩ := except_bind_eq_ok.mp hk
  obtain rfl := Host.compile_eq_ok hinner
  cases hk
  refine ⟨rfl, ?_⟩
  intro args columns hc
  obtain ⟨before, hbefore, hlen⟩ := h hc
  exact hlen.trans (Host.length_launch hbefore)

theorem Probe.onePerOutput_short : short.OnePerOutput := by
  apply onePerOutput_through
  intro plan result columns h
  obtain ⟨before, hbefore, rfl⟩ := except_map_eq_ok.mp h
  exact ⟨before, hbefore, List.length_map _⟩

namespace Bundle

open Recorder (Reached)

/-! ### Preparation and write-backs -/

/-- What a launch does before it writes anything: shapes of all values,
results of all kernels, and the writes to be made. -/
def prepare (b : Bundle) (args : List Arg) (store : Store) :
    Except Error (List Shape × List Result × List (NDArray × List Elem)) := do
  let shapes ← b.graph.resolveShapes (args.map Arg.shape)
  b.checkFailure
  checkRaces args b.hazards
  let results ← runKernels b.kernels ⟨args.map fun a => a.elems store, shapes⟩
  let writes ← commits args store results
  return (shapes, results, writes)

/-- What a launch does after the preparation. -/
def deliver (b : Bundle) (args : List Arg) (shapes : List Shape) (results : List Result) :
    Exec Store (Returned Operand) := do
  let values ← buildAll (buildValue b.graph shapes args) args (collect results) [] b.graph.outputs
  return Returned.ofParts b.graph.arity values

theorem launch_eq (b : Bundle) (args : List Arg) (store : Store) :
    b.launch args store =
      match b.prepare args store with
      | .error e => (.error e, store)
      | .ok (shapes, results, writes) => b.deliver args shapes results (commit writes store) := by
  simp only [launch, prepare, Exec.bind_apply, Exec.lift_apply, Exec.get_apply, Exec.set_apply]
  rcases b.graph.resolveShapes (args.map Arg.shape) with e | shapes
  · rfl
  · simp only [except_bind_ok]
    rcases b.checkFailure with e | u
    · rfl
    · simp only [except_bind_ok]
      rcases checkRaces args b.hazards with e | u
      · rfl
      · simp only [except_bind_ok]
        rcases hk : runKernels b.kernels ⟨args.map fun a => a.elems store, shapes⟩ with e | results
        · simp only [hk, except_bind_error]
        · simp only [hk, except_bind_ok]
          rcases commits args store results with e | writes
          · simp only [except_bind_error]
          · simp only [except_bind_ok]
            rfl

/-- What a successful preparation found. -/
theorem prepare_eq_ok {b : Bundle} {args : List Arg} {store : Store} {shapes : List Shape}
    {results : List Result} {writes : List (NDArray × List Elem)} :
    b.prepare args store = .ok (shapes, results, writes) ↔
      b.graph.resolveShapes (args.map Arg.shape) = .ok shapes ∧ b.checkFailure = .ok () ∧
      checkRaces args b.hazards = .ok () ∧
      runKernels b.kernels ⟨args.map fun a => a.elems store, shapes⟩ = .ok results ∧
      commits args store results = .ok writes := by
  constructor
  · intro h
    obtain ⟨shapes', hshapes, h⟩ := except_bind_eq_ok.mp h
    obtain ⟨u, hfailure, h⟩ := except_bind_eq_ok.mp h
    obtain ⟨u', hraces, h⟩ := except_bind_eq_ok.mp h
    obtain ⟨results', hrun, h⟩ := except_bind_eq_ok.mp h
    obtain ⟨writes', hwrites, h⟩ := except_bind_eq_ok.mp h
    cases h
    exact ⟨hshapes, hfailure, hraces, hrun, hwrites⟩
  · rintro ⟨hshapes, hfailure, hraces, hrun, hwrites⟩
    simp only [prepare, hshapes, hfailure, hraces, hrun, hwrites, except_bind_ok]
    rfl

/-! ### Results -/

/-- Every output of every kernel has a result. -/
theorem exists_result {kernels : List Kernel} {input : KernelInput} {results : List Result}
    (h : runKernels kernels input = .ok results) {k : Kernel} (hk : k ∈ kernels)
    (hcount : ∀ columns, k.launch input = .ok columns → columns.length = k.plan.outputs.length)
    {o : OutputPlan} (ho : o ∈ k.plan.outputs) : ∃ data, (o, data) ∈ results := by
  obtain ⟨rows, hrows, h⟩ := except_bind_eq_ok.mp h
  cases h
  obtain ⟨row, hmem, hrow⟩ := forall₂_mem_left (mapM_eq_ok_iff.mp hrows) hk
  obtain ⟨columns, hlaunch, hrow⟩ := except_bind_eq_ok.mp hrow
  cases hrow
  obtain ⟨i, hi⟩ := List.getElem?_of_mem ho
  have hlt : i < columns.length := by
    rw [hcount columns hlaunch]
    exact (List.getElem?_eq_some_iff.mp hi).1
  refine ⟨columns[i], List.mem_flatten.mpr ⟨_, hmem, ?_⟩⟩
  exact List.mem_of_getElem? (List.getElem?_zip_eq_some.mpr ⟨hi, List.getElem?_eq_getElem hlt⟩)

theorem lookup_collect {results : List Result} {v : ValueId} {data : List Elem}
    (h : (collect results).lookup v = some data) :
    ∃ res ∈ results, res.1.value = v ∧ res.2 = data := by
  obtain ⟨before, after, heq, -⟩ := List.lookup_eq_some_iff.mp h
  have hmem : (v, data) ∈ collect results := by simp [heq]
  obtain ⟨res, hres, hp⟩ := List.mem_map.mp (List.mem_reverse.mp hmem)
  cases hp
  exact ⟨res, hres, rfl, rfl⟩

theorem exists_lookup_collect {results : List Result} {res : Result} (h : res ∈ results) :
    ∃ data, (collect results).lookup res.1.value = some data := by
  rcases hfound : (collect results).lookup res.1.value with - | data
  · have hmem : (res.1.value, res.2) ∈ collect results :=
      List.mem_reverse.mpr (List.mem_map.mpr ⟨res, h, rfl⟩)
    have := List.lookup_eq_none_iff.mp hfound _ hmem
    simp at this
  · exact ⟨data, rfl⟩

/-- The results by value keep every result. -/
def Consistent (results : List Result) : Prop :=
  ∀ res ∈ results, (collect results).lookup res.1.value = some res.2

/-- The result written back for a value is the one that is found. -/
theorem pendingWrites_eq {results : List Result} (h : Consistent results) (args : List Arg) :
    pendingWrites args results =
      results.filterMap fun res => (target? args res).map fun t => (t, res.2) := by
  apply List.filterMap_congr
  intro res hres
  rw [h res hres]
  cases target? args res <;> rfl

/-- The kernels of a graph compute all its roots. -/
theorem root_ok {g : Graph} {backend : Backend} (hb : backend.OnePerOutput) {b : Bundle}
    (h : ofGraph g backend = .ok b) {input : KernelInput} {results : List Result}
    (hrun : runKernels b.kernels input = .ok results) {v : ValueId} (hv : v ∈ g.roots) :
    ∃ data, (collect results).lookup v = some data := by
  obtain ⟨stages, hstages, h⟩ := except_bind_eq_ok.mp h
  obtain ⟨kernels, hkernels, h⟩ := except_bind_eq_ok.mp h
  cases h
  obtain ⟨stage, hstage, hroot⟩ := (Graph.mem_roots_iff hstages).mp hv
  obtain ⟨i, hi⟩ := List.getElem?_of_mem hstage
  have hplan : KernelPlan.ofStage (KernelPlan.kernelName g.name i) stage g ∈
      KernelPlan.ofStages g.name stages g := by
    apply List.mem_of_getElem? (i := i)
    rw [KernelPlan.ofStages, List.getElem?_mapIdx, hi]
    rfl
  obtain ⟨k, hk, hcompile⟩ := forall₂_mem_left (mapM_eq_ok_iff.mp hkernels) hplan
  obtain ⟨hkp, hcount⟩ := hb _ _ _ _ hcompile
  have hout : (⟨v, g.dtype v, KernelPlan.destinationOf g v⟩ : OutputPlan) ∈ k.plan.outputs := by
    rw [hkp]
    exact List.mem_map.mpr ⟨v, hroot, rfl⟩
  obtain ⟨data, hdata⟩ := exists_result hrun hk
    (fun columns hc => by
      rw [hkp, hcount input columns hc]
      exact (List.length_map _).symm) hout
  exact exists_lookup_collect hdata

/-! ### Taking results out -/

/-- A returned value of a graph, from results that stay as they are. -/
def readValue (g : Graph) (shapes : List Shape) (results : ResultMap) (args : List Arg)
    (v : ValueId) : Exec Store Operand := do
  return (← buildValue g shapes args v results).1

/-- The returned values in order, from results that stay as they are. -/
def readAll (read : ValueId → Exec Store Operand) (args : List Arg) :
    (built : List (ValueId × Operand)) → List ReturnSlot → Exec Store (List Operand)
  | _, [] => return []
  | built, .param i :: rest => do
    let o ← Exec.lift (argOperand args i)
    return o :: (← readAll read args built rest)
  | built, .value v :: rest =>
    match built.lookup v with
    | some o => do return o :: (← readAll read args built rest)
    | none => do
      let o ← read v
      return o :: (← readAll read args ((v, o) :: built) rest)

/-- What has been taken out of the results has been built: for all other values
they are as they were. -/
def Taken (all : ResultMap) (built : List (ValueId × Operand)) (left : ResultMap) : Prop :=
  ∀ v, built.lookup v = none → left.lookup v = all.lookup v

theorem lookup_filter_of_ne {v w : ValueId} (h : w ≠ v) (results : ResultMap) :
    (results.filter fun p => p.1 != v).lookup w = results.lookup w := by
  induction results with
  | nil => rfl
  | cons p results ih =>
    by_cases hp : p.1 = v
    · rw [List.filter_cons_of_neg (by simp [hp]), ih, List.lookup_cons,
        beq_eq_false_iff_ne.mpr (hp ▸ h)]
    · rw [List.filter_cons_of_pos (by simp [hp]), List.lookup_cons, List.lookup_cons, ih]

section

variable {g : Graph} {shapes : List Shape} {all left : ResultMap} {args : List Arg} {v : ValueId}

/-- Building a value whose result is still there yields what reading it does,
and takes no other result out. -/
theorem buildValue_eq_readValue (g : Graph) (shapes : List Shape) (args : List Arg)
    (h : left.lookup v = all.lookup v) (s : Store) :
    ∃ rest, (∀ w, w ≠ v → rest.lookup w = left.lookup w) ∧
      buildValue g shapes args v left s = ((readValue g shapes all args v s).1.map (·, rest),
        (readValue g shapes all args v s).2) := by
  unfold readValue buildValue
  rcases g.values[v]? with - | ⟨form, i | c | ⟨n, k⟩⟩
  · exact ⟨left, fun _ _ => rfl, rfl⟩
  · refine ⟨left, fun _ _ => rfl, ?_⟩
    rcases hi : argOperand args i with e | o
    · simp only [hi, Exec.bind_apply, Exec.lift_apply]
      rfl
    · simp only [hi, Exec.bind_apply, Exec.lift_apply]
      rfl
  · exact ⟨left, fun _ _ => rfl, rfl⟩
  · rcases hall : all.lookup v with - | data
    · refine ⟨left, fun _ _ => rfl, ?_⟩
      rw [hall] at h
      simp only [takeResult, h, hall, Exec.bind_apply, Exec.lift_apply]
      rfl
    · refine ⟨left.filter fun p => p.1 != v, fun w hw => lookup_filter_of_ne hw left, ?_⟩
      rw [hall] at h
      simp only [takeResult, h, hall, Exec.bind_apply, Exec.lift_apply]
      rcases ofResult form (shapes.getD v .scalar) data s with ⟨e | o, t⟩ <;> rfl

theorem Taken.add {built : List (ValueId × Operand)} (h : Taken all built left) {rest : ResultMap}
    (hrest : ∀ w, w ≠ v → rest.lookup w = left.lookup w) (o : Operand) :
    Taken all ((v, o) :: built) rest := by
  intro w hw
  rw [List.lookup_cons] at hw
  split at hw
  · cases hw
  · next hne =>
    rw [hrest w (beq_eq_false_iff_ne.mp hne)]
    exact h w hw

/-- No result is missed: the values built are those read. -/
theorem buildAll_eq_readAll {built : List (ValueId × Operand)} (h : Taken all built left)
    (slots : List ReturnSlot) (s : Store) :
    buildAll (buildValue g shapes args) args left built slots s =
      readAll (readValue g shapes all args) args built slots s := by
  induction slots generalizing built left s with
  | nil => rfl
  | cons slot slots ih =>
    cases slot with
    | param i =>
      rw [buildAll, readAll]
      simp only [Exec.bind_apply, Exec.lift_apply, ih h]
    | value v =>
      rw [buildAll, readAll]
      rcases hfound : built.lookup v with - | o
      · -- it has not been built, so its result has not been taken out
        obtain ⟨rest, hrest, hbuild⟩ := buildValue_eq_readValue g shapes args (h v hfound) s
        simp only [Exec.bind_apply, hbuild]
        rcases readValue g shapes all args v s with ⟨e | o, t⟩
        · rfl
        · simp only [Except.map, ih (h.add hrest o)]
      · simp only [Exec.bind_apply, ih h]

end

theorem deliver_eq (b : Bundle) (args : List Arg) (shapes : List Shape) (results : List Result)
    (s : Store) :
    b.deliver args shapes results s =
      (do
        let values ← readAll (readValue b.graph shapes (collect results) args) args []
          b.graph.outputs
        return Returned.ofParts b.graph.arity values : Exec Store (Returned Operand)) s := by
  rw [deliver, Exec.bind_apply, Exec.bind_apply, buildAll_eq_readAll fun _ _ => rfl]

/-! ### Returned values -/

/-- Reading cannot fail if it cannot for any slot. -/
theorem readAll_ok {read : ValueId → Exec Store Operand} {args : List Arg}
    {slots : List ReturnSlot}
    (hparam : ∀ i, .param i ∈ slots → ∃ o, argOperand args i = .ok o)
    (hvalue : ∀ v, .value v ∈ slots → ∀ s, ∃ o t, read v s = (.ok o, t))
    (built : List (ValueId × Operand)) (s : Store) :
    ∃ os t, readAll read args built slots s = (.ok os, t) := by
  induction slots generalizing built s with
  | nil => exact ⟨[], s, rfl⟩
  | cons slot slots ih =>
    have ih := ih (fun i hi => hparam i (List.mem_cons_of_mem _ hi))
      (fun v hv => hvalue v (List.mem_cons_of_mem _ hv))
    cases slot with
    | param i =>
      obtain ⟨o, ho⟩ := hparam i List.mem_cons_self
      obtain ⟨os, t, hos⟩ := ih built s
      refine ⟨o :: os, t, ?_⟩
      rw [readAll, ho]
      exact Exec.bind_eq_ok.mpr ⟨o, s, rfl, Exec.bind_eq_ok.mpr ⟨os, t, hos, rfl⟩⟩
    | value v =>
      rw [readAll]
      rcases built.lookup v with - | o
      · obtain ⟨o, s₁, ho⟩ := hvalue v List.mem_cons_self s
        obtain ⟨os, t, hos⟩ := ih ((v, o) :: built) s₁
        exact ⟨o :: os, t,
          Exec.bind_eq_ok.mpr ⟨o, s₁, ho, Exec.bind_eq_ok.mpr ⟨os, t, hos, rfl⟩⟩⟩
      · obtain ⟨os, t, hos⟩ := ih built s
        exact ⟨o :: os, t, Exec.bind_eq_ok.mpr ⟨os, t, hos, rfl⟩⟩

section

variable {g : Graph} {shapes : List Shape} {results : ResultMap} {args : List Arg} {v : ValueId}
  {form : Form}

theorem readValue_param {i : Nat} (h : g.values[v]? = some ⟨form, .param i⟩) :
    readValue g shapes results args v = Exec.lift (argOperand args i) := by
  unfold readValue buildValue
  rw [h]
  funext s
  simp only [Exec.bind_apply, Exec.lift_apply]
  rcases argOperand args i with e | o <;> rfl

theorem readValue_constant {c : Scalar} (h : g.values[v]? = some ⟨form, .constant c⟩) :
    readValue g shapes results args v = pure (.scalar c) := by
  unfold readValue buildValue
  rw [h]
  rfl

theorem readValue_output {n k : Nat} (h : g.values[v]? = some ⟨form, .output n k⟩) :
    readValue g shapes results args v =
      match results.lookup v with
      | some data =>
        Eager.place (decide (form.kind = .scalar)) ⟨form.dtype, shapes.getD v .scalar, data⟩
      | none => Exec.fail (.backend (.notComputed v)) := by
  unfold readValue buildValue
  rw [h]
  funext s
  rcases hfound : results.lookup v with - | data
  · simp only [takeResult, hfound, Exec.bind_apply, Exec.lift_apply]
    rfl
  · simp only [takeResult, hfound, Exec.bind_apply, Exec.lift_apply, ofResult]
    by_cases hk : form.kind = .scalar
    · simp only [hk, if_true, decide_true]
      rfl
    · simp only [hk, if_false, decide_false]
      rfl

end

/-- The argument for a parameter that has a value. -/
theorem arg_of_param {r : Recorder} (hr : Reached r) {args : List Arg}
    (hclass : r.tape.params.map Param.argClass = args.map ArgClass.ofArg) {v : ValueId}
    {form : Form} {i : Nat} (hv : r.tape.values[v]? = some ⟨form, .param i⟩) :
    ∃ arg o, args[i]? = some arg ∧ arg.operand? = some o ∧ o.form = form := by
  obtain ⟨hp, hkind⟩ := hr.recorded.param_of_source hv
  have hget : (args.map ArgClass.ofArg)[i]? = some ⟨form.kind, some form.dtype, form.ndim⟩ := by
    rw [← hclass, List.getElem?_map, hp]
    rfl
  rw [List.getElem?_map, Option.map_eq_some_iff] at hget
  obtain ⟨arg, harg, heq⟩ := hget
  rcases ho : arg.operand? with - | o
  · obtain rfl : arg = .absent := by
      cases arg <;> first | rfl | cases ho
    exact absurd (congrArg ArgClass.kind heq).symm hkind
  · refine ⟨arg, o, harg, ho, ?_⟩
    rw [Arg.ofArg_of_operand ho] at heq
    have hk : o.kind = form.kind := congrArg ArgClass.kind heq
    have hd : o.dtype = form.dtype := Option.some.inj (congrArg ArgClass.dtype heq)
    have hn : o.ndim = form.ndim := congrArg ArgClass.ndim heq
    rw [Operand.form, hk, hd, hn]

theorem argOperand_eq_ok {args : List Arg} {i : Nat} {o : Operand} :
    argOperand args i = .ok o ↔ ∃ arg, args[i]? = some arg ∧ arg.operand? = some o := by
  rw [← Option.bind_eq_some_iff]
  unfold argOperand
  rcases (args[i]?).bind Arg.operand? with - | o' <;> simp

/-- An argument that is returned was passed. -/
theorem argOperand_of_slot {r : Recorder} (hr : Reached r) {returned : Returned Handle}
    (hv : ∀ x ∈ returned.toList, r.Valid x) {args : List Arg}
    (hargs : r.tape.params.map Param.argClass = args.map ArgClass.ofArg) {name : String} {i : Nat}
    (hi : .param i ∈ (r.finish name returned).outputs) : ∃ o, argOperand args i = .ok o := by
  obtain ⟨x, hx, hvar, -⟩ := hr.handle_of_paramSlot hv hi
  obtain ⟨v, hinfo, -, -⟩ := hr.param_of_var hvar
  obtain ⟨arg, o, harg, ho, -⟩ := arg_of_param hr hargs hinfo
  exact ⟨o, argOperand_eq_ok.mpr ⟨arg, harg, ho⟩⟩

/-- Every slot of a recording can be filled once its kernels have run. -/
theorem build_ok {r : Recorder} (hr : Reached r) {returned : Returned Handle}
    (hv : ∀ x ∈ returned.toList, r.Valid x) {args : List Arg}
    (hargs : r.tape.params.map Param.argClass = args.map ArgClass.ofArg) {name : String}
    {results : ResultMap}
    (hroots : ∀ v ∈ (r.finish name returned).roots, ∃ data, results.lookup v = some data)
    (shapes : List Shape) (s : Store) :
    ∃ os t, readAll (readValue (r.finish name returned) shapes results args) args []
      (r.finish name returned).outputs s = (.ok os, t) := by
  apply readAll_ok
  · intro i hi
    exact argOperand_of_slot hr hv hargs hi
  · intro v hmem s
    have hlt : v < r.tape.values.length := by
      obtain ⟨x, hx, rfl, -⟩ := hr.handle_of_valueSlot hv hmem
      exact hr.valueOf_lt (hv x hx).1
    rcases hinfo : r.tape.values[v]? with - | ⟨form, i | c | ⟨n, k⟩⟩
    · exact absurd hlt (Nat.not_lt_of_le (List.getElem?_eq_none_iff.mp hinfo))
    · obtain ⟨arg, o, harg, ho, -⟩ := arg_of_param hr hargs hinfo
      rw [readValue_param (g := r.finish name returned) hinfo, argOperand_eq_ok.mpr ⟨arg, harg, ho⟩]
      exact ⟨o, s, rfl⟩
    · rw [readValue_constant (g := r.finish name returned) hinfo]
      exact ⟨_, s, rfl⟩
    · obtain ⟨data, hdata⟩ := hroots v (Recorder.slot_mem_roots hmem hinfo)
      rw [readValue_output (g := r.finish name returned) hinfo, hdata]
      dsimp only
      cases decide (form.kind = .scalar) with
      | true => exact ⟨_, s, rfl⟩
      | false => exact ⟨_, _, rfl⟩

theorem graph_of_ofGraph {g : Graph} {backend : Backend} {b : Bundle}
    (h : ofGraph g backend = .ok b) : b.graph = g := by
  obtain ⟨stages, -, h⟩ := except_bind_eq_ok.mp h
  obtain ⟨kernels, -, h⟩ := except_bind_eq_ok.mp h
  cases h
  rfl

/-- A launch fails exactly if its preparation does, and then no buffer has
changed: neither the arguments, however they share storage, nor anything
else.  So once the first write-back is made, a launch cannot fail. -/
theorem launch_error_unchanged {backend : Backend} (hbackend : backend.OnePerOutput)
    {fn : Function} {params : List ArgClass} {name : String} {b : Bundle}
    (hb : compile fn params name backend = .ok b) {args : List Arg}
    (hargs : args.map ArgClass.ofArg = params) {store store' : Store} {e : Error} :
    b.launch args store = (.error e, store') ↔ b.prepare args store = .error e ∧ store' = store := by
  rw [launch_eq]
  rcases hprep : b.prepare args store with e' | ⟨shapes, results, writes⟩
  · simp only [Prod.mk.injEq, Except.error.injEq, eq_comm]
  · -- the preparation went through, so the returned values can be built
    refine ⟨?_, fun h => by cases h.1⟩
    intro hdeliver
    exfalso
    obtain ⟨-, hfailure, -, hrun, -⟩ := prepare_eq_ok.mp hprep
    unfold compile at hb
    rcases hrec : record fn params backend.name .empty with ⟨e' | returned, r⟩
    · rw [hrec] at hb
      dsimp only at hb
      split at hb
      · cases hb
      · cases hb
        cases hfailure
    · rw [hrec] at hb
      obtain ⟨hr, hparams, hvalid⟩ := reached_of_record hrec
      have hgraph : b.graph = r.finish name returned := graph_of_ofGraph hb
      obtain ⟨os, t, hos⟩ := build_ok hr (hvalid returned rfl) (hparams.trans hargs.symm)
        (fun v hv => root_ok hbackend hb hrun hv) shapes (commit writes store)
      have hdone : b.deliver args shapes results (commit writes store) =
          (.ok (Returned.ofParts b.graph.arity os), t) := by
        rw [deliver_eq, hgraph]
        exact Exec.bind_eq_ok.mpr ⟨os, t, hos, rfl⟩
      cases hdone.symm.trans hdeliver

/-- A body that adds one to two arrays. -/
def addOneToBoth : Function :=
  ⟨"add_one_to_both", none,
    [.arg (.one "a") 0, .arg (.one "b") 1, .const (.one "c") ⟨.int .w64, .int 1⟩,
      .inplace .drop .add "a" "c", .inplace .drop .add "b" "c"]⟩

/-- The result for the first array, which is empty, is accepted.  The one for
the second, which the third argument shares storage with, is too short. -/
theorem launch_error_unchanged_after_accepted :
    let args : List Arg := [.array ⟨0, .int .w64, ⟨[0]⟩⟩, .array ⟨1, .int .w64, ⟨[2]⟩⟩,
      .array ⟨1, .int .w64, ⟨[2]⟩⟩]
    let store : Store := ⟨[[], [.int 3, .int 4]]⟩
    ∃ b, compile addOneToBoth (args.map ArgClass.ofArg) "kernel" Probe.short = .ok b ∧
      b.launch args store = (.error (.backend (.resultLength 1 1 2)), store) := by
  intro args store
  have h : ∃ b, compile addOneToBoth (args.map ArgClass.ofArg) "kernel" Probe.short = .ok b ∧
      b.prepare args store = .error (.backend (.resultLength 1 1 2)) := by
    decide +kernel
  obtain ⟨b, hb, hprep⟩ := h
  exact ⟨b, hb, (launch_error_unchanged Probe.onePerOutput_short hb rfl).mpr ⟨hprep, rfl⟩⟩

end Bundle

end ArrayFusion
