/-
ArrayFusion/Proofs/Fused/ResultSize.lean

Kernel results of the wrong size.

Design.  A result goes one of two ways.  Where it is written back, its length
is compared with that of the argument's buffer.  The shape of what is written
back is the shape of the argument (`shape_of_writeBack`), so this compares the
result with the shape of its value.  Everywhere else a result becomes a new
array or scalar as it is: `ofResult` does not look at its length, and takes
zero for a scalar that it does not find.  No value is computed twice, so the
result found for a value is the one that a kernel yielded
(`consistent_of_run`).

Shapes depend on the shapes of the arguments only.  To learn about them, all
elements are replaced by zeros: nothing has to be known about the elements
that an argument really holds.

Main result: what a launch does once its kernels have run, for results of all
sizes (`launch_result_sizes`).
-/
import ArrayFusion.Proofs.Fused.Delivery
import ArrayFusion.Proofs.Kernel.Partition

namespace ArrayFusion

namespace Arg

/-- The buffer of an array exists and has as many elements as the shape
says. -/
def Filled (arg : Arg) (s : Store) : Prop :=
  ∀ a, arg = .array a → a.loc < s.buffers.length ∧ (a.elems s).length = a.shape.count

instance (arg : Arg) (s : Store) : Decidable (arg.Filled s) :=
  match arg with
  | .array a => decidable_of_iff (a.loc < s.buffers.length ∧ (a.elems s).length = a.shape.count)
      ⟨fun h b hb => by cases hb; exact h, fun h => h a rfl⟩
  | .scalar _ => isTrue fun _ h => by cases h
  | .absent => isTrue fun _ h => by cases h

/-- Zeros in place of the elements of an argument. -/
def zeros (arg : Arg) : Tensor :=
  ⟨arg.dtype?.getD .bool, arg.shape,
    List.replicate arg.shape.count (Elem.zero (arg.dtype?.getD .bool))⟩

theorem hasForm_zeros {arg : Arg} {o : Operand} (ho : arg.operand? = some o) :
    arg.zeros.HasForm o.form := by
  have hzeros : arg.zeros = ⟨o.dtype, o.shape, List.replicate o.shape.count (Elem.zero o.dtype)⟩ := by
    cases arg with
    | absent => cases ho
    | array a | scalar c =>
      cases ho
      rfl
  rw [hzeros]
  refine ⟨rfl, rfl, List.length_replicate, ?_, ?_⟩
  · intro _ e he
    rw [List.eq_of_mem_replicate he]
    exact Elem.canonical_zero o.dtype
  · intro hk
    cases o with
    | array a => exact absurd rfl hk
    | scalar c => rfl

end Arg

namespace Bundle

open Recorder (Reached)

/-! ### Shapes -/

section

variable {r : Recorder} {args : List Arg} {name : String} {returned : Returned Handle}
  {shapes : List Shape}

theorem accepts_zeros (hr : Reached r)
    (hclass : r.tape.params.map Param.argClass = args.map ArgClass.ofArg) :
    r.tape.Accepts (args.map Arg.zeros) :=
  accepts_map hr hclass fun _ _ _ ho => Arg.hasForm_zeros ho

/-- The shapes of a launch are those of a snapshot of zeros. -/
theorem exists_snapshot_zeros (hr : Reached r)
    (hclass : r.tape.params.map Param.argClass = args.map ArgClass.ofArg)
    (hshapes : (r.finish name returned).resolveShapes (args.map Arg.shape) = .ok shapes) :
    ∃ env, r.tape.snapshot (args.map Arg.zeros) = .ok env ∧ env.map Tensor.shape = shapes := by
  rw [resolveShapes_map hr hclass (accepts_zeros hr hclass) (fun _ => rfl)] at hshapes
  exact except_map_eq_ok.mp hshapes

/-- What is written back has the shape of its argument, which is an array. -/
theorem shape_of_writeBack (hr : Reached r)
    (hclass : r.tape.params.map Param.argClass = args.map ArgClass.ofArg)
    (hshapes : (r.finish name returned).resolveShapes (args.map Arg.shape) = .ok shapes) {i : Nat}
    {v : ValueId} (hw : (i, v) ∈ r.writeBacks) :
    ∃ a, args[i]? = some (.array a) ∧ shapes.getD v .scalar = a.shape := by
  obtain ⟨env, henv, rfl⟩ := exists_snapshot_zeros hr hclass hshapes
  obtain ⟨x, hx, hkind, rfl, -⟩ := hr.mem_writeBacks.mp hw
  obtain ⟨first, hfirst, -, -⟩ := hr.param_of_var hx
  obtain ⟨arg, o, harg, ho, hoform⟩ := arg_of_param hr hclass hfirst
  obtain ⟨t, ht, -, hsh⟩ := hr.recorded.shape_of_owner (accepts_zeros hr hclass) henv _
    (hr.versions.latest hx).1
  rw [List.getElem?_map, harg, Option.map_some, Option.some.injEq] at ht
  subst ht
  cases arg with
  | absent => cases ho
  | scalar c =>
    cases ho
    rw [← hoform] at hkind
    cases hkind
  | array a => exact ⟨a, harg, (Tape.shape_getD env _).trans hsh⟩

theorem shape_of_scalar (hr : Reached r)
    (hclass : r.tape.params.map Param.argClass = args.map ArgClass.ofArg)
    (hshapes : (r.finish name returned).resolveShapes (args.map Arg.shape) = .ok shapes)
    {v : ValueId} {info : GraphValue} (hv : r.tape.values[v]? = some info)
    (hk : info.toForm.kind = .scalar) : shapes.getD v .scalar = .scalar := by
  obtain ⟨env, henv, rfl⟩ := exists_snapshot_zeros hr hclass hshapes
  have hform := Tape.hasForm_getD (hr.recorded.forms_snapshot (accepts_zeros hr hclass) env henv)
    (List.getElem?_eq_some_iff.mp hv).1
  rw [Tape.formOf_of_getElem? hv] at hform
  rw [Tape.shape_getD]
  exact hform.scalar (by rw [hk]; simp)

end

/-! ### Results -/

/-- A result has as many elements as the shape of its value says. -/
def SizedFor (shapes : List Shape) (res : Result) : Prop :=
  res.2.length = (shapes.getD res.1.value .scalar).count

instance (shapes : List Shape) (res : Result) : Decidable (SizedFor shapes res) :=
  inferInstanceAs (Decidable (_ = _))

/-- Results are for outputs of the plans. -/
theorem output_of_result {g : Graph} {backend : Backend} (hbackend : backend.OnePerOutput)
    {b : Bundle} (h : ofGraph g backend = .ok b) {input : KernelInput} {results : List Result}
    (hrun : runKernels b.kernels input = .ok results) {res : Result} (hres : res ∈ results) :
    res.1 = ⟨res.1.value, g.dtype res.1.value, KernelPlan.destinationOf g res.1.value⟩ := by
  obtain ⟨stages, -, h⟩ := except_bind_eq_ok.mp h
  obtain ⟨kernels, hkernels, h⟩ := except_bind_eq_ok.mp h
  cases h
  obtain ⟨rows, hrows, hrun⟩ := except_bind_eq_ok.mp hrun
  cases hrun
  obtain ⟨row, hrow, hres⟩ := List.mem_flatten.mp hres
  obtain ⟨k, hk, hlaunch⟩ := forall₂_mem_right (mapM_eq_ok_iff.mp hrows) hrow
  obtain ⟨columns, -, hrow⟩ := except_bind_eq_ok.mp hlaunch
  cases hrow
  obtain ⟨plan, hplan, hcompile⟩ := forall₂_mem_right (mapM_eq_ok_iff.mp hkernels) hk
  obtain ⟨i, hi, rfl⟩ := List.mem_mapIdx.mp hplan
  have hout := (List.of_mem_zip hres).1
  rw [(hbackend _ _ _ _ hcompile).1] at hout
  obtain ⟨v, -, hv⟩ := List.mem_map.mp hout
  rw [← hv]

theorem consistent_of_nodup {results : List Result}
    (h : (results.map fun res => res.1.value).Nodup) : Consistent results := by
  intro res hres
  obtain ⟨data, hdata⟩ := exists_lookup_collect hres
  obtain ⟨res', hres', hval, rfl⟩ := lookup_collect hdata
  rw [hdata, List.inj_on_of_nodup_map h hres' hres hval]

theorem values_of_row {name : String} {stage : Stage} {g : Graph} {columns : List (List Elem)}
    (h : columns.length = stage.roots.length) :
    ((KernelPlan.ofStage name stage g).outputs.zip columns).map (fun res => res.1.value) =
      stage.roots := by
  have hfst : ((KernelPlan.ofStage name stage g).outputs.zip columns).map Prod.fst =
      stage.roots.map fun v => ⟨v, g.dtype v, KernelPlan.destinationOf g v⟩ :=
    List.map_fst_zip (by rw [h]; exact Nat.le_of_eq (List.length_map _))
  calc ((KernelPlan.ofStage name stage g).outputs.zip columns).map (fun res => res.1.value)
    _ = (((KernelPlan.ofStage name stage g).outputs.zip columns).map Prod.fst).map
          OutputPlan.value := by rw [List.map_map]; rfl
    _ = stage.roots := by rw [hfst, List.map_map]; exact List.map_id _

/-- The values of the results are the roots of the stages, in order. -/
theorem values_of_rows {g : Graph} {backend : Backend} (hbackend : backend.OnePerOutput)
    {name : Nat → String} {stages : List Stage} {kernels : List Kernel} {input : KernelInput}
    {rows : List (List Result)}
    (hkernels : List.Forall₂ (fun plan k => backend.compile plan = .ok k)
      (stages.mapIdx fun i stage => .ofStage (name i) stage g) kernels)
    (hrows : List.Forall₂ (fun k row =>
      (do return k.plan.outputs.zip (← k.launch input) : Except Error _) = .ok row) kernels rows) :
    rows.flatten.map (fun res => res.1.value) = stages.flatMap Stage.roots := by
  induction stages generalizing name kernels rows with
  | nil =>
    cases hkernels
    cases hrows
    rfl
  | cons stage stages ih =>
    rw [List.mapIdx_cons] at hkernels
    obtain _ | ⟨hk, hkernels⟩ := hkernels
    obtain _ | ⟨hrow, hrows⟩ := hrows
    obtain ⟨columns, hcolumns, hrow⟩ := except_bind_eq_ok.mp hrow
    cases hrow
    obtain ⟨hplan, hlen⟩ := hbackend _ _ _ _ hk
    rw [List.flatten_cons, List.map_append, List.flatMap_cons, ih hkernels hrows, hplan,
      values_of_row (hlen _ _ hcolumns)]

/-- No value is computed twice. -/
theorem consistent_of_run {g : Graph} {backend : Backend} (hbackend : backend.OnePerOutput)
    {b : Bundle} (h : ofGraph g backend = .ok b) {input : KernelInput} {results : List Result}
    (hrun : runKernels b.kernels input = .ok results) : Consistent results := by
  obtain ⟨stages, hstages, h⟩ := except_bind_eq_ok.mp h
  obtain ⟨kernels, hkernels, h⟩ := except_bind_eq_ok.mp h
  cases h
  obtain ⟨rows, hrows, hrun⟩ := except_bind_eq_ok.mp hrun
  cases hrun
  apply consistent_of_nodup
  rw [values_of_rows hbackend (mapM_eq_ok_iff.mp hkernels) (mapM_eq_ok_iff.mp hrows)]
  exact Graph.nodup_roots_of_partition hstages

/-! ### Write-backs -/

/-- The writes are made up if every result fits its target. -/
theorem length_of_commits {args : List Arg} {s : Store} {results : List Result}
    (hkept : Consistent results) {writes : List (NDArray × List Elem)} (h : commits args s results = .ok writes) {res : Result}
    (hres : res ∈ results) {i : Nat} {a : NDArray} (ht : target? args res = some (i, a)) :
    res.2.length = (a.elems s).length := by
  have hmem : ((i, a), res.2) ∈ pendingWrites args results := by
    rw [pendingWrites_eq hkept]
    exact List.mem_filterMap.mpr ⟨res, hres, by rw [ht]; rfl⟩
  obtain ⟨w, -, hw⟩ := forall₂_mem_left (mapM_eq_ok_iff.mp h) hmem
  dsimp only at hw
  split at hw
  · next hlen => exact hlen
  · cases hw

/-- They fail to be made up because of one that does not. -/
theorem commits_eq_error {args : List Arg} {s : Store} {results : List Result}
    (hkept : Consistent results) {e : Error} (h : commits args s results = .error e) :
    ∃ res ∈ results, ∃ i a, target? args res = some (i, a) ∧ res.2.length ≠ (a.elems s).length ∧
      e = .backend (.resultLength res.2.length i (a.elems s).length) := by
  obtain ⟨⟨⟨i, a⟩, data⟩, hmem, hfail⟩ := mapM_eq_error h
  rw [pendingWrites_eq hkept] at hmem
  obtain ⟨res, hres, heq⟩ := List.mem_filterMap.mp hmem
  obtain ⟨t, ht, heq⟩ := Option.map_eq_some_iff.mp heq
  cases heq
  dsimp only at hfail
  split at hfail
  · cases hfail
  · next hlen =>
    cases hfail
    exact ⟨res, hres, i, a, ht, hlen, rfl⟩

theorem length_read_overwrite (a : NDArray) (data : List Elem) (s : Store) (loc : Nat) :
    ((a.overwrite data s).read loc).length = (s.read loc).length := by
  by_cases heq : a.loc = loc
  · subst heq
    by_cases hlt : a.loc < s.buffers.length
    · exact NDArray.length_elems_overwrite hlt data
    · rw [NDArray.overwrite, Store.write, List.set_eq_of_length_le (Nat.le_of_not_lt hlt)]
  · rw [NDArray.overwrite, Store.read_write_of_ne s heq]

/-- No buffer changes its length in a commit. -/
theorem length_commit (writes : List (NDArray × List Elem)) (s : Store) :
    (commit writes s).buffers.length = s.buffers.length ∧
      ∀ loc, ((commit writes s).read loc).length = (s.read loc).length := by
  induction writes generalizing s with
  | nil => exact ⟨rfl, fun _ => rfl⟩
  | cons w writes ih =>
    obtain ⟨hcount, hread⟩ := ih (w.1.overwrite w.2 s)
    refine ⟨hcount.trans (Store.length_write s _ _), ?_⟩
    intro loc
    exact (hread loc).trans (length_read_overwrite w.1 w.2 s loc)

/-! ### Returned values -/

/-- A property of values that is kept while buffers are added holds of all
returned values if it holds of the arguments and of each value built. -/
theorem readAll_forall {P : Store → Operand → Prop}
    (hgrows : ∀ {s s' o}, s.buffers <+: s'.buffers → P s o → P s' o)
    {build : ValueId → Exec Store Operand} {args : List Arg} {slots : List ReturnSlot} {s : Store}
    (hparam : ∀ {i o}, argOperand args i = .ok o → P s o)
    (hvalue : ∀ v {s₁ o s₂}, s.buffers <+: s₁.buffers → build v s₁ = (.ok o, s₂) →
      s₁.buffers <+: s₂.buffers ∧ P s₂ o)
    {built : List (ValueId × Operand)} (hbuilt : ∀ {v o}, built.lookup v = some o → P s o)
    {os : List Operand} {s' : Store} (h : readAll build args built slots s = (.ok os, s')) :
    ∀ o ∈ os, P s' o := by
  suffices hall : s.buffers <+: s'.buffers ∧ ∀ o ∈ os, P s' o from hall.2
  induction slots generalizing s built os s' with
  | nil =>
    cases h
    exact ⟨List.prefix_refl _, by simp⟩
  | cons slot slots ih =>
    -- a first value that is there in some later store, then the others from there
    have hcons : ∀ {o s₁ built₁ os₁ s₂}, s.buffers <+: s₁.buffers → P s₁ o →
        (∀ {v u}, built₁.lookup v = some u → P s₁ u) →
        readAll build args built₁ slots s₁ = (.ok os₁, s₂) →
        s.buffers <+: s₂.buffers ∧ ∀ u ∈ o :: os₁, P s₂ u := by
      intro o s₁ built₁ os₁ s₂ hg ho hb h
      obtain ⟨hg', hos⟩ := ih (fun hi => hgrows hg (hparam hi))
        (fun v _ _ _ hg₁ => hvalue v (hg.trans hg₁)) hb h
      refine ⟨hg.trans hg', ?_⟩
      intro u hu
      rcases List.mem_cons.mp hu with rfl | hu
      · exact hgrows hg' ho
      · exact hos u hu
    cases slot with
    | param i =>
      rw [readAll] at h
      obtain ⟨o, s₁, ho, h⟩ := Exec.bind_eq_ok.mp h
      obtain ⟨os₁, s₂, hos, h⟩ := Exec.bind_eq_ok.mp h
      cases h
      rw [Exec.lift_apply, Prod.mk.injEq] at ho
      obtain ⟨ho, rfl⟩ := ho
      exact hcons (List.prefix_refl _) (hparam ho) hbuilt hos
    | value v =>
      rw [readAll] at h
      rcases hfound : built.lookup v with - | o
      · rw [hfound] at h
        obtain ⟨o, s₁, ho, h⟩ := Exec.bind_eq_ok.mp h
        obtain ⟨os₁, s₂, hos, h⟩ := Exec.bind_eq_ok.mp h
        cases h
        obtain ⟨hg, hp⟩ := hvalue v (List.prefix_refl _) ho
        refine hcons hg hp ?_ hos
        intro w u hu
        rw [List.lookup_cons] at hu
        split at hu
        · cases hu
          exact hp
        · exact hgrows hg (hbuilt hu)
      · rw [hfound] at h
        obtain ⟨os₁, s₂, hos, h⟩ := Exec.bind_eq_ok.mp h
        cases h
        exact hcons (List.prefix_refl _) (hbuilt hfound) hbuilt hos

theorem mem_of_mem_ofParts {α : Type} {arity : Arity} {parts : List α} {a : α}
    (h : a ∈ (Returned.ofParts arity parts).toList) : a ∈ parts := by
  cases arity with
  | none => cases h
  | tuple n => exact h
  | single =>
    rcases hlast : parts.getLast? with - | b
    · simp only [Returned.ofParts, hlast] at h
      cases h
    · simp only [Returned.ofParts, hlast] at h
      rw [List.mem_singleton.mp h]
      exact List.mem_of_getLast? hlast

/-- What can be told of a returned value if no result is of the wrong size: an
array has as many elements as its shape says, and a scalar is an argument, a
constant, or the only element of a result. -/
def Sound (g : Graph) (args : List Arg) (results : List Result) (s : Store) : Operand → Prop
  | .array a => (a.elems s).length = a.shape.count
  | .scalar c => .scalar c ∈ args ∨ (∃ info ∈ g.values, info.source = .constant c) ∨
      ∃ res ∈ results, ∃ e, res.2 = [e] ∧ c = Scalar.ofElem res.1.dtype e

/-- What is made of a result, whatever its size. -/
def MadeFrom (shapes : List Shape) (res : Result) (s : Store) : Operand → Prop
  | .array a => a.shape = shapes.getD res.1.value .scalar ∧ a.elems s = res.2
  | .scalar c => c = Scalar.ofElem res.1.dtype (res.2.headD (Elem.zero res.1.dtype))

/-- A returned value is sound, or made from a result of the wrong size. -/
def Accounted (g : Graph) (args : List Arg) (shapes : List Shape) (results : List Result)
    (s : Store) (o : Operand) : Prop :=
  Sound g args results s o ∨ ∃ res ∈ results, ¬ SizedFor shapes res ∧ MadeFrom shapes res s o

section

variable {g : Graph} {args : List Arg} {shapes : List Shape} {results : List Result}

/-- Values keep their elements while buffers are only added. -/
theorem Accounted.grow {s s' : Store} {o : Operand} (ho : o.StoredIn s)
    (hgrows : s.buffers <+: s'.buffers) (h : Accounted g args shapes results s o) :
    Accounted g args shapes results s' o := by
  cases o with
  | scalar c => exact h
  | array a =>
    have helems : a.elems s' = a.elems s :=
      congrArg Tensor.data (Operand.tensor_of_isPrefix ho hgrows)
    simpa only [Accounted, Sound, MadeFrom, helems] using h

/-- A value made from a result is sound if the result is of the right size. -/
theorem accounted_of_madeFrom {s : Store} {o : Operand} {res : Result} (hres : res ∈ results)
    (hscalar : ∀ c, o = .scalar c → shapes.getD res.1.value .scalar = .scalar)
    (h : MadeFrom shapes res s o) : Accounted g args shapes results s o := by
  by_cases hsized : SizedFor shapes res
  · left
    cases o with
    | array a =>
      obtain ⟨hshape, helems⟩ := h
      show (a.elems s).length = a.shape.count
      rw [helems, hshape]
      exact hsized
    | scalar c =>
      have hlen : res.2.length = 1 := by
        rw [SizedFor, hscalar c rfl] at hsized
        exact hsized
      obtain ⟨e, he⟩ := List.length_eq_one_iff.mp hlen
      have hc : c = Scalar.ofElem res.1.dtype (res.2.headD (Elem.zero res.1.dtype)) := h
      rw [he] at hc
      exact .inr (.inr ⟨res, hres, e, he, hc⟩)
  · exact .inr ⟨res, hres, hsized, h⟩

/-- A result is placed as it is. -/
theorem madeFrom_of_place {form : Form} {res : Result} (hd : res.1.dtype = form.dtype)
    {s s' : Store} {o : Operand}
    (h : Eager.place (decide (form.kind = .scalar))
      ⟨form.dtype, shapes.getD res.1.value .scalar, res.2⟩ s = (.ok o, s')) :
    s.buffers <+: s'.buffers ∧ o.StoredIn s' ∧ MadeFrom shapes res s' o ∧
      ∀ c, o = .scalar c → form.kind = .scalar := by
  by_cases hk : form.kind = .scalar
  · rw [decide_eq_true hk] at h
    cases h
    refine ⟨List.prefix_refl _, (fun a ha => by cases ha), ?_, fun _ _ => hk⟩
    rw [← hd]
    rfl
  · rw [decide_eq_false hk] at h
    cases h
    refine ⟨List.prefix_append _ _, ?_, ⟨rfl, Store.read_push_self s _⟩, fun c hc => by cases hc⟩
    intro a ha
    cases ha
    rw [Store.length_push]
    exact Nat.lt_succ_self _

/-- An argument that is returned. -/
theorem accounted_of_arg {s : Store} (hfilled : ∀ a ∈ args, a.Filled s) {i : Nat} {o : Operand}
    (h : argOperand args i = .ok o) : o.StoredIn s ∧ Accounted g args shapes results s o := by
  obtain ⟨arg, harg, ho⟩ := argOperand_eq_ok.mp h
  have hmem := List.mem_of_getElem? harg
  cases arg with
  | absent => cases ho
  | scalar c =>
    cases ho
    exact ⟨(fun a ha => by cases ha), .inl (.inl hmem)⟩
  | array a =>
    cases ho
    obtain ⟨hlt, hlen⟩ := hfilled _ hmem a rfl
    refine ⟨?_, .inl hlen⟩
    intro b hb
    cases hb
    exact hlt

end

section

variable {r : Recorder} {args : List Arg} {name : String} {returned : Returned Handle}
  {shapes : List Shape} {results : List Result} {backend : Backend} {b : Bundle}

/-- The values returned by a launch. -/
theorem accounted_of_readAll (hr : Reached r)
    (hclass : r.tape.params.map Param.argClass = args.map ArgClass.ofArg)
    (hbackend : backend.OnePerOutput) (hb : ofGraph (r.finish name returned) backend = .ok b)
    (hshapes : (r.finish name returned).resolveShapes (args.map Arg.shape) = .ok shapes)
    {input : KernelInput} (hrun : runKernels b.kernels input = .ok results) {s s' : Store}
    (hfilled : ∀ a ∈ args, a.Filled s) {slots : List ReturnSlot} {os : List Operand}
    (h : readAll (readValue (r.finish name returned) shapes (collect results) args) args [] slots s =
      (.ok os, s')) :
    ∀ o ∈ os, Accounted (r.finish name returned) args shapes results s' o := by
  have hgrows : ∀ {s s' : Store} {o : Operand}, s.buffers <+: s'.buffers →
      o.StoredIn s ∧ Accounted (r.finish name returned) args shapes results s o →
      o.StoredIn s' ∧ Accounted (r.finish name returned) args shapes results s' o := by
    rintro s s' o hg ⟨hstored, hacc⟩
    exact ⟨fun a ha => Nat.lt_of_lt_of_le (hstored a ha) hg.length_le, hacc.grow hstored hg⟩
  intro o ho
  refine (readAll_forall (P := fun s o => o.StoredIn s ∧
    Accounted (r.finish name returned) args shapes results s o) hgrows
    (fun hi => accounted_of_arg hfilled hi) ?_ (by simp) h o ho).2
  intro v s₁ o s₂ hg hbuild
  rcases hinfo : r.tape.values[v]? with - | ⟨form, i | c | ⟨n, k⟩⟩
  · unfold readValue buildValue at hbuild
    rw [show (r.finish name returned).values[v]? = none from hinfo] at hbuild
    cases hbuild
  · rw [readValue_param (g := r.finish name returned) hinfo, Exec.lift_apply, Prod.mk.injEq] at hbuild
    obtain ⟨hi, rfl⟩ := hbuild
    exact ⟨List.prefix_refl _, hgrows hg (accounted_of_arg hfilled hi)⟩
  · rw [readValue_constant (g := r.finish name returned) hinfo] at hbuild
    cases hbuild
    refine ⟨List.prefix_refl _, (fun a ha => by cases ha), .inl (.inr (.inl ?_))⟩
    exact ⟨_, List.mem_of_getElem? hinfo, rfl⟩
  · rw [readValue_output (g := r.finish name returned) hinfo] at hbuild
    rcases hfound : (collect results).lookup v with - | data
    · rw [hfound] at hbuild
      cases hbuild
    rw [hfound] at hbuild
    obtain ⟨res, hres, rfl, rfl⟩ := lookup_collect hfound
    have hd : res.1.dtype = form.dtype := by
      rw [output_of_result hbackend hb hrun hres]
      show (r.finish name returned).dtype res.1.value = _
      unfold Graph.dtype
      rw [show (r.finish name returned).values[res.1.value]? = _ from hinfo]
    obtain ⟨hgrow, hstored, hmade, hkind⟩ := madeFrom_of_place hd hbuild
    refine ⟨hgrow, hstored, accounted_of_madeFrom hres ?_ hmade⟩
    intro c hc
    exact shape_of_scalar hr hclass hshapes hinfo (hkind c hc)

/-- After the write-backs a launch succeeds, and all it returns is accounted
for. -/
theorem deliver_accounted (hr : Reached r) (hvalid : ∀ x ∈ returned.toList, r.Valid x)
    (hclass : r.tape.params.map Param.argClass = args.map ArgClass.ofArg)
    (hbackend : backend.OnePerOutput) (hb : ofGraph (r.finish name returned) backend = .ok b)
    (hshapes : (r.finish name returned).resolveShapes (args.map Arg.shape) = .ok shapes)
    {input : KernelInput} (hrun : runKernels b.kernels input = .ok results) {s : Store}
    (hfilled : ∀ a ∈ args, a.Filled s) :
    ∃ os s', b.deliver args shapes results s = (.ok os, s') ∧
      ∀ o ∈ os.toList, Accounted b.graph args shapes results s' o := by
  obtain ⟨os, s', hos⟩ := build_ok hr hvalid hclass
    (fun v hv => root_ok hbackend hb hrun hv) shapes s
  rw [deliver_eq, graph_of_ofGraph hb]
  refine ⟨Returned.ofParts _ os, s', Exec.bind_eq_ok.mpr ⟨os, s', hos, rfl⟩, ?_⟩
  intro o ho
  exact accounted_of_readAll hr hclass hbackend hb hshapes hrun hfilled hos o
    (mem_of_mem_ofParts ho)

/-- What a result is written back to: an array of the shape of its value. -/
theorem target_of_inPlace (hr : Reached r)
    (hclass : r.tape.params.map Param.argClass = args.map ArgClass.ofArg)
    (hbackend : backend.OnePerOutput) (hb : ofGraph (r.finish name returned) backend = .ok b)
    (hshapes : (r.finish name returned).resolveShapes (args.map Arg.shape) = .ok shapes)
    {input : KernelInput} (hrun : runKernels b.kernels input = .ok results) {s : Store}
    (hfilled : ∀ a ∈ args, a.Filled s) {res : Result} (hres : res ∈ results) {i : Nat}
    (hi : res.1.destination = .inPlace i) :
    ∃ a, target? args res = some (i, a) ∧
      (a.elems s).length = (shapes.getD res.1.value .scalar).count := by
  have hdest := hi
  rw [output_of_result hbackend hb hrun hres] at hdest
  have hw := hr.writeBackOf_eq_some.mp (destinationOf_eq.mp hdest)
  obtain ⟨a, ha, hshape⟩ := shape_of_writeBack hr hclass hshapes hw
  refine ⟨a, target?_eq_some.mpr ⟨hi, ha⟩, ?_⟩
  rw [hshape]
  exact (hfilled _ (List.mem_of_getElem? ha) a rfl).2

end

/-! ### The launch -/

/-- A bundle without a failure comes from a body that was recorded to its
end. -/
theorem record_of_compile {fn : Function} {params : List ArgClass} {name : String}
    {backend : Backend} {b : Bundle} (hb : compile fn params name backend = .ok b)
    (hf : b.checkFailure = .ok ()) :
    ∃ returned r, record fn params backend.name .empty = (.ok returned, r) ∧
      ofGraph (r.finish name returned) backend = .ok b := by
  unfold compile at hb
  rcases hrec : record fn params backend.name .empty with ⟨e | returned, r⟩
  · rw [hrec] at hb
    dsimp only at hb
    split at hb
    · cases hb
    · cases hb
      cases hf
  · rw [hrec] at hb
    exact ⟨returned, r, rfl, hb⟩

/-- The checks in front of the kernels pass, and all kernels run. -/
structure Ran (b : Bundle) (args : List Arg) (s : Store) (shapes : List Shape)
    (results : List Result) : Prop where
  resolved : b.graph.resolveShapes (args.map Arg.shape) = .ok shapes
  unfailed : b.checkFailure = .ok ()
  unraced : checkRaces args b.hazards = .ok ()
  computed : runKernels b.kernels ⟨args.map fun a => a.elems s, shapes⟩ = .ok results

/-- What is left to do once the kernels have run. -/
theorem Ran.launch_eq {b : Bundle} {args : List Arg} {s : Store} {shapes : List Shape}
    {results : List Result} (h : b.Ran args s shapes results) :
    b.launch args s =
      match commits args s results with
      | .error e => (.error e, s)
      | .ok writes => b.deliver args shapes results (commit writes s) := by
  rw [Bundle.launch_eq, prepare]
  simp only [h.resolved, h.unfailed, h.unraced, h.computed, except_bind_ok]
  rcases commits args s results with e | writes
  · rfl
  · rfl

/-- Once the kernels have run, a launch looks at the sizes of those results
that are written back.  If one of them is of the wrong size, the launch fails
with an error that names it, and nothing changes.  Otherwise the launch
succeeds, whatever the sizes of the other results: what it returns is sound, or
made from a result of the wrong size. -/
theorem launch_result_sizes {backend : Backend} (hbackend : backend.OnePerOutput) {fn : Function}
    {params : List ArgClass} {name : String} {b : Bundle}
    (hb : compile fn params name backend = .ok b) {args : List Arg}
    (hargs : args.map ArgClass.ofArg = params) {store : Store}
    (hfilled : ∀ a ∈ args, a.Filled store) {shapes : List Shape} {results : List Result}
    (hran : b.Ran args store shapes results) :
    (∃ res ∈ results, ∃ i, res.1.destination = .inPlace i ∧ ¬ SizedFor shapes res ∧
      b.launch args store = (.error (.backend (.resultLength res.2.length i
        (shapes.getD res.1.value .scalar).count)), store)) ∨
    ((∀ res ∈ results, res.1.destination ≠ .fresh → SizedFor shapes res) ∧
      ∃ returned store', b.launch args store = (.ok returned, store') ∧
        ∀ o ∈ returned.toList, Sound b.graph args results store' o ∨
          ∃ res ∈ results, res.1.destination = .fresh ∧ ¬ SizedFor shapes res ∧
            MadeFrom shapes res store' o) := by
  obtain ⟨returned, r, hrec, hgraph⟩ := record_of_compile hb hran.unfailed
  obtain ⟨hr, hparams, hvalid⟩ := reached_of_record hrec
  have hclass := hparams.trans hargs.symm
  have hrun := hran.computed
  have hresolved := hran.resolved
  rw [graph_of_ofGraph hgraph] at hresolved
  have htarget := fun {res : Result} (hres : res ∈ results) {i : Nat} =>
    target_of_inPlace (i := i) hr hclass hbackend hgraph hresolved hrun hfilled hres
  have hconsistent := consistent_of_run hbackend hgraph hrun
  rw [hran.launch_eq]
  rcases hcommits : commits args store results with e | writes
  · left
    obtain ⟨res, hres, i, a, ht, hne, rfl⟩ := commits_eq_error hconsistent hcommits
    have hi := (target?_eq_some.mp ht).1
    obtain ⟨a', ht', hlen⟩ := htarget hres hi
    cases ht.symm.trans ht'
    rw [hlen] at hne ⊢
    exact ⟨res, hres, i, hi, hne, rfl⟩
  · right
    have hsized : ∀ res ∈ results, res.1.destination ≠ .fresh → SizedFor shapes res := by
      intro res hres hnot
      rcases hi : res.1.destination with - | i
      · exact absurd hi hnot
      · obtain ⟨a, ht, hlen⟩ := htarget hres hi
        exact (length_of_commits hconsistent hcommits hres ht).trans hlen
    refine ⟨hsized, ?_⟩
    -- the write-backs keep the lengths of all buffers
    have hkept : ∀ a ∈ args, a.Filled (commit writes store) := by
      intro arg harg a ha
      obtain ⟨hlt, hlen⟩ := hfilled arg harg a ha
      obtain ⟨hcount, hread⟩ := length_commit writes store
      exact ⟨hcount ▸ hlt, (hread a.loc).trans hlen⟩
    obtain ⟨os, s', hos, haccounted⟩ :=
      deliver_accounted hr (hvalid returned rfl) hclass hbackend hgraph hresolved hrun hkept
    refine ⟨os, s', hos, ?_⟩
    intro o ho
    rcases haccounted o ho with hsound | ⟨res, hres, hwrong, hmade⟩
    · exact .inl hsound
    · -- what is written back is of the right size, so this result is not
      refine .inr ⟨res, hres, ?_, hwrong, hmade⟩
      by_contra hnot
      exact hwrong (hsized res hres hnot)

/-- A body that adds one to an array and returns the double of another one. -/
def addOneAndDouble : Function :=
  ⟨"add_one_and_double", none,
    [.arg (.one "a") 0, .arg (.one "b") 1, .const (.one "c") ⟨.int .w64, .int 1⟩,
      .inplace .drop .add "a" "c", .ufunc (.one "d") .add ["b", "b"] none, .ret (.single "d")]⟩

/-- Both results lack an element; the launch fails for the one that is written
back. -/
theorem launch_result_sizes_short :
    let args : List Arg := [.array ⟨0, .int .w64, ⟨[2]⟩⟩, .array ⟨1, .int .w64, ⟨[3]⟩⟩]
    let store : Store := ⟨[[.int 5, .int 6], [.int 1, .int 2, .int 3]]⟩
    ∃ b, compile addOneAndDouble (args.map ArgClass.ofArg) "kernel" Probe.short = .ok b ∧
      ∃ shapes results, b.Ran args store shapes results ∧
        (∀ res ∈ results, ¬ SizedFor shapes res) ∧
        b.launch args store = (.error (.backend (.resultLength 1 0 2)), store) := by
  intro args store
  have hok : ∃ b, compile addOneAndDouble (args.map ArgClass.ofArg) "kernel" Probe.short = .ok b ∧
      ∃ shapes, b.graph.resolveShapes (args.map Arg.shape) = .ok shapes ∧
      b.checkFailure = .ok () ∧ checkRaces args b.hazards = .ok () ∧
      ∃ results, runKernels b.kernels ⟨args.map fun a => a.elems store, shapes⟩ = .ok results ∧
        (∀ res ∈ results, ¬ SizedFor shapes res) ∧
        (∃ res ∈ results, res.1.destination ≠ .fresh) ∧
        ∀ res ∈ results, res.1.destination = .fresh ∨ res.1.destination = .inPlace 0 ∧
          res.2.length = 1 ∧ (shapes.getD res.1.value .scalar).count = 2 := by
    decide +kernel
  obtain ⟨b, hb, shapes, hshapes, hfailure, hraces, results, hrun, hwrong, ⟨res, hres, hnot⟩,
    hdest⟩ := hok
  have hran : b.Ran args store shapes results := ⟨hshapes, hfailure, hraces, hrun⟩
  refine ⟨b, hb, shapes, results, hran, hwrong, ?_⟩
  rcases launch_result_sizes Probe.onePerOutput_short hb rfl (by decide) hran with
    ⟨res', hres', i, hi, -, hlaunch⟩ | ⟨hsized, -⟩
  · rcases hdest res' hres' with h | ⟨h, hlen, hsize⟩
    · rw [hi] at h
      cases h
    · rw [hi] at h
      cases h
      rw [hlaunch, hlen, hsize]
  · exact absurd (hsized res hres hnot) (hwrong res hres)

/-- A body that doubles an array and a scalar. -/
def doubleBoth : Function :=
  ⟨"double_both", none,
    [.arg (.one "a") 0, .arg (.one "c") 1, .ufunc (.one "x") .add ["a", "a"] none,
      .ufunc (.one "y") .add ["c", "c"] none, .ret (.tuple ["x", "y"])]⟩

/-- Nothing is written back, so results that lack an element are returned: an
array of two elements that has one, and a zero that no kernel computed. -/
theorem launch_accepts_short_results :
    let args : List Arg := [.array ⟨0, .int .w64, ⟨[2]⟩⟩, .scalar ⟨.int .w64, .int 3⟩]
    let store : Store := ⟨[[.int 1, .int 2]]⟩
    ∃ b, compile doubleBoth (args.map ArgClass.ofArg) "kernel" Probe.short = .ok b ∧
      ∃ returned, (b.launch args store).1 = .ok returned ∧
        returned = .tuple [.array ⟨1, .int .w64, ⟨[2]⟩⟩, .scalar ⟨.int .w64, .int 0⟩] ∧
        (b.launch args store).2.buffers = [[.int 1, .int 2], [.int 2]] := by
  decide +kernel

end Bundle

end ArrayFusion
