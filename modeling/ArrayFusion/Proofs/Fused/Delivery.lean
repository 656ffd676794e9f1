/-
ArrayFusion/Proofs/Fused/Delivery.lean

What a launch on the host delivers.

Design.  The kernels of the host compute the contents that the snapshot of the
recording has for the roots.  So everything a launch does afterwards can be
told from the snapshot: which arrays are written, with which contents
(`commits_host`), and what the returned values hold (`buildValue_host`).
Returned values are built one after the other; the values built so far are at
locations of their own (`Built`).

Main result: `launch_host`, for arguments that may share storage as long as no
two of the updated ones do.
-/
import ArrayFusion.Proofs.Fused.Launch
import ArrayFusion.Proofs.Graph.Hazard

namespace ArrayFusion.Bundle

open Recorder (Reached)
open Tensor (HasForm)

/-! ### Arguments of a signature -/

section

variable {r : Recorder} {args : List Arg} {s : Store}

/-- Contents of the arguments' own forms are accepted by the recording of the
signature. -/
theorem accepts_map (hr : Reached r)
    (hclass : r.tape.params.map Param.argClass = args.map ArgClass.ofArg) {content : Arg → Tensor}
    (hform : ∀ arg ∈ args, ∀ o, arg.operand? = some o → (content arg).HasForm o.form) :
    r.tape.Accepts (args.map content) := by
  intro i p v d hp hv hd
  obtain ⟨form, hinfo⟩ := hr.recorded.source_of_param hp hv
  obtain ⟨hp', -⟩ := hr.recorded.param_of_source hinfo
  obtain ⟨arg, o, harg, ho, rfl⟩ := arg_of_param hr hclass hinfo
  rw [hp] at hp'
  cases hp'
  cases hd
  refine ⟨content arg, by rw [List.getElem?_map, harg, Option.map_some], ?_⟩
  exact hform arg (List.mem_of_getElem? harg) o ho

/-- Arguments of the signature are accepted by its recording. -/
theorem accepts_of_args (hr : Reached r)
    (hclass : r.tape.params.map Param.argClass = args.map ArgClass.ofArg)
    (hfits : ∀ a ∈ args, a.Fits s) : r.tape.Accepts (inputsOf args s) := by
  apply accepts_map hr hclass
  intro arg harg o ho
  rw [Arg.tensor_of_operand ho]
  exact (Arg.hasForm_of_fits (hfits arg harg) ho).2

/-- The initial value of a parameter is what its argument holds. -/
theorem snapshot_initial (hr : Reached r)
    (hclass : r.tape.params.map Param.argClass = args.map ArgClass.ofArg)
    (hfits : ∀ a ∈ args, a.Fits s) {env : List Tensor}
    (henv : r.tape.snapshot (inputsOf args s) = .ok env) {v : ValueId} {form : Form} {i : Nat}
    (hinfo : r.tape.values[v]? = some ⟨form, .param i⟩) {arg : Arg} (harg : args[i]? = some arg) :
    env[v]? = some (arg.tensor s) := by
  rw [hr.recorded.snapshot_leaf (accepts_of_args hr hclass hfits) env henv hinfo (by simp)]
  exact congrArg some (getD_inputsOf harg s)

/-- Resolving shapes finds the shapes of the snapshot of any accepted contents
of these shapes, and fails as it does. -/
theorem resolveShapes_map (hr : Reached r)
    (hclass : r.tape.params.map Param.argClass = args.map ArgClass.ofArg) {content : Arg → Tensor}
    (hacc : r.tape.Accepts (args.map content)) (hshape : ∀ arg, (content arg).shape = arg.shape)
    (name : String) (returned : Returned Handle) :
    (r.finish name returned).resolveShapes (args.map Arg.shape) =
      (r.tape.snapshot (args.map content)).map (List.map Tensor.shape) := by
  have hlen := congrArg List.length hclass
  rw [List.length_map, List.length_map] at hlen
  have hshapes : (args.map content).map Tensor.shape = args.map Arg.shape := by
    rw [List.map_map]
    exact List.map_congr_left fun arg _ => hshape arg
  rw [Tape.resolveShapes_eq (by rw [List.length_map]; exact hlen.symm),
    hr.recorded.shapes_snapshot hacc, hshapes]
  rfl

/-- In particular those of the arguments' own contents. -/
theorem resolveShapes_args (hr : Reached r)
    (hclass : r.tape.params.map Param.argClass = args.map ArgClass.ofArg)
    (hfits : ∀ a ∈ args, a.Fits s) (name : String) (returned : Returned Handle) :
    (r.finish name returned).resolveShapes (args.map Arg.shape) =
      (r.tape.snapshot (inputsOf args s)).map (List.map Tensor.shape) :=
  resolveShapes_map hr hclass (accepts_of_args hr hclass hfits) (fun _ => rfl) name returned

/-- The variable of an argument that is an array. -/
theorem var_of_array (hr : Reached r)
    (hclass : r.tape.params.map Param.argClass = args.map ArgClass.ofArg) {i : Nat} {a : NDArray}
    (ha : args[i]? = some (.array a)) :
    ∃ x, r.paramVars[i]? = some (some x) ∧ (r.formOf x).kind = .array := by
  have hget : (r.tape.params.map Param.argClass)[i]? = some ⟨.array, some a.dtype, a.ndim⟩ := by
    rw [hclass, List.getElem?_map, ha]
    rfl
  rw [List.getElem?_map, Option.map_eq_some_iff] at hget
  obtain ⟨p, hp, hpc⟩ := hget
  obtain ⟨v, hv⟩ := hr.recorded.value_of_param hp
    (by rw [show p.kind = .array from congrArg ArgClass.kind hpc]; simp)
    (congrArg ArgClass.dtype hpc)
  obtain ⟨x, hx⟩ := hr.linked.present hp hv
  obtain ⟨w, -, hparam, -⟩ := hr.param_of_var hx
  rw [hp] at hparam
  cases hparam
  exact ⟨x, hx, congrArg ArgClass.kind hpc⟩

/-- The current version of an array parameter fits the argument. -/
theorem current_fits (hr : Reached r)
    (hclass : r.tape.params.map Param.argClass = args.map ArgClass.ofArg)
    (hfits : ∀ a ∈ args, a.Fits s) {env : List Tensor}
    (henv : r.tape.snapshot (inputsOf args s) = .ok env) {i x : Nat} {a : NDArray}
    (hx : r.paramVars[i]? = some (some x)) (ha : args[i]? = some (.array a)) :
    ∃ data, env[r.valueOf x]? = some ⟨a.dtype, a.shape, data⟩ ∧ data.length = a.shape.count ∧
      ∀ e ∈ data, e.Canonical a.dtype := by
  have hacc := accepts_of_args hr hclass hfits
  have hlt := hr.valueOf_lt (hr.linked.var hx).1
  have hform := Tape.hasForm_getD (hr.recorded.forms_snapshot hacc env henv) hlt
  obtain ⟨t, ht, hd, hsh⟩ := hr.recorded.shape_of_owner hacc henv _ (hr.versions.latest hx).1
  rw [getElem?_inputsOf ha, Option.some.injEq] at ht
  subst ht
  obtain ⟨v, hv, -, -⟩ := hr.param_of_var hx
  obtain ⟨arg, o, harg, ho, hoform⟩ := arg_of_param hr hclass hv
  rw [ha] at harg
  cases harg
  cases ho
  rw [Tape.getElem?_snapshot henv hlt]
  generalize env.getD (r.valueOf x) .blank = t at hform hd hsh ⊢
  obtain ⟨d, sh, data⟩ := t
  obtain rfl : d = a.dtype := hd
  obtain rfl : sh = a.shape := hsh
  exact ⟨data, rfl, hform.sized, hform.canonical (congrArg Form.kind hoform).symm⟩

end

/-! ### Results of the kernels -/

/-- The result for a root. -/
def outputOf (g : Graph) (env : List Tensor) (v : ValueId) : Result :=
  (⟨v, g.dtype v, KernelPlan.destinationOf g v⟩, (env.getD v .blank).data)

/-- The host compiles every stage of a graph that was recorded. -/
theorem ofGraph_host {g : Graph} (hg : g.toTape.Recorded) {backend : Backend}
    (hhost : backend.compile = Host.compile) {stages : List Stage}
    (hstages : g.partition = .ok stages) :
    ofGraph g backend = .ok ⟨g, (KernelPlan.ofStages g.name stages g).map
      fun plan => ⟨plan, Host.launch plan⟩, g.hazards, none⟩ := by
  have hkernels : (KernelPlan.ofStages g.name stages g).mapM backend.compile =
      .ok ((KernelPlan.ofStages g.name stages g).map fun plan => ⟨plan, Host.launch plan⟩) := by
    apply mapM_eq_ok_map
    intro plan hplan
    obtain ⟨i, hi, rfl⟩ := List.mem_mapIdx.mp hplan
    rw [hhost]
    exact Host.compile_stage (Graph.runnable_of_partition hg hstages _ (List.getElem_mem hi)) _
  rw [ofGraph, hstages, except_bind_ok, hkernels]
  rfl

/-- The kernels yield the contents of the roots. -/
theorem runKernels_host {g : Graph} {stages : List Stage} (hstages : g.partition = .ok stages)
    {inputs env : List Tensor} {input : KernelInput} (hgiven : Host.Given g inputs env input) :
    ∃ vs : List ValueId, (∀ v, v ∈ vs ↔ v ∈ g.roots) ∧
      runKernels ((KernelPlan.ofStages g.name stages g).map fun plan =>
        ⟨plan, Host.launch plan⟩) input = .ok (vs.map (outputOf g env)) := by
  refine ⟨((KernelPlan.ofStages g.name stages g).map fun plan => plan.stage.roots).flatten, ?_, ?_⟩
  · intro v
    rw [Graph.mem_roots_iff hstages, List.mem_flatten]
    constructor
    · rintro ⟨roots, hroots, hv⟩
      obtain ⟨plan, hplan, rfl⟩ := List.mem_map.mp hroots
      obtain ⟨i, hi, rfl⟩ := List.mem_mapIdx.mp hplan
      exact ⟨_, List.getElem_mem hi, hv⟩
    · rintro ⟨stage, hstage, hv⟩
      obtain ⟨i, hi, rfl⟩ := List.getElem_of_mem hstage
      exact ⟨_, List.mem_map.mpr ⟨_, List.mem_mapIdx.mpr ⟨i, hi, rfl⟩, rfl⟩, hv⟩
  · have hrows : ((KernelPlan.ofStages g.name stages g).map fun plan =>
        (⟨plan, Host.launch plan⟩ : Kernel)).mapM
          (fun k => do return k.plan.outputs.zip (← k.launch input)) =
        .ok ((KernelPlan.ofStages g.name stages g).map fun plan =>
          plan.stage.roots.map (outputOf g env)) := by
      rw [List.mapM_map]
      apply mapM_eq_ok_map
      intro plan hplan
      obtain ⟨i, hi, rfl⟩ := List.mem_mapIdx.mp hplan
      have hlaunch := Host.launch_stage hgiven
        (Graph.runnable_of_partition hgiven.recorded hstages _ (List.getElem_mem hi))
        (KernelPlan.kernelName g.name i)
      show (Host.launch _ input >>= _) = _
      rw [hlaunch, except_bind_ok]
      show Except.ok (List.zip (List.map _ _) (List.map _ _)) = _
      rw [List.zip_map']
      rfl
    rw [runKernels, hrows, except_bind_ok]
    show Except.ok _ = Except.ok _
    rw [List.map_flatten, List.map_map]
    rfl

theorem lookup_collect_host {g : Graph} {env : List Tensor} {vs : List ValueId} {v : ValueId}
    (hv : v ∈ vs) :
    (collect (vs.map (outputOf g env))).lookup v = some (env.getD v .blank).data := by
  obtain ⟨data, hdata⟩ := exists_lookup_collect (List.mem_map_of_mem (f := outputOf g env) hv)
  obtain ⟨res, hres, hval, rfl⟩ := lookup_collect hdata
  obtain ⟨w, -, rfl⟩ := List.mem_map.mp hres
  cases hval
  exact hdata

theorem consistent_host (g : Graph) (env : List Tensor) (vs : List ValueId) :
    Consistent (vs.map (outputOf g env)) := by
  intro res hres
  obtain ⟨v, hv, rfl⟩ := List.mem_map.mp hres
  exact lookup_collect_host hv

/-! ### Write-backs -/

/-- Elements that fill an array and have its dtype are written as they are. -/
theorem overwrite_eq {a : NDArray} {data : List Elem} {s : Store}
    (hlen : data.length = (a.elems s).length) (hcan : ∀ e ∈ data, e.Canonical a.dtype) :
    a.overwrite data s = s.write a.loc data := by
  have hcast : data.map (·.cast a.dtype) = data := by
    conv_rhs => rw [← List.map_id data]
    exact List.map_congr_left hcan
  rw [NDArray.overwrite, hcast, overlay_of_length_eq hlen.symm]

/-- Writes of which those to one location agree: each stays, and nothing else
changes. -/
theorem read_commit {writes : List (NDArray × List Elem)} {s : Store}
    (hfit : ∀ w ∈ writes, w.1.loc < s.buffers.length ∧ w.2.length = (w.1.elems s).length ∧
      ∀ e ∈ w.2, e.Canonical w.1.dtype)
    (hsame : ∀ w ∈ writes, ∀ w' ∈ writes, w.1.loc = w'.1.loc → w.2 = w'.2) :
    (commit writes s).buffers.length = s.buffers.length ∧
      (∀ w ∈ writes, (commit writes s).read w.1.loc = w.2) ∧
      ∀ loc, (∀ w ∈ writes, w.1.loc ≠ loc) → (commit writes s).read loc = s.read loc := by
  induction writes generalizing s with
  | nil => exact ⟨rfl, by simp, fun loc _ => rfl⟩
  | cons w writes ih =>
    obtain ⟨hlt, hlen, hcan⟩ := hfit w List.mem_cons_self
    have hstep : commit (w :: writes) s = commit writes (s.write w.1.loc w.2) := by
      rw [← overwrite_eq hlen hcan]
      rfl
    obtain ⟨hcount, hin, hout⟩ := ih (s := s.write w.1.loc w.2)
      (by
        intro w' hw'
        obtain ⟨hlt', hlen', hcan'⟩ := hfit w' (List.mem_cons_of_mem w hw')
        refine ⟨by rw [Store.length_write]; exact hlt', ?_, hcan'⟩
        by_cases hloc : w.1.loc = w'.1.loc
        · rw [NDArray.elems, ← hloc, Store.read_write_self hlt,
            hsame w List.mem_cons_self w' (List.mem_cons_of_mem w hw') hloc]
        · rw [NDArray.elems, Store.read_write_of_ne s hloc]
          exact hlen')
      (fun a ha b hb => hsame a (List.mem_cons_of_mem w ha) b (List.mem_cons_of_mem w hb))
    rw [hstep]
    refine ⟨by rw [hcount, Store.length_write], ?_, ?_⟩
    · intro w' hw'
      by_cases hlater : ∃ u ∈ writes, u.1.loc = w'.1.loc
      · obtain ⟨u, hu, hloc⟩ := hlater
        rw [← hloc, hin u hu]
        exact hsame u (List.mem_cons_of_mem w hu) w' hw' hloc
      · rw [not_exists] at hlater
        rcases List.mem_cons.mp hw' with rfl | hmem
        · rw [hout _ fun u hu heq => hlater u ⟨hu, heq⟩, Store.read_write_self hlt]
        · exact absurd ⟨hmem, rfl⟩ (hlater w')
    · intro loc hloc
      rw [hout loc fun u hu => hloc u (List.mem_cons_of_mem w hu),
        Store.read_write_of_ne s (hloc w List.mem_cons_self)]

theorem target?_eq_some {args : List Arg} {res : Result} {i : Nat} {a : NDArray} :
    target? args res = some (i, a) ↔
      res.1.destination = .inPlace i ∧ args[i]? = some (.array a) := by
  unfold target?
  rcases res.1.destination with - | j
  · simp
  · constructor
    · intro h
      dsimp only at h
      split at h
      · next b hb =>
        cases h
        exact ⟨rfl, hb⟩
      · cases h
    · rintro ⟨hj, ha⟩
      cases hj
      simp only [ha]

theorem destinationOf_eq {g : Graph} {v : ValueId} {i : Nat} :
    KernelPlan.destinationOf g v = .inPlace i ↔ g.writeBackOf v = some i := by
  unfold KernelPlan.destinationOf
  rcases g.writeBackOf v with - | j <;> simp

section

variable {r : Recorder} {args : List Arg} {s : Store} {env : List Tensor} {name : String}
  {returned : Returned Handle}

/-- What is written back to an argument fits it. -/
theorem writeBack_fits (hr : Reached r)
    (hclass : r.tape.params.map Param.argClass = args.map ArgClass.ofArg)
    (hfits : ∀ a ∈ args, a.Fits s) (henv : r.tape.snapshot (inputsOf args s) = .ok env) {i : Nat}
    {v : ValueId} {a : NDArray} (hw : (i, v) ∈ r.writeBacks) (ha : args[i]? = some (.array a)) :
    env[v]? = some ⟨a.dtype, a.shape, (env.getD v .blank).data⟩ ∧ a.loc < s.buffers.length ∧
      (env.getD v .blank).data.length = (a.elems s).length ∧
      ∀ e ∈ (env.getD v .blank).data, e.Canonical a.dtype := by
  obtain ⟨x, hx, -, rfl, -⟩ := hr.mem_writeBacks.mp hw
  obtain ⟨data, hdata, hlen, hcan⟩ := current_fits hr hclass hfits henv hx ha
  obtain ⟨hloc, hsized, -⟩ := hfits _ (List.mem_of_getElem? ha) a rfl
  rw [List.getD, hdata, Option.getD_some]
  exact ⟨rfl, hloc, hlen.trans hsized.symm, hcan⟩

/-- The arrays that are written, with their contents. -/
theorem commits_host (hr : Reached r)
    (hclass : r.tape.params.map Param.argClass = args.map ArgClass.ofArg)
    (hfits : ∀ a ∈ args, a.Fits s) (henv : r.tape.snapshot (inputsOf args s) = .ok env)
    {vs : List ValueId} (hvs : ∀ v, v ∈ vs ↔ v ∈ (r.finish name returned).roots) :
    ∃ writes, commits args s (vs.map (outputOf (r.finish name returned) env)) = .ok writes ∧
      ∀ a data, (a, data) ∈ writes ↔ ∃ i v, (i, v) ∈ r.writeBacks ∧
        args[i]? = some (.array a) ∧ data = (env.getD v .blank).data := by
  generalize htargets : (vs.map (outputOf (r.finish name returned) env)).filterMap (fun res =>
    (target? args res).map fun t => (t, res.2)) = targets
  have hmem : ∀ i a data, ((i, a), data) ∈ targets ↔ ∃ v, (i, v) ∈ r.writeBacks ∧
      args[i]? = some (.array a) ∧ data = (env.getD v .blank).data := by
    intro i a data
    rw [← htargets, List.mem_filterMap]
    constructor
    · rintro ⟨res, hres, heq⟩
      obtain ⟨v, -, rfl⟩ := List.mem_map.mp hres
      obtain ⟨t, ht, heq⟩ := Option.map_eq_some_iff.mp heq
      cases heq
      obtain ⟨hdest, ha⟩ := target?_eq_some.mp ht
      exact ⟨v, hr.writeBackOf_eq_some.mp (destinationOf_eq.mp hdest), ha, rfl⟩
    · rintro ⟨v, hw, ha, rfl⟩
      refine ⟨_, List.mem_map_of_mem ((hvs v).mpr (hr.writeBack_mem_roots hw)), ?_⟩
      rw [target?_eq_some.mpr ⟨destinationOf_eq.mpr (hr.writeBackOf_eq_some.mpr hw), ha⟩]
      rfl
  refine ⟨targets.map fun p => (p.1.2, p.2), ?_, ?_⟩
  · rw [commits, pendingWrites_eq (consistent_host _ env vs), htargets]
    apply mapM_eq_ok_map
    rintro ⟨⟨i, a⟩, data⟩ hp
    obtain ⟨v, hw, ha, rfl⟩ := (hmem i a data).mp hp
    exact if_pos (writeBack_fits hr hclass hfits henv hw ha).2.2.1
  · intro a data
    rw [List.mem_map]
    constructor
    · rintro ⟨⟨⟨i, b⟩, data'⟩, hp, heq⟩
      cases heq
      exact ⟨i, (hmem i b data').mp hp⟩
    · rintro ⟨i, hv⟩
      exact ⟨((i, a), data), (hmem i a data).mpr hv, rfl⟩

end

/-! ### Returned values -/

/-- Values built so far, in buffers from location `base` on: they hold their
contents, and no two share one. -/
structure Built (t : Tape) (env : List Tensor) (base : Nat) (s : Store)
    (built : List (ValueId × Operand)) : Prop where
  contents : ∀ {v : ValueId} {o : Operand}, built.lookup v = some o →
    env[v]? = some (o.tensor s) ∧ o.form = t.formOf v
  fresh : ∀ {v : ValueId} {a : NDArray}, built.lookup v = some (.array a) →
    base ≤ a.loc ∧ a.loc < s.buffers.length
  apart : ∀ {v w : ValueId} {a b : NDArray}, built.lookup v = some (.array a) →
    built.lookup w = some (.array b) → a.loc = b.loc → v = w

/-- What building a value does. -/
def Builds (t : Tape) (env : List Tensor) (v : ValueId) (build : Exec Store Operand) : Prop :=
  ∀ s, ∃ o s', build s = (.ok o, s') ∧ s.buffers <+: s'.buffers ∧
    env[v]? = some (o.tensor s') ∧ o.form = t.formOf v ∧
    ∀ a, o = .array a → a.loc = s.buffers.length ∧ s'.buffers.length = s.buffers.length + 1

theorem Built.add {t : Tape} {env : List Tensor} {base : Nat} {s s' : Store}
    {built : List (ValueId × Operand)} (h : Built t env base s built)
    (hbase : base ≤ s.buffers.length) {v : ValueId} {o : Operand}
    (hgrows : s.buffers <+: s'.buffers) (hcont : env[v]? = some (o.tensor s'))
    (hform : o.form = t.formOf v)
    (hloc : ∀ a, o = .array a → a.loc = s.buffers.length ∧
      s'.buffers.length = s.buffers.length + 1) :
    Built t env base s' ((v, o) :: built) := by
  have hcases : ∀ {w u}, ((v, o) :: built).lookup w = some u →
      w = v ∧ u = o ∨ w ≠ v ∧ built.lookup w = some u := by
    intro w u hu
    rw [List.lookup_cons] at hu
    by_cases hw : w = v
    · rw [beq_iff_eq.mpr hw] at hu
      cases hu
      exact .inl ⟨hw, rfl⟩
    · rw [beq_eq_false_iff_ne.mpr hw] at hu
      exact .inr ⟨hw, hu⟩
  have hold : ∀ {w a}, built.lookup w = some (.array a) → a.loc < s.buffers.length :=
    fun hw => (h.fresh hw).2
  constructor
  case contents =>
    intro w u hu
    rcases hcases hu with ⟨rfl, rfl⟩ | ⟨-, hu⟩
    · exact ⟨hcont, hform⟩
    · obtain ⟨hc, hf⟩ := h.contents hu
      refine ⟨?_, hf⟩
      rw [hc, Operand.tensor_of_isPrefix _ hgrows]
      intro a ha
      rw [ha] at hu
      exact hold hu
  case fresh =>
    intro w a ha
    rcases hcases ha with ⟨rfl, heq⟩ | ⟨-, ha⟩
    · obtain ⟨h1, h2⟩ := hloc a heq.symm
      omega
    · exact ⟨(h.fresh ha).1, Nat.lt_of_lt_of_le (hold ha) hgrows.length_le⟩
  case apart =>
    -- the new array is at the end of the old store, where no other is
    intro w w' a b ha hb heq
    rcases hcases ha with ⟨rfl, hoa⟩ | ⟨-, holda⟩
    · rcases hcases hb with ⟨rfl, -⟩ | ⟨-, holdb⟩
      · rfl
      · have h1 := (hloc a hoa.symm).1
        have h2 := hold holdb
        omega
    · rcases hcases hb with ⟨rfl, hob⟩ | ⟨-, holdb⟩
      · have h1 := (hloc b hob.symm).1
        have h2 := hold holda
        omega
      · exact h.apart holda holdb heq

/-- How a slot is filled, given the values built in the end. -/
def Fills (args : List Arg) (built : List (ValueId × Operand)) : ReturnSlot → Operand → Prop
  | .param i, o => argOperand args i = .ok o
  | .value v, o => built.lookup v = some o

theorem readAll_spec {t : Tape} {env : List Tensor} {base : Nat}
    {build : ValueId → Exec Store Operand} {args : List Arg} {slots : List ReturnSlot}
    (hparam : ∀ i, .param i ∈ slots → ∃ o, argOperand args i = .ok o)
    (hvalue : ∀ v, .value v ∈ slots → Builds t env v (build v)) {s : Store}
    {built : List (ValueId × Operand)} (h : Built t env base s built)
    (hbase : base ≤ s.buffers.length) :
    ∃ os s' built', readAll build args built slots s = (.ok os, s') ∧
      s.buffers <+: s'.buffers ∧ Built t env base s' built' ∧
      (∀ v o, built.lookup v = some o → built'.lookup v = some o) ∧
      List.Forall₂ (Fills args built') slots os := by
  induction slots generalizing s built with
  | nil => exact ⟨[], s, built, rfl, List.prefix_refl _, h, fun _ _ hv => hv, .nil⟩
  | cons slot slots ih =>
    have ih := fun {s built} (h : Built t env base s built) =>
      ih (fun i hi => hparam i (List.mem_cons_of_mem _ hi))
        (fun v hv => hvalue v (List.mem_cons_of_mem _ hv)) h
    cases slot with
    | param i =>
      obtain ⟨o, ho⟩ := hparam i List.mem_cons_self
      obtain ⟨os, s', built', hos, hgrows, hb, hkeep, hfill⟩ := ih h hbase
      refine ⟨o :: os, s', built', ?_, hgrows, hb, hkeep, .cons ho hfill⟩
      rw [readAll, ho]
      exact Exec.bind_eq_ok.mpr ⟨o, s, rfl, Exec.bind_eq_ok.mpr ⟨os, s', hos, rfl⟩⟩
    | value v =>
      rw [readAll]
      rcases hfound : built.lookup v with - | o
      · obtain ⟨o, s₁, ho, hgrows₁, hcont, hform, hloc⟩ := hvalue v List.mem_cons_self s
        obtain ⟨os, s', built', hos, hgrows, hb, hkeep, hfill⟩ :=
          ih (h.add hbase hgrows₁ hcont hform hloc) (Nat.le_trans hbase hgrows₁.length_le)
        refine ⟨o :: os, s', built', ?_, hgrows₁.trans hgrows, hb, ?_, .cons ?_ hfill⟩
        · exact Exec.bind_eq_ok.mpr ⟨o, s₁, ho, Exec.bind_eq_ok.mpr ⟨os, s', hos, rfl⟩⟩
        · intro w u hu
          apply hkeep
          rw [List.lookup_cons, beq_eq_false_iff_ne.mpr]
          · exact hu
          · rintro rfl
            rw [hfound] at hu
            cases hu
        · exact hkeep v o (by rw [List.lookup_cons, beq_self_eq_true])
      · obtain ⟨os, s', built', hos, hgrows, hb, hkeep, hfill⟩ := ih h hbase
        exact ⟨o :: os, s', built', Exec.bind_eq_ok.mpr ⟨os, s', hos, rfl⟩, hgrows, hb, hkeep,
          .cons (hkeep v o hfound) hfill⟩

section

variable {r : Recorder} {args : List Arg} {s : Store} {env : List Tensor} {name : String}
  {returned : Returned Handle}

/-- The outputs of a node are stored as their dtype says. -/
theorem canonical_output {t : Tape} (h : t.Recorded) {inputs : List Tensor}
    (hacc : t.Accepts inputs) (henv : t.snapshot inputs = .ok env) {v : ValueId} {form : Form}
    {n k : Nat} (hv : t.values[v]? = some ⟨form, .output n k⟩) :
    (env.getD v .blank).Canonical := by
  obtain ⟨node, hn, hk⟩ := h.output_of_source hv
  obtain ⟨outs, houts, -, hout⟩ := h.snapshot_output hacc env henv hn
  have hforms := h.forms_snapshot hacc env henv
  have hget := Tape.getElem?_snapshot henv (List.getElem?_eq_some_iff.mp hv).1
  apply (h.typed hn).canonical_outcome
    (Tape.hasForm_operands hforms fun u hu => h.operand_lt hn (List.mem_append_left _ hu))
    (Tape.hasForm_operands hforms fun u hu => h.operand_lt hn (List.mem_append_right _ hu)) houts
  rw [hout k v hk] at hget
  exact List.mem_of_getElem? hget

/-- An initial value that is no array is the scalar that was passed. -/
theorem builds_initial (hr : Reached r)
    (hclass : r.tape.params.map Param.argClass = args.map ArgClass.ofArg)
    (hfits : ∀ a ∈ args, a.Fits s) (henv : r.tape.snapshot (inputsOf args s) = .ok env)
    {v : ValueId} {form : Form} {i : Nat} (hinfo : r.tape.values[v]? = some ⟨form, .param i⟩)
    (hkind : form.kind ≠ .array) (shapes : List Shape) (results : ResultMap) :
    Builds r.tape env v (readValue (r.finish name returned) shapes results args v) := by
  intro s₁
  obtain ⟨arg, o, harg, ho, rfl⟩ := arg_of_param hr hclass hinfo
  cases o with
  | array a => exact absurd rfl hkind
  | scalar c =>
    refine ⟨.scalar c, s₁, ?_, List.prefix_refl _, ?_, ?_, fun a ha => by cases ha⟩
    · rw [readValue_param (g := r.finish name returned) hinfo,
        argOperand_eq_ok.mpr ⟨arg, harg, ho⟩]
      rfl
    · rw [snapshot_initial hr hclass hfits henv hinfo harg, Arg.tensor_of_operand ho]
      rfl
    · rw [Tape.formOf_of_getElem? hinfo]

theorem builds_constant (hr : Reached r) {inputs : List Tensor} (hacc : r.tape.Accepts inputs)
    (henv : r.tape.snapshot inputs = .ok env) {v : ValueId} {form : Form} {c : Scalar}
    (hinfo : r.tape.values[v]? = some ⟨form, .constant c⟩) (shapes : List Shape)
    (results : ResultMap) :
    Builds r.tape env v (readValue (r.finish name returned) shapes results args v) := by
  intro s₁
  refine ⟨.scalar c, s₁, ?_, List.prefix_refl _, ?_, ?_, fun a ha => by cases ha⟩
  · rw [readValue_constant (g := r.finish name returned) hinfo]
    rfl
  · exact hr.recorded.snapshot_leaf hacc env henv hinfo (by simp)
  · rw [Tape.formOf_of_getElem? hinfo, hr.recorded.form_of_constant hinfo]
    rfl

/-- An output that is a root is placed in a new array or scalar. -/
theorem builds_output (hr : Reached r) {inputs : List Tensor} (hacc : r.tape.Accepts inputs)
    (henv : r.tape.snapshot inputs = .ok env) {v : ValueId} {form : Form} {n k : Nat}
    (hinfo : r.tape.values[v]? = some ⟨form, .output n k⟩) {vs : List ValueId} (hv : v ∈ vs) :
    Builds r.tape env v (readValue (r.finish name returned) (env.map Tensor.shape)
      (collect (vs.map (outputOf (r.finish name returned) env))) args v) := by
  intro s₁
  have hlt := (List.getElem?_eq_some_iff.mp hinfo).1
  have hform := Tape.hasForm_getD (hr.recorded.forms_snapshot hacc env henv) hlt
  have hkind := hr.recorded.kind_ne_absent _ hlt
  rw [Tape.formOf_of_getElem? hinfo] at hform hkind ⊢
  have htensor : (⟨form.dtype, (env.map Tensor.shape).getD v .scalar,
      (env.getD v .blank).data⟩ : Tensor) = env.getD v .blank := by
    rw [Tape.shape_getD, ← hform.dtype]
  rw [readValue_output (g := r.finish name returned) hinfo, lookup_collect_host hv]
  dsimp only
  rw [htensor]
  obtain ⟨o, s₂, ho, hcont, hok, hgrows, hloc⟩ := Eager.place_spec
    (decide (form.kind = .scalar)) s₁ fun hs => by
      have hs := of_decide_eq_true hs
      exact ⟨hform.scalar (by rw [hs]; simp), hform.sized,
        canonical_output hr.recorded hacc henv hinfo⟩
  refine ⟨o, s₂, ho, hgrows, by rw [hcont, Tape.getElem?_snapshot henv hlt], ?_, hloc⟩
  have hk : o.kind = form.kind := by
    rw [hok]
    obtain ⟨d, ndim, kind⟩ := form
    cases kind with
    | array => rfl
    | scalar => rfl
    | absent => exact absurd rfl hkind
  have hd : o.dtype = form.dtype := (congrArg Tensor.dtype hcont).trans hform.dtype
  have hn : o.ndim = form.ndim := (congrArg (fun t => t.shape.ndim) hcont).trans hform.ndim
  rw [Operand.form, hk, hd, hn]

/-- Every returned value that is not an argument of the caller can be built. -/
theorem readValue_host (hr : Reached r)
    (hclass : r.tape.params.map Param.argClass = args.map ArgClass.ofArg)
    (hfits : ∀ a ∈ args, a.Fits s) (henv : r.tape.snapshot (inputsOf args s) = .ok env)
    {vs : List ValueId} (hvs : ∀ v, v ∈ vs ↔ v ∈ (r.finish name returned).roots) {x : Handle}
    (hx : r.Valid x) (hmem : .value (r.valueOf x.var) ∈ (r.finish name returned).outputs)
    (hnot : ∀ i : Nat, r.paramVars[i]? = some (some x.var) → x.kind ≠ .array) :
    Builds r.tape env (r.valueOf x.var) (readValue (r.finish name returned)
      (env.map Tensor.shape) (collect (vs.map (outputOf (r.finish name returned) env))) args
      (r.valueOf x.var)) := by
  have hacc := accepts_of_args hr hclass hfits
  rcases hinfo : r.tape.values[r.valueOf x.var]? with - | ⟨form, i | c | ⟨n, k⟩⟩
  · exact absurd (hr.valueOf_lt hx.1) (Nat.not_lt_of_le (List.getElem?_eq_none_iff.mp hinfo))
  · -- an array would be returned as the argument it is
    refine builds_initial hr hclass hfits henv hinfo ?_ _ _
    have hxform : r.formOf x.var = form := Tape.formOf_of_getElem? hinfo
    rw [← hxform, hx.2]
    exact hnot i (hr.linked.initial hx.1 hinfo)
  · exact builds_constant hr hacc henv hinfo _ _
  · exact builds_output hr hacc henv hinfo ((hvs _).mpr (Recorder.slot_mem_roots hmem hinfo))

end

/-! ### Races -/

theorem checkRaces_eq_ok {args : List Arg} {hazards : List (Nat × Nat)} :
    checkRaces args hazards = .ok () ↔ ∀ p ∈ hazards, shareStorage args p.1 p.2 = false := by
  induction hazards with
  | nil => simp [checkRaces]
  | cons p hazards ih =>
    rw [List.forall_mem_cons, ← ih, checkRaces]
    cases shareStorage args p.1 p.2 with
    | false => simp
    | true => simp

theorem shareStorage_eq_true {args : List Arg} {i j : Nat} :
    shareStorage args i j = true ↔ ∃ a b, args[i]? = some (.array a) ∧
      args[j]? = some (.array b) ∧ a.loc = b.loc := by
  unfold shareStorage
  split
  · next a b hi hj =>
    constructor
    · intro h
      exact ⟨a, b, hi, hj, of_decide_eq_true h⟩
    · rintro ⟨a', b', hi', hj', heq⟩
      rw [hi] at hi'
      rw [hj] at hj'
      cases hi'
      cases hj'
      exact decide_eq_true heq
  · next hno =>
    simp only [Bool.false_eq_true, false_iff, not_exists, not_and]
    intro a b hi hj
    exact absurd hj (hno a b hi)

/-- Where no arguments share storage there is no race. -/
theorem checkRaces_of_unshared {args : List Arg} (h : Unshared args) (g : Graph) :
    checkRaces args g.hazards = .ok () := by
  rw [checkRaces_eq_ok]
  rintro ⟨w, o⟩ hp
  rw [Bool.eq_false_iff]
  intro hs
  obtain ⟨a, b, ha, hb, heq⟩ := shareStorage_eq_true.mp hs
  exact Graph.ne_of_mem_hazards hp (h ha hb heq).symm

/-! ### The launch -/

/-- What the caller finds in the arguments after a launch: the final versions
in the updated ones, and everything else as before. -/
structure Committed (r : Recorder) (env : List Tensor) (args : List Arg) (s s' : Store) :
    Prop where
  written : ∀ {i : Nat} {v : ValueId} {a : NDArray}, (i, v) ∈ r.writeBacks →
    args[i]? = some (.array a) → env[v]? = some ((Operand.array a).tensor s')
  kept : ∀ {loc : Nat}, loc < s.buffers.length →
    (∀ i v a, (i, v) ∈ r.writeBacks → args[i]? = some (.array a) → a.loc ≠ loc) →
    s'.read loc = s.read loc

/-- What the caller finds after a launch, and returned values with the
contents of the snapshot. -/
structure Delivered (r : Recorder) (env : List Tensor) (args : List Arg) (s : Store)
    (slots : List ReturnSlot) (us : List Operand) (s' : Store) : Prop
    extends Committed r env args s s' where
  /-- No buffer is dropped. -/
  grows : s.buffers.length ≤ s'.buffers.length
  values : ∃ built, Built r.tape env s.buffers.length s' built ∧
    List.Forall₂ (Fills args built) slots us

/-- New buffers do not matter. -/
theorem Committed.grow {r : Recorder} {env : List Tensor} {args : List Arg} {s s' s'' : Store}
    (h : Committed r env args s s') (hlen : s'.buffers.length = s.buffers.length)
    (hfits : ∀ arg ∈ args, arg.Fits s) (hgrows : s'.buffers <+: s''.buffers) :
    Committed r env args s s'' := by
  have hread : ∀ {loc}, loc < s.buffers.length → s''.read loc = s'.read loc := by
    intro loc hlt
    obtain ⟨extra, hx⟩ := hgrows
    rw [Store.read, Store.read, ← hx, List.getD, List.getD,
      List.getElem?_append_left (by rw [hlen]; exact hlt)]
  constructor
  · intro i v a hw ha
    obtain ⟨hloc, -, -⟩ := hfits _ (List.mem_of_getElem? ha) a rfl
    rw [h.written hw ha]
    show some (Tensor.mk _ _ (s'.read a.loc)) = some (Tensor.mk _ _ (s''.read a.loc))
    rw [hread hloc]
  · intro loc hlt hloc
    rw [hread hlt, h.kept hlt hloc]

theorem ofParts_arity {α β : Type} {returned : Returned α} {parts : List β}
    (h : parts.length = returned.toList.length) :
    (Returned.ofParts returned.arity parts).arity = returned.arity ∧
      (Returned.ofParts returned.arity parts).toList = parts := by
  cases returned with
  | none => exact ⟨rfl, (List.length_eq_zero_iff.mp h).symm⟩
  | single a =>
    obtain ⟨b, rfl⟩ := List.length_eq_one_iff.mp h
    exact ⟨rfl, rfl⟩
  | tuple as => exact ⟨congrArg Arity.tuple h, rfl⟩

section

variable {r : Recorder} {args : List Arg} {s : Store} {env : List Tensor} {name : String}
  {returned : Returned Handle}

/-- No two updated arguments share storage. -/
def OneWriter (r : Recorder) (args : List Arg) : Prop :=
  ∀ ⦃i j : Nat⦄ ⦃v w : ValueId⦄ ⦃a b : NDArray⦄, (i, v) ∈ r.writeBacks → (j, w) ∈ r.writeBacks →
    args[i]? = some (.array a) → args[j]? = some (.array b) → a.loc = b.loc → i = j

/-- The store after the write-backs. -/
theorem commit_host (hr : Reached r)
    (hclass : r.tape.params.map Param.argClass = args.map ArgClass.ofArg)
    (hfits : ∀ a ∈ args, a.Fits s) (henv : r.tape.snapshot (inputsOf args s) = .ok env)
    (hone : OneWriter r args) {writes : List (NDArray × List Elem)}
    (hwrites : ∀ a data, (a, data) ∈ writes ↔ ∃ i v, (i, v) ∈ r.writeBacks ∧
      args[i]? = some (.array a) ∧ data = (env.getD v .blank).data) :
    (commit writes s).buffers.length = s.buffers.length ∧
      Committed r env args s (commit writes s) := by
  have hfit : ∀ w ∈ writes, w.1.loc < s.buffers.length ∧ w.2.length = (w.1.elems s).length ∧
      ∀ e ∈ w.2, e.Canonical w.1.dtype := by
    rintro ⟨a, data⟩ hw
    obtain ⟨i, v, hwb, ha, rfl⟩ := (hwrites a data).mp hw
    exact (writeBack_fits hr hclass hfits henv hwb ha).2
  have hsame : ∀ w ∈ writes, ∀ w' ∈ writes, w.1.loc = w'.1.loc → w.2 = w'.2 := by
    rintro ⟨a, data⟩ hw ⟨b, data'⟩ hw' hloc
    obtain ⟨i, v, hwb, ha, rfl⟩ := (hwrites a data).mp hw
    obtain ⟨j, w, hwb', hb, rfl⟩ := (hwrites b data').mp hw'
    obtain rfl := hone hwb hwb' ha hb hloc
    obtain ⟨x, hx, -, rfl, -⟩ := hr.mem_writeBacks.mp hwb
    obtain ⟨y, hy, -, rfl, -⟩ := hr.mem_writeBacks.mp hwb'
    rw [hx] at hy
    cases hy
    rfl
  obtain ⟨hlen, hin, hout⟩ := read_commit hfit hsame
  refine ⟨hlen, ?_, ?_⟩
  · intro i v a hw ha
    rw [(writeBack_fits hr hclass hfits henv hw ha).1]
    show some (Tensor.mk _ _ _) = some (Tensor.mk _ _ ((commit writes s).read a.loc))
    rw [hin (a, (env.getD v .blank).data) ((hwrites _ _).mpr ⟨i, v, hw, ha, rfl⟩)]
    rfl
  · intro loc _ hloc
    apply hout
    rintro ⟨a, data⟩ hw
    obtain ⟨i, v, hwb, ha, -⟩ := (hwrites a data).mp hw
    exact hloc i v a hwb ha

/-- The returned values of a launch. -/
theorem readAll_host (hr : Reached r) (hvalid : ∀ x ∈ returned.toList, r.Valid x)
    (hclass : r.tape.params.map Param.argClass = args.map ArgClass.ofArg)
    (hfits : ∀ a ∈ args, a.Fits s) (henv : r.tape.snapshot (inputsOf args s) = .ok env)
    {vs : List ValueId} (hvs : ∀ v, v ∈ vs ↔ v ∈ (r.finish name returned).roots) {s₁ : Store}
    (hbase : s.buffers.length ≤ s₁.buffers.length) :
    ∃ os s' built, readAll (readValue (r.finish name returned) (env.map Tensor.shape)
        (collect (vs.map (outputOf (r.finish name returned) env))) args) args []
        (r.finish name returned).outputs s₁ = (.ok os, s') ∧ s₁.buffers <+: s'.buffers ∧
      Built r.tape env s.buffers.length s' built ∧
      List.Forall₂ (Fills args built) (r.finish name returned).outputs os := by
  have hparam : ∀ i, .param i ∈ (r.finish name returned).outputs →
      ∃ o, argOperand args i = .ok o :=
    fun i hi => argOperand_of_slot hr hvalid hclass hi
  have hvalue : ∀ v, .value v ∈ (r.finish name returned).outputs → Builds r.tape env v
      (readValue (r.finish name returned) (env.map Tensor.shape)
        (collect (vs.map (outputOf (r.finish name returned) env))) args v) := by
    intro v hv
    obtain ⟨x, hx, rfl, hnot⟩ := hr.handle_of_valueSlot hvalid hv
    exact readValue_host hr hclass hfits henv hvs (hvalid x hx) hv hnot
  have hnone : Built r.tape env s.buffers.length s₁ [] := ⟨by simp, by simp, by simp⟩
  obtain ⟨os, s', built, hos, hgrows, hbuilt, -, hfill⟩ := readAll_spec hparam hvalue hnone hbase
  exact ⟨os, s', built, hos, hgrows, hbuilt, hfill⟩

/-- What the kernels get for the arguments. -/
theorem given_args (hr : Reached r)
    (hclass : r.tape.params.map Param.argClass = args.map ArgClass.ofArg)
    (hfits : ∀ a ∈ args, a.Fits s) (henv : r.tape.snapshot (inputsOf args s) = .ok env) :
    Host.Given (r.finish name returned) (inputsOf args s) env
      ⟨args.map fun a => a.elems s, env.map Tensor.shape⟩ := by
  refine ⟨hr.recorded, accepts_of_args hr hclass hfits, henv, ?_, rfl⟩
  intro i x hx
  rw [inputsOf, List.getElem?_map, Option.map_eq_some_iff] at hx
  obtain ⟨arg, harg, rfl⟩ := hx
  show (args.map _).getD i [] = _
  rw [List.getD, List.getElem?_map, harg]
  rfl

/-- A launch on the host, once shapes resolve and no hazard is found. -/
theorem launch_host {backend : Backend} (hhost : backend.compile = Host.compile) (hr : Reached r)
    (hvalid : ∀ x ∈ returned.toList, r.Valid x)
    (hclass : r.tape.params.map Param.argClass = args.map ArgClass.ofArg)
    (hfits : ∀ a ∈ args, a.Fits s) (henv : r.tape.snapshot (inputsOf args s) = .ok env)
    (hraces : checkRaces args (r.finish name returned).hazards = .ok ())
    (hone : OneWriter r args) {b : Bundle}
    (hb : ofGraph (r.finish name returned) backend = .ok b) :
    ∃ us s', b.launch args s = (.ok us, s') ∧ us.arity = returned.arity ∧
      Delivered r env args s (r.finish name returned).outputs us.toList s' := by
  obtain ⟨stages, hstages, -⟩ := except_bind_eq_ok.mp hb
  rw [ofGraph_host hr.recorded hhost hstages, Except.ok.injEq] at hb
  obtain ⟨vs, hvs, hrun⟩ := runKernels_host hstages (given_args hr hclass hfits henv)
  obtain ⟨writes, hcommits, hwrites⟩ := commits_host hr hclass hfits henv hvs
  have hshapes : (r.finish name returned).resolveShapes (args.map Arg.shape) =
      .ok (env.map Tensor.shape) := by
    rw [resolveShapes_args hr hclass hfits, henv]
    rfl
  have hprep : b.prepare args s = .ok (env.map Tensor.shape,
      vs.map (outputOf (r.finish name returned) env), writes) := by
    subst hb
    exact prepare_eq_ok.mpr ⟨hshapes, rfl, hraces, hrun, hcommits⟩
  obtain ⟨hlen, hcommitted⟩ := commit_host hr hclass hfits henv hone hwrites
  obtain ⟨os, s', built, hos, hgrows, hbuilt, hfill⟩ :=
    readAll_host hr hvalid hclass hfits henv hvs (Nat.le_of_eq hlen.symm)
  have hcount : os.length = returned.toList.length := by
    rw [← hfill.length_eq]
    exact List.length_map _
  obtain ⟨harity, hlist⟩ := ofParts_arity hcount
  refine ⟨Returned.ofParts returned.arity os, s', ?_, harity, ?_⟩
  · rw [launch_eq, hprep]
    subst hb
    dsimp only
    rw [deliver_eq]
    exact Exec.bind_eq_ok.mpr ⟨os, s', hos, rfl⟩
  · rw [hlist]
    exact ⟨hcommitted.grow hlen hfits hgrows, hlen ▸ hgrows.length_le, built, hbuilt, hfill⟩

/-- A launch fails as the snapshot does. -/
theorem launch_of_snapshot_error (hr : Reached r)
    (hclass : r.tape.params.map Param.argClass = args.map ArgClass.ofArg)
    (hfits : ∀ a ∈ args, a.Fits s) {e : Error}
    (he : r.tape.snapshot (inputsOf args s) = .error e) {b : Bundle}
    (hb : b.graph = r.finish name returned) : b.launch args s = (.error e, s) := by
  have hshapes := resolveShapes_args hr hclass hfits name returned
  rw [he] at hshapes
  rw [launch_eq, prepare, hb, hshapes]
  rfl

end

end ArrayFusion.Bundle
