/-
ArrayFusion/Proofs/Kernel/Stage.lean

The kernels of a graph's stages compute the contents of its roots.

Design.  A value is ready for evaluation when every reduction it reaches has
been done (`ready_of_reaches`).  A partition has at most one live reduction.
The roots that depend on it are computed after it, its input reaches no
reduction because nodes read earlier nodes only, and the other roots do not
reach it.
-/
import ArrayFusion.Proofs.Graph.Reach
import ArrayFusion.Proofs.Kernel.Host

namespace ArrayFusion

/-! ### Values that are ready -/

namespace Graph

variable {g : Graph}

theorem producer_lt (h : g.toTape.Recorded) {v : ValueId} {n : NodeId}
    (hp : g.producer v = some n) : n < g.nodes.length := by
  obtain ⟨form, k, hv⟩ := producer_eq_some.mp hp
  obtain ⟨node, hn, -⟩ := h.output_of_source hv
  exact (List.getElem?_eq_some_iff.mp hn).1

theorem reaches_lt (h : g.toTape.Recorded) {v : ValueId} {n : NodeId} (hr : g.Reaches v n) :
    n < g.nodes.length := by
  induction hr with
  | produced hp => exact producer_lt h hp
  | read _ _ _ ih => exact ih

theorem mem_operands_of_read {node : Node} {u : ValueId} (hu : u ∈ node.reads) :
    u ∈ node.inputs ++ node.targets := by
  unfold Node.reads at hu
  split at hu
  · exact hu
  · exact List.mem_append_left _ hu

theorem readsOf_eq {n : NodeId} {node : Node} (hn : g.nodes[n]? = some node) :
    g.readsOf n = node.reads := by
  rw [readsOf, hn]

/-- The producer of what a node reads comes before it. -/
theorem producer_lt_of_read (h : g.toTape.Recorded) {n m : NodeId} {u : ValueId}
    (hu : u ∈ g.readsOf n) (hp : g.producer u = some m) : m < n := by
  obtain ⟨form, k, hv⟩ := producer_eq_some.mp hp
  unfold readsOf at hu
  split at hu
  · next node hn => exact h.producer_lt hn (mem_operands_of_read hu) hv
  · simp at hu

theorem Reaches.producer {v : ValueId} {n : NodeId} (h : g.Reaches v n) :
    ∃ m, g.producer v = some m := by
  cases h with
  | produced hp => exact ⟨_, hp⟩
  | read hp _ _ => exact ⟨_, hp⟩

/-- A value only reaches nodes up to its producer. -/
theorem reaches_le (h : g.toTape.Recorded) {v : ValueId} {n m : NodeId} (hr : g.Reaches v n)
    (hp : g.producer v = some m) : n ≤ m := by
  induction hr generalizing m with
  | produced hp' =>
    rw [hp] at hp'
    cases hp'
    exact Nat.le_refl _
  | @read v u k n hp' hread hr ih =>
    rw [hp] at hp'
    cases hp'
    obtain ⟨j, hj⟩ := hr.producer
    exact Nat.le_of_lt (Nat.lt_of_le_of_lt (ih hj) (producer_lt_of_read h hread hj))

end Graph

/-- A value is ready if every reduction it reaches has been done. -/
theorem Frame.ready_of_reaches {f : Frame} (h : f.graph.toTape.Recorded) {v : ValueId}
    (hv : v < f.graph.values.length)
    (hred : ∀ n node, f.graph.Reaches v n → f.graph.nodes[n]? = some node →
      node.isReduction = true → ∃ w data, node.outputs = [w] ∧ f.reduced = some (w, data)) :
    f.Ready v := by
  -- along the levels: operands lie below their node
  generalize hl : f.graph.level v = level
  induction level using Nat.strongRecOn generalizing v with
  | ind level ih =>
    subst hl
    have hi := List.getElem?_eq_getElem hv
    rcases e : f.graph.values[v] with ⟨form, i | c | ⟨n, k⟩⟩
    · rw [e] at hi
      exact .leaf hi (by simp)
    · rw [e] at hi
      exact .leaf hi (by simp)
    · rw [e] at hi
      have hp : f.graph.producer v = some n := Graph.producer_eq_some.mpr ⟨form, k, hi⟩
      obtain ⟨node, hn, hk⟩ := h.output_of_source hi
      rcases hr : node.isReduction with - | -
      · refine .node hi hn hr ?_
        intro u hu
        have hread : u ∈ f.graph.readsOf n := (Graph.readsOf_eq hn).symm ▸ hu
        have hlev : f.graph.level u < f.graph.level v := by
          rw [Frame.level_of_value hi]
          unfold Graph.level
          split
          · next m hm => exact Nat.succ_lt_succ (Graph.producer_lt_of_read h hread hm)
          · exact Nat.succ_pos n
        refine ih _ hlev (h.operand_lt hn (Graph.mem_operands_of_read hu)) ?_ rfl
        intro m node' hm
        exact hred m node' (.read hp hread hm)
      · obtain ⟨w, data, hout, hdone⟩ := hred n node (.produced hp) hn hr
        rw [hout] at hk
        obtain rfl : v = w := List.mem_singleton.mp (List.mem_of_getElem? hk)
        exact .reduced hi hdone

/-! ### Stages -/

namespace Graph

variable {g : Graph}

theorem reduction?_eq_some {n : NodeId} {r : Reduction × Option Nat} :
    g.reduction? n = some r ↔ ∃ node, g.nodes[n]? = some node ∧ node.op = .reduce r.1 r.2 := by
  unfold reduction?
  split
  · next op axis ins targets outs hn =>
    constructor
    · intro h
      cases h
      exact ⟨_, hn, rfl⟩
    · rintro ⟨node, hn', hop⟩
      rw [hn] at hn'
      cases hn'
      cases hop
      rfl
  · next hno =>
    constructor
    · intro h
      cases h
    · rintro ⟨⟨op, ins, targets, outs⟩, hn, rfl⟩
      exact absurd hn (hno r.1 r.2 ins targets outs)

/-- The reductions that a value reaches are among those listed. -/
def ReducesBy (g : Graph) (v : ValueId) (allowed : List NodeId) : Prop :=
  ∀ n, g.Reaches v n → (g.reduction? n).isSome → n ∈ allowed

/-- What a stage must satisfy to be run. -/
def Runnable (g : Graph) (stage : Stage) : Prop :=
  (∀ v ∈ stage.roots, v < g.values.length) ∧
  match stage.kind with
  | .elementwise => ∀ v ∈ stage.roots, g.ReducesBy v []
  | .reduction n op axis => (∀ v ∈ stage.roots, g.ReducesBy v [n]) ∧
      ∃ x w, g.nodes[n]? = some ⟨.reduce op axis, [x], [], [w]⟩ ∧ g.ReducesBy x []

theorem Runnable.elementwise {stage : Stage} (h : g.Runnable stage)
    (kind : stage.kind = .elementwise) : ∀ v ∈ stage.roots, g.ReducesBy v [] := by
  have hkind := h.2
  rw [kind] at hkind
  exact hkind

/-- The reduction of a stage: its node, and what may come before it. -/
theorem Runnable.reduction {stage : Stage} (h : g.Runnable stage) {n : NodeId} {op : Reduction}
    {axis : Option Nat} (kind : stage.kind = .reduction n op axis) :
    ∃ x w, g.nodes[n]? = some ⟨.reduce op axis, [x], [], [w]⟩ ∧ g.ReducesBy x [] ∧
      ∀ v ∈ stage.roots, g.ReducesBy v [n] := by
  have hkind := h.2
  rw [kind] at hkind
  obtain ⟨hroots, x, w, hn, hx⟩ := hkind
  exact ⟨x, w, hn, hx, hroots⟩

theorem mem_liveReductions {n : NodeId} (hn : n ∈ g.live) {r : Reduction × Option Nat}
    (hr : g.reduction? n = some r) : (n, r) ∈ g.liveReductions := by
  unfold liveReductions
  exact List.mem_filterMap.mpr ⟨n, hn, by rw [hr]; rfl⟩

theorem live_of_mem_liveReductions {n : NodeId} {r : Reduction × Option Nat}
    (h : (n, r) ∈ g.liveReductions) : n ∈ g.live ∧ g.reduction? n = some r := by
  unfold liveReductions at h
  obtain ⟨m, hm, hr⟩ := List.mem_filterMap.mp h
  obtain ⟨r', hr', heq⟩ := Option.map_eq_some_iff.mp hr
  cases heq
  exact ⟨hm, hr'⟩

/-- Reductions that a root reaches are live. -/
theorem reducesBy_live (h : g.toTape.Recorded) {v : ValueId} (hv : v ∈ g.roots) {n : NodeId}
    (hr : g.Reaches v n) {r : Reduction × Option Nat} (hred : g.reduction? n = some r) :
    (n, r) ∈ g.liveReductions :=
  mem_liveReductions (live_of_reaches hv hr (reaches_lt h hr)) hred

theorem root_lt {v : ValueId} (hv : v ∈ g.roots) : v < g.values.length := by
  have hmem := List.mem_eraseDups.mp hv
  obtain ⟨n, hn⟩ := Option.isSome_iff_exists.mp (List.mem_filter.mp hmem).2
  obtain ⟨form, k, hval⟩ := producer_eq_some.mp hn
  exact (List.getElem?_eq_some_iff.mp hval).1

/-- What is read at a live node reaches live nodes only. -/
theorem live_of_reaches_read (h : g.toTape.Recorded) {n m : NodeId} (hn : n ∈ g.live)
    {u : ValueId} (hu : u ∈ g.readsOf n) (hr : g.Reaches u m) : m ∈ g.live := by
  induction hr generalizing n with
  | produced hp => exact live_of_read hn hu hp (producer_lt h hp)
  | read hp hread _ ih => exact ih (live_of_read hn hu hp (producer_lt h hp)) hread

/-! ### Partitions -/

/-- What a partition is computed from. -/
theorem partition_eq_ok {stages : List Stage} (hp : g.partition = .ok stages) :
    (g.liveReductions = [] ∧
      stages = if g.roots.isEmpty then [] else [g.elementwiseStage g.roots]) ∨
    ∃ n op axis, g.liveReductions = [(n, op, axis)] ∧
      let main := g.roots.filter fun v => g.dependsOn v n
      let side := g.roots.filter fun v => !g.dependsOn v n
      stages = g.reductionStage n op axis main ::
        if side.isEmpty then [] else [g.elementwiseStage side] := by
  unfold partition at hp
  split at hp
  · cases hp
  · next hnone =>
    cases hp
    exact .inl ⟨hnone, rfl⟩
  · next n op axis hone =>
    cases hp
    exact .inr ⟨n, op, axis, hone, rfl⟩

/-- There is no stage for no roots. -/
theorem mem_elementwiseStages {rs : List ValueId} {stage : Stage} :
    (stage ∈ if rs.isEmpty then [] else [g.elementwiseStage rs]) ↔
      rs ≠ [] ∧ stage = g.elementwiseStage rs := by
  cases rs with
  | nil => simp
  | cons v rs => simp

theorem roots_elementwiseStages (g : Graph) (rs : List ValueId) :
    (if rs.isEmpty then [] else [g.elementwiseStage rs]).flatMap Stage.roots = rs := by
  cases rs with
  | nil => rfl
  | cons v rs => simp [elementwiseStage]

section

variable {n : NodeId} {op : Reduction} {axis : Option Nat}

theorem eq_of_only (hone : g.liveReductions = [(n, op, axis)]) {m : NodeId}
    {r : Reduction × Option Nat} (hm : (m, r) ∈ g.liveReductions) : m = n := by
  rw [hone] at hm
  cases List.mem_singleton.mp hm
  rfl

/-- Roots reach no reduction but the only live one. -/
theorem reducesBy_only (h : g.toTape.Recorded) (hone : g.liveReductions = [(n, op, axis)])
    {v : ValueId} (hv : v ∈ g.roots) : g.ReducesBy v [n] := by
  intro m hr hm
  obtain ⟨r, hm⟩ := Option.isSome_iff_exists.mp hm
  exact List.mem_singleton.mpr (eq_of_only hone (reducesBy_live h hv hr hm))

/-- The node of the only live reduction, whose input reaches no reduction. -/
theorem node_of_only (h : g.toTape.Recorded) (hone : g.liveReductions = [(n, op, axis)]) :
    ∃ x w, g.nodes[n]? = some ⟨.reduce op axis, [x], [], [w]⟩ ∧ g.ReducesBy x [] := by
  obtain ⟨hlive, hred⟩ :=
    live_of_mem_liveReductions (n := n) (r := (op, axis)) (by rw [hone]; exact List.mem_cons_self)
  obtain ⟨⟨nop, nins, ntgts, nouts⟩, hn, rfl⟩ := reduction?_eq_some.mp hred
  obtain ⟨x, w, rfl, rfl, rfl⟩ := h.reduce_node hn rfl
  refine ⟨x, w, hn, ?_⟩
  intro m hr hm
  exfalso
  obtain ⟨r, hm⟩ := Option.isSome_iff_exists.mp hm
  have hread : x ∈ g.readsOf n := by
    rw [readsOf_eq hn]
    exact List.mem_cons_self
  -- such a reduction is live, so it is this one, which comes after its input
  obtain rfl := eq_of_only hone (mem_liveReductions (live_of_reaches_read h hlive hread hr) hm)
  obtain ⟨j, hj⟩ := hr.producer
  exact Nat.not_lt_of_le (reaches_le h hr hj) (producer_lt_of_read h hread hj)

end

/-- The stages of a partition can be run. -/
theorem runnable_of_partition (h : g.toTape.Recorded) {stages : List Stage}
    (hp : g.partition = .ok stages) : ∀ stage ∈ stages, g.Runnable stage := by
  intro stage hs
  rcases partition_eq_ok hp with ⟨hnone, rfl⟩ | ⟨n, op, axis, hone, rfl⟩
  · obtain ⟨-, rfl⟩ := mem_elementwiseStages.mp hs
    refine ⟨fun v hv => root_lt hv, ?_⟩
    intro v hv m hr hm
    obtain ⟨r, hm⟩ := Option.isSome_iff_exists.mp hm
    have hlive := reducesBy_live h hv hr hm
    rw [hnone] at hlive
    cases hlive
  · rcases List.mem_cons.mp hs with rfl | hs
    · exact ⟨fun v hv => root_lt (List.mem_filter.mp hv).1,
        fun v hv => reducesBy_only h hone (List.mem_filter.mp hv).1, node_of_only h hone⟩
    · obtain ⟨-, rfl⟩ := mem_elementwiseStages.mp hs
      refine ⟨fun v hv => root_lt (List.mem_filter.mp hv).1, ?_⟩
      intro v hv m hr hm
      obtain ⟨hroot, hside⟩ := List.mem_filter.mp hv
      obtain rfl := List.mem_singleton.mp (reducesBy_only h hone hroot m hr hm)
      rw [dependsOn_of_reaches hr (reaches_lt h hr)] at hside
      cases hside

/-- A stage is elementwise or that of a reduction. -/
theorem mem_partition {stages : List Stage} (hp : g.partition = .ok stages) {stage : Stage}
    (hs : stage ∈ stages) :
    (∃ roots, stage = g.elementwiseStage roots) ∨
      ∃ n op axis roots, stage = g.reductionStage n op axis roots := by
  rcases partition_eq_ok hp with ⟨-, rfl⟩ | ⟨n, op, axis, -, rfl⟩
  · exact .inl ⟨_, (mem_elementwiseStages.mp hs).2⟩
  · rcases List.mem_cons.mp hs with rfl | hs
    · exact .inr ⟨n, op, axis, _, rfl⟩
    · exact .inl ⟨_, (mem_elementwiseStages.mp hs).2⟩

/-- Every root belongs to a stage, and stages have no other roots. -/
theorem mem_roots_iff {stages : List Stage} (hp : g.partition = .ok stages) {v : ValueId} :
    v ∈ g.roots ↔ ∃ stage ∈ stages, v ∈ stage.roots := by
  rw [← List.mem_flatMap]
  rcases partition_eq_ok hp with ⟨-, rfl⟩ | ⟨n, op, axis, -, rfl⟩
  · rw [roots_elementwiseStages]
  · rw [List.flatMap_cons, roots_elementwiseStages, List.mem_append]
    show _ ↔ v ∈ g.roots.filter _ ∨ _
    rw [List.mem_filter, List.mem_filter]
    rcases g.dependsOn v n <;> simp

end Graph

/-! ### Launching a stage -/

namespace Host

variable {g : Graph} {inputs env : List Tensor} {args : KernelInput} {stage : Stage}

/-- What a launch is given belongs to a snapshot. -/
structure Given (g : Graph) (inputs env : List Tensor) (args : KernelInput) : Prop where
  recorded : g.toTape.Recorded
  accepts : g.toTape.Accepts inputs
  snapshot : g.toTape.snapshot inputs = .ok env
  inputs : ∀ (i : Nat) (x : Tensor), inputs[i]? = some x → args.inputs.getD i [] = x.data
  shapes : args.shapes = env.map Tensor.shape

theorem Given.sees (h : Given g inputs env args) :
    Frame.Sees ⟨g, args.inputs, args.shapes, none⟩ inputs env :=
  ⟨h.recorded, h.accepts, h.snapshot, h.inputs, h.shapes, fun _ _ hr => by cases hr⟩

theorem Given.sees_reduced (h : Given g inputs env args) (v : ValueId) :
    Frame.Sees ⟨g, args.inputs, args.shapes, some (v, (env.getD v .blank).data)⟩ inputs env :=
  ⟨h.recorded, h.accepts, h.snapshot, h.inputs, h.shapes, fun _ _ hr => by cases hr; rfl⟩

theorem isReduction_iff {n : NodeId} {node : Node} (hn : g.nodes[n]? = some node) :
    node.isReduction = true ↔ (g.reduction? n).isSome := by
  rw [Option.isSome_iff_exists]
  simp only [Graph.reduction?_eq_some, hn, Option.some.injEq]
  rcases node with ⟨_ | _ | ⟨op, axis⟩ | _, ins, targets, outs⟩
  · simp [Node.isReduction]
  · simp [Node.isReduction]
  · simp [Node.isReduction]
  · simp [Node.isReduction]

section

variable {f : Frame} {v : ValueId}

/-- A value that reaches no reduction is ready at once. -/
theorem ready_of_none (h : f.graph.toTape.Recorded) (hv : v < f.graph.values.length)
    (hred : f.graph.ReducesBy v []) : f.Ready v := by
  apply Frame.ready_of_reaches h hv
  intro n node hr hn hisred
  have := hred n hr ((isReduction_iff hn).mp hisred)
  simp at this

/-- A value that reaches one reduction is ready after it. -/
theorem ready_of_reduced (h : f.graph.toTape.Recorded) (hv : v < f.graph.values.length)
    {n : NodeId} (hred : f.graph.ReducesBy v [n]) {op : Reduction} {axis : Option Nat}
    {x w : ValueId} (hn : f.graph.nodes[n]? = some ⟨.reduce op axis, [x], [], [w]⟩)
    {data : List Elem} (hknown : f.reduced = some (w, data)) : f.Ready v := by
  apply Frame.ready_of_reaches h hv
  intro m node hr hm hisred
  obtain rfl := List.mem_singleton.mp (hred m hr ((isReduction_iff hm).mp hisred))
  rw [hn] at hm
  cases hm
  exact ⟨w, data, rfl, hknown⟩

end

/-- A launch of a stage yields the contents of its roots. -/
theorem launch_stage (h : Given g inputs env args) (hs : g.Runnable stage) (name : String) :
    launch (KernelPlan.ofStage name stage g) args =
      .ok (stage.roots.map fun v => (env.getD v .blank).data) := by
  have hm := Memory.holds_empty g.values.length env
  rcases kind : stage.kind with - | ⟨n, op, axis⟩
  · obtain ⟨m, hmap, -⟩ := map_spec h.sees Memory.sound_find?
      (fun v hv => ready_of_none h.recorded (hs.1 v hv) (hs.elementwise kind v hv)) hm
    simp only [launch, launchWith, run, KernelPlan.ofStage, kind, hmap]
  · obtain ⟨x, w, hn, hx, hroots⟩ := hs.reduction kind
    have hxlt : x < g.values.length := h.recorded.operand_lt hn (by simp)
    obtain ⟨m₁, hred, hm₁⟩ := reduce_spec h.sees Memory.sound_find? hn
      (ready_of_none h.recorded hxlt hx) hm
    obtain ⟨m₂, hmap, -⟩ := map_spec (h.sees_reduced w) Memory.sound_find?
      (fun v hv => ready_of_reduced h.recorded (hs.1 v hv) (hroots v hv) hn rfl) hm₁
    simp only [launch, launchWith, run, KernelPlan.ofStage, kind, Exec.bind_apply, hred, hmap]

/-- The host compiles every stage that can be run. -/
theorem compile_stage (hs : g.Runnable stage) (name : String) :
    compile (KernelPlan.ofStage name stage g) =
      .ok ⟨KernelPlan.ofStage name stage g, launch (KernelPlan.ofStage name stage g)⟩ := by
  have hcheck : check (KernelPlan.ofStage name stage g) = .ok () := by
    rcases kind : stage.kind with - | ⟨n, op, axis⟩
    · simp only [check, KernelPlan.ofStage, kind]
    · obtain ⟨x, w, hn, -⟩ := hs.reduction kind
      have hsome : (g.reduction? n).isSome := (isReduction_iff hn).mp rfl
      simp only [check, KernelPlan.ofStage, kind, hsome, if_true]
  rw [compile, hcheck]
  rfl

end Host

end ArrayFusion
