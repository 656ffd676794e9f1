/-
ArrayFusion/Proofs/Kernel/Buffers.lean

Which buffers the source of a kernel touches, and which of them its header
declares.

Design.  Three parts of a kernel are built apart from each other: loads come
from what the nodes of a block read, stores from the roots and the parameters
they are written back to, and the header from the parameters that the stage
reads and the roots that stay fresh.  Each part is described by a membership
lemma of its own, and the result compares them.

A root has a producer, so it is never the initial value of a parameter: a
parameter is declared because some node reads it, and for no other reason.

Main result: the buffers touched but not declared are those of the parameters
that the stage writes back to and does not read (`mem_undeclaredBuffers`).
-/
import ArrayFusion.Proofs.Kernel.Scope

namespace ArrayFusion

/-- Buffers that a body loads from or stores to. -/
def KernelBody.buffers : KernelBody → List BufferName
  | .map lines => lines.filterMap Line.buffer
  | .fold _ _ loop _ _ after => loop.filterMap Line.buffer ++ after.filterMap Line.buffer

namespace KernelSource

/-- Buffers that the header declares. -/
def header (k : KernelSource) : List BufferName :=
  k.formals.map Formal.buffer

/-- Buffers that the body touches although the header does not declare
them. -/
def undeclaredBuffers (k : KernelSource) : List BufferName :=
  k.body.buffers.filter fun b => decide (b ∉ k.header)

end KernelSource

namespace Graph

variable {g : Graph}

/-- A node of the stage reads the initial value of a parameter. -/
def ReadsParam (g : Graph) (s : Stage) (i : Nat) : Prop :=
  ∃ n ∈ s.nodes, ∃ v ∈ g.readsOf n, g.paramOf v = some i

/-- A root of the stage is written back to a parameter. -/
def WritesParam (g : Graph) (s : Stage) (i : Nat) : Prop :=
  ∃ v ∈ s.roots, g.writeBackOf v = some i

instance (g : Graph) (s : Stage) (i : Nat) : Decidable (g.ReadsParam s i) :=
  inferInstanceAs (Decidable (∃ n ∈ s.nodes, ∃ v ∈ g.readsOf n, g.paramOf v = some i))

instance (g : Graph) (s : Stage) (i : Nat) : Decidable (g.WritesParam s i) :=
  inferInstanceAs (Decidable (∃ v ∈ s.roots, g.writeBackOf v = some i))

theorem paramOf_eq_some {v : ValueId} {i : Nat} :
    g.paramOf v = some i ↔ ∃ form, g.values[v]? = some ⟨form, .param i⟩ := by
  unfold paramOf
  rcases g.values[v]? with - | ⟨form, j | c | ⟨n, k⟩⟩ <;> simp

/-! ### Loads and stores -/

/-- A leaf is loaded from the argument it is the initial value of. -/
theorem buffer_of_mem_loadLine {v : ValueId} {l : Line} {b : BufferName} (hl : l ∈ g.loadLine v)
    (hb : l.buffer = some b) : ∃ i, b = .input i ∧ g.paramOf v = some i := by
  unfold loadLine at hl
  split at hl
  · next form i hv =>
    refine ⟨i, ?_, paramOf_eq_some.mpr ⟨form, hv⟩⟩
    split at hl <;> rw [List.mem_singleton.mp hl] at hb <;> exact (Option.some.inj hb).symm
  · rw [List.mem_singleton.mp hl] at hb
    cases hb
  · simp at hl

/-- Nodes compute on values, not on buffers. -/
theorem buffer_of_mem_nodeLines {n : NodeId} {l : Line} (hl : l ∈ g.nodeLines n) :
    l.buffer = none := by
  unfold nodeLines at hl
  split at hl
  · simp at hl
  · split at hl
    · rcases List.mem_append.mp hl with hl | hl
      · obtain ⟨v, -, rfl⟩ := List.mem_map.mp hl
        rfl
      · rw [List.mem_singleton.mp hl]
        rfl
    · obtain ⟨v, -, rfl⟩ := List.mem_map.mp hl
      rfl
    · obtain ⟨v, -, rfl⟩ := List.mem_map.mp hl
      rfl
    · split at hl
      · rw [List.mem_singleton.mp hl]
        rfl
      · simp at hl
    · simp at hl

/-- A block touches the arguments that its nodes read. -/
theorem buffer_of_mem_blockLines {nodes : List NodeId} {b : BufferName}
    (hb : b ∈ (g.blockLines nodes).filterMap Line.buffer) :
    ∃ i, b = .input i ∧ ∃ n ∈ nodes, ∃ v ∈ g.readsOf n, g.paramOf v = some i := by
  obtain ⟨l, hl, hlb⟩ := List.mem_filterMap.mp hb
  rcases List.mem_append.mp hl with hl | hl
  · obtain ⟨v, hv, hl⟩ := List.mem_flatMap.mp hl
    obtain ⟨i, rfl, hi⟩ := buffer_of_mem_loadLine hl hlb
    obtain ⟨n, hn, hread⟩ := List.mem_flatMap.mp (of_decide_eq_true (List.mem_filter.mp hv).2)
    exact ⟨i, rfl, n, hn, v, hread, hi⟩
  · obtain ⟨n, -, hl⟩ := List.mem_flatMap.mp hl
    rw [buffer_of_mem_nodeLines hl] at hlb
    cases hlb

theorem destination_of_writeBack {v : ValueId} {i : Nat} (hw : g.writeBackOf v = some i)
    (k : Nat) : g.destination k v = .input i := by
  unfold destination
  rw [hw]

theorem destination_of_fresh {v : ValueId} (hw : g.writeBackOf v = none) (k : Nat) :
    g.destination k v = .output k := by
  unfold destination
  rw [hw]

theorem mem_buffers_storeLines {roots : List ValueId} {b : BufferName} :
    b ∈ (g.storeLines roots).filterMap Line.buffer ↔
      ∃ k v, roots[k]? = some v ∧ g.destination k v = b := by
  simp only [storeLines, List.mem_filterMap, List.mem_mapIdx]
  constructor
  · rintro ⟨l, ⟨k, hk, rfl⟩, hb⟩
    exact ⟨k, roots[k], List.getElem?_eq_getElem hk, Option.some.inj hb⟩
  · rintro ⟨k, v, hv, rfl⟩
    obtain ⟨hk, rfl⟩ := List.getElem?_eq_some_iff.mp hv
    exact ⟨_, ⟨k, hk, rfl⟩, rfl⟩

/-- What a kernel stores to. -/
theorem mem_buffers_of_root {s : Stage} {k : Nat} {v : ValueId} (hv : s.roots[k]? = some v) :
    g.destination k v ∈ (g.kernelBody s).buffers := by
  have hstore := (mem_buffers_storeLines (g := g)).mpr ⟨k, v, hv, rfl⟩
  unfold kernelBody
  split
  · show _ ∈ (g.blockLines _ ++ g.storeLines _).filterMap _
    rw [List.filterMap_append]
    exact List.mem_append_right _ hstore
  · show _ ∈ (g.blockLines _).filterMap _ ++ (g.blockLines _ ++ g.storeLines _).filterMap _
    rw [List.filterMap_append]
    exact List.mem_append_right _ (List.mem_append_right _ hstore)

/-- A kernel touches the arguments that its stage reads, and the destinations
of its roots. -/
theorem cases_of_mem_buffers {s : Stage} {b : BufferName} (hb : b ∈ (g.kernelBody s).buffers) :
    (∃ i, b = .input i ∧ g.ReadsParam s i) ∨
      ∃ k v, s.roots[k]? = some v ∧ g.destination k v = b := by
  have hload : ∀ nodes : List NodeId, (∀ n ∈ nodes, n ∈ s.nodes) →
      b ∈ (g.blockLines nodes).filterMap Line.buffer → ∃ i, b = .input i ∧ g.ReadsParam s i := by
    intro nodes hsub hmem
    obtain ⟨i, rfl, n, hn, v, hread, hi⟩ := buffer_of_mem_blockLines hmem
    exact ⟨i, rfl, n, hsub n hn, v, hread, hi⟩
  obtain ⟨kind, premap, postmap, roots⟩ := s
  cases kind with
  | elementwise =>
    have hb : b ∈ (g.blockLines premap ++ g.storeLines roots).filterMap Line.buffer := hb
    rw [List.filterMap_append] at hb
    rcases List.mem_append.mp hb with hb | hb
    · exact .inl (hload premap (fun n hn => List.mem_append_left _ hn) hb)
    · exact .inr (mem_buffers_storeLines.mp hb)
  | reduction n op axis =>
    have hb : b ∈ (g.blockLines premap).filterMap Line.buffer ++
        (g.blockLines postmap ++ g.storeLines roots).filterMap Line.buffer := hb
    rw [List.filterMap_append] at hb
    rcases List.mem_append.mp hb with hb | hb
    · refine .inl (hload premap ?_ hb)
      exact fun n hn => List.mem_append_left _ (List.mem_append_left _ hn)
    · rcases List.mem_append.mp hb with hb | hb
      · exact .inl (hload postmap (fun n hn => List.mem_append_right _ hn) hb)
      · exact .inr (mem_buffers_storeLines.mp hb)

/-! ### The header -/

theorem mem_buffers_argFormal {i : Nat} {b : BufferName} :
    b ∈ (g.argFormal i).map Formal.buffer ↔ i < g.params.length ∧ b = .input i := by
  unfold argFormal
  rcases hp : g.params[i]? with - | p
  · have hge := List.getElem?_eq_none_iff.mp hp
    simp [Nat.not_lt.mpr hge]
  · have hlt := (List.getElem?_eq_some_iff.mp hp).1
    by_cases hk : p.kind = .array <;> simp [hk, hlt, Formal.buffer]

theorem mem_header {s : Stage} {b : BufferName} :
    b ∈ (g.formals s).map Formal.buffer ↔
      (∃ i ∈ g.paramsRead s, b = .input i) ∨
        ∃ k v, s.roots[k]? = some v ∧ g.writeBackOf v = none ∧ b = .output k := by
  rw [formals, List.map_append, List.mem_append]
  apply or_congr
  · rw [List.map_flatMap, List.mem_flatMap]
    apply exists_congr
    intro i
    apply and_congr_right
    intro hi
    rw [mem_buffers_argFormal]
    exact and_iff_right (List.mem_range.mp (List.mem_filter.mp hi).1)
  · simp only [List.mem_map, List.mem_filterMap, List.mem_mapIdx, id]
    constructor
    · rintro ⟨f, ⟨o, ⟨k, hk, rfl⟩, hf⟩, rfl⟩
      unfold rootFormal at hf
      split at hf
      · cases hf
      · next hw =>
        cases hf
        exact ⟨k, s.roots[k], List.getElem?_eq_getElem hk, hw, rfl⟩
    · rintro ⟨k, v, hv, hw, rfl⟩
      obtain ⟨hk, rfl⟩ := List.getElem?_eq_some_iff.mp hv
      refine ⟨.array (some (g.dtype s.roots[k])) (.output k), ⟨_, ⟨k, hk, rfl⟩, ?_⟩, rfl⟩
      unfold rootFormal
      rw [hw]

/-- The parameters of a kernel are those that its stage reads. -/
theorem mem_paramsRead (h : g.toTape.Recorded) {s : Stage}
    (hroots : ∀ v ∈ s.roots, (g.producer v).isSome) {i : Nat} :
    i ∈ g.paramsRead s ↔ g.ReadsParam s i := by
  simp only [paramsRead, List.mem_filter, List.mem_range, List.any_eq_true, beq_iff_eq,
    List.mem_append, List.mem_flatMap]
  constructor
  · rintro ⟨-, v, ⟨n, hn, hread⟩ | hroot, hi⟩
    · exact ⟨n, hn, v, hread, hi⟩
    · -- a root is the output of a node
      obtain ⟨n, hp⟩ := Option.isSome_iff_exists.mp (hroots v hroot)
      obtain ⟨form, k, hv⟩ := producer_eq_some.mp hp
      obtain ⟨form', hv'⟩ := paramOf_eq_some.mp hi
      rw [hv] at hv'
      cases hv'
  · rintro ⟨n, hn, v, hread, hi⟩
    obtain ⟨form, hv⟩ := paramOf_eq_some.mp hi
    exact ⟨(List.getElem?_eq_some_iff.mp (h.param_of_source hv).1).1, v, .inl ⟨n, hn, hread⟩, hi⟩

theorem input_mem_header {s : Stage} {i : Nat} :
    .input i ∈ (g.formals s).map Formal.buffer ↔ i ∈ g.paramsRead s := by
  rw [mem_header]
  constructor
  · rintro (⟨j, hj, heq⟩ | ⟨k, v, -, -, heq⟩)
    · cases heq
      exact hj
    · cases heq
  · exact fun hi => .inl ⟨i, hi, rfl⟩

end Graph

/-! ### Kernels of recordings -/

open ArrayFusion.Bundle (record)

/-- In the kernel of every stage of a recording, the header declares the
parameters of the plan, which are those that the stage reads.  The buffers
touched without being declared are those of the parameters that the stage
writes back to and does not read.  So every load is declared, and so is every
store to a fresh result. -/
theorem mem_undeclaredBuffers {fn : Function} {params : List ArgClass} {tag : String}
    {res : Except Error (Returned Handle)} {r : Recorder}
    (hrec : record fn params tag .empty = (res, r)) (name : String) (returned : Returned Handle)
    {stages : List Stage} (hp : (r.finish name returned).partition = .ok stages) {stage : Stage}
    (hs : stage ∈ stages) (kernel : String) :
    let g := r.finish name returned
    let plan := KernelPlan.ofStage kernel stage g
    (∀ i, .input i ∈ plan.source.header ↔ i ∈ plan.params) ∧
      (∀ i, i ∈ plan.params ↔ g.ReadsParam stage i) ∧
      ∀ b, b ∈ plan.source.undeclaredBuffers ↔
        ∃ i, b = .input i ∧ g.WritesParam stage i ∧ ¬ g.ReadsParam stage i := by
  intro g plan
  obtain ⟨hr, -, -⟩ := Bundle.reached_of_record hrec
  have hroots : ∀ v ∈ stage.roots, (g.producer v).isSome :=
    fun v hv => Graph.producer_of_root ((Graph.mem_roots_iff hp).mpr ⟨stage, hs, hv⟩)
  have hparams : ∀ i, i ∈ g.paramsRead stage ↔ g.ReadsParam stage i :=
    fun i => Graph.mem_paramsRead hr.recorded hroots
  refine ⟨fun i => Graph.input_mem_header, hparams, ?_⟩
  intro b
  have hmem : b ∈ plan.source.undeclaredBuffers ↔
      b ∈ (g.kernelBody stage).buffers ∧ b ∉ (g.formals stage).map Formal.buffer := by
    simp only [KernelSource.undeclaredBuffers, List.mem_filter, decide_eq_true_eq]
    rfl
  rw [hmem]
  constructor
  · rintro ⟨hb, hnot⟩
    rcases Graph.cases_of_mem_buffers hb with ⟨i, rfl, hread⟩ | ⟨k, v, hv, rfl⟩
    · exact absurd (Graph.input_mem_header.mpr ((hparams i).mpr hread)) hnot
    · rcases hw : g.writeBackOf v with - | i
      · -- a fresh result is declared under the position of its root
        have hdecl := Graph.mem_header.mpr (.inr ⟨k, v, hv, hw, rfl⟩)
        rw [Graph.destination_of_fresh hw k] at hnot
        exact absurd hdecl hnot
      · rw [Graph.destination_of_writeBack hw k] at hnot ⊢
        refine ⟨i, rfl, ⟨v, List.mem_of_getElem? hv, hw⟩, fun hread => hnot ?_⟩
        exact Graph.input_mem_header.mpr ((hparams i).mpr hread)
  · rintro ⟨i, rfl, ⟨v, hv, hw⟩, hread⟩
    obtain ⟨k, hk⟩ := List.getElem?_of_mem hv
    have hstore := Graph.mem_buffers_of_root (g := g) hk
    rw [Graph.destination_of_writeBack hw k] at hstore
    refine ⟨hstore, fun hdecl => hread ?_⟩
    exact (hparams i).mp (Graph.input_mem_header.mp hdecl)

/-- A body that adds an array into another, and puts the negated sum into a
third one. -/
def addAndNegate : Function :=
  ⟨"add_and_negate", none,
    [.arg (.one "a") 0, .arg (.one "b") 1, .arg (.one "c") 2,
      .inplace .drop .add "a" "b", .ufunc .drop .negative ["a"] (some ["c"])]⟩

/-- Both arrays are stored to; the header has the first, which is read too, and
not the other one. -/
theorem mem_undeclaredBuffers_add_and_negate :
    let params : List ArgClass := List.replicate 3 ⟨.array, some (.int .w64), 1⟩
    ∃ returned r stages, record addAndNegate params "host" .empty = (.ok returned, r) ∧
      (r.finish "kernel" returned).partition = .ok stages ∧ stages.length = 1 ∧
      ∀ stage ∈ stages,
        let kernel := (KernelPlan.ofStage "kernel" stage (r.finish "kernel" returned)).source
        .input 0 ∈ kernel.header ∧ .input 2 ∈ kernel.undeclaredBuffers := by
  intro params
  have hok : ∃ returned, (record addAndNegate params "host" .empty).1 = .ok returned ∧
      let g := (record addAndNegate params "host" .empty).2.finish "kernel" returned
      ∃ stages, g.partition = .ok stages ∧ stages.length = 1 ∧ ∀ stage ∈ stages,
        g.ReadsParam stage 0 ∧ g.WritesParam stage 0 ∧
          g.WritesParam stage 2 ∧ ¬ g.ReadsParam stage 2 := by
    decide +kernel
  rcases hrec : record addAndNegate params "host" .empty with ⟨res, r⟩
  rw [hrec] at hok
  obtain ⟨returned, rfl, stages, hp, hone, hparam⟩ := hok
  refine ⟨returned, r, stages, rfl, hp, hone, ?_⟩
  intro stage hs
  obtain ⟨hread, -, hwrites, hunread⟩ := hparam stage hs
  obtain ⟨hheader, hparams, hundeclared⟩ :=
    mem_undeclaredBuffers hrec "kernel" returned hp hs "kernel"
  exact ⟨(hheader 0).mpr ((hparams 0).mpr hread),
    (hundeclared _).mpr ⟨2, rfl, hwrites, hunread⟩⟩

/-- A body that stores the negated first argument in the second one. -/
def negateInto : Function :=
  ⟨"negate_into", none,
    [.arg (.one "a") 0, .arg (.one "b") 1, .ufunc .drop .negative ["a"] (some ["b"])]⟩

/-- The header of this kernel has the array it reads, and not the one it
stores to. -/
theorem undeclaredBuffers_negate_into :
    let params : List ArgClass := List.replicate 2 ⟨.array, some (.int .w64), 1⟩
    ∃ returned, (record negateInto params "host" .empty).1 = .ok returned ∧
      let g := (record negateInto params "host" .empty).2.finish "kernel" returned
      ∃ stages, g.partition = .ok stages ∧ ∃ stage ∈ stages,
        let kernel := (KernelPlan.ofStage "kernel" stage g).source
        kernel.header = [.input 0] ∧ kernel.undeclaredBuffers = [.input 1] := by
  decide +kernel

end ArrayFusion
