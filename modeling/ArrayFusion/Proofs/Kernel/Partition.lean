/-
ArrayFusion/Proofs/Kernel/Partition.lean

What the stages of a graph consist of.

Design.  The lists of a stage are closures, so which nodes they hold is
reachability, all the way down (`Reaches`) or down to the reduction
(`ReachesOutside`).  A graph with at most one live reduction has at most two
stages.  The nodes that a root needs are those down to the reduction, the
reduction, and those below it (`Reaches.outside_or_through`), so together the
stages hold the live nodes.

Main result: a graph cannot be split iff two reductions are live, and
otherwise every stage holds exactly what its roots need (`partition_exact`).
-/
import ArrayFusion.Proofs.Graph.Finish
import ArrayFusion.Proofs.Kernel.Scope

namespace ArrayFusion

namespace Graph

variable {g : Graph}

/-! ### What stages are about -/

/-- A value that must be computed: an output of a node that is returned, or
the final value of a parameter that was written. -/
def IsRoot (g : Graph) (v : ValueId) : Prop :=
  (.value v ∈ g.outputs ∧ ∃ n, g.producer v = some n) ∨ ∃ i, (i, v) ∈ g.writeBacks

/-- The initial value of a parameter, or a constant. -/
def IsLeaf (g : Graph) (v : ValueId) : Prop :=
  ∃ form, (∃ i, g.values[v]? = some ⟨form, .param i⟩) ∨ ∃ c, g.values[v]? = some ⟨form, .constant c⟩

/-- A reduction that a root is computed from. -/
def LiveReduction (g : Graph) (n : NodeId) (r : Reduction × Option Nat) : Prop :=
  g.reduction? n = some r ∧ ∃ v, g.IsRoot v ∧ g.Reaches v n

/-- What the nodes of a list read is a leaf, an output of an earlier node of
the list, or an output of a node in `given`. -/
def Supplied (g : Graph) (given nodes : List NodeId) : Prop :=
  ∀ n ∈ nodes, ∀ u ∈ g.readsOf n, g.IsLeaf u ∨ (∃ m ∈ nodes, m < n ∧ g.producer u = some m) ∨
    ∃ m ∈ given, g.producer u = some m

/-- What an elementwise stage consists of. -/
structure ExactElementwise (g : Graph) (stage : Stage) : Prop where
  premap : ∀ n, n ∈ stage.premap ↔ ∃ v ∈ stage.roots, g.Reaches v n
  noReduction : ∀ n ∈ stage.premap, g.reduction? n = none
  ordered : stage.premap.Pairwise (· < ·)
  supplied : g.Supplied [] stage.premap
  postmap : stage.postmap = []

/-- What the stage of a reduction consists of. -/
structure ExactReduction (g : Graph) (stage : Stage) (n : NodeId) (op : Reduction)
    (axis : Option Nat) : Prop where
  premap : ∃ x w, g.nodes[n]? = some ⟨.reduce op axis, [x], [], [w]⟩ ∧
    ∀ m, m ∈ stage.premap ↔ g.Reaches x m
  roots : ∀ v, v ∈ stage.roots ↔ g.IsRoot v ∧ g.Reaches v n
  postmap : ∀ m, m ∈ stage.postmap ↔ ∃ v ∈ stage.roots, g.ReachesOutside [n] v m
  noReduction : ∀ m ∈ stage.premap ++ stage.postmap, g.reduction? m = none
  ordered : stage.premap.Pairwise (· < ·) ∧ stage.postmap.Pairwise (· < ·)
  supplied : g.Supplied [] stage.premap ∧ g.Supplied [n] stage.postmap

/-- What a stage consists of. -/
def Exact (g : Graph) (stage : Stage) : Prop :=
  match stage.kind with
  | .elementwise => g.ExactElementwise stage
  | .reduction n op axis => g.ExactReduction stage n op axis

/-- What the stages of a graph consist of together. -/
structure ExactPartition (g : Graph) (stages : List Stage) : Prop where
  roots : ∀ v, g.IsRoot v ↔ ∃ stage ∈ stages, v ∈ stage.roots
  once : (stages.flatMap Stage.roots).Nodup
  each : ∀ stage ∈ stages, g.Exact stage
  live : ∀ n, (∃ stage ∈ stages, n ∈ stage.nodes) ↔ n ∈ g.live

/-! ### Closures -/

section

variable {roots : List ValueId} {stop : List NodeId}

theorem isLeaf_of_producer {u : ValueId} (hu : u < g.values.length) (hp : g.producer u = none) :
    g.IsLeaf u := by
  have hinfo := List.getElem?_eq_getElem hu
  rcases e : g.values[u] with ⟨form, i | c | ⟨n, k⟩⟩
  · rw [e] at hinfo
    exact ⟨form, .inl ⟨i, hinfo⟩⟩
  · rw [e] at hinfo
    exact ⟨form, .inr ⟨c, hinfo⟩⟩
  · rw [e] at hinfo
    rw [producer_eq_some.mpr ⟨form, k, hinfo⟩] at hp
    cases hp

theorem mem_closure_iff_reachesOutside (h : g.toTape.Recorded) {n : NodeId} :
    n ∈ g.closure roots stop ↔ ∃ v ∈ roots, g.ReachesOutside stop v n := by
  constructor
  · exact reachesOutside_of_mem_closure
  · rintro ⟨v, hv, hr⟩
    exact mem_closure_of_reachesOutside hv hr (reaches_lt h hr.reaches)

theorem mem_closure_iff_reaches (h : g.toTape.Recorded) {n : NodeId} :
    n ∈ g.closure roots [] ↔ ∃ v ∈ roots, g.Reaches v n := by
  constructor
  · exact reaches_of_mem_closure
  · rintro ⟨v, hv, hr⟩
    exact mem_closure hv hr (reaches_lt h hr)

theorem mem_live_iff (h : g.toTape.Recorded) {n : NodeId} :
    n ∈ g.live ↔ ∃ v ∈ g.roots, g.Reaches v n :=
  mem_closure_iff_reaches h

/-- The nodes of a closure read what the closure produces, or what it stops
at. -/
theorem supplied_closure (h : g.toTape.Recorded) : g.Supplied stop (g.closure roots stop) := by
  intro n hn u hu
  obtain ⟨hlt, -, -⟩ := mem_closure_stop_iff.mp hn
  have hnode := List.getElem?_eq_getElem hlt
  rcases hp : g.producer u with - | m
  · rw [readsOf_eq hnode] at hu
    exact .inl (isLeaf_of_producer (h.operand_lt hnode (mem_operands_of_read hu)) hp)
  · by_cases hm : m ∈ stop
    · exact .inr (.inr ⟨m, hm, rfl⟩)
    · refine .inr (.inl ⟨m, ?_, producer_lt_of_read h hu hp, rfl⟩)
      exact mem_closure_of_read hn hu hp (producer_lt h hp) hm

/-- A closure that stops at all reductions that its roots reach has none. -/
theorem reduction?_of_mem_closure (hred : ∀ v ∈ roots, g.ReducesBy v stop) {n : NodeId}
    (hn : n ∈ g.closure roots stop) : g.reduction? n = none := by
  obtain ⟨v, hv, hr⟩ := reachesOutside_of_mem_closure hn
  by_contra hsome
  rw [← ne_eq, Option.ne_none_iff_isSome] at hsome
  exact hr.not_mem (hred v hv n hr.reaches hsome)

end

/-! ### One stage -/

section

variable {roots : List ValueId} {n : NodeId} {op : Reduction} {axis : Option Nat} {x w : ValueId}

/-- An elementwise stage for roots that reach no reduction. -/
theorem exact_elementwiseStage (h : g.toTape.Recorded) (hred : ∀ v ∈ roots, g.ReducesBy v []) :
    g.ExactElementwise (g.elementwiseStage roots) where
  premap _ := mem_closure_iff_reaches h
  noReduction _ hn := reduction?_of_mem_closure hred hn
  ordered := pairwise_closure g roots []
  supplied := supplied_closure h
  postmap := rfl

theorem inputsOf_eq (hn : g.nodes[n]? = some ⟨.reduce op axis, [x], [], [w]⟩) :
    g.inputsOf n = [x] := by
  rw [inputsOf, hn]

/-- The stage of a reduction and the roots that depend on it. -/
theorem exact_reductionStage (h : g.toTape.Recorded)
    (hn : g.nodes[n]? = some ⟨.reduce op axis, [x], [], [w]⟩) (hx : g.ReducesBy x [])
    (hred : ∀ v ∈ roots, g.ReducesBy v [n])
    (hroots : ∀ v, v ∈ roots ↔ g.IsRoot v ∧ g.Reaches v n) :
    g.ExactReduction (g.reductionStage n op axis roots) n op axis := by
  have hpre : (g.reductionStage n op axis roots).premap = g.closure [x] [] := by
    show g.closure (g.inputsOf n) [] = _
    rw [inputsOf_eq hn]
  constructor
  case premap =>
    refine ⟨x, w, hn, ?_⟩
    intro m
    rw [hpre, mem_closure_iff_reaches h]
    simp
  case roots => exact hroots
  case postmap => exact fun m => mem_closure_iff_reachesOutside h
  case noReduction =>
    intro m hm
    rcases List.mem_append.mp hm with hm | hm
    · rw [hpre] at hm
      exact reduction?_of_mem_closure (by simpa using hx) hm
    · exact reduction?_of_mem_closure hred hm
  case ordered => exact ⟨pairwise_closure _ _ _, pairwise_closure _ _ _⟩
  case supplied => exact ⟨supplied_closure h, supplied_closure h⟩

end

/-! ### All stages -/

theorem partition_eq_error {e : Error} :
    g.partition = .error e ↔ ∃ m first a n second b rest,
      g.liveReductions = (m, first, a) :: (n, second, b) :: rest ∧
        e = .trace (.multipleReductions first second) := by
  unfold partition
  split
  · next m first a n second b rest hmany =>
    rw [hmany]
    constructor
    · intro h
      cases h
      exact ⟨m, first, a, n, second, b, rest, rfl, rfl⟩
    · rintro ⟨m, first, a, n, second, b, rest, heq, rfl⟩
      cases heq
      rfl
  · next hnone => simp [hnone]
  · next hone => simp [hone]

/-- The nodes of an elementwise stage are those that its roots reach. -/
theorem node_elementwiseStages (h : g.toTape.Recorded) {rs : List ValueId} {n : NodeId} :
    (∃ stage ∈ if rs.isEmpty then [] else [g.elementwiseStage rs], n ∈ stage.nodes) ↔
      ∃ v ∈ rs, g.Reaches v n := by
  rw [← mem_closure_iff_reaches h]
  constructor
  · rintro ⟨stage, hs, hn⟩
    obtain ⟨-, rfl⟩ := mem_elementwiseStages.mp hs
    simpa [Stage.nodes, elementwiseStage] using hn
  · intro hn
    have hne : rs ≠ [] := by
      rintro rfl
      obtain ⟨v, hv, -⟩ := reaches_of_mem_closure hn
      simp at hv
    refine ⟨_, mem_elementwiseStages.mpr ⟨hne, rfl⟩, ?_⟩
    simpa [Stage.nodes, elementwiseStage] using hn

/-- Graphs of recordings: what is written back was computed. -/
structure Finished (g : Graph) : Prop where
  recorded : g.toTape.Recorded
  writeBacks : ∀ {i : Nat} {v : ValueId}, (i, v) ∈ g.writeBacks → ∃ n, g.producer v = some n

theorem Finished.mem_roots (h : g.Finished) {v : ValueId} : v ∈ g.roots ↔ g.IsRoot v := by
  rw [roots, List.mem_eraseDups, List.mem_filter, List.mem_append, List.mem_filterMap,
    List.mem_map, Option.isSome_iff_exists]
  constructor
  · rintro ⟨⟨slot, hslot, hv⟩ | ⟨⟨i, u⟩, hw, rfl⟩, hp⟩
    · cases slot with
      | param i => cases hv
      | value u =>
        cases hv
        exact .inl ⟨hslot, hp⟩
    · exact .inr ⟨i, hw⟩
  · rintro (⟨hslot, hp⟩ | ⟨i, hw⟩)
    · exact ⟨.inl ⟨_, hslot, rfl⟩, hp⟩
    · exact ⟨.inr ⟨_, hw, rfl⟩, h.writeBacks hw⟩

theorem Finished.mem_liveReductions (h : g.Finished) {n : NodeId} {r : Reduction × Option Nat} :
    (n, r) ∈ g.liveReductions ↔ g.LiveReduction n r := by
  constructor
  · intro hn
    obtain ⟨hlive, hr⟩ := live_of_mem_liveReductions hn
    obtain ⟨v, hv, hreach⟩ := (mem_live_iff h.recorded).mp hlive
    exact ⟨hr, v, h.mem_roots.mp hv, hreach⟩
  · rintro ⟨hr, v, hv, hreach⟩
    exact reducesBy_live h.recorded (h.mem_roots.mpr hv) hreach hr

/-- Live reductions are listed in program order. -/
theorem pairwise_liveReductions (g : Graph) :
    g.liveReductions.Pairwise fun p q => p.1 < q.1 := by
  unfold liveReductions
  rw [List.pairwise_filterMap]
  refine (pairwise_closure g g.roots []).imp ?_
  intro m n hlt p hp q hq
  obtain ⟨r, -, rfl⟩ := Option.map_eq_some_iff.mp hp
  obtain ⟨s, -, rfl⟩ := Option.map_eq_some_iff.mp hq
  exact hlt

/-- The reductions that are named are the first two. -/
theorem Finished.first_of_error (h : g.Finished) {e : Error} (hp : g.partition = .error e) :
    ∃ m n first second a b, m < n ∧ g.LiveReduction m (first, a) ∧ g.LiveReduction n (second, b) ∧
      (∀ k r, g.LiveReduction k r → k = m ∨ n ≤ k) ∧
      e = .trace (.multipleReductions first second) := by
  obtain ⟨m, first, a, n, second, b, rest, hlist, rfl⟩ := partition_eq_error.mp hp
  have hord := g.pairwise_liveReductions
  rw [hlist] at hord
  obtain ⟨hm, hrest⟩ := List.pairwise_cons.mp hord
  obtain ⟨hn, -⟩ := List.pairwise_cons.mp hrest
  refine ⟨m, n, first, second, a, b, hm _ List.mem_cons_self, ?_, ?_, ?_, rfl⟩
  · exact h.mem_liveReductions.mp (by rw [hlist]; simp)
  · exact h.mem_liveReductions.mp (by rw [hlist]; simp)
  · intro k r hk
    have hmem := h.mem_liveReductions.mpr hk
    rw [hlist] at hmem
    rcases List.mem_cons.mp hmem with heq | hmem
    · exact .inl (congrArg Prod.fst heq)
    · rcases List.mem_cons.mp hmem with heq | hmem
      · exact .inr (Nat.le_of_eq (congrArg Prod.fst heq).symm)
      · exact .inr (Nat.le_of_lt (hn _ hmem))

/-- Two live reductions are one too many. -/
theorem Finished.partition_fails_iff (h : g.Finished) :
    (∃ e, g.partition = .error e) ↔
      ∃ m n r s, m ≠ n ∧ g.LiveReduction m r ∧ g.LiveReduction n s := by
  constructor
  · rintro ⟨e, hp⟩
    obtain ⟨m, n, first, second, a, b, hlt, hm, hn, -⟩ := h.first_of_error hp
    exact ⟨m, n, _, _, Nat.ne_of_lt hlt, hm, hn⟩
  · rintro ⟨m, n, r, s, hne, hm, hn⟩
    have hm := h.mem_liveReductions.mpr hm
    have hn := h.mem_liveReductions.mpr hn
    rcases hp : g.partition with e | stages
    · exact ⟨e, rfl⟩
    · exfalso
      rcases partition_eq_ok hp with ⟨hnone, -⟩ | ⟨k, op, axis, hone, -⟩
      · rw [hnone] at hm
        simp at hm
      · exact hne ((eq_of_only hone hm).trans (eq_of_only hone hn).symm)

section

variable {stages : List Stage}

theorem Finished.exact_stages (h : g.Finished) (hp : g.partition = .ok stages) :
    ∀ stage ∈ stages, g.Exact stage := by
  intro stage hs
  have hrun := runnable_of_partition h.recorded hp stage hs
  rcases partition_eq_ok hp with ⟨-, rfl⟩ | ⟨n, op, axis, -, rfl⟩
  · obtain ⟨-, rfl⟩ := mem_elementwiseStages.mp hs
    exact exact_elementwiseStage h.recorded hrun.2
  · rcases List.mem_cons.mp hs with rfl | hs
    · obtain ⟨-, hred, x, w, hn, hx⟩ := hrun
      refine exact_reductionStage h.recorded hn hx hred ?_
      intro v
      rw [List.mem_filter, h.mem_roots]
      apply and_congr_right
      intro _
      exact ⟨reaches_of_dependsOn, fun hr => dependsOn_of_reaches hr (reaches_lt h.recorded hr)⟩
    · obtain ⟨-, rfl⟩ := mem_elementwiseStages.mp hs
      exact exact_elementwiseStage h.recorded hrun.2

/-- No root is computed twice. -/
theorem nodup_roots_of_partition (hp : g.partition = .ok stages) :
    (stages.flatMap Stage.roots).Nodup := by
  have hroots : g.roots.Nodup := nodup_eraseDups _
  rcases partition_eq_ok hp with ⟨-, rfl⟩ | ⟨n, op, axis, -, rfl⟩
  · rw [roots_elementwiseStages]
    exact hroots
  · rw [List.flatMap_cons, roots_elementwiseStages]
    refine List.Nodup.append (hroots.filter _) (hroots.filter _) ?_
    intro v hmain hside
    have hdep := (List.mem_filter.mp hmain).2
    have hnot := (List.mem_filter.mp hside).2
    rw [hdep] at hnot
    cases hnot

/-- The stages compute the live nodes, and nothing else. -/
theorem Finished.nodes_of_partition (h : g.Finished) (hp : g.partition = .ok stages) {k : NodeId} :
    (∃ stage ∈ stages, k ∈ stage.nodes) ↔ k ∈ g.live := by
  have hexact := h.exact_stages hp
  rcases partition_eq_ok hp with ⟨-, rfl⟩ | ⟨n, op, axis, hone, rfl⟩
  · rw [node_elementwiseStages h.recorded, mem_live_iff h.recorded]
  · obtain ⟨x, w, hn, hpre⟩ := (hexact _ List.mem_cons_self).premap
    have hpost := (hexact _ List.mem_cons_self).postmap
    obtain ⟨hlive, -⟩ := live_of_mem_liveReductions (g := g) (n := n) (r := (op, axis))
      (by rw [hone]; simp)
    have hread : g.readsOf n = [x] := by
      rw [readsOf_eq hn]
      rfl
    simp only [List.exists_mem_cons_iff, node_elementwiseStages h.recorded]
    constructor
    · rintro (hk | ⟨v, hv, hr⟩)
      · rcases List.mem_append.mp hk with hk | hk
        · rcases List.mem_append.mp hk with hk | hk
          · exact live_of_reaches_read h.recorded hlive (by simp [hread]) ((hpre k).mp hk)
          · rwa [List.mem_singleton.mp hk]
        · obtain ⟨v, hv, hr⟩ := (hpost k).mp hk
          exact (mem_live_iff h.recorded).mpr ⟨v, (List.mem_filter.mp hv).1, hr.reaches⟩
      · exact (mem_live_iff h.recorded).mpr ⟨v, (List.mem_filter.mp hv).1, hr⟩
    · intro hk
      obtain ⟨v, hv, hr⟩ := (mem_live_iff h.recorded).mp hk
      rcases hdep : g.dependsOn v n with - | -
      · exact .inr ⟨v, List.mem_filter.mpr ⟨hv, by rw [hdep]; rfl⟩, hr⟩
      · -- down to the reduction, the reduction, or below it
        left
        rcases hr.outside_or_through n with hout | rfl | ⟨u, hu, hr⟩
        · apply List.mem_append_right
          exact (hpost k).mpr ⟨v, List.mem_filter.mpr ⟨hv, hdep⟩, hout⟩
        · exact List.mem_append_left _ (List.mem_append_right _ List.mem_cons_self)
        · rw [hread, List.mem_singleton] at hu
          rw [hu] at hr
          exact List.mem_append_left _ (List.mem_append_left _ ((hpre k).mpr hr))

theorem Finished.exact_partition (h : g.Finished) (hp : g.partition = .ok stages) :
    g.ExactPartition stages where
  roots v := by
    rw [← h.mem_roots]
    exact mem_roots_iff hp
  once := nodup_roots_of_partition hp
  each := h.exact_stages hp
  live _ := h.nodes_of_partition hp

end

end Graph

/-! ### Graphs of recordings -/

open Recorder (Reached)

theorem Recorder.Reached.finished {r : Recorder} (h : Reached r) (name : String)
    (returned : Returned Handle) : (r.finish name returned).Finished where
  recorded := h.recorded
  writeBacks hw := by
    obtain ⟨form, n, k, hv⟩ := h.output_of_writeBack hw
    exact ⟨n, Graph.producer_eq_some.mpr ⟨form, k, hv⟩⟩

/-- **Partitioning is exact.**  Take the graph of any recorder that was reached,
by a body (`Bundle.reached_of_record`) or by any other calls, and any handles
as its results.  It cannot be split iff two reductions are live, and the first
two of them are named; otherwise every root belongs to one stage, every stage
holds exactly the nodes that its roots need, and all stages together hold the
live nodes. -/
theorem partition_exact {r : Recorder} (h : Reached r) (name : String)
    (returned : Returned Handle) :
    let g := r.finish name returned
    ((∃ e, g.partition = .error e) ↔
      ∃ m n r s, m ≠ n ∧ g.LiveReduction m r ∧ g.LiveReduction n s) ∧
    (∀ e, g.partition = .error e →
      ∃ m n first second a b, m < n ∧ g.LiveReduction m (first, a) ∧
        g.LiveReduction n (second, b) ∧ (∀ k r, g.LiveReduction k r → k = m ∨ n ≤ k) ∧
        e = .trace (.multipleReductions first second)) ∧
    ∀ stages, g.partition = .ok stages → g.ExactPartition stages := by
  have hg := h.finished name returned
  refine ⟨hg.partition_fails_iff, ?_, ?_⟩
  · exact fun e hp => hg.first_of_error hp
  · exact fun stages hp => hg.exact_partition hp

/-- Quotients are summed and the sum is added to the remainders, which replace
a row of the first array too: the first stage is that of the sum, and both
stages compute quotients and remainders. -/
theorem partition_exact_spread_quotients :
    let params : List ArgClass := List.replicate 2 ⟨.array, some (.int .w64), 1⟩
    ∃ returned r stages, Bundle.record spreadQuotients params "host" .empty = (.ok returned, r) ∧
      (r.finish "kernel" returned).partition = .ok stages ∧
      stages = [⟨.reduction 1 .sum none, [0], [0, 2], [5]⟩, ⟨.elementwise, [0, 3], [], [6]⟩] ∧
      (r.finish "kernel" returned).ExactPartition stages := by
  intro params
  have hok : ∃ returned, (Bundle.record spreadQuotients params "host" .empty).1 = .ok returned ∧
      ((Bundle.record spreadQuotients params "host" .empty).2.finish "kernel" returned).partition =
        .ok [⟨.reduction 1 .sum none, [0], [0, 2], [5]⟩, ⟨.elementwise, [0, 3], [], [6]⟩] := by
    decide +kernel
  rcases hrec : Bundle.record spreadQuotients params "host" .empty with ⟨res, r⟩
  rw [hrec] at hok
  obtain ⟨returned, rfl, hp⟩ := hok
  obtain ⟨-, -, hexact⟩ := partition_exact (Bundle.reached_of_record hrec).1 "kernel" returned
  exact ⟨returned, r, _, rfl, hp, rfl, hexact _ hp⟩

end ArrayFusion
