/-
ArrayFusion/Proofs/Kernel/Scope.lean

Which values the source of a kernel declares before it uses them.

Design.  `Line.undeclared` goes through lines with the values in scope and
collects what is used without having been declared.  A block loads the leaves
that its nodes read and then computes its nodes in program order.  The nodes
of a stage are closed: whatever they read is a leaf, comes from an earlier node
of the same block, or is the result of the reduction (`Closed`).  So a block
uses nothing undeclared, and since every value has one producer it declares
nothing twice.

The loop of a fold loads what its own nodes read.  Its reduction is not one of
them: an input that no node produces is read by the line that folds, and by no
load.

Main result: the values used undeclared are exactly the inputs of a reduction
that no node produces (`undeclared_source`).
-/
import ArrayFusion.Proofs.Fused.Record
import ArrayFusion.Proofs.Kernel.Stage

namespace ArrayFusion

/-! ### Lines -/

namespace Line

/-- Values that lines declare, in order. -/
def declaredBy (lines : List Line) : List ValueId :=
  lines.filterMap declared

/-- Values that lines use although they are not in scope and no earlier line
declares them. -/
def undeclared (scope : List ValueId) : List Line → List ValueId
  | [] => []
  | l :: rest =>
    l.used.filter (fun v => decide (v ∉ scope)) ++ undeclared (scope ++ l.declared.toList) rest

@[simp] theorem declaredBy_nil : declaredBy [] = [] := rfl

theorem declaredBy_cons (l : Line) (lines : List Line) :
    declaredBy (l :: lines) = l.declared.toList ++ declaredBy lines := by
  unfold declaredBy
  rw [List.filterMap_cons]
  rcases l.declared with - | v <;> rfl

@[simp] theorem declaredBy_append (lines more : List Line) :
    declaredBy (lines ++ more) = declaredBy lines ++ declaredBy more :=
  List.filterMap_append

theorem declaredBy_flatMap {α : Type} (xs : List α) (f : α → List Line) :
    declaredBy (xs.flatMap f) = xs.flatMap fun x => declaredBy (f x) := by
  induction xs with
  | nil => rfl
  | cons x xs ih => simp [ih]

theorem undeclared_append (scope : List ValueId) (lines more : List Line) :
    undeclared scope (lines ++ more) =
      undeclared scope lines ++ undeclared (scope ++ declaredBy lines) more := by
  induction lines generalizing scope with
  | nil => simp [undeclared]
  | cons l lines ih => simp [undeclared, ih, declaredBy_cons, List.append_assoc]

/-- What `undeclared` collects, line by line. -/
theorem mem_undeclared {scope : List ValueId} {lines : List Line} {v : ValueId} :
    v ∈ undeclared scope lines ↔ ∃ before l after, lines = before ++ l :: after ∧ v ∈ l.used ∧
      v ∉ scope ∧ v ∉ declaredBy before := by
  constructor
  · intro h
    induction lines generalizing scope with
    | nil => simp [undeclared] at h
    | cons l lines ih =>
      rcases List.mem_append.mp h with h | h
      · obtain ⟨hu, hs⟩ := List.mem_filter.mp h
        exact ⟨[], l, lines, rfl, hu, of_decide_eq_true hs, by simp⟩
      · obtain ⟨before, l', after, rfl, hu, hs, hb⟩ := ih h
        rw [List.mem_append, not_or] at hs
        refine ⟨l :: before, l', after, rfl, hu, hs.1, ?_⟩
        rw [declaredBy_cons, List.mem_append, not_or]
        exact ⟨hs.2, hb⟩
  · rintro ⟨before, l, after, rfl, hu, hs, hb⟩
    rw [undeclared_append]
    apply List.mem_append_right
    apply List.mem_append_left
    refine List.mem_filter.mpr ⟨hu, decide_eq_true ?_⟩
    rw [List.mem_append, not_or]
    exact ⟨hs, hb⟩

/-- Lines that use only what is in scope before all of them. -/
theorem undeclared_eq_nil {scope : List ValueId} {lines : List Line}
    (h : ∀ l ∈ lines, ∀ v ∈ l.used, v ∈ scope) : undeclared scope lines = [] := by
  rw [List.eq_nil_iff_forall_not_mem]
  intro v hv
  obtain ⟨before, l, after, rfl, hu, hs, -⟩ := mem_undeclared.mp hv
  exact hs (h l (by simp) v hu)

end Line

namespace KernelBody

/-- Values that a body uses without a declaration in front of the use.  The
loop of a fold is a block of its own; the lines after it see the result, and
nothing of what the loop declares. -/
def undeclared : KernelBody → List ValueId
  | .map lines => Line.undeclared [] lines
  | .fold _ _ loop input result after =>
    Line.undeclared [] loop ++ [input].filter (fun v => decide (v ∉ Line.declaredBy loop)) ++
      Line.undeclared [result] after

/-- Values declared in each block. -/
def blocks : KernelBody → List (List ValueId)
  | .map lines => [Line.declaredBy lines]
  | .fold _ _ loop _ result after => [Line.declaredBy loop, result :: Line.declaredBy after]

end KernelBody

namespace Graph

variable {g : Graph}

open Line (declaredBy undeclared)

/-! ### Loads -/

/-- Only leaves are loaded. -/
theorem declaredBy_loadLine (g : Graph) (v : ValueId) :
    declaredBy (g.loadLine v) =
      if v < g.values.length ∧ g.producer v = none then [v] else [] := by
  unfold loadLine producer
  rcases hv : g.values[v]? with - | ⟨form, i | c | ⟨n, k⟩⟩
  · simp [List.getElem?_eq_none_iff.mp hv]
  · have hlt := (List.getElem?_eq_some_iff.mp hv).1
    by_cases hk : form.kind = .array <;> simp [hk, hlt, declaredBy, Line.declared]
  · have hlt := (List.getElem?_eq_some_iff.mp hv).1
    simp [hlt, declaredBy, Line.declared]
  · simp

theorem used_of_mem_loadLine {v : ValueId} {l : Line} (hl : l ∈ g.loadLine v) : l.used = [] := by
  unfold loadLine at hl
  split at hl
  · split at hl <;> rw [List.mem_singleton.mp hl] <;> rfl
  · rw [List.mem_singleton.mp hl]
    rfl
  · simp at hl

/-- A block declares the leaves that its nodes read. -/
theorem mem_declaredBy_loadLines {nodes : List NodeId} {v : ValueId} :
    v ∈ declaredBy (g.loadLines nodes) ↔
      (∃ n ∈ nodes, v ∈ g.readsOf n) ∧ v < g.values.length ∧ g.producer v = none := by
  rw [loadLines, Line.declaredBy_flatMap, List.mem_flatMap]
  simp only [declaredBy_loadLine, List.mem_filter, List.mem_range, decide_eq_true_eq,
    List.mem_flatMap]
  constructor
  · rintro ⟨u, ⟨-, hread⟩, hu⟩
    split at hu
    · next hleaf =>
      obtain rfl := List.mem_singleton.mp hu
      exact ⟨hread, hleaf⟩
    · simp at hu
  · rintro ⟨hread, hleaf⟩
    exact ⟨v, ⟨hleaf.1, hread⟩, by rw [if_pos hleaf]; exact List.mem_singleton_self v⟩

theorem nodup_declaredBy_loadLines (g : Graph) (nodes : List NodeId) :
    (declaredBy (g.loadLines nodes)).Nodup := by
  rw [loadLines, Line.declaredBy_flatMap, List.nodup_flatMap]
  constructor
  · intro v _
    rw [declaredBy_loadLine]
    split <;> simp
  · refine (List.nodup_range.filter _).imp ?_
    intro u v hne w hw hw'
    simp only [declaredBy_loadLine] at hw hw'
    split at hw <;> simp_all

theorem undeclared_loadLines (g : Graph) (scope : List ValueId) (nodes : List NodeId) :
    undeclared scope (g.loadLines nodes) = [] := by
  apply Line.undeclared_eq_nil
  intro l hl v hv
  obtain ⟨u, -, hl⟩ := List.mem_flatMap.mp hl
  rw [used_of_mem_loadLine hl] at hv
  simp at hv

/-! ### Nodes -/

/-- The lines of a node declare its outputs and use what it reads. -/
structure Computes (node : Node) (lines : List Line) : Prop where
  outputs : (declaredBy lines).Perm node.outputs
  reads : ∀ {scope : List ValueId}, (∀ u ∈ node.reads, u ∈ scope) → undeclared scope lines = []

/-- A node computed by a single line. -/
theorem computes_of_line {node : Node} {l : Line} {v : ValueId} (hout : node.outputs = [v])
    (hl : l.declared = some v) (hused : ∀ u ∈ l.used, u ∈ node.reads) : Computes node [l] := by
  constructor
  · rw [hout, declaredBy, List.filterMap_cons, hl]
    exact List.Perm.refl _
  · intro scope hscope
    apply Line.undeclared_eq_nil
    intro l' hl' u hu
    rw [List.mem_singleton.mp hl'] at hu
    exact hscope u (hused u hu)

/-- The second output is declared in a line of its own, in front of the line
that sets both. -/
theorem computes_of_two_lines {node : Node} {d d' : DType} {v w : ValueId} {t : Template}
    {operands : List (DType × ValueId)} (hout : node.outputs = [v, w])
    (hused : ∀ u ∈ operands.map (·.2), u ∈ node.reads) :
    Computes node [.declare d' w, .compute d v t operands (some w)] := by
  constructor
  · rw [hout]
    exact List.Perm.swap v w []
  · intro scope hscope
    have hfirst : undeclared scope [.declare d' w] = [] :=
      Line.undeclared_eq_nil (by simp [Line.used])
    show undeclared scope ([.declare d' w] ++ [.compute d v t operands (some w)]) = []
    rw [Line.undeclared_append, hfirst, List.nil_append]
    apply Line.undeclared_eq_nil
    intro l hl u hu
    rw [List.mem_singleton.mp hl] at hu
    rcases List.mem_append.mp hu with hu | hu
    · exact List.mem_append_left _ (hscope u (hused u hu))
    · exact List.mem_append_right _ hu

theorem nodeLines_computes (h : g.toTape.Recorded) {n : NodeId} {node : Node}
    (hn : g.nodes[n]? = some node) (hred : node.isReduction = false) :
    Computes node (g.nodeLines n) := by
  have hinputs : ∀ u ∈ node.inputs, u ∈ node.reads := by
    intro u hu
    unfold Node.reads
    split
    · exact List.mem_append_left _ hu
    · exact hu
  obtain ⟨op, inputs, targets, outputs⟩ := node
  cases op with
  | ufunc f loop =>
    have hoperands : ∀ u ∈ (loop.inputs.zip inputs).map (·.2),
        u ∈ Node.reads ⟨.ufunc f loop, inputs, targets, outputs⟩ := by
      intro u hu
      obtain ⟨p, hp, rfl⟩ := List.mem_map.mp hu
      exact hinputs p.2 (List.of_mem_zip hp).2
    rcases h.ufunc_node hn rfl with ⟨v, hv⟩ | ⟨v, w, hvw⟩
    · obtain rfl : outputs = [v] := hv
      unfold nodeLines
      rw [hn]
      apply computes_of_line rfl rfl
      intro u hu
      exact hoperands u (by simpa [Line.used] using hu)
    · obtain rfl : outputs = [v, w] := hvw
      unfold nodeLines
      rw [hn]
      exact computes_of_two_lines rfl hoperands
  | cast d =>
    obtain ⟨x, v, hx, -, hv⟩ := h.cast_node hn rfl
    cases hx
    cases hv
    unfold nodeLines
    rw [hn]
    exact computes_of_line rfl rfl (by simpa [Line.used] using hinputs)
  | reduce op axis => cases hred
  | assign region =>
    obtain ⟨x, y, v, hx, hy, hv⟩ := h.assign_node hn rfl
    cases hx
    cases hy
    cases hv
    unfold nodeLines
    rw [hn]
    cases region with
    | full => exact computes_of_line rfl rfl (by simpa [Line.used] using hinputs)
    | rows start stop =>
      -- the rows that stay are read from the target
      exact computes_of_line rfl rfl (by simp [Line.used, Node.reads])

/-! ### Blocks -/

/-- Nodes in program order that are no reductions, each of which reads leaves,
values in scope, and values of nodes of the list. -/
structure Closed (g : Graph) (scope : List ValueId) (nodes : List NodeId) : Prop where
  ordered : nodes.Pairwise (· < ·)
  computed : ∀ n ∈ nodes, ∃ node, g.nodes[n]? = some node ∧ node.isReduction = false
  reads : ∀ n ∈ nodes, ∀ u ∈ g.readsOf n, u ∈ scope ∨ ∀ m, g.producer u = some m → m ∈ nodes

namespace Closed

variable {scope : List ValueId} {nodes : List NodeId}

theorem computes (hc : g.Closed scope nodes) (h : g.toTape.Recorded) {n : NodeId}
    (hn : n ∈ nodes) : ∃ node, g.nodes[n]? = some node ∧ Computes node (g.nodeLines n) := by
  obtain ⟨node, hget, hred⟩ := hc.computed n hn
  exact ⟨node, hget, nodeLines_computes h hget hred⟩

/-- The lines of a node declare the values that it produces. -/
theorem mem_declaredBy_nodeLines (hc : g.Closed scope nodes) (h : g.toTape.Recorded) {n : NodeId}
    (hn : n ∈ nodes) {v : ValueId} :
    v ∈ declaredBy (g.nodeLines n) ↔ g.producer v = some n := by
  obtain ⟨node, hget, hcomp⟩ := hc.computes h hn
  rw [hcomp.outputs.mem_iff]
  constructor
  · intro hv
    obtain ⟨k, hk⟩ := List.getElem?_of_mem hv
    obtain ⟨form, hinfo⟩ := h.source_of_output hget hk
    exact producer_eq_some.mpr ⟨form, k, hinfo⟩
  · intro hp
    obtain ⟨form, k, hinfo⟩ := producer_eq_some.mp hp
    obtain ⟨node', hget', hk⟩ := h.output_of_source hinfo
    cases hget.symm.trans hget'
    exact List.mem_of_getElem? hk

/-- A block declares the leaves that its nodes read, and what they produce. -/
theorem mem_declaredBy_blockLines (hc : g.Closed scope nodes) (h : g.toTape.Recorded)
    {v : ValueId} :
    v ∈ declaredBy (g.blockLines nodes) ↔
      ((∃ n ∈ nodes, v ∈ g.readsOf n) ∧ v < g.values.length ∧ g.producer v = none) ∨
        ∃ n ∈ nodes, g.producer v = some n := by
  rw [blockLines, Line.declaredBy_append, List.mem_append, mem_declaredBy_loadLines,
    Line.declaredBy_flatMap, List.mem_flatMap]
  apply or_congr Iff.rfl
  apply exists_congr
  intro n
  apply and_congr_right
  intro hn
  exact hc.mem_declaredBy_nodeLines h hn

/-- A smaller member of an ordered list stands in front. -/
theorem mem_before {before rest : List NodeId} {m n : NodeId}
    (hord : (before ++ n :: rest).Pairwise (· < ·)) (hm : m ∈ before ++ n :: rest)
    (hlt : m < n) : m ∈ before := by
  rcases List.mem_append.mp hm with hm | hm
  · exact hm
  · obtain ⟨hhead, -⟩ := List.pairwise_cons.mp (List.pairwise_append.mp hord).2.1
    rcases List.mem_cons.mp hm with rfl | hm
    · exact absurd hlt (Nat.lt_irrefl m)
    · exact absurd (hhead m hm) (Nat.lt_asymm hlt)

/-- Whatever a node reads is in scope, loaded, or declared by the nodes in
front of it. -/
theorem mem_scope_of_read (hc : g.Closed scope nodes) (h : g.toTape.Recorded)
    {before rest : List NodeId} {n : NodeId} (hsplit : before ++ n :: rest = nodes) {u : ValueId}
    (hread : u ∈ g.readsOf n) :
    u ∈ scope ++ declaredBy (g.loadLines nodes) ++ declaredBy (before.flatMap g.nodeLines) := by
  have hn : n ∈ nodes := by
    rw [← hsplit]
    simp
  rcases hc.reads n hn u hread with hscope | hmem
  · exact List.mem_append_left _ (List.mem_append_left _ hscope)
  · rcases hp : g.producer u with - | m
    · obtain ⟨node, hget, -⟩ := hc.computed n hn
      have hlt : u < g.values.length :=
        h.operand_lt hget (mem_operands_of_read (readsOf_eq hget ▸ hread))
      apply List.mem_append_left
      apply List.mem_append_right
      exact mem_declaredBy_loadLines.mpr ⟨⟨n, hn, hread⟩, hlt, hp⟩
    · have hbefore : m ∈ before :=
        mem_before (hsplit ▸ hc.ordered) (hsplit ▸ hmem m hp) (producer_lt_of_read h hread hp)
      apply List.mem_append_right
      rw [Line.declaredBy_flatMap, List.mem_flatMap]
      exact ⟨m, hbefore, (hc.mem_declaredBy_nodeLines h (hmem m hp)).mpr hp⟩

/-- A block uses nothing undeclared. -/
theorem undeclared_blockLines (hc : g.Closed scope nodes) (h : g.toTape.Recorded) :
    undeclared scope (g.blockLines nodes) = [] := by
  rw [blockLines, Line.undeclared_append, undeclared_loadLines, List.nil_append]
  -- along the nodes still to come, with those in front of them declared
  suffices hrest : ∀ rest before : List NodeId, before ++ rest = nodes →
      undeclared (scope ++ declaredBy (g.loadLines nodes) ++
        declaredBy (before.flatMap g.nodeLines)) (rest.flatMap g.nodeLines) = [] by
    simpa using hrest nodes [] rfl
  intro rest
  induction rest with
  | nil =>
    intro before _
    rfl
  | cons n rest ih =>
    intro before hsplit
    obtain ⟨node, hget, hcomp⟩ := hc.computes h (hsplit ▸ by simp : n ∈ nodes)
    have hreads := fun u (hu : u ∈ node.reads) =>
      hc.mem_scope_of_read h hsplit ((readsOf_eq hget).symm ▸ hu)
    have hnext := ih (before ++ [n]) (by rw [List.append_assoc]; exact hsplit)
    rw [List.flatMap_append, Line.declaredBy_append] at hnext
    rw [List.flatMap_cons, Line.undeclared_append, hcomp.reads hreads, List.nil_append,
      List.append_assoc]
    simpa using hnext

/-- A block declares nothing twice. -/
theorem nodup_blockLines (hc : g.Closed scope nodes) (h : g.toTape.Recorded) :
    (declaredBy (g.blockLines nodes)).Nodup := by
  rw [blockLines, Line.declaredBy_append]
  apply List.Nodup.append (nodup_declaredBy_loadLines g nodes)
  · rw [Line.declaredBy_flatMap, List.nodup_flatMap]
    constructor
    · intro n hn
      obtain ⟨node, hget, hcomp⟩ := hc.computes h hn
      rw [hcomp.outputs.nodup_iff]
      exact (h.pairwise_outputs hget).imp Nat.ne_of_lt
    · -- different nodes produce different values
      refine hc.ordered.imp_of_mem ?_
      intro n m hn hm hlt v hv hv'
      have hp := (hc.mem_declaredBy_nodeLines h hn).mp hv
      have hp' := (hc.mem_declaredBy_nodeLines h hm).mp hv'
      rw [hp, Option.some.injEq] at hp'
      exact Nat.ne_of_lt hlt hp'
  · intro v hleaf hout
    rw [Line.declaredBy_flatMap, List.mem_flatMap] at hout
    obtain ⟨n, hn, hv⟩ := hout
    have hp := (hc.mem_declaredBy_nodeLines h hn).mp hv
    rw [(mem_declaredBy_loadLines.mp hleaf).2.2] at hp
    cases hp

end Closed

/-- The nodes of a closure are closed if every reduction that the roots reach
is one where the closure stops, and its result is in scope. -/
theorem closed_closure (h : g.toTape.Recorded) {roots scope : List ValueId} {stop : List NodeId}
    (hred : ∀ v ∈ roots, g.ReducesBy v stop)
    (hscope : ∀ {u : ValueId} {m : NodeId}, g.producer u = some m → m ∈ stop → u ∈ scope) :
    g.Closed scope (g.closure roots stop) where
  ordered := pairwise_closure g roots stop
  computed n hn := by
    obtain ⟨hlt, -, hstop⟩ := mem_closure_stop_iff.mp hn
    refine ⟨g.nodes[n], List.getElem?_eq_getElem hlt, ?_⟩
    rw [Bool.eq_false_iff]
    intro hisred
    obtain ⟨v, hv, hr⟩ := reaches_of_mem_closure hn
    apply hstop
    exact hred v hv n hr ((Host.isReduction_iff (List.getElem?_eq_getElem hlt)).mp hisred)
  reads n hn u hu := by
    by_cases hall : ∃ m, g.producer u = some m ∧ m ∈ stop
    · obtain ⟨m, hp, hm⟩ := hall
      exact .inl (hscope hp hm)
    · right
      intro m hp
      exact mem_closure_of_read hn hu hp (producer_lt h hp) fun hm => hall ⟨m, hp, hm⟩

/-! ### Stores -/

theorem declaredBy_storeLines (g : Graph) (roots : List ValueId) :
    declaredBy (g.storeLines roots) = [] := by
  rw [declaredBy, List.filterMap_eq_nil_iff]
  intro l hl
  obtain ⟨k, hk, rfl⟩ := List.mem_mapIdx.mp hl
  rfl

theorem undeclared_storeLines {scope roots : List ValueId} (h : ∀ v ∈ roots, v ∈ scope) :
    undeclared scope (g.storeLines roots) = [] := by
  apply Line.undeclared_eq_nil
  intro l hl v hv
  obtain ⟨k, hk, rfl⟩ := List.mem_mapIdx.mp hl
  rw [List.mem_singleton.mp hv]
  exact h _ (List.getElem_mem hk)

/-- A block with the stores of its roots. -/
theorem undeclared_blockLines_stores (h : g.toTape.Recorded) {roots scope : List ValueId}
    {stop : List NodeId} (hc : g.Closed scope (g.closure roots stop))
    (hscope : ∀ {u : ValueId} {m : NodeId}, g.producer u = some m → m ∈ stop → u ∈ scope)
    (hroots : ∀ v ∈ roots, (g.producer v).isSome) :
    undeclared scope (g.blockLines (g.closure roots stop) ++ g.storeLines roots) = [] := by
  rw [Line.undeclared_append, hc.undeclared_blockLines h, List.nil_append]
  apply undeclared_storeLines
  intro v hv
  obtain ⟨n, hp⟩ := Option.isSome_iff_exists.mp (hroots v hv)
  by_cases hn : n ∈ stop
  · exact List.mem_append_left _ (hscope hp hn)
  · apply List.mem_append_right
    exact (hc.mem_declaredBy_blockLines h).mpr
      (.inr ⟨n, mem_closure_of_root hv hp (producer_lt h hp) hn, hp⟩)

/-! ### Stages -/

/-- Inputs of the reduction of a stage that no node produces. -/
def leafInputs (g : Graph) (s : Stage) : List ValueId :=
  match s.kind with
  | .elementwise => []
  | .reduction n _ _ => (g.inputsOf n).filter fun v => (g.producer v).isNone

/-- What the kernel of a stage declares. -/
structure Scoped (g : Graph) (s : Stage) : Prop where
  undeclared : (g.kernelBody s).undeclared = g.leafInputs s
  once : ∀ block ∈ (g.kernelBody s).blocks, block.Nodup

theorem scoped_elementwiseStage (h : g.toTape.Recorded) {roots : List ValueId}
    (hred : ∀ v ∈ roots, g.ReducesBy v []) (hroots : ∀ v ∈ roots, (g.producer v).isSome) :
    g.Scoped (g.elementwiseStage roots) := by
  have hnone : ∀ {u : ValueId} {m : NodeId}, g.producer u = some m → m ∈ ([] : List NodeId) →
      u ∈ ([] : List ValueId) := fun _ hm => by simp at hm
  have hc := closed_closure h hred hnone
  constructor
  · exact undeclared_blockLines_stores h hc hnone hroots
  · intro block hb
    obtain rfl : block = _ := List.mem_singleton.mp hb
    rw [Line.declaredBy_append, declaredBy_storeLines, List.append_nil]
    exact hc.nodup_blockLines h

/-- Nothing is computed in front of a reduction whose input no node
produces. -/
theorem closure_leaf {x : ValueId} (hx : g.producer x = none) (stop : List NodeId) :
    g.closure [x] stop = [] := by
  rw [List.eq_nil_iff_forall_not_mem]
  intro n hn
  obtain ⟨v, hv, hr⟩ := reaches_of_mem_closure hn
  obtain ⟨m, hm⟩ := hr.producer
  rw [List.mem_singleton.mp hv, hx] at hm
  cases hm

/-- The line that folds finds its input declared unless that is a leaf. -/
theorem undeclared_input (h : g.toTape.Recorded) {x : ValueId} (hx : g.ReducesBy x []) :
    [x].filter (fun v => decide (v ∉ declaredBy (g.blockLines (g.closure [x] [])))) =
      [x].filter fun v => (g.producer v).isNone := by
  apply List.filter_congr
  intro v hv
  obtain rfl := List.mem_singleton.mp hv
  rcases hp : g.producer v with - | n
  · rw [closure_leaf hp]
    simp [blockLines, loadLines]
  · have hc : g.Closed [] (g.closure [v] []) :=
      closed_closure h (by simpa using hx) fun _ hm => by simp at hm
    have hmem : v ∈ declaredBy (g.blockLines (g.closure [v] [])) :=
      (hc.mem_declaredBy_blockLines h).mpr (.inr ⟨n,
        mem_closure_of_root List.mem_cons_self hp (producer_lt h hp) (by simp), hp⟩)
    simp [hmem]

theorem scoped_reductionStage (h : g.toTape.Recorded) {n : NodeId} {op : Reduction}
    {axis : Option Nat} {x w : ValueId} (hn : g.nodes[n]? = some ⟨.reduce op axis, [x], [], [w]⟩)
    (hx : g.ReducesBy x []) {roots : List ValueId} (hred : ∀ v ∈ roots, g.ReducesBy v [n])
    (hroots : ∀ v ∈ roots, (g.producer v).isSome) :
    g.Scoped (g.reductionStage n op axis roots) := by
  have hinputs : g.inputsOf n = [x] := by
    unfold inputsOf
    rw [hn]
  -- the reduction has one output, so what it produces is its result
  have hresult : ∀ {u : ValueId} {m : NodeId}, g.producer u = some m → m ∈ [n] → u ∈ [w] := by
    intro u m hp hm
    obtain rfl := List.mem_singleton.mp hm
    obtain ⟨form, k, hinfo⟩ := producer_eq_some.mp hp
    obtain ⟨node, hget, hk⟩ := h.output_of_source hinfo
    cases hn.symm.trans hget
    exact List.mem_of_getElem? hk
  have hbefore : g.Closed [] (g.closure [x] []) :=
    closed_closure h (by simpa using hx) fun _ hm => by simp at hm
  have hafter : g.Closed [w] (g.closure roots [n]) := closed_closure h hred hresult
  have hbody : g.kernelBody (g.reductionStage n op axis roots) =
      .fold op (g.dtype w) (g.blockLines (g.closure [x] [])) x w
        (g.blockLines (g.closure roots [n]) ++ g.storeLines roots) := by
    simp only [kernelBody, reductionStage, hn, hinputs]
    rfl
  constructor
  · rw [hbody]
    show undeclared [] _ ++ _ ++ undeclared [w] _ = (g.inputsOf n).filter _
    rw [hbefore.undeclared_blockLines h, undeclared_input h hx,
      undeclared_blockLines_stores h hafter hresult hroots, hinputs, List.nil_append,
      List.append_nil]
  · rw [hbody]
    intro block hb
    rcases List.mem_cons.mp hb with rfl | hb
    · exact hbefore.nodup_blockLines h
    · obtain rfl := List.mem_singleton.mp hb
      rw [Line.declaredBy_append, declaredBy_storeLines, List.append_nil, List.nodup_cons]
      refine ⟨?_, hafter.nodup_blockLines h⟩
      -- the result is produced by the reduction, which no line after it computes
      intro hmem
      obtain ⟨form, hinfo⟩ := h.source_of_output (k := 0) hn rfl
      have hp : g.producer w = some n := producer_eq_some.mpr ⟨form, 0, hinfo⟩
      rcases (hafter.mem_declaredBy_blockLines h).mp hmem with ⟨-, -, hleaf⟩ | ⟨m, hm, hpm⟩
      · rw [hp] at hleaf
        cases hleaf
      · rw [hp, Option.some.injEq] at hpm
        exact (mem_closure_stop_iff.mp hm).2.2 (List.mem_singleton.mpr hpm.symm)

theorem producer_of_root {v : ValueId} (hv : v ∈ g.roots) : (g.producer v).isSome :=
  (List.mem_filter.mp (List.mem_eraseDups.mp hv)).2

/-- The stages of a partition. -/
theorem scoped_of_partition (h : g.toTape.Recorded) {stages : List Stage}
    (hp : g.partition = .ok stages) {stage : Stage} (hs : stage ∈ stages) : g.Scoped stage := by
  have hrun := runnable_of_partition h hp stage hs
  have hroots : ∀ v ∈ stage.roots, (g.producer v).isSome :=
    fun v hv => producer_of_root ((mem_roots_iff hp).mpr ⟨stage, hs, hv⟩)
  rcases mem_partition hp hs with ⟨roots, rfl⟩ | ⟨n, op, axis, roots, rfl⟩
  · exact scoped_elementwiseStage h hrun.2 hroots
  · obtain ⟨-, hred, x, w, hn, hx⟩ := hrun
    exact scoped_reductionStage h hn hx hred hroots

end Graph

/-! ### Kernels of recordings -/

open ArrayFusion.Bundle (record)

/-- In the kernel of every stage of a recording, no block declares a value
twice, and the values used without having been declared are those inputs of
the reduction that no node produces.  So there are none if the stage is
elementwise, or if a node computes what is reduced. -/
theorem undeclared_source {fn : Function} {params : List ArgClass} {tag : String}
    {res : Except Error (Returned Handle)} {r : Recorder}
    (hrec : record fn params tag .empty = (res, r)) (name : String) (returned : Returned Handle)
    {stages : List Stage} (hp : (r.finish name returned).partition = .ok stages) {stage : Stage}
    (hs : stage ∈ stages) (kernel : String) :
    let g := r.finish name returned
    let body := (KernelPlan.ofStage kernel stage g).source.body
    body.undeclared = g.leafInputs stage ∧ ∀ block ∈ body.blocks, block.Nodup := by
  obtain ⟨hr, -, -⟩ := Bundle.reached_of_record hrec
  have hscoped := Graph.scoped_of_partition (g := r.finish name returned) hr.recorded hp hs
  exact ⟨hscoped.undeclared, hscoped.once⟩

/-- A body that sums quotients and adds the sum to the remainders, which also
replace a row of the first array. -/
def spreadQuotients : Function :=
  ⟨"spread_quotients", none,
    [.arg (.one "a") 0, .arg (.one "b") 1, .ufunc (.many ["q", "m"]) .divmod ["a", "b"] none,
      .reduce (.one "s") .sum "q" none, .ufunc (.one "t") .add ["s", "m"] none,
      .assign "a" "m" (.rows 0 1), .ret (.single "t")]⟩

/-- Both stages compute the quotients and remainders themselves: in the loop of
the fold, after it, and once more for the row. -/
theorem undeclared_source_spread_quotients :
    let params : List ArgClass := List.replicate 2 ⟨.array, some (.int .w64), 1⟩
    ∃ returned r stages, record spreadQuotients params "host" .empty = (.ok returned, r) ∧
      (r.finish "kernel" returned).partition = .ok stages ∧
      stages.map Stage.isReduction = [true, false] ∧
      ∀ stage ∈ stages,
        let kernel := (KernelPlan.ofStage "kernel" stage (r.finish "kernel" returned)).source
        kernel.body.undeclared = [] ∧ ∀ block ∈ kernel.body.blocks, block.Nodup := by
  intro params
  have hok : ∃ returned, (record spreadQuotients params "host" .empty).1 = .ok returned ∧
      let g := (record spreadQuotients params "host" .empty).2.finish "kernel" returned
      ∃ stages, g.partition = .ok stages ∧ stages.map Stage.isReduction = [true, false] ∧
        ∀ stage ∈ stages, g.leafInputs stage = [] := by
    decide +kernel
  rcases hrec : record spreadQuotients params "host" .empty with ⟨res, r⟩
  rw [hrec] at hok
  obtain ⟨returned, rfl, stages, hp, hkinds, hleaf⟩ := hok
  refine ⟨returned, r, stages, rfl, hp, hkinds, ?_⟩
  intro stage hs
  obtain ⟨hundeclared, honce⟩ := undeclared_source hrec "kernel" returned hp hs "kernel"
  exact ⟨hundeclared.trans (hleaf stage hs), honce⟩

/-- A body that sums its argument. -/
def sumOfArgument : Function :=
  ⟨"sum_of_argument", none,
    [.arg (.one "a") 0, .reduce (.one "s") .sum "a" none, .ret (.single "s")]⟩

/-- The loop of this kernel folds the argument's value without loading it. -/
theorem undeclared_sum_of_argument :
    let params : List ArgClass := [⟨.array, some (.int .w64), 1⟩]
    ∃ returned, (record sumOfArgument params "host" .empty).1 = .ok returned ∧
      let g := (record sumOfArgument params "host" .empty).2.finish "kernel" returned
      ∃ stages, g.partition = .ok stages ∧
        ∃ stage ∈ stages, (KernelPlan.ofStage "kernel" stage g).source.body.undeclared = [0] := by
  decide +kernel

end ArrayFusion
