/-
ArrayFusion/Proofs/Kernel/Fresh.lean

Evaluation without a memory, for arguments of any contents.

Design.  A frame is resolved if its shapes are those that a call found, so
that the shapes of each node go together (`Node.Fits`).  A recipe then asks
for elements that exist, and it makes an element of what it is given
(`recipe_serves`); the siblings that it finds on the way are made alike at
the same index.  Nothing here looks at contents, so it holds for arguments
that are too short as well.

Main results: what is found does not depend on the depth if this is large
enough (`evalFresh_depth`), so that it satisfies an equation of its own
(`evalFresh_recipe`); and it depends on the offset of the index alone
(`evalFresh_congr`).
-/
import ArrayFusion.Proofs.Graph.Shapes
import ArrayFusion.Proofs.Kernel.Point

namespace ArrayFusion.Frame

variable {f : Frame}

/-! ### Resolved frames -/

/-- What an evaluation reads belongs to a graph whose shapes were resolved. -/
structure Resolved (f : Frame) : Prop where
  recorded : f.graph.toTape.Recorded
  shapes : ∃ params, f.graph.toTape.shapes params = .ok f.shapes
  /-- Only the output of a reduction is known before. -/
  reduced : ∀ (v : ValueId) (data : List Elem), f.reduced = some (v, data) →
    ∃ (n : NodeId) (node : Node), f.graph.nodes[n]? = some node ∧ node.isReduction = true ∧
      v ∈ node.outputs

/-- The index names an element of the value: it is one of a shape that the
value broadcasts into. -/
def Locates (f : Frame) (v : ValueId) (index : List Nat) : Prop :=
  v < f.graph.values.length ∧ ∃ s : Shape, (f.shapeOf v).BroadcastsInto s ∧ s.InRange index

theorem locates_of_inRange {v : ValueId} (hv : v < f.graph.values.length) {index : List Nat}
    (hi : (f.shapeOf v).InRange index) : f.Locates v index :=
  ⟨hv, _, Shape.broadcastsInto_refl _, hi⟩

theorem Locates.own {v : ValueId} {index : List Nat} (h : f.Locates v index) :
    (f.shapeOf v).InRange ((f.shapeOf v).unbroadcast index) := by
  obtain ⟨-, s, hb, hi⟩ := h
  exact Shape.inRange_unbroadcast hb hi

/-- Elements at one offset of values of one shape are at one index. -/
theorem Locates.unbroadcast_eq {v w : ValueId} {i j : List Nat} (hv : f.Locates v i)
    (hw : f.Locates w j) (hshape : f.shapeOf w = f.shapeOf v)
    (hflat : (f.shapeOf w).sourceOffset j = (f.shapeOf v).sourceOffset i) :
    (f.shapeOf w).unbroadcast j = (f.shapeOf v).unbroadcast i := by
  have hw := hw.own
  rw [Shape.sourceOffset_eq, Shape.sourceOffset_eq] at hflat
  rw [hshape] at hw hflat ⊢
  exact Shape.offset_inj hw hv.own hflat

theorem Resolved.length_shapes (h : f.Resolved) : f.shapes.length = f.graph.values.length := by
  obtain ⟨params, hs⟩ := h.shapes
  exact Tape.length_shapes hs

theorem Locates.offset_lt {v : ValueId} {index : List Nat} (h : f.Locates v index) :
    (f.shapeOf v).sourceOffset index < (f.shapeOf v).count := by
  rw [Shape.sourceOffset_eq]
  exact Shape.offset_lt_count h.own

theorem Resolved.fits (h : f.Resolved) {n : NodeId} {node : Node}
    (hn : f.graph.nodes[n]? = some node) : node.Fits f.shapeOf := by
  obtain ⟨params, hs⟩ := h.shapes
  exact h.recorded.fits hs hn

/-- An output of a node that is not a reduction is not known before. -/
theorem Resolved.not_reduced (h : f.Resolved) {n : NodeId} {node : Node}
    (hn : f.graph.nodes[n]? = some node) (hp : node.isReduction = false) {v : ValueId}
    (hv : v ∈ node.outputs) (data : List Elem) : f.reduced ≠ some (v, data) := by
  intro hr
  obtain ⟨m, node', hm, hred, hv'⟩ := h.reduced v data hr
  obtain ⟨k, hk⟩ := List.getElem?_of_mem hv
  obtain ⟨j, hj⟩ := List.getElem?_of_mem hv'
  obtain ⟨form, hsrc⟩ := h.recorded.source_of_output hn hk
  obtain ⟨form', hsrc'⟩ := h.recorded.source_of_output hm hj
  rw [hsrc] at hsrc'
  cases hsrc'
  rw [show f.graph.nodes[n]? = some node from hn] at hm
  cases hm
  rw [hp] at hred
  cases hred

/-- A frame stays resolved when its reduction was done. -/
theorem Resolved.reduce (h : f.Resolved) {n : NodeId} {op : Reduction} {axis : Option Nat}
    {x w : ValueId} (hn : f.graph.nodes[n]? = some ⟨.reduce op axis, [x], [], [w]⟩)
    {known : ValueId × List Elem} (hknown : known.1 = w) :
    Resolved { f with reduced := some known } where
  recorded := h.recorded
  shapes := h.shapes
  reduced v data hr := by
    cases hr
    exact ⟨n, _, hn, rfl, by simp [← hknown]⟩

/-! ### What recipes ask for -/

/-- A node with a recipe is not a reduction, and the recipe asks for values
that the node reads. -/
theorem reads_of_recipe {n : NodeId} {node : Node} (hn : f.graph.nodes[n]? = some node) {k : Nat}
    {own : List Nat} {r : Recipe} (h : f.recipe n k own = .ok r) :
    node.isReduction = false ∧ ∀ need ∈ r.needs, need.1 ∈ node.reads := by
  simp only [recipe, hn] at h
  rcases hop : node.op with ⟨u, loop⟩ | d | ⟨op, axis⟩ | region
  · rw [hop] at h
    cases h
    refine ⟨by simp [Node.isReduction, hop], ?_⟩
    intro need hneed
    obtain ⟨p, hp, rfl⟩ := List.mem_map.mp hneed
    simpa [Node.reads, hop] using (List.of_mem_zip hp).1
  · rw [hop] at h
    dsimp only at h
    split at h
    · next x xs hins =>
      cases h
      refine ⟨by simp [Node.isReduction, hop], ?_⟩
      simp [castRecipe, Node.reads, hop, hins]
    · cases h
  · rw [hop] at h
    cases h
  · rw [hop] at h
    dsimp only at h
    split at h
    · next x xs y ys hins htargets =>
      refine ⟨by simp [Node.isReduction, hop], ?_⟩
      unfold assignRecipe at h
      cases region with
      | full =>
        cases h
        simp [castRecipe, Node.reads, hop, hins]
      | rows start stop =>
        dsimp only at h
        split at h
        · split at h
          · cases h
          · cases h
            simp [castRecipe, Node.reads, hop, hins]
        · cases h
          simp [copyRecipe, Node.reads, hop, htargets]
    · cases h

/-- A value with a recipe is the output of a node. -/
theorem node_of_recipeOf {v : ValueId} {own : List Nat} {r : Recipe}
    (h : f.recipeOf v own = .ok r) :
    ∃ form n k node, f.graph.values[v]? = some ⟨form, .output n k⟩ ∧
      f.graph.nodes[n]? = some node ∧ f.recipe n k own = .ok r := by
  unfold recipeOf at h
  split at h
  · next form n k hv =>
    rcases hn : f.graph.nodes[n]? with - | node
    · simp only [recipe, hn] at h
      cases h
    · exact ⟨form, n, k, node, hv, hn, h⟩
  · cases h

/-- What a recipe for an element does, whatever the contents are. -/
structure Serves (f : Frame) (n : NodeId) (node : Node) (v : ValueId) (own : List Nat)
    (r : Recipe) : Prop where
  located : ∀ need ∈ r.needs, f.Locates need.1 need.2
  /-- It makes an element, and finds siblings that are made alike. -/
  make : ∀ args : List Elem, args.length = r.needs.length →
    ∃ e found, r.make args = .ok (e, found) ∧ ∀ p ∈ found, f.shapeOf p.1 = f.shapeOf v ∧
      ∃ j r' rest, node.outputs[j]? = some p.1 ∧ f.recipe n j own = .ok r' ∧
        r'.needs = r.needs ∧ r'.make args = .ok (p.2, rest)

theorem serves_castRecipe {n : NodeId} {node : Node} {v x : ValueId} {own index : List Nat}
    (hx : f.Locates x index) (d : DType) : f.Serves n node v own (castRecipe x d index) := by
  refine ⟨?_, ?_⟩
  · intro need hneed
    rwa [List.mem_singleton.mp hneed]
  · intro args hargs
    obtain ⟨a, rfl⟩ := List.length_eq_one_iff.mp hargs
    exact ⟨a.cast d, [], rfl, by simp⟩

theorem serves_copyRecipe {n : NodeId} {node : Node} {v x : ValueId} {own index : List Nat}
    (hx : f.Locates x index) : f.Serves n node v own (copyRecipe x index) := by
  refine ⟨?_, ?_⟩
  · intro need hneed
    rwa [List.mem_singleton.mp hneed]
  · intro args hargs
    obtain ⟨a, rfl⟩ := List.length_eq_one_iff.mp hargs
    exact ⟨a, [], rfl, by simp⟩

theorem serves_ufuncRecipe (h : f.Resolved) {n : NodeId} {node : Node} {u : Ufunc} {loop : Loop}
    (hn : f.graph.nodes[n]? = some node) (hop : node.op = .ufunc u loop) {k : Nat} {v : ValueId}
    (hk : node.outputs[k]? = some v) {own : List Nat} (hown : (f.shapeOf v).InRange own) :
    f.Serves n node v own (f.ufuncRecipe node u loop k own) := by
  have hfits := h.fits hn
  rw [Node.Fits, hop] at hfits
  obtain ⟨s, hsame, hbroadcast⟩ := hfits
  have houtput : ∀ w ∈ node.outputs, f.shapeOf w = s :=
    fun w hw => hsame w (List.mem_append_right _ hw)
  have hvs := houtput v (List.mem_of_getElem? hk)
  have htwo : ∀ {j : Nat} {w : ValueId}, node.outputs[j]? = some w → j < 2 := by
    intro j w hj
    have hlt := (List.getElem?_eq_some_iff.mp hj).1
    rcases h.recorded.ufunc_node hn hop with ⟨a, ha⟩ | ⟨a, b, hab⟩
    · rw [ha] at hlt
      exact Nat.lt_succ_of_lt hlt
    · rw [hab] at hlt
      exact hlt
  refine ⟨?_, ?_⟩
  · intro need hneed
    obtain ⟨p, hp, rfl⟩ := List.mem_map.mp hneed
    have hx := (List.of_mem_zip hp).1
    refine ⟨h.recorded.operand_lt hn (List.mem_append_left _ hx), s, hbroadcast _ hx, ?_⟩
    rwa [hvs] at hown
  · intro args _
    -- all outputs come from one run of the loop
    generalize hrow : u.apply loop (args.zipWith Elem.cast loop.inputs) = row
    have hmake : ∀ {j : Nat} {p : ValueId × Elem}, (f.loopOutputs node row)[j]? = some p →
        (f.ufuncRecipe node u loop j own).make args = .ok (p.2, f.loopOutputs node row) := by
      intro j p hp
      simp only [ufuncRecipe, hrow, hp]
    refine ⟨_, _, hmake (getElem?_loopOutputs row hk (htwo hk)), ?_⟩
    intro p hp
    obtain ⟨j, hj⟩ := List.getElem?_of_mem hp
    have hout : node.outputs[j]? = some p.1 := by
      rw [loopOutputs, List.getElem?_map, Option.map_eq_some_iff] at hj
      obtain ⟨q, hq, rfl⟩ := hj
      exact (List.getElem?_zip_eq_some.mp hq).1
    refine ⟨(houtput p.1 (List.mem_of_getElem? hout)).trans hvs.symm, j,
      f.ufuncRecipe node u loop j own, _, hout, ?_, rfl, hmake hj⟩
    simp only [recipe, hn, hop]

/-- An index of what has rows names one. -/
theorem row_of_inRange {start stop : Nat} {s inner : Shape}
    (h : (Region.rows start stop).shapeIn s = .ok inner) {own : List Nat} (hown : s.InRange own) :
    ∃ row rest, own = row :: rest := by
  obtain ⟨len, ds, hd, -⟩ := Region.shapeIn_rows h
  have hr := Shape.inRange_iff.mp hown
  rw [hd] at hr
  cases hr with
  | cons _ _ => exact ⟨_, _, rfl⟩

theorem serves_assignRecipe (h : f.Resolved) {n : NodeId} {node : Node} {region : Region}
    (hn : f.graph.nodes[n]? = some node) (hop : node.op = .assign region) {x y v : ValueId}
    (hins : node.inputs = [x]) (htargets : node.targets = [y]) (houts : node.outputs = [v])
    {own : List Nat} (hown : (f.shapeOf v).InRange own) :
    ∃ r, f.assignRecipe x y region own = .ok r ∧ f.Serves n node v own r := by
  have hfits := h.fits hn
  rw [Node.Fits, hop] at hfits
  have hx : x < f.graph.values.length := h.recorded.operand_lt hn (by simp [hins])
  have hy : y < f.graph.values.length := h.recorded.operand_lt hn (by simp [htargets])
  cases region with
  | full =>
    obtain ⟨s, hsame, hbroadcast⟩ := hfits
    rw [hsame v (by simp [houts])] at hown
    exact ⟨_, rfl, serves_castRecipe ⟨hx, s, hbroadcast x (by simp [hins]), hown⟩ _⟩
  | rows start stop =>
    obtain ⟨s, inner, hsame, hinner, hbroadcast⟩ := hfits
    have htarget : f.shapeOf y = s := hsame y (by simp [htargets])
    rw [hsame v (by simp [houts])] at hown
    obtain ⟨row, rest, rfl⟩ := row_of_inRange hinner hown
    by_cases hrow : ((Region.rows start stop).bounds s).1 ≤ row ∧
        row < ((Region.rows start stop).bounds s).2
    · have hindex : (Region.rows start stop).sourceIndex? s (row :: rest) =
          some ((row - ((Region.rows start stop).bounds s).1) :: rest) := by
        simp only [Region.sourceIndex?, if_pos hrow]
      refine ⟨_, by simp only [assignRecipe, htarget, List.headD_cons, if_pos hrow]; rfl, ?_⟩
      exact serves_castRecipe ⟨hx, inner, hbroadcast x (by simp [hins]),
        Region.inRange_sourceIndex hinner hown hindex⟩ _
    · refine ⟨_, by simp only [assignRecipe, htarget, List.headD_cons, if_neg hrow]; rfl, ?_⟩
      exact serves_copyRecipe (locates_of_inRange hy (htarget ▸ hown))

/-- Nodes that are not reductions have recipes, which do what they should. -/
theorem recipe_serves (h : f.Resolved) {n : NodeId} {node : Node}
    (hn : f.graph.nodes[n]? = some node) (hp : node.isReduction = false) {k : Nat} {v : ValueId}
    (hk : node.outputs[k]? = some v) {own : List Nat} (hown : (f.shapeOf v).InRange own) :
    ∃ r, f.recipe n k own = .ok r ∧ f.Serves n node v own r := by
  have honly : ∀ {w : ValueId}, node.outputs = [w] → v = w := by
    intro w hw
    rw [hw] at hk
    exact List.mem_singleton.mp (List.mem_of_getElem? hk)
  rcases hop : node.op with ⟨u, loop⟩ | d | ⟨op, axis⟩ | region
  · exact ⟨_, by simp only [recipe, hn, hop], serves_ufuncRecipe h hn hop hk hown⟩
  · obtain ⟨x, w, hins, -, houts⟩ := h.recorded.cast_node hn hop
    obtain rfl := honly houts
    have hfits := h.fits hn
    rw [Node.Fits, hop] at hfits
    obtain ⟨s, hsame, hbroadcast⟩ := hfits
    rw [hsame v (by simp [houts])] at hown
    refine ⟨castRecipe x d own, by simp only [recipe, hn, hop, hins], ?_⟩
    exact serves_castRecipe ⟨h.recorded.operand_lt hn (by simp [hins]), s,
      hbroadcast x (by simp [hins]), hown⟩ d
  · simp [Node.isReduction, hop] at hp
  · obtain ⟨x, y, w, hins, htargets, houts⟩ := h.recorded.assign_node hn hop
    obtain rfl := honly houts
    obtain ⟨r, hr, hserves⟩ := serves_assignRecipe h hn hop hins htargets houts hown
    exact ⟨r, by simp only [recipe, hn, hop, hins, htargets, hr], hserves⟩

/-- The recipe of an element, with the node that it belongs to. -/
theorem serves_of_recipeOf (h : f.Resolved) {v : ValueId} {index : List Nat}
    (hloc : f.Locates v index) {r : Recipe}
    (hrec : f.recipeOf v ((f.shapeOf v).unbroadcast index) = .ok r) :
    ∃ n node, f.graph.level v = n + 1 ∧ f.graph.nodes[n]? = some node ∧ node.isReduction = false ∧
      (∀ need ∈ r.needs, need.1 ∈ node.reads) ∧
      f.Serves n node v ((f.shapeOf v).unbroadcast index) r := by
  obtain ⟨form, n, k, node, hv, hn, hr⟩ := node_of_recipeOf hrec
  obtain ⟨hp, hreads⟩ := reads_of_recipe hn hr
  obtain ⟨node', hn', hk⟩ := h.recorded.output_of_source hv
  obtain rfl : node' = node := Option.some.inj (hn'.symm.trans hn)
  obtain ⟨r', hr', hserves⟩ := recipe_serves h hn hp hk hloc.own
  rw [hr] at hr'
  cases hr'
  exact ⟨n, node', level_of_value hv, hn, hp, hreads, hserves⟩

/-! ### Evaluation -/

section Equations

variable {depth : Nat} {v : ValueId} {index : List Nat}

theorem evalFresh_of_leaf {e : Elem}
    (h : f.leaf v ((f.shapeOf v).sourceOffset index) = .ok (some e)) :
    f.evalFresh (depth + 1) v index = .ok e := by
  rw [evalFresh, h]
  rfl

theorem evalFresh_of_leaf_error {e : Error}
    (h : f.leaf v ((f.shapeOf v).sourceOffset index) = .error e) :
    f.evalFresh (depth + 1) v index = .error e := by
  rw [evalFresh, h]
  rfl

theorem evalFresh_of_recipe_error {e : Error}
    (h : f.leaf v ((f.shapeOf v).sourceOffset index) = .ok none)
    (hr : f.recipeOf v ((f.shapeOf v).unbroadcast index) = .error e) :
    f.evalFresh (depth + 1) v index = .error e := by
  rw [evalFresh, h, except_bind_ok]
  dsimp only
  rw [hr, except_bind_error]

theorem evalFresh_of_recipe {r : Recipe}
    (h : f.leaf v ((f.shapeOf v).sourceOffset index) = .ok none)
    (hr : f.recipeOf v ((f.shapeOf v).unbroadcast index) = .ok r) :
    f.evalFresh (depth + 1) v index = do
      let args ← r.needs.mapM fun need => f.evalFresh depth need.1 need.2
      return (← r.make args).1 := by
  rw [evalFresh, h, except_bind_ok]
  dsimp only
  rw [hr, except_bind_ok]

end Equations

/-- A depth above the level of a value is as good as any other. -/
theorem evalFresh_depth (h : f.graph.toTape.Recorded) {d d' : Nat} {v : ValueId}
    (hd : f.graph.level v < d) (hd' : f.graph.level v < d') (index : List Nat) :
    f.evalFresh d v index = f.evalFresh d' v index := by
  induction d generalizing d' v index with
  | zero => exact absurd hd (Nat.not_lt_zero _)
  | succ d ih =>
    obtain ⟨d', rfl⟩ := Nat.exists_eq_succ_of_ne_zero (Nat.ne_of_gt (Nat.zero_lt_of_lt hd'))
    rcases hleaf : f.leaf v ((f.shapeOf v).sourceOffset index) with err | - | e
    · rw [evalFresh_of_leaf_error hleaf, evalFresh_of_leaf_error hleaf]
    · rcases hrec : f.recipeOf v ((f.shapeOf v).unbroadcast index) with err | r
      · rw [evalFresh_of_recipe_error hleaf hrec, evalFresh_of_recipe_error hleaf hrec]
      · rw [evalFresh_of_recipe hleaf hrec, evalFresh_of_recipe hleaf hrec]
        -- what the recipe asks for lies at lower levels
        obtain ⟨form, n, k, node, hv, hn, hr⟩ := node_of_recipeOf hrec
        rw [level_of_value hv] at hd hd'
        rw [mapM_congr fun need hneed => ?_]
        have hlevel := level_of_read h hn ((reads_of_recipe hn hr).2 need hneed)
        exact ih (by omega) (by omega) need.2
    · rw [evalFresh_of_leaf hleaf, evalFresh_of_leaf hleaf]

/-- The equation of an element that is made after a recipe. -/
theorem evalFresh_recipe (h : f.graph.toTape.Recorded) {v : ValueId} {index : List Nat} {r : Recipe}
    (hleaf : f.leaf v ((f.shapeOf v).sourceOffset index) = .ok none)
    (hrec : f.recipeOf v ((f.shapeOf v).unbroadcast index) = .ok r) :
    f.evalFresh f.depth v index = do
      let args ← r.needs.mapM fun need => f.evalFresh f.depth need.1 need.2
      return (← r.make args).1 := by
  obtain ⟨form, n, k, node, -, hn, hr⟩ := node_of_recipeOf hrec
  have hlt : n < f.graph.nodes.length := (List.getElem?_eq_some_iff.mp hn).1
  show f.evalFresh (f.graph.nodes.length + 1) v index = _
  rw [evalFresh_of_recipe hleaf hrec, mapM_congr fun need hneed => ?_]
  have hlevel := level_of_read h hn ((reads_of_recipe hn hr).2 need hneed)
  exact evalFresh_depth h (Nat.lt_of_le_of_lt hlevel hlt) (level_lt_depth h need.1) need.2

/-- Indices at one offset have one element. -/
theorem evalFresh_congr {v : ValueId} {i j : List Nat} (hi : f.Locates v i) (hj : f.Locates v j)
    (hflat : (f.shapeOf v).sourceOffset i = (f.shapeOf v).sourceOffset j) (depth : Nat) :
    f.evalFresh depth v i = f.evalFresh depth v j := by
  cases depth with
  | zero => rfl
  | succ depth => simp only [evalFresh, hflat, hj.unbroadcast_eq hi rfl hflat]

end ArrayFusion.Frame
