/-
ArrayFusion/Proofs/Kernel/Point.lean

Evaluating one element of a value at a time finds the elements of the
snapshot.

Design.  `Frame.Sees` ties what an evaluation reads to a snapshot: the same
graph, arguments and shapes.  `Frame.Ready` says that no reduction stands
between a value and what is known about it.  A recipe then asks for elements
of the values it reads and makes of them the element of the snapshot
(`recipe_spec`), and the evaluation follows recipes down the graph.

The memo does no harm because everything noted is an element of the snapshot
(`Memory.Holds`), at whatever point it was noted.
-/
import ArrayFusion.Kernel.Point
import ArrayFusion.Proofs.Graph.Snapshot

namespace ArrayFusion

open Tensor (HasForm)

/-! ### Memories -/

namespace Memory

/-- Everything noted is an element of the contents. -/
def Holds (m : Memory) (env : List Tensor) : Prop :=
  ∀ (v : ValueId) (memo : Memo), m.memos[v]? = some (some memo) →
    (env.getD v .blank).data[memo.flat]? = some memo.value

theorem holds_empty (count : Nat) (env : List Tensor) : (Memory.empty count).Holds env := by
  intro v memo h
  have := List.eq_of_mem_replicate (List.mem_of_getElem? h)
  cases this

theorem Holds.advance {m : Memory} {env : List Tensor} (h : m.Holds env) : m.advance.Holds env :=
  h

theorem Holds.note {m : Memory} {env : List Tensor} (h : m.Holds env) {flat : Nat}
    {p : ValueId × Elem} (hp : (env.getD p.1 .blank).data[flat]? = some p.2) :
    (m.note flat p).Holds env := by
  intro v memo hv
  simp only [Memory.note, List.getElem?_set] at hv
  split at hv
  · next heq =>
    split at hv
    · cases hv
      rw [← heq]
      exact hp
    · cases hv
  · exact h v memo hv

theorem Holds.noteAll {m : Memory} {env : List Tensor} (h : m.Holds env) {flat : Nat}
    {ps : List (ValueId × Elem)}
    (hp : ∀ p ∈ ps, (env.getD p.1 .blank).data[flat]? = some p.2) :
    (m.noteAll flat ps).Holds env := by
  induction ps generalizing m with
  | nil => exact h
  | cons p ps ih =>
    exact ih (h.note (hp p List.mem_cons_self)) fun q hq => hp q (List.mem_cons_of_mem p hq)

end Memory

/-- A way to look elements up that finds only what was noted. -/
def Lookup.Sound (lookup : Lookup) : Prop :=
  ∀ (m : Memory) (v : ValueId) (flat : Nat) (e : Elem), lookup m v flat = some e →
    ∃ epoch, m.memos[v]? = some (some ⟨epoch, flat, e⟩)

theorem Memory.sound_find? : Lookup.Sound Memory.find? := by
  intro m v flat e h
  unfold Memory.find? at h
  split at h
  · next memo hmemo =>
    split at h
    · next hc =>
      cases h
      exact ⟨memo.epoch, by rw [hmemo, ← hc.2]⟩
    · cases h
  · cases h

/-! ### Frames -/

/-- The node that a value waits for, counted from one; zero for a value that
no node produces. -/
def Graph.level (g : Graph) (v : ValueId) : Nat :=
  match g.producer v with
  | some n => n + 1
  | none => 0

namespace Frame

/-- What an evaluation reads belongs to a snapshot. -/
structure Sees (f : Frame) (inputs env : List Tensor) : Prop where
  recorded : f.graph.toTape.Recorded
  accepts : f.graph.toTape.Accepts inputs
  snapshot : f.graph.toTape.snapshot inputs = .ok env
  inputs : ∀ (i : Nat) (x : Tensor), inputs[i]? = some x → f.inputs.getD i [] = x.data
  shapes : f.shapes = env.map Tensor.shape
  reduced : ∀ (v : ValueId) (data : List Elem), f.reduced = some (v, data) →
    data = (env.getD v .blank).data

/-- No reduction stands between a value and what is known. -/
inductive Ready (f : Frame) : ValueId → Prop
  | leaf {v : ValueId} {info : GraphValue} (value : f.graph.values[v]? = some info)
      (source : ∀ n k, info.source ≠ .output n k) : Ready f v
  | reduced {v : ValueId} {form : Form} {n k : Nat} {data : List Elem}
      (value : f.graph.values[v]? = some ⟨form, .output n k⟩)
      (known : f.reduced = some (v, data)) : Ready f v
  | node {v : ValueId} {form : Form} {n k : Nat} {node : Node}
      (value : f.graph.values[v]? = some ⟨form, .output n k⟩)
      (produced : f.graph.nodes[n]? = some node) (pointwise : node.isReduction = false)
      (reads : ∀ u ∈ node.reads, Ready f u) : Ready f v

variable {f : Frame} {inputs env : List Tensor}

theorem Ready.lt {v : ValueId} (h : f.Ready v) : v < f.graph.values.length := by
  cases h with
  | leaf value _ => exact (List.getElem?_eq_some_iff.mp value).1
  | reduced value _ => exact (List.getElem?_eq_some_iff.mp value).1
  | node value _ _ _ => exact (List.getElem?_eq_some_iff.mp value).1

namespace Sees

theorem shapeOf (h : f.Sees inputs env) (v : ValueId) : f.shapeOf v = (env.getD v .blank).shape := by
  rw [Frame.shapeOf, h.shapes, Tape.shape_getD]

/-- Contents have the recorded forms. -/
theorem hasForm (h : f.Sees inputs env) {v : ValueId} (hv : v < f.graph.values.length) :
    (env.getD v .blank).HasForm (f.graph.toTape.formOf v) :=
  Tape.hasForm_getD (h.recorded.forms_snapshot h.accepts env h.snapshot) hv

theorem dtype (h : f.Sees inputs env) {v : ValueId} (hv : v < f.graph.values.length) :
    f.graph.dtype v = (env.getD v .blank).dtype := by
  rw [(h.hasForm hv).dtype, Graph.dtype, Tape.formOf, List.getElem?_eq_getElem hv]

end Sees

/-! ### Leaves -/

/-- The element of a value at an index of a shape it broadcasts into. -/
theorem Sees.getElem? (h : f.Sees inputs env) {v : ValueId} (hv : v < f.graph.values.length)
    {s : Shape} (hb : (env.getD v .blank).shape.BroadcastsInto s) {index : List Nat}
    (hi : s.InRange index) :
    (env.getD v .blank).data[(f.shapeOf v).sourceOffset index]? =
      some ((env.getD v .blank).get index) := by
  rw [h.shapeOf]
  exact Tensor.getElem?_of_broadcast (h.hasForm hv).sized hb hi

/-- A value that no node produces is read off. -/
theorem leaf_of_source (h : f.Sees inputs env) {v : ValueId} {info : GraphValue}
    (hv : f.graph.values[v]? = some info) (hs : ∀ n k, info.source ≠ .output n k) {flat : Nat}
    {e : Elem} (he : (env.getD v .blank).data[flat]? = some e) : f.leaf v flat = .ok (some e) := by
  have henv := h.recorded.snapshot_leaf h.accepts env h.snapshot hv hs
  rw [List.getD, henv, Option.getD_some] at he
  rcases info with ⟨form, i | c | ⟨n, k⟩⟩
  · obtain ⟨hp, -⟩ := h.recorded.param_of_source hv
    obtain ⟨x, hx, -⟩ := h.accepts i _ v form.dtype hp rfl rfl
    have hinit : Tape.initial inputs ⟨form, .param i⟩ = x := by
      show inputs.getD i .blank = x
      rw [List.getD, hx, Option.getD_some]
    rw [hinit] at he
    simp only [leaf, hv, input, h.inputs i x hx, he]
    rfl
  · have hflat : flat = 0 := by
      have := (List.getElem?_eq_some_iff.mp he).1
      simpa [Tape.initial, Tensor.ofScalar] using this
    subst hflat
    cases he
    simp only [leaf, hv]
  · exact absurd rfl (hs n k)

theorem leaf_of_reduced (h : f.Sees inputs env) {v : ValueId} {form : Form} {n k : Nat}
    {data : List Elem} (hv : f.graph.values[v]? = some ⟨form, .output n k⟩)
    (hr : f.reduced = some (v, data)) {flat : Nat} {e : Elem}
    (he : (env.getD v .blank).data[flat]? = some e) : f.leaf v flat = .ok (some e) := by
  rw [← h.reduced v data hr] at he
  simp [leaf, hv, reducedData, hr, he]

theorem leaf_of_not_reduced {v : ValueId} {form : Form} {n k : Nat}
    (hv : f.graph.values[v]? = some ⟨form, .output n k⟩) (hr : ∀ data, f.reduced ≠ some (v, data))
    (flat : Nat) : f.leaf v flat = .ok none := by
  have hnone : f.reducedData v = none := by
    unfold reducedData
    split
    · next r data hd =>
      rw [if_neg]
      rintro rfl
      exact hr data hd
    · rfl
  simp [leaf, hv, hnone]

/-- A known element is not made after a recipe. -/
theorem leaf_ne_none {v : ValueId} {data : List Elem} (h : f.reduced = some (v, data))
    (flat : Nat) : f.leaf v flat ≠ .ok none := by
  intro hleaf
  unfold leaf at hleaf
  simp only [reducedData, h, if_true] at hleaf
  split at hleaf
  · cases hleaf
  · obtain ⟨e, -, he⟩ := except_bind_eq_ok.mp hleaf
    cases he
  · cases hleaf
  · split at hleaf <;> cases hleaf

/-! ### Recipes -/

/-- What a recipe for an element of the snapshot must satisfy. -/
structure Makes (f : Frame) (env : List Tensor) (node : Node) (v : ValueId) (own : List Nat)
    (r : Recipe) : Prop where
  reads : ∀ need ∈ r.needs, need.1 ∈ node.reads ∧
    ∃ s : Shape, (env.getD need.1 .blank).shape.BroadcastsInto s ∧ s.InRange need.2
  make : ∃ found, r.make (r.needs.map fun need => (env.getD need.1 .blank).get need.2) =
      .ok ((env.getD v .blank).get own, found) ∧
    ∀ p ∈ found, (env.getD p.1 .blank).data[(env.getD v .blank).shape.offset own]? = some p.2

theorem makes_castRecipe {node : Node} {v x : ValueId} {own index : List Nat} {d : DType}
    (hx : x ∈ node.reads) {s : Shape} (hb : (env.getD x .blank).shape.BroadcastsInto s)
    (hi : s.InRange index)
    (he : (env.getD v .blank).get own = ((env.getD x .blank).get index).cast d) :
    f.Makes env node v own (castRecipe x d index) := by
  refine ⟨?_, [], ?_, by simp⟩
  · intro need hneed
    obtain rfl := List.mem_singleton.mp hneed
    exact ⟨hx, s, hb, hi⟩
  · rw [he]
    rfl

theorem makes_copyRecipe {node : Node} {v x : ValueId} {own index : List Nat}
    (hx : x ∈ node.reads) {s : Shape} (hb : (env.getD x .blank).shape.BroadcastsInto s)
    (hi : s.InRange index) (he : (env.getD v .blank).get own = (env.getD x .blank).get index) :
    f.Makes env node v own (copyRecipe x index) := by
  refine ⟨?_, [], ?_, by simp⟩
  · intro need hneed
    obtain rfl := List.mem_singleton.mp hneed
    exact ⟨hx, s, hb, hi⟩
  · rw [he]
    rfl

/-- The inputs of a loop at an index, as the recipe collects them. -/
theorem zipWith_cast_needs (env : List Tensor) (xs : List ValueId) (ds : List DType)
    (index : List Nat) :
    (((xs.zip ds).map fun p => (p.1, index)).map fun need : ValueId × List Nat =>
        (env.getD need.1 .blank).get need.2).zipWith Elem.cast ds =
      ((xs.map (env.getD · .blank)).zip ds).map fun p => (p.1.get index).cast p.2 := by
  induction xs generalizing ds with
  | nil => simp
  | cons x xs ih =>
    cases ds with
    | nil => rfl
    | cons d ds => exact congrArg _ (ih ds)

theorem getElem?_loopOutputs {node : Node} (r : Elem × Elem) {k : Nat} {v : ValueId}
    (hk : node.outputs[k]? = some v) (h2 : k < 2) :
    (f.loopOutputs node r)[k]? = some (v, (Ufunc.pick k r).cast (f.graph.dtype v)) := by
  have hz : (node.outputs.zip [r.1, r.2])[k]? = some (v, Ufunc.pick k r) :=
    List.getElem?_zip_eq_some.mpr ⟨hk, Ufunc.getElem?_pair r h2⟩
  rw [loopOutputs, List.getElem?_map, hz]
  rfl

theorem makes_ufuncRecipe (h : f.Sees inputs env) {n : NodeId} {node : Node} {u : Ufunc}
    {loop : Loop} (hn : f.graph.nodes[n]? = some node) (hop : node.op = .ufunc u loop) {k : Nat}
    {v : ValueId} (hk : node.outputs[k]? = some v) {own : List Nat}
    (hown : (env.getD v .blank).shape.InRange own) :
    f.Makes env node v own (f.ufuncRecipe node u loop k own) := by
  obtain ⟨outs, ho, hlen, hout⟩ := h.recorded.snapshot_output h.accepts env h.snapshot hn
  have hsized : ∀ t ∈ node.inputs.map (env.getD · .blank), t.Sized := by
    intro t ht
    obtain ⟨x, hx, rfl⟩ := List.mem_map.mp ht
    exact (h.hasForm (h.recorded.operand_lt hn (List.mem_append_left _ hx))).sized
  rw [hop] at ho
  obtain ⟨s, hb, hget⟩ := Op.ufunc_outcome hsized ho
  -- what is known about an output at any position
  have hat : ∀ (j : Nat) (w : ValueId), node.outputs[j]? = some w → j < 2 ∧
      (env.getD w .blank).shape = s ∧ (s.InRange own → (env.getD w .blank).get own =
        (Ufunc.pick j (Tensor.rowAt u loop (node.inputs.map (env.getD · .blank)) own)).cast
          (f.graph.dtype w)) := by
    intro j w hj
    have hw := h.recorded.output_lt hn (List.mem_of_getElem? hj)
    have hjlt : j < outs.length := by
      rw [hlen]
      exact (List.getElem?_eq_some_iff.mp hj).1
    have henv : env.getD w .blank = outs[j] := by
      rw [List.getD, hout j w hj, List.getElem?_eq_getElem hjlt, Option.getD_some]
    obtain ⟨hj2, hshape, hg⟩ := hget j outs[j] (List.getElem?_eq_getElem hjlt)
    rw [h.dtype hw, henv]
    exact ⟨hj2, hshape, hg own⟩
  obtain ⟨hk2, hshape, hval⟩ := hat k v hk
  have hs : s.InRange own := hshape ▸ hown
  refine ⟨?_, f.loopOutputs node (Tensor.rowAt u loop (node.inputs.map (env.getD · .blank)) own),
    ?_, ?_⟩
  · intro need hneed
    obtain ⟨p, hp, rfl⟩ := List.mem_map.mp hneed
    have hx := (List.of_mem_zip hp).1
    refine ⟨?_, s, hb _ (List.mem_map_of_mem hx), hs⟩
    simpa only [Node.reads, hop] using hx
  · simp only [ufuncRecipe, zipWith_cast_needs]
    rw [show u.apply loop _ = Tensor.rowAt u loop (node.inputs.map (env.getD · .blank)) own from rfl,
      getElem?_loopOutputs _ hk hk2, hval hs]
  · intro p hp
    obtain ⟨q, hq, rfl⟩ := List.mem_map.mp hp
    obtain ⟨j, hj⟩ := List.getElem?_of_mem hq
    obtain ⟨hw, he⟩ := List.getElem?_zip_eq_some.mp hj
    obtain ⟨hj2, hshape', hval'⟩ := hat j q.1 hw
    rw [Ufunc.getElem?_pair _ hj2, Option.some.injEq] at he
    have hlt := h.recorded.output_lt hn (List.mem_of_getElem? hw)
    have hfound := Tensor.getElem?_of_broadcast (h.hasForm hlt).sized
      (Shape.broadcastsInto_refl _) (hshape' ▸ hs)
    rw [Shape.sourceOffset_self (hshape' ▸ hs), hval' hs, he] at hfound
    rw [hshape, ← hshape']
    exact hfound

/-- The only output of a node. -/
theorem Sees.only_output (h : f.Sees inputs env) {n : NodeId} {node : Node}
    (hn : f.graph.nodes[n]? = some node) {v : ValueId} (hv : node.outputs = [v]) {t : Tensor}
    (ho : node.op.outcome (node.inputs.map (env.getD · .blank))
      (node.targets.map (env.getD · .blank)) = .ok [t]) : env.getD v .blank = t := by
  obtain ⟨outs, ho', -, hout⟩ := h.recorded.snapshot_output h.accepts env h.snapshot hn
  rw [ho] at ho'
  cases ho'
  rw [List.getD, hout 0 v (by rw [hv]; rfl)]
  rfl

theorem makes_recipe_cast (h : f.Sees inputs env) {n : NodeId} {node : Node} {d : DType}
    (hn : f.graph.nodes[n]? = some node) (hop : node.op = .cast d) {k : Nat} {v : ValueId}
    (hk : node.outputs[k]? = some v) {own : List Nat}
    (hown : (env.getD v .blank).shape.InRange own) :
    ∃ r, f.recipe n k own = .ok r ∧ f.Makes env node v own r := by
  obtain ⟨x, w, hx, ht, hw⟩ := h.recorded.cast_node hn hop
  have hv : v = w := by
    rw [hw] at hk
    exact List.mem_singleton.mp (List.mem_of_getElem? hk)
  subst hv
  have hlt := h.recorded.operand_lt hn (x := x) (by simp [hx])
  have hval : env.getD v .blank =
      ⟨d, (env.getD x .blank).shape, (env.getD x .blank).data.map (·.cast d)⟩ :=
    h.only_output hn hw (by rw [hop, hx, ht]; rfl)
  refine ⟨castRecipe x d own, by simp only [recipe, hn, hop, hx], ?_⟩
  rw [hval] at hown
  refine makes_castRecipe (by simp [Node.reads, hop, hx]) (Shape.broadcastsInto_refl _) hown ?_
  rw [hval]
  exact Op.get_cast (h.hasForm hlt).sized hown

theorem makes_recipe_assign (h : f.Sees inputs env) {n : NodeId} {node : Node} {region : Region}
    (hn : f.graph.nodes[n]? = some node) (hop : node.op = .assign region) {k : Nat} {v : ValueId}
    (hk : node.outputs[k]? = some v) {own : List Nat}
    (hown : (env.getD v .blank).shape.InRange own) :
    ∃ r, f.recipe n k own = .ok r ∧ f.Makes env node v own r := by
  obtain ⟨x, y, w, hx, hy, hw⟩ := h.recorded.assign_node hn hop
  have hv : v = w := by
    rw [hw] at hk
    exact List.mem_singleton.mp (List.mem_of_getElem? hk)
  subst hv
  have hxlt := h.recorded.operand_lt hn (x := x) (by simp [hx])
  have hylt := h.recorded.operand_lt hn (x := y) (by simp [hy])
  obtain ⟨outs, ho, -, -⟩ := h.recorded.snapshot_output h.accepts env h.snapshot hn
  have ho' := ho
  rw [hop, hx, hy] at ho'
  obtain ⟨inner, hin, hb, hres⟩ :=
    Op.assign_outcome (h.hasForm hxlt).sized (h.hasForm hylt).sized ho'
  rw [hres] at ho
  have hval := h.only_output hn hw ho
  have hget : (env.getD v .blank).get own =
      assignedAt region (env.getD x .blank) (env.getD y .blank) own := by
    rw [hval] at hown ⊢
    exact Tensor.get_of_data (t := ⟨_, _, _⟩) rfl hown
  have hown' : (env.getD y .blank).shape.InRange own := by
    rw [hval] at hown
    exact hown
  have hrecipe : f.recipe n k own = f.assignRecipe x y region own := by
    simp only [recipe, hn, hop, hx, hy]
  rw [hrecipe]
  cases region with
  | full =>
    refine ⟨_, rfl, ?_⟩
    cases hin
    refine makes_castRecipe (by simp [Node.reads, hop, hx]) hb hown' ?_
    rw [hget, h.dtype hylt]
    rfl
  | rows start stop =>
    obtain ⟨len, ds, hd, -⟩ := Region.shapeIn_rows hin
    -- an index of the target has a row
    obtain ⟨row, rest, rfl⟩ : ∃ row rest, own = row :: rest := by
      have hr := Shape.inRange_iff.mp hown'
      rw [hd] at hr
      cases hr with
      | cons _ _ => exact ⟨_, _, rfl⟩
    by_cases hrow : ((Region.rows start stop).bounds (env.getD y .blank).shape).1 ≤ row ∧
        row < ((Region.rows start stop).bounds (env.getD y .blank).shape).2
    · have hidx : (Region.rows start stop).sourceIndex? (env.getD y .blank).shape (row :: rest) =
          some ((row - ((Region.rows start stop).bounds (env.getD y .blank).shape).1) :: rest) := by
        simp only [Region.sourceIndex?, if_pos hrow]
      refine ⟨castRecipe x (f.graph.dtype y)
        ((row - ((Region.rows start stop).bounds (env.getD y .blank).shape).1) :: rest), ?_, ?_⟩
      · simp only [assignRecipe, h.shapeOf, List.headD_cons, if_pos hrow]
      · refine makes_castRecipe (by simp [Node.reads, hop, hx]) hb
          (Region.inRange_sourceIndex hin hown' hidx) ?_
        rw [hget, h.dtype hylt, assignedAt, hidx]
    · have hidx : (Region.rows start stop).sourceIndex? (env.getD y .blank).shape (row :: rest) =
          none := by
        simp only [Region.sourceIndex?, if_neg hrow]
      refine ⟨copyRecipe y (row :: rest), ?_, ?_⟩
      · simp only [assignRecipe, h.shapeOf, List.headD_cons, if_neg hrow]
      · refine makes_copyRecipe (by simp [Node.reads, hop, hy]) (Shape.broadcastsInto_refl _)
          hown' ?_
        rw [hget, assignedAt, hidx]

/-- How a node that is not a reduction makes an element of the snapshot. -/
theorem recipe_spec (h : f.Sees inputs env) {n : NodeId} {node : Node}
    (hn : f.graph.nodes[n]? = some node) (hp : node.isReduction = false) {k : Nat} {v : ValueId}
    (hk : node.outputs[k]? = some v) {own : List Nat}
    (hown : (env.getD v .blank).shape.InRange own) :
    ∃ r, f.recipe n k own = .ok r ∧ f.Makes env node v own r := by
  rcases e : node.op with ⟨u, loop⟩ | d | ⟨op, axis⟩ | region
  · exact ⟨_, by simp only [recipe, hn, e], makes_ufuncRecipe h hn e hk hown⟩
  · exact makes_recipe_cast h hn e hk hown
  · simp [Node.isReduction, e] at hp
  · exact makes_recipe_assign h hn e hk hown

/-! ### Evaluation -/

section Equations

variable {lookup : Lookup} {depth : Nat} {v : ValueId} {index : List Nat} {m : Memory} {e : Elem}

theorem eval_of_lookup (h : lookup m v ((f.shapeOf v).sourceOffset index) = some e) :
    f.eval lookup (depth + 1) v index m = (.ok e, m) := by
  simp only [eval, Exec.bind_apply, Exec.get_apply, h, Exec.pure_apply]

theorem eval_of_leaf (h : lookup m v ((f.shapeOf v).sourceOffset index) = none)
    (hl : f.leaf v ((f.shapeOf v).sourceOffset index) = .ok (some e)) :
    f.eval lookup (depth + 1) v index m =
      (.ok e, m.noteAll ((f.shapeOf v).sourceOffset index) [(v, e)]) := by
  simp only [eval, Exec.bind_apply, Exec.get_apply, h, Exec.lift_apply, hl, remember,
    Exec.pure_apply]

theorem eval_of_leaf_error {err : Error}
    (h : lookup m v ((f.shapeOf v).sourceOffset index) = none)
    (hl : f.leaf v ((f.shapeOf v).sourceOffset index) = .error err) :
    f.eval lookup (depth + 1) v index m = (.error err, m) := by
  simp only [eval, Exec.bind_apply, Exec.get_apply, h, Exec.lift_apply, hl]

theorem eval_of_recipe_error {err : Error}
    (h : lookup m v ((f.shapeOf v).sourceOffset index) = none)
    (hl : f.leaf v ((f.shapeOf v).sourceOffset index) = .ok none)
    (hr : f.recipeOf v ((f.shapeOf v).unbroadcast index) = .error err) :
    f.eval lookup (depth + 1) v index m = (.error err, m) := by
  simp only [eval, Exec.bind_apply, Exec.get_apply, h, Exec.lift_apply, hl, hr]

theorem eval_of_recipe {r : Recipe} {args : List Elem} {found : List (ValueId × Elem)}
    {m' : Memory} (h : lookup m v ((f.shapeOf v).sourceOffset index) = none)
    (hl : f.leaf v ((f.shapeOf v).sourceOffset index) = .ok none)
    (hr : f.recipeOf v ((f.shapeOf v).unbroadcast index) = .ok r)
    (hargs : r.needs.mapM (fun need => f.eval lookup depth need.1 need.2) m = (.ok args, m'))
    (hmake : r.make args = .ok (e, found)) :
    f.eval lookup (depth + 1) v index m =
      (.ok e, (m'.noteAll ((f.shapeOf v).sourceOffset index) found).noteAll
        ((f.shapeOf v).sourceOffset index) [(v, e)]) := by
  simp only [eval, Exec.bind_apply, Exec.get_apply, h, Exec.lift_apply, hl, hr, hargs, hmake,
    remember, Exec.pure_apply]

end Equations

theorem level_of_read (h : f.graph.toTape.Recorded) {n : NodeId} {node : Node}
    (hn : f.graph.nodes[n]? = some node) {u : ValueId} (hu : u ∈ node.reads) :
    f.graph.level u ≤ n := by
  have hmem : u ∈ node.inputs ++ node.targets := by
    unfold Node.reads at hu
    split at hu
    · exact hu
    · exact List.mem_append_left _ hu
  unfold Graph.level
  split
  · next m hm =>
    unfold Graph.producer at hm
    split at hm
    · next form m' k hv =>
      cases hm
      exact h.producer_lt hn hmem hv
    · cases hm
  · exact Nat.zero_le n

theorem level_of_value {g : Graph} {v : ValueId} {form : Form} {n k : Nat}
    (hv : g.values[v]? = some ⟨form, .output n k⟩) : g.level v = n + 1 := by
  simp only [Graph.level, Graph.producer, hv]

theorem level_lt_depth (h : f.graph.toTape.Recorded) (v : ValueId) :
    f.graph.level v < f.depth := by
  unfold Graph.level Graph.producer
  split
  · next n hn =>
    split at hn
    · next form m k hv =>
      cases hn
      obtain ⟨node, hnode, -⟩ := h.output_of_source hv
      have := (List.getElem?_eq_some_iff.mp hnode).1
      exact Nat.succ_lt_succ this
    · cases hn
  · exact Nat.succ_pos _

/-- Evaluation finds the element of the snapshot, with a memory that holds
elements of it before and after. -/
theorem eval_spec (h : f.Sees inputs env) {lookup : Lookup} (hsound : Lookup.Sound lookup)
    (depth : Nat) {v : ValueId} (hr : f.Ready v) (hd : f.graph.level v < depth) {s : Shape}
    (hb : (env.getD v .blank).shape.BroadcastsInto s) {index : List Nat} (hi : s.InRange index)
    {m : Memory} (hm : m.Holds env) :
    ∃ m', f.eval lookup depth v index m = (.ok ((env.getD v .blank).get index), m') ∧
      m'.Holds env := by
  induction depth generalizing v s index m with
  | zero => exact absurd hd (Nat.not_lt_zero _)
  | succ depth ih =>
    have helem := h.getElem? hr.lt hb hi
    rcases hlook : lookup m v ((f.shapeOf v).sourceOffset index) with - | e
    · -- nothing found: the element is read off, or made after its recipe
      have hnote : ∀ {m' : Memory}, m'.Holds env → (m'.noteAll ((f.shapeOf v).sourceOffset index)
          [(v, (env.getD v .blank).get index)]).Holds env := fun hm' =>
        hm'.noteAll fun p hp => by
          obtain rfl := List.mem_singleton.mp hp
          exact helem
      cases hr with
      | leaf value source =>
        exact ⟨_, eval_of_leaf hlook (leaf_of_source h value source helem), hnote hm⟩
      | reduced value known =>
        exact ⟨_, eval_of_leaf hlook (leaf_of_reduced h value known helem), hnote hm⟩
      | @node _ form n k node value produced pointwise reads =>
        by_cases hred : ∃ data, f.reduced = some (v, data)
        · obtain ⟨data, hred⟩ := hred
          exact ⟨_, eval_of_leaf hlook (leaf_of_reduced h value hred helem), hnote hm⟩
        · obtain ⟨node', hn', hk⟩ := h.recorded.output_of_source value
          obtain rfl : node' = node := Option.some.inj (hn'.symm.trans produced)
          have hown := Shape.inRange_unbroadcast hb hi
          obtain ⟨r, hrec, hmakes⟩ := recipe_spec h produced pointwise hk hown
          obtain ⟨found, hmake, hfound⟩ := hmakes.make
          rw [Tensor.get_unbroadcast hb hi] at hmake
          have hrecOf : f.recipeOf v ((f.shapeOf v).unbroadcast index) = .ok r := by
            rw [h.shapeOf]
            simp only [recipeOf, value]
            exact hrec
          rw [level_of_value value] at hd
          -- what the recipe needs is on a lower level, which is within the remaining depth
          have hneeds : ∀ need ∈ r.needs, ∀ m : Memory, m.Holds env →
              ∃ m', f.eval lookup depth need.1 need.2 m =
                (.ok ((env.getD need.1 .blank).get need.2), m') ∧ m'.Holds env := by
            intro need hneed m hm
            obtain ⟨hread, s', hb', hi'⟩ := hmakes.reads need hneed
            have hlev := level_of_read h.recorded produced hread
            exact ih (reads _ hread) (by omega) hb' hi' hm
          obtain ⟨m', hargs, hm'⟩ := exec_mapM_eq_ok_map hneeds hm
          refine ⟨_, eval_of_recipe hlook
            (leaf_of_not_reduced value (fun data hd => hred ⟨data, hd⟩) _) hrecOf hargs hmake,
            hnote (hm'.noteAll ?_)⟩
          intro p hp
          rw [h.shapeOf, Shape.sourceOffset_eq]
          exact hfound p hp
    · obtain ⟨epoch, hmemo⟩ := hsound m v _ e hlook
      have he := hm v _ hmemo
      rw [helem, Option.some.injEq] at he
      rw [he]
      exact ⟨m, eval_of_lookup hlook, hm⟩

end Frame

end ArrayFusion
