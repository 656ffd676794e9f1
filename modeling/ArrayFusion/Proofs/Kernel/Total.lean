/-
ArrayFusion/Proofs/Kernel/Total.lean

Launches on arguments that fill their shapes succeed.

Design.  If the arguments have as many elements as their shapes say
(`Frame.Filled`), then every element has a value unless a reduction stands
before it (`evalFresh_total`): leaves are read within their contents, and a
recipe makes an element of what it asks for.  So the passes of a launch find
an element at each index, and the fold of a reduction finds a slot for each
element.

That no list is read out of range is said of every visit of a launch
(`Frame.Safe`) and of the fold (`Host.SafeFold`), since some readings have a
default and would not fail.

Main result: every stage compiles and runs, and yields as many elements for a
root as its shape has.
-/
import ArrayFusion.Proofs.Kernel.Memo
import ArrayFusion.Proofs.Kernel.Reduce

namespace ArrayFusion

/-! ### Arguments -/

namespace Tape

variable {t : Tape} {params shapes : List Shape} {inputs : List (List Elem)}

/-- There are as many elements as the shapes of the arguments say, and one for
a scalar. -/
def Fills (t : Tape) (params : List Shape) (inputs : List (List Elem)) : Prop :=
  inputs.length = t.params.length ∧ ∀ q ∈ t.params.zip (params.zip inputs), q.1.value.isSome →
    q.2.2.length = if q.1.kind = .array then q.2.1.count else 1

instance (t : Tape) (params : List Shape) (inputs : List (List Elem)) :
    Decidable (t.Fills params inputs) :=
  inferInstanceAs (Decidable (_ ∧ ∀ q ∈ t.params.zip (params.zip inputs), q.1.value.isSome →
    q.2.2.length = if q.1.kind = .array then q.2.1.count else 1))

/-- An argument has as many elements as its value's shape says. -/
theorem Recorded.length_argument (h : Recorded t) (hd : t.Admits params)
    (hlen : params.length = t.params.length) (hs : t.shapes params = .ok shapes)
    (hin : t.Fills params inputs) {v : ValueId} {form : Form} {i : Nat}
    (hv : t.values[v]? = some ⟨form, .param i⟩) :
    (inputs.getD i []).length = (shapes.getD v .scalar).count := by
  have hparam := (h.param_of_source hv).1
  have hi := (List.getElem?_eq_some_iff.mp hparam).1
  obtain ⟨s, hshape⟩ : ∃ s, params[i]? = some s := ⟨_, List.getElem?_eq_getElem (hlen ▸ hi)⟩
  obtain ⟨data, hinput⟩ : ∃ data, inputs[i]? = some data :=
    ⟨_, List.getElem?_eq_getElem (hin.1 ▸ hi)⟩
  have hform := h.forms_shapes hd hlen hs v (List.getElem?_eq_some_iff.mp hv).1
  have hmem : (_, s, data) ∈ t.params.zip (params.zip inputs) := List.mem_of_getElem?
    (List.getElem?_zip_eq_some.mpr ⟨hparam, List.getElem?_zip_eq_some.mpr ⟨hshape, hinput⟩⟩)
  have hcount := hin.2 _ hmem rfl
  rw [formOf_of_getElem? hv] at hform
  rw [List.getD, hinput, Option.getD_some, hcount]
  split
  · rw [List.getD, h.shapes_leaf hs hv nofun]
    show _ = (params.getD i .scalar).count
    rw [List.getD, hshape]
    rfl
  · next hkind =>
    rw [hform.scalar hkind]
    rfl

end Tape

namespace Frame

variable {f : Frame}

/-! ### One element -/

/-- Arguments and the finished reduction have as many elements as their shapes
say. -/
structure Filled (f : Frame) : Prop where
  params : ∀ {v : ValueId} {form : Form} {i : Nat},
    f.graph.values[v]? = some ⟨form, .param i⟩ → (f.inputs.getD i []).length = (f.shapeOf v).count
  reduced : ∀ {v : ValueId} {data : List Elem}, f.reduced = some (v, data) →
    data.length = (f.shapeOf v).count

section

variable {v : ValueId} {flat : Nat}

theorem Filled.leaf_of_source (h : f.Filled) {info : GraphValue}
    (hv : f.graph.values[v]? = some info) (hs : ∀ n k, info.source ≠ .output n k)
    (hflat : flat < (f.shapeOf v).count) : ∃ e, f.leaf v flat = .ok (some e) := by
  rcases info with ⟨form, i | c | ⟨n, k⟩⟩
  · rw [← h.params hv] at hflat
    have hget := List.getElem?_eq_getElem hflat
    exact ⟨_, by simp only [leaf, hv, input, hget]; rfl⟩
  · exact ⟨c.value, by simp only [leaf, hv]⟩
  · exact absurd rfl (hs n k)

theorem Filled.leaf_of_reduced (h : f.Filled) {form : Form} {n k : Nat} {data : List Elem}
    (hv : f.graph.values[v]? = some ⟨form, .output n k⟩) (hr : f.reduced = some (v, data))
    (hflat : flat < (f.shapeOf v).count) : ∃ e, f.leaf v flat = .ok (some e) := by
  rw [← h.reduced hr] at hflat
  have hget := List.getElem?_eq_getElem hflat
  exact ⟨_, by simp only [leaf, hv, reducedData, hr, if_true, hget]; rfl⟩

end

/-- Every element has a value unless a reduction stands before it. -/
theorem evalFresh_total (h : f.Resolved) (hf : f.Filled) {v : ValueId} (hr : f.Ready v)
    {index : List Nat} (hloc : f.Locates v index) : ∃ e, f.evalFresh f.depth v index = .ok e := by
  -- along the graph: what a node reads is ready if its outputs are
  induction hr generalizing index with
  | leaf value source =>
    obtain ⟨e, he⟩ := hf.leaf_of_source value source hloc.offset_lt
    exact ⟨e, evalFresh_of_leaf he⟩
  | reduced value known =>
    obtain ⟨e, he⟩ := hf.leaf_of_reduced value known hloc.offset_lt
    exact ⟨e, evalFresh_of_leaf he⟩
  | @node v form n k node value produced pointwise reads ih =>
    obtain ⟨node', hn', hk⟩ := h.recorded.output_of_source value
    obtain rfl : node' = node := Option.some.inj (hn'.symm.trans produced)
    have hleaf := leaf_of_not_reduced value
      (h.not_reduced produced pointwise (List.mem_of_getElem? hk))
      ((f.shapeOf v).sourceOffset index)
    obtain ⟨r, hrec, hserves⟩ := recipe_serves h produced pointwise hk hloc.own
    have hrecOf : f.recipeOf v ((f.shapeOf v).unbroadcast index) = .ok r := by
      simp only [recipeOf, value]
      exact hrec
    have hneeds : ∀ need ∈ r.needs, ∃ e, f.evalFresh f.depth need.1 need.2 = .ok e := by
      intro need hneed
      exact ih need.1 ((reads_of_recipe produced hrec).2 need hneed) (hserves.located need hneed)
    obtain ⟨args, hargs⟩ := mapM_total hneeds
    obtain ⟨e, found, hmake, -⟩ := hserves.make args (mapM_eq_ok_iff.mp hargs).length_eq.symm
    refine ⟨e, ?_⟩
    rw [evalFresh_recipe h.recorded hleaf hrecOf, hargs, except_bind_ok, hmake, except_bind_ok]
    rfl

/-- An element that has a value. -/
def elem (f : Frame) (v : ValueId) (index : List Nat) : Elem :=
  (f.evalFresh f.depth v index).toOption.getD (.bool false)

/-! ### Readings at a visit -/

/-- No list is read out of range when a node makes an element at an index. -/
structure SafeNode (f : Frame) (node : Node) (own : List Nat) : Prop where
  pointwise : node.isReduction = false
  shapes : ∀ u ∈ node.inputs ++ node.targets ++ node.outputs, u < f.shapes.length
  /-- A function is given all of its operands, and has a place for what it
  yields. -/
  loop : ∀ u loop, node.op = .ufunc u loop →
    (node.inputs.length = u.nin ∧ loop.inputs.length = u.nin) ∧
      node.outputs.length = u.nout ∧ loop.outputs.length = u.nout
  cast : ∀ d, node.op = .cast d → node.inputs ≠ []
  assign : ∀ region, node.op = .assign region → node.inputs ≠ [] ∧ node.targets ≠ []
  /-- A row is shifted only where the index names one. -/
  row : ∀ start stop, node.op = .assign (.rows start stop) → own ≠ []

theorem safeNode_of_pointwise (h : f.Resolved) {n : NodeId} {node : Node}
    (hn : f.graph.nodes[n]? = some node) (hp : node.isReduction = false) {v : ValueId}
    (hv : v ∈ node.outputs) {own : List Nat} (hown : (f.shapeOf v).InRange own) :
    f.SafeNode node own where
  pointwise := hp
  shapes u hu := by
    rw [h.length_shapes]
    rcases List.mem_append.mp hu with hu | hu
    · exact h.recorded.operand_lt hn hu
    · exact h.recorded.output_lt hn hu
  loop u loop hop := h.recorded.ufunc_arity hn hop
  cast d hop := by
    obtain ⟨x, w, hins, -, -⟩ := h.recorded.cast_node hn hop
    simp [hins]
  assign region hop := by
    obtain ⟨x, y, w, hins, htargets, -⟩ := h.recorded.assign_node hn hop
    simp [hins, htargets]
  row start stop hop := by
    have hfits := h.fits hn
    rw [Node.Fits, hop] at hfits
    obtain ⟨s, inner, hsame, hinner, -⟩ := hfits
    rw [hsame v (List.mem_append_right _ hv)] at hown
    obtain ⟨row, rest, rfl⟩ := row_of_inRange hinner hown
    simp

/-- No list is read out of range when an element is evaluated. -/
structure Safe (f : Frame) (v : ValueId) (index : List Nat) (m : Memory) : Prop where
  /-- The value exists, and has a shape and a memo. -/
  value : v < f.graph.values.length
  shape : v < f.shapes.length
  memo : v < m.memos.length
  offset : (f.shapeOf v).sourceOffset index < (f.shapeOf v).count
  argument : ∀ form i, f.graph.values[v]? = some ⟨form, .param i⟩ →
    (f.shapeOf v).sourceOffset index < (f.inputs.getD i []).length
  reduced : ∀ data, f.reduced = some (v, data) →
    (f.shapeOf v).sourceOffset index < data.length
  node : ∀ form n k, f.graph.values[v]? = some ⟨form, .output n k⟩ →
    (∀ data, f.reduced ≠ some (v, data)) →
      ∃ node, f.graph.nodes[n]? = some node ∧ node.outputs[k]? = some v ∧
        f.SafeNode node ((f.shapeOf v).unbroadcast index)
  /-- It has a value. -/
  found : ∃ e, f.evalFresh f.depth v index = .ok e

theorem safe_of_ready (h : f.Resolved) (hf : f.Filled) {v : ValueId} (hr : f.Ready v)
    {index : List Nat} (hloc : f.Locates v index) {m : Memory} (hm : f.Faithful m) :
    f.Safe v index m where
  value := hr.lt
  shape := h.length_shapes ▸ hr.lt
  memo := hm.kept.size ▸ hr.lt
  offset := hloc.offset_lt
  argument form i hv := hf.params hv ▸ hloc.offset_lt
  reduced data hd := hf.reduced hd ▸ hloc.offset_lt
  found := evalFresh_total h hf hr hloc
  node form n k hv hnot := by
    cases hr with
    | leaf value source =>
      rw [hv] at value
      cases value
      exact absurd rfl (source n k)
    | reduced _ known => exact absurd known (hnot _)
    | node value produced pointwise _ =>
      rw [hv] at value
      cases value
      obtain ⟨node', hn', hk⟩ := h.recorded.output_of_source hv
      obtain rfl := Option.some.inj (hn'.symm.trans produced)
      exact ⟨node', produced, hk,
        safeNode_of_pointwise h produced pointwise (List.mem_of_getElem? hk) hloc.own⟩

/-- What is visited on the way to a value that is ready is ready. -/
theorem Visits.ready {lookup : Lookup} {depth : Nat} {v u : ValueId} {index i : List Nat}
    {m m' : Memory} (hv : f.Visits lookup depth v index m u i m') (hr : f.Ready v) : f.Ready u := by
  induction hv with
  | self => exact hr
  | @need depth v u index i m m₁ m₂ r need miss leaf recipe comes visits ih =>
    obtain ⟨form, n, k, node, hval, hn, hrec⟩ := node_of_recipeOf recipe
    have hread := (reads_of_recipe hn hrec).2 need comes.mem
    apply ih
    cases hr with
    | leaf value source =>
      rw [hval] at value
      cases value
      exact absurd rfl (source n k)
    | reduced _ known => exact absurd leaf (leaf_ne_none known _)
    | node value produced pointwise reads =>
      rw [hval] at value
      cases value
      obtain rfl := Option.some.inj (hn.symm.trans produced)
      exact reads need.1 hread

end Frame

namespace Host

variable {f : Frame} {lookup : Lookup}

/-! ### Passes -/

theorem keeps_faithful (f : Frame) : Keeps (Memory.Kept f.graph.values.length) f.Faithful :=
  ⟨Frame.faithful_advance, fun hm => hm.kept⟩

theorem finds_of_filled (h : f.Resolved) (hf : f.Filled) (hl : lookup.Recalls) {v : ValueId}
    (hr : f.Ready v) : Finds lookup f f.Faithful f.elem v := by
  intro index hi m hm
  have hloc := Frame.locates_of_inRange hr.lt hi
  obtain ⟨e, he⟩ := Frame.evalFresh_total h hf hr hloc
  obtain ⟨m', heval, hm'⟩ := Frame.eval_faithful h hl f.depth (Frame.level_lt_depth h.recorded v)
    hloc hm
  refine ⟨m', ?_, hm'⟩
  rw [heval, Frame.elem, he]
  rfl

/-- No list is read out of range, and nothing divided by zero, when elements of
one value are folded into those of another. -/
structure SafeFold (f : Frame) (x w : ValueId) (axis : Option Nat) : Prop where
  input : x < f.shapes.length
  result : w < f.shapes.length
  along : ∀ a ∈ axis, a < (f.shapeOf x).ndim
  slot : ∀ flat < (f.shapeOf x).count,
    Reduction.slotOf (f.shapeOf x) axis flat < (f.shapeOf w).count
  divisor : ∀ a ∈ axis, ∀ flat < (f.shapeOf x).count,
    0 < Shape.extent ((f.shapeOf x).dims.drop (a + 1)) * (f.shapeOf x).dims.getD a 1

section

variable {n : NodeId} {op : Reduction} {axis : Option Nat} {x w : ValueId}

theorem safeFold_of_node (h : f.Resolved)
    (hn : f.graph.nodes[n]? = some ⟨.reduce op axis, [x], [], [w]⟩) : SafeFold f x w axis := by
  obtain ⟨s, haxis, hin, hout⟩ := h.fits hn
  obtain rfl : f.shapeOf x = s := hin x List.mem_cons_self
  have hw : f.shapeOf w = (f.shapeOf x).without axis := hout w List.mem_cons_self
  refine ⟨?_, ?_, haxis, ?_, ?_⟩
  · rw [h.length_shapes]
    exact h.recorded.operand_lt hn (by simp)
  · rw [h.length_shapes]
    exact h.recorded.output_lt hn (by simp)
  · intro flat hflat
    rw [hw]
    exact Reduction.slotOf_lt_count haxis hflat
  · intro a ha flat hflat
    exact Reduction.divisor_pos (haxis a ha) hflat

/-- Reducing succeeds, and finds as many elements as the result has. -/
theorem reduce_total (h : f.Resolved) (hf : f.Filled) (hl : lookup.Recalls)
    (hn : f.graph.nodes[n]? = some ⟨.reduce op axis, [x], [], [w]⟩) (hr : f.Ready x) {m : Memory}
    (hm : Memory.Kept f.graph.values.length m) :
    ∃ data m', reduce lookup f n op axis m = (.ok (w, data), m') ∧
      data.length = (f.shapeOf w).count ∧ Memory.Kept f.graph.values.length m' := by
  obtain ⟨m', hdata, hm'⟩ := elements_of_finds (keeps_faithful f) (finds_of_filled h hf hl hr) hm
  have hlen : ((f.shapeOf x).indices.map (f.elem x)).length = (f.shapeOf x).count := by simp
  obtain ⟨acc, -, hreduce, hsize, -⟩ :=
    Reduction.reduceElems_spec (f.graph.dtype x) hlen (h.reducedShape hn)
  refine ⟨acc.finish, m', ?_, hsize, hm'⟩
  rw [reduce_eq_reduceElems h hn, Exec.bind_apply, hdata]
  simp only [Exec.bind_apply, Exec.lift_apply, hreduce]
  rfl

end

/-! ### A launch -/

section

variable {plan : KernelPlan} {args : KernelInput}

/-- When the passes over the roots start, all roots are ready. -/
theorem Maps.ready (hl : lookup.Recalls) (h : (frame plan args).Resolved)
    (hf : (frame plan args).Filled) (hs : plan.graph.Runnable plan.stage) {m : Memory}
    (hm : Maps lookup plan args f m) : f.Filled ∧ ∀ v ∈ plan.stage.roots, f.Ready v := by
  cases hm with
  | elementwise kind =>
    exact ⟨hf, fun v hv => ready_of_none h.recorded (hs.1 v hv) (hs.elementwise kind v hv)⟩
  | @reduced n op axis known m kind done =>
    obtain ⟨x, w, hn, hx, hroots⟩ := hs.reduction kind
    have hxlt : x < plan.graph.values.length := h.recorded.operand_lt hn (by simp)
    obtain ⟨data, m', hdone, hlen, -⟩ := reduce_total h hf hl hn
      (ready_of_none h.recorded hxlt hx) (Memory.kept_empty _)
    -- the reduction that was done is the one that succeeds
    obtain ⟨hknown, -⟩ := Prod.mk.inj (hdone.symm.trans done)
    cases hknown
    refine ⟨⟨hf.params, ?_⟩, ?_⟩
    · rintro v data' ⟨⟩
      exact hlen
    · intro v hv
      exact ready_of_reduced (f := { frame plan args with reduced := some (w, data) }) h.recorded
        (hs.1 v hv) (hroots v hv) hn rfl

/-- The passes over the roots have elements for every index. -/
theorem map_total (hl : lookup.Recalls) (h : (frame plan args).Resolved)
    (hf : (frame plan args).Filled) (hs : plan.graph.Runnable plan.stage) {m : Memory}
    (hm : Maps lookup plan args f m) (hshapes : f.shapes = args.shapes) :
    ∃ results m', map lookup f plan.stage.roots m = (.ok results, m') ∧
      results.map List.length =
        plan.stage.roots.map fun v => (args.shapes.getD v .scalar).count := by
  obtain ⟨hfr, -, hkept⟩ := hm.resolved hl h hs
  obtain ⟨hff, hready⟩ := hm.ready hl h hf hs
  obtain ⟨m', hmap, -⟩ := map_of_finds (keeps_faithful f)
    (fun v hv => finds_of_filled hfr hff hl (hready v hv)) hkept
  refine ⟨_, m', hmap, ?_⟩
  rw [List.map_map]
  apply List.map_congr_left
  intro v _
  simp [Shape.indices, Frame.shapeOf, hshapes]

/-- A launch has elements for every index of every root. -/
theorem launchWith_total (hl : lookup.Recalls) (h : (frame plan args).Resolved)
    (hf : (frame plan args).Filled) (hs : plan.graph.Runnable plan.stage) :
    ∃ results, launchWith lookup plan args = .ok results ∧
      results.map List.length =
        plan.stage.roots.map fun v => (args.shapes.getD v .scalar).count := by
  rcases kind : plan.stage.kind with - | ⟨n, op, axis⟩
  · obtain ⟨results, m', hrun, hlen⟩ := map_total hl h hf hs (.elementwise kind) rfl
    refine ⟨results, ?_, hlen⟩
    simp only [launchWith, run, kind]
    exact congrArg Prod.fst hrun
  · obtain ⟨x, w, hn, hx, -⟩ := hs.reduction kind
    have hxlt : x < plan.graph.values.length := h.recorded.operand_lt hn (by simp)
    obtain ⟨data, m, hdone, -, -⟩ := reduce_total h hf hl hn (ready_of_none h.recorded hxlt hx)
      (Memory.kept_empty plan.graph.values.length)
    obtain ⟨results, m', hrun, hlen⟩ := map_total hl h hf hs (.reduced kind hdone) rfl
    refine ⟨results, ?_, hlen⟩
    simp only [launchWith, run, kind, Exec.bind_apply]
    rw [← frame, hdone]
    exact congrArg Prod.fst hrun

/-- Every visit of a launch is safe. -/
theorem Visits.safe (hl : lookup.Recalls) (h : (frame plan args).Resolved)
    (hf : (frame plan args).Filled) (hs : plan.graph.Runnable plan.stage) {u : ValueId}
    {i : List Nat} {m : Memory} (hv : Visits lookup plan args f u i m) : f.Safe u i m := by
  obtain ⟨hres, hloc, hm⟩ := hv.faithful hl h hs
  cases hv with
  | reducing kind hends checked visits =>
    obtain ⟨x, w, hn, hx, -⟩ := hs.reduction kind
    have hxlt : x < plan.graph.values.length := h.recorded.operand_lt hn (by simp)
    simp only [ends, hn] at hends
    cases hends
    obtain ⟨index, m₁, -, hvisit⟩ := visits
    have hready := hvisit.ready (ready_of_none h.recorded hxlt hx)
    exact Frame.safe_of_ready hres hf hready hloc hm
  | mapping maps visits =>
    obtain ⟨hfilled, hroots⟩ := maps.ready hl h hf hs
    obtain ⟨group, m₁, index, m₂, v, m₃, -, -, hroot, hvisit⟩ := visits
    obtain ⟨k, -, hk⟩ := List.mem_filterMap.mp hroot.mem
    have hready := hvisit.ready (hroots v (List.mem_of_getElem? hk))
    exact Frame.safe_of_ready hres hfilled hready hloc hm

end

open Recorder (Reached Session)

/-- Quotients are summed along the rows, and the sums replace the first two
rows. -/
def foldedQuotients : Session :=
  let word : Form := ⟨.int .w64, 0, .scalar⟩
  let words : Form := ⟨.int .w64, 2, .array⟩
  Session.start
    |>.step "host" (.param .array (some (.int .w64)) 2)
    |>.step "host" (.param .scalar (some (.int .w64)) 0)
    |>.step "host" (.ufunc .divmod [⟨words, 0⟩, ⟨word, 1⟩])
    |>.step "host" (.reduce .sum ⟨words, 2⟩ (some 0))
    |>.step "host" (.assign ⟨words, 0⟩ ⟨⟨.int .w64, 1, .array⟩, 4⟩ (.rows 0 2))

theorem history_foldedQuotients : foldedQuotients.History "host" := by
  unfold foldedQuotients
  refine .call (.call (.call (.call (.call .start ?_) ?_) ?_) ?_) ?_ <;> decide

end Host

end ArrayFusion
