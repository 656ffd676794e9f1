/-
ArrayFusion/Proofs/Kernel/Dependence.lean

A kernel depends on the parameters of its plan and on no others.

Design.  The plan finds its parameters by going through the nodes of the
stage.  An evaluation does not look at these nodes: it starts at a root and
follows recipes through the graph until it meets a leaf or the reduction that
was done before.  Reachability ties the two together.  A value reads within a
list of parameters if no node on the way down to the reduction reads another
one (`Graph.ReadsWithin`), and what a recipe asks for then reads within the
same list (`ReadsWithin.read`).

Main result: arguments that agree on the parameters of a plan cannot be told
apart by its kernel, neither by results nor by errors.
-/
import ArrayFusion.Proofs.Kernel.Buffers
import ArrayFusion.Proofs.Kernel.Memo
import ArrayFusion.Proofs.Kernel.Partition

namespace ArrayFusion

/-! ### Parameters read on the way to a value -/

namespace Graph

variable {g : Graph}

/-- Computing a value down to the nodes in `stop` reads no parameters but the
given ones. -/
structure ReadsWithin (g : Graph) (stop : List NodeId) (params : List Nat) (v : ValueId) :
    Prop where
  self : ∀ i, g.paramOf v = some i → i ∈ params
  below : ∀ n, g.ReachesOutside stop v n → ∀ u ∈ g.readsOf n, ∀ i, g.paramOf u = some i →
    i ∈ params

/-- What the producer of a value reads is read within the same parameters. -/
theorem ReadsWithin.read {stop : List NodeId} {params : List Nat} {v u : ValueId} {n : NodeId}
    (h : g.ReadsWithin stop params v) (hp : g.producer v = some n) (hn : n ∉ stop)
    (hu : u ∈ g.readsOf n) : g.ReadsWithin stop params u where
  self := h.below n (.produced hp hn) u hu
  below m hm := h.below m (.read hp hn hu hm)

section

variable {stage : Stage} {stop : List NodeId} {v : ValueId} (h : g.Finished)
  (hroots : ∀ v ∈ stage.roots, (g.producer v).isSome)

include h hroots

/-- A value reads within the plan of a stage that holds all nodes on the way to
it. -/
theorem readsWithin_of_nodes (hself : ∀ i, g.paramOf v = some i → i ∈ g.paramsRead stage)
    (hnodes : ∀ n, g.ReachesOutside stop v n → n ∈ stage.nodes) :
    g.ReadsWithin stop (g.paramsRead stage) v where
  self := hself
  below n hn u hu _ hi := (mem_paramsRead h.recorded hroots).mpr ⟨n, hnodes n hn, u, hu, hi⟩

/-- A root is the output of a node, so it is no parameter itself. -/
theorem readsWithin_of_root (hv : v ∈ stage.roots)
    (hnodes : ∀ n, g.ReachesOutside stop v n → n ∈ stage.nodes) :
    g.ReadsWithin stop (g.paramsRead stage) v := by
  apply readsWithin_of_nodes h hroots _ hnodes
  intro i hi
  obtain ⟨n, hp⟩ := Option.isSome_iff_exists.mp (hroots v hv)
  obtain ⟨form, k, hout⟩ := producer_eq_some.mp hp
  obtain ⟨form', hparam⟩ := paramOf_eq_some.mp hi
  rw [hout] at hparam
  cases hparam

/-- The roots of an elementwise stage read within its plan. -/
theorem readsWithin_elementwise (hs : g.ExactElementwise stage) (hkind : stage.kind = .elementwise)
    (hv : v ∈ stage.roots) : g.ReadsWithin [] (g.paramsRead stage) v := by
  apply readsWithin_of_root h hroots hv
  intro n hn
  simp only [Stage.nodes, hkind]
  exact List.mem_append_left _ ((hs.premap n).mpr ⟨v, hv, hn.reaches⟩)

section

variable {n : NodeId} {op : Reduction} {axis : Option Nat} (hs : g.ExactReduction stage n op axis)
  (hkind : stage.kind = .reduction n op axis)

include hs hkind

/-- The roots of the stage of a reduction read within its plan, once the
reduction was done. -/
theorem readsWithin_postmap (hv : v ∈ stage.roots) : g.ReadsWithin [n] (g.paramsRead stage) v := by
  apply readsWithin_of_root h hroots hv
  intro m hm
  simp only [Stage.nodes, hkind]
  exact List.mem_append_right _ ((hs.postmap m).mpr ⟨v, hv, hm⟩)

/-- The input of a reduction reads within the plan of its stage.  It may be a
parameter itself, which the reduction reads. -/
theorem readsWithin_premap {x w : ValueId}
    (hn : g.nodes[n]? = some ⟨.reduce op axis, [x], [], [w]⟩) :
    g.ReadsWithin [] (g.paramsRead stage) x := by
  have hnodes : stage.nodes = stage.premap ++ [n] ++ stage.postmap := by
    simp only [Stage.nodes, hkind]
  obtain ⟨x', w', hn', hpre⟩ := hs.premap
  rw [hn] at hn'
  cases hn'
  apply readsWithin_of_nodes h hroots
  · intro i hi
    refine (mem_paramsRead h.recorded hroots).mpr ⟨n, ?_, x, ?_, hi⟩
    · rw [hnodes]
      exact List.mem_append_left _ (List.mem_append_right _ List.mem_cons_self)
    · rw [readsOf_eq hn]
      exact List.mem_cons_self
  · intro m hm
    rw [hnodes]
    exact List.mem_append_left _ (List.mem_append_left _ ((hpre m).mpr hm.reaches))

end

end

end Graph

/-! ### One element -/

namespace Frame

variable {f : Frame} {lookup : Lookup}

/-- The same frame on other arguments. -/
def withInputs (f : Frame) (inputs : List (List Elem)) : Frame :=
  { f with inputs := inputs }

/-- The outputs of the nodes in `stop` are known. -/
def KnownAt (f : Frame) (stop : List NodeId) : Prop :=
  ∀ v, ∀ n ∈ stop, f.graph.producer v = some n → ∃ data, f.reduced = some (v, data)

theorem leaf_withInputs {inputs : List (List Elem)} {v : ValueId}
    (h : ∀ i, f.graph.paramOf v = some i → f.inputs[i]? = inputs[i]?) (flat : Nat) :
    (f.withInputs inputs).leaf v flat = f.leaf v flat := by
  rcases hv : f.graph.values[v]? with - | ⟨form, i | c | ⟨n, k⟩⟩
  · simp only [leaf, withInputs, hv]
  · have hi := h i (Graph.paramOf_eq_some.mpr ⟨form, hv⟩)
    simp only [leaf, withInputs, hv, input, List.getD, hi]
  · simp only [leaf, withInputs, hv]
  · simp only [leaf, withInputs, hv]
    rfl

/-- **One element**: it depends on the parameters that its value reads within,
and so does the memory that its evaluation leaves. -/
theorem eval_withInputs {stop : List NodeId} {params : List Nat} {inputs : List (List Elem)}
    (hstop : f.KnownAt stop) (hin : ∀ i ∈ params, f.inputs[i]? = inputs[i]?) (depth : Nat)
    {v : ValueId} (hv : f.graph.ReadsWithin stop params v) (index : List Nat) (m : Memory) :
    (f.withInputs inputs).eval lookup depth v index m = f.eval lookup depth v index m := by
  -- on the depth that is left: shapes and recipes are those of the same graph
  induction depth generalizing v index m with
  | zero => rfl
  | succ depth ih =>
    have hleaf : (f.withInputs inputs).leaf v _ = f.leaf v _ :=
      leaf_withInputs (fun i hi => hin i (hv.self i hi)) ((f.shapeOf v).sourceOffset index)
    rcases hlook : lookup m v ((f.shapeOf v).sourceOffset index) with - | e
    · rcases hl : f.leaf v ((f.shapeOf v).sourceOffset index) with err | - | e
      · rw [eval_of_leaf_error hlook hl]
        exact eval_of_leaf_error hlook (hleaf.trans hl)
      · rcases hrec : f.recipeOf v ((f.shapeOf v).unbroadcast index) with err | r
        · rw [eval_of_recipe_error hlook hl hrec]
          exact eval_of_recipe_error hlook (hleaf.trans hl) hrec
        · have hneeds : r.needs.mapM
                (fun need => (f.withInputs inputs).eval lookup depth need.1 need.2) m =
              r.needs.mapM (fun need => f.eval lookup depth need.1 need.2) m := by
            apply Exec.mapM_congr_comes
            intro need m₁ hneed
            obtain ⟨form, n, k, node, hval, hn, hr⟩ := node_of_recipeOf hrec
            have hp := Graph.producer_eq_some.mpr ⟨form, k, hval⟩
            have hread : need.1 ∈ f.graph.readsOf n := by
              rw [Graph.readsOf_eq hn]
              exact (reads_of_recipe hn hr).2 need hneed.mem
            apply ih (hv.read hp _ hread)
            intro hmem
            obtain ⟨data, hknown⟩ := hstop v n hmem hp
            exact leaf_ne_none hknown _ hl
          have hrec' : (f.withInputs inputs).recipeOf v ((f.shapeOf v).unbroadcast index) =
              .ok r := hrec
          have hshape : (f.withInputs inputs).shapeOf v = f.shapeOf v := rfl
          simp only [eval, hshape, Exec.bind_apply, Exec.get_apply, hlook, Exec.lift_apply, hleaf,
            hl, hrec', hrec, hneeds]
      · rw [eval_of_leaf hlook hl]
        exact eval_of_leaf hlook (hleaf.trans hl)
    · rw [eval_of_lookup hlook]
      exact eval_of_lookup hlook

end Frame

/-! ### A launch -/

namespace Host

variable {f : Frame} {lookup : Lookup} {stop : List NodeId} {params : List Nat}
  {inputs : List (List Elem)}

section

variable (hstop : f.KnownAt stop) (hin : ∀ i ∈ params, f.inputs[i]? = inputs[i]?)

include hstop hin

theorem elements_withInputs {v : ValueId} (hv : f.graph.ReadsWithin stop params v)
    (indices : List (List Nat)) (m : Memory) :
    elements lookup (f.withInputs inputs) v indices m = elements lookup f v indices m := by
  apply Exec.mapM_congr_comes
  intro index m₁ _
  exact Frame.eval_withInputs hstop hin f.depth hv index m₁.advance

theorem map_withInputs {roots : List ValueId}
    (hroots : ∀ v ∈ roots, f.graph.ReadsWithin stop params v) (m : Memory) :
    map lookup (f.withInputs inputs) roots m = map lookup f roots m := by
  have hgroups : (groups f roots).mapM (runGroup lookup (f.withInputs inputs) roots) m =
      (groups f roots).mapM (runGroup lookup f roots) m := by
    apply Exec.mapM_congr_comes
    intro group m₁ _
    have hrows : group.1.indices.mapM
          (row lookup (f.withInputs inputs) (members roots group)) m₁ =
        group.1.indices.mapM (row lookup f (members roots group)) m₁ := by
      apply Exec.mapM_congr_comes
      intro index m₂ _
      apply Exec.mapM_congr_comes
      intro v m₃ hv
      obtain ⟨k, -, hk⟩ := List.mem_filterMap.mp hv.mem
      exact Frame.eval_withInputs hstop hin f.depth (hroots v (List.mem_of_getElem? hk)) index m₃
    simp only [runGroup, Exec.bind_apply]
    rw [← members, hrows]
  simp only [Host.map, Exec.bind_apply]
  rw [show groups (f.withInputs inputs) roots = groups f roots from rfl, hgroups]

theorem reduce_withInputs {n : NodeId} {op : Reduction} {axis : Option Nat} {x w : ValueId}
    (hn : f.graph.nodes[n]? = some ⟨.reduce op axis, [x], [], [w]⟩)
    (hx : f.graph.ReadsWithin stop params x) (m : Memory) :
    reduce lookup (f.withInputs inputs) n op axis m = reduce lookup f n op axis m := by
  have hends : ends f.graph n = .ok (x, w) := by simp only [ends, hn]
  have hdata : elements lookup (f.withInputs inputs) x (f.shapeOf x).indices m = _ :=
    elements_withInputs hstop hin hx _ m
  have hgraph : (f.withInputs inputs).graph = f.graph := rfl
  have hshape : (f.withInputs inputs).shapeOf = f.shapeOf := rfl
  rcases haxis : checkAxis (f.shapeOf x) axis with e | ⟨⟩
  · simp only [reduce, hgraph, hshape, hends, haxis, Exec.bind_apply, Exec.lift_apply]
  · simp only [reduce, hgraph, hshape, hends, haxis, Exec.bind_apply, Exec.lift_apply, hdata]

end

/-- Arguments that agree on the parameters of a plan make no difference to the
run of its stage. -/
theorem run_congr_inputs {g : Graph} (h : g.Finished) {stages : List Stage}
    (hp : g.partition = .ok stages) {stage : Stage} (hs : stage ∈ stages) {kernel : String}
    {shapes : List Shape} {inputs' : List (List Elem)}
    (hin : ∀ i ∈ g.paramsRead stage, inputs[i]? = inputs'[i]?) (m : Memory) :
    run lookup (.ofStage kernel stage g) ⟨inputs', shapes⟩ m =
      run lookup (.ofStage kernel stage g) ⟨inputs, shapes⟩ m := by
  let f : Frame := ⟨g, inputs, shapes, none⟩
  have hroots : ∀ v ∈ stage.roots, (g.producer v).isSome :=
    fun v hv => Graph.producer_of_root ((Graph.mem_roots_iff hp).mpr ⟨stage, hs, hv⟩)
  have hnone : f.KnownAt [] := by simp [Frame.KnownAt]
  have hexact := h.exact_stages hp stage hs
  rcases kind : stage.kind with - | ⟨n, op, axis⟩
  · rw [Graph.Exact, kind] at hexact
    simp only [run, KernelPlan.ofStage, kind]
    exact map_withInputs hnone hin
      (fun v hv => Graph.readsWithin_elementwise h hroots hexact kind hv) m
  · rw [Graph.Exact, kind] at hexact
    obtain ⟨x, w, hn, -⟩ := hexact.premap
    have hreduce : reduce lookup ⟨g, inputs', shapes, none⟩ n op axis m =
        reduce lookup f n op axis m :=
      reduce_withInputs hnone hin hn (Graph.readsWithin_premap h hroots hexact kind hn) m
    simp only [run, KernelPlan.ofStage, kind, Exec.bind_apply]
    rw [hreduce]
    rcases hdone : reduce lookup f n op axis m with ⟨e | known, m₁⟩
    · rfl
    · -- the output of the reduction is the one value that it produces
      have hknown : Frame.KnownAt { f with reduced := some known } [n] := by
        intro v k hk hprod
        obtain rfl := List.mem_singleton.mp hk
        obtain ⟨form, j, hv⟩ := Graph.producer_eq_some.mp hprod
        obtain ⟨node, hnode, hout⟩ := h.recorded.output_of_source hv
        obtain rfl := Option.some.inj (hnode.symm.trans hn)
        obtain rfl : v = w := List.mem_singleton.mp (List.mem_of_getElem? hout)
        obtain rfl := fst_of_reduce hn hdone
        exact ⟨known.2, rfl⟩
      exact map_withInputs hknown hin
        (fun v hv => Graph.readsWithin_postmap h hroots hexact kind hv) m₁

open Recorder (Reached Session)

/-- **A kernel depends on the parameters of its plan.**  Take the graph of any
recorder that was reached, any handles as its results, and any of its stages.
The stage compiles, and its kernel has the same outcome, results or error, on
arguments that agree on the parameters of the plan; the others may differ in
their elements and in the number of them, or be missing. -/
theorem launch_depends_on_params {r : Recorder} (h : Reached r) (name : String)
    (returned : Returned Handle) {stages : List Stage}
    (hp : (r.finish name returned).partition = .ok stages) {stage : Stage} (hs : stage ∈ stages)
    (kernel : String) :
    let plan := KernelPlan.ofStage kernel stage (r.finish name returned)
    ∃ compiled, backend.compile plan = .ok compiled ∧
      ∀ (shapes : List Shape) (inputs inputs' : List (List Elem)),
        (∀ i ∈ plan.params, inputs[i]? = inputs'[i]?) →
          compiled.launch ⟨inputs, shapes⟩ = compiled.launch ⟨inputs', shapes⟩ := by
  intro plan
  have hrun := Graph.runnable_of_partition h.recorded hp stage hs
  refine ⟨_, compile_stage hrun kernel, ?_⟩
  intro shapes inputs inputs' hin
  show launch plan _ = launch plan _
  rw [launch, launch, launchWith, launchWith,
    run_congr_inputs (h.finished name returned) hp hs hin]

/-- A row of the first array becomes the sum of the second, and the third is
negated. -/
def replacedRow : Session :=
  let words : Form := ⟨.int .w64, 1, .array⟩
  Session.start
    |>.step "host" (.param .array (some (.int .w64)) 1)
    |>.step "host" (.param .array (some (.int .w64)) 1)
    |>.step "host" (.param .array (some (.int .w64)) 1)
    |>.step "host" (.reduce .sum ⟨words, 1⟩ none)
    |>.step "host" (.assign ⟨words, 0⟩ ⟨⟨.int .w64, 0, .array⟩, 3⟩ (.rows 0 1))
    |>.step "host" (.ufunc .negative [⟨words, 2⟩])

theorem history_replacedRow : replacedRow.History "host" := by
  unfold replacedRow
  refine .call (.call (.call (.call (.call (.call .start ?_) ?_) ?_) ?_) ?_) ?_ <;> decide

/-- The kernel of the sum reads the first array for the rows that stay, and has
nothing to do with the third: it may be short or missing. -/
theorem launch_depends_on_params_replaced_row :
    let r := replacedRow.recorder
    let g := r.finish "f" (.tuple (replacedRow.handles.drop 4))
    let shapes : List Shape := [⟨[2]⟩, ⟨[2]⟩, ⟨[3]⟩, ⟨[]⟩, ⟨[2]⟩, ⟨[3]⟩]
    let stage : Stage := ⟨.reduction 0 .sum none, [], [1], [4]⟩
    let side : Stage := ⟨.elementwise, [2], [], [5]⟩
    Reached r ∧ g.resolveShapes [⟨[2]⟩, ⟨[2]⟩, ⟨[3]⟩] = .ok shapes ∧
      g.partition = .ok [stage, side] ∧ (KernelPlan.ofStage "f" stage g).params = [0, 1] ∧
      ∃ compiled, backend.compile (.ofStage "f" stage g) = .ok compiled ∧
        compiled.launch ⟨[[.int 1, .int 2], [.int 3, .int 4], [.int 5]], shapes⟩ =
          compiled.launch ⟨[[.int 1, .int 2], [.int 3, .int 4]], shapes⟩ := by
  intro r g shapes stage side
  have hr : Reached r := history_replacedRow.sound.1
  have hshapes : g.resolveShapes [⟨[2]⟩, ⟨[2]⟩, ⟨[3]⟩] = .ok shapes := by decide +kernel
  have hp : g.partition = .ok [stage, side] := by decide +kernel
  have hparams : (KernelPlan.ofStage "f" stage g).params = [0, 1] := by decide +kernel
  obtain ⟨compiled, hcompile, hlaunch⟩ :=
    launch_depends_on_params hr "f" _ hp List.mem_cons_self "f"
  refine ⟨hr, hshapes, hp, hparams, compiled, hcompile, ?_⟩
  apply hlaunch
  rw [hparams]
  decide

end Host

end ArrayFusion
