/-
ArrayFusion/Proofs/Graph/Shapes.lean

What the recording knows about shapes, and what a call finds.

Design.  Resolved shapes satisfy one equation for each node, whatever the
shapes of the arguments are (`shapes_output`).  If these have the declared
numbers of axes, then so have all the others: a node is typed, and its shapes
have the forms of the rule if those of its operands do, which come earlier
(`forms_shapes`).

Main result: for every call the shapes have the recorded numbers of axes, and
those of a node go together (`Session.shapes_sound`).
-/
import ArrayFusion.Proofs.Graph.History

namespace ArrayFusion

/-- The shapes of a node go together: inputs broadcast to the one shape of
targets and outputs, or to that of the rows they are assigned to, and a
reduction removes its axis. -/
def Node.Fits (node : Node) (shape : ValueId → Shape) : Prop :=
  match node.op with
  | .assign (.rows start stop) =>
    ∃ target inner, (∀ v ∈ node.targets ++ node.outputs, shape v = target) ∧
      (Region.rows start stop).shapeIn target = .ok inner ∧
      ∀ u ∈ node.inputs, (shape u).BroadcastsInto inner
  | .reduce _ axis =>
    ∃ s, (∀ a ∈ axis, a < s.ndim) ∧ (∀ u ∈ node.inputs, shape u = s) ∧
      ∀ v ∈ node.outputs, shape v = s.without axis
  | _ =>
    ∃ s, (∀ v ∈ node.targets ++ node.outputs, shape v = s) ∧
      ∀ u ∈ node.inputs, (shape u).BroadcastsInto s

namespace Tape

/-! ### The equations of resolved shapes -/

variable {t : Tape} {params shapes : List Shape}

theorem counts_shapes (t : Tape) (params : List Shape) :
    Counts Graph.nodeShapes .scalar (Graph.initialShape params) t := by
  intro u op ins targets forms _ _ _ typed env outs _ houts
  refine typed.length_nodeShapes ?_ rfl (length_nextIds _ _) houts
  rw [List.length_map, List.length_map]

theorem length_shapes (hs : t.shapes params = .ok shapes) : shapes.length = t.values.length :=
  length_sweep hs

/-- Every node relates the shapes of its outputs to those of its inputs and
targets. -/
theorem Recorded.shapes_output (h : Recorded t) (hs : t.shapes params = .ok shapes) {n : NodeId}
    {node : Node} (hn : t.nodes[n]? = some node) :
    Graph.nodeShapes node (node.inputs.map (shapes.getD · .scalar))
        (node.targets.map (shapes.getD · .scalar)) =
      .ok (node.outputs.map (shapes.getD · .scalar)) := by
  obtain ⟨outs, houts, hlen, hout⟩ := h.sweep_output (t.counts_shapes params) shapes hs hn
  rw [houts]
  congr 1
  apply List.ext_getElem
  · rw [hlen, List.length_map]
  · intro k hk hk'
    have hv := hout k _ (List.getElem?_eq_getElem (by rwa [← hlen]))
    rw [List.getElem_map, List.getD, hv, List.getElem?_eq_getElem hk]
    rfl

/-- A value that no node produces has its initial shape. -/
theorem Recorded.shapes_leaf (h : Recorded t) (hs : t.shapes params = .ok shapes) {v : ValueId}
    {info : GraphValue} (hv : t.values[v]? = some info) (hsrc : ∀ n k, info.source ≠ .output n k) :
    shapes[v]? = some (Graph.initialShape params info) :=
  h.sweep_initial (t.counts_shapes params) shapes hs hv hsrc

/-- Where the shapes of a node resolve, they go together. -/
theorem Recorded.fits_of_nodeShapes (h : Recorded t) {n : NodeId} {node : Node}
    (hn : t.nodes[n]? = some node) {shape : ValueId → Shape}
    (heq : Graph.nodeShapes node (node.inputs.map shape) (node.targets.map shape) =
      .ok (node.outputs.map shape)) : node.Fits shape := by
  unfold Node.Fits
  unfold Graph.nodeShapes at heq
  rcases hop : node.op with ⟨f, loop⟩ | d | ⟨red, axis⟩ | region
  · rw [hop] at heq
    dsimp only at heq ⊢
    split at heq
    · next hempty =>
      obtain ⟨s, hbroadcast, heq⟩ := except_bind_eq_ok.mp heq
      have hnil : node.targets = [] := List.map_eq_nil_iff.mp (List.isEmpty_iff.mp hempty)
      refine ⟨s, ?_, ?_⟩
      · intro v hv
        rw [hnil, List.nil_append] at hv
        have hmem : shape v ∈ List.replicate node.outputs.length s := by
          rw [Except.ok.inj heq]
          exact List.mem_map_of_mem hv
        exact List.eq_of_mem_replicate hmem
      · intro u hu
        exact Shape.broadcastsInto_of_broadcastAll hbroadcast _ (List.mem_map_of_mem hu)
    · obtain ⟨s, hout, heq⟩ := except_bind_eq_ok.mp heq
      obtain ⟨hins, htargets⟩ := Shape.outputShape_eq_ok hout
      refine ⟨s, ?_, fun u hu => hins _ (List.mem_map_of_mem hu)⟩
      intro v hv
      apply htargets
      rcases List.mem_append.mp hv with hv | hv
      · exact List.mem_map_of_mem hv
      · rw [Except.ok.inj heq]
        exact List.mem_map_of_mem hv
  · obtain ⟨x, v, hins, htargets, houts⟩ := h.cast_node hn hop
    rw [hop, hins, htargets, houts] at heq
    have hshape : shape x = shape v := List.singleton_inj.mp (Except.ok.inj heq)
    rw [hins, htargets, houts]
    refine ⟨shape v, by simp, ?_⟩
    simp only [List.mem_singleton, forall_eq, hshape]
    exact Shape.broadcastsInto_refl _
  · obtain ⟨x, v, hins, -, houts⟩ := h.reduce_node hn hop
    rw [hop, hins, houts] at heq
    change (red.reducedShape (shape x) axis >>= fun out => pure [out]) = _ at heq
    obtain ⟨out, hout, heq⟩ := except_bind_eq_ok.mp heq
    have hshape : out = shape v := List.singleton_inj.mp (Except.ok.inj heq)
    obtain ⟨haxis, rfl⟩ := Reduction.reducedShape_eq_ok hout
    rw [hins, houts]
    exact ⟨shape x, haxis, by simp, by simp [hshape]⟩
  · obtain ⟨x, y, v, hins, htargets, houts⟩ := h.assign_node hn hop
    rw [hop, hins, htargets, houts] at heq
    change (region.checkSource (shape x) (shape y) >>= fun _ => pure [shape y]) = _ at heq
    obtain ⟨inner, hcheck, heq⟩ := except_bind_eq_ok.mp heq
    have hshape : shape y = shape v := List.singleton_inj.mp (Except.ok.inj heq)
    obtain ⟨hinner, hbroadcast⟩ := Region.checkSource_eq_ok hcheck
    rw [hins, htargets, houts]
    cases region with
    | full =>
      cases hinner
      exact ⟨shape y, by simp [hshape], by simpa using hbroadcast⟩
    | rows start stop =>
      exact ⟨shape y, inner, by simp [hshape], hinner, by simpa using hbroadcast⟩

theorem Recorded.fits (h : Recorded t) (hs : t.shapes params = .ok shapes) {n : NodeId}
    {node : Node} (hn : t.nodes[n]? = some node) : node.Fits (shapes.getD · .scalar) :=
  h.fits_of_nodeShapes hn (h.shapes_output hs hn)

/-! ### Numbers of axes -/

/-- The arguments have the numbers of axes that the parameters declare;
scalars have none. -/
def Admits (t : Tape) (params : List Shape) : Prop :=
  ∀ q ∈ t.params.zip params, q.1.value.isSome →
    q.2.ndim = q.1.ndim ∧ (q.1.kind ≠ .array → q.2.ndim = 0)

instance (t : Tape) (params : List Shape) : Decidable (t.Admits params) :=
  inferInstanceAs (Decidable (∀ q ∈ t.params.zip params, q.1.value.isSome →
    q.2.ndim = q.1.ndim ∧ (q.1.kind ≠ .array → q.2.ndim = 0)))

theorem eq_scalar_of_ndim {s : Shape} (h : s.ndim = 0) : s = .scalar := by
  obtain ⟨dims⟩ := s
  obtain rfl := List.length_eq_zero_iff.mp h
  rfl

/-- All shapes have the recorded numbers of axes. -/
theorem Recorded.forms_shapes (h : Recorded t) (hd : t.Admits params)
    (hlen : params.length = t.params.length) (hs : t.shapes params = .ok shapes) :
    ∀ v, v < t.values.length → (shapes.getD v .scalar).HasForm (t.formOf v) := by
  intro v
  induction v using Nat.strongRecOn with
  | ind v ih =>
    intro hv
    rcases hinfo : t.values[v]? with - | ⟨form, i | c | ⟨n, k⟩⟩
    · exact absurd hv (Nat.not_lt_of_le (List.getElem?_eq_none_iff.mp hinfo))
    · have hparam := (h.param_of_source hinfo).1
      have hi : i < params.length := by
        rw [hlen]
        exact (List.getElem?_eq_some_iff.mp hparam).1
      have hmem : (_, params.get ⟨i, hi⟩) ∈ t.params.zip params := List.mem_of_getElem?
        (List.getElem?_zip_eq_some.mpr ⟨hparam, List.getElem?_eq_getElem hi⟩)
      obtain ⟨hndim, hscalar⟩ := hd _ hmem rfl
      rw [formOf_of_getElem? hinfo, List.getD, h.shapes_leaf hs hinfo nofun]
      show (params.getD i .scalar).HasForm form
      rw [List.getD, List.getElem?_eq_getElem hi]
      exact ⟨hndim, fun hk => eq_scalar_of_ndim (hscalar hk)⟩
    · rw [formOf_of_getElem? hinfo, List.getD, h.shapes_leaf hs hinfo nofun,
        h.form_of_constant hinfo]
      exact ⟨rfl, fun _ => rfl⟩
    · obtain ⟨node, hn, hk⟩ := h.output_of_source hinfo
      -- operands come before what the node computes
      have hoperand : ∀ us : List ValueId, (∀ u ∈ us, u ∈ node.inputs ++ node.targets) →
          List.Forall₂ Shape.HasForm (us.map (shapes.getD · .scalar)) (us.map t.formOf) := by
        intro us hus
        rw [List.forall₂_map_left_iff, List.forall₂_map_right_iff, List.forall₂_same]
        intro u hu
        exact ih u (h.operand_lt_output hn (hus u hu) (List.mem_of_getElem? hk))
          (h.operand_lt hn (hus u hu))
      have hforms := (h.typed hn).forms_nodeShapes
        (hoperand node.inputs fun u hu => List.mem_append_left _ hu)
        (hoperand node.targets fun u hu => List.mem_append_right _ hu) rfl
        (List.length_map _).symm (h.shapes_output hs hn)
      rw [List.forall₂_map_left_iff, List.forall₂_map_right_iff, List.forall₂_same] at hforms
      exact hforms v (List.mem_of_getElem? hk)

end Tape

theorem Graph.resolveShapes_eq_ok {g : Graph} {params shapes : List Shape}
    (h : g.resolveShapes params = .ok shapes) :
    params.length = g.params.length ∧ g.toTape.shapes params = .ok shapes := by
  by_cases hlen : params.length = g.params.length
  · exact ⟨hlen, (Tape.resolveShapes_eq hlen).symm.trans h⟩
  · rw [Graph.resolveShapes, if_neg hlen] at h
    cases h

/-- What was recorded about shapes holds of those that a call finds. -/
structure Graph.ShapesSound (g : Graph) (shapes : List Shape) : Prop where
  /-- Every value has a shape. -/
  count : shapes.length = g.values.length
  /-- The shape has the recorded number of axes, and that of a scalar has
  none. -/
  ranks : ∀ {v : ValueId} {info : GraphValue}, g.values[v]? = some info →
    ∃ s, shapes[v]? = some s ∧ s.ndim = info.ndim ∧ (info.kind = .scalar → s = .scalar)
  /-- Nodes use and produce values of the graph. -/
  known : ∀ node ∈ g.nodes, ∀ v ∈ node.inputs ++ node.targets ++ node.outputs, v < g.values.length
  /-- The shapes of a node go together. -/
  nodes : ∀ node ∈ g.nodes, node.Fits (shapes.getD · .scalar)

namespace Recorder

/-- **Ranks are sound.**  For every graph of a session, and arguments of the
declared numbers of axes, the shapes that a call resolves have the recorded
numbers of axes, those of dead values too, and the shapes of each node go
together. -/
theorem Session.shapes_sound {tag : String} {s : Session} (h : s.History tag) (name : String)
    (returned : Returned Handle) {params shapes : List Shape}
    (hd : s.recorder.tape.Admits params)
    (hs : (s.recorder.finish name returned).resolveShapes params = .ok shapes) :
    (s.recorder.finish name returned).ShapesSound shapes := by
  have hrec := h.sound.1.recorded
  obtain ⟨hlen, hs⟩ := Graph.resolveShapes_eq_ok hs
  have hcount := Tape.length_shapes hs
  refine ⟨hcount, ?_, ?_, ?_⟩
  · intro v info hv
    change s.recorder.tape.values[v]? = some info at hv
    have hlt := (List.getElem?_eq_some_iff.mp hv).1
    have hform := hrec.forms_shapes hd hlen hs v hlt
    have hget := List.getElem?_eq_getElem (hcount ▸ hlt : v < shapes.length)
    rw [Tape.formOf_of_getElem? hv, List.getD, hget] at hform
    refine ⟨_, hget, hform.ndim, ?_⟩
    intro hk
    exact hform.scalar (by rw [hk]; decide)
  · intro node hnode v hv
    obtain ⟨n, hn⟩ := List.getElem?_of_mem hnode
    rcases List.mem_append.mp hv with hv | hv
    · exact hrec.operand_lt hn hv
    · exact hrec.output_lt hn hv
  · intro node hnode
    obtain ⟨n, hn⟩ := List.getElem?_of_mem hnode
    exact hrec.fits hs hn

/-- A sum that nothing uses, an assignment of rows and a function with two
outputs, for a parameter with two axes, a scalar and an absent one. -/
theorem Session.shapes_sound_quotients :
    let x : Handle := ⟨⟨.int .w64, 2, .array⟩, 0⟩
    ∃ s : Session, s.History "host" ∧ s.recorder.tape.Admits [⟨[3, 2]⟩, .scalar, .scalar] ∧
      (s.recorder.finish "f" (.single x)).resolveShapes [⟨[3, 2]⟩, .scalar, .scalar] =
        .ok [⟨[3, 2]⟩, ⟨[]⟩, ⟨[3]⟩, ⟨[3, 2]⟩, ⟨[3, 2]⟩, ⟨[3, 2]⟩] ∧
      (s.recorder.finish "f" (.single x)).ShapesSound
        [⟨[3, 2]⟩, ⟨[]⟩, ⟨[3]⟩, ⟨[3, 2]⟩, ⟨[3, 2]⟩, ⟨[3, 2]⟩] := by
  intro x
  let y : Handle := ⟨⟨.int .w64, 0, .scalar⟩, 1⟩
  let first := Session.start.step "host" (.param .array (some (.int .w64)) 2)
  let second := first.step "host" (.param .scalar (some (.int .w64)) 0)
  let third := second.step "host" (.param .absent none 0)
  let fourth := third.step "host" (.reduce .sum x (some 1))
  let fifth := fourth.step "host" (.assign x y (.rows 0 2))
  let last := fifth.step "host" (.ufunc .divmod [x, y])
  have h : last.History "host" :=
    .call (.call (.call (.call (.call (.call .start (by decide)) (by decide)) (by decide))
      (by decide)) (by decide)) (by decide)
  have hd : last.recorder.tape.Admits [⟨[3, 2]⟩, .scalar, .scalar] := by decide
  have hs : (last.recorder.finish "f" (.single x)).resolveShapes [⟨[3, 2]⟩, .scalar, .scalar] =
      .ok [⟨[3, 2]⟩, ⟨[]⟩, ⟨[3]⟩, ⟨[3, 2]⟩, ⟨[3, 2]⟩, ⟨[3, 2]⟩] := by decide +kernel
  exact ⟨last, h, hd, hs, Session.shapes_sound h "f" (.single x) hd hs⟩

end Recorder

end ArrayFusion
