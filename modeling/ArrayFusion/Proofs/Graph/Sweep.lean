/-
ArrayFusion/Proofs/Graph/Sweep.lean

Going through the nodes of a tape in program order with one entry per value.

Design.  Shapes, contents and owners are all computed that way: every value
has an entry from the start, and each node replaces the entries of its
outputs.  `Tape.sweep` is that pattern once for all.  Because nodes use and
produce values of the tape only, what is added to a tape later leaves the
entries of the old values alone: a sweep of a longer tape is the sweep of the
shorter one, continued (`sweep_leaf`, `sweep_node`), and a failure stays
(`sweep_error_of_extends`).

Main result: the entries that a sweep finds satisfy one equation for each
node, which does not mention the order (`sweep_output`).
-/
import ArrayFusion.Proofs.Graph.Tape
import Mathlib.Data.List.Nodup

namespace ArrayFusion

variable {α : Type}

/-! ### Replacing entries -/

/-- Replaces entries of a list, one after the other. -/
def putAll (xs : List α) (entries : List (Nat × α)) : List α :=
  entries.foldl (fun xs p => xs.set p.1 p.2) xs

@[simp] theorem putAll_nil (xs : List α) : putAll xs [] = xs := rfl

@[simp] theorem putAll_cons (xs : List α) (p : Nat × α) (entries : List (Nat × α)) :
    putAll xs (p :: entries) = putAll (xs.set p.1 p.2) entries := rfl

@[simp] theorem length_putAll (xs : List α) (entries : List (Nat × α)) :
    (putAll xs entries).length = xs.length := by
  induction entries generalizing xs with
  | nil => rfl
  | cons p entries ih => rw [putAll_cons, ih, List.length_set]

theorem putAll_append {xs : List α} {entries : List (Nat × α)}
    (h : ∀ p ∈ entries, p.1 < xs.length) (ys : List α) :
    putAll (xs ++ ys) entries = putAll xs entries ++ ys := by
  induction entries generalizing xs with
  | nil => rfl
  | cons p entries ih =>
    rw [putAll_cons, putAll_cons, List.set_append_left _ _ (h p List.mem_cons_self), ih]
    intro q hq
    rw [List.length_set]
    exact h q (List.mem_cons_of_mem p hq)

/-- An entry after replacing some is an old one or a new one. -/
theorem getElem?_putAll_cases {xs : List α} {entries : List (Nat × α)} {k : Nat} {x : α}
    (h : (putAll xs entries)[k]? = some x) : xs[k]? = some x ∨ (k, x) ∈ entries := by
  induction entries generalizing xs with
  | nil => exact .inl h
  | cons p entries ih =>
    rcases ih h with hset | hmem
    · rw [List.getElem?_set] at hset
      split at hset
      · next hk =>
        split at hset
        · cases hset
          rw [← hk]
          exact .inr List.mem_cons_self
        · cases hset
      · exact .inl hset
    · exact .inr (List.mem_cons_of_mem p hmem)

theorem getElem?_putAll_of_notMem {xs : List α} {entries : List (Nat × α)} {k : Nat}
    (h : k ∉ entries.map (·.1)) : (putAll xs entries)[k]? = xs[k]? := by
  induction entries generalizing xs with
  | nil => rfl
  | cons p entries ih =>
    rw [List.map_cons, List.mem_cons, not_or] at h
    rw [putAll_cons, ih h.2, List.getElem?_set_ne (Ne.symm h.1)]

/-- Where every entry is replaced at most once, the new one stays. -/
theorem getElem?_putAll_of_mem {xs : List α} {entries : List (Nat × α)}
    (hnodup : (entries.map (·.1)).Nodup) {k : Nat} {x : α} (hmem : (k, x) ∈ entries)
    (hk : k < xs.length) : (putAll xs entries)[k]? = some x := by
  induction entries generalizing xs with
  | nil => cases hmem
  | cons p entries ih =>
    rw [List.map_cons, List.nodup_cons] at hnodup
    rw [putAll_cons]
    rcases List.mem_cons.mp hmem with rfl | hmem
    · rw [getElem?_putAll_of_notMem hnodup.1, List.getElem?_set_self hk]
    · exact ih hnodup.2 hmem (by rw [List.length_set]; exact hk)

/-- Where entries are replaced by greater and greater numbers, the greatest
stays. -/
theorem le_getElem?_putAll {xs : List Nat} {entries : List (Nat × Nat)}
    (hs : entries.Pairwise fun p q => p.2 ≤ q.2) {k x y : Nat} (hmem : (k, x) ∈ entries)
    (h : (putAll xs entries)[k]? = some y) : x ≤ y := by
  induction entries generalizing xs with
  | nil => simp at hmem
  | cons p entries ih =>
    rw [List.pairwise_cons] at hs
    rw [putAll_cons] at h
    rcases List.mem_cons.mp hmem with rfl | hmem
    · rcases getElem?_putAll_cases h with hset | hlater
      · rw [List.getElem?_set] at hset
        simp only [if_true] at hset
        split at hset
        · cases hset
          exact Nat.le_refl _
        · cases hset
      · exact hs.1 _ hlater
    · exact ih hs.2 hmem h

/-- New entries that are distinct and not there yet keep a list free of
repetitions. -/
theorem nodup_putAll {xs : List α} {entries : List (Nat × α)} (hx : xs.Nodup)
    (hnew : (entries.map (·.2)).Nodup) (hnot : ∀ p ∈ entries, p.2 ∉ xs) :
    (putAll xs entries).Nodup := by
  induction entries generalizing xs with
  | nil => exact hx
  | cons p entries ih =>
    rw [List.map_cons, List.nodup_cons] at hnew
    refine ih (List.Nodup.set hx (hnot p List.mem_cons_self)) hnew.2 ?_
    intro q hq hmem
    rcases List.mem_or_eq_of_mem_set hmem with hold | heq
    · exact hnot q (List.mem_cons_of_mem p hq) hold
    · exact hnew.1 (List.mem_map.mpr ⟨q, hq, heq⟩)

/-- Replacing all of an appended part. -/
theorem putAll_range' (xs ys zs : List α) (h : zs.length = ys.length) :
    putAll (xs ++ ys) ((List.range' xs.length ys.length).zip zs) = xs ++ zs := by
  induction ys generalizing xs zs with
  | nil =>
    rw [List.length_eq_zero_iff.mp h]
    rfl
  | cons y ys ih =>
    obtain ⟨z, zs, rfl⟩ := List.exists_cons_of_length_eq_add_one h
    have hset : (xs ++ y :: ys).set xs.length z = (xs ++ [z]) ++ ys := by
      rw [List.set_append_right _ _ (Nat.le_refl _), Nat.sub_self, List.append_assoc]
      rfl
    have hih := ih (xs ++ [z]) zs (by simpa using h)
    rw [List.length_append, List.length_singleton] at hih
    rw [List.length_cons, List.range'_succ, List.zip_cons_cons, putAll_cons, hset, hih,
      List.append_assoc]
    rfl

namespace Tape

theorem nextIds_eq_range' (t : Tape) (count : Nat) :
    t.nextIds count = List.range' t.values.length count := by
  rw [nextIds, List.range'_eq_map_range]

/-! ### Sweeps -/

section

variable (F : Node → List α → List α → Except Error (List α)) (d : α)

/-- One node of a sweep: its outputs from the entries of inputs and targets. -/
def sweepNode (env : List α) (n : Node) : Except Error (List α) := do
  let outs ← F n (n.inputs.map (env.getD · d)) (n.targets.map (env.getD · d))
  return putAll env (n.outputs.zip outs)

/-- All nodes in program order. -/
def sweep (start : GraphValue → α) (t : Tape) : Except Error (List α) :=
  t.nodes.foldlM (sweepNode F d) (t.values.map start)

end

variable {F : Node → List α → List α → Except Error (List α)} {d : α} {start : GraphValue → α}

/-- The values a node uses and produces are below a bound. -/
def Within (n : Node) (bound : Nat) : Prop :=
  (∀ v ∈ n.inputs ++ n.targets, v < bound) ∧ ∀ v ∈ n.outputs, v < bound

theorem Recorded.within {t : Tape} (h : Recorded t) {n : Node} (hn : n ∈ t.nodes) :
    Within n t.values.length := by
  obtain ⟨k, hk⟩ := List.getElem?_of_mem hn
  exact ⟨fun v hv => h.operand_lt hk hv, fun v hv => h.output_lt hk hv⟩

theorem length_sweepNode {env env' : List α} {n : Node}
    (h : sweepNode F d env n = .ok env') : env'.length = env.length := by
  obtain ⟨outs, -, h⟩ := except_bind_eq_ok.mp h
  cases h
  exact length_putAll _ _

theorem length_foldlM_sweepNode {nodes : List Node} {env env' : List α}
    (h : nodes.foldlM (sweepNode F d) env = .ok env') : env'.length = env.length := by
  induction nodes generalizing env with
  | nil =>
    cases h
    rfl
  | cons n nodes ih =>
    rw [List.foldlM_cons] at h
    obtain ⟨mid, hmid, h⟩ := except_bind_eq_ok.mp h
    rw [ih h, length_sweepNode hmid]

theorem length_sweep {t : Tape} {env : List α} (h : t.sweep F d start = .ok env) :
    env.length = t.values.length := by
  rw [length_foldlM_sweepNode h, List.length_map]

theorem map_getD_append {vs : List ValueId} {env : List α} (h : ∀ v ∈ vs, v < env.length)
    (extra : List α) : vs.map ((env ++ extra).getD · d) = vs.map (env.getD · d) := by
  apply List.map_congr_left
  intro v hv
  rw [List.getD, List.getD, List.getElem?_append_left (h v hv)]

/-- Entries behind those that a node knows stay where they are. -/
theorem sweepNode_append {n : Node} {env : List α} (h : Within n env.length) (extra : List α) :
    sweepNode F d (env ++ extra) n = (sweepNode F d env n).map (· ++ extra) := by
  obtain ⟨hops, houts⟩ := h
  unfold sweepNode
  rw [map_getD_append (fun v hv => hops v (List.mem_append_left _ hv)),
    map_getD_append (fun v hv => hops v (List.mem_append_right _ hv))]
  rcases F n (n.inputs.map (env.getD · d)) (n.targets.map (env.getD · d)) with e | outs
  · rfl
  · show Except.ok _ = Except.ok _
    rw [putAll_append]
    intro p hp
    exact houts p.1 (List.of_mem_zip hp).1

theorem foldlM_sweepNode_append {nodes : List Node} {env : List α}
    (h : ∀ n ∈ nodes, Within n env.length) (extra : List α) :
    nodes.foldlM (sweepNode F d) (env ++ extra) =
      (nodes.foldlM (sweepNode F d) env).map (· ++ extra) := by
  induction nodes generalizing env with
  | nil => rfl
  | cons n nodes ih =>
    rw [List.foldlM_cons, List.foldlM_cons, sweepNode_append (h n List.mem_cons_self)]
    rcases e : sweepNode F d env n with err | env'
    · rfl
    · show nodes.foldlM _ (env' ++ extra) = _
      rw [ih]
      · rfl
      · intro m hm
        rw [length_sweepNode e]
        exact h m (List.mem_cons_of_mem n hm)

/-- The old nodes of a longer tape. -/
theorem Recorded.foldlM_extends {t : Tape} (h : Recorded t) (extra : List GraphValue) :
    t.nodes.foldlM (sweepNode F d) ((t.values ++ extra).map start) =
      (t.sweep F d start).map (· ++ extra.map start) := by
  rw [List.map_append, foldlM_sweepNode_append]
  · rfl
  · intro n hn
    rw [List.length_map]
    exact h.within hn

/-- A leaf gets its entry at the end. -/
theorem Recorded.sweep_leaf {t : Tape} (h : Recorded t) (extra : List GraphValue)
    (params : List Param) :
    sweep F d start ⟨t.values ++ extra, t.nodes, params⟩ =
      (t.sweep F d start).map (· ++ extra.map start) :=
  h.foldlM_extends extra

/-- The outputs of a node get their entries at the end. -/
theorem Recorded.sweep_node {t : Tape} (h : Recorded t) {op : Op} {inputs targets : List ValueId}
    {forms : List Form} (known : ∀ v ∈ inputs ++ targets, v < t.values.length)
    (count : ∀ env outs, t.sweep F d start = .ok env →
      F ⟨op, inputs, targets, t.nextIds forms.length⟩ (inputs.map (env.getD · d))
        (targets.map (env.getD · d)) = .ok outs → outs.length = forms.length) :
    (t.node op inputs targets forms).2.sweep F d start = (do
      let env ← t.sweep F d start
      let outs ← F ⟨op, inputs, targets, t.nextIds forms.length⟩ (inputs.map (env.getD · d))
        (targets.map (env.getD · d))
      return env ++ outs) := by
  show (t.nodes ++ [_]).foldlM (sweepNode F d) ((t.values ++ t.infos forms).map start) = _
  rw [List.foldlM_append, h.foldlM_extends]
  rcases e : t.sweep F d start with err | env
  · rfl
  · have hlen := length_sweep e
    have hrange : t.nextIds forms.length = List.range' env.length ((t.infos forms).map start).length := by
      rw [nextIds_eq_range', hlen, List.length_map, length_infos]
    show (sweepNode F d (env ++ (t.infos forms).map start) _ >>= pure) = _
    rw [bind_pure, except_bind_ok]
    unfold sweepNode
    rw [map_getD_append (fun v hv => hlen ▸ known v (List.mem_append_left _ hv)),
      map_getD_append (fun v hv => hlen ▸ known v (List.mem_append_right _ hv))]
    rcases eo : F ⟨op, inputs, targets, t.nextIds forms.length⟩ (inputs.map (env.getD · d))
        (targets.map (env.getD · d)) with err | outs
    · rfl
    · show Except.ok _ = Except.ok _
      dsimp only
      rw [hrange, putAll_range' _ _ _ (by rw [count env outs e eo, List.length_map, length_infos])]

/-- A step without a node keeps what was found and adds initial entries. -/
theorem Recorded.sweep_addsLeaf {t u : Tape} (h : Recorded t) (hu : t.AddsLeaf u) {env : List α}
    (henv : u.sweep F d start = .ok env) :
    ∃ old extra, t.sweep F d start = .ok old ∧ u.values = t.values ++ extra ∧
      env = old ++ extra.map start := by
  obtain ⟨extra, hv⟩ := hu.grows.values
  have hsweep : u.sweep F d start = (t.sweep F d start).map (· ++ extra.map start) := by
    rw [sweep, hu.nodes, ← hv]
    exact h.foldlM_extends extra
  rw [hsweep] at henv
  obtain ⟨old, hold, rfl⟩ := except_map_eq_ok.mp henv
  exact ⟨old, extra, hold, hv.symm, rfl⟩

/-! ### The equations of a sweep -/

section

variable (F d start)

/-- For every node of the tape, a sweep finds as many entries as the node has
outputs. -/
def Counts (t : Tape) : Prop :=
  ∀ {u : Tape} {op : Op} {inputs targets : List ValueId} {forms : List Form}, Recorded u →
    (u.node op inputs targets forms).2.Extends t →
    (∀ v ∈ inputs ++ targets, v < u.values.length) →
    op.Typed (inputs.map u.formOf) (targets.map u.formOf) forms →
    ∀ env outs, u.sweep F d start = .ok env →
      F ⟨op, inputs, targets, u.nextIds forms.length⟩ (inputs.map (env.getD · d))
        (targets.map (env.getD · d)) = .ok outs → outs.length = forms.length

/-- The entries of a node's outputs are what the node makes of the entries of
its inputs and targets. -/
def Solves (env : List α) (node : Node) : Prop :=
  ∃ outs, F node (node.inputs.map (env.getD · d)) (node.targets.map (env.getD · d)) = .ok outs ∧
    outs.length = node.outputs.length ∧
    ∀ (k : Nat) (v : ValueId), node.outputs[k]? = some v → env[v]? = outs[k]?

end

theorem Solves.append {env : List α} {node : Node} (h : Solves F d env node)
    (hoperand : ∀ v ∈ node.inputs ++ node.targets, v < env.length)
    (houtput : ∀ v ∈ node.outputs, v < env.length) (extra : List α) :
    Solves F d (env ++ extra) node := by
  obtain ⟨outs, houts, hlen, hout⟩ := h
  refine ⟨outs, ?_, hlen, ?_⟩
  · rw [map_getD_append (fun v hv => hoperand v (List.mem_append_left _ hv)),
      map_getD_append (fun v hv => hoperand v (List.mem_append_right _ hv))]
    exact houts
  · intro k v hk
    rw [List.getElem?_append_left (houtput v (List.mem_of_getElem? hk))]
    exact hout k v hk

theorem Counts.of_extends {t u : Tape} (h : Counts F d start u) (hu : t.Extends u) :
    Counts F d start t :=
  fun hr hext => h hr (hext.trans hu)

/-- Every node relates the entries of its outputs to those of its inputs and
targets. -/
theorem Recorded.sweep_output {t : Tape} (h : Recorded t) :
    Counts F d start t → ∀ env, t.sweep F d start = .ok env → ∀ {n : NodeId} {node : Node},
      t.nodes[n]? = some node → Solves F d env node := by
  induction h using Recorded.leafInduction with
  | empty =>
    intro _ env _ n node hn
    simp [Tape.empty] at hn
  | leaf t u rec _ hadd ih =>
    intro hcounts env henv n node hn
    rw [hadd.nodes] at hn
    obtain ⟨old, extra, hold, -, rfl⟩ := rec.sweep_addsLeaf hadd henv
    have hl := length_sweep hold
    exact (ih (hcounts.of_extends hadd.grows) old hold hn).append
      (fun v hv => hl ▸ rec.operand_lt hn hv) (fun v hv => hl ▸ rec.output_lt hn hv) _
  | node t op ins targets forms rec known typed ih =>
    intro hcounts env henv n node hn
    have hcount := hcounts rec (.refl _) known typed
    rw [rec.sweep_node known hcount] at henv
    obtain ⟨old, hold, henv⟩ := except_bind_eq_ok.mp henv
    obtain ⟨outs, houts, henv⟩ := except_bind_eq_ok.mp henv
    cases henv
    have hl := length_sweep hold
    rcases getElem?_nodes_node hn with hn | ⟨rfl, rfl⟩
    · exact (ih (hcounts.of_extends (t.extends_node op ins targets forms)) old hold hn).append
        (fun v hv => hl ▸ rec.operand_lt hn hv) (fun v hv => hl ▸ rec.output_lt hn hv) _
    · -- the new node: its operands are old entries, its outputs are the entries just added
      refine ⟨outs, ?_, ?_, ?_⟩
      · rw [map_getD_append (fun v hv => hl ▸ known v (List.mem_append_left _ hv)),
          map_getD_append (fun v hv => hl ▸ known v (List.mem_append_right _ hv))]
        exact houts
      · rw [length_nextIds]
        exact hcount old outs hold houts
      · intro k v hk
        obtain ⟨-, rfl⟩ := getElem?_nextIds_eq_some.mp hk
        rw [List.getElem?_append_right (by omega), hl, Nat.add_sub_cancel_left]

/-- A value that no node produces keeps its initial entry. -/
theorem Recorded.sweep_initial {t : Tape} (h : Recorded t) :
    Counts F d start t → ∀ env, t.sweep F d start = .ok env → ∀ {v : ValueId} {info : GraphValue},
      t.values[v]? = some info → (∀ n k, info.source ≠ .output n k) →
      env[v]? = some (start info) := by
  induction h using Recorded.leafInduction with
  | empty =>
    intro _ env _ v info hv
    simp [Tape.empty] at hv
  | leaf t u rec _ hadd ih =>
    intro hcounts env henv v info hv hs
    obtain ⟨old, extra, hold, hvalues, rfl⟩ := rec.sweep_addsLeaf hadd henv
    have hl := length_sweep hold
    rw [hvalues] at hv
    rcases Nat.lt_or_ge v t.values.length with hlt | hge
    · rw [List.getElem?_append_left hlt] at hv
      rw [List.getElem?_append_left (hl ▸ hlt)]
      exact ih (hcounts.of_extends hadd.grows) old hold hv hs
    · rw [List.getElem?_append_right hge] at hv
      rw [List.getElem?_append_right (hl ▸ hge), hl, List.getElem?_map, hv]
      rfl
  | node t op ins targets forms rec known typed ih =>
    intro hcounts env henv v info hv hs
    rw [rec.sweep_node known (hcounts rec (.refl _) known typed)] at henv
    obtain ⟨old, hold, henv⟩ := except_bind_eq_ok.mp henv
    obtain ⟨outs, -, henv⟩ := except_bind_eq_ok.mp henv
    cases henv
    rcases getElem?_values_node hv with hv | ⟨k, form, -, -, rfl⟩
    · rw [List.getElem?_append_left (length_sweep hold ▸ (List.getElem?_eq_some_iff.mp hv).1)]
      exact ih (hcounts.of_extends (t.extends_node op ins targets forms)) old hold hv hs
    · exact absurd rfl (hs _ _)

/-! ### Failures -/

/-- A sweep that fails on a tape fails on every continuation of it. -/
theorem Recorded.sweep_error_of_extends {t u : Tape} (h : Recorded t) (hu : t.Extends u)
    {e : Error} (he : t.sweep F d start = .error e) : u.sweep F d start = .error e := by
  obtain ⟨extra, hv⟩ := hu.values
  obtain ⟨rest, hn⟩ := hu.nodes
  rw [sweep, ← hv, ← hn, List.foldlM_append, h.foldlM_extends, he]
  rfl

end Tape

end ArrayFusion
