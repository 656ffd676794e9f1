/-
ArrayFusion/Proofs/Graph/Ownership.lean

Which parameter's storage a value lives in.

Design.  Owners are computed by going through the nodes, but they satisfy
equations that do not mention the order: an initial value is owned by its
parameter, and an output has the owner of the target it replaces
(`ownerOf_leaf`, `ownerOf_output`).  The values that a parameter owns are its
versions.  They are numbered in the order in which they are made, so the
current version is the one with the greatest number (`Versions`).

Main results: a node uses the current version of a parameter, never an older
one (`Versions.operand`), and all versions have the dtype and shape of the
argument (`shape_of_owner`).
-/
import ArrayFusion.Proofs.Graph.Finish
import ArrayFusion.Proofs.Graph.Snapshot

namespace ArrayFusion

namespace Tape

/-! ### Owners of a tape -/

/-- The owner of a value before any node. -/
def startOwner (info : GraphValue) : Option Nat :=
  match info.source with
  | .param i => some i
  | _ => none

/-- The owners after one more node. -/
def inheritAll (owners : List (Option Nat)) (n : Node) : List (Option Nat) :=
  (n.targets.zip n.outputs).foldl Graph.inherit owners

/-- The owners of all values. -/
def owners (t : Tape) : List (Option Nat) :=
  t.nodes.foldl inheritAll (t.values.map startOwner)

/-- The owner of one value. -/
def ownerOf (t : Tape) (v : ValueId) : Option Nat :=
  (t.owners[v]?).join

theorem length_foldl_inherit (pairs : List (ValueId × ValueId)) (os : List (Option Nat)) :
    (pairs.foldl Graph.inherit os).length = os.length := by
  induction pairs generalizing os with
  | nil => rfl
  | cons p pairs ih => rw [List.foldl_cons, ih, Graph.inherit, List.length_set]

theorem length_inheritAll (os : List (Option Nat)) (n : Node) :
    (inheritAll os n).length = os.length :=
  length_foldl_inherit _ os

/-- Entries behind those that a node knows stay where they are. -/
theorem foldl_inherit_append {pairs : List (ValueId × ValueId)} {os : List (Option Nat)}
    (h : ∀ p ∈ pairs, p.1 < os.length ∧ p.2 < os.length) (extra : List (Option Nat)) :
    pairs.foldl Graph.inherit (os ++ extra) = pairs.foldl Graph.inherit os ++ extra := by
  induction pairs generalizing os with
  | nil => rfl
  | cons p pairs ih =>
    obtain ⟨h1, h2⟩ := h p List.mem_cons_self
    have hstep : Graph.inherit (os ++ extra) p = Graph.inherit os p ++ extra := by
      rw [Graph.inherit, Graph.inherit, List.getElem?_append_left h1, List.set_append_left _ _ h2]
    rw [List.foldl_cons, List.foldl_cons, hstep, ih]
    intro q hq
    rw [Graph.inherit, List.length_set]
    exact h q (List.mem_cons_of_mem p hq)

theorem foldl_inheritAll_append {nodes : List Node} {os : List (Option Nat)}
    (h : ∀ n ∈ nodes, Within n os.length) (extra : List (Option Nat)) :
    nodes.foldl inheritAll (os ++ extra) = nodes.foldl inheritAll os ++ extra := by
  induction nodes generalizing os with
  | nil => rfl
  | cons n nodes ih =>
    obtain ⟨hops, houts⟩ := h n List.mem_cons_self
    rw [List.foldl_cons, List.foldl_cons, inheritAll, foldl_inherit_append, ← inheritAll, ih]
    · intro m hm
      rw [length_inheritAll]
      exact h m (List.mem_cons_of_mem n hm)
    · intro p hp
      obtain ⟨h1, h2⟩ := List.of_mem_zip hp
      exact ⟨hops _ (List.mem_append_right _ h1), houts _ h2⟩

/-- Where the outputs are new, every output gets the owner of its target. -/
theorem getElem?_foldl_inherit {pairs : List (ValueId × ValueId)} (os : List (Option Nat))
    (hsep : ∀ p ∈ pairs, ∀ q ∈ pairs, p.1 ≠ q.2) (hnodup : (pairs.map (·.2)).Nodup) :
    (∀ p ∈ pairs, p.2 < os.length →
        (pairs.foldl Graph.inherit os)[p.2]? = some (os[p.1]?).join) ∧
      ∀ v, v ∉ pairs.map (·.2) → (pairs.foldl Graph.inherit os)[v]? = os[v]? := by
  induction pairs generalizing os with
  | nil => exact ⟨by simp, fun v _ => rfl⟩
  | cons p pairs ih =>
    rw [List.map_cons, List.nodup_cons] at hnodup
    obtain ⟨hin, hout⟩ := ih (Graph.inherit os p)
      (fun a ha b hb => hsep a (List.mem_cons_of_mem p ha) b (List.mem_cons_of_mem p hb)) hnodup.2
    rw [List.foldl_cons]
    refine ⟨?_, ?_⟩
    · intro q hq hlt
      rcases List.mem_cons.mp hq with rfl | hmem
      · rw [hout q.2 hnodup.1, Graph.inherit, List.getElem?_set_self hlt]
      · rw [hin q hmem (by rw [Graph.inherit, List.length_set]; exact hlt), Graph.inherit,
          List.getElem?_set_ne (Ne.symm (hsep q hq p List.mem_cons_self))]
    · intro v hv
      rw [List.map_cons, List.mem_cons, not_or] at hv
      rw [hout v hv.2, Graph.inherit, List.getElem?_set_ne (Ne.symm hv.1)]

theorem Recorded.foldl_owners {t : Tape} (h : Recorded t) (extra : List GraphValue) :
    t.nodes.foldl inheritAll ((t.values ++ extra).map startOwner) =
      t.owners ++ extra.map startOwner := by
  rw [List.map_append, foldl_inheritAll_append]
  · rfl
  · intro n hn
    rw [List.length_map]
    exact h.within hn

theorem length_owners (t : Tape) : t.owners.length = t.values.length := by
  have h : ∀ (nodes : List Node) (os : List (Option Nat)),
      (nodes.foldl inheritAll os).length = os.length := by
    intro nodes
    induction nodes with
    | nil => exact fun os => rfl
    | cons n nodes ih => exact fun os => by rw [List.foldl_cons, ih, length_inheritAll]
  rw [owners, h, List.length_map]

theorem lt_of_ownerOf {t : Tape} {v : ValueId} {i : Nat} (h : t.ownerOf v = some i) :
    v < t.values.length := by
  by_contra hv
  rw [ownerOf, List.getElem?_eq_none (by rw [length_owners]; exact Nat.le_of_not_lt hv)] at h
  cases h

/-! ### One step more -/

theorem Recorded.owners_addsLeaf {t u : Tape} (h : Recorded t) (hu : t.AddsLeaf u) :
    ∃ extra, u.values = t.values ++ extra ∧ u.owners = t.owners ++ extra.map startOwner := by
  obtain ⟨extra, hv⟩ := hu.grows.values
  refine ⟨extra, hv.symm, ?_⟩
  rw [owners, hu.nodes, ← hv, h.foldl_owners]

theorem Recorded.owners_node {t : Tape} (h : Recorded t) (op : Op) (ins targets : List ValueId)
    (forms : List Form) : (t.node op ins targets forms).2.owners =
      (targets.zip (t.nextIds forms.length)).foldl Graph.inherit
        (t.owners ++ (t.infos forms).map startOwner) := by
  show (t.nodes ++ [_]).foldl inheritAll ((t.values ++ t.infos forms).map startOwner) = _
  rw [List.foldl_append, h.foldl_owners]
  rfl

/-- Every target is replaced by an output of its own. -/
theorem nodup_replacements {t : Tape} {op : Op} {ins targets : List ValueId} {forms : List Form}
    (typed : op.Typed (ins.map t.formOf) (targets.map t.formOf) forms) :
    ((targets.zip (t.nextIds forms.length)).map (·.2)).Nodup := by
  rcases typed.targets_cases with hnil | hsame
  · rw [List.map_eq_nil_iff.mp hnil]
    exact List.nodup_nil
  · rw [List.map_snd_zip (Nat.le_of_eq (by rw [length_nextIds, hsame, List.length_map])),
      nextIds_eq_range']
    exact List.nodup_range'

/-- An output that replaces nothing. -/
theorem notMem_replacements {t : Tape} {targets : List ValueId} {count k : Nat}
    (hk : targets[k]? = none) :
    t.values.length + k ∉ (targets.zip (t.nextIds count)).map (·.2) := by
  intro hmem
  obtain ⟨p, hp, heq⟩ := List.mem_map.mp hmem
  obtain ⟨j, hj⟩ := List.getElem?_of_mem hp
  obtain ⟨h1, h2⟩ := List.getElem?_zip_eq_some.mp hj
  obtain ⟨-, hval⟩ := getElem?_nextIds_eq_some.mp h2
  obtain rfl : j = k := Nat.add_left_cancel (hval.symm.trans heq)
  rw [hk] at h1
  cases h1

/-- Old values keep their owners, and the outputs of one more node get those
of its targets. -/
theorem Recorded.ownerOf_node {t : Tape} (h : Recorded t) {op : Op} {ins targets : List ValueId}
    {forms : List Form} (known : ∀ v ∈ ins ++ targets, v < t.values.length)
    (typed : op.Typed (ins.map t.formOf) (targets.map t.formOf) forms) :
    (∀ v, v < t.values.length → (t.node op ins targets forms).2.ownerOf v = t.ownerOf v) ∧
      ∀ k, k < forms.length → (t.node op ins targets forms).2.ownerOf (t.values.length + k) =
        (targets[k]?).bind t.ownerOf := by
  have hl := t.length_owners
  have hids : ∀ p ∈ targets.zip (t.nextIds forms.length),
      p.1 < t.values.length ∧ t.values.length ≤ p.2 := by
    intro p hp
    obtain ⟨h1, h2⟩ := List.of_mem_zip hp
    obtain ⟨k, -, hk⟩ := mem_nextIds.mp h2
    exact ⟨known _ (List.mem_append_right _ h1), by rw [hk]; exact Nat.le_add_right _ _⟩
  -- targets are old and outputs new, so the order of the replacements is irrelevant
  obtain ⟨hin, hout⟩ := getElem?_foldl_inherit (t.owners ++ (t.infos forms).map startOwner)
    (fun p hp q hq heq => Nat.not_le_of_lt (hids p hp).1 (heq ▸ (hids q hq).2))
    (nodup_replacements typed)
  refine ⟨?_, ?_⟩
  · intro v hv
    have hnot : v ∉ (targets.zip (t.nextIds forms.length)).map (·.2) := by
      intro hmem
      obtain ⟨p, hp, rfl⟩ := List.mem_map.mp hmem
      exact Nat.not_le_of_lt hv (hids p hp).2
    rw [ownerOf, h.owners_node, hout v hnot, List.getElem?_append_left (by rw [hl]; exact hv), ownerOf]
  · intro k hk
    rw [ownerOf, h.owners_node]
    rcases hget : targets[k]? with - | u
    · -- no target, so the output is a new value
      rw [hout _ (notMem_replacements hget), List.getElem?_append_right (by rw [hl]; exact Nat.le_add_right _ _), hl,
        Nat.add_sub_cancel_left, List.getElem?_map, infos, List.getElem?_mapIdx,
        List.getElem?_eq_getElem hk]
      rfl
    · have hmem : (u, t.values.length + k) ∈ targets.zip (t.nextIds forms.length) :=
        List.mem_of_getElem? (List.getElem?_zip_eq_some.mpr ⟨hget, getElem?_nextIds hk⟩)
      rw [hin _ hmem (by
        rw [List.length_append, hl, List.length_map, length_infos]
        exact Nat.add_lt_add_left hk _),
        List.getElem?_append_left (by rw [hl]; exact (hids _ hmem).1)]
      rfl

/-! ### The equations of owners -/

theorem Recorded.ownerOf_addsLeaf {t u : Tape} (h : Recorded t) (hu : t.AddsLeaf u) {v : ValueId}
    (hv : v < t.values.length) : u.ownerOf v = t.ownerOf v := by
  obtain ⟨extra, -, howners⟩ := h.owners_addsLeaf hu
  rw [ownerOf, howners, List.getElem?_append_left (by rw [length_owners]; exact hv), ownerOf]

/-- An output lives where the target that it replaces lived. -/
theorem Recorded.ownerOf_output {t : Tape} (h : Recorded t) :
    ∀ {n : NodeId} {node : Node} {k : Nat} {v : ValueId}, t.nodes[n]? = some node →
      node.outputs[k]? = some v → t.ownerOf v = (node.targets[k]?).bind t.ownerOf := by
  induction h using Recorded.leafInduction with
  | empty =>
    intro n node k v hn
    simp [Tape.empty] at hn
  | leaf t u rec _ hadd ih =>
    intro n node k v hn hk
    rw [hadd.nodes] at hn
    rw [rec.ownerOf_addsLeaf hadd (rec.output_lt hn (List.mem_of_getElem? hk)), ih hn hk]
    rcases htgt : node.targets[k]? with - | x
    · rfl
    · exact (rec.ownerOf_addsLeaf hadd
        (rec.operand_lt hn (List.mem_append_right _ (List.mem_of_getElem? htgt)))).symm
  | node t op ins targets forms rec known typed ih =>
    intro n node k v hn hk
    obtain ⟨hold, hnew⟩ := rec.ownerOf_node known typed
    rcases getElem?_nodes_node hn with hn | ⟨rfl, rfl⟩
    · rw [hold v (rec.output_lt hn (List.mem_of_getElem? hk)), ih hn hk]
      rcases htgt : node.targets[k]? with - | x
      · rfl
      · exact (hold x
          (rec.operand_lt hn (List.mem_append_right _ (List.mem_of_getElem? htgt)))).symm
    · obtain ⟨hlt, rfl⟩ := getElem?_nextIds_eq_some.mp hk
      rw [hnew k hlt]
      dsimp only
      rcases htgt : targets[k]? with - | x
      · rfl
      · exact (hold x (known x (List.mem_append_right _ (List.mem_of_getElem? htgt)))).symm

/-- A value that no node produces is owned by its parameter, if it is the
initial value of one. -/
theorem Recorded.ownerOf_leaf {t : Tape} (h : Recorded t) :
    ∀ {v : ValueId} {info : GraphValue}, t.values[v]? = some info →
      (∀ n k, info.source ≠ .output n k) → t.ownerOf v = startOwner info := by
  induction h using Recorded.leafInduction with
  | empty =>
    intro v info hv
    simp [Tape.empty] at hv
  | leaf t u rec _ hadd ih =>
    intro v info hv hs
    obtain ⟨extra, hvalues, howners⟩ := rec.owners_addsLeaf hadd
    rcases Nat.lt_or_ge v t.values.length with hlt | hge
    · rw [rec.ownerOf_addsLeaf hadd hlt]
      rw [hvalues, List.getElem?_append_left hlt] at hv
      exact ih hv hs
    · rw [hvalues, List.getElem?_append_right hge] at hv
      rw [ownerOf, howners, List.getElem?_append_right (by rw [length_owners]; exact hge),
        length_owners, List.getElem?_map, hv]
      rfl
  | node t op ins targets forms rec known typed ih =>
    intro v info hv hs
    rcases getElem?_values_node hv with hv | ⟨k, form, -, -, rfl⟩
    · rw [(rec.ownerOf_node known typed).1 v (List.getElem?_eq_some_iff.mp hv).1]
      exact ih hv hs
    · exact absurd rfl (hs _ _)

/-! ### Versions of a parameter -/

/-- Induction along the versions of a parameter: its initial value, and every
output that replaces a version. -/
theorem Recorded.ownerInduction {t : Tape} (h : Recorded t) {i : Nat} {motive : ValueId → Prop}
    (initial : ∀ (v : ValueId) (form : Form), t.values[v]? = some ⟨form, .param i⟩ → motive v)
    (replaced : ∀ (n : NodeId) (node : Node) (k : Nat) (x v : ValueId), t.nodes[n]? = some node →
      node.targets[k]? = some x → node.outputs[k]? = some v → motive x → motive v) :
    ∀ v, t.ownerOf v = some i → motive v := by
  intro v
  induction v using Nat.strongRecOn with
  | ind v ih =>
    intro hv
    rcases hinfo : t.values[v]? with - | ⟨form, j | c | ⟨n, k⟩⟩
    · exact absurd (lt_of_ownerOf hv) (Nat.not_lt_of_le (List.getElem?_eq_none_iff.mp hinfo))
    · rw [h.ownerOf_leaf hinfo (by simp)] at hv
      cases hv
      exact initial v form hinfo
    · rw [h.ownerOf_leaf hinfo (by simp)] at hv
      cases hv
    · obtain ⟨node, hn, hk⟩ := h.output_of_source hinfo
      rw [h.ownerOf_output hn hk] at hv
      obtain ⟨x, hx, howner⟩ := Option.bind_eq_some_iff.mp hv
      have hlt : x < v := h.operand_lt_output hn
        (List.mem_append_right _ (List.mem_of_getElem? hx)) (List.mem_of_getElem? hk)
      exact replaced n node k x v hn hx hk (ih x hlt howner)

/-- An output has the form of the target that it replaces. -/
theorem Recorded.form_replaced {t : Tape} (h : Recorded t) {n : NodeId} {node : Node} {k : Nat}
    {x v : ValueId} (hn : t.nodes[n]? = some node) (hx : node.targets[k]? = some x)
    (hv : node.outputs[k]? = some v) : t.formOf v = t.formOf x := by
  have hforms : (node.targets.map t.formOf)[k]? = some (t.formOf x) := by
    rw [List.getElem?_map, hx, Option.map_some]
  rcases (h.typed hn).targets_cases with hnil | hsame
  · rw [hnil] at hforms
    cases hforms
  · rw [← hsame, List.getElem?_map, hv, Option.map_some] at hforms
    exact Option.some.inj hforms

/-- The initial value of the parameter that owns a value: it is no younger and
has the same form. -/
theorem Recorded.first_of_owner {t : Tape} (h : Recorded t) {i : Nat} :
    ∀ v, t.ownerOf v = some i →
      ∃ first, t.values[first]? = some ⟨t.formOf v, .param i⟩ ∧ first ≤ v := by
  refine h.ownerInduction ?_ ?_
  · intro v form hv
    exact ⟨v, by rw [hv, formOf_of_getElem? hv], Nat.le_refl _⟩
  · rintro n node k x v hn hx hv ⟨first, hfirst, hle⟩
    refine ⟨first, by rw [hfirst, h.form_replaced hn hx hv], ?_⟩
    exact Nat.le_trans hle (Nat.le_of_lt (h.operand_lt_output hn
      (List.mem_append_right _ (List.mem_of_getElem? hx)) (List.mem_of_getElem? hv)))

/-- Owners are parameters of the tape. -/
theorem Recorded.owner_lt {t : Tape} (h : Recorded t) {v : ValueId} {i : Nat}
    (hv : t.ownerOf v = some i) : i < t.params.length := by
  obtain ⟨first, hfirst, -⟩ := h.first_of_owner v hv
  exact (List.getElem?_eq_some_iff.mp (h.param_of_source hfirst).1).1

/-- A new parameter owns its initial value; the other owners stay. -/
theorem Recorded.ownerOf_addParam {t : Tape} (h : Recorded t) (form : Form) {u : ValueId}
    {i : Nat} : (t.addParam form).ownerOf u = some i ↔
      t.ownerOf u = some i ∨ u = t.values.length ∧ i = t.params.length := by
  have hadd := t.addsLeaf_addParam form
  have hnew : (t.addParam form).ownerOf t.values.length = some t.params.length := by
    obtain ⟨extra, hvalues, howners⟩ := h.owners_addsLeaf hadd
    obtain rfl := List.append_cancel_left hvalues
    rw [ownerOf, howners, ← length_owners]
    exact congrArg Option.join (getElem?_concat_length _ _)
  constructor
  · intro hu
    have hlt : u < (t.values ++ [_]).length := lt_of_ownerOf hu
    rw [List.length_append, List.length_singleton] at hlt
    rcases Nat.lt_succ_iff_lt_or_eq.mp hlt with hlt | rfl
    · rw [h.ownerOf_addsLeaf hadd hlt] at hu
      exact .inl hu
    · rw [hnew] at hu
      exact .inr ⟨rfl, (Option.some.inj hu).symm⟩
  · rintro (hu | ⟨rfl, rfl⟩)
    · rw [h.ownerOf_addsLeaf hadd (lt_of_ownerOf hu), hu]
    · exact hnew

/-- A parameter has one initial value. -/
theorem Recorded.initial_unique {t : Tape} (h : Recorded t) {u v : ValueId} {form form' : Form}
    {i : Nat} (hu : t.values[u]? = some ⟨form, .param i⟩)
    (hv : t.values[v]? = some ⟨form', .param i⟩) : u = v := by
  have heq := (h.param_of_source hu).1.symm.trans (h.param_of_source hv).1
  exact Option.some.inj (congrArg Param.value (Option.some.inj heq))

theorem Recorded.form_of_owner {t : Tape} (h : Recorded t) {u v : ValueId} {i : Nat}
    (hu : t.ownerOf u = some i) (hv : t.ownerOf v = some i) : t.formOf u = t.formOf v := by
  obtain ⟨first, hfirst, -⟩ := h.first_of_owner u hu
  obtain ⟨first', hfirst', -⟩ := h.first_of_owner v hv
  rw [h.initial_unique hfirst' hfirst] at hfirst'
  exact congrArg GraphValue.toForm (Option.some.inj (hfirst.symm.trans hfirst'))

/-- All versions of a parameter have the dtype and shape of its argument. -/
theorem Recorded.shape_of_owner {t : Tape} (h : Recorded t) {inputs env : List Tensor}
    (hacc : t.Accepts inputs) (henv : t.snapshot inputs = .ok env) {i : Nat} :
    ∀ v, t.ownerOf v = some i → ∃ x, inputs[i]? = some x ∧
      (env.getD v .blank).dtype = x.dtype ∧ (env.getD v .blank).shape = x.shape := by
  have hforms := h.forms_snapshot hacc env henv
  refine h.ownerInduction ?_ ?_
  · intro v form hv
    obtain ⟨hp, -⟩ := h.param_of_source hv
    obtain ⟨x, hx, -⟩ := hacc i _ v form.dtype hp rfl rfl
    have hget := h.snapshot_leaf hacc env henv hv (by simp)
    refine ⟨x, hx, ?_⟩
    rw [List.getD, hget, Option.getD_some]
    show (inputs.getD i .blank).dtype = _ ∧ (inputs.getD i .blank).shape = _
    rw [List.getD, hx, Option.getD_some]
    exact ⟨rfl, rfl⟩
  · rintro n node k x v hn hx hv ⟨arg, harg, hdtype, hshape⟩
    obtain ⟨outs, houts, -, hout⟩ := h.snapshot_output hacc env henv hn
    have hne : node.targets.map t.formOf ≠ [] :=
      List.ne_nil_of_mem (List.mem_map_of_mem (List.mem_of_getElem? hx))
    have hkept := (h.typed hn).update_outcome hne
      (hasForm_operands hforms fun u hu => h.operand_lt hn (List.mem_append_left _ hu))
      (hasForm_operands hforms fun u hu => h.operand_lt hn (List.mem_append_right _ hu)) houts
    have hold : (node.targets.map (env.getD · .blank))[k]? = some (env.getD x .blank) := by
      rw [List.getElem?_map, hx, Option.map_some]
    obtain ⟨new, hnew, hd, hs⟩ := forall₂_getElem?_right hkept hold
    refine ⟨arg, harg, ?_⟩
    rw [List.getD, hout k v hv, hnew, Option.getD_some, hd, hs]
    exact ⟨hdtype, hshape⟩

end Tape

namespace Recorder

/-- The variable of a parameter holds its current version, and nodes use what
was current when they were recorded. -/
structure Versions (r : Recorder) : Prop where
  held : ∀ {y i : Nat}, y < r.vars.length → r.tape.ownerOf (r.valueOf y) = some i →
    r.paramVars[i]? = some (some y)
  latest : ∀ {i x : Nat}, r.paramVars[i]? = some (some x) →
    r.tape.ownerOf (r.valueOf x) = some i ∧ ∀ u, r.tape.ownerOf u = some i → u ≤ r.valueOf x
  operand : ∀ {n : NodeId} {node : Node} {v : ValueId} {i : Nat}, r.tape.nodes[n]? = some node →
    v ∈ node.inputs ++ node.targets → r.tape.ownerOf v = some i →
    ∀ u, r.tape.ownerOf u = some i →
      (∀ form m k, r.tape.values[u]? = some ⟨form, .output m k⟩ → m < n) → u ≤ v

/-- A step of a body: old values keep their owners, variables keep the owners
of their values, and what is owned among the new values is the output of the
node that the step records. -/
theorem Versions.step {r s : Recorder} (h : r.Versions) (hr : Reached r) (hg : r.Grows s)
    (hold : ∀ v, v < r.tape.values.length → s.tape.ownerOf v = r.tape.ownerOf v)
    (hvars : ∀ {y : Nat} {w : ValueId}, s.vars[y]? = some w →
      (y < r.vars.length → s.tape.ownerOf w = r.tape.ownerOf (r.valueOf y) ∧ r.valueOf y ≤ w) ∧
      (r.vars.length ≤ y → s.tape.ownerOf w = none))
    (hnew : ∀ {u : ValueId} {i : Nat}, r.tape.values.length ≤ u → s.tape.ownerOf u = some i →
      (∃ form k, s.tape.values[u]? = some ⟨form, .output r.tape.nodes.length k⟩) ∧
      ∃ x, r.paramVars[i]? = some (some x) ∧ u ≤ s.valueOf x)
    (hnode : ∀ {n : NodeId} {node : Node}, s.tape.nodes[n]? = some node →
      r.tape.nodes[n]? = some node ∨ n = r.tape.nodes.length ∧
        ∀ v ∈ node.inputs ++ node.targets, ∃ y, y < r.vars.length ∧ r.valueOf y = v) :
    s.Versions where
  held {y i} hy howner := by
    rw [hg.paramVars]
    obtain ⟨hlt, hge⟩ := hvars (getElem?_vars hy)
    rcases Nat.lt_or_ge y r.vars.length with hyr | hyr
    · rw [(hlt hyr).1] at howner
      exact h.held hyr howner
    · rw [hge hyr] at howner
      cases howner
  latest {i x} hx := by
    rw [hg.paramVars] at hx
    obtain ⟨hxr, -⟩ := hr.linked.var hx
    obtain ⟨howner, hle⟩ := (hvars (getElem?_vars (Nat.lt_of_lt_of_le hxr hg.vars))).1 hxr
    obtain ⟨hcur, hmax⟩ := h.latest hx
    refine ⟨howner.trans hcur, ?_⟩
    intro u hu
    rcases Nat.lt_or_ge u r.tape.values.length with hlt | hge
    · rw [hold u hlt] at hu
      exact Nat.le_trans (hmax u hu) hle
    · obtain ⟨-, x', hx', hux⟩ := hnew hge hu
      rw [hx] at hx'
      cases hx'
      exact hux
  operand {n node v i} hn hv howner u hu hbefore := by
    rcases hnode hn with hn | ⟨rfl, hops⟩
    · have hvlt := hr.recorded.operand_lt hn hv
      rw [hold v hvlt] at howner
      rcases Nat.lt_or_ge u r.tape.values.length with hlt | hge
      · rw [hold u hlt] at hu
        exact h.operand hn hv howner u hu fun form m k hval =>
          hbefore form m k (hg.tape.value hval)
      · obtain ⟨⟨form, k, hval⟩, -⟩ := hnew hge hu
        exact absurd (hbefore form _ k hval)
          (Nat.not_lt_of_gt (List.getElem?_eq_some_iff.mp hn).1)
    · -- the new node reads current values of variables, and these are the latest
      obtain ⟨y, hy, rfl⟩ := hops v hv
      rw [hold _ (hr.valueOf_lt hy)] at howner
      rcases Nat.lt_or_ge u r.tape.values.length with hlt | hge
      · rw [hold u hlt] at hu
        exact (h.latest (h.held hy howner)).2 u hu
      · obtain ⟨⟨form, k, hval⟩, -⟩ := hnew hge hu
        exact absurd (hbefore form _ k hval) (Nat.lt_irrefl _)

/-- A declaration without a value changes no owner. -/
theorem Versions.addAbsent {r : Recorder} (h : r.Versions) (kind : ArgKind) (dtype : Option DType)
    (ndim : Nat) : (r.addAbsent kind dtype ndim).Versions where
  held hy howner := getElem?_of_isPrefix (List.prefix_append _ _) (h.held hy howner)
  latest hx := by
    rcases getElem?_concat_eq_some hx with hx | ⟨-, hx⟩
    · exact h.latest hx
    · cases hx
  operand hn hv howner := h.operand hn hv howner

/-- A declared parameter owns its initial value and nothing else. -/
theorem Versions.addParam {r : Recorder} (h : r.Versions) (hr : Reached r) (form : Form) :
    (r.addParam form).Versions := by
  have howners := fun {u i} => hr.recorded.ownerOf_addParam form (u := u) (i := i)
  have hfresh : ∀ {u}, r.tape.ownerOf u ≠ some r.tape.params.length :=
    fun hu => absurd (hr.recorded.owner_lt hu) (Nat.lt_irrefl _)
  -- the owner of an old value is an old one
  have hold : ∀ {u i}, u < r.tape.values.length →
      (r.addParam form).tape.ownerOf u = some i → r.tape.ownerOf u = some i := by
    intro u i hlt hu
    rcases howners.mp hu with hu | ⟨rfl, -⟩
    · exact hu
    · exact absurd hlt (Nat.lt_irrefl _)
  constructor
  case held =>
    intro y i hy howner
    rcases lt_or_eq_of_lt_addParam hy with hlt | rfl
    · rw [valueOf_addParam hlt] at howner
      exact getElem?_of_isPrefix (List.prefix_append _ _)
        (h.held hlt (hold (hr.valueOf_lt hlt) howner))
    · rw [valueOf_addParam_new] at howner
      rcases howners.mp howner with howner | ⟨-, rfl⟩
      · exact absurd (Tape.lt_of_ownerOf howner) (Nat.lt_irrefl _)
      · rw [← hr.linked.count]
        exact getElem?_concat_length _ _
  case latest =>
    intro i x hx
    rcases getElem?_concat_eq_some hx with hx | ⟨rfl, heq⟩
    · obtain ⟨hlt, -⟩ := hr.linked.var hx
      obtain ⟨howner, hmax⟩ := h.latest hx
      rw [valueOf_addParam hlt]
      refine ⟨howners.mpr (.inl howner), ?_⟩
      intro u hu
      rcases howners.mp hu with hu | ⟨-, rfl⟩
      · exact hmax u hu
      · exact absurd howner hfresh
    · cases heq
      rw [valueOf_addParam_new, hr.linked.count]
      refine ⟨howners.mpr (.inr ⟨rfl, rfl⟩), ?_⟩
      intro u hu
      rcases howners.mp hu with hu | ⟨rfl, -⟩
      · exact absurd hu hfresh
      · exact Nat.le_refl _
  case operand =>
    intro n node v i hn hv howner u hu hbefore
    have howner := hold (hr.recorded.operand_lt hn hv) howner
    rcases howners.mp hu with hu | ⟨-, rfl⟩
    · exact h.operand hn hv howner u hu fun form' m k hval =>
        hbefore form' m k ((r.tape.extends_addParam form).value hval)
    · exact absurd howner hfresh

theorem Versions.addScalar {r : Recorder} (h : r.Versions) (hr : Reached r) (c : Scalar) :
    (r.addScalar c).Versions := by
  have hadd := r.tape.addsLeaf_constant c
  have hold : ∀ v, v < r.tape.values.length →
      (r.addScalar c).tape.ownerOf v = r.tape.ownerOf v :=
    fun v hv => hr.recorded.ownerOf_addsLeaf hadd hv
  have hnone : (r.addScalar c).tape.ownerOf r.tape.values.length = none :=
    (Tape.Recorded.constant c hr.recorded).ownerOf_leaf (getElem?_concat_length _ _) (by simp)
  refine h.step hr (grows_addScalar hr c) hold ?_ ?_ fun hn => .inl hn
  · intro y w hw
    rcases getElem?_concat_eq_some hw with hw | ⟨rfl, rfl⟩
    · have hy := (List.getElem?_eq_some_iff.mp hw).1
      obtain rfl := valueOf_of_getElem? hw
      exact ⟨fun _ => ⟨hold _ (hr.valueOf_lt hy), Nat.le_refl _⟩,
        fun hge => absurd hy (Nat.not_lt_of_le hge)⟩
    · exact ⟨fun hlt => absurd hlt (Nat.lt_irrefl _), fun _ => hnone⟩
  · intro u i hge hu
    have hlt : u < (r.tape.values ++ [_]).length := Tape.lt_of_ownerOf hu
    rw [List.length_append, List.length_singleton] at hlt
    obtain rfl : u = r.tape.values.length := Nat.le_antisymm (Nat.le_of_lt_succ hlt) hge
    rw [hnone] at hu
    cases hu

theorem Versions.produce {r : Recorder} (h : r.Versions) (hr : Reached r) {op : Op}
    {inputs : List Nat} {forms : List Form} (known : ∀ x ∈ inputs, x < r.vars.length)
    (typed : op.Typed (inputs.map r.formOf) [] forms) : (r.produce op inputs forms).Versions := by
  have hknown : ∀ v ∈ inputs.map r.valueOf ++ [], v < r.tape.values.length := by
    simpa using map_valueOf_lt known hr.sound.2
  have htyped : op.Typed ((inputs.map r.valueOf).map r.tape.formOf)
      (([] : List ValueId).map r.tape.formOf) forms := by
    rw [List.map_map]
    exact typed
  obtain ⟨hold, hnew⟩ := hr.recorded.ownerOf_node hknown htyped
  refine h.step hr (grows_produce hr op inputs forms) hold ?_ ?_ ?_
  · intro y w hw
    have hw : (r.vars ++ r.tape.nextIds forms.length)[y]? = some w := hw
    rcases Nat.lt_or_ge y r.vars.length with hy | hy
    · rw [List.getElem?_append_left hy] at hw
      obtain rfl := valueOf_of_getElem? hw
      exact ⟨fun _ => ⟨hold _ (hr.valueOf_lt hy), Nat.le_refl _⟩,
        fun hge => absurd hy (Nat.not_lt_of_le hge)⟩
    · rw [List.getElem?_append_right hy] at hw
      obtain ⟨hk, rfl⟩ := Tape.getElem?_nextIds_eq_some.mp hw
      exact ⟨fun hlt => absurd hlt (Nat.not_lt_of_le hy), fun _ => hnew _ hk⟩
  · intro u i hge hu
    have hlt : u < (r.tape.values ++ r.tape.infos forms).length := Tape.lt_of_ownerOf hu
    rw [List.length_append, Tape.length_infos] at hlt
    obtain ⟨k, rfl⟩ := Nat.exists_eq_add_of_le hge
    rw [show (r.produce op inputs forms).tape.ownerOf _ = none from
      hnew k (Nat.lt_of_add_lt_add_left hlt)] at hu
    cases hu
  · intro n node hn
    rcases Tape.getElem?_nodes_node hn with hn | ⟨rfl, rfl⟩
    · exact .inl hn
    · refine .inr ⟨rfl, ?_⟩
      intro v hv
      rw [List.append_nil] at hv
      obtain ⟨y, hy, rfl⟩ := List.mem_map.mp hv
      exact ⟨y, known y hy, rfl⟩

theorem Versions.update {r : Recorder} (h : r.Versions) (hr : Reached r) {op : Op}
    {inputs targets : List Nat} (known : ∀ x ∈ inputs ++ targets, x < r.vars.length)
    (typed : op.Typed (inputs.map r.formOf) (targets.map r.formOf) (targets.map r.formOf)) :
    (r.update op inputs targets).Versions := by
  have hmem : ∀ v ∈ inputs.map r.valueOf ++ targets.map r.valueOf,
      ∃ y, y < r.vars.length ∧ r.valueOf y = v := by
    intro v hv
    rw [← List.map_append] at hv
    obtain ⟨y, hy, rfl⟩ := List.mem_map.mp hv
    exact ⟨y, known y hy, rfl⟩
  have hknown : ∀ v ∈ inputs.map r.valueOf ++ targets.map r.valueOf, v < r.tape.values.length := by
    intro v hv
    obtain ⟨y, hy, rfl⟩ := hmem v hv
    exact hr.valueOf_lt hy
  have htyped : op.Typed ((inputs.map r.valueOf).map r.tape.formOf)
      ((targets.map r.valueOf).map r.tape.formOf) (targets.map r.formOf) := by
    rw [List.map_map, List.map_map]
    exact typed
  obtain ⟨hold, hnew⟩ := hr.recorded.ownerOf_node hknown htyped
  -- an output is owned as the value of its target variable was
  have howner : ∀ {k x : Nat}, targets[k]? = some x →
      (r.update op inputs targets).tape.ownerOf (r.tape.values.length + k) =
        r.tape.ownerOf (r.valueOf x) := by
    intro k x hk
    refine (hnew k (by rw [List.length_map]; exact (List.getElem?_eq_some_iff.mp hk).1)).trans ?_
    rw [List.getElem?_map, hk]
    rfl
  refine h.step hr (grows_update hr op inputs targets) hold ?_ ?_ ?_
  · intro y w hw
    rcases mem_vars_update hw with hw | ⟨k, hk, rfl⟩
    · have hy := (List.getElem?_eq_some_iff.mp hw).1
      obtain rfl := valueOf_of_getElem? hw
      exact ⟨fun _ => ⟨hold _ (hr.valueOf_lt hy), Nat.le_refl _⟩,
        fun hge => absurd hy (Nat.not_lt_of_le hge)⟩
    · have hy := known y (List.mem_append_right _ (List.mem_of_getElem? hk))
      exact ⟨fun _ => ⟨howner hk, Nat.le_trans (Nat.le_of_lt (hr.valueOf_lt hy))
        (Nat.le_add_right _ _)⟩, fun hge => absurd hy (Nat.not_lt_of_le hge)⟩
  · intro u i hge hu
    have hlt : u < (r.tape.values ++ r.tape.infos (targets.map r.formOf)).length :=
      Tape.lt_of_ownerOf hu
    rw [List.length_append, Tape.length_infos, List.length_map] at hlt
    obtain ⟨k, rfl⟩ := Nat.exists_eq_add_of_le hge
    have hk : k < targets.length := Nat.lt_of_add_lt_add_left hlt
    have hget := List.getElem?_eq_getElem hk
    have hx := known _ (List.mem_append_right _ (List.mem_of_getElem? hget))
    have hform : (targets.map r.formOf)[k]? = some (r.formOf targets[k]) := by
      rw [List.getElem?_map, hget, Option.map_some]
    refine ⟨⟨_, k, Tape.getElem?_values_node_new hform⟩, targets[k],
      h.held hx ((howner hget).symm.trans hu), ?_⟩
    -- the last output for a variable stays
    have hcur := getElem?_vars (r := r.update op inputs targets)
      (x := targets[k]) (by rw [length_vars_update]; exact hx)
    refine le_getElem?_putAll ?_ (List.mem_of_getElem? (List.getElem?_zip_eq_some.mpr
      ⟨hget, Tape.getElem?_nextIds hk⟩)) hcur
    rw [List.pairwise_iff_getElem]
    intro a b ha hb hab
    simp only [List.getElem_zip, Tape.nextIds, List.getElem_map, List.getElem_range]
    exact Nat.add_le_add_left (Nat.le_of_lt hab) _
  · intro n node hn
    rcases Tape.getElem?_nodes_node hn with hn | ⟨rfl, rfl⟩
    · exact .inl hn
    · exact .inr ⟨rfl, hmem⟩

theorem Reached.versions {r : Recorder} (h : Reached r) : r.Versions := by
  induction h with
  | empty => constructor <;> simp [Recorder.empty, Tape.empty]
  | @param r kind dtype ndim before ih =>
    rcases r.param_cases kind dtype ndim with ⟨h, -⟩ | ⟨d, rfl, -, h⟩
    · rw [h]
      exact ih.addAbsent kind dtype ndim
    · rw [h]
      exact ih.addParam before _
  | scalar c before ih => exact ih.addScalar before c
  | produce before known typed ih => exact ih.produce before known typed
  | update before known typed ih => exact ih.update before known typed

end Recorder

end ArrayFusion
