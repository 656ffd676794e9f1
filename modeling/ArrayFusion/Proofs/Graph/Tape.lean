/-
ArrayFusion/Proofs/Graph/Tape.lean

The structure of tapes.

Design.  `Tape.Recorded` says how a tape comes about: by declaring parameters,
adding constants, and adding nodes on values that are there, according to the
rule of their operation.  A tape only grows, at its end, so every fact below
is an induction in which the old part keeps its positions.

Main results: values and nodes point at each other (`output_of_source`,
`source_of_output`), nodes use earlier values only (`operand_lt`,
`producer_lt`), and so do parameters and their values.
-/
import ArrayFusion.Proofs.Outcome

namespace ArrayFusion.Tape

/-! ### Entries of a tape -/

/-- The form of a value. -/
def formOf (t : Tape) (v : ValueId) : Form :=
  match t.values[v]? with
  | some info => info.toForm
  | none => ⟨.bool, 0, .scalar⟩

theorem formOf_of_getElem? {t : Tape} {v : ValueId} {info : GraphValue}
    (h : t.values[v]? = some info) : t.formOf v = info.toForm := by
  rw [formOf, h]

/-- The form of the value added last. -/
theorem formOf_concat {t : Tape} {values : List GraphValue} {form : Form} {source : Source}
    (h : t.values = values ++ [⟨form, source⟩]) : t.formOf values.length = form := by
  rw [formOf, h, getElem?_concat_length]

@[simp] theorem length_nextIds (t : Tape) (count : Nat) : (t.nextIds count).length = count := by
  simp [nextIds]

theorem getElem?_nextIds {t : Tape} {count k : Nat} (h : k < count) :
    (t.nextIds count)[k]? = some (t.values.length + k) := by
  simp [nextIds, h]

theorem getElem?_nextIds_eq_some {t : Tape} {count k : Nat} {v : ValueId} :
    (t.nextIds count)[k]? = some v ↔ k < count ∧ v = t.values.length + k := by
  constructor
  · intro h
    have hk : k < count := by
      simpa using (List.getElem?_eq_some_iff.mp h).1
    rw [getElem?_nextIds hk, Option.some.injEq] at h
    exact ⟨hk, h.symm⟩
  · rintro ⟨hk, rfl⟩
    exact getElem?_nextIds hk

theorem mem_nextIds {t : Tape} {count : Nat} {v : ValueId} :
    v ∈ t.nextIds count ↔ ∃ k, k < count ∧ v = t.values.length + k := by
  rw [List.mem_iff_getElem?]
  simp only [getElem?_nextIds_eq_some]

/-- The values that a node adds. -/
def infos (t : Tape) (forms : List Form) : List GraphValue :=
  forms.mapIdx fun k form => ⟨form, .output t.nodes.length k⟩

@[simp] theorem length_infos (t : Tape) (forms : List Form) :
    (t.infos forms).length = forms.length := by
  simp [infos]

theorem map_toForm_infos (t : Tape) (forms : List Form) :
    (t.infos forms).map (·.toForm) = forms := by
  apply List.ext_getElem?
  intro k
  rw [List.getElem?_map, infos, List.getElem?_mapIdx, Option.map_map]
  exact Option.map_id'

theorem values_node (t : Tape) (op : Op) (inputs targets : List ValueId) (forms : List Form) :
    (t.node op inputs targets forms).2.values = t.values ++ t.infos forms := rfl

theorem nodes_node (t : Tape) (op : Op) (inputs targets : List ValueId) (forms : List Form) :
    (t.node op inputs targets forms).2.nodes =
      t.nodes ++ [⟨op, inputs, targets, t.nextIds forms.length⟩] := rfl

theorem fst_node (t : Tape) (op : Op) (inputs targets : List ValueId) (forms : List Form) :
    (t.node op inputs targets forms).1 = t.nextIds forms.length := rfl

/-- A value of the tape with one more node is an old one or an output of the
node. -/
theorem getElem?_values_node {t : Tape} {op : Op} {inputs targets : List ValueId}
    {forms : List Form} {v : ValueId} {info : GraphValue}
    (h : (t.node op inputs targets forms).2.values[v]? = some info) :
    t.values[v]? = some info ∨
      ∃ k form, forms[k]? = some form ∧ v = t.values.length + k ∧
        info = ⟨form, .output t.nodes.length k⟩ := by
  rw [values_node] at h
  rcases Nat.lt_or_ge v t.values.length with hv | hv
  · left
    rwa [List.getElem?_append_left hv] at h
  · right
    rw [List.getElem?_append_right hv, infos, List.getElem?_mapIdx, Option.map_eq_some_iff] at h
    obtain ⟨form, hf, rfl⟩ := h
    exact ⟨v - t.values.length, form, hf, (Nat.add_sub_cancel' hv).symm, rfl⟩

theorem getElem?_values_node_new {t : Tape} {op : Op} {inputs targets : List ValueId}
    {forms : List Form} {k : Nat} {form : Form} (h : forms[k]? = some form) :
    (t.node op inputs targets forms).2.values[t.values.length + k]? =
      some ⟨form, .output t.nodes.length k⟩ := by
  rw [values_node, List.getElem?_append_right (by omega), Nat.add_sub_cancel_left, infos,
    List.getElem?_mapIdx, h]
  rfl

/-- A node of the tape with one more node is an old one or that one. -/
theorem getElem?_nodes_node {t : Tape} {op : Op} {inputs targets : List ValueId}
    {forms : List Form} {n : NodeId} {node : Node}
    (h : (t.node op inputs targets forms).2.nodes[n]? = some node) :
    t.nodes[n]? = some node ∨
      n = t.nodes.length ∧ node = ⟨op, inputs, targets, t.nextIds forms.length⟩ := by
  exact getElem?_concat_eq_some h

/-! ### Growth -/

/-- The second tape continues the first. -/
structure Extends (t u : Tape) : Prop where
  values : t.values <+: u.values
  nodes : t.nodes <+: u.nodes
  params : t.params <+: u.params

theorem Extends.refl (t : Tape) : t.Extends t :=
  ⟨List.prefix_refl _, List.prefix_refl _, List.prefix_refl _⟩

theorem Extends.trans {t u w : Tape} (h : t.Extends u) (h' : u.Extends w) : t.Extends w :=
  ⟨h.values.trans h'.values, h.nodes.trans h'.nodes, h.params.trans h'.params⟩

theorem Extends.value {t u : Tape} (h : t.Extends u) {v : ValueId} {info : GraphValue}
    (hv : t.values[v]? = some info) : u.values[v]? = some info :=
  getElem?_of_isPrefix h.values hv

theorem Extends.formOf {t u : Tape} (h : t.Extends u) {v : ValueId} (hv : v < t.values.length) :
    u.formOf v = t.formOf v := by
  have hi := List.getElem?_eq_getElem hv
  rw [formOf_of_getElem? hi, formOf_of_getElem? (h.value hi)]

theorem extends_pushValue (t : Tape) (form : Form) (source : Source) :
    t.Extends (t.pushValue form source) :=
  ⟨List.prefix_append _ _, List.prefix_refl _, List.prefix_refl _⟩

theorem extends_constant (t : Tape) (c : Scalar) : t.Extends (t.constant c).2 :=
  t.extends_pushValue _ _

theorem extends_node (t : Tape) (op : Op) (inputs targets : List ValueId) (forms : List Form) :
    t.Extends (t.node op inputs targets forms).2 :=
  ⟨List.prefix_append _ _, List.prefix_append _ _, List.prefix_refl _⟩

/-- One more parameter, with a new value for it. -/
def addParam (t : Tape) (form : Form) : Tape :=
  ⟨t.values ++ [⟨form, .param t.params.length⟩], t.nodes,
    t.params ++ [⟨form.kind, some form.dtype, form.ndim, some t.values.length⟩]⟩

theorem extends_addParam (t : Tape) (form : Form) : t.Extends (t.addParam form) :=
  ⟨List.prefix_append _ _, List.prefix_refl _, List.prefix_append _ _⟩

/-- A declared parameter is one without a value, or one with a new value. -/
theorem param_cases (t : Tape) (kind : ArgKind) (dtype : Option DType) (ndim : Nat) :
    (t.param kind dtype ndim =
        (none, { t with params := t.params ++ [⟨kind, dtype, ndim, none⟩] }) ∧
      (kind = .absent ∨ dtype = none)) ∨
    ∃ d, dtype = some d ∧ kind ≠ .absent ∧
      t.param kind dtype ndim = (some t.values.length, t.addParam ⟨d, ndim, kind⟩) := by
  cases kind <;> cases dtype
  all_goals
    first
      | exact .inl ⟨rfl, by simp⟩
      | exact .inr ⟨_, rfl, by simp, rfl⟩

theorem extends_param (t : Tape) (kind : ArgKind) (dtype : Option DType) (ndim : Nat) :
    t.Extends (t.param kind dtype ndim).2 := by
  rcases t.param_cases kind dtype ndim with ⟨h, -⟩ | ⟨d, -, -, h⟩
  · rw [h]
    exact ⟨List.prefix_refl _, List.prefix_refl _, List.prefix_append _ _⟩
  · rw [h]
    exact t.extends_addParam _

/-! ### Recorded tapes -/

/-- How a tape comes about. -/
inductive Recorded : Tape → Prop
  | empty : Recorded .empty
  | param {t : Tape} (kind : ArgKind) (dtype : Option DType) (ndim : Nat) (rec : Recorded t) :
      Recorded (t.param kind dtype ndim).2
  | constant {t : Tape} (c : Scalar) (rec : Recorded t) : Recorded (t.constant c).2
  | node {t : Tape} {op : Op} {inputs targets : List ValueId} {forms : List Form}
      (rec : Recorded t) (known : ∀ v ∈ inputs ++ targets, v < t.values.length)
      (typed : op.Typed (inputs.map t.formOf) (targets.map t.formOf) forms) :
      Recorded (t.node op inputs targets forms).2

/-- A step that adds no node: it adds at most one value, which no node
produces. -/
structure AddsLeaf (t u : Tape) : Prop where
  nodes : u.nodes = t.nodes
  grows : t.Extends u
  leaf : ∀ {v : ValueId} {info : GraphValue}, u.values[v]? = some info →
    t.values[v]? = some info ∨ ∀ n k, info.source ≠ .output n k

theorem addsLeaf_constant (t : Tape) (c : Scalar) : t.AddsLeaf (t.constant c).2 := by
  refine ⟨rfl, t.extends_constant c, ?_⟩
  intro v info h
  rcases getElem?_concat_eq_some h with h | ⟨-, rfl⟩
  · exact .inl h
  · exact .inr fun n k => by simp

theorem addsLeaf_addParam (t : Tape) (form : Form) : t.AddsLeaf (t.addParam form) := by
  refine ⟨rfl, t.extends_addParam form, ?_⟩
  intro v info h
  rcases getElem?_concat_eq_some h with h | ⟨-, rfl⟩
  · exact .inl h
  · exact .inr fun n k => by simp

theorem addsLeaf_param (t : Tape) (kind : ArgKind) (dtype : Option DType) (ndim : Nat) :
    t.AddsLeaf (t.param kind dtype ndim).2 := by
  have hext := t.extends_param kind dtype ndim
  rcases t.param_cases kind dtype ndim with ⟨h, -⟩ | ⟨d, -, -, h⟩
  · rw [h] at hext ⊢
    exact ⟨rfl, hext, fun hv => .inl hv⟩
  · rw [h]
    exact t.addsLeaf_addParam _

/-- Induction along the nodes: what a leaf adds is treated alike. -/
@[elab_as_elim]
theorem Recorded.leafInduction {motive : (t : Tape) → Recorded t → Prop}
    (empty : motive .empty .empty)
    (leaf : ∀ (t u : Tape) (rec : Recorded t) (rec' : Recorded u), t.AddsLeaf u →
      motive t rec → motive u rec')
    (node : ∀ (t : Tape) (op : Op) (inputs targets : List ValueId) (forms : List Form)
      (rec : Recorded t) (known : ∀ v ∈ inputs ++ targets, v < t.values.length)
      (typed : op.Typed (inputs.map t.formOf) (targets.map t.formOf) forms),
      motive t rec → motive (t.node op inputs targets forms).2 (.node rec known typed))
    {t : Tape} (h : Recorded t) : motive t h := by
  induction h with
  | empty => exact empty
  | param kind dtype ndim rec ih => exact leaf _ _ rec _ (addsLeaf_param _ kind dtype ndim) ih
  | constant c rec ih => exact leaf _ _ rec _ (addsLeaf_constant _ c) ih
  | node rec known typed ih => exact node _ _ _ _ _ rec known typed ih

/-! ### Values and nodes -/

/-- A value that a node produces is listed among its outputs. -/
theorem Recorded.output_of_source {t : Tape} (h : Recorded t) :
    ∀ {v : ValueId} {form : Form} {n k : Nat}, t.values[v]? = some ⟨form, .output n k⟩ →
      ∃ node, t.nodes[n]? = some node ∧ node.outputs[k]? = some v := by
  induction h using Recorded.leafInduction with
  | empty =>
    intro v form n k hv
    simp [Tape.empty] at hv
  | leaf t u rec _ hadd ih =>
    intro v form n k hv
    rw [hadd.nodes]
    rcases hadd.leaf hv with hv | hv
    · exact ih hv
    · exact absurd rfl (hv n k)
  | node t op inputs targets forms _ _ _ ih =>
    intro v form n k hv
    rcases getElem?_values_node hv with hv | ⟨k', form', hk, rfl, hinfo⟩
    · obtain ⟨node, hn, hk⟩ := ih hv
      exact ⟨node, getElem?_of_isPrefix (t.extends_node op inputs targets forms).nodes hn, hk⟩
    · cases hinfo
      refine ⟨⟨op, inputs, targets, t.nextIds forms.length⟩, by simp [nodes_node], ?_⟩
      exact getElem?_nextIds (List.getElem?_eq_some_iff.mp hk).1

/-- How a node came about: it was added to a tape that goes on to the given
one. -/
structure Added (t : Tape) (n : NodeId) (node : Node) (u : Tape) (forms : List Form) : Prop where
  recorded : Recorded u
  grows : (u.node node.op node.inputs node.targets forms).2.Extends t
  position : n = u.nodes.length
  outputs : node.outputs = u.nextIds forms.length
  known : ∀ v ∈ node.inputs ++ node.targets, v < u.values.length
  typed : node.op.Typed (node.inputs.map u.formOf) (node.targets.map u.formOf) forms

theorem Recorded.added {t : Tape} (h : Recorded t) :
    ∀ {n : NodeId} {node : Node}, t.nodes[n]? = some node → ∃ u forms, t.Added n node u forms := by
  induction h using Recorded.leafInduction with
  | empty =>
    intro n node hn
    simp [Tape.empty] at hn
  | leaf t u rec _ hadd ih =>
    intro n node hn
    rw [hadd.nodes] at hn
    obtain ⟨w, forms, hw⟩ := ih hn
    exact ⟨w, forms, { hw with grows := hw.grows.trans hadd.grows }⟩
  | node t op inputs targets forms rec known typed ih =>
    intro n node hn
    rcases getElem?_nodes_node hn with hn | ⟨rfl, rfl⟩
    · obtain ⟨w, forms', hw⟩ := ih hn
      exact ⟨w, forms',
        { hw with grows := hw.grows.trans (t.extends_node op inputs targets forms) }⟩
    · exact ⟨t, forms, rec, .refl _, rfl, rfl, known, typed⟩

theorem Added.extends {t u : Tape} {n : NodeId} {node : Node} {forms : List Form}
    (h : t.Added n node u forms) : u.Extends t :=
  (u.extends_node _ _ _ _).trans h.grows

/-- What a node lists as an output is a value that it produces. -/
theorem Added.value {t u : Tape} {n : NodeId} {node : Node} {forms : List Form}
    (h : t.Added n node u forms) {k : Nat} {form : Form} (hk : forms[k]? = some form) :
    t.values[u.values.length + k]? = some ⟨form, .output n k⟩ := by
  rw [h.position]
  exact h.grows.value (getElem?_values_node_new hk)

theorem Recorded.source_of_output {t : Tape} (h : Recorded t) {n : NodeId} {node : Node} {k : Nat}
    {v : ValueId} (hn : t.nodes[n]? = some node) (hk : node.outputs[k]? = some v) :
    ∃ form, t.values[v]? = some ⟨form, .output n k⟩ := by
  obtain ⟨u, forms, hu⟩ := h.added hn
  rw [hu.outputs] at hk
  obtain ⟨hlt, rfl⟩ := getElem?_nextIds_eq_some.mp hk
  exact ⟨_, hu.value (List.getElem?_eq_getElem hlt)⟩

theorem Recorded.output_lt {t : Tape} (h : Recorded t) {n : NodeId} {node : Node} {v : ValueId}
    (hn : t.nodes[n]? = some node) (hv : v ∈ node.outputs) : v < t.values.length := by
  obtain ⟨k, hk⟩ := List.getElem?_of_mem hv
  obtain ⟨form, hv⟩ := h.source_of_output hn hk
  exact (List.getElem?_eq_some_iff.mp hv).1

/-- Outputs are numbered in order. -/
theorem Recorded.pairwise_outputs {t : Tape} (h : Recorded t) {n : NodeId} {node : Node}
    (hn : t.nodes[n]? = some node) : node.outputs.Pairwise (· < ·) := by
  obtain ⟨u, forms, hu⟩ := h.added hn
  rw [hu.outputs, nextIds, List.pairwise_map]
  exact List.pairwise_lt_range.imp fun hlt => Nat.add_lt_add_left hlt _

/-- Nodes use values of the tape. -/
theorem Recorded.operand_lt {t : Tape} (h : Recorded t) {n : NodeId} {node : Node} {x : ValueId}
    (hn : t.nodes[n]? = some node) (hx : x ∈ node.inputs ++ node.targets) :
    x < t.values.length := by
  obtain ⟨u, forms, hu⟩ := h.added hn
  exact Nat.lt_of_lt_of_le (hu.known x hx) hu.extends.values.length_le

/-- Values that nodes use come from earlier nodes. -/
theorem Recorded.producer_lt {t : Tape} (h : Recorded t) {n : NodeId} {node : Node} {x : ValueId}
    {form : Form} {m k : Nat} (hn : t.nodes[n]? = some node)
    (hx : x ∈ node.inputs ++ node.targets) (hv : t.values[x]? = some ⟨form, .output m k⟩) :
    m < n := by
  obtain ⟨u, forms, hu⟩ := h.added hn
  have hi := List.getElem?_eq_getElem (hu.known x hx)
  rw [hu.extends.value hi] at hv
  obtain ⟨node', hn', -⟩ := hu.recorded.output_of_source (hi.trans hv)
  rw [hu.position]
  exact (List.getElem?_eq_some_iff.mp hn').1

/-- Values that a node uses come before those that it produces. -/
theorem Recorded.operand_lt_output {t : Tape} (h : Recorded t) {n : NodeId} {node : Node}
    {x v : ValueId} (hn : t.nodes[n]? = some node) (hx : x ∈ node.inputs ++ node.targets)
    (hv : v ∈ node.outputs) : x < v := by
  obtain ⟨u, forms, hu⟩ := h.added hn
  rw [hu.outputs] at hv
  obtain ⟨k, -, rfl⟩ := mem_nextIds.mp hv
  exact Nat.lt_of_lt_of_le (hu.known x hx) (Nat.le_add_right _ _)

/-- Nodes follow the rule of their operation. -/
theorem Recorded.typed {t : Tape} (h : Recorded t) {n : NodeId} {node : Node}
    (hn : t.nodes[n]? = some node) : node.op.Typed (node.inputs.map t.formOf)
      (node.targets.map t.formOf) (node.outputs.map t.formOf) := by
  obtain ⟨u, forms, hu⟩ := h.added hn
  have hold : ∀ vs : List ValueId, (∀ v ∈ vs, v ∈ node.inputs ++ node.targets) →
      vs.map t.formOf = vs.map u.formOf := fun vs hvs =>
    List.map_congr_left fun v hv => hu.extends.formOf (hu.known v (hvs v hv))
  have hnew : node.outputs.map t.formOf = forms := by
    rw [hu.outputs]
    apply List.ext_getElem?
    intro k
    rw [List.getElem?_map]
    rcases e : forms[k]? with - | form
    · rw [List.getElem?_eq_none (by simpa using List.getElem?_eq_none_iff.mp e)]
      rfl
    · rw [getElem?_nextIds (List.getElem?_eq_some_iff.mp e).1, Option.map_some,
        formOf_of_getElem? (hu.value e)]
  rw [hold _ fun v hv => List.mem_append_left _ hv, hold _ fun v hv => List.mem_append_right _ hv,
    hnew]
  exact hu.typed

/-! ### Nodes by operation -/

/-- An elementwise function has as many inputs and outputs as its loop. -/
theorem Recorded.ufunc_arity {t : Tape} (h : Recorded t) {n : NodeId} {node : Node}
    (hn : t.nodes[n]? = some node) {f : Ufunc} {loop : Loop} (hop : node.op = .ufunc f loop) :
    (node.inputs.length = f.nin ∧ loop.inputs.length = f.nin) ∧
      node.outputs.length = f.nout ∧ loop.outputs.length = f.nout := by
  have ht := h.typed hn
  rw [hop] at ht
  have hins : node.inputs.length = (node.inputs.map t.formOf).length := (List.length_map _).symm
  have houts : node.outputs.length = (node.outputs.map t.formOf).length := (List.length_map _).symm
  rw [hins, houts]
  generalize node.inputs.map t.formOf = fi at ht
  generalize node.targets.map t.formOf = ft at ht
  generalize node.outputs.map t.formOf = fo at ht
  cases ht with
  | ufunc resolved =>
    have hloop := Ufunc.outputs_of_resolve resolved
    have hin := Ufunc.inputs_of_resolve resolved
    rw [List.length_map] at hin ⊢
    exact ⟨hin, hloop, hloop⟩
  | ufuncOut resolved count _ =>
    have hloop := Ufunc.outputs_of_resolve resolved
    have hin := Ufunc.inputs_of_resolve resolved
    rw [List.length_map] at hin
    exact ⟨hin, count.trans hloop, hloop⟩

/-- An elementwise function has one output or two. -/
theorem Recorded.ufunc_node {t : Tape} (h : Recorded t) {n : NodeId} {node : Node}
    (hn : t.nodes[n]? = some node) {f : Ufunc} {loop : Loop} (hop : node.op = .ufunc f loop) :
    (∃ v, node.outputs = [v]) ∨ ∃ v w, node.outputs = [v, w] := by
  obtain ⟨-, hcount, -⟩ := h.ufunc_arity hn hop
  rcases f.nout_cases with h1 | h2
  · exact .inl (List.length_eq_one_iff.mp (hcount.trans h1))
  · exact .inr (List.length_eq_two.mp (hcount.trans h2))

theorem Recorded.cast_node {t : Tape} (h : Recorded t) {n : NodeId} {node : Node}
    (hn : t.nodes[n]? = some node) {d : DType} (hop : node.op = .cast d) :
    ∃ x v, node.inputs = [x] ∧ node.targets = [] ∧ node.outputs = [v] := by
  have ht := h.typed hn
  rw [hop] at ht
  generalize hi : node.inputs.map t.formOf = fi at ht
  generalize htg : node.targets.map t.formOf = ft at ht
  generalize ho : node.outputs.map t.formOf = fo at ht
  cases ht with
  | cast =>
    obtain ⟨x, hx, -⟩ := List.map_eq_singleton_iff.mp hi
    obtain ⟨v, hv, -⟩ := List.map_eq_singleton_iff.mp ho
    exact ⟨x, v, hx, List.map_eq_nil_iff.mp htg, hv⟩

theorem Recorded.reduce_node {t : Tape} (h : Recorded t) {n : NodeId} {node : Node}
    (hn : t.nodes[n]? = some node) {op : Reduction} {axis : Option Nat}
    (hop : node.op = .reduce op axis) :
    ∃ x v, node.inputs = [x] ∧ node.targets = [] ∧ node.outputs = [v] := by
  have ht := h.typed hn
  rw [hop] at ht
  generalize hi : node.inputs.map t.formOf = fi at ht
  generalize htg : node.targets.map t.formOf = ft at ht
  generalize ho : node.outputs.map t.formOf = fo at ht
  cases ht with
  | reduce _ =>
    obtain ⟨x, hx, -⟩ := List.map_eq_singleton_iff.mp hi
    obtain ⟨v, hv, -⟩ := List.map_eq_singleton_iff.mp ho
    exact ⟨x, v, hx, List.map_eq_nil_iff.mp htg, hv⟩

theorem Recorded.assign_node {t : Tape} (h : Recorded t) {n : NodeId} {node : Node}
    (hn : t.nodes[n]? = some node) {region : Region} (hop : node.op = .assign region) :
    ∃ x y v, node.inputs = [x] ∧ node.targets = [y] ∧ node.outputs = [v] := by
  have ht := h.typed hn
  rw [hop] at ht
  generalize hi : node.inputs.map t.formOf = fi at ht
  generalize htg : node.targets.map t.formOf = ft at ht
  generalize ho : node.outputs.map t.formOf = fo at ht
  cases ht with
  | assign _ =>
    obtain ⟨x, hx, -⟩ := List.map_eq_singleton_iff.mp hi
    obtain ⟨y, hy, -⟩ := List.map_eq_singleton_iff.mp htg
    obtain ⟨v, hv, -⟩ := List.map_eq_singleton_iff.mp ho
    exact ⟨x, y, v, hx, hy, hv⟩

/-! ### Constants and parameters -/

theorem Recorded.form_of_constant {t : Tape} (h : Recorded t) :
    ∀ {v : ValueId} {form : Form} {c : Scalar}, t.values[v]? = some ⟨form, .constant c⟩ →
      form = ⟨c.dtype, 0, .scalar⟩ := by
  induction h with
  | empty =>
    intro v form c hv
    simp [Tape.empty] at hv
  | @param t kind dtype ndim rec ih =>
    intro v form c hv
    rcases t.param_cases kind dtype ndim with ⟨h, -⟩ | ⟨d, -, -, h⟩
    · rw [h] at hv
      exact ih hv
    · rw [h] at hv
      rcases getElem?_concat_eq_some hv with hv | ⟨-, hinfo⟩
      · exact ih hv
      · cases hinfo
  | constant c' rec ih =>
    intro v form c hv
    rcases getElem?_concat_eq_some hv with hv | ⟨-, hinfo⟩
    · exact ih hv
    · cases hinfo
      rfl
  | node rec known typed ih =>
    intro v form c hv
    rcases getElem?_values_node hv with hv | ⟨k, form', -, -, hinfo⟩
    · exact ih hv
    · cases hinfo

/-- The parameter of an initial value. -/
theorem Recorded.param_of_source {t : Tape} (h : Recorded t) :
    ∀ {v : ValueId} {form : Form} {i : Nat}, t.values[v]? = some ⟨form, .param i⟩ →
      t.params[i]? = some ⟨form.kind, some form.dtype, form.ndim, some v⟩ ∧
        form.kind ≠ .absent := by
  induction h with
  | empty =>
    intro v form i hv
    simp [Tape.empty] at hv
  | @param t kind dtype ndim rec ih =>
    intro v form i hv
    rcases t.param_cases kind dtype ndim with ⟨h, -⟩ | ⟨d, rfl, hkind, h⟩
    · rw [h] at hv ⊢
      obtain ⟨hp, hk⟩ := ih hv
      exact ⟨getElem?_of_isPrefix (List.prefix_append _ _) hp, hk⟩
    · rw [h] at hv ⊢
      rcases getElem?_concat_eq_some hv with hv | ⟨rfl, hinfo⟩
      · obtain ⟨hp, hk⟩ := ih hv
        exact ⟨getElem?_of_isPrefix (List.prefix_append _ _) hp, hk⟩
      · cases hinfo
        exact ⟨getElem?_concat_length _ _, hkind⟩
  | @constant t c rec ih =>
    intro v form i hv
    rcases getElem?_concat_eq_some hv with hv | ⟨-, hinfo⟩
    · exact ih hv
    · cases hinfo
  | @node t op inputs targets forms rec known typed ih =>
    intro v form i hv
    rcases getElem?_values_node hv with hv | ⟨k, form', -, -, hinfo⟩
    · exact ih hv
    · cases hinfo

/-- Values are arrays or scalars. -/
theorem Recorded.kind_ne_absent {t : Tape} (h : Recorded t) :
    ∀ v, v < t.values.length → (t.formOf v).kind ≠ .absent := by
  intro v
  induction v using Nat.strongRecOn with
  | ind v ih =>
    intro hv
    rcases hinfo : t.values[v]? with - | ⟨form, i | c | ⟨n, k⟩⟩
    · exact absurd hv (Nat.not_lt_of_le (List.getElem?_eq_none_iff.mp hinfo))
    · rw [formOf_of_getElem? hinfo]
      exact (h.param_of_source hinfo).2
    · rw [formOf_of_getElem? hinfo, h.form_of_constant hinfo]
      simp
    · obtain ⟨node, hn, hk⟩ := h.output_of_source hinfo
      have hmem : t.formOf v ∈ node.outputs.map t.formOf :=
        List.mem_map_of_mem (List.mem_of_getElem? hk)
      -- a conversion keeps the kind of its input, which comes earlier
      refine (h.typed hn).kind_ne_absent ?_ _ hmem
      intro f hf
      obtain ⟨u, hu, rfl⟩ := List.mem_map.mp hf
      have hu : u ∈ node.inputs ++ node.targets := List.mem_append_left _ hu
      exact ih u (h.operand_lt_output hn hu (List.mem_of_getElem? hk)) (h.operand_lt hn hu)

/-- The initial value of a parameter. -/
theorem Recorded.source_of_param {t : Tape} (h : Recorded t) :
    ∀ {i : Nat} {p : Param} {v : ValueId}, t.params[i]? = some p → p.value = some v →
      ∃ form, t.values[v]? = some ⟨form, .param i⟩ := by
  induction h with
  | empty =>
    intro i p v hp
    simp [Tape.empty] at hp
  | @param t kind dtype ndim rec ih =>
    intro i p v hp hv
    rcases t.param_cases kind dtype ndim with ⟨h, -⟩ | ⟨d, rfl, hkind, h⟩
    · rw [h] at hp ⊢
      rcases getElem?_concat_eq_some hp with hp | ⟨-, rfl⟩
      · exact ih hp hv
      · cases hv
    · rw [h] at hp ⊢
      rcases getElem?_concat_eq_some hp with hp | ⟨rfl, rfl⟩
      · obtain ⟨form, hf⟩ := ih hp hv
        exact ⟨form, getElem?_of_isPrefix (List.prefix_append _ _) hf⟩
      · cases hv
        exact ⟨_, getElem?_concat_length _ _⟩
  | @constant t c rec ih =>
    intro i p v hp hv
    obtain ⟨form, hf⟩ := ih hp hv
    exact ⟨form, (t.extends_constant c).value hf⟩
  | @node t op inputs targets forms rec known typed ih =>
    intro i p v hp hv
    obtain ⟨form, hf⟩ := ih hp hv
    exact ⟨form, (t.extends_node op inputs targets forms).value hf⟩

/-- A parameter that is present and has a dtype has a value. -/
theorem Recorded.value_of_param {t : Tape} (h : Recorded t) :
    ∀ {i : Nat} {p : Param} {d : DType}, t.params[i]? = some p → p.kind ≠ .absent →
      p.dtype = some d → ∃ v, p.value = some v := by
  induction h with
  | empty =>
    intro i p d hp
    simp [Tape.empty] at hp
  | @param t kind dtype ndim rec ih =>
    intro i p d hp hk hd
    rcases t.param_cases kind dtype ndim with ⟨h, hno⟩ | ⟨d', rfl, -, h⟩
    · rw [h] at hp
      rcases getElem?_concat_eq_some hp with hp | ⟨-, rfl⟩
      · exact ih hp hk hd
      · rcases hno with hno | hno
        · exact absurd hno hk
        · rw [hno] at hd
          cases hd
    · rw [h] at hp
      rcases getElem?_concat_eq_some hp with hp | ⟨-, rfl⟩
      · exact ih hp hk hd
      · exact ⟨_, rfl⟩
  | constant c rec ih => exact ih
  | node rec known typed ih => exact ih

end ArrayFusion.Tape

/-- What produces a value. -/
theorem ArrayFusion.Graph.producer_eq_some {g : Graph} {v : ValueId} {n : NodeId} :
    g.producer v = some n ↔ ∃ form k, g.values[v]? = some ⟨form, .output n k⟩ := by
  unfold producer
  split
  · next form m k hv =>
    constructor
    · intro h
      cases h
      exact ⟨form, k, hv⟩
    · rintro ⟨form', k', hv'⟩
      rw [hv] at hv'
      cases hv'
      rfl
  · next hno =>
    constructor
    · intro h
      cases h
    · rintro ⟨form, k, hv⟩
      exact absurd hv (hno form n k)
