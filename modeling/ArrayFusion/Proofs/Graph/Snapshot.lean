/-
ArrayFusion/Proofs/Graph/Snapshot.lean

The contents of all values of a tape, each parameter read as it was when the
call began.

Design.  A snapshot is a sweep that runs every node, the dead ones too, on
contents.  Contents of the declared forms go in, so contents of the recorded
forms come out (`forms_snapshot`), and the shapes among them are those that
resolving shapes finds (`shapes_snapshot`).  A snapshot is the only solution
of the equations that the nodes state (`snapshot_output`), which is how other
evaluation orders are compared with it.
-/
import ArrayFusion.Proofs.Graph.Sweep

namespace ArrayFusion

open Tensor (HasForm)

/-- A placeholder. -/
def Tensor.blank : Tensor :=
  .ofScalar ⟨.bool, .bool false⟩

namespace Tape

/-- Contents of a value before any node has run. -/
def initial (inputs : List Tensor) (info : GraphValue) : Tensor :=
  match info.source with
  | .param i => inputs.getD i .blank
  | .constant c => .ofScalar c
  | .output _ _ => .blank

/-- Contents of all values, given those of the arguments. -/
def snapshot (t : Tape) (inputs : List Tensor) : Except Error (List Tensor) :=
  t.sweep (fun n => n.op.outcome) .blank (initial inputs)

/-- Arguments have the forms that the parameters declare. -/
def Accepts (t : Tape) (inputs : List Tensor) : Prop :=
  ∀ (i : Nat) (p : Param) (v : ValueId) (d : DType), t.params[i]? = some p → p.value = some v →
    p.dtype = some d → ∃ x, inputs[i]? = some x ∧ x.HasForm ⟨d, p.ndim, p.kind⟩

theorem Accepts.of_extends {t u : Tape} {inputs : List Tensor} (h : u.Accepts inputs)
    (hu : t.Extends u) : t.Accepts inputs :=
  fun i p v d hp => h i p v d (getElem?_of_isPrefix hu.params hp)

/-! ### Forms -/

theorem hasForm_ofScalar (c : Scalar) : (Tensor.ofScalar c).HasForm ⟨c.dtype, 0, .scalar⟩ :=
  ⟨rfl, rfl, Tensor.sized_ofScalar c, (fun h => by cases h), fun _ => rfl⟩

theorem hasForm_getD {t : Tape} {env : List Tensor}
    (h : List.Forall₂ HasForm env (t.values.map (·.toForm))) {v : ValueId}
    (hv : v < t.values.length) : (env.getD v .blank).HasForm (t.formOf v) := by
  have hi := List.getElem?_eq_getElem hv
  obtain ⟨x, hx, hf⟩ := forall₂_getElem?_right h
    (by rw [List.getElem?_map, hi, Option.map_some] : (t.values.map (·.toForm))[v]? = some _)
  rw [List.getD, hx, Option.getD_some, formOf_of_getElem? hi]
  exact hf

/-- Operands of a node have their forms if all contents do. -/
theorem hasForm_operands {t : Tape} {env : List Tensor}
    (h : List.Forall₂ HasForm env (t.values.map (·.toForm))) {vs : List ValueId}
    (hv : ∀ v ∈ vs, v < t.values.length) :
    List.Forall₂ HasForm (vs.map (env.getD · .blank)) (vs.map t.formOf) := by
  rw [List.forall₂_map_left_iff, List.forall₂_map_right_iff, List.forall₂_same]
  exact fun v hmem => hasForm_getD h (hv v hmem)

/-- The outputs of a node have their forms if all contents do. -/
theorem hasForm_outputs {t : Tape} {env : List Tensor}
    (h : List.Forall₂ HasForm env (t.values.map (·.toForm))) {op : Op}
    {ins targets : List ValueId} {forms : List Form}
    (known : ∀ v ∈ ins ++ targets, v < t.values.length)
    (typed : op.Typed (ins.map t.formOf) (targets.map t.formOf) forms) {outs : List Tensor}
    (ho : op.outcome (ins.map (env.getD · .blank)) (targets.map (env.getD · .blank)) = .ok outs) :
    List.Forall₂ HasForm outs forms :=
  typed.forms_outcome
    (hasForm_operands h fun v hv => known v (List.mem_append_left _ hv))
    (hasForm_operands h fun v hv => known v (List.mem_append_right _ hv)) ho

theorem Recorded.snapshot_constant {t : Tape} (h : Recorded t) (inputs : List Tensor) (c : Scalar) :
    (t.constant c).2.snapshot inputs = (t.snapshot inputs).map (· ++ [Tensor.ofScalar c]) :=
  h.sweep_leaf _ _

theorem Recorded.snapshot_addParam {t : Tape} (h : Recorded t) (inputs : List Tensor)
    (form : Form) : (t.addParam form).snapshot inputs =
      (t.snapshot inputs).map (· ++ [inputs.getD t.params.length .blank]) :=
  h.sweep_leaf _ _

/-- All contents of a snapshot have the recorded forms. -/
theorem Recorded.forms_snapshot {t : Tape} (h : Recorded t) {inputs : List Tensor} :
    t.Accepts inputs → ∀ env : List Tensor, t.snapshot inputs = .ok env →
      List.Forall₂ HasForm env (t.values.map (·.toForm)) := by
  induction h with
  | empty =>
    intro _ env henv
    cases henv
    exact .nil
  | @param t kind dtype ndim rec ih =>
    intro hacc env henv
    have ih := ih (hacc.of_extends (t.extends_param kind dtype ndim))
    rcases t.param_cases kind dtype ndim with ⟨h, -⟩ | ⟨d, rfl, hkind, h⟩
    · rw [h] at henv ⊢
      exact ih env henv
    · rw [h] at henv hacc ⊢
      rw [rec.snapshot_addParam] at henv
      obtain ⟨old, hold, rfl⟩ := except_map_eq_ok.mp henv
      obtain ⟨x, hx, hf⟩ := hacc _ _ _ d (getElem?_concat_length _ _) rfl rfl
      show List.Forall₂ HasForm _ ((t.values ++ [_]).map _)
      rw [List.map_append, List.getD, hx]
      exact List.rel_append (ih old hold) (.cons hf .nil)
  | @constant t c rec ih =>
    intro hacc env henv
    have ih := ih (hacc.of_extends (t.extends_constant c))
    rw [rec.snapshot_constant] at henv
    obtain ⟨old, hold, rfl⟩ := except_map_eq_ok.mp henv
    show List.Forall₂ HasForm _ ((t.values ++ [_]).map _)
    rw [List.map_append]
    exact List.rel_append (ih old hold) (.cons (hasForm_ofScalar c) .nil)
  | @node t op ins targets forms rec known typed ih =>
    intro hacc env henv
    have ih := ih (hacc.of_extends (t.extends_node op ins targets forms))
    rw [snapshot, rec.sweep_node known fun old outs hold houts =>
      (hasForm_outputs (ih old hold) known typed houts).length_eq] at henv
    obtain ⟨old, hold, henv⟩ := except_bind_eq_ok.mp henv
    obtain ⟨outs, houts, henv⟩ := except_bind_eq_ok.mp henv
    cases henv
    rw [values_node, List.map_append, map_toForm_infos]
    exact List.rel_append (ih old hold) (hasForm_outputs (ih old hold) known typed houts)

/-- The contents of one more node come behind the others. -/
theorem Recorded.snapshot_node {t : Tape} (h : Recorded t) {inputs : List Tensor}
    (hacc : t.Accepts inputs) {op : Op} {ins targets : List ValueId} {forms : List Form}
    (known : ∀ v ∈ ins ++ targets, v < t.values.length)
    (typed : op.Typed (ins.map t.formOf) (targets.map t.formOf) forms) :
    (t.node op ins targets forms).2.snapshot inputs = (do
      let env ← t.snapshot inputs
      let outs ← op.outcome (ins.map (env.getD · .blank)) (targets.map (env.getD · .blank))
      return env ++ outs) := by
  apply h.sweep_node known
  intro env outs henv houts
  exact (hasForm_outputs (h.forms_snapshot hacc env henv) known typed houts).length_eq

/-! ### Shapes -/

/-- The shapes of all values for given shapes of the arguments. -/
def shapes (t : Tape) (params : List Shape) : Except Error (List Shape) :=
  t.sweep Graph.nodeShapes .scalar (Graph.initialShape params)

theorem resolveShapes_eq {g : Graph} {params : List Shape} (h : params.length = g.params.length) :
    g.resolveShapes params = g.toTape.shapes params :=
  if_pos h

theorem shape_getD (env : List Tensor) (v : Nat) :
    (env.map Tensor.shape).getD v .scalar = (env.getD v .blank).shape := by
  rw [List.getD, List.getD, List.getElem?_map]
  rcases env[v]? with - | x <;> rfl

theorem map_map_shape (f : Except Error (List Tensor)) (extra : List Tensor) :
    (f.map (· ++ extra)).map (List.map Tensor.shape) =
      (f.map (List.map Tensor.shape)).map (· ++ extra.map Tensor.shape) := by
  rcases f with e | env
  · rfl
  · show Except.ok _ = Except.ok _
    rw [List.map_append]

/-- Resolving shapes finds the shapes of a snapshot, and fails as it does. -/
theorem Recorded.shapes_snapshot {t : Tape} (h : Recorded t) {inputs : List Tensor} :
    t.Accepts inputs → (t.snapshot inputs).map (List.map Tensor.shape) =
      t.shapes (inputs.map Tensor.shape) := by
  induction h with
  | empty => exact fun _ => rfl
  | @param t kind dtype ndim rec ih =>
    intro hacc
    have ih := ih (hacc.of_extends (t.extends_param kind dtype ndim))
    rcases t.param_cases kind dtype ndim with ⟨h, -⟩ | ⟨d, rfl, hkind, h⟩
    · rw [h]
      exact ih
    · rw [h, rec.snapshot_addParam, map_map_shape, ih, List.map_singleton, ← shape_getD]
      exact (rec.sweep_leaf [⟨⟨d, ndim, kind⟩, .param t.params.length⟩] _).symm
  | @constant t c rec ih =>
    intro hacc
    have ih := ih (hacc.of_extends (t.extends_constant c))
    rw [rec.snapshot_constant, map_map_shape, ih]
    exact (rec.sweep_leaf [⟨⟨c.dtype, 0, .scalar⟩, .constant c⟩] t.params).symm
  | @node t op ins targets forms rec known typed ih =>
    intro hacc
    have hacc := hacc.of_extends (t.extends_node op ins targets forms)
    have ih := ih hacc
    rw [rec.snapshot_node hacc known typed]
    -- by the rule of the operation, one node resolves to the shapes of its outcome
    have hstep : ∀ env, t.snapshot inputs = .ok env →
        (op.outcome (ins.map (env.getD · .blank)) (targets.map (env.getD · .blank))).map
            (List.map Tensor.shape) =
          Graph.nodeShapes ⟨op, ins, targets, t.nextIds forms.length⟩
            (ins.map ((env.map Tensor.shape).getD · .scalar))
            (targets.map ((env.map Tensor.shape).getD · .scalar)) := by
      intro env henv
      have hforms := rec.forms_snapshot hacc env henv
      rw [typed.shapes_outcome
        (hasForm_operands hforms fun v hv => known v (List.mem_append_left _ hv))
        (hasForm_operands hforms fun v hv => known v (List.mem_append_right _ hv))
        (n := ⟨op, ins, targets, t.nextIds forms.length⟩) rfl (t.length_nextIds _)]
      simp only [List.map_map, Function.comp_def, shape_getD]
    have hcount : ∀ ss shapes, t.shapes (inputs.map Tensor.shape) = .ok ss →
        Graph.nodeShapes ⟨op, ins, targets, t.nextIds forms.length⟩ (ins.map (ss.getD · .scalar))
          (targets.map (ss.getD · .scalar)) = .ok shapes → shapes.length = forms.length := by
      intro ss shapes hss hshapes
      rw [← ih] at hss
      obtain ⟨env, henv, rfl⟩ := except_map_eq_ok.mp hss
      rw [← hstep env henv] at hshapes
      obtain ⟨outs, houts, rfl⟩ := except_map_eq_ok.mp hshapes
      rw [List.length_map]
      exact (hasForm_outputs (rec.forms_snapshot hacc env henv) known typed houts).length_eq
    rw [shapes, rec.sweep_node known hcount, ← shapes, ← ih]
    rcases e : t.snapshot inputs with err | env
    · rfl
    · simp only [Except.map, except_bind_ok]
      rw [← hstep env e]
      rcases op.outcome (ins.map (env.getD · .blank)) (targets.map (env.getD · .blank)) with
        err | outs
      · rfl
      · show Except.ok _ = Except.ok _
        rw [List.map_append]

/-! ### The equations of a snapshot -/

theorem length_snapshot {t : Tape} {inputs env : List Tensor} (h : t.snapshot inputs = .ok env) :
    env.length = t.values.length :=
  length_sweep h

theorem getElem?_snapshot {t : Tape} {inputs env : List Tensor} (h : t.snapshot inputs = .ok env)
    {v : ValueId} (hv : v < t.values.length) : env[v]? = some (env.getD v .blank) := by
  rw [List.getD, List.getElem?_eq_getElem (by rw [length_snapshot h]; exact hv), Option.getD_some]

/-- Outcomes on contents of the declared forms have all outputs. -/
theorem Accepts.counts {t : Tape} {inputs : List Tensor} (h : t.Accepts inputs) :
    Counts (fun n => n.op.outcome) .blank (initial inputs) t := by
  intro u op ins targets forms hr hext known typed env outs henv houts
  have hacc := h.of_extends ((u.extends_node op ins targets forms).trans hext)
  exact (hasForm_outputs (hr.forms_snapshot hacc env henv) known typed houts).length_eq

/-- Every node relates the contents of its outputs to those of its inputs and
targets. -/
theorem Recorded.snapshot_output {t : Tape} (h : Recorded t) {inputs : List Tensor}
    (hacc : t.Accepts inputs) (env : List Tensor) (henv : t.snapshot inputs = .ok env)
    {n : NodeId} {node : Node} (hn : t.nodes[n]? = some node) :
    ∃ outs, node.op.outcome (node.inputs.map (env.getD · .blank))
        (node.targets.map (env.getD · .blank)) = .ok outs ∧
      outs.length = node.outputs.length ∧
      ∀ (k : Nat) (v : ValueId), node.outputs[k]? = some v → env[v]? = outs[k]? :=
  h.sweep_output hacc.counts env henv hn

/-- A value that no node produces keeps its initial contents. -/
theorem Recorded.snapshot_leaf {t : Tape} (h : Recorded t) {inputs : List Tensor}
    (hacc : t.Accepts inputs) (env : List Tensor) (henv : t.snapshot inputs = .ok env)
    {v : ValueId} {info : GraphValue} (hv : t.values[v]? = some info)
    (hs : ∀ n k, info.source ≠ .output n k) : env[v]? = some (initial inputs info) :=
  h.sweep_initial hacc.counts env henv hv hs

end Tape

end ArrayFusion
