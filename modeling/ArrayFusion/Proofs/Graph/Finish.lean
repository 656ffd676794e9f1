/-
ArrayFusion/Proofs/Graph/Finish.lean

The end of a recording: which returned handles are the caller's own arrays,
and which parameters are written back.

Design.  A parameter with a value has one variable, and the variable keeps
the form of the parameter whatever is written to it (`Linked`).  Different
variables hold different values (`nodup_vars`), so a value tells which
variable it is the final value of.

Main results: the parameters written back are the arrays whose variable does
not hold its first value any more (`mem_writeBacks`), and a node computed
what is written back (`output_of_writeBack`).
-/
import ArrayFusion.Proofs.Graph.Recorder

namespace ArrayFusion.Recorder

/-! ### Variables hold different values -/

theorem nodup_nextIds (t : Tape) (count : Nat) : (t.nextIds count).Nodup := by
  rw [Tape.nextIds_eq_range']
  exact List.nodup_range'

theorem nodup_append_nextIds {r : Recorder} (hlt : ∀ v ∈ r.vars, v < r.tape.values.length)
    (h : r.vars.Nodup) (count : Nat) : (r.vars ++ r.tape.nextIds count).Nodup := by
  refine List.Nodup.append h (nodup_nextIds _ _) ?_
  intro v hv hnew
  obtain ⟨k, -, rfl⟩ := Tape.mem_nextIds.mp hnew
  exact Nat.not_lt_of_le (Nat.le_add_right _ _) (hlt _ hv)

theorem Reached.nodup_vars {r : Recorder} (h : Reached r) : r.vars.Nodup := by
  induction h with
  | empty => exact List.nodup_nil
  | @param r kind dtype ndim before ih =>
    rcases r.param_cases kind dtype ndim with ⟨h, -⟩ | ⟨d, -, -, h⟩
    · rw [h]
      exact ih
    · rw [h]
      exact nodup_append_nextIds before.sound.2 ih 1
  | scalar c before ih => exact nodup_append_nextIds before.sound.2 ih 1
  | produce before known typed ih => exact nodup_append_nextIds before.sound.2 ih _
  | @update r op inputs targets before known typed ih =>
    have hids : (targets.zip (r.tape.nextIds targets.length)).map (·.2) =
        r.tape.nextIds targets.length :=
      List.map_snd_zip (Nat.le_of_eq (Tape.length_nextIds _ _))
    refine nodup_putAll ih (by rw [hids]; exact nodup_nextIds _ _) ?_
    intro p hp hmem
    obtain ⟨k, -, hk⟩ := Tape.mem_nextIds.mp (List.of_mem_zip hp).2
    rw [hk] at hmem
    exact Nat.not_lt_of_le (Nat.le_add_right _ _) (before.sound.2 _ hmem)

theorem Reached.valueOf_inj {r : Recorder} (h : Reached r) {x y : Nat} (hx : x < r.vars.length)
    (hy : y < r.vars.length) (hv : r.valueOf x = r.valueOf y) : x = y := by
  have hget : r.vars[x]? = r.vars[y]? := by
    rw [getElem?_vars hx, getElem?_vars hy, hv]
  exact (List.getElem?_inj hx h.nodup_vars).mp hget

/-! ### Parameters and their variables -/

/-- How parameters and variables belong together. -/
structure Linked (r : Recorder) : Prop where
  count : r.paramVars.length = r.tape.params.length
  var : ∀ {i x : Nat}, r.paramVars[i]? = some (some x) →
    x < r.vars.length ∧ ∃ v : ValueId, r.tape.values[v]? = some ⟨r.formOf x, .param i⟩
  inj : ∀ {i j x : Nat}, r.paramVars[i]? = some (some x) → r.paramVars[j]? = some (some x) → i = j
  initial : ∀ {x i : Nat} {form : Form}, x < r.vars.length →
    r.tape.values[r.valueOf x]? = some ⟨form, .param i⟩ → r.paramVars[i]? = some (some x)
  present : ∀ {i : Nat} {p : Param} {v : ValueId}, r.tape.params[i]? = some p →
    p.value = some v → ∃ x, r.paramVars[i]? = some (some x)

/-- Steps that declare nothing keep parameters and variables together, if the
variables they change do not get the initial value of a parameter. -/
theorem Linked.step {r s : Recorder} (h : r.Linked) (hr : Reached r) (hg : r.Grows s)
    (hnew : ∀ {x : Nat} {v : ValueId}, s.vars[x]? = some v →
      r.vars[x]? = some v ∨ ∀ form i, s.tape.values[v]? ≠ some ⟨form, .param i⟩) : s.Linked where
  count := by
    rw [hg.paramVars, hg.params]
    exact h.count
  var hx := by
    rw [hg.paramVars] at hx
    obtain ⟨hlt, v, hv⟩ := h.var hx
    refine ⟨Nat.lt_of_lt_of_le hlt hg.vars, v, ?_⟩
    rw [hg.forms _ hlt]
    exact hg.tape.value hv
  inj hi hj := by
    rw [hg.paramVars] at hi hj
    exact h.inj hi hj
  initial {x i form} hx hv := by
    rw [hg.paramVars]
    rcases hnew (getElem?_vars hx) with hold | hnot
    · have hlt := (List.getElem?_eq_some_iff.mp hold).1
      have hval := valueOf_of_getElem? hold
      obtain ⟨info, hinfo⟩ : ∃ info, r.tape.values[r.valueOf x]? = some info :=
        ⟨_, List.getElem?_eq_getElem (hr.valueOf_lt hlt)⟩
      have hs := hg.tape.value hinfo
      rw [hval, hv] at hs
      exact h.initial hlt (hinfo.trans hs.symm)
    · exact absurd hv (hnot _ _)
  present hp hv := by
    rw [hg.params] at hp
    rw [hg.paramVars]
    exact h.present hp hv

theorem Linked.produce {r : Recorder} (h : r.Linked) (hr : Reached r) (op : Op) (inputs : List Nat)
    (forms : List Form) : (r.produce op inputs forms).Linked := by
  refine h.step hr (grows_produce hr op inputs forms) ?_
  intro x v hx
  rcases Nat.lt_or_ge x r.vars.length with hlt | hge
  · left
    exact (List.getElem?_append_left hlt).symm.trans hx
  · right
    rintro form i hv
    have hx : (r.vars ++ r.tape.nextIds forms.length)[x]? = some v := hx
    rw [List.getElem?_append_right hge] at hx
    obtain ⟨hk, rfl⟩ := Tape.getElem?_nextIds_eq_some.mp hx
    rw [show (r.produce op inputs forms).tape.values[_]? = some _ from
      Tape.getElem?_values_node_new (List.getElem?_eq_getElem hk)] at hv
    cases hv

theorem Linked.update {r : Recorder} (h : r.Linked) (hr : Reached r) (op : Op)
    (inputs targets : List Nat) : (r.update op inputs targets).Linked := by
  refine h.step hr (grows_update hr op inputs targets) ?_
  intro x v hx
  rcases mem_vars_update hx with hold | ⟨k, hk, rfl⟩
  · exact .inl hold
  · right
    rintro form i hv
    have hform : (targets.map r.formOf)[k]? = some (r.formOf x) := by
      rw [List.getElem?_map, hk, Option.map_some]
    rw [show (r.update op inputs targets).tape.values[_]? = some _ from
      Tape.getElem?_values_node_new hform] at hv
    cases hv

theorem Linked.addScalar {r : Recorder} (h : r.Linked) (hr : Reached r) (c : Scalar) :
    (r.addScalar c).Linked := by
  refine h.step hr (grows_addScalar hr c) ?_
  intro x v hx
  rcases getElem?_concat_eq_some hx with hold | ⟨-, rfl⟩
  · exact .inl hold
  · right
    rintro form i hv
    rw [show (r.addScalar c).tape.values[_]? = some _ from getElem?_concat_length _ _] at hv
    cases hv

theorem Linked.addAbsent {r : Recorder} (h : r.Linked) (kind : ArgKind) (dtype : Option DType)
    (ndim : Nat) : (r.addAbsent kind dtype ndim).Linked where
  count := by simp [Recorder.addAbsent, h.count]
  var hx := by
    rcases getElem?_concat_eq_some hx with hx | ⟨-, hx⟩
    · exact h.var hx
    · cases hx
  inj hi hj := by
    rcases getElem?_concat_eq_some hi with hi | ⟨-, hi⟩
    · rcases getElem?_concat_eq_some hj with hj | ⟨-, hj⟩
      · exact h.inj hi hj
      · cases hj
    · cases hi
  initial hx hv := getElem?_of_isPrefix (List.prefix_append _ _) (h.initial hx hv)
  present hp hv := by
    rcases getElem?_concat_eq_some hp with hp | ⟨-, rfl⟩
    · obtain ⟨x, hx⟩ := h.present hp hv
      exact ⟨x, getElem?_of_isPrefix (List.prefix_append _ _) hx⟩
    · cases hv

/-- The last entry links the new parameter and the new variable. -/
theorem Linked.addParam {r : Recorder} (h : r.Linked) (hr : Reached r) (form : Form) :
    (r.addParam form).Linked := by
  have hext := r.tape.extends_addParam form
  have hinfo : (r.addParam form).tape.values[r.tape.values.length]? =
      some ⟨form, .param r.tape.params.length⟩ := getElem?_concat_length _ _
  have hlink : (r.addParam form).paramVars[r.tape.params.length]? = some (some r.vars.length) := by
    rw [← h.count]
    exact getElem?_concat_length _ _
  have hold : ∀ {i x}, r.paramVars[i]? = some (some x) →
      (r.addParam form).paramVars[i]? = some (some x) :=
    getElem?_of_isPrefix (List.prefix_append _ _)
  -- every link is an old one or the last entry, whose variable no old one has
  have hcases : ∀ {i x}, (r.addParam form).paramVars[i]? = some (some x) →
      r.paramVars[i]? = some (some x) ∧ x < r.vars.length ∨
        i = r.tape.params.length ∧ x = r.vars.length := by
    intro i x hx
    rcases getElem?_concat_eq_some hx with hx | ⟨rfl, heq⟩
    · exact .inl ⟨hx, (h.var hx).1⟩
    · exact .inr ⟨h.count, Option.some.inj heq⟩
  constructor
  case count =>
    show (r.paramVars ++ [_]).length = (r.tape.params ++ [_]).length
    rw [List.length_append, List.length_append, h.count]
    rfl
  case var =>
    intro i x hx
    show x < (r.vars ++ [_]).length ∧ _
    rw [List.length_append]
    rcases hcases hx with ⟨hx, hlt⟩ | ⟨rfl, rfl⟩
    · obtain ⟨-, v, hv⟩ := h.var hx
      refine ⟨Nat.lt_add_right _ hlt, v, ?_⟩
      rw [formOf_of_getElem? hr hext hlt (getElem?_vars_addParam hlt form)]
      exact hext.value hv
    · refine ⟨Nat.lt_succ_self _, r.tape.values.length, ?_⟩
      rw [hinfo, formOf, valueOf_addParam_new, Tape.formOf_of_getElem? hinfo]
  case inj =>
    intro i j x hi hj
    rcases hcases hi with ⟨hi, hlt⟩ | ⟨rfl, rfl⟩
    · rcases hcases hj with ⟨hj, -⟩ | ⟨-, rfl⟩
      · exact h.inj hi hj
      · exact absurd hlt (Nat.lt_irrefl _)
    · rcases hcases hj with ⟨-, hlt⟩ | ⟨rfl, -⟩
      · exact absurd hlt (Nat.lt_irrefl _)
      · rfl
  case initial =>
    intro x i form' hx hv
    rcases lt_or_eq_of_lt_addParam hx with hlt | rfl
    · rw [valueOf_addParam hlt] at hv
      rcases getElem?_concat_eq_some hv with hv | ⟨heq, -⟩
      · exact hold (h.initial hlt hv)
      · exact absurd heq (Nat.ne_of_lt (hr.valueOf_lt hlt))
    · rw [valueOf_addParam_new, hinfo] at hv
      cases hv
      exact hlink
  case present =>
    intro i p v hp hv
    rcases getElem?_concat_eq_some hp with hp | ⟨rfl, -⟩
    · obtain ⟨x, hx⟩ := h.present hp hv
      exact ⟨x, hold hx⟩
    · exact ⟨r.vars.length, hlink⟩

/-- Parameters and variables belong together in every recording. -/
theorem Reached.linked {r : Recorder} (h : Reached r) : r.Linked := by
  induction h with
  | empty =>
    constructor <;> simp [Recorder.empty, Tape.empty]
  | @param r kind dtype ndim before ih =>
    rcases r.param_cases kind dtype ndim with ⟨h, -⟩ | ⟨d, rfl, -, h⟩
    · rw [h]
      exact ih.addAbsent kind dtype ndim
    · rw [h]
      exact ih.addParam before _
  | scalar c before ih => exact ih.addScalar before c
  | produce before known typed ih => exact ih.produce before _ _ _
  | update before known typed ih => exact ih.update before _ _ _

/-! ### Slots and write-backs -/

/-- The declaration of the parameter that a variable belongs to. -/
theorem Reached.param_of_var {r : Recorder} (h : Reached r) {i x : Nat}
    (hx : r.paramVars[i]? = some (some x)) :
    ∃ v, r.tape.values[v]? = some ⟨r.formOf x, .param i⟩ ∧
      r.tape.params[i]? =
        some ⟨(r.formOf x).kind, some (r.formOf x).dtype, (r.formOf x).ndim, some v⟩ ∧
      (r.formOf x).kind ≠ .absent := by
  obtain ⟨-, v, hv⟩ := h.linked.var hx
  exact ⟨v, hv, h.recorded.param_of_source hv⟩

theorem Reached.paramOfVar_eq_some {r : Recorder} (h : Reached r) {x i : Nat} :
    r.paramOfVar x = some i ↔
      r.paramVars[i]? = some (some x) ∧ (r.formOf x).kind = .array := by
  unfold paramOfVar
  constructor
  · intro hp
    split at hp
    · next j hj =>
      have hvar : r.paramVars[j]? = some (some x) := by
        obtain ⟨hlt, hget, -⟩ := List.findIdx?_eq_some_iff_getElem.mp hj
        rw [List.getElem?_eq_getElem hlt, beq_iff_eq.mp hget]
      obtain ⟨v, -, hparam, -⟩ := h.param_of_var hvar
      rw [hparam] at hp
      dsimp only at hp
      split at hp
      · next hk =>
        cases hp
        exact ⟨hvar, hk⟩
      · cases hp
    · cases hp
  · rintro ⟨hvar, hk⟩
    have hfind : r.paramVars.findIdx? (· == some x) = some i := by
      rcases e : r.paramVars.findIdx? (· == some x) with - | j
      · rw [List.findIdx?_eq_none_iff] at e
        have := e _ (List.mem_of_getElem? hvar)
        simp at this
      · obtain ⟨hlt, hget, -⟩ := List.findIdx?_eq_some_iff_getElem.mp e
        rw [h.linked.inj hvar (by rw [List.getElem?_eq_getElem hlt, beq_iff_eq.mp hget])]
    obtain ⟨v, -, hparam, -⟩ := h.param_of_var hvar
    rw [hfind]
    dsimp only
    rw [hparam]
    exact if_pos hk

/-- The parameters written back are the arrays whose variable does not hold
its first value any more. -/
theorem Reached.mem_writeBacks {r : Recorder} (h : Reached r) {i : Nat} {v : ValueId} :
    (i, v) ∈ r.writeBacks ↔
      ∃ x, r.paramVars[i]? = some (some x) ∧ (r.formOf x).kind = .array ∧ r.valueOf x = v ∧
        ∀ form, r.tape.values[v]? ≠ some ⟨form, .param i⟩ := by
  have hmem : (i, v) ∈ r.writeBacks ↔ ∃ p var, r.tape.params[i]? = some p ∧
      r.paramVars[i]? = some var ∧ r.writeBack? p var = some v := by
    unfold writeBacks
    rw [List.mem_filterMap]
    constructor
    · rintro ⟨⟨⟨p, var⟩, j⟩, hq, hb⟩
      obtain ⟨w, hw, heq⟩ := Option.map_eq_some_iff.mp hb
      cases heq
      obtain ⟨hp, hvar⟩ := List.getElem?_zip_eq_some.mp (List.mk_mem_zipIdx_iff_getElem?.mp hq)
      exact ⟨p, var, hp, hvar, hw⟩
    · rintro ⟨p, var, hp, hvar, hw⟩
      refine ⟨((p, var), i), ?_, by rw [hw]; rfl⟩
      exact List.mk_mem_zipIdx_iff_getElem?.mpr (List.getElem?_zip_eq_some.mpr ⟨hp, hvar⟩)
  rw [hmem]
  constructor
  · rintro ⟨p, var, hp, hvar, hw⟩
    cases var with
    | none => cases hw
    | some x =>
      obtain ⟨first, hfirst, hparam, -⟩ := h.param_of_var hvar
      obtain rfl : p = _ := Option.some.inj (hp.symm.trans hparam)
      unfold writeBack? at hw
      dsimp only at hw
      split at hw
      · next hcond =>
        cases hw
        refine ⟨x, hvar, hcond.1, rfl, ?_⟩
        intro form hv
        have hparam' := (h.recorded.param_of_source hv).1
        exact hcond.2 (congrArg Param.value (Option.some.inj (hparam.symm.trans hparam')))
      · cases hw
  · rintro ⟨x, hvar, hk, rfl, hnot⟩
    obtain ⟨first, hfirst, hparam, -⟩ := h.param_of_var hvar
    refine ⟨_, _, hparam, hvar, ?_⟩
    unfold writeBack?
    refine if_pos ⟨hk, ?_⟩
    intro heq
    cases heq
    exact hnot _ hfirst

/-- A node computed what is written back. -/
theorem Reached.output_of_writeBack {r : Recorder} (h : Reached r) {i : Nat} {v : ValueId}
    (hw : (i, v) ∈ r.writeBacks) :
    ∃ form n k, r.tape.values[v]? = some ⟨form, .output n k⟩ := by
  obtain ⟨x, hvar, hk, rfl, hnot⟩ := h.mem_writeBacks.mp hw
  obtain ⟨hlt, -⟩ := h.linked.var hvar
  rcases hinfo : r.tape.values[r.valueOf x]? with - | ⟨form, j | c | ⟨n, k⟩⟩
  · exact absurd (h.valueOf_lt hlt) (Nat.not_lt_of_le (List.getElem?_eq_none_iff.mp hinfo))
  · -- an initial value belongs to the variable of its own parameter
    obtain rfl := h.linked.inj hvar (h.linked.initial hlt hinfo)
    exact absurd hinfo (hnot form)
  · have hform : r.formOf x = form := Tape.formOf_of_getElem? hinfo
    rw [hform, h.recorded.form_of_constant hinfo] at hk
    cases hk
  · exact ⟨form, n, k, rfl⟩

/-- Where a returned handle is taken from: an array parameter, or its value,
which is then not the initial value of an array parameter. -/
theorem Reached.slotOf_cases {r : Recorder} (h : Reached r) {x : Handle} (hx : r.Valid x) :
    (∃ i, r.slotOf x = .param i ∧ r.paramVars[i]? = some (some x.var) ∧ x.kind = .array) ∨
    (r.slotOf x = .value (r.valueOf x.var) ∧
      ∀ i : Nat, r.paramVars[i]? = some (some x.var) → x.kind ≠ .array) := by
  unfold slotOf
  rcases hp : r.paramOfVar x.var with - | i
  · right
    refine ⟨rfl, ?_⟩
    intro i hi hk
    rw [← congrArg Form.kind hx.2] at hk
    rw [h.paramOfVar_eq_some.mpr ⟨hi, hk⟩] at hp
    cases hp
  · left
    obtain ⟨hi, hk⟩ := h.paramOfVar_eq_some.mp hp
    refine ⟨i, rfl, hi, ?_⟩
    rw [← congrArg Form.kind hx.2]
    exact hk

/-! ### The graph -/

section

variable {r : Recorder} {name : String} {returned : Returned Handle}

/-- A slot for a parameter comes from a handle on the parameter's variable. -/
theorem Reached.handle_of_paramSlot (h : Reached r) (hv : ∀ x ∈ returned.toList, r.Valid x)
    {i : Nat} (hi : .param i ∈ (r.finish name returned).outputs) :
    ∃ x ∈ returned.toList, r.paramVars[i]? = some (some x.var) ∧ x.kind = .array := by
  obtain ⟨x, hx, heq⟩ := List.mem_map.mp hi
  rcases h.slotOf_cases (hv x hx) with ⟨j, hj, hvar, hk⟩ | ⟨hval, -⟩
  · cases hj.symm.trans heq
    exact ⟨x, hx, hvar, hk⟩
  · cases hval.symm.trans heq

/-- A slot for a value comes from a handle on a variable that has the value and
is not that of an array parameter. -/
theorem Reached.handle_of_valueSlot (h : Reached r) (hv : ∀ x ∈ returned.toList, r.Valid x)
    {v : ValueId} (hmem : .value v ∈ (r.finish name returned).outputs) :
    ∃ x ∈ returned.toList, r.valueOf x.var = v ∧
      ∀ i : Nat, r.paramVars[i]? = some (some x.var) → x.kind ≠ .array := by
  obtain ⟨x, hx, heq⟩ := List.mem_map.mp hmem
  rcases h.slotOf_cases (hv x hx) with ⟨j, hj, -, -⟩ | ⟨hval, hnot⟩
  · cases hj.symm.trans heq
  · exact ⟨x, hx, ReturnSlot.value.inj (hval.symm.trans heq), hnot⟩

/-- Different parameters are written back from different values. -/
theorem Reached.writeBack_inj (h : Reached r) {i j : Nat} {v : ValueId}
    (hi : (i, v) ∈ r.writeBacks) (hj : (j, v) ∈ r.writeBacks) : i = j := by
  obtain ⟨x, hx, -, hxv, -⟩ := h.mem_writeBacks.mp hi
  obtain ⟨y, hy, -, hyv, -⟩ := h.mem_writeBacks.mp hj
  obtain rfl := h.valueOf_inj (h.linked.var hx).1 (h.linked.var hy).1 (hxv.trans hyv.symm)
  exact h.linked.inj hx hy

theorem Reached.writeBackOf_eq_some (h : Reached r) {i : Nat} {v : ValueId} :
    (r.finish name returned).writeBackOf v = some i ↔ (i, v) ∈ r.writeBacks := by
  unfold Graph.writeBackOf
  constructor
  · intro hw
    obtain ⟨⟨j, w⟩, hfind, rfl⟩ := Option.map_eq_some_iff.mp hw
    have hmem := List.mem_of_find?_eq_some hfind
    obtain rfl : w = v := beq_iff_eq.mp (List.find?_some hfind : _)
    exact hmem
  · intro hw
    rcases hfind : (r.finish name returned).writeBacks.find? fun p => p.2 == v with - | ⟨j, w⟩
    · have hnone := List.find?_eq_none.mp hfind _ hw
      simp at hnone
    · have hmem := List.mem_of_find?_eq_some hfind
      obtain rfl : w = v := beq_iff_eq.mp (List.find?_some hfind : _)
      rw [hfind, h.writeBack_inj hw hmem]
      rfl

/-- What is written back is a root. -/
theorem Reached.writeBack_mem_roots (h : Reached r) {i : Nat} {v : ValueId}
    (hw : (i, v) ∈ r.writeBacks) : v ∈ (r.finish name returned).roots := by
  obtain ⟨form, n, k, hv⟩ := h.output_of_writeBack hw
  rw [Graph.roots, List.mem_eraseDups, List.mem_filter]
  refine ⟨List.mem_append_right _ (List.mem_map.mpr ⟨(i, v), hw, rfl⟩), ?_⟩
  rw [(Graph.producer_eq_some (g := r.finish name returned)).mpr ⟨form, k, hv⟩]
  rfl

/-- A returned value that a node computed is a root. -/
theorem slot_mem_roots {v : ValueId} {form : Form} {n k : Nat}
    (hs : .value v ∈ (r.finish name returned).outputs)
    (hv : r.tape.values[v]? = some ⟨form, .output n k⟩) : v ∈ (r.finish name returned).roots := by
  rw [Graph.roots, List.mem_eraseDups, List.mem_filter]
  refine ⟨List.mem_append_left _ (List.mem_filterMap.mpr ⟨_, hs, rfl⟩), ?_⟩
  rw [(Graph.producer_eq_some (g := r.finish name returned)).mpr ⟨form, k, hv⟩]
  rfl

end

end ArrayFusion.Recorder
