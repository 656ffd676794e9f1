/-
ArrayFusion/Proofs/Eager.lean

Evaluation op at a time, in terms of contents.

Design.  Every operation is a static check, an outcome on the contents of its
operands, and one of two effects: the outcome is placed in new values
(`placeAll_spec`), or it is written into the buffers of the targets
(`writeAll`).  The equations below say so for each operation; nothing behind
them looks at loops or buffers again.
-/
import ArrayFusion.Proofs.Outcome

namespace ArrayFusion

/-! ### Contents of operands -/

namespace Operand

/-- The contents of a value. -/
def tensor (o : Operand) (s : Store) : Tensor :=
  ⟨o.dtype, o.shape, o.elems s⟩

/-- What is known about a value without its shape. -/
def form (o : Operand) : Form :=
  ⟨o.dtype, o.ndim, o.kind⟩

/-- The buffer of an array exists. -/
def StoredIn (o : Operand) (s : Store) : Prop :=
  ∀ a, o = .array a → a.loc < s.buffers.length

theorem operandType_form (o : Operand) : o.form.operandType = o.type := by
  cases o <;> rfl

theorem map_operandType_form (os : List Operand) :
    (os.map form).map Form.operandType = os.map type := by
  rw [List.map_map]
  exact List.map_congr_left fun o _ => o.operandType_form

theorem all_isScalar (os : List Operand) :
    os.all isScalar = (os.map form).all fun f => f.kind == .scalar := by
  rw [List.all_map]
  congr 1
  funext o
  cases o <;> rfl

/-- Values keep their contents while buffers are only added. -/
theorem tensor_of_isPrefix {o : Operand} {s s' : Store} (ho : o.StoredIn s)
    (h : s.buffers <+: s'.buffers) : o.tensor s' = o.tensor s := by
  cases o with
  | scalar c => rfl
  | array a =>
    have hread : s'.read a.loc = s.read a.loc := by
      obtain ⟨extra, hx⟩ := h
      rw [Store.read, Store.read, ← hx, List.getD, List.getD,
        List.getElem?_append_left (ho a rfl)]
    show (⟨_, _, s'.read a.loc⟩ : Tensor) = ⟨_, _, s.read a.loc⟩
    rw [hread]

end Operand

namespace Eager

/-! ### New values -/

/-- A new value with the given contents. -/
def place (asScalar : Bool) (t : Tensor) : Exec Store Operand :=
  output asScalar t.shape t.data t.dtype

/-- What placing contents in new values does. -/
structure Placed (s : Store) (outs : List Tensor) (kind : ArgKind) (us : List Operand)
    (s' : Store) : Prop where
  contents : us.map (·.tensor s') = outs
  kinds : ∀ u ∈ us, u.kind = kind
  grows : s.buffers <+: s'.buffers
  fresh : ∀ {k : Nat} {a : NDArray}, us[k]? = some (.array a) →
    s.buffers.length ≤ a.loc ∧ a.loc < s'.buffers.length
  apart : ∀ {j k : Nat} {a b : NDArray}, us[j]? = some (.array a) → us[k]? = some (.array b) →
    a.loc = b.loc → j = k

theorem Placed.stored {s s' : Store} {outs : List Tensor} {kind : ArgKind} {us : List Operand}
    (h : Placed s outs kind us s') : ∀ o ∈ us, o.StoredIn s' := by
  intro o ho a ha
  obtain ⟨k, hk⟩ := List.getElem?_of_mem ho
  rw [ha] at hk
  exact (h.fresh hk).2

/-- The kind of a placed value. -/
def placedKind (asScalar : Bool) : ArgKind :=
  if asScalar then .scalar else .array

theorem place_spec (asScalar : Bool) {t : Tensor} (s : Store)
    (h : asScalar = true → t.shape = .scalar ∧ t.Sized ∧ t.Canonical) :
    ∃ u s', place asScalar t s = (.ok u, s') ∧ u.tensor s' = t ∧
      u.kind = placedKind asScalar ∧ s.buffers <+: s'.buffers ∧
      ∀ a, u = .array a → a.loc = s.buffers.length ∧ s'.buffers.length = s.buffers.length + 1 := by
  cases asScalar with
  | true =>
    obtain ⟨hshape, hsized, hcan⟩ := h rfl
    have hlen : t.data.length = 1 := by
      rw [hsized, hshape]
      rfl
    obtain ⟨e, he⟩ := List.length_eq_one_iff.mp hlen
    refine ⟨_, s, rfl, ?_, rfl, List.prefix_refl _, fun a ha => by cases ha⟩
    have hcast : e.cast t.dtype = e := hcan e (by rw [he]; exact List.mem_singleton.mpr rfl)
    obtain ⟨d, shape, data⟩ := t
    subst hshape he
    show (⟨d, .scalar, [e.cast d]⟩ : Tensor) = _
    rw [hcast]
  | false =>
    refine ⟨.array ⟨s.buffers.length, t.dtype, t.shape⟩, s.push t.data, rfl, ?_, rfl,
      List.prefix_append _ _, ?_⟩
    · show (⟨t.dtype, t.shape, (s.push t.data).read s.buffers.length⟩ : Tensor) = t
      rw [Store.read_push_self]
    · intro a ha
      cases ha
      exact ⟨rfl, Store.length_push _ _⟩

/-- Contents placed one after the other. -/
theorem placeAll_spec (asScalar : Bool) (outs : List Tensor) (s : Store)
    (h : asScalar = true → ∀ t ∈ outs, t.shape = .scalar ∧ t.Sized ∧ t.Canonical) :
    ∃ us s', outs.mapM (place asScalar) s = (.ok us, s') ∧
      Placed s outs (placedKind asScalar) us s' := by
  induction outs generalizing s with
  | nil =>
    exact ⟨[], s, rfl, rfl, by simp, List.prefix_refl _, by simp, by simp⟩
  | cons t outs ih =>
    obtain ⟨u, s₁, hu, hut, huk, hg₁, hloc⟩ :=
      place_spec asScalar s fun hs => h hs t List.mem_cons_self
    obtain ⟨us, s₂, hus, hp⟩ := ih s₁ fun hs x hx => h hs x (List.mem_cons_of_mem t hx)
    have hstored : u.StoredIn s₁ := by
      intro a ha
      obtain ⟨h1, h2⟩ := hloc a ha
      rw [h1, h2]
      exact Nat.lt_succ_self _
    refine ⟨u :: us, s₂, ?_, ?_⟩
    · rw [List.mapM_cons]
      exact Exec.bind_eq_ok.mpr ⟨_, s₁, hu, Exec.bind_eq_ok.mpr ⟨_, s₂, hus, rfl⟩⟩
    · have hle := hp.grows.length_le
      have hle₁ := hg₁.length_le
      constructor
      case contents => rw [List.map_cons, hp.contents, Operand.tensor_of_isPrefix hstored hp.grows, hut]
      case kinds =>
        intro v hv
        rcases List.mem_cons.mp hv with rfl | hv
        · exact huk
        · exact hp.kinds v hv
      case grows => exact hg₁.trans hp.grows
      case fresh =>
        intro k a hk
        cases k with
        | zero =>
          cases hk
          obtain ⟨h1, h2⟩ := hloc a rfl
          exact ⟨Nat.le_of_eq h1.symm, by omega⟩
        | succ k =>
          obtain ⟨h1, h2⟩ := hp.fresh hk
          exact ⟨Nat.le_trans hle₁ h1, h2⟩
      case apart =>
        -- the first value sits right behind the old buffers, the others further on
        have hfirst : ∀ {k : Nat} {a b : NDArray}, u = .array a → us[k]? = some (.array b) →
            a.loc ≠ b.loc := by
          intro k a b hu hk heq
          obtain ⟨h1, h2⟩ := hloc a hu
          have := (hp.fresh hk).1
          omega
        intro j k a b hj hk heq
        cases j with
        | zero =>
          cases k with
          | zero => rfl
          | succ k =>
            cases hj
            exact absurd heq (hfirst rfl hk)
        | succ j =>
          cases k with
          | zero =>
            cases hk
            exact absurd heq.symm (hfirst rfl hj)
          | succ k => rw [hp.apart hj hk heq]

/-- What an operation without targets yields can be placed in new values. -/
theorem placeAll_outcome {asScalar : Bool} {op : Op} {fi fo : List Form} (typed : op.Typed fi [] fo)
    (hkind : ∀ f ∈ fo, f.kind = placedKind asScalar) {ins outs : List Tensor}
    (hi : List.Forall₂ Tensor.HasForm ins fi) (ho : op.outcome ins [] = .ok outs) (s : Store) :
    ∃ us s', outs.mapM (place asScalar) s = (.ok us, s') ∧
      Placed s outs (placedKind asScalar) us s' := by
  apply placeAll_spec
  intro hs t ht
  obtain ⟨f, hf, hform⟩ := forall₂_mem_left (typed.forms_outcome hi .nil ho) ht
  refine ⟨hform.scalar ?_, hform.sized, typed.canonical_outcome hi .nil ho t ht⟩
  rw [hkind f hf, hs]
  decide

/-! ### Writes -/

/-- The store after new contents were written into the buffers of arrays, in
order. -/
def writeAll : List (Operand × Tensor) → Store → Store
  | [], s => s
  | (.array a, t) :: rest, s => writeAll rest (s.write a.loc t.data)
  | (.scalar _, _) :: rest, s => writeAll rest s

theorem length_writeAll (writes : List (Operand × Tensor)) (s : Store) :
    (writeAll writes s).buffers.length = s.buffers.length := by
  fun_induction writeAll writes s with
  | case1 => rfl
  | case2 a t rest s ih => rw [ih, Store.length_write]
  | case3 c t rest s ih => exact ih

/-- Writes elsewhere leave a buffer alone. -/
theorem read_writeAll {writes : List (Operand × Tensor)} {loc : Nat}
    (hne : ∀ p ∈ writes, ∀ a, p.1 = .array a → a.loc ≠ loc) (s : Store) :
    (writeAll writes s).read loc = s.read loc := by
  fun_induction writeAll writes s with
  | case1 => rfl
  | case2 a t rest s ih =>
    rw [ih fun p hp => hne p (List.mem_cons_of_mem _ hp)]
    exact Store.read_write_of_ne s (hne _ List.mem_cons_self a rfl) _
  | case3 c t rest s ih => exact ih fun p hp => hne p (List.mem_cons_of_mem _ hp)

/-- Of several writes to a buffer the last one stays. -/
theorem read_writeAll_of_last {writes : List (Operand × Tensor)} {s : Store} {k : Nat}
    {a : NDArray} {t : Tensor} (hk : writes[k]? = some (.array a, t))
    (ha : a.loc < s.buffers.length)
    (hlast : ∀ j b u, k < j → writes[j]? = some (.array b, u) → b.loc ≠ a.loc) :
    (writeAll writes s).read a.loc = t.data := by
  induction writes generalizing s k with
  | nil => cases hk
  | cons p rest ih =>
    cases k with
    | zero =>
      cases hk
      show (writeAll rest (s.write a.loc t.data)).read a.loc = t.data
      rw [read_writeAll, Store.read_write_self ha]
      rintro ⟨o, u⟩ hp b rfl
      obtain ⟨j, hj⟩ := List.getElem?_of_mem hp
      exact hlast (j + 1) b u (Nat.succ_pos j) hj
    | succ k =>
      have hrest : ∀ j b u, k < j → rest[j]? = some (.array b, u) → b.loc ≠ a.loc :=
        fun j b u hj => hlast (j + 1) b u (Nat.succ_lt_succ hj)
      obtain ⟨o, u⟩ := p
      cases o with
      | scalar c => exact ih hk ha hrest
      | array b => exact ih hk (by rwa [Store.length_write]) hrest

/-- Overwriting with elements that fill the arrays. -/
theorem overwriteAll_eq {pairs : List (Operand × List Elem)} {s : Store}
    (h : ∀ p ∈ pairs, ∀ a, p.1 = .array a →
      a.loc < s.buffers.length ∧ (a.elems s).length = p.2.length) :
    overwriteAll pairs s = writeAll (pairs.map fun p =>
      (p.1, ⟨p.1.dtype, p.1.shape, p.2.map (·.cast p.1.dtype)⟩)) s := by
  induction pairs generalizing s with
  | nil => rfl
  | cons p pairs ih =>
    obtain ⟨o, data⟩ := p
    cases o with
    | scalar c => exact ih fun q hq => h q (List.mem_cons_of_mem _ hq)
    | array a =>
      obtain ⟨hloc, hlen⟩ := h _ List.mem_cons_self a rfl
      have hfull : a.overwrite data s = s.write a.loc (data.map (·.cast a.dtype)) := by
        rw [NDArray.overwrite, overlay_of_length_eq (by rw [hlen, List.length_map])]
      show overwriteAll pairs (a.overwrite data s) = _
      rw [ih, hfull]
      · rfl
      · intro q hq b hb
        obtain ⟨hb1, hb2⟩ := h q (List.mem_cons_of_mem _ hq) b hb
        refine ⟨by rw [NDArray.overwrite, Store.length_write]; exact hb1, ?_⟩
        rw [← hb2]
        by_cases heq : a.loc = b.loc
        · rw [NDArray.elems, ← heq]
          exact (NDArray.length_elems_overwrite hloc data).trans (by rw [NDArray.elems, heq]; rfl)
        · rw [NDArray.elems_overwrite_of_ne a heq]

/-! ### The operations -/

theorem contents_eq (os : List Operand) (s : Store) :
    contents os s = (os.map (·.tensor s)).map Tensor.content := by
  rw [List.map_map]
  rfl

theorem map_shape_tensor (os : List Operand) (s : Store) :
    (os.map (·.tensor s)).map Tensor.shape = os.map Operand.shape := by
  rw [List.map_map]
  rfl

theorem ufunc_eq (f : Ufunc) (inputs : List Operand) (s : Store) :
    ufunc f inputs s =
      match f.resolve (inputs.map Operand.type) with
      | .error e => (.error e, s)
      | .ok loop =>
        match (Op.ufunc f loop).outcome (inputs.map (·.tensor s)) [] with
        | .error e => (.error e, s)
        | .ok outs => outs.mapM (place (inputs.all Operand.isScalar)) s := by
  rw [ufunc, Exec.bind_apply, Exec.lift_apply]
  rcases f.resolve (inputs.map Operand.type) with e | loop
  · rfl
  · dsimp only
    rw [Exec.bind_apply, Exec.lift_apply]
    simp only [Op.outcome, List.isEmpty_nil, if_true, map_shape_tensor, ← contents_eq]
    rcases Shape.broadcastAll (inputs.map Operand.shape) with e | shape
    · rfl
    · simp only [except_bind_ok]
      rw [Exec.bind_apply, Exec.get_apply]
      dsimp only
      rw [Exec.bind_apply, Exec.lift_apply]
      rcases runLoop f loop (contents inputs s) shape with e | rows
      · rfl
      · dsimp only [except_bind_ok]
        show _ = List.mapM (place _) (List.map _ _) s
        rw [List.mapM_map]
        rfl

theorem length_of_mem_columns {loop : Loop} {rows : List (Elem × Elem)} {col : List Elem}
    (h : col ∈ columns loop rows) : col.length = rows.length := by
  unfold columns at h
  rcases List.mem_cons.mp (List.mem_of_mem_take h) with rfl | h
  · rw [List.length_map]
  · rw [List.mem_singleton.mp h, List.length_map]

theorem zip_zip_map {α β γ δ : Type} (xs : List α) (ys : List β) (f : α → γ) (g : γ × β → δ) :
    xs.zip (((xs.map f).zip ys).map g) = (xs.zip ys).map fun p => (p.1, g (f p.1, p.2)) := by
  induction xs generalizing ys with
  | nil => rfl
  | cons x xs ih =>
    cases ys with
    | nil => rfl
    | cons y ys =>
      simp only [List.map_cons, List.zip_cons_cons]
      rw [ih]

/-- What passes the check of outputs are arrays, at least one. -/
theorem typed_of_checkOutputs {f : Ufunc} {loop : Loop} {inputs outs : List Operand}
    (hres : f.resolve (inputs.map Operand.type) = .ok loop)
    (hcheck : f.checkOutputs loop (outs.map fun o => o.array?.map (·.dtype)) = .ok ()) :
    outs ≠ [] ∧ (Op.ufunc f loop).Typed (inputs.map Operand.form) (outs.map Operand.form)
      (outs.map Operand.form) := by
  have hloop := Ufunc.outputs_of_resolve hres
  obtain ⟨hlen, hsome⟩ := Ufunc.checkOutputs_eq_ok hloop hcheck
  rw [List.length_map] at hlen
  constructor
  · rintro rfl
    have := f.nout_cases
    rw [List.length_nil] at hlen
    omega
  · refine .ufuncOut (by rw [Operand.map_operandType_form]; exact hres)
      (by rw [List.length_map, hlen]) ?_
    intro form hform
    obtain ⟨o, ho, rfl⟩ := List.mem_map.mp hform
    have := hsome _ (List.mem_map_of_mem ho)
    cases o with
    | array a => rfl
    | scalar c => cases this

theorem ufuncOut_eq (f : Ufunc) {inputs outs : List Operand} {s : Store}
    (hi : ∀ o ∈ inputs, (o.tensor s).Sized)
    (ho : ∀ o ∈ outs, o.StoredIn s ∧ (o.tensor s).Sized) :
    ufuncOut f inputs outs s =
      match f.resolve (inputs.map Operand.type) with
      | .error e => (.error e, s)
      | .ok loop =>
        match f.checkOutputs loop (outs.map fun o => o.array?.map (·.dtype)) with
        | .error e => (.error e, s)
        | .ok _ =>
          match (Op.ufunc f loop).outcome (inputs.map (·.tensor s)) (outs.map (·.tensor s)) with
          | .error e => (.error e, s)
          | .ok news => (.ok outs, writeAll (outs.zip news) s) := by
  rw [ufuncOut, Exec.bind_apply, Exec.lift_apply]
  rcases hres : f.resolve (inputs.map Operand.type) with e | loop
  · rfl
  · dsimp only
    rw [Exec.bind_apply, Exec.lift_apply]
    rcases hout : f.checkOutputs loop (outs.map fun o => o.array?.map (·.dtype)) with e | u
    · simp only [hout]
    · simp only [hout]
      obtain ⟨hne, -⟩ := typed_of_checkOutputs hres hout
      have hempty : (outs.map (·.tensor s)).isEmpty = false := by
        simpa using hne
      rw [Exec.bind_apply, Exec.lift_apply]
      rcases hshape : Shape.outputShape (inputs.map Operand.shape) (outs.map Operand.shape) with
        e | shape
      · simp only [Op.outcome, hempty, map_shape_tensor, hshape, except_bind_error,
          Bool.false_eq_true, if_false]
      · have hrows : runLoop f loop (contents inputs s) shape =
            .ok (shape.indices.map (Tensor.rowAt f loop (inputs.map (·.tensor s)))) := by
          rw [contents_eq]
          refine Tensor.runLoop_eq_ok ?_ f loop
          intro t ht
          obtain ⟨o, hmem, rfl⟩ := List.mem_map.mp ht
          exact ⟨hi o hmem, (Shape.outputShape_eq_ok hshape).1 _ (List.mem_map_of_mem hmem)⟩
        rw [Op.outcome_ufuncOut (s := shape) ?_ (by simpa using hne)
          (by rw [map_shape_tensor, map_shape_tensor]; exact hshape)]
        · dsimp only
          rw [Exec.bind_apply, Exec.get_apply]
          dsimp only
          rw [Exec.bind_apply, Exec.lift_apply, hrows]
          dsimp only
          rw [Exec.bind_apply, Exec.set_apply]
          dsimp only
          rw [Exec.pure_apply, overwriteAll_eq, zip_zip_map]
          · rfl
          · rintro ⟨o, col⟩ hp a rfl
            obtain ⟨hmem, hcol⟩ := List.of_mem_zip hp
            obtain ⟨hstored, hsized⟩ := ho _ hmem
            refine ⟨hstored a rfl, ?_⟩
            have hsh := (Shape.outputShape_eq_ok hshape).2 a.shape
              (List.mem_map.mpr ⟨.array a, hmem, rfl⟩)
            rw [length_of_mem_columns hcol, List.length_map, Shape.length_indices, ← hsh]
            exact hsized
        · intro t ht
          obtain ⟨o, hmem, rfl⟩ := List.mem_map.mp ht
          exact hi o hmem

theorem reduce_of_error {op : Reduction} {value : Operand} {axis : Option Nat} {s : Store}
    {e : Error} (h : (Op.reduce op axis).outcome [value.tensor s] [] = .error e) :
    (do return .array (← reduce op value axis) : Exec Store Operand) s = (.error e, s) := by
  rw [Exec.bind_apply, reduce, Exec.bind_apply, Exec.get_apply]
  dsimp only
  rw [Exec.bind_apply, Exec.lift_apply]
  have h : (op.reduceElems (value.elems s) value.shape value.dtype axis >>= _) = .error e := h
  rcases hr : op.reduceElems (value.elems s) value.shape value.dtype axis with e' | out
  · rw [hr] at h
    cases h
    rfl
  · rw [hr] at h
    cases h

theorem reduce_of_ok {op : Reduction} {value : Operand} {axis : Option Nat} {s : Store}
    {outs : List Tensor} (h : (Op.reduce op axis).outcome [value.tensor s] [] = .ok outs) :
    ∃ t, outs = [t] ∧
      (do return .array (← reduce op value axis) : Exec Store Operand) s = place false t s := by
  simp only [Op.outcome] at h
  obtain ⟨out, hr, h⟩ := except_bind_eq_ok.mp h
  cases h
  refine ⟨_, rfl, ?_⟩
  rw [Exec.bind_apply, reduce, Exec.bind_apply, Exec.get_apply]
  dsimp only
  rw [Exec.bind_apply, Exec.lift_apply,
    show op.reduceElems (value.elems s) value.shape value.dtype axis = _ from hr]
  rfl

/-- A conversion of a value that fills its shape never fails. -/
theorem astype_eq {value : Operand} {s : Store} (hv : (value.tensor s).Sized) (d : DType) :
    ∃ t, (Op.cast d).outcome [value.tensor s] [] = .ok [t] ∧
      astype value d s = place value.isScalar t s := by
  refine ⟨_, rfl, ?_⟩
  cases value with
  | scalar c =>
    show (Except.ok (Operand.scalar (c.astype d)), s) =
      (.ok (.scalar (Scalar.ofElem d (c.value.cast d))), s)
    rw [Scalar.ofElem, Elem.cast_cast]
    rfl
  | array a =>
    have hlen : (a.elems s).length = a.shape.count := hv
    rw [astype, Exec.bind_apply, NDArray.astype, Exec.bind_apply, Exec.get_apply]
    dsimp only
    rw [NDArray.ofElems, if_pos hlen]
    rfl

theorem assign_eq (a : NDArray) (source : Operand) (region : Region) (s : Store) :
    assign (.array a) source region s =
      match (Op.assign region).outcome [source.tensor s] [(Operand.array a).tensor s] with
      | .error e => (.error e, s)
      | .ok news => (.ok (), writeAll ([.array a].zip news) s) := by
  have ht : (Operand.array a).tensor s = ⟨a.dtype, a.shape, a.elems s⟩ := rfl
  rw [ht]
  simp only [assign, Op.outcome, assigned, Operand.tensor, Exec.bind_apply, Exec.lift_apply,
    Exec.get_apply, Exec.set_apply]
  rcases region.checkSource source.shape a.shape with e | inner
  · rfl
  · simp only [except_bind_ok]
    rcases inner.indices.mapM fun index => (do
        let e ← fetch (source.elems s) source.shape index
        return e.cast a.dtype : Except Error Elem) with e | values
    · rfl
    · simp only [except_bind_ok]
      rcases splice (a.elems s) _ values with e | written
      · rfl
      · rfl

end Eager

end ArrayFusion
