/-
ArrayFusion/Proofs/Simulation.lean

Recording a body and running it op at a time go hand in hand.

Design.  Every variable of the recorder stands for a value of the real run,
and the real run keeps them in the same order, so a world is the list of real
values.  The snapshot of the tape, taken on the contents of the arguments as
they were at the start, holds for each variable what its value holds now
(`Tracks`).  A recorded step is matched by one effect on the store: new
values (`Tracks.produce`) or writes into old ones (`Tracks.update`).

Main result: recording and evaluation op at a time agree, in the sense of
`Lockstep`, on all operations (`simulates`), hence on all bodies.
-/
import ArrayFusion.Proofs.Eager
import ArrayFusion.Proofs.Graph.Recorder
import ArrayFusion.Proofs.Graph.Snapshot
import ArrayFusion.Proofs.Lockstep

namespace ArrayFusion

open Tensor (HasForm)

namespace Recorder

/-- Each variable has a value with the contents of the operand that it stands
for. -/
def Holds (env : List Tensor) (vars : List ValueId) (os : List Operand) (s : Store) : Prop :=
  ∀ ⦃x : Nat⦄ ⦃o : Operand⦄ ⦃v : ValueId⦄, os[x]? = some o → vars[x]? = some v →
    env[v]? = some (o.tensor s)

/-- No two operands share storage. -/
def Apart (os : List Operand) : Prop :=
  ∀ ⦃x y : Nat⦄ ⦃a b : NDArray⦄, os[x]? = some (.array a) → os[y]? = some (.array b) →
    a.loc = b.loc → x = y

/-- Two variables on one buffer are the same, and the other way round. -/
theorem Apart.loc_eq_iff {os : List Operand} (h : Apart os) {x y : Nat} {a b : NDArray}
    (hx : os[x]? = some (.array a)) (hy : os[y]? = some (.array b)) : a.loc = b.loc ↔ x = y := by
  constructor
  · exact fun heq => h hx hy heq
  · rintro rfl
    rw [hy] at hx
    cases hx
    rfl

/-- The values of a real run are those that the recorder's variables stand
for. -/
structure Tracks (inputs : List Tensor) (os : List Operand) (s : Store) (r : Recorder) : Prop where
  reached : r.Reached
  accepts : r.tape.Accepts inputs
  count : os.length = r.vars.length
  contents : ∃ env, r.tape.snapshot inputs = .ok env ∧ Holds env r.vars os s
  forms : ∀ {x : Nat} {o : Operand}, os[x]? = some o → r.formOf x = o.form
  stored : ∀ {x : Nat} {o : Operand}, os[x]? = some o → o.StoredIn s
  apart : Apart os

/-- Variables and the values they stand for. -/
def Names (os : List Operand) (xs : List Nat) (vs : List Operand) : Prop :=
  List.Forall₂ (fun (x : Nat) (o : Operand) => os[x]? = some o) xs vs

theorem accepts_of_params {t u : Tape} (h : u.params = t.params) {inputs : List Tensor}
    (ht : t.Accepts inputs) : u.Accepts inputs := by
  unfold Tape.Accepts
  rw [h]
  exact ht

section

variable {inputs : List Tensor} {os : List Operand} {s : Store} {r : Recorder} {xs : List Nat}
  {vs : List Operand}

theorem Names.lt (h : Names os xs vs) : ∀ x ∈ xs, x < os.length := by
  intro x hx
  obtain ⟨o, -, ho⟩ := forall₂_mem_left h hx
  exact (List.getElem?_eq_some_iff.mp ho).1

theorem Tracks.known (h : Tracks inputs os s r) (hn : Names os xs vs) :
    ∀ x ∈ xs, x < r.vars.length := fun x hx => h.count ▸ hn.lt x hx

theorem Tracks.map_formOf (h : Tracks inputs os s r) (hn : Names os xs vs) :
    xs.map r.formOf = vs.map Operand.form := by
  induction hn with
  | nil => rfl
  | cons hx _ ih => rw [List.map_cons, List.map_cons, h.forms hx, ih]

theorem Tracks.map_contents (h : Tracks inputs os s r) (hn : Names os xs vs) {env : List Tensor}
    (henv : Holds env r.vars os s) :
    (xs.map r.valueOf).map (env.getD · .blank) = vs.map (·.tensor s) := by
  induction hn with
  | nil => rfl
  | @cons x o _ _ hx _ ih =>
    have hlt : x < r.vars.length := h.count ▸ (List.getElem?_eq_some_iff.mp hx).1
    rw [List.map_cons, List.map_cons, List.map_cons, ih, List.getD, henv hx (getElem?_vars hlt),
      Option.getD_some]

theorem Tracks.valueOf_lt (h : Tracks inputs os s r) (hn : Names os xs vs) :
    ∀ v ∈ xs.map r.valueOf, v < r.tape.values.length :=
  map_valueOf_lt (h.known hn) h.reached.sound.2

/-- The contents of a tracked value have its form. -/
theorem Tracks.hasForm (h : Tracks inputs os s r) {x : Nat} {o : Operand} (hx : os[x]? = some o) :
    (o.tensor s).HasForm o.form := by
  obtain ⟨env, henv, hcont⟩ := h.contents
  have hlt : x < r.vars.length := h.count ▸ (List.getElem?_eq_some_iff.mp hx).1
  have hforms := h.reached.recorded.forms_snapshot h.accepts env henv
  have hf := Tape.hasForm_getD hforms (h.reached.valueOf_lt hlt)
  rw [List.getD, hcont hx (getElem?_vars hlt), Option.getD_some] at hf
  rw [← h.forms hx]
  exact hf

theorem Tracks.sized (h : Tracks inputs os s r) (hn : Names os xs vs) :
    ∀ o ∈ vs, o.StoredIn s ∧ (o.tensor s).Sized := by
  intro o ho
  obtain ⟨x, -, hx⟩ := forall₂_mem_left (List.Forall₂.flip hn) ho
  exact ⟨h.stored hx, (h.hasForm hx).sized⟩

/-- The snapshot of one more node is its outcome on the contents that the
operands have now. -/
theorem Tracks.snapshot_node (h : Tracks inputs os s r) {op : Op} {ys : List Nat}
    {ws : List Operand} {forms : List Form} (hn : Names os xs vs) (hm : Names os ys ws)
    (typed : op.Typed (vs.map Operand.form) (ws.map Operand.form) forms) {env : List Tensor}
    (henv : r.tape.snapshot inputs = .ok env)
    (hcont : Holds env r.vars os s) :
    (r.tape.node op (xs.map r.valueOf) (ys.map r.valueOf) forms).2.snapshot inputs =
      (op.outcome (vs.map (·.tensor s)) (ws.map (·.tensor s))).map (env ++ ·) := by
  have hknown : ∀ v ∈ xs.map r.valueOf ++ ys.map r.valueOf, v < r.tape.values.length := by
    intro v hv
    rcases List.mem_append.mp hv with hv | hv
    · exact h.valueOf_lt hn v hv
    · exact h.valueOf_lt hm v hv
  have htyped : op.Typed ((xs.map r.valueOf).map r.tape.formOf)
      ((ys.map r.valueOf).map r.tape.formOf) forms := by
    rw [List.map_map, List.map_map]
    show op.Typed (xs.map r.formOf) (ys.map r.formOf) forms
    rw [h.map_formOf hn, h.map_formOf hm]
    exact typed
  rw [h.reached.recorded.snapshot_node h.accepts hknown htyped, henv, except_bind_ok,
    h.map_contents hn hcont, h.map_contents hm hcont]
  rcases op.outcome (vs.map (·.tensor s)) (ws.map (·.tensor s)) with e | outs
  · rfl
  · rfl

/-- Operands that are tracked have their forms. -/
theorem Tracks.hasForms (h : Tracks inputs os s r) (hn : Names os xs vs) :
    List.Forall₂ HasForm (vs.map (·.tensor s)) (vs.map Operand.form) := by
  rw [List.forall₂_map_left_iff, List.forall₂_map_right_iff, List.forall₂_same]
  intro o ho
  obtain ⟨x, -, hx⟩ := forall₂_mem_left (List.Forall₂.flip hn) ho
  exact h.hasForm hx

/-! ### New values -/

/-- A node that fails on the contents fails in the snapshot. -/
theorem Tracks.produce_error (h : Tracks inputs os s r) {op : Op} {forms : List Form}
    (hn : Names os xs vs) (typed : op.Typed (vs.map Operand.form) [] forms) {e : Error}
    (he : op.outcome (vs.map (·.tensor s)) [] = .error e) :
    (r.produce op xs forms).tape.snapshot inputs = .error e := by
  obtain ⟨env, henv, hcont⟩ := h.contents
  have hstep := h.snapshot_node hn (.nil : Names os [] []) typed henv hcont
  simp only [List.map_nil, he] at hstep
  exact hstep

/-- An operand of two lists is one of the first, or one of the second with
its position there. -/
theorem getElem?_append_cases {us : List Operand} {x : Nat} {o : Operand}
    (h : (os ++ us)[x]? = some o) :
    os[x]? = some o ∨ ∃ k, us[k]? = some o ∧ x = os.length + k := by
  rcases Nat.lt_or_ge x os.length with hlt | hge
  · left
    rwa [List.getElem?_append_left hlt] at h
  · right
    rw [List.getElem?_append_right hge] at h
    exact ⟨x - os.length, h, (Nat.add_sub_cancel' hge).symm⟩

/-- New buffers are apart from old ones. -/
theorem Apart.append (h : Apart os) (hs : ∀ {x : Nat} {o : Operand}, os[x]? = some o → o.StoredIn s)
    {outs : List Tensor} {kind : ArgKind} {us : List Operand} {s' : Store}
    (hp : Eager.Placed s outs kind us s') : Apart (os ++ us) := by
  intro x y a b hx hy heq
  rcases getElem?_append_cases hx with hx | ⟨j, hj, rfl⟩
  · rcases getElem?_append_cases hy with hy | ⟨k, hk, rfl⟩
    · exact h hx hy heq
    · have h1 := hs hx a rfl
      have h2 := (hp.fresh hk).1
      omega
  · rcases getElem?_append_cases hy with hy | ⟨k, hk, rfl⟩
    · have h1 := hs hy b rfl
      have h2 := (hp.fresh hj).1
      omega
    · rw [hp.apart hj hk heq]

/-- More values behind the old ones are tracked by new variables. -/
theorem Tracks.append (h : Tracks inputs os s r) {r' : Recorder} (hr : r'.Reached)
    (hacc : r'.tape.Accepts inputs) (hext : r.tape.Extends r'.tape) {env : List Tensor}
    (henv : r.tape.snapshot inputs = .ok env) (hcont : Holds env r.vars os s)
    {us : List Operand} {s' : Store}
    (hstep : r'.tape.snapshot inputs = .ok (env ++ us.map (·.tensor s')))
    (hvars : r'.vars = r.vars ++ r.tape.nextIds us.length)
    (hforms : ∀ {k : Nat} {o : Operand}, us[k]? = some o →
      r'.tape.formOf (r.tape.values.length + k) = o.form)
    (hbuf : s.buffers <+: s'.buffers) (hstored : ∀ o ∈ us, o.StoredIn s')
    (hapart : Apart (os ++ us)) : Tracks inputs (os ++ us) s' r' := by
  have hl := Tape.length_snapshot henv
  have hold : ∀ {x : Nat} {o : Operand}, os[x]? = some o → x < r.vars.length ∧
      r'.vars[x]? = some (r.valueOf x) := by
    intro x o hx
    have hlt : x < r.vars.length := h.count ▸ (List.getElem?_eq_some_iff.mp hx).1
    exact ⟨hlt, by rw [hvars, List.getElem?_append_left hlt, getElem?_vars hlt]⟩
  have hnew : ∀ {k : Nat} {o : Operand}, us[k]? = some o →
      r'.vars[os.length + k]? = some (r.tape.values.length + k) := by
    intro k o hk
    rw [hvars, h.count, List.getElem?_append_right (Nat.le_add_right _ _), Nat.add_sub_cancel_left,
      Tape.getElem?_nextIds (List.getElem?_eq_some_iff.mp hk).1]
  constructor
  case reached => exact hr
  case accepts => exact hacc
  case count => rw [hvars, List.length_append, List.length_append, h.count, Tape.length_nextIds]
  case contents =>
    refine ⟨_, hstep, ?_⟩
    intro x o v hx hv
    rcases getElem?_append_cases hx with hx | ⟨k, hk, rfl⟩
    · obtain ⟨hlt, hval⟩ := hold hx
      have hget := hcont hx (getElem?_vars hlt)
      obtain rfl : r.valueOf x = v := Option.some.inj (hval.symm.trans hv)
      rw [List.getElem?_append_left (List.getElem?_eq_some_iff.mp hget).1, hget,
        Operand.tensor_of_isPrefix (h.stored hx) hbuf]
    · rw [hnew hk] at hv
      cases hv
      rw [List.getElem?_append_right (by omega), hl, Nat.add_sub_cancel_left, List.getElem?_map, hk,
        Option.map_some]
  case forms =>
    intro x o hx
    rcases getElem?_append_cases hx with hx | ⟨k, hk, rfl⟩
    · obtain ⟨hlt, hval⟩ := hold hx
      rw [formOf_of_getElem? h.reached hext hlt hval, h.forms hx]
    · rw [formOf, valueOf_of_getElem? (hnew hk), hforms hk]
  case stored =>
    intro x o hx a ha
    rcases getElem?_append_cases hx with hx | ⟨k, hk, rfl⟩
    · exact Nat.lt_of_lt_of_le (h.stored hx a ha) hbuf.length_le
    · exact hstored o (List.mem_of_getElem? hk) a ha
  case apart => exact hapart

/-- New values that hold what a node yields are tracked by its outputs. -/
theorem Tracks.produce (h : Tracks inputs os s r) {op : Op} {forms : List Form}
    (hn : Names os xs vs) (typed : op.Typed (vs.map Operand.form) [] forms) {outs : List Tensor}
    (ho : op.outcome (vs.map (·.tensor s)) [] = .ok outs) {kind : ArgKind}
    (hkind : ∀ f ∈ forms, f.kind = kind) {us : List Operand} {s' : Store}
    (hp : Eager.Placed s outs kind us s') :
    Tracks inputs (os ++ us) s' (r.produce op xs forms) := by
  obtain ⟨env, henv, hcont⟩ := h.contents
  have hstep := h.snapshot_node hn (.nil : Names os [] []) typed henv hcont
  simp only [List.map_nil, ho] at hstep
  have hforms := typed.forms_outcome (h.hasForms hn) .nil ho
  have hlen : us.length = forms.length := by
    rw [← hforms.length_eq, ← hp.contents, List.length_map]
  have htyped : op.Typed (xs.map r.formOf) [] forms := by
    rw [h.map_formOf hn]
    exact typed
  have hg := grows_produce h.reached op xs forms
  refine h.append (.produce h.reached (h.known hn) htyped) (accepts_of_params hg.params h.accepts)
    hg.tape henv hcont (by rw [hp.contents]; exact hstep) (by rw [hlen]; rfl) ?_ hp.grows
    hp.stored (h.apart.append h.stored hp)
  intro k o hk
  have ht : outs[k]? = some (o.tensor s') := by
    rw [← hp.contents, List.getElem?_map, hk, Option.map_some]
  obtain ⟨⟨d, n, kd⟩, hform, hf⟩ := forall₂_getElem? hforms ht
  obtain rfl : d = o.dtype := hf.dtype.symm
  obtain rfl : n = o.ndim := hf.ndim.symm
  obtain rfl : kd = o.kind := (hkind _ (List.mem_of_getElem? hform)).trans
    (hp.kinds o (List.mem_of_getElem? hk)).symm
  exact Tape.formOf_of_getElem? (Tape.getElem?_values_node_new hform)

/-- A constant is tracked by its variable. -/
theorem Tracks.addScalar (h : Tracks inputs os s r) (c : Scalar) :
    Tracks inputs (os ++ [.scalar c]) s (r.addScalar c) := by
  obtain ⟨env, henv, hcont⟩ := h.contents
  have hstep : (r.addScalar c).tape.snapshot inputs = .ok (env ++ [Tensor.ofScalar c]) := by
    show (r.tape.constant c).2.snapshot inputs = _
    rw [h.reached.recorded.snapshot_constant, henv]
    rfl
  have hg := grows_addScalar h.reached c
  have hnone : ∀ {x : Nat} {a : NDArray}, (os ++ [.scalar c])[x]? = some (.array a) →
      os[x]? = some (.array a) := by
    intro x a hx
    rcases getElem?_concat_eq_some hx with hx | ⟨-, hx⟩
    · exact hx
    · cases hx
  refine h.append (.scalar c h.reached) (accepts_of_params hg.params h.accepts) hg.tape henv hcont
    hstep rfl ?_ (List.prefix_refl _) ?_ fun x y a b hx hy => h.apart (hnone hx) (hnone hy)
  rotate_left
  · intro o ho a ha
    rw [List.mem_singleton.mp ho] at ha
    cases ha
  intro k o hk
  cases k with
  | zero =>
    cases hk
    apply Tape.formOf_concat
    rfl
  | succ k => cases hk

/-! ### Writes -/

/-- One write: the variable gets a value that holds what was written. -/
theorem Holds.write {env : List Tensor} {vars : List ValueId}
    (hcont : Holds env vars os s) (hapart : Apart os) {y : Nat} {a : NDArray}
    (hy : os[y]? = some (.array a)) (ha : a.loc < s.buffers.length) {v : ValueId}
    {data : List Elem} (hv : env[v]? = some ⟨a.dtype, a.shape, data⟩) :
    Holds env (vars.set y v) os (s.write a.loc data) := by
  intro x o u hx hu
  by_cases hxy : y = x
  · subst hxy
    have hlt := (List.getElem?_eq_some_iff.mp hu).1
    rw [List.length_set] at hlt
    rw [List.getElem?_set_self hlt] at hu
    cases hu
    obtain rfl : o = .array a := Option.some.inj (hx.symm.trans hy)
    rw [hv]
    show some (Tensor.mk _ _ data) = some (Tensor.mk _ _ ((s.write a.loc data).read a.loc))
    rw [Store.read_write_self ha]
    rfl
  · rw [List.getElem?_set_ne hxy] at hu
    rw [hcont hx hu]
    cases o with
    | scalar c => rfl
    | array b =>
      show some (Tensor.mk _ _ (s.read b.loc)) =
        some (Tensor.mk _ _ ((s.write a.loc data).read b.loc))
      rw [Store.read_write_of_ne]
      intro heq
      exact hxy (hapart hy hx heq)

/-- All writes of a node, in order. -/
theorem Holds.writeAll {env : List Tensor} {vars : List ValueId}
    (hcont : Holds env vars os s) (hapart : Apart os)
    (steps : List ((Nat × ValueId) × Operand × Tensor))
    (hsteps : ∀ p ∈ steps, ∃ a data, p.2 = (.array a, ⟨a.dtype, a.shape, data⟩) ∧
      os[p.1.1]? = some (.array a) ∧ a.loc < s.buffers.length ∧
      env[p.1.2]? = some ⟨a.dtype, a.shape, data⟩) :
    Holds env (putAll vars (steps.map (·.1))) os (Eager.writeAll (steps.map (·.2)) s) := by
  induction steps generalizing vars s with
  | nil => exact hcont
  | cons p steps ih =>
    obtain ⟨⟨y, v⟩, o, t⟩ := p
    obtain ⟨a, data, heq, hy, ha, hv⟩ := hsteps _ List.mem_cons_self
    cases heq
    refine ih (hcont.write hapart hy ha hv) ?_
    intro q hq
    obtain ⟨b, data', hb, hby, hbl, hbv⟩ := hsteps q (List.mem_cons_of_mem _ hq)
    exact ⟨b, data', hb, hby, by rw [Store.length_write]; exact hbl, hbv⟩

/-- A failing update fails in the snapshot. -/
theorem Tracks.update_error (h : Tracks inputs os s r) {op : Op} {ys : List Nat}
    {ws : List Operand} (hn : Names os xs vs) (hm : Names os ys ws)
    (typed : op.Typed (vs.map Operand.form) (ws.map Operand.form) (ws.map Operand.form)) {e : Error}
    (he : op.outcome (vs.map (·.tensor s)) (ws.map (·.tensor s)) = .error e) :
    (r.update op xs ys).tape.snapshot inputs = .error e := by
  obtain ⟨env, henv, hcont⟩ := h.contents
  have hstep := h.snapshot_node hn hm typed henv hcont
  rw [he, ← h.map_formOf hm] at hstep
  exact hstep

/-- The writes of a node: each goes to an array that a variable stands for, and
what is written are the contents of an output. -/
theorem Tracks.writes (h : Tracks inputs os s r) {ys : List Nat} {ws : List Operand}
    (hm : Names os ys ws) (harrays : ∀ f ∈ ws.map Operand.form, f.kind = .array)
    {env news : List Tensor} (hl : env.length = r.tape.values.length)
    (hkept : List.Forall₂ Tensor.Alike news (ws.map (·.tensor s))) :
    ∀ p ∈ (ys.zip (r.tape.nextIds ys.length)).zip (ws.zip news), ∃ a data,
      p.2 = (.array a, ⟨a.dtype, a.shape, data⟩) ∧ os[p.1.1]? = some (.array a) ∧
      a.loc < s.buffers.length ∧ (env ++ news)[p.1.2]? = some ⟨a.dtype, a.shape, data⟩ := by
  intro p hp
  obtain ⟨k, hk⟩ := List.getElem?_of_mem hp
  obtain ⟨h1, h2⟩ := List.getElem?_zip_eq_some.mp hk
  obtain ⟨hy, hid⟩ := List.getElem?_zip_eq_some.mp h1
  obtain ⟨hw, hnew⟩ := List.getElem?_zip_eq_some.mp h2
  obtain ⟨o, how, hos⟩ := forall₂_getElem? hm hy
  obtain rfl : o = p.2.1 := Option.some.inj (how.symm.trans hw)
  obtain ⟨old, hold, hdt, hsh⟩ := forall₂_getElem? hkept hnew
  rw [List.getElem?_map, hw, Option.map_some, Option.some.injEq] at hold
  subst hold
  have harr := harrays _ (List.mem_map_of_mem (List.mem_of_getElem? hw))
  obtain ⟨⟨y, v⟩, o, ⟨d, sh, data⟩⟩ := p
  cases o with
  | scalar c => cases harr
  | array a =>
    obtain rfl : d = a.dtype := hdt
    obtain rfl : sh = a.shape := hsh
    refine ⟨a, data, rfl, hos, h.stored hos a rfl, ?_⟩
    obtain ⟨-, rfl⟩ := Tape.getElem?_nextIds_eq_some.mp hid
    dsimp only
    rw [List.getElem?_append_right (by omega), hl, Nat.add_sub_cancel_left]
    exact hnew

/-- Arrays into which a node's outcome was written are tracked by its
outputs. -/
theorem Tracks.update (h : Tracks inputs os s r) {op : Op} {ys : List Nat} {ws : List Operand}
    (hn : Names os xs vs) (hm : Names os ys ws) (hne : ws ≠ [])
    (typed : op.Typed (vs.map Operand.form) (ws.map Operand.form) (ws.map Operand.form))
    {news : List Tensor}
    (ho : op.outcome (vs.map (·.tensor s)) (ws.map (·.tensor s)) = .ok news) :
    Tracks inputs os (Eager.writeAll (ws.zip news) s) (r.update op xs ys) := by
  obtain ⟨env, henv, hcont⟩ := h.contents
  have hstep := h.snapshot_node hn hm typed henv hcont
  rw [ho, ← h.map_formOf hm] at hstep
  have hg := grows_update h.reached op xs ys
  have hkept := typed.update_outcome (by simpa using hne) (h.hasForms hn) (h.hasForms hm) ho
  have hlen : news.length = ws.length := by simpa using hkept.length_eq
  have hys : ys.length = ws.length := hm.length_eq
  have htyped : op.Typed (xs.map r.formOf) (ys.map r.formOf) (ys.map r.formOf) := by
    rw [h.map_formOf hn, h.map_formOf hm]
    exact typed
  have hknown : ∀ x ∈ xs ++ ys, x < r.vars.length := by
    intro x hx
    rcases List.mem_append.mp hx with hx | hx
    · exact h.known hn x hx
    · exact h.known hm x hx
  constructor
  case reached => exact .update h.reached hknown htyped
  case accepts => exact accepts_of_params hg.params h.accepts
  case count => rw [length_vars_update, h.count]
  case contents =>
    refine ⟨env ++ news, hstep, ?_⟩
    have hold : Holds (env ++ news) r.vars os s := by
      intro x o v hx hv
      exact getElem?_of_isPrefix (List.prefix_append _ _) (hcont hx hv)
    have hall := hold.writeAll h.apart _
      (h.writes hm typed.arrays (Tape.length_snapshot henv) hkept)
    rw [List.map_fst_zip (by simp; omega), List.map_snd_zip (by simp; omega)] at hall
    exact hall
  case forms =>
    intro x o hx
    rw [hg.forms _ (h.count ▸ (List.getElem?_eq_some_iff.mp hx).1), h.forms hx]
  case stored =>
    intro x o hx a ha
    rw [Eager.length_writeAll]
    exact h.stored hx a ha
  case apart => exact h.apart

end

end Recorder

/-! ### The operations agree -/

open Recorder (Tracks Names)

/-- Recording, and evaluation op at a time on the given contents of the
arguments.  A world lists the real values that variables stand for. -/
def lockstep (inputs : List Tensor) : Lockstep (List Operand) Store Operand Recorder Handle where
  le os os' := os <+: os'
  rel := Tracks inputs
  val os o h := os[h.var]? = some o ∧ h.toForm = o.form
  lost r e := r.tape.snapshot inputs = .error e

section

variable {inputs : List Tensor} {os : List Operand} {s : Store} {r : Recorder}
  {vs : List Operand} {hs : List Handle}

theorem names_of_val (h : List.Forall₂ ((lockstep inputs).val os) vs hs) :
    Names os (hs.map Handle.var) vs := by
  induction h with
  | nil => exact .nil
  | cons hv _ ih => exact .cons hv.1 ih

theorem forms_of_val (h : List.Forall₂ ((lockstep inputs).val os) vs hs) :
    hs.map Handle.toForm = vs.map Operand.form := by
  induction h with
  | nil => rfl
  | cons hv _ ih => rw [List.map_cons, List.map_cons, hv.2, ih]

theorem operandTypes_of_val (h : List.Forall₂ ((lockstep inputs).val os) vs hs) :
    hs.map Recorder.operandType = vs.map Operand.type := by
  rw [← Operand.map_operandType_form, ← forms_of_val h, List.map_map]
  rfl

theorem valid_of_val (h : Tracks inputs os s r) {o : Operand} {x : Handle}
    (hx : (lockstep inputs).val os o x) : r.Valid x :=
  ⟨h.count ▸ (List.getElem?_eq_some_iff.mp hx.1).1, (h.forms hx.1).trans hx.2.symm⟩

theorem valid_of_vals (h : Tracks inputs os s r)
    (hv : List.Forall₂ ((lockstep inputs).val os) vs hs) : ∀ x ∈ hs, r.Valid x := by
  intro x hx
  obtain ⟨o, -, ho⟩ := forall₂_mem_left hv.flip hx
  exact valid_of_val h ho

/-- Handles on new variables stand for the new values. -/
theorem val_handles (hcount : os.length = r.vars.length) {forms : List Form} {us : List Operand}
    (hlen : us.length = forms.length)
    (hforms : ∀ {k : Nat} {o : Operand} {f : Form}, us[k]? = some o → forms[k]? = some f →
      o.form = f) :
    List.Forall₂ ((lockstep inputs).val (os ++ us)) us (Recorder.handles r.vars.length forms) := by
  apply forall₂_of_getElem?
  · rw [hlen]
    exact (List.length_mapIdx).symm
  · intro k o x ho hx
    obtain ⟨f, hf, rfl⟩ := Recorder.getElem?_handles.mp hx
    refine ⟨?_, (hforms ho hf).symm⟩
    show (os ++ us)[r.vars.length + k]? = some o
    rw [← hcount, List.getElem?_append_right (Nat.le_add_right _ _), Nat.add_sub_cancel_left, ho]

/-- Placing what a node yields, and recording the node. -/
theorem place_produce (asScalar : Bool) (h : Tracks inputs os s r) {op : Op} {forms : List Form}
    (hv : List.Forall₂ ((lockstep inputs).val os) vs hs)
    (typed : op.Typed (vs.map Operand.form) [] forms)
    (hkind : ∀ f ∈ forms, f.kind = Eager.placedKind asScalar) {outs : List Tensor}
    (ho : op.outcome (vs.map (·.tensor s)) [] = .ok outs) :
    ∃ us s', outs.mapM (Eager.place asScalar) s = (.ok us, s') ∧
      Tracks inputs (os ++ us) s' (r.produce op (hs.map Handle.var) forms) ∧
      List.Forall₂ ((lockstep inputs).val (os ++ us)) us
        (Recorder.handles r.vars.length forms) := by
  have hn := names_of_val hv
  have hforms := typed.forms_outcome (h.hasForms hn) .nil ho
  obtain ⟨us, s', hus, hp⟩ := Eager.placeAll_outcome typed hkind (h.hasForms hn) ho s
  refine ⟨us, s', hus, h.produce hn typed ho hkind hp, val_handles h.count ?_ ?_⟩
  · rw [← hforms.length_eq, ← hp.contents, List.length_map]
  · intro k o f hk hf
    have ht : outs[k]? = some (o.tensor s') := by
      rw [← hp.contents, List.getElem?_map, hk, Option.map_some]
    obtain ⟨f', hf', hform⟩ := forall₂_getElem? hforms ht
    obtain rfl : f' = f := Option.some.inj (hf'.symm.trans hf)
    have hkd := (hp.kinds o (List.mem_of_getElem? hk)).trans
      (hkind f' (List.mem_of_getElem? hf)).symm
    obtain ⟨d, n, kd⟩ := f'
    obtain rfl : o.dtype = d := hform.dtype
    obtain rfl : o.ndim = n := hform.ndim
    obtain rfl : o.kind = kd := hkd
    rfl

/-- The same for an operation with one result. -/
theorem place_produce_one (asScalar : Bool) (h : Tracks inputs os s r) {op : Op} {form : Form}
    {v : Operand} {x : Handle} (hv : (lockstep inputs).val os v x)
    (typed : op.Typed [v.form] [] [form]) (hkind : form.kind = Eager.placedKind asScalar) {t : Tensor}
    (ho : op.outcome [v.tensor s] [] = .ok [t]) :
    ∃ u s', Eager.place asScalar t s = (.ok u, s') ∧
      Tracks inputs (os ++ [u]) s' (r.produce op [x.var] [form]) ∧
      (lockstep inputs).val (os ++ [u]) u ⟨form, r.vars.length⟩ := by
  obtain ⟨us, s', hus, htracks, hvals⟩ := place_produce asScalar h (.cons hv .nil) typed
    (by simpa using hkind) ho
  rw [List.mapM_cons] at hus
  obtain ⟨u, s₁, hu, hrest⟩ := Exec.bind_eq_ok.mp hus
  cases hrest
  cases hvals with
  | cons hval _ => exact ⟨u, s', hu, htracks, hval⟩

/-! Each operation. -/

theorem agrees_scalar (h : Tracks inputs os s r) (tag : String) (c : Scalar) :
    (lockstep inputs).Agrees os (lockstep inputs).val ((Eager.ops tag).scalar c s)
      ((Recorder.ops tag).scalar c r) := by
  refine .done (List.prefix_append os [.scalar c]) (h.addScalar c) ⟨?_, rfl⟩
  show (os ++ [_])[r.vars.length]? = _
  rw [← h.count]
  exact getElem?_concat_length _ _

theorem agrees_ufunc (h : Tracks inputs os s r) (f : Ufunc)
    (hv : List.Forall₂ ((lockstep inputs).val os) vs hs) :
    (lockstep inputs).Agrees os (fun w => List.Forall₂ ((lockstep inputs).val w))
      (Eager.ufunc f vs s) (Recorder.ufunc f hs r) := by
  have heager := Eager.ufunc_eq f vs s
  have hrec := Recorder.ufunc_eq f hs r
  rw [operandTypes_of_val hv] at hrec
  rcases hres : f.resolve (vs.map Operand.type) with e | loop
  · rw [hres] at heager hrec
    rw [heager, hrec]
    exact .failed (List.prefix_refl os) h
  · rw [hres] at heager hrec
    have htyped : (Op.ufunc f loop).Typed (vs.map Operand.form) []
        (loop.outputs.map fun d => ⟨d, Recorder.maxNdim hs, Recorder.commonKind hs⟩) := by
      rw [Recorder.maxNdim_eq, Recorder.commonKind_eq, forms_of_val hv]
      exact .ufunc (by rw [Operand.map_operandType_form]; exact hres)
    have hkind : ∀ form ∈ loop.outputs.map fun d =>
        (⟨d, Recorder.maxNdim hs, Recorder.commonKind hs⟩ : Form),
        form.kind = Eager.placedKind (vs.all Operand.isScalar) := by
      intro form hform
      obtain ⟨d, -, rfl⟩ := List.mem_map.mp hform
      show Recorder.commonKind hs = _
      rw [Recorder.commonKind_eq, forms_of_val hv, Form.commonKind, Operand.all_isScalar]
      rfl
    rcases ho : (Op.ufunc f loop).outcome (vs.map (·.tensor s)) [] with e | outs
    · simp only [ho] at heager
      rw [heager, hrec]
      exact .lost (h.produce_error (names_of_val hv) htyped ho)
    · simp only [ho] at heager
      obtain ⟨us, s', hus, htracks, hvals⟩ := place_produce _ h hv htyped hkind ho
      rw [heager, hrec, hus]
      exact .done (List.prefix_append os us) htracks hvals

theorem outTypes_of_val (h : List.Forall₂ ((lockstep inputs).val os) vs hs) :
    (hs.map fun o => if o.kind = .array then some o.dtype else none) =
      vs.map fun o => o.array?.map (·.dtype) := by
  induction h with
  | nil => rfl
  | @cons o x _ _ hv _ ih =>
    rw [List.map_cons, List.map_cons, ih, congrArg Form.kind hv.2, congrArg Form.dtype hv.2]
    cases o <;> rfl

theorem agrees_ufuncOut (h : Tracks inputs os s r) (f : Ufunc) {us : List Operand}
    {ys : List Handle} (hv : List.Forall₂ ((lockstep inputs).val os) vs hs)
    (hu : List.Forall₂ ((lockstep inputs).val os) us ys) :
    (lockstep inputs).Agrees os (fun w => List.Forall₂ ((lockstep inputs).val w))
      (Eager.ufuncOut f vs us s) (Recorder.ufuncOut f hs ys r) := by
  have hn := names_of_val hv
  have hm := names_of_val hu
  have heager := Eager.ufuncOut_eq f (fun o ho => (h.sized hn o ho).2) (h.sized hm)
  have hrec := Recorder.ufuncOut_eq f hs (valid_of_vals h hu)
  rw [operandTypes_of_val hv] at hrec
  rcases hres : f.resolve (vs.map Operand.type) with e | loop
  · rw [hres] at heager hrec
    rw [heager, hrec]
    exact .failed (List.prefix_refl os) h
  · rw [hres] at heager hrec
    simp only [outTypes_of_val hu] at heager hrec
    rcases hout : f.checkOutputs loop (us.map fun o => o.array?.map (·.dtype)) with e | u
    · simp only [hout] at heager hrec
      rw [heager, hrec]
      exact .failed (List.prefix_refl os) h
    · simp only [hout] at heager hrec
      obtain ⟨hne, htyped⟩ := Eager.typed_of_checkOutputs hres hout
      rcases ho : (Op.ufunc f loop).outcome (vs.map (·.tensor s)) (us.map (·.tensor s)) with
        e | news
      · simp only [ho] at heager
        rw [heager, hrec]
        exact .lost (h.update_error hn hm htyped ho)
      · simp only [ho] at heager
        rw [heager, hrec]
        exact .done (List.prefix_refl os) (h.update hn hm hne htyped ho) hu

theorem agrees_reduce (h : Tracks inputs os s r) (tag : String) (op : Reduction)
    (axis : Option Nat) {v : Operand} {x : Handle} (hv : (lockstep inputs).val os v x) :
    (lockstep inputs).Agrees os (lockstep inputs).val ((Eager.ops tag).reduce op v axis s)
      (Recorder.reduce op x axis r) := by
  have hrec := Recorder.reduce_eq op x axis r
  rw [congrArg Form.ndim hv.2, congrArg Form.dtype hv.2] at hrec
  rcases hnd : Recorder.reducedNdim v.ndim axis with e | ndim
  · have ho : (Op.reduce op axis).outcome [v.tensor s] [] = .error e :=
      Op.outcome_reduce_error hnd
    simp only [show v.form.ndim = v.ndim from rfl, hnd] at hrec
    rw [show (Eager.ops tag).reduce op v axis s = _ from Eager.reduce_of_error ho, hrec]
    exact .failed (List.prefix_refl os) h
  · simp only [show v.form.ndim = v.ndim from rfl, hnd] at hrec
    have htyped : (Op.reduce op axis).Typed [v.form] []
        [⟨op.outputDType v.form.dtype, ndim, .array⟩] := .reduce hnd
    rcases ho : (Op.reduce op axis).outcome [v.tensor s] [] with e | outs
    · rw [show (Eager.ops tag).reduce op v axis s = _ from Eager.reduce_of_error ho, hrec]
      exact .lost (h.produce_error (.cons hv.1 .nil : Names os [x.var] [v]) htyped ho)
    · obtain ⟨t, rfl, heager⟩ := Eager.reduce_of_ok ho
      obtain ⟨u, s', hu, htracks, hval⟩ := place_produce_one false h hv htyped rfl ho
      rw [show (Eager.ops tag).reduce op v axis s = _ from heager, hu, hrec]
      exact .done (List.prefix_append os [u]) htracks hval

theorem agrees_astype (h : Tracks inputs os s r) (d : DType) {v : Operand} {x : Handle}
    (hv : (lockstep inputs).val os v x) :
    (lockstep inputs).Agrees os (lockstep inputs).val (Eager.astype v d s)
      (Recorder.astype x d r) := by
  have hrec := Recorder.astype_eq x d r
  rw [congrArg Form.ndim hv.2, congrArg Form.kind hv.2] at hrec
  have htyped : (Op.cast d).Typed [v.form] [] [⟨d, v.form.ndim, v.form.kind⟩] := .cast
  have hkind : v.form.kind = Eager.placedKind v.isScalar := by
    cases v <;> rfl
  obtain ⟨t, ho, heager⟩ := Eager.astype_eq (h.hasForm hv.1).sized d
  obtain ⟨u, s', hu, htracks, hval⟩ := place_produce_one v.isScalar h hv htyped hkind ho
  rw [heager, hu, hrec]
  exact .done (List.prefix_append os [u]) htracks hval

/-- What the static check of a target finds, evaluation finds too. -/
theorem assign_of_checkTarget {v : Operand} {x : Handle} (hv : x.toForm = v.form) (u : Operand)
    {region : Region} {e : Error} (h : Recorder.checkTarget x region = .error e) :
    Eager.assign v u region s = (.error e, s) := by
  unfold Recorder.checkTarget at h
  rw [congrArg Form.kind hv, congrArg Form.ndim hv] at h
  cases v with
  | scalar c =>
    cases h
    rfl
  | array a =>
    rw [if_pos (show (Operand.array a).form.kind = .array from rfl)] at h
    split at h
    · next start stop hnd =>
      cases h
      have hdims : a.shape.dims = [] := List.eq_nil_of_length_eq_zero hnd
      have hin : (Region.rows start stop).shapeIn a.shape = .error (.shape .tooManyIndices) := by
        unfold Region.shapeIn
        rw [hdims]
      rw [Eager.assign, Exec.bind_apply, Exec.lift_apply, Region.checkSource, hin]
      rfl
    · cases h

theorem agrees_assign (h : Tracks inputs os s r) (region : Region) {v u : Operand} {x y : Handle}
    (hv : (lockstep inputs).val os v x) (hu : (lockstep inputs).val os u y) :
    (lockstep inputs).Agrees os (fun _ _ _ => True) (Eager.assign v u region s)
      (Recorder.assign x y region r) := by
  have hrec := Recorder.assign_eq y region (valid_of_val h hv)
  rcases hc : Recorder.checkTarget x region with e | c
  · simp only [hc] at hrec
    rw [assign_of_checkTarget hv.2 u hc, hrec]
    exact .failed (List.prefix_refl os) h
  · simp only [hc] at hrec
    have hkind := Recorder.kind_of_checkTarget hc
    rw [congrArg Form.kind hv.2] at hkind
    have hn : Names os [y.var] [u] := .cons hu.1 .nil
    have hm : Names os [x.var] [v] := .cons hv.1 .nil
    have htyped : (Op.assign region).Typed ([u].map Operand.form) ([v].map Operand.form)
        ([v].map Operand.form) := .assign hkind
    cases v with
    | scalar c => cases hkind
    | array a =>
      have heager := Eager.assign_eq a u region s
      rcases ho : (Op.assign region).outcome [u.tensor s] [(Operand.array a).tensor s] with
        e | news
      · simp only [ho] at heager
        rw [heager, hrec]
        exact .lost (h.update_error hn hm htyped ho)
      · simp only [ho] at heager
        rw [heager, hrec]
        exact .done (List.prefix_refl os) (h.update hn hm (by simp) htyped ho) trivial

end

/-- Recording and evaluation op at a time agree on all operations. -/
theorem simulates (inputs : List Tensor) (tag : String) :
    (lockstep inputs).Simulates (Eager.ops tag) (Recorder.ops tag) Recorder.Reached Recorder.Grows
      Recorder.Valid where
  refl := List.prefix_refl
  trans := List.IsPrefix.trans
  mono hle hv := ⟨getElem?_of_isPrefix hle hv.1, hv.2⟩
  keeps := Recorder.preserves_reached tag
  inv h := h.reached
  valid h hv := valid_of_val h hv
  stays hI hM hl := hI.recorded.sweep_error_of_extends hM.tape hl
  tag := rfl
  dtype hv := (congrArg Form.dtype hv.2).symm
  ndim hv := (congrArg Form.ndim hv.2).symm
  kind hv := (congrArg Form.kind hv.2).symm
  scalar c h := agrees_scalar h tag c
  ufunc f h hv := agrees_ufunc h f hv
  ufuncOut f h hv hu := agrees_ufuncOut h f hv hu
  reduce op axis h hv := agrees_reduce h tag op axis hv
  astype d h hv := agrees_astype h d hv
  assign region h hv hu := agrees_assign h region hv hu
  truth _ _ := .traced rfl
  item _ _ := .traced rfl

end ArrayFusion
