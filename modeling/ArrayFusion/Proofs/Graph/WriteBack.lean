/-
ArrayFusion/Proofs/Graph/WriteBack.lean

Which parameters a recording writes back, from which values, and where the
results are taken from.

Design.  A log is kept beside the calls of a session, and the recorder knows
nothing of it: what each declaration returned, and one write for each target
of each call that succeeded, with the variable, the value that it had and the
place in the next node where its new value must be.  The log does not look at
what the call recorded.  A call declares a parameter, makes new variables, or
writes its targets (`Call.effect`), and each of these keeps the log in
agreement with the recorder (`Log.Agrees`): every write has an output there,
a variable holds the output of the last write to it, and a variable that was
never written holds what it started with.

Main result: write-backs, owners and return slots are what the log says
(`Session.finish_tracks`).
-/
import ArrayFusion.Proofs.Graph.History

namespace ArrayFusion

/-! ### The last entry for a position -/

section

variable {α : Type}

/-- The last of the entries for a position. -/
def lastAt (entries : List (Nat × α)) (k : Nat) : Option α :=
  (entries.filter (·.1 == k)).getLast?.map (·.2)

theorem lastAt_append (xs ys : List (Nat × α)) (k : Nat) :
    lastAt (xs ++ ys) k = (lastAt ys k).or (lastAt xs k) := by
  rw [lastAt, List.filter_append, List.getLast?_append, Option.map_or]
  rfl

theorem lastAt_cons (p : Nat × α) (entries : List (Nat × α)) (k : Nat) :
    lastAt (p :: entries) k = (lastAt entries k).or (if p.1 = k then some p.2 else none) := by
  rw [← List.singleton_append, lastAt_append]
  congr 1
  by_cases h : p.1 = k
  · simp [lastAt, h]
  · simp [lastAt, h]

theorem lastAt_map {β : Type} (f : α → β) (entries : List (Nat × α)) (k : Nat) :
    lastAt (entries.map fun p => (p.1, f p.2)) k = (lastAt entries k).map f := by
  rw [lastAt, lastAt, List.filter_map, List.getLast?_map, Option.map_map, Option.map_map]
  rfl

theorem lastAt_eq_none {entries : List (Nat × α)} {k : Nat} :
    lastAt entries k = none ↔ ∀ p ∈ entries, p.1 ≠ k := by
  rw [lastAt, Option.map_eq_none_iff, List.getLast?_eq_none_iff, List.filter_eq_nil_iff]
  simp

theorem mem_of_lastAt {entries : List (Nat × α)} {k : Nat} {x : α}
    (h : lastAt entries k = some x) : (k, x) ∈ entries := by
  obtain ⟨⟨j, y⟩, hlast, rfl⟩ := Option.map_eq_some_iff.mp h
  have hmem := List.mem_filter.mp (List.mem_of_getLast? hlast)
  obtain rfl : j = k := beq_iff_eq.mp hmem.2
  exact hmem.1

/-- Where entries are replaced one after the other, the last one stays. -/
theorem getElem?_putAll {xs : List α} (entries : List (Nat × α)) {k : Nat} (hk : k < xs.length) :
    (putAll xs entries)[k]? = (lastAt entries k).or xs[k]? := by
  induction entries generalizing xs with
  | nil => rfl
  | cons p entries ih =>
    rw [putAll_cons, ih (by rwa [List.length_set]), lastAt_cons, Option.or_assoc]
    congr 1
    by_cases h : p.1 = k
    · rw [if_pos h, h, List.getElem?_set_self hk, Option.some_or]
    · rw [if_neg h, List.getElem?_set_ne h, Option.none_or]

end

/-! ### Replaced values -/

namespace Tape

/-- The output of a node at a position takes the place of a value: the one that
is the target at this position. -/
def Replaces (t : Tape) (n : NodeId) (k : Nat) (u v : ValueId) : Prop :=
  ∃ node, t.nodes[n]? = some node ∧ node.targets[k]? = some u ∧ node.outputs[k]? = some v

theorem Replaces.mono {t s : Tape} (h : t.nodes <+: s.nodes) {n : NodeId} {k : Nat}
    {u v : ValueId} (hr : t.Replaces n k u v) : s.Replaces n k u v := by
  obtain ⟨node, hn, hu, hv⟩ := hr
  exact ⟨node, getElem?_of_isPrefix h hn, hu, hv⟩

theorem Replaces.lt {t : Tape} {n : NodeId} {k : Nat} {u v : ValueId} (h : t.Replaces n k u v) :
    n < t.nodes.length := by
  obtain ⟨node, hn, -, -⟩ := h
  exact (List.getElem?_eq_some_iff.mp hn).1

theorem Replaces.unique {t : Tape} {n : NodeId} {k : Nat} {u v v' : ValueId}
    (h : t.Replaces n k u v) (h' : t.Replaces n k u v') : v = v' := by
  obtain ⟨node, hn, -, hv⟩ := h
  obtain ⟨node', hn', -, hv'⟩ := h'
  cases hn.symm.trans hn'
  exact Option.some.inj (hv.symm.trans hv')

/-- One more node replaces its targets by its outputs. -/
theorem replaces_node {t : Tape} {op : Op} {inputs targets : List ValueId} {forms : List Form}
    {n : NodeId} {k : Nat} {u v : ValueId} :
    (t.node op inputs targets forms).2.Replaces n k u v ↔ t.Replaces n k u v ∨
      n = t.nodes.length ∧ targets[k]? = some u ∧ (t.nextIds forms.length)[k]? = some v := by
  constructor
  · rintro ⟨node, hn, hu, hv⟩
    rcases getElem?_nodes_node hn with hn | ⟨rfl, rfl⟩
    · exact .inl ⟨node, hn, hu, hv⟩
    · exact .inr ⟨rfl, hu, hv⟩
  · rintro (h | ⟨rfl, hu, hv⟩)
    · exact h.mono (List.prefix_append _ _)
    · exact ⟨_, getElem?_concat_length _ _, hu, hv⟩

end Tape

namespace Recorder

/-! ### The log -/

/-- A write to a variable: the value that it had, and where its new value is to
be found. -/
structure Write where
  var : Nat
  old : ValueId
  node : NodeId
  slot : Nat
  deriving DecidableEq

/-- The value that a write put in the place of the old one. -/
def Write.Makes (w : Write) (t : Tape) (v : ValueId) : Prop :=
  t.Replaces w.node w.slot w.old v

/-- What happened in a session. -/
structure Log where
  /-- What each declaration returned. -/
  declared : List (Option Handle)
  /-- All writes, in order. -/
  writes : List Write
  deriving DecidableEq

namespace Call

/-- The handles that a call updates in place.  An in-place operation on a
scalar makes a new value instead. -/
def targets : Call → List Handle
  | .ufuncOut _ _ outs => outs
  | .inplace _ target _ => if target.kind = .array then [target] else []
  | .assign target _ _ => [target]
  | _ => []

theorem mem_operands {c : Call} {h : Handle} (hx : h ∈ c.targets) : h ∈ c.operands := by
  cases c with
  | ufuncOut f inputs outs => exact List.mem_append_right _ hx
  | inplace f target other =>
    rw [targets] at hx
    split at hx
    · rw [List.mem_singleton.mp hx]
      exact List.mem_cons_self
    · cases hx
  | assign target source region =>
    rw [List.mem_singleton.mp hx]
    exact List.mem_cons_self
  | _ => cases hx

/-- What a call that returned the given handles declared. -/
def declares : Call → List Handle → List (Option Handle)
  | .param _ _ _, hs => [hs.head?]
  | _, _ => []

/-- The writes of a call that succeeded: one for each target, in the node that
comes next. -/
def writes (c : Call) (r : Recorder) : List Write :=
  c.targets.zipIdx.map fun p => ⟨p.1.var, r.current p.1, r.tape.nodes.length, p.2⟩

theorem mem_writes {c : Call} {r : Recorder} {w : Write} :
    w ∈ c.writes r ↔ ∃ h, c.targets[w.slot]? = some h ∧ w.var = h.var ∧ w.old = r.current h ∧
      w.node = r.tape.nodes.length := by
  rw [writes, List.mem_map]
  constructor
  · rintro ⟨⟨h, k⟩, hmem, rfl⟩
    exact ⟨h, List.mem_zipIdx_iff_getElem?.mp hmem, rfl, rfl, rfl⟩
  · rintro ⟨h, hk, hvar, hold, hnode⟩
    refine ⟨(h, w.slot), List.mem_zipIdx_iff_getElem?.mpr hk, ?_⟩
    rw [← hvar, ← hold, ← hnode]

end Call

namespace Log

/-- The log at the start. -/
def empty : Log := ⟨[], []⟩

/-- The log after one more call.  A call that fails leaves no trace. -/
def after (tag : String) (s : Session) (log : Log) (c : Call) : Log :=
  match c.run tag s.recorder with
  | (.ok hs, _) => ⟨log.declared ++ c.declares hs, log.writes ++ c.writes s.recorder⟩
  | (.error _, _) => log

/-- The last write to a variable. -/
def lastWrite (log : Log) (x : Nat) : Option Write :=
  lastAt (log.writes.map fun w => (w.var, w)) x

theorem mem_of_lastWrite {log : Log} {x : Nat} {w : Write} (h : log.lastWrite x = some w) :
    w ∈ log.writes ∧ w.var = x := by
  obtain ⟨w', hw, heq⟩ := List.mem_map.mp (mem_of_lastAt h)
  cases heq
  exact ⟨hw, rfl⟩

theorem lastWrite_eq_none {log : Log} {x : Nat} :
    log.lastWrite x = none ↔ ∀ w ∈ log.writes, w.var ≠ x := by
  rw [lastWrite, lastAt_eq_none, List.forall_mem_map]

/-- A variable belongs to the array parameter with the given number. -/
def IsArrayParam (log : Log) (i x : Nat) : Prop :=
  ∃ h, log.declared[i]? = some (some h) ∧ h.kind = .array ∧ h.var = x

/-- The initial value of a parameter, and what a chain of writes made of
it. -/
inductive Version (log : Log) (t : Tape) (i : Nat) : ValueId → Prop
  | initial {p : Param} {v : ValueId} (declared : t.params[i]? = some p) (value : p.value = some v) :
      Version log t i v
  | write {w : Write} {v : ValueId} (logged : w ∈ log.writes) (before : Version log t i w.old)
      (made : w.Makes t v) : Version log t i v

/-- Where a returned handle is taken from. -/
def Slot (log : Log) (r : Recorder) (h : Handle) (slot : ReturnSlot) : Prop :=
  (∀ i, slot = .param i ↔ log.IsArrayParam i h.var) ∧
    ∀ v, slot = .value v ↔ (∀ i, ¬ log.IsArrayParam i h.var) ∧ r.vars[h.var]? = some v

end Log

/-- Sessions after any calls on their own handles, with their logs. -/
inductive Session.Logged (tag : String) : Session → Log → Prop
  | start : Session.Logged tag .start .empty
  | call {s : Session} {log : Log} {c : Call} (before : Session.Logged tag s log)
      (owned : s.Owns c) : Session.Logged tag (s.step tag c) (log.after tag s c)

theorem Session.Logged.history {tag : String} {s : Session} {log : Log} (h : s.Logged tag log) :
    s.History tag := by
  induction h with
  | start => exact .start
  | call _ owned ih => exact .call ih owned

/-- Every session has a log. -/
theorem Session.History.logged {tag : String} {s : Session} (h : s.History tag) :
    ∃ log, s.Logged tag log := by
  induction h with
  | start => exact ⟨_, .start⟩
  | call _ owned ih =>
    obtain ⟨log, hlog⟩ := ih
    exact ⟨_, .call hlog owned⟩

/-! ### What a call does -/

/-- The four things that a call does if it succeeds. -/
inductive Call.Effect (r : Recorder) (c : Call) (hs : List Handle) : Recorder → Prop
  | declare {kind : ArgKind} {dtype : Option DType} {ndim : Nat} {o : Option Handle} {s : Recorder}
      (call : c = .param kind dtype ndim) (result : hs = o.toList)
      (run : Recorder.param kind dtype ndim r = (.ok o, s)) : Call.Effect r c hs s
  | constant {value : Scalar} (call : c = .scalar value) : Call.Effect r c hs (r.addScalar value)
  | produce {op : Op} {inputs : List Nat} {forms : List Form} (quiet : c.declares hs = [])
      (targets : c.targets = []) : Call.Effect r c hs (r.produce op inputs forms)
  | update {op : Op} {inputs : List Nat} (quiet : c.declares hs = []) :
      Call.Effect r c hs (r.update op inputs (c.targets.map Handle.var))

theorem produced_of_ufunc {f : Ufunc} {inputs hs : List Handle} {r s : Recorder}
    (h : Recorder.ufunc f inputs r = (.ok hs, s)) :
    ∃ op forms, s = r.produce op (inputs.map Handle.var) forms := by
  rw [ufunc_eq] at h
  split at h
  · cases h
  · cases h
    exact ⟨_, _, rfl⟩

theorem updated_of_ufuncOut {f : Ufunc} {inputs outs hs : List Handle} {r s : Recorder}
    (ho : ∀ x ∈ outs, r.Valid x) (h : Recorder.ufuncOut f inputs outs r = (.ok hs, s)) :
    ∃ op, s = r.update op (inputs.map Handle.var) (outs.map Handle.var) := by
  rw [ufuncOut_eq f inputs ho] at h
  split at h
  · cases h
  · split at h
    · cases h
    · cases h
      exact ⟨_, rfl⟩

theorem inplace_array (tag : String) (f : Ufunc) {target : Handle} (other : Handle)
    (hk : target.kind = .array) :
    (ops tag).inplace f target other =
      (do let _ ← Recorder.ufuncOut f [target, other] [target]; return [target]) := by
  unfold ArrayOps.inplace
  rw [show (ops tag).kind target = .array from hk]
  rfl

theorem inplace_scalar (tag : String) (f : Ufunc) {target : Handle} (other : Handle)
    (hk : target.kind ≠ .array) :
    (ops tag).inplace f target other =
      (do let outputs ← Recorder.ufunc f [target, other]; return outputs.take 1) := by
  unfold ArrayOps.inplace
  split
  · next h => exact absurd h hk
  · rfl

theorem Call.effect {tag : String} {r s : Recorder} {c : Call} {hs : List Handle}
    (hc : ∀ h ∈ c.operands, r.Valid h) (hrun : c.run tag r = (.ok hs, s)) : c.Effect r hs s := by
  cases c with
  | param kind dtype ndim =>
    obtain ⟨o, t, hp, heq⟩ := Exec.bind_eq_ok.mp hrun
    cases heq
    exact .declare rfl rfl hp
  | scalar value =>
    obtain ⟨h, t, hp, heq⟩ := Exec.bind_eq_ok.mp hrun
    cases heq
    cases hp
    exact .constant rfl
  | ufunc f inputs =>
    obtain ⟨op, forms, rfl⟩ := produced_of_ufunc hrun
    exact .produce rfl rfl
  | ufuncOut f inputs outs =>
    have ho : ∀ x ∈ outs, r.Valid x := fun x hx => hc x (List.mem_append_right _ hx)
    obtain ⟨op, rfl⟩ := updated_of_ufuncOut ho hrun
    exact .update rfl
  | inplace f target other =>
    have ht : ∀ x ∈ [target], r.Valid x := by simpa using hc target List.mem_cons_self
    change (ops tag).inplace f target other r = _ at hrun
    by_cases hk : target.kind = .array
    · rw [inplace_array tag f other hk] at hrun
      obtain ⟨us, t, hu, heq⟩ := Exec.bind_eq_ok.mp hrun
      cases heq
      obtain ⟨op, rfl⟩ := updated_of_ufuncOut ht hu
      have htargets : (Call.inplace f target other).targets = [target] := if_pos hk
      rw [← htargets]
      exact .update rfl
    · rw [inplace_scalar tag f other hk] at hrun
      obtain ⟨us, t, hu, heq⟩ := Exec.bind_eq_ok.mp hrun
      cases heq
      obtain ⟨op, forms, rfl⟩ := produced_of_ufunc hu
      exact .produce rfl (if_neg hk)
  | reduce op value axis =>
    obtain ⟨h, t, hp, heq⟩ := Exec.bind_eq_ok.mp hrun
    cases heq
    rw [reduce_eq] at hp
    split at hp
    · cases hp
    · cases hp
      exact .produce rfl rfl
  | astype value dtype =>
    obtain ⟨h, t, hp, heq⟩ := Exec.bind_eq_ok.mp hrun
    cases heq
    rw [astype_eq] at hp
    cases hp
    exact .produce rfl rfl
  | assign target source region =>
    obtain ⟨u, t, hp, heq⟩ := Exec.bind_eq_ok.mp hrun
    cases heq
    rw [assign_eq source region (hc target List.mem_cons_self)] at hp
    split at hp
    · cases hp
    · cases hp
      exact .update rfl

/-! ### The log agrees with the recorder -/

/-- What the log says holds of the recorder. -/
structure Log.Agrees (log : Log) (r : Recorder) : Prop where
  declared : log.declared.map (Option.map Handle.var) = r.paramVars
  valid : ∀ {h : Handle}, some h ∈ log.declared → r.Valid h
  made : ∀ {w : Write}, w ∈ log.writes → ∃ v, w.Makes r.tape v
  once : log.writes.Pairwise fun w w' => ¬ (w.node = w'.node ∧ w.slot = w'.slot)
  logged : ∀ {n : NodeId} {k : Nat} {u v : ValueId}, r.tape.Replaces n k u v →
    ∃ w ∈ log.writes, w.old = u ∧ w.Makes r.tape v
  last : ∀ {x : Nat} {w : Write}, log.lastWrite x = some w →
    ∃ v, r.vars[x]? = some v ∧ w.Makes r.tape v
  first : ∀ {i x : Nat}, r.paramVars[i]? = some (some x) → log.lastWrite x = none →
    ∃ v form, r.vars[x]? = some v ∧ r.tape.values[v]? = some ⟨form, .param i⟩

namespace Log.Agrees

variable {log : Log} {r s : Recorder}

/-- Steps that write nothing: variables are added at the end. -/
theorem quiet (h : log.Agrees r) (hg : r.Grows s) (hvars : r.vars <+: s.vars)
    (hrep : ∀ {n : NodeId} {k : Nat} {u v : ValueId}, s.tape.Replaces n k u v →
      r.tape.Replaces n k u v) : log.Agrees s where
  declared := h.declared.trans hg.paramVars.symm
  valid hx := (h.valid hx).mono hg
  made hw := by
    obtain ⟨v, hv⟩ := h.made hw
    exact ⟨v, hv.mono hg.tape.nodes⟩
  once := h.once
  logged hr := by
    obtain ⟨w, hw, hold, hv⟩ := h.logged (hrep hr)
    exact ⟨w, hw, hold, hv.mono hg.tape.nodes⟩
  last hx := by
    obtain ⟨v, hv, hmakes⟩ := h.last hx
    exact ⟨v, getElem?_of_isPrefix hvars hv, hmakes.mono hg.tape.nodes⟩
  first hi hx := by
    rw [hg.paramVars] at hi
    obtain ⟨v, form, hv, hinfo⟩ := h.first hi hx
    exact ⟨v, form, getElem?_of_isPrefix hvars hv, hg.tape.value hinfo⟩

theorem addScalar (h : log.Agrees r) (hr : Reached r) (c : Scalar) :
    log.Agrees (r.addScalar c) :=
  h.quiet (grows_addScalar hr c) (List.prefix_append _ _) id

theorem produce (h : log.Agrees r) (hr : Reached r) (op : Op) (inputs : List Nat)
    (forms : List Form) : log.Agrees (r.produce op inputs forms) := by
  refine h.quiet (grows_produce hr op inputs forms) (List.prefix_append _ _) ?_
  intro n k u v
  rw [Recorder.produce, Tape.replaces_node]
  simp

/-- A declaration adds a parameter, and a variable that nothing was written
to. -/
theorem param (h : log.Agrees r) (hr : Reached r) {kind : ArgKind} {dtype : Option DType}
    {ndim : Nat} {o : Option Handle} (hp : Recorder.param kind dtype ndim r = (.ok o, s)) :
    Log.Agrees ⟨log.declared ++ [o], log.writes⟩ s := by
  have hs : s = (Recorder.param kind dtype ndim r).2 := by rw [hp]
  have hvalid : ∀ {x : Handle}, some x ∈ log.declared ++ [o] → s.Valid x := by
    intro x hx
    rcases List.mem_append.mp hx with hx | hx
    · rw [hs]
      exact Bundle.valid_param hr kind dtype ndim (h.valid hx)
    · rw [hs]
      refine Bundle.valid_of_param ?_
      rw [hp, List.mem_singleton.mp hx]
  rcases r.param_cases kind dtype ndim with ⟨hcase, -⟩ | ⟨d, -, -, hcase⟩
  · obtain ⟨rfl, rfl⟩ : none = o ∧ _ = s := by simpa using hcase.symm.trans hp
    refine ⟨?_, hvalid, h.made, h.once, h.logged, h.last, ?_⟩
    · rw [List.map_append, h.declared]
      rfl
    · intro i x hi hx
      rcases getElem?_concat_eq_some hi with hi | ⟨-, hi⟩
      · exact h.first hi hx
      · cases hi
  · obtain ⟨rfl, rfl⟩ : some _ = o ∧ _ = s := by simpa using hcase.symm.trans hp
    refine ⟨?_, hvalid, h.made, h.once, h.logged, ?_, ?_⟩
    · rw [List.map_append, h.declared]
      rfl
    · intro x w hx
      obtain ⟨v, hv, hmakes⟩ := h.last hx
      exact ⟨v, getElem?_of_isPrefix (List.prefix_append _ _) hv, hmakes⟩
    · intro i x hi hx
      rcases getElem?_concat_eq_some hi with hold | ⟨rfl, heq⟩
      · obtain ⟨v, form, hv, hinfo⟩ := h.first hold hx
        exact ⟨v, form, getElem?_of_isPrefix (List.prefix_append _ _) hv,
          getElem?_of_isPrefix (List.prefix_append _ _) hinfo⟩
      · cases heq
        rw [hr.linked.count]
        exact ⟨_, _, getElem?_concat_length _ _, getElem?_concat_length _ _⟩

/-- An update replaces exactly what its writes say. -/
theorem replaces_update {c : Call} {op : Op} {inputs : List Nat}
    (hs : s = r.update op inputs (c.targets.map Handle.var)) {n : NodeId} {k : Nat}
    {u v : ValueId} :
    s.tape.Replaces n k u v ↔ r.tape.Replaces n k u v ∨
      ∃ w ∈ c.writes r, w.node = n ∧ w.slot = k ∧ w.old = u ∧ v = r.tape.values.length + k := by
  rw [hs, Recorder.update, Tape.replaces_node, List.map_map, List.length_map, List.length_map,
    Tape.getElem?_nextIds_eq_some, List.getElem?_map, Option.map_eq_some_iff]
  apply or_congr_right
  constructor
  · rintro ⟨rfl, ⟨h, hk, rfl⟩, -, rfl⟩
    exact ⟨⟨h.var, r.current h, _, k⟩, Call.mem_writes.mpr ⟨h, hk, rfl, rfl, rfl⟩, rfl, rfl, rfl, rfl⟩
  · rintro ⟨w, hw, rfl, rfl, rfl, rfl⟩
    obtain ⟨h, hk, -, hold, hnode⟩ := Call.mem_writes.mp hw
    exact ⟨hnode, ⟨h, hk, hold.symm⟩, (List.getElem?_eq_some_iff.mp hk).1, rfl⟩

/-- The variables after an update, from its writes. -/
theorem vars_update (c : Call) (r : Recorder) (op : Op) (inputs : List Nat) :
    (r.update op inputs (c.targets.map Handle.var)).vars =
      putAll r.vars ((c.writes r).map fun w => (w.var, r.tape.values.length + w.slot)) := by
  have hids : (c.targets.map Handle.var).zip (r.tape.nextIds (c.targets.map Handle.var).length) =
      (c.writes r).map fun w => (w.var, r.tape.values.length + w.slot) := by
    rw [Call.writes, List.map_map, Tape.nextIds, List.length_map, List.zip_map,
      List.range_eq_range', ← List.zipIdx_eq_zip_range']
    rfl
  rw [Recorder.update, hids]

theorem update (h : log.Agrees r) (hr : Reached r) {c : Call} (ht : ∀ x ∈ c.targets, r.Valid x)
    (op : Op) (inputs : List Nat) (hs : s = r.update op inputs (c.targets.map Handle.var)) :
    Log.Agrees ⟨log.declared, log.writes ++ c.writes r⟩ s := by
  have hg : r.Grows s := hs ▸ grows_update hr op inputs _
  have hvars := hs ▸ vars_update c r op inputs
  have hnew : ∀ {w}, w ∈ c.writes r → w.Makes s.tape (r.tape.values.length + w.slot) :=
    fun hw => (replaces_update hs).mpr (.inr ⟨_, hw, rfl, rfl, rfl, rfl⟩)
  have hold : ∀ {w : Write} {v}, w.Makes r.tape v → w.Makes s.tape v := fun hw => hw.mono hg.tape.nodes
  have hlast : ∀ x, Log.lastWrite ⟨log.declared, log.writes ++ c.writes r⟩ x =
      (lastAt ((c.writes r).map fun w => (w.var, w)) x).or (log.lastWrite x) := by
    intro x
    rw [lastWrite, List.map_append, lastAt_append]
    rfl
  have hvar : ∀ {x}, x < r.vars.length → s.vars[x]? =
      ((lastAt ((c.writes r).map fun w => (w.var, w)) x).map fun w =>
        r.tape.values.length + w.slot).or r.vars[x]? := by
    intro x hx
    rw [hvars, getElem?_putAll _ hx, ← lastAt_map, List.map_map]
    rfl
  constructor
  case declared => exact h.declared.trans hg.paramVars.symm
  case valid => exact fun hx => (h.valid hx).mono hg
  case made =>
    intro w hw
    rcases List.mem_append.mp hw with hw | hw
    · obtain ⟨v, hv⟩ := h.made hw
      exact ⟨v, hold hv⟩
    · exact ⟨_, hnew hw⟩
  case once =>
    refine List.pairwise_append.mpr ⟨h.once, ?_, ?_⟩
    · -- the targets have different positions
      refine List.pairwise_map.mpr (List.Pairwise.imp ?_ (List.pairwise_map.mp
        ((List.zipIdx_map_snd 0 c.targets).symm ▸ List.nodup_range')))
      intro p q hne heq
      exact hne heq.2
    · -- what was written before is in nodes that exist, and the new node comes next
      intro w hw w' hw' heq
      obtain ⟨v, hv⟩ := h.made hw
      obtain ⟨-, -, -, -, hnode⟩ := Call.mem_writes.mp hw'
      exact Nat.ne_of_lt (hnode ▸ hv.lt) heq.1
  case logged =>
    intro n k u v hrep
    rcases (replaces_update hs).mp hrep with hrep | ⟨w, hw, -, rfl, rfl, rfl⟩
    · obtain ⟨w, hw, hu, hv⟩ := h.logged hrep
      exact ⟨w, List.mem_append_left _ hw, hu, hold hv⟩
    · exact ⟨w, List.mem_append_right _ hw, rfl, hnew hw⟩
  case last =>
    intro x w hx
    rw [hlast] at hx
    rcases Option.or_eq_some_iff.mp hx with hx | ⟨hnone, hx⟩
    · obtain ⟨w', hw, heq⟩ := List.mem_map.mp (mem_of_lastAt hx)
      cases heq
      obtain ⟨y, hy, hwy, -, -⟩ := Call.mem_writes.mp hw
      have hlt : w.var < r.vars.length := hwy ▸ (ht y (List.mem_of_getElem? hy)).1
      refine ⟨_, ?_, hnew hw⟩
      rw [hvar hlt, hx]
      rfl
    · obtain ⟨v, hv, hmakes⟩ := h.last hx
      refine ⟨v, ?_, hold hmakes⟩
      rw [hvar (List.getElem?_eq_some_iff.mp hv).1, hnone]
      exact hv
  case first =>
    intro i x hi hx
    rw [hg.paramVars] at hi
    rw [hlast, Option.or_eq_none_iff] at hx
    obtain ⟨v, form, hv, hinfo⟩ := h.first hi hx.2
    refine ⟨v, form, ?_, hg.tape.value hinfo⟩
    rw [hvar (List.getElem?_eq_some_iff.mp hv).1, hx.1]
    exact hv

/-- A call that succeeds keeps the log in agreement. -/
theorem call (h : log.Agrees r) (hr : Reached r) {tag : String} {c : Call} {hs : List Handle}
    (hc : ∀ x ∈ c.operands, r.Valid x) (hrun : c.run tag r = (.ok hs, s)) :
    Log.Agrees ⟨log.declared ++ c.declares hs, log.writes ++ c.writes r⟩ s := by
  have hquiet : c.targets = [] → c.writes r = [] := by
    intro hnil
    rw [Call.writes, hnil]
    rfl
  cases Call.effect hc hrun with
  | @declare kind dtype ndim o _ call result run =>
    subst call
    rw [hquiet rfl, List.append_nil, Call.declares, result]
    have ho : o.toList.head? = o := by cases o <;> rfl
    rw [ho]
    exact h.param hr run
  | constant call =>
    subst call
    rw [hquiet rfl, List.append_nil]
    show Log.Agrees ⟨log.declared ++ [], log.writes⟩ _
    rw [List.append_nil]
    exact h.addScalar hr _
  | produce quiet targets =>
    rw [hquiet targets, List.append_nil, quiet, List.append_nil]
    exact h.produce hr _ _ _
  | update quiet =>
    rw [quiet, List.append_nil]
    exact h.update hr (fun x hx => hc x (Call.mem_operands hx)) _ _ rfl

end Log.Agrees

/-- The log of every session agrees with its recorder. -/
theorem Session.Logged.agrees {tag : String} {s : Session} {log : Log} (h : s.Logged tag log) :
    log.Agrees s.recorder := by
  induction h with
  | start =>
    constructor <;>
      simp [Session.start, Log.empty, Recorder.empty, Tape.empty, Tape.Replaces, Log.lastWrite,
        lastAt]
  | @call s log c before owned ih =>
    have hsound := before.history.sound
    have hc := hsound.operands owned
    unfold Session.step Log.after
    rcases hrun : c.run tag s.recorder with ⟨e | hs, r⟩
    · have hsame := c.atomic tag hc e (by rw [hrun])
      rw [hrun] at hsame
      dsimp only at hsame ⊢
      rw [hsame]
      exact ih
    · exact ih.call hsound.1 hc hrun

/-! ### The end of the recording -/

section

variable {log : Log} {r : Recorder}

theorem Log.Agrees.isArrayParam (h : log.Agrees r) {i x : Nat} :
    log.IsArrayParam i x ↔ r.paramVars[i]? = some (some x) ∧ (r.formOf x).kind = .array := by
  rw [← h.declared, List.getElem?_map, Option.map_eq_some_iff]
  constructor
  · rintro ⟨y, hy, hk, rfl⟩
    refine ⟨⟨_, hy, rfl⟩, ?_⟩
    rw [(h.valid (List.mem_of_getElem? hy)).2]
    exact hk
  · rintro ⟨⟨o, ho, hx⟩, hk⟩
    obtain ⟨y, rfl, rfl⟩ := Option.map_eq_some_iff.mp hx
    refine ⟨y, ho, ?_, rfl⟩
    rwa [(h.valid (List.mem_of_getElem? ho)).2] at hk

/-- What is written back is what was last written to an array parameter. -/
theorem Log.Agrees.mem_writeBacks (h : log.Agrees r) (hr : Reached r) {i : Nat} {v : ValueId} :
    (i, v) ∈ r.writeBacks ↔ ∃ x w, log.IsArrayParam i x ∧ log.lastWrite x = some w ∧
      w.Makes r.tape v := by
  rw [hr.mem_writeBacks]
  constructor
  · rintro ⟨x, hi, hk, rfl, hnot⟩
    rcases hlast : log.lastWrite x with - | w
    · obtain ⟨v, form, hv, hinfo⟩ := h.first hi hlast
      rw [valueOf_of_getElem? hv] at hnot
      exact absurd hinfo (hnot form)
    · obtain ⟨v, hv, hmakes⟩ := h.last hlast
      rw [valueOf_of_getElem? hv]
      exact ⟨x, w, h.isArrayParam.mpr ⟨hi, hk⟩, hlast, hmakes⟩
  · rintro ⟨x, w, hx, hlast, hmakes⟩
    obtain ⟨hi, hk⟩ := h.isArrayParam.mp hx
    obtain ⟨v', hv', hmakes'⟩ := h.last hlast
    obtain rfl := hmakes'.unique hmakes
    refine ⟨x, hi, hk, valueOf_of_getElem? hv', ?_⟩
    intro form hinfo
    obtain ⟨node, hn, -, hv⟩ := hmakes
    obtain ⟨form', hv'⟩ := hr.recorded.source_of_output hn hv
    rw [hinfo] at hv'
    cases hv'

/-- Written back are the array parameters that some call wrote. -/
theorem Log.Agrees.exists_writeBack (h : log.Agrees r) (hr : Reached r) {i : Nat} :
    (∃ v, (i, v) ∈ r.writeBacks) ↔ ∃ w ∈ log.writes, log.IsArrayParam i w.var := by
  constructor
  · rintro ⟨v, hv⟩
    obtain ⟨x, w, hx, hlast, -⟩ := (h.mem_writeBacks hr).mp hv
    obtain ⟨hw, rfl⟩ := mem_of_lastWrite hlast
    exact ⟨w, hw, hx⟩
  · rintro ⟨w, hw, hx⟩
    rcases hlast : log.lastWrite w.var with - | w'
    · exact absurd rfl (lastWrite_eq_none.mp hlast w hw)
    · obtain ⟨v, -, hmakes⟩ := h.last hlast
      exact ⟨v, (h.mem_writeBacks hr).mpr ⟨_, w', hx, hlast, hmakes⟩⟩

theorem Log.Agrees.ownerOf_eq_some (h : log.Agrees r) (hr : Reached r) {i : Nat} {v : ValueId} :
    r.tape.ownerOf v = some i ↔ log.Version r.tape i v := by
  have hrec := hr.recorded
  constructor
  · refine hrec.ownerInduction ?_ ?_ v
    · intro v form hv
      exact .initial (hrec.param_of_source hv).1 rfl
    · intro n node k u v hn hu hv hversion
      obtain ⟨w, hw, rfl, hmakes⟩ := h.logged ⟨node, hn, hu, hv⟩
      exact .write hw hversion hmakes
  · intro hversion
    induction hversion with
    | initial hp hv =>
      obtain ⟨form, hinfo⟩ := hrec.source_of_param hp hv
      rw [hrec.ownerOf_leaf hinfo (by intro n k hsrc; cases hsrc)]
      rfl
    | @write w v hw _ hmakes ih =>
      obtain ⟨node, hn, hu, hv⟩ := hmakes
      rw [hrec.ownerOf_output hn hv, hu]
      exact ih

theorem Log.Agrees.slot (h : log.Agrees r) (hr : Reached r) {x : Handle} (hx : r.Valid x) :
    log.Slot r x (r.slotOf x) := by
  have hkind : ∀ i, log.IsArrayParam i x.var ↔
      r.paramVars[i]? = some (some x.var) ∧ x.kind = .array := by
    intro i
    rw [h.isArrayParam, hx.2]
  rcases hr.slotOf_cases hx with ⟨j, hslot, hj, hk⟩ | ⟨hslot, hnot⟩
  · rw [hslot]
    refine ⟨?_, ?_⟩
    · intro i
      rw [hkind]
      constructor
      · rintro ⟨rfl⟩
        exact ⟨hj, hk⟩
      · rintro ⟨hi, -⟩
        rw [hr.linked.inj hi hj]
    · intro v
      refine ⟨nofun, ?_⟩
      rintro ⟨hno, -⟩
      exact absurd ((hkind j).mpr ⟨hj, hk⟩) (hno j)
  · rw [hslot]
    have hno : ∀ i, ¬ log.IsArrayParam i x.var := by
      intro i hi
      exact hnot i ((hkind i).mp hi).1 ((hkind i).mp hi).2
    refine ⟨?_, ?_⟩
    · intro i
      exact ⟨nofun, fun hi => absurd hi (hno i)⟩
    · intro v
      rw [getElem?_vars hx.1]
      constructor
      · rintro ⟨rfl⟩
        exact ⟨hno, rfl⟩
      · rintro ⟨-, ⟨rfl⟩⟩
        rfl

/-- No value is written back twice. -/
theorem Reached.nodup_writeBacks (hr : Reached r) : (r.writeBacks.map (·.2)).Nodup := by
  have hindex : r.writeBacks.Pairwise fun p q => p.1 ≠ q.1 := by
    have hzip : (r.tape.params.zip r.paramVars).zipIdx.Pairwise fun a b => a.2 ≠ b.2 := by
      rw [← List.pairwise_map (f := Prod.snd) (R := (· ≠ ·)), List.zipIdx_map_snd]
      exact List.nodup_range'
    refine List.pairwise_filterMap.mpr (hzip.imp ?_)
    intro a b hne p hp q hq
    obtain ⟨v, -, rfl⟩ := Option.map_eq_some_iff.mp hp
    obtain ⟨w, -, rfl⟩ := Option.map_eq_some_iff.mp hq
    exact hne
  refine List.pairwise_map.mpr (hindex.imp_of_mem ?_)
  rintro ⟨i, v⟩ ⟨j, w⟩ hp hq hne rfl
  exact hne (hr.writeBack_inj hp hq)

/-- What is written back is not returned as a value. -/
theorem Reached.writeBack_not_returned (hr : Reached r) {name : String}
    {returned : Returned Handle} (hret : ∀ x ∈ returned.toList, r.Valid x) {i : Nat} {v : ValueId}
    (hw : (i, v) ∈ r.writeBacks) : .value v ∉ (r.finish name returned).outputs := by
  intro hmem
  obtain ⟨x, hx, hv, hnot⟩ := hr.handle_of_valueSlot hret hmem
  obtain ⟨y, hi, hk, hy, -⟩ := hr.mem_writeBacks.mp hw
  -- a value tells its variable, so the handle is one on the parameter
  obtain rfl := hr.valueOf_inj (hret x hx).1 (hr.linked.var hi).1 (hv.trans hy.symm)
  exact hnot i hi (congrArg Form.kind (hret x hx).2 ▸ hk)

end

/-- What the end of a recording makes of a log. -/
structure Log.Tracks (log : Log) (r : Recorder) (returned : List Handle) (g : Graph) : Prop where
  /-- Every target of every call that succeeded got an output of a node in the
  place of its old value. -/
  made : ∀ {w : Write}, w ∈ log.writes → ∃ v, w.Makes g.toTape v
  /-- No two of them got the same output. -/
  once : log.writes.Pairwise fun w w' => ¬ (w.node = w'.node ∧ w.slot = w'.slot)
  /-- Written back are the array parameters that some call wrote. -/
  reached : ∀ {i : Nat},
    (∃ v, (i, v) ∈ g.writeBacks) ↔ ∃ w ∈ log.writes, log.IsArrayParam i w.var
  /-- Each is written back from its last write. -/
  written : ∀ {i : Nat} {v : ValueId}, (i, v) ∈ g.writeBacks ↔
    ∃ x w, log.IsArrayParam i x ∧ log.lastWrite x = some w ∧ w.Makes g.toTape v
  /-- A parameter owns its versions. -/
  owned : ∀ {i : Nat} {v : ValueId}, g.ownerOf v = some i ↔ log.Version g.toTape i v
  /-- Results are array parameters, or current values of variables. -/
  slots : List.Forall₂ (log.Slot r) returned g.outputs
  /-- No value is written back twice. -/
  distinct : (g.writeBacks.map (·.2)).Nodup
  /-- What is written back is not returned as a value. -/
  apart : ∀ {i : Nat} {v : ValueId}, (i, v) ∈ g.writeBacks → .value v ∉ g.outputs

/-- **Write-backs and slots.**  Every session has a log, and for any of its
handles that are returned, write-backs, owners and return slots are those
that the log gives. -/
theorem Session.finish_tracks {tag : String} {s : Session} (h : s.History tag) (name : String)
    {returned : Returned Handle} (hret : ∀ x ∈ returned.toList, x ∈ s.handles) :
    (∃ log, s.Logged tag log) ∧ ∀ log, s.Logged tag log →
      log.Tracks s.recorder returned.toList (s.recorder.finish name returned) := by
  refine ⟨h.logged, ?_⟩
  intro log hlog
  obtain ⟨hr, hvalid⟩ := h.sound
  have hagrees := hlog.agrees
  have hret : ∀ x ∈ returned.toList, s.recorder.Valid x := fun x hx => hvalid x (hret x hx)
  constructor
  case made => exact hagrees.made
  case once => exact hagrees.once
  case reached => exact hagrees.exists_writeBack hr
  case written => exact hagrees.mem_writeBacks hr
  case owned => exact hagrees.ownerOf_eq_some hr
  case slots =>
    refine List.forall₂_map_right_iff.mpr (List.forall₂_same.mpr ?_)
    intro x hx
    exact hagrees.slot hr (hret x hx)
  case distinct => exact hr.nodup_writeBacks
  case apart => exact hr.writeBack_not_returned hret

/-- An array that one call writes twice and another call writes through the
same handle, with a call that fails between them: the second call replaces
what the first one wrote last. -/
theorem Session.finish_tracks_rewritten :
    let x : Handle := ⟨⟨.int .w64, 1, .array⟩, 0⟩
    let y : Handle := ⟨⟨.int .w64, 0, .scalar⟩, 1⟩
    ∃ (s : Session) (log : Log), s.Logged "host" log ∧
      log.writes = [⟨0, 0, 0, 0⟩, ⟨0, 0, 0, 1⟩, ⟨0, 3, 1, 0⟩] ∧
      log.lastWrite 0 = some ⟨0, 3, 1, 0⟩ ∧
      (s.recorder.finish "f" (.tuple [x, y])).writeBacks = [(0, 4)] ∧
      (s.recorder.finish "f" (.tuple [x, y])).outputs = [.param 0, .value 1] ∧
      log.Tracks s.recorder [x, y] (s.recorder.finish "f" (.tuple [x, y])) := by
  intro x y
  let first := Session.start.step "host" (.param .array (some (.int .w64)) 1)
  let second := first.step "host" (.param .scalar (some (.int .w64)) 0)
  let third := second.step "host" (.ufuncOut .divmod [x, y] [x, x])
  let fourth := third.step "host" (.assign y x .full)
  let fifth := fourth.step "host" (.assign x y .full)
  have h : fifth.Logged "host" _ :=
    .call (.call (.call (.call (.call .start (by decide)) (by decide)) (by decide)) (by decide))
      (by decide)
  have hret : ∀ z ∈ (Returned.tuple [x, y]).toList, z ∈ fifth.handles := by decide
  exact ⟨fifth, _, h, by decide, by decide, by decide, by decide,
    (Session.finish_tracks h.history "f" hret).2 _ h⟩

end Recorder

end ArrayFusion
