/-
ArrayFusion/Proofs/Graph/History.lean

What a recorder is after any sequence of calls.

Design.  A session is a recorder together with the handles that it has
returned so far, and a call may use these handles and no others.  A call ends
in a recorder that was reached, keeps the handles that were valid, returns
valid ones, and does nothing if it fails (`Call.keeps`, `Call.atomic`).  So
in every session the recorder was reached and all handles are valid
(`History.sound`), and the rest is read off the tapes of such recorders.

Main result: tapes are in single-assignment form, whatever was called
(`history_wellFormed`).
-/
import ArrayFusion.Proofs.Fused.Record
import ArrayFusion.Proofs.Graph.Ownership

namespace ArrayFusion

/-! ### Computations that do nothing when they fail -/

namespace Exec

variable {σ α β : Type} {m : Exec σ α} {s t : σ}

/-- The computation leaves the state as it is if it fails. -/
def Atomic (m : Exec σ α) (s : σ) : Prop := ∀ e, (m s).1 = .error e → (m s).2 = s

theorem Atomic.of_ok {a : α} (h : m s = (.ok a, t)) : m.Atomic s := by
  intro e he
  rw [h] at he
  cases he

theorem Atomic.of_error {e : Error} (h : m s = (.error e, s)) : m.Atomic s := by
  intro _ _
  rw [h]

theorem Atomic.bind_pure (h : m.Atomic s) (f : α → β) :
    (m >>= fun a => pure (f a)).Atomic s := by
  intro e he
  rw [bind_apply] at he ⊢
  rcases hm : m s with ⟨e' | a, t⟩
  · have := h e'
    rw [hm] at this
    exact this rfl
  · rw [hm] at he
    cases he

end Exec

/-! ### Single assignment -/

namespace Tape

/-- The node at position `n` lists the value as output number `k`. -/
def Lists (t : Tape) (n : NodeId) (k : Nat) (v : ValueId) : Prop :=
  ∃ node, t.nodes[n]? = some node ∧ node.outputs[k]? = some v

/-- The source of a value says what the value is: the initial value of the
parameter, a constant, or the output of the node, which is listed there and
nowhere else. -/
def Defines (t : Tape) (v : ValueId) : Source → Prop
  | .param i => (∃ p, t.params[i]? = some p ∧ p.value = some v) ∧ ∀ n k, ¬ t.Lists n k v
  | .constant c => t.formOf v = ⟨c.dtype, 0, .scalar⟩ ∧ ∀ n k, ¬ t.Lists n k v
  | .output n k => ∀ m j, t.Lists m j v ↔ m = n ∧ j = k

/-- The source of a value is the only place that can list it. -/
theorem Recorded.source_of_lists {t : Tape} (h : Recorded t) {v : ValueId} {info : GraphValue}
    (hv : t.values[v]? = some info) {n : NodeId} {k : Nat} (hl : t.Lists n k v) :
    info.source = .output n k := by
  obtain ⟨node, hn, hk⟩ := hl
  obtain ⟨form, hv'⟩ := h.source_of_output hn hk
  rw [hv] at hv'
  cases hv'
  rfl

theorem Recorded.defines {t : Tape} (h : Recorded t) {v : ValueId} {info : GraphValue}
    (hv : t.values[v]? = some info) : t.Defines v info.source := by
  obtain ⟨form, i | c | ⟨n, k⟩⟩ := info
  · refine ⟨⟨_, (h.param_of_source hv).1, rfl⟩, ?_⟩
    intro n k hl
    cases h.source_of_lists hv hl
  · refine ⟨?_, ?_⟩
    · rw [formOf_of_getElem? hv, h.form_of_constant hv]
    · intro n k hl
      cases h.source_of_lists hv hl
  · intro m j
    constructor
    · intro hl
      cases h.source_of_lists hv hl
      exact ⟨rfl, rfl⟩
    · rintro ⟨rfl, rfl⟩
      exact h.output_of_source hv

end Tape

namespace Recorder

/-! ### Calls -/

/-- A call on a recorder, with what it is given. -/
inductive Call
  | param (kind : ArgKind) (dtype : Option DType) (ndim : Nat)
  | scalar (value : Scalar)
  | ufunc (f : Ufunc) (inputs : List Handle)
  | ufuncOut (f : Ufunc) (inputs outs : List Handle)
  | inplace (f : Ufunc) (target other : Handle)
  | reduce (op : Reduction) (value : Handle) (axis : Option Nat)
  | astype (value : Handle) (dtype : DType)
  | assign (target source : Handle) (region : Region)

namespace Call

/-- The handles that a call uses. -/
def operands : Call → List Handle
  | .param _ _ _ => []
  | .scalar _ => []
  | .ufunc _ inputs => inputs
  | .ufuncOut _ inputs outs => inputs ++ outs
  | .inplace _ target other => [target, other]
  | .reduce _ value _ => [value]
  | .astype value _ => [value]
  | .assign target source _ => [target, source]

/-- Makes a call; the result are the handles that it returns. -/
def run (tag : String) : Call → Exec Recorder (List Handle)
  | .param kind dtype ndim => do return (← Recorder.param kind dtype ndim).toList
  | .scalar value => do return [← Recorder.scalar value]
  | .ufunc f inputs => Recorder.ufunc f inputs
  | .ufuncOut f inputs outs => Recorder.ufuncOut f inputs outs
  | .inplace f target other => (ops tag).inplace f target other
  | .reduce op value axis => do return [← Recorder.reduce op value axis]
  | .astype value dtype => do return [← Recorder.astype value dtype]
  | .assign target source region => do
    Recorder.assign target source region
    return []

end Call

/-- A recorder and the handles that it has returned. -/
structure Session where
  recorder : Recorder
  handles : List Handle

namespace Session

/-- The session at the start. -/
def start : Session := ⟨.empty, []⟩

/-- A call uses handles of the session only. -/
def Owns (s : Session) (c : Call) : Prop := ∀ h ∈ c.operands, h ∈ s.handles

instance (s : Session) (c : Call) : Decidable (s.Owns c) :=
  inferInstanceAs (Decidable (∀ h ∈ c.operands, h ∈ s.handles))

/-- The session after a call that may have failed. -/
def step (tag : String) (s : Session) (c : Call) : Session :=
  match c.run tag s.recorder with
  | (.ok hs, r) => ⟨r, s.handles ++ hs⟩
  | (.error _, r) => ⟨r, s.handles⟩

/-- Sessions after any calls on their own handles. -/
inductive History (tag : String) : Session → Prop
  | start : History tag .start
  | call {s : Session} {c : Call} (before : History tag s) (owned : s.Owns c) :
      History tag (s.step tag c)

/-- What holds of the recorder and the handles of every session. -/
structure WellFormed (s : Session) : Prop where
  /-- Every value is what its source says, and is assigned once. -/
  defined : ∀ {v : ValueId} {info : GraphValue}, s.recorder.tape.values[v]? = some info →
    s.recorder.tape.Defines v info.source
  /-- What a node lists is a value with the node as its source. -/
  listed : ∀ {n : NodeId} {k : Nat} {v : ValueId}, s.recorder.tape.Lists n k v →
    ∃ form, s.recorder.tape.values[v]? = some ⟨form, .output n k⟩
  /-- Nodes use values that come before all values they produce. -/
  ordered : ∀ {n : NodeId} {node : Node}, s.recorder.tape.nodes[n]? = some node →
    ∀ u ∈ node.inputs ++ node.targets, ∀ v ∈ node.outputs, u < v
  /-- An output that replaces a target has its dtype and number of axes. -/
  replaced : ∀ {n : NodeId} {node : Node} {k : Nat} {u v : ValueId},
    s.recorder.tape.nodes[n]? = some node → node.targets[k]? = some u →
    node.outputs[k]? = some v → ∃ old new, s.recorder.tape.values[u]? = some old ∧
      s.recorder.tape.values[v]? = some new ∧ new.dtype = old.dtype ∧ new.ndim = old.ndim
  /-- Handles describe the value that their variable is bound to. -/
  bound : ∀ h ∈ s.handles, ∃ v info, s.recorder.vars[h.var]? = some v ∧
    s.recorder.tape.values[v]? = some info ∧ info.toForm = h.toForm
  /-- Different variables are bound to different values. -/
  distinct : s.recorder.vars.Nodup

end Session

/-! ### Calls that fail -/

theorem atomic_param (kind : ArgKind) (dtype : Option DType) (ndim : Nat) (r : Recorder) :
    (Recorder.param kind dtype ndim).Atomic r := by
  rcases r.param_cases kind dtype ndim with ⟨h, -⟩ | ⟨d, -, -, h⟩
  · exact .of_ok h
  · exact .of_ok h

theorem atomic_ufunc (f : Ufunc) (inputs : List Handle) (r : Recorder) :
    (Recorder.ufunc f inputs).Atomic r := by
  have heq := ufunc_eq f inputs r
  rcases hres : f.resolve (inputs.map operandType) with e | loop
  · rw [hres] at heq
    exact .of_error heq
  · rw [hres] at heq
    exact .of_ok heq

theorem atomic_ufuncOut (f : Ufunc) (inputs : List Handle) {outs : List Handle} {r : Recorder}
    (ho : ∀ x ∈ outs, r.Valid x) : (Recorder.ufuncOut f inputs outs).Atomic r := by
  have heq := ufuncOut_eq f inputs ho
  rcases hres : f.resolve (inputs.map operandType) with e | loop
  · rw [hres] at heq
    exact .of_error heq
  · rw [hres] at heq
    dsimp only at heq
    rcases hout : f.checkOutputs loop
        (outs.map fun o => if o.kind = .array then some o.dtype else none) with e | u
    · rw [hout] at heq
      exact .of_error heq
    · rw [hout] at heq
      exact .of_ok heq

theorem atomic_inplace (tag : String) (f : Ufunc) {target : Handle} (other : Handle) {r : Recorder}
    (ht : r.Valid target) : ((ops tag).inplace f target other).Atomic r := by
  unfold ArrayOps.inplace
  split
  · exact (atomic_ufuncOut f [target, other] (by simpa using ht)).bind_pure _
  · exact (atomic_ufunc f [target, other] r).bind_pure _

theorem atomic_reduce (op : Reduction) (value : Handle) (axis : Option Nat) (r : Recorder) :
    (Recorder.reduce op value axis).Atomic r := by
  have heq := reduce_eq op value axis r
  rcases hn : reducedNdim value.ndim axis with e | ndim
  · rw [hn] at heq
    exact .of_error heq
  · rw [hn] at heq
    exact .of_ok heq

theorem atomic_assign {target : Handle} (source : Handle) (region : Region) {r : Recorder}
    (ht : r.Valid target) : (Recorder.assign target source region).Atomic r := by
  have heq := assign_eq source region ht
  rcases hc : checkTarget target region with e | u
  · rw [hc] at heq
    exact .of_error heq
  · rw [hc] at heq
    exact .of_ok heq

/-- A call that fails leaves the recorder as it is. -/
theorem Call.atomic (tag : String) {r : Recorder} {c : Call} (hc : ∀ h ∈ c.operands, r.Valid h) :
    (c.run tag).Atomic r := by
  cases c with
  | param kind dtype ndim => exact (atomic_param kind dtype ndim r).bind_pure _
  | scalar value => exact (Exec.Atomic.of_ok (scalar_eq value r)).bind_pure _
  | ufunc f inputs => exact atomic_ufunc f inputs r
  | ufuncOut f inputs outs =>
    exact atomic_ufuncOut f inputs fun x hx => hc x (List.mem_append_right _ hx)
  | inplace f target other => exact atomic_inplace tag f other (hc target List.mem_cons_self)
  | reduce op value axis => exact (atomic_reduce op value axis r).bind_pure _
  | astype value dtype => exact (Exec.Atomic.of_ok (astype_eq value dtype r)).bind_pure _
  | assign target source region =>
    exact (atomic_assign source region (hc target List.mem_cons_self)).bind_pure _

/-! ### One call -/

/-- All handles that were valid are valid still.  This is weaker than
`Grows`, which keeps the parameters, so that declarations satisfy it too. -/
def Retains (r s : Recorder) : Prop := ∀ h, r.Valid h → s.Valid h

theorem Grows.retains {r s : Recorder} (h : r.Grows s) : r.Retains s := fun _ hx => hx.mono h

/-- A call that returns what an operation makes keeps what the operation
keeps. -/
theorem keeps_bind_pure {α β : Type} {m : Exec Recorder α} {f : α → β} {r : Recorder}
    {Q : Recorder → α → Prop} {R : Recorder → β → Prop} (h : m.Keeps Reached Grows Q r)
    (hf : ∀ t a, Q t a → R t (f a)) :
    (m >>= fun a => pure (f a)).Keeps Reached Grows R r :=
  (preserves_reached "").bind h fun a t _ ht hq => (preserves_reached "").pure ht (hf t a hq)

/-- Operations weaken what they keep to what calls keep. -/
theorem keeps_retains {α : Type} {m : Exec Recorder α} {r : Recorder} {Q : Recorder → α → Prop}
    (h : m.Keeps Reached Grows Q r) : m.Keeps Reached Retains Q r :=
  ⟨h.1, h.2.1.retains, h.2.2⟩

/-- Declarations keep all handles, and the new one is valid. -/
theorem keeps_param (tag : String) {r : Recorder} (hr : Reached r) (kind : ArgKind)
    (dtype : Option DType) (ndim : Nat) :
    (Call.run tag (.param kind dtype ndim)).Keeps Reached Retains
      (fun t hs => ∀ h ∈ hs, t.Valid h) r := by
  obtain ⟨o, ho⟩ : ∃ o, Recorder.param kind dtype ndim r =
      (.ok o, (Recorder.param kind dtype ndim r).2) := by
    rcases r.param_cases kind dtype ndim with ⟨h, -⟩ | ⟨d, -, -, h⟩
    · exact ⟨_, by rw [h]⟩
    · exact ⟨_, by rw [h]⟩
  have hrun : Call.run tag (.param kind dtype ndim) r =
      (.ok o.toList, (Recorder.param kind dtype ndim r).2) :=
    Exec.bind_eq_ok.mpr ⟨o, _, ho, rfl⟩
  unfold Exec.Keeps
  rw [hrun]
  refine ⟨.param kind dtype ndim hr, fun h hh => Bundle.valid_param hr kind dtype ndim hh, ?_⟩
  intro hs heq x hx
  cases heq
  rw [Option.mem_toList] at hx
  rw [hx] at ho
  exact Bundle.valid_of_param (congrArg Prod.fst ho)

/-- A call ends in a recorder that was reached, with all handles valid. -/
theorem Call.keeps (tag : String) {r : Recorder} (hr : Reached r) {c : Call}
    (hc : ∀ h ∈ c.operands, r.Valid h) :
    (c.run tag).Keeps Reached Retains (fun t hs => ∀ h ∈ hs, t.Valid h) r := by
  -- the operations that return one handle
  have hsingle : ∀ (t : Recorder) (h : Handle), t.Valid h → ∀ x ∈ [h], t.Valid x := by
    intro t h hh x hx
    rwa [List.mem_singleton.mp hx]
  cases c with
  | param kind dtype ndim => exact keeps_param tag hr kind dtype ndim
  | scalar value => exact keeps_retains (keeps_bind_pure (keeps_scalar hr value) hsingle)
  | ufunc f inputs => exact keeps_retains (keeps_ufunc hr hc)
  | ufuncOut f inputs outs =>
    exact keeps_retains (keeps_ufuncOut hr (fun x hx => hc x (List.mem_append_left _ hx))
      fun x hx => hc x (List.mem_append_right _ hx))
  | inplace f target other =>
    exact keeps_retains ((preserves_reached tag).inplace hr (hc target List.mem_cons_self)
      (hc other (List.mem_cons_of_mem _ List.mem_cons_self)))
  | reduce op value axis =>
    exact keeps_retains (keeps_bind_pure (keeps_reduce hr (hc value List.mem_cons_self)) hsingle)
  | astype value dtype =>
    exact keeps_retains (keeps_bind_pure (keeps_astype hr (hc value List.mem_cons_self)) hsingle)
  | assign target source region =>
    refine keeps_retains (keeps_bind_pure (keeps_assign hr (hc target List.mem_cons_self)
      (hc source (List.mem_cons_of_mem _ List.mem_cons_self))) ?_)
    intro t _ _ x hx
    cases hx

/-! ### All calls -/

namespace Session

/-- The recorder was reached, and the handles are valid in it. -/
def Sound (s : Session) : Prop := Reached s.recorder ∧ ∀ h ∈ s.handles, s.recorder.Valid h

theorem Sound.operands {s : Session} (h : s.Sound) {c : Call} (hc : s.Owns c) :
    ∀ x ∈ c.operands, s.recorder.Valid x :=
  fun x hx => h.2 x (hc x hx)

theorem Sound.step {s : Session} (h : s.Sound) (tag : String) {c : Call} (hc : s.Owns c) :
    (s.step tag c).Sound := by
  obtain ⟨hreached, hretains, hnew⟩ := c.keeps tag h.1 (h.operands hc)
  unfold Session.step
  rcases hrun : c.run tag s.recorder with ⟨e | hs, r⟩
  · rw [hrun] at hreached hretains
    exact ⟨hreached, fun x hx => hretains x (h.2 x hx)⟩
  · rw [hrun] at hreached hretains hnew
    refine ⟨hreached, ?_⟩
    intro x hx
    rcases List.mem_append.mp hx with hx | hx
    · exact hretains x (h.2 x hx)
    · exact hnew hs rfl x hx

theorem History.sound {tag : String} {s : Session} (h : s.History tag) : s.Sound := by
  induction h with
  | start => exact ⟨.empty, fun x hx => by cases hx⟩
  | call before owned ih => exact ih.step tag owned

theorem Sound.wellFormed {s : Session} (h : s.Sound) : s.WellFormed := by
  obtain ⟨hr, hvalid⟩ := h
  have hrec := hr.recorded
  constructor
  case defined =>
    intro v info hv
    exact hrec.defines hv
  case listed =>
    rintro n k v ⟨node, hn, hk⟩
    exact hrec.source_of_output hn hk
  case ordered =>
    intro n node hn u hu v hv
    exact hrec.operand_lt_output hn hu hv
  case replaced =>
    intro n node k u v hn hu hv
    obtain ⟨form, hnew⟩ := hrec.source_of_output hn hv
    have hlt : u < s.recorder.tape.values.length :=
      hrec.operand_lt hn (List.mem_append_right _ (List.mem_of_getElem? hu))
    have hold := List.getElem?_eq_getElem hlt
    have hform := hrec.form_replaced hn hu hv
    rw [Tape.formOf_of_getElem? hnew, Tape.formOf_of_getElem? hold] at hform
    exact ⟨_, _, hold, hnew, congrArg Form.dtype hform, congrArg Form.ndim hform⟩
  case bound =>
    intro x hx
    obtain ⟨hlt, hform⟩ := hvalid x hx
    have hinfo := List.getElem?_eq_getElem (hr.valueOf_lt hlt)
    refine ⟨_, _, getElem?_vars hlt, hinfo, ?_⟩
    rw [← hform, Recorder.formOf, Tape.formOf_of_getElem? hinfo]
  case distinct => exact hr.nodup_vars

/-- **Single assignment.**  After any calls on handles that the recorder
returned, failed ones included, every value is assigned once and before it is
used, handles describe what their variables are bound to, and a call that
fails changes nothing. -/
theorem history_wellFormed {tag : String} {s : Session} (h : s.History tag) :
    s.WellFormed ∧ ∀ (c : Call) (e : Error), s.Owns c → (c.run tag s.recorder).1 = .error e →
      (c.run tag s.recorder).2 = s.recorder := by
  refine ⟨h.sound.wellFormed, ?_⟩
  intro c e hc he
  exact c.atomic tag (h.sound.operands hc) e he

/-- An array that is updated twice by one call, and a call that fails: the
variable ends up with the second output. -/
theorem history_wellFormed_updated_twice :
    let x : Handle := ⟨⟨.int .w64, 1, .array⟩, 0⟩
    let s := (start.step "host" (.param .array (some (.int .w64)) 1)).step "host"
      (.ufuncOut .divmod [x, x] [x, x])
    let fails : Call := .reduce .sum x (some 3)
    s.WellFormed ∧ s.recorder.vars = [2] ∧
      (fails.run "host" s.recorder).1 = .error (.shape (.axisOutOfBounds 3 1)) ∧
      (fails.run "host" s.recorder).2 = s.recorder := by
  intro x s fails
  have hs : s.History "host" := .call (.call .start (by decide)) (by decide)
  obtain ⟨hwf, herr⟩ := history_wellFormed hs
  exact ⟨hwf, by decide, by rfl, herr fails _ (by decide) (by rfl)⟩

end Session

end Recorder

end ArrayFusion
