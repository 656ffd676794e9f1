/-
ArrayFusion/Proofs/Fused/Aliasing.lean

Arguments that share storage.

Design.  A graph can be run in place: a value that lives in an argument is
read from its buffer as it is at that moment, and a node that replaces such a
value overwrites the buffer.  Kernels do not work like that: they see every
argument as it was when the call began, and write once at the end.  The two
are compared node by node (`Follows`).  A buffer holds what was written last,
so it holds a value for as long as no younger version and no version of
another parameter has been written there (`Stands`).  Where no hazard shares
storage, that is so whenever a live node reads the value (`RaceFree`).  Dead
nodes may see anything of the right shape.

Main result: `hazards_sound`.
-/
import ArrayFusion.Proofs.Fused.Delivery
import ArrayFusion.Proofs.Graph.Hazard

namespace ArrayFusion

open Recorder (Reached)
open Tensor (Alike HasForm)

/-! ### Running in place -/

/-- The state of a run in place: contents of the values that live in no
argument, and the buffers. -/
structure Machine where
  values : List Tensor
  store : Store

namespace Graph

section

variable (g : Graph) (args : List Arg)

/-- The argument that a value lives in, if it lives in one. -/
def home (v : ValueId) : Option NDArray :=
  match (g.ownerOf v).bind (args[·]?) with
  | some (.array a) => some a
  | _ => none

/-- What can be seen of a value at some moment. -/
def look (m : Machine) (v : ValueId) : Tensor :=
  match g.home args v with
  | some a => (Operand.array a).tensor m.store
  | none => m.values.getD v .blank

/-- Overwrites the argument that a value lives in. -/
def writeHome (s : Store) (p : ValueId × Tensor) : Store :=
  match g.home args p.1 with
  | some a => a.overwrite p.2.data s
  | none => s

/-- Stores contents for values, one after the other. -/
def storeAll (m : Machine) (new : List (ValueId × Tensor)) : Machine :=
  ⟨putAll m.values new, new.foldl (g.writeHome args) m.store⟩

/-- Runs a node: it reads all its operands before it stores any output. -/
def stepInPlace (m : Machine) (n : Node) : Except Error Machine := do
  let outs ← n.op.outcome (n.inputs.map (g.look args m)) (n.targets.map (g.look args m))
  return g.storeAll args m (n.outputs.zip outs)

/-- Runs all nodes in program order. -/
def runInPlace (s : Store) : Except Error Machine :=
  g.nodes.foldlM (g.stepInPlace args) ⟨g.values.map (Tape.initial (Bundle.inputsOf args s)), s⟩

end

variable {g : Graph} {args : List Arg}

theorem home_eq_some {v : ValueId} {a : NDArray} :
    g.home args v = some a ↔ ∃ i, g.ownerOf v = some i ∧ args[i]? = some (.array a) := by
  unfold home
  rcases howner : g.ownerOf v with - | i
  · simp
  · rw [Option.bind_some]
    constructor
    · intro h
      split at h
      · next b hb =>
        cases h
        exact ⟨i, rfl, hb⟩
      · cases h
    · rintro ⟨j, hj, ha⟩
      cases hj
      rw [ha]

theorem look_of_home {v : ValueId} {a : NDArray} (h : g.home args v = some a) (m : Machine) :
    g.look args m v = (Operand.array a).tensor m.store := by
  rw [look, h]

theorem look_of_no_home {v : ValueId} (h : g.home args v = none) (m : Machine) :
    g.look args m v = m.values.getD v .blank := by
  rw [look, h]

/-! ### Storing outputs -/

/-- Contents that fill an array. -/
structure Suits (a : NDArray) (t : Tensor) : Prop where
  dtype : t.dtype = a.dtype
  shape : t.shape = a.shape
  sized : t.Sized
  canonical : t.Canonical

/-- Arrays over one buffer are clones of each other. -/
def Cloned (args : List Arg) : Prop :=
  ∀ x ∈ args, ∀ y ∈ args, x.Shares y → x = y

instance (args : List Arg) : Decidable (Cloned args) :=
  inferInstanceAs (Decidable (∀ x ∈ args, ∀ y ∈ args, x.Shares y → x = y))

theorem Cloned.eq (h : Cloned args) {a b : NDArray} (ha : .array a ∈ args) (hb : .array b ∈ args)
    (heq : a.loc = b.loc) : a = b := by
  cases h _ ha _ hb heq
  rfl

theorem mem_of_home {v : ValueId} {a : NDArray} (h : g.home args v = some a) : .array a ∈ args := by
  obtain ⟨i, -, hi⟩ := home_eq_some.mp h
  exact List.mem_of_getElem? hi

/-- Storing an output: its argument then holds it, and all arguments fit
again. -/
theorem writeHome_spec (hclone : Cloned args) {s : Store} (hfits : ∀ arg ∈ args, arg.Fits s)
    {p : ValueId × Tensor} {a : NDArray} (hp : g.home args p.1 = some a) (hsuits : Suits a p.2) :
    (Operand.array a).tensor (g.writeHome args s p) = p.2 ∧
      ∀ arg ∈ args, arg.Fits (g.writeHome args s p) := by
  obtain ⟨hloc, hsized, -⟩ := hfits _ (mem_of_home hp) a rfl
  obtain ⟨v, d, sh, data⟩ := p
  obtain ⟨rfl, rfl, hfull, hcan⟩ := hsuits
  have hwrite : g.writeHome args s (v, ⟨a.dtype, a.shape, data⟩) = s.write a.loc data := by
    rw [writeHome, hp]
    exact Bundle.overwrite_eq (hfull.trans hsized.symm) hcan
  have htensor : (Operand.array a).tensor (s.write a.loc data) = ⟨a.dtype, a.shape, data⟩ := by
    show Tensor.mk _ _ (Store.read _ _) = _
    rw [Store.read_write_self hloc]
    rfl
  rw [hwrite]
  refine ⟨htensor, ?_⟩
  rintro arg harg b rfl
  obtain ⟨hloc', hsized', hcan'⟩ := hfits _ harg b rfl
  rw [Store.length_write]
  refine ⟨hloc', ?_⟩
  by_cases heq : a.loc = b.loc
  · obtain rfl := hclone.eq (mem_of_home hp) harg heq
    rw [htensor]
    exact ⟨hfull, hcan⟩
  · have hkeep : (Operand.array b).tensor (s.write a.loc data) = (Operand.array b).tensor s := by
      show Tensor.mk _ _ (Store.read _ _) = _
      rw [Store.read_write_of_ne s heq]
      rfl
    rw [hkeep]
    exact ⟨hsized', hcan'⟩

theorem writeHome_of_no_home {p : ValueId × Tensor} (h : g.home args p.1 = none) (s : Store) :
    g.writeHome args s p = s := by
  rw [writeHome, h]

/-- Storing outputs elsewhere leaves a buffer alone. -/
theorem read_foldl_writeHome {pairs : List (ValueId × Tensor)} {loc : Nat}
    (h : ∀ p ∈ pairs, ∀ b, g.home args p.1 = some b → b.loc ≠ loc) (s : Store) :
    (pairs.foldl (g.writeHome args) s).read loc = s.read loc := by
  induction pairs generalizing s with
  | nil => rfl
  | cons p pairs ih =>
    rw [List.foldl_cons, ih fun q hq => h q (List.mem_cons_of_mem p hq)]
    rcases hp : g.home args p.1 with - | b
    · rw [writeHome_of_no_home hp]
    · rw [writeHome, hp]
      exact Store.read_write_of_ne s (h p List.mem_cons_self b hp) _

theorem fits_foldl_writeHome (hclone : Cloned args) {pairs : List (ValueId × Tensor)}
    (hsuits : ∀ p ∈ pairs, ∀ a, g.home args p.1 = some a → Suits a p.2) {s : Store}
    (hfits : ∀ arg ∈ args, arg.Fits s) :
    ∀ arg ∈ args, arg.Fits (pairs.foldl (g.writeHome args) s) := by
  induction pairs generalizing s with
  | nil => exact hfits
  | cons p pairs ih =>
    refine ih (fun q hq => hsuits q (List.mem_cons_of_mem p hq)) ?_
    rcases hp : g.home args p.1 with - | a
    · rw [writeHome_of_no_home hp]
      exact hfits
    · exact (writeHome_spec hclone hfits hp (hsuits p List.mem_cons_self a hp)).2

/-- Of the outputs that live in one buffer, the one with the greatest number
is stored last and stays. -/
theorem tensor_foldl_writeHome (hclone : Cloned args) {pairs : List (ValueId × Tensor)}
    (hsuits : ∀ p ∈ pairs, ∀ a, g.home args p.1 = some a → Suits a p.2)
    (hsorted : pairs.Pairwise fun p q => p.1 < q.1) {s : Store} (hfits : ∀ arg ∈ args, arg.Fits s)
    {p : ValueId × Tensor} (hp : p ∈ pairs) {a : NDArray} (ha : g.home args p.1 = some a)
    (hlast : ∀ q ∈ pairs, ∀ b, g.home args q.1 = some b → b.loc = a.loc → q.1 ≤ p.1) :
    (Operand.array a).tensor (pairs.foldl (g.writeHome args) s) = p.2 := by
  induction pairs generalizing s with
  | nil => cases hp
  | cons q pairs ih =>
    rw [List.pairwise_cons] at hsorted
    have hrest := fun q' hq' => hsuits q' (List.mem_cons_of_mem q hq')
    rw [List.foldl_cons]
    rcases List.mem_cons.mp hp with rfl | hmem
    · -- nothing that is stored later lives there
      have hstays : (pairs.foldl (g.writeHome args) (g.writeHome args s p)).read a.loc =
          (g.writeHome args s p).read a.loc := by
        apply read_foldl_writeHome
        intro q hq b hb heq
        exact Nat.not_lt_of_le (hlast q (List.mem_cons_of_mem p hq) b hb heq) (hsorted.1 q hq)
      have hspec := writeHome_spec hclone hfits ha (hsuits p List.mem_cons_self a ha)
      rw [← hspec.1]
      show Tensor.mk _ _ _ = Tensor.mk _ _ _
      exact congrArg _ hstays
    · have hfits' : ∀ arg ∈ args, arg.Fits ([q].foldl (g.writeHome args) s) :=
        fits_foldl_writeHome hclone
          (fun q' hq' => hsuits q' (List.mem_singleton.mp hq' ▸ List.mem_cons_self)) hfits
      exact ih hrest hsorted.2 hfits' hmem fun q' hq' => hlast q' (List.mem_cons_of_mem q hq')

/-- What is seen of a value stays if nothing is stored for it or in its
buffer. -/
theorem look_storeAll_of_notMem {m : Machine} {new : List (ValueId × Tensor)} {v : ValueId}
    (hv : v ∉ new.map (·.1))
    (hne : ∀ a, g.home args v = some a → ∀ p ∈ new, ∀ b, g.home args p.1 = some b → b.loc ≠ a.loc) :
    g.look args (g.storeAll args m new) v = g.look args m v := by
  rcases hhome : g.home args v with - | a
  · rw [look_of_no_home hhome, look_of_no_home hhome, List.getD, List.getD]
    exact congrArg (·.getD Tensor.blank) (getElem?_putAll_of_notMem hv)
  · rw [look_of_home hhome, look_of_home hhome]
    exact congrArg (Tensor.mk a.dtype a.shape) (read_foldl_writeHome (hne a hhome) m.store)

/-- What is stored last in a buffer is seen. -/
theorem look_storeAll_of_mem (hclone : Cloned args) {m : Machine}
    {new : List (ValueId × Tensor)}
    (hsuits : ∀ p ∈ new, ∀ a, g.home args p.1 = some a → Suits a p.2)
    (hsorted : new.Pairwise fun p q => p.1 < q.1) (hfits : ∀ arg ∈ args, arg.Fits m.store)
    {p : ValueId × Tensor} (hp : p ∈ new) (hlt : p.1 < m.values.length)
    (hlast : ∀ a, g.home args p.1 = some a → ∀ q ∈ new, ∀ b, g.home args q.1 = some b →
      b.loc = a.loc → q.1 ≤ p.1) :
    g.look args (g.storeAll args m new) p.1 = p.2 := by
  rcases hhome : g.home args p.1 with - | a
  · have hnodup : (new.map (·.1)).Nodup :=
      (List.pairwise_map.mpr hsorted).imp fun h => Nat.ne_of_lt h
    have hget : (putAll m.values new)[p.1]? = some p.2 := getElem?_putAll_of_mem hnodup hp hlt
    rw [look_of_no_home hhome, storeAll, List.getD, hget, Option.getD_some]
  · rw [look_of_home hhome]
    exact tensor_foldl_writeHome hclone hsuits hsorted hfits hp hhome (hlast a hhome)

/-! ### Values that are known after some nodes -/

/-- A value that the first nodes make, or no node. -/
def Known (g : Graph) (n : Nat) (v : ValueId) : Prop :=
  v < g.values.length ∧ ∀ m, g.producer v = some m → m < n

theorem known_operand (h : g.toTape.Recorded) {n : NodeId} {node : Node}
    (hn : g.nodes[n]? = some node) {v : ValueId} (hv : v ∈ node.inputs ++ node.targets) :
    g.Known n v := by
  refine ⟨h.operand_lt hn hv, ?_⟩
  intro m hm
  obtain ⟨form, k, hinfo⟩ := producer_eq_some.mp hm
  exact h.producer_lt hn hv hinfo

theorem producer_output (h : g.toTape.Recorded) {n : NodeId} {node : Node}
    (hn : g.nodes[n]? = some node) {v : ValueId} (hv : v ∈ node.outputs) :
    g.producer v = some n := by
  obtain ⟨k, hk⟩ := List.getElem?_of_mem hv
  obtain ⟨form, hinfo⟩ := h.source_of_output hn hk
  exact producer_eq_some.mpr ⟨form, k, hinfo⟩

/-- After one more node its outputs are known, too. -/
theorem Known.cases (h : g.toTape.Recorded) {n : NodeId} {node : Node}
    (hn : g.nodes[n]? = some node) {v : ValueId} (hv : g.Known (n + 1) v) :
    g.Known n v ∧ v ∉ node.outputs ∨ v ∈ node.outputs := by
  by_cases hmem : v ∈ node.outputs
  · exact .inr hmem
  · refine .inl ⟨⟨hv.1, ?_⟩, hmem⟩
    intro m hm
    refine Nat.lt_of_le_of_ne (Nat.le_of_lt_succ (hv.2 m hm)) ?_
    rintro rfl
    obtain ⟨form, k, hinfo⟩ := producer_eq_some.mp hm
    obtain ⟨node', hn', hk⟩ := h.output_of_source hinfo
    cases hn.symm.trans hn'
    exact hmem (List.mem_of_getElem? hk)

/-! ### Graphs without races -/

/-- A value whose contents count: it is made by a live node, or by none. -/
def Settled (g : Graph) (v : ValueId) : Prop :=
  ∀ m, g.producer v = some m → m ∈ g.live

/-- A value that its buffer still holds after some nodes: whatever has been
stored there is a version of the same parameter, and not a younger one. -/
def Stands (g : Graph) (args : List Arg) (n : Nat) (v : ValueId) : Prop :=
  ∀ {a b : NDArray} {m : NodeId} {node : Node} {u : ValueId}, g.home args v = some a → m < n →
    g.nodes[m]? = some node → u ∈ node.outputs → g.home args u = some b → b.loc = a.loc →
    g.ownerOf u = g.ownerOf v ∧ u ≤ v

/-- A graph and arguments of its signature such that no live node reads a
buffer after another parameter has been stored there. -/
structure RaceFree (g : Graph) (args : List Arg) : Prop where
  recorded : g.toTape.Recorded
  signature : ∀ {v : ValueId} {form : Form} {i : Nat}, g.values[v]? = some ⟨form, .param i⟩ →
    ∃ arg o, args[i]? = some arg ∧ arg.operand? = some o ∧ o.form = form
  cloned : Cloned args
  operand : ∀ {n : NodeId} {node : Node} {v : ValueId} {i : Nat}, g.nodes[n]? = some node →
    v ∈ node.inputs ++ node.targets → g.ownerOf v = some i →
    ∀ {u}, g.ownerOf u = some i → g.Known n u → u ≤ v
  quiet : ∀ {m n : NodeId} {writer reader : Node} {u v : ValueId} {a b : NDArray},
    g.nodes[m]? = some writer → u ∈ writer.outputs → g.home args u = some b →
    n ∈ g.live → g.nodes[n]? = some reader → v ∈ reader.reads → g.home args v = some a →
    m < n → b.loc = a.loc → g.ownerOf u = g.ownerOf v

namespace RaceFree

/-- An argument has the form of the values that live in it. -/
theorem form_of_home (h : g.RaceFree args) {v : ValueId} {a : NDArray}
    (hv : g.home args v = some a) : (Operand.array a).form = g.toTape.formOf v := by
  obtain ⟨i, howner, hi⟩ := home_eq_some.mp hv
  obtain ⟨first, hfirst, -⟩ := h.recorded.first_of_owner v howner
  obtain ⟨arg, o, harg, ho, hform⟩ := h.signature hfirst
  rw [hi] at harg
  cases harg
  cases ho
  exact hform

/-- An output lives where the target that it replaces lived. -/
theorem home_output (h : g.RaceFree args) {n : NodeId} {node : Node} (hn : g.nodes[n]? = some node)
    {k : Nat} {v : ValueId} (hk : node.outputs[k]? = some v) {a : NDArray}
    (hv : g.home args v = some a) :
    ∃ x, node.targets[k]? = some x ∧ g.home args x = some a ∧ g.ownerOf x = g.ownerOf v := by
  obtain ⟨i, howner, hi⟩ := home_eq_some.mp hv
  have hout : g.ownerOf v = (node.targets[k]?).bind g.ownerOf := h.recorded.ownerOf_output hn hk
  rw [hout] at howner
  obtain ⟨x, hx, hxo⟩ := Option.bind_eq_some_iff.mp howner
  exact ⟨x, hx, home_eq_some.mpr ⟨i, hxo, hi⟩, by rw [hout, hx, Option.bind_some]⟩

/-- Its buffer holds a value when a live node reads it. -/
theorem stands_of_read (h : g.RaceFree args) {n : NodeId} {node : Node}
    (hlive : n ∈ g.live) (hn : g.nodes[n]? = some node) {v : ValueId} (hv : v ∈ node.reads) :
    g.Stands args n v := by
  intro a b m writer u ha hlt hm hu hb heq
  have howner := h.quiet hm hu hb hlive hn hv ha hlt heq
  obtain ⟨i, hi, -⟩ := home_eq_some.mp ha
  refine ⟨howner, h.operand hn (mem_operands_of_read hv) hi (howner.trans hi)
    ⟨h.recorded.output_lt hm hu, ?_⟩⟩
  intro m' hm'
  rw [producer_output h.recorded hm hu] at hm'
  cases hm'
  exact hlt

/-- A value that stands after a node and is older stays where it is: the node
stores nothing there. -/
theorem ne_of_stands (h : g.RaceFree args) {n : NodeId} {node : Node}
    (hn : g.nodes[n]? = some node) {v : ValueId} (hknown : g.Known n v)
    (hstands : g.Stands args (n + 1) v) {a : NDArray} (ha : g.home args v = some a) {u : ValueId}
    (hu : u ∈ node.outputs) {b : NDArray} (hb : g.home args u = some b) : b.loc ≠ a.loc := by
  intro heq
  obtain ⟨howner, hle⟩ := hstands ha (Nat.lt_succ_self n) hn hu hb heq
  obtain ⟨k, hk⟩ := List.getElem?_of_mem hu
  obtain ⟨x, hx, -, hxo⟩ := h.home_output hn hk hb
  obtain ⟨i, hi, -⟩ := home_eq_some.mp ha
  have hop : x ∈ node.inputs ++ node.targets := List.mem_append_right _ (List.mem_of_getElem? hx)
  have hvx : v ≤ x := h.operand hn hop ((hxo.trans howner).trans hi) hi hknown
  exact Nat.not_lt_of_le (Nat.le_trans hle hvx) (h.recorded.operand_lt_output hn hop hu)

end RaceFree

theorem input_mem_reads {node : Node} {v : ValueId} (hv : v ∈ node.inputs) : v ∈ node.reads := by
  unfold Node.reads
  split
  · exact List.mem_append_left _ hv
  · exact hv

theorem Stands.mono {n : Nat} {v : ValueId} (h : g.Stands args (n + 1) v) : g.Stands args n v :=
  fun ha hlt => h ha (Nat.lt_succ_of_lt hlt)

theorem settled_of_read {n : NodeId} {node : Node} (hg : g.toTape.Recorded) (hlive : n ∈ g.live)
    (hn : g.nodes[n]? = some node) {v : ValueId} (hv : v ∈ node.reads) : g.Settled v := by
  intro m hm
  exact live_of_read hlive (by rw [readsOf_eq hn]; exact hv) hm (producer_lt hg hm)

/-! ### One node -/

/-- Contents of the snapshot and a run in place after some nodes: all forms
and shapes agree, and the contents of values that count and that their
buffers still hold. -/
structure Follows (g : Graph) (args : List Arg) (n : Nat) (env : List Tensor) (m : Machine) :
    Prop where
  count : env.length = g.values.length
  values : m.values.length = g.values.length
  fits : ∀ arg ∈ args, arg.Fits m.store
  form : ∀ {v : ValueId}, g.Known n v → (env.getD v .blank).HasForm (g.toTape.formOf v)
  seen : ∀ {v : ValueId}, g.Known n v → (g.look args m v).HasForm (g.toTape.formOf v) ∧
    (g.look args m v).shape = (env.getD v .blank).shape
  same : ∀ {v : ValueId}, g.Known n v → g.Settled v → g.Stands args n v →
    g.look args m v = env.getD v .blank

namespace Follows

variable {n : NodeId} {node : Node} {env : List Tensor} {m : Machine}

/-- What a live node reads is the same on both sides. -/
theorem look_read (hf : g.Follows args n env m) (h : g.RaceFree args) (hlive : n ∈ g.live)
    (hn : g.nodes[n]? = some node) {v : ValueId} (hv : v ∈ node.reads) :
    g.look args m v = env.getD v .blank :=
  hf.same (known_operand h.recorded hn (mem_operands_of_read hv))
    (settled_of_read h.recorded hlive hn hv) (h.stands_of_read hlive hn hv)

/-- Operands on both sides: of their forms, and of the same shapes. -/
theorem operands (hf : g.Follows args n env m) {vs : List ValueId} (hvs : ∀ v ∈ vs, g.Known n v) :
    List.Forall₂ HasForm (vs.map (env.getD · .blank)) (vs.map g.toTape.formOf) ∧
      List.Forall₂ HasForm (vs.map (g.look args m)) (vs.map g.toTape.formOf) ∧
      List.Forall₂ Alike (vs.map (g.look args m)) (vs.map (env.getD · .blank)) := by
  simp only [List.forall₂_map_left_iff, List.forall₂_map_right_iff, List.forall₂_same]
  refine ⟨fun v hv => hf.form (hvs v hv), fun v hv => (hf.seen (hvs v hv)).1, ?_⟩
  intro v hv
  obtain ⟨hform, hshape⟩ := hf.seen (hvs v hv)
  exact ⟨hform.dtype.trans (hf.form (hvs v hv)).dtype.symm, hshape⟩

/-- A node fails on both sides, with the same error, or on neither.  Its
outputs have the same shapes, and if it is live, they are the same. -/
theorem outcome (hf : g.Follows args n env m) (h : g.RaceFree args)
    (hn : g.nodes[n]? = some node) :
    ExceptRel (fun outs outs' : List Tensor => outs.map Tensor.shape = outs'.map Tensor.shape ∧
        (n ∈ g.live → outs = outs'))
      (node.op.outcome (node.inputs.map (env.getD · .blank)) (node.targets.map (env.getD · .blank)))
      (node.op.outcome (node.inputs.map (g.look args m)) (node.targets.map (g.look args m))) := by
  have hknown := fun v hv => known_operand (v := v) h.recorded hn hv
  obtain ⟨hin, hin', hsin⟩ := hf.operands fun v hv => hknown v (List.mem_append_left _ hv)
  obtain ⟨htgt, htgt', hstgt⟩ := hf.operands fun v hv => hknown v (List.mem_append_right _ hv)
  have htyped := h.recorded.typed hn
  have hmap := htyped.shapes_outcome hin htgt (n := node) rfl (List.length_map _).symm
  have hmap' := htyped.shapes_outcome hin' htgt' (n := node) rfl (List.length_map _).symm
  rw [Tensor.map_shape_of_alike hsin, Tensor.map_shape_of_alike hstgt, ← hmap] at hmap'
  have hlive : n ∈ g.live →
      node.op.outcome (node.inputs.map (env.getD · .blank)) (node.targets.map (env.getD · .blank)) =
      node.op.outcome (node.inputs.map (g.look args m)) (node.targets.map (g.look args m)) := by
    intro hlive
    have hinputs : node.inputs.map (g.look args m) = node.inputs.map (env.getD · .blank) :=
      List.map_congr_left fun v hv => hf.look_read h hlive hn (input_mem_reads hv)
    rw [hinputs]
    refine (Op.outcome_congr (Op.sized_of_hasForm hin) (Op.sized_of_hasForm htgt')
      (Op.sized_of_hasForm htgt) hstgt ?_).symm
    -- rows that stay are read
    intro start stop hop
    refine List.map_congr_left fun v hv => hf.look_read h hlive hn ?_
    rw [Node.reads, hop]
    exact List.mem_append_right _ hv
  generalize node.op.outcome (node.inputs.map (env.getD · .blank))
    (node.targets.map (env.getD · .blank)) = out at hmap' hlive ⊢
  generalize node.op.outcome (node.inputs.map (g.look args m))
    (node.targets.map (g.look args m)) = out' at hmap' hlive ⊢
  rcases out with e | outs <;> rcases out' with e' | outs'
  · cases hmap'
    exact .error e
  · cases hmap'
  · cases hmap'
  · exact .ok ⟨(Except.ok.inj hmap').symm, fun hl => Except.ok.inj (hlive hl)⟩

/-- The outputs of the snapshot have their forms. -/
theorem hasForm_outcome (hf : g.Follows args n env m) (h : g.RaceFree args)
    (hn : g.nodes[n]? = some node) {outs : List Tensor}
    (houts : node.op.outcome (node.inputs.map (env.getD · .blank))
      (node.targets.map (env.getD · .blank)) = .ok outs) :
    List.Forall₂ HasForm outs (node.outputs.map g.toTape.formOf) := by
  have hknown := fun v hv => known_operand (v := v) h.recorded hn hv
  obtain ⟨hin, -, -⟩ := hf.operands fun v hv => hknown v (List.mem_append_left _ hv)
  obtain ⟨htgt, -, -⟩ := hf.operands fun v hv => hknown v (List.mem_append_right _ hv)
  exact (h.recorded.typed hn).forms_outcome hin htgt houts

/-- The outputs of a run in place have their forms, and fill the arguments
that they live in. -/
theorem outputs (hf : g.Follows args n env m) (h : g.RaceFree args)
    (hn : g.nodes[n]? = some node) {outs : List Tensor}
    (houts : node.op.outcome (node.inputs.map (g.look args m)) (node.targets.map (g.look args m)) =
      .ok outs) :
    List.Forall₂ HasForm outs (node.outputs.map g.toTape.formOf) ∧
      ∀ p ∈ node.outputs.zip outs, ∀ a, g.home args p.1 = some a → Suits a p.2 := by
  have hknown := fun v hv => known_operand (v := v) h.recorded hn hv
  obtain ⟨-, hin, -⟩ := hf.operands fun v hv => hknown v (List.mem_append_left _ hv)
  obtain ⟨-, htgt, -⟩ := hf.operands fun v hv => hknown v (List.mem_append_right _ hv)
  have htyped := h.recorded.typed hn
  have hforms := htyped.forms_outcome hin htgt houts
  refine ⟨hforms, ?_⟩
  rintro ⟨v, t⟩ hp a ha
  obtain ⟨k, hk⟩ := List.getElem?_of_mem hp
  obtain ⟨hv, ht⟩ := List.getElem?_zip_eq_some.mp hk
  obtain ⟨x, hx, hxa, -⟩ := h.home_output hn hv ha
  have hne : node.targets.map g.toTape.formOf ≠ [] :=
    List.ne_nil_of_mem (List.mem_map_of_mem (List.mem_of_getElem? hx))
  have hold : (node.targets.map (g.look args m))[k]? = some ((Operand.array a).tensor m.store) := by
    rw [List.getElem?_map, hx, Option.map_some, look_of_home hxa]
  obtain ⟨t', ht', hdtype, hshape⟩ :=
    forall₂_getElem?_right (htyped.update_outcome hne hin htgt houts) hold
  cases ht.symm.trans ht'
  obtain ⟨_, -, hform⟩ := forall₂_mem_left hforms (List.mem_of_getElem? ht)
  exact ⟨hdtype, hshape, hform.sized,
    htyped.canonical_outcome hin htgt houts _ (List.mem_of_getElem? ht)⟩

/-- The contents on both sides for an output. -/
theorem getD_output {outs : List Tensor} (hn : g.nodes[n]? = some node) (hg : g.toTape.Recorded)
    (hforms : List.Forall₂ HasForm outs (node.outputs.map g.toTape.formOf)) :
    (node.outputs.zip outs).map (·.1) = node.outputs ∧
      (node.outputs.zip outs).Pairwise (fun p q => p.1 < q.1) ∧
      ∀ xs : List Tensor, xs.length = g.values.length → ∀ p ∈ node.outputs.zip outs,
        (putAll xs (node.outputs.zip outs)).getD p.1 .blank = p.2 := by
  have hlen := hforms.length_eq
  rw [List.length_map] at hlen
  have hkeys : (node.outputs.zip outs).map (·.1) = node.outputs :=
    List.map_fst_zip (Nat.le_of_eq hlen.symm)
  have hsorted : ((node.outputs.zip outs).map (·.1)).Pairwise (· < ·) := by
    rw [hkeys]
    exact hg.pairwise_outputs hn
  refine ⟨hkeys, List.pairwise_map.mp hsorted, ?_⟩
  intro xs hxs p hp
  have hlt : p.1 < xs.length := by
    rw [hxs]
    exact hg.output_lt hn (List.of_mem_zip hp).1
  rw [List.getD, getElem?_putAll_of_mem (hsorted.imp fun h => Nat.ne_of_lt h) hp hlt,
    Option.getD_some]

/-- One node more. -/
theorem advance (hf : g.Follows args n env m) (h : g.RaceFree args)
    (hn : g.nodes[n]? = some node) {outs outs' : List Tensor}
    (hforms : List.Forall₂ HasForm outs (node.outputs.map g.toTape.formOf))
    (hforms' : List.Forall₂ HasForm outs' (node.outputs.map g.toTape.formOf))
    (hsuits : ∀ p ∈ node.outputs.zip outs', ∀ a, g.home args p.1 = some a → Suits a p.2)
    (hshape : outs.map Tensor.shape = outs'.map Tensor.shape) (hlive : n ∈ g.live → outs = outs') :
    g.Follows args (n + 1) (putAll env (node.outputs.zip outs))
      (g.storeAll args m (node.outputs.zip outs')) := by
  obtain ⟨hkeys, -, hnew⟩ := getD_output hn h.recorded hforms
  obtain ⟨hkeys', hsorted, hnew'⟩ := getD_output hn h.recorded hforms'
  have hfits := fits_foldl_writeHome h.cloned hsuits hf.fits
  have hold : ∀ {v}, v ∉ node.outputs →
      (putAll env (node.outputs.zip outs)).getD v .blank = env.getD v .blank := by
    intro v hv
    rw [List.getD, List.getD, getElem?_putAll_of_notMem (by rw [hkeys]; exact hv)]
  -- an output, with its contents on both sides
  have hout : ∀ {v}, v ∈ node.outputs → ∃ t t', (v, t) ∈ node.outputs.zip outs ∧
      (v, t') ∈ node.outputs.zip outs' ∧ t.HasForm (g.toTape.formOf v) ∧
      t'.HasForm (g.toTape.formOf v) ∧ t.shape = t'.shape ∧ (n ∈ g.live → t = t') := by
    intro v hv
    obtain ⟨k, hk⟩ := List.getElem?_of_mem hv
    have hform : (node.outputs.map g.toTape.formOf)[k]? = some (g.toTape.formOf v) := by
      rw [List.getElem?_map, hk, Option.map_some]
    obtain ⟨t, ht, htf⟩ := forall₂_getElem?_right hforms hform
    obtain ⟨t', ht', htf'⟩ := forall₂_getElem?_right hforms' hform
    have hsame := congrArg (·[k]?) hshape
    simp only [List.getElem?_map, ht, ht', Option.map_some, Option.some.injEq] at hsame
    refine ⟨t, t', List.mem_of_getElem? (List.getElem?_zip_eq_some.mpr ⟨hk, ht⟩),
      List.mem_of_getElem? (List.getElem?_zip_eq_some.mpr ⟨hk, ht'⟩), htf, htf', hsame, ?_⟩
    intro hl
    rw [hlive hl, ht'] at ht
    exact (Option.some.inj ht).symm
  constructor
  case count => rw [length_putAll, hf.count]
  case values => rw [storeAll, length_putAll, hf.values]
  case fits => exact hfits
  case form =>
    intro v hv
    rcases hv.cases h.recorded hn with ⟨hv, hnot⟩ | hmem
    · rw [hold hnot]
      exact hf.form hv
    · obtain ⟨t, -, ht, -, htf, -⟩ := hout hmem
      rw [hnew env hf.count _ ht]
      exact htf
  case seen =>
    intro v hv
    rcases hhome : g.home args v with - | a
    · rcases hv.cases h.recorded hn with ⟨hv, hnot⟩ | hmem
      · rw [look_storeAll_of_notMem (by rw [hkeys']; exact hnot)
          (fun a ha => by rw [hhome] at ha; cases ha), hold hnot]
        exact hf.seen hv
      · obtain ⟨t, t', ht, ht', -, htf', hsame, -⟩ := hout hmem
        rw [look_of_no_home hhome, storeAll, hnew' m.values hf.values _ ht', hnew env hf.count _ ht]
        exact ⟨htf', hsame.symm⟩
    · -- whatever an argument holds, it has the form and shape of its values
      obtain ⟨-, hform⟩ := Arg.hasForm_of_fits (hfits _ (mem_of_home hhome)) rfl
      rw [h.form_of_home hhome] at hform
      rw [look_of_home hhome]
      refine ⟨hform, ?_⟩
      rcases hv.cases h.recorded hn with ⟨hv, hnot⟩ | hmem
      · rw [hold hnot, ← (hf.seen hv).2, look_of_home hhome]
        rfl
      · obtain ⟨t, t', ht, ht', -, -, hsame, -⟩ := hout hmem
        rw [hnew env hf.count _ ht]
        exact (hsame.trans (hsuits _ ht' a hhome).shape).symm
  case same =>
    intro v hv hset hstands
    rcases hv.cases h.recorded hn with ⟨hv, hnot⟩ | hmem
    · rw [hold hnot, look_storeAll_of_notMem (by rw [hkeys']; exact hnot)]
      · exact hf.same hv hset hstands.mono
      · intro a ha p hp b hb
        exact h.ne_of_stands hn hv hstands ha (List.of_mem_zip hp).1 hb
    · obtain ⟨t, t', ht, ht', -, -, -, hsame⟩ := hout hmem
      rw [hnew env hf.count _ ht, hsame (hset n (producer_output h.recorded hn hmem))]
      refine look_storeAll_of_mem h.cloned hsuits hsorted hf.fits ht' ?_ ?_
      · rw [hf.values]
        exact hv.1
      · intro a ha q hq b hb heq
        exact (hstands ha (Nat.lt_succ_self n) hn (List.of_mem_zip hq).1 hb heq).2

/-- A node fails on both sides, or both go on. -/
theorem step (hf : g.Follows args n env m) (h : g.RaceFree args) (hn : g.nodes[n]? = some node) :
    ExceptRel (g.Follows args (n + 1)) (Tape.sweepNode (fun n => n.op.outcome) .blank env node)
      (g.stepInPlace args m node) := by
  have hboth := hf.outcome h hn
  unfold Tape.sweepNode stepInPlace
  dsimp only
  rcases e : node.op.outcome (node.inputs.map (env.getD · .blank))
    (node.targets.map (env.getD · .blank)) with err | outs <;>
  rcases e' : node.op.outcome (node.inputs.map (g.look args m))
    (node.targets.map (g.look args m)) with err' | outs' <;>
  rw [e, e'] at hboth
  · cases hboth
    exact .error err
  · cases hboth
  · cases hboth
  · cases hboth with
    | ok hab =>
      obtain ⟨hforms, hsuits⟩ := hf.outputs h hn e'
      exact .ok (hf.advance h hn (hf.hasForm_outcome h hn e) hforms hsuits hab.1 hab.2)

end Follows

/-! ### All nodes -/

/-- A value that no node produces has its form, and its home holds it. -/
theorem RaceFree.initial (h : g.RaceFree args) {s : Store} (hfits : ∀ arg ∈ args, arg.Fits s)
    {v : ValueId} {info : GraphValue} (hv : g.values[v]? = some info)
    (hleaf : ∀ n k, info.source ≠ .output n k) :
    (Tape.initial (Bundle.inputsOf args s) info).HasForm (g.toTape.formOf v) ∧
      ∀ a, g.home args v = some a →
        (Operand.array a).tensor s = Tape.initial (Bundle.inputsOf args s) info := by
  rw [Tape.formOf_of_getElem? hv]
  have howner := h.recorded.ownerOf_leaf hv hleaf
  rcases info with ⟨form, i | c | ⟨m, k⟩⟩
  · obtain ⟨arg, o, harg, ho, rfl⟩ := h.signature hv
    have hinit : Tape.initial (Bundle.inputsOf args s) ⟨o.form, .param i⟩ = o.tensor s := by
      rw [← Arg.tensor_of_operand ho]
      exact Bundle.getD_inputsOf harg s
    rw [hinit]
    refine ⟨(Arg.hasForm_of_fits (hfits arg (List.mem_of_getElem? harg)) ho).2, ?_⟩
    intro a ha
    obtain ⟨j, hj, hja⟩ := home_eq_some.mp ha
    cases howner.symm.trans hj
    cases harg.symm.trans hja
    cases ho
    rfl
  · refine ⟨?_, ?_⟩
    · rw [h.recorded.form_of_constant hv]
      exact Tape.hasForm_ofScalar c
    · intro a ha
      obtain ⟨j, hj, -⟩ := home_eq_some.mp ha
      cases howner.symm.trans hj
  · exact absurd rfl (hleaf m k)

/-- Before any node, both sides hold the same. -/
theorem RaceFree.start (h : g.RaceFree args) {s : Store} (hfits : ∀ arg ∈ args, arg.Fits s) :
    g.Follows args 0 (g.values.map (Tape.initial (Bundle.inputsOf args s)))
      ⟨g.values.map (Tape.initial (Bundle.inputsOf args s)), s⟩ := by
  -- what is known before any node is produced by none
  have hleaf : ∀ {v}, g.Known 0 v →
      ((g.values.map (Tape.initial (Bundle.inputsOf args s))).getD v .blank).HasForm
          (g.toTape.formOf v) ∧
        ∀ a, g.home args v = some a → (Operand.array a).tensor s =
          (g.values.map (Tape.initial (Bundle.inputsOf args s))).getD v .blank := by
    intro v hv
    obtain ⟨info, hinfo⟩ : ∃ info, g.values[v]? = some info :=
      ⟨_, List.getElem?_eq_getElem hv.1⟩
    rw [List.getD, List.getElem?_map, hinfo, Option.map_some, Option.getD_some]
    refine h.initial hfits hinfo ?_
    intro n k hsrc
    obtain ⟨form, source⟩ := info
    cases hsrc
    exact absurd (hv.2 n (producer_eq_some.mpr ⟨form, k, hinfo⟩)) (Nat.not_lt_zero n)
  have hlook : ∀ {v}, g.Known 0 v →
      g.look args ⟨g.values.map (Tape.initial (Bundle.inputsOf args s)), s⟩ v =
        (g.values.map (Tape.initial (Bundle.inputsOf args s))).getD v .blank := by
    intro v hv
    rcases hhome : g.home args v with - | a
    · exact look_of_no_home hhome _
    · rw [look_of_home hhome]
      exact (hleaf hv).2 a hhome
  exact ⟨List.length_map _, List.length_map _, hfits, fun hv => (hleaf hv).1,
    fun hv => ⟨by rw [hlook hv]; exact (hleaf hv).1, by rw [hlook hv]⟩, fun hv _ _ => hlook hv⟩

/-- The snapshot and the run in place fail alike, or end with the same
contents wherever it matters. -/
theorem RaceFree.run (h : g.RaceFree args) {s : Store} (hfits : ∀ arg ∈ args, arg.Fits s) :
    ExceptRel (g.Follows args g.nodes.length) (g.toTape.snapshot (Bundle.inputsOf args s))
      (g.runInPlace args s) :=
  ExceptRel.foldlM (fun _ _ _ _ hn hf => hf.step h hn) (h.start hfits)

/-! ### The end of a run -/

/-- The arrays to be written after a snapshot, with their new elements. -/
def writesOf (g : Graph) (args : List Arg) (env : List Tensor) : List (NDArray × List Elem) :=
  g.writeBacks.filterMap fun p : Nat × ValueId =>
    match args[p.1]? with
    | some (.array a) => some (a, (env.getD p.2 .blank).data)
    | _ => none

theorem mem_writesOf {env : List Tensor} {a : NDArray} {data : List Elem} :
    (a, data) ∈ g.writesOf args env ↔ ∃ i v, (i, v) ∈ g.writeBacks ∧
      args[i]? = some (.array a) ∧ data = (env.getD v .blank).data := by
  rw [writesOf, List.mem_filterMap]
  constructor
  · rintro ⟨⟨i, v⟩, hw, heq⟩
    split at heq
    · next b hb =>
      cases heq
      exact ⟨i, v, hw, hb, rfl⟩
    · cases heq
  · rintro ⟨i, v, hw, ha, rfl⟩
    exact ⟨(i, v), hw, by simp only [ha]⟩

/-- Contents of a returned value, given those of all values and the store in
the end. -/
def slotContents (args : List Arg) (values : ValueId → Tensor) (s : Store) : ReturnSlot → Tensor
  | .param i => (args.getD i .absent).tensor s
  | .value v => values v

end Graph

namespace Bundle

variable {r : Recorder} {name : String} {returned : Returned Handle} {args : List Arg}

section

variable (hr : Reached r) (hclass : r.tape.params.map Param.argClass = args.map ArgClass.ofArg)
  (hraces : ∀ p ∈ (r.finish name returned).hazards, shareStorage args p.1 p.2 = false)

include hr hraces

/-- Written parameters do not share storage. -/
theorem oneWriter_of_hazards : OneWriter r args := by
  intro i j v w a b hi hj ha hb heq
  by_contra hne
  have hmem : (j, i) ∈ (r.finish name returned).hazards := hr.hazard_of_written
    (List.mem_map.mpr ⟨(j, w), hj, rfl⟩) (List.mem_map.mpr ⟨(i, v), hi, rfl⟩) hne
  have hshare := shareStorage_eq_true.mpr ⟨b, a, hb, ha, heq.symm⟩
  rw [hraces _ hmem] at hshare
  cases hshare

include hclass

theorem raceFree_of_hazards (hclone : Graph.Cloned args) :
    (r.finish name returned).RaceFree args where
  recorded := hr.recorded
  signature := arg_of_param hr hclass
  cloned := hclone
  operand hn hv howner u hu hknown := by
    refine hr.versions.operand hn hv howner u hu ?_
    intro form m k hinfo
    exact hknown.2 m (Graph.producer_eq_some.mpr ⟨form, k, hinfo⟩)
  quiet {m n writer reader u v a b} hm hu hb hlive hn hv ha hlt heq := by
    obtain ⟨w, howner, hw⟩ := Graph.home_eq_some.mp hb
    obtain ⟨o, howner', ho⟩ := Graph.home_eq_some.mp ha
    rw [howner, howner']
    by_contra hne
    -- the writer has a target in the buffer, so the two parameters are a hazard
    obtain ⟨k, hk⟩ := List.getElem?_of_mem hu
    have hout : r.tape.ownerOf u = (writer.targets[k]?).bind r.tape.ownerOf :=
      hr.recorded.ownerOf_output hm hk
    obtain ⟨x, hx, hxo⟩ := Option.bind_eq_some_iff.mp (hout.symm.trans howner)
    obtain ⟨first, hfirst, -⟩ := hr.recorded.first_of_owner v howner'
    obtain ⟨arg, op, harg, hop, hform⟩ := arg_of_param hr hclass hfirst
    rw [ho] at harg
    cases harg
    cases hop
    have hmem : (w, o) ∈ (r.finish name returned).hazards :=
      hr.hazard_of_read hm (List.mem_of_getElem? hx) hxo hlive hn hv howner'
        (congrArg Form.kind hform).symm hlt (fun heq => hne (congrArg some heq.symm))
    have hshare := shareStorage_eq_true.mpr ⟨b, a, hw, ho, heq⟩
    rw [hraces _ hmem] at hshare
    cases hshare

end

section

variable {s s' : Store} {env : List Tensor} {m : Machine}

/-- An argument that some node stores into is written back. -/
theorem writeBack_of_output (hr : Reached r) {n : NodeId} {node : Node}
    (hn : r.tape.nodes[n]? = some node) {u : ValueId} (hu : u ∈ node.outputs) {w : Nat}
    (howner : r.tape.ownerOf u = some w) : ∃ v, (w, v) ∈ r.writeBacks := by
  obtain ⟨k, hk⟩ := List.getElem?_of_mem hu
  rw [hr.recorded.ownerOf_output hn hk] at howner
  obtain ⟨x, hx, hxo⟩ := Option.bind_eq_some_iff.mp howner
  have hwritten : w ∈ (r.finish "" .none).written :=
    hr.written_of_target hn (List.mem_of_getElem? hx) hxo
  obtain ⟨⟨w', v⟩, hv, rfl⟩ := List.mem_map.mp hwritten
  exact ⟨v, hv⟩

theorem known_end (hr : Reached r) {v : ValueId} (hv : v < r.tape.values.length) :
    (r.finish name returned).Known (r.finish name returned).nodes.length v :=
  ⟨hv, fun _ hm => Graph.producer_lt hr.recorded hm⟩

theorem settled_of_root (hr : Reached r) {v : ValueId}
    (hv : v ∈ (r.finish name returned).roots) : (r.finish name returned).Settled v :=
  fun _ hm => Graph.live_of_reaches hv (.produced hm) (Graph.producer_lt hr.recorded hm)

/-- After a run in place the buffer of a written parameter holds its final
version. -/
theorem read_of_written (hr : Reached r) (hone : OneWriter r args)
    (hf : (r.finish name returned).Follows args (r.finish name returned).nodes.length env m)
    (hs' : Committed r env args s s') {j : Nat} {v : ValueId} (hv : (j, v) ∈ r.writeBacks)
    {b : NDArray} (hb : args[j]? = some (.array b)) : m.store.read b.loc = s'.read b.loc := by
  obtain ⟨x, hx, -, rfl, -⟩ := hr.mem_writeBacks.mp hv
  obtain ⟨howner, hmax⟩ := hr.versions.latest hx
  have hhome : (r.finish name returned).home args (r.valueOf x) = some b :=
    Graph.home_eq_some.mpr ⟨j, howner, hb⟩
  -- what is stored in the buffer are versions of this parameter, none younger
  have hstands : (r.finish name returned).Stands args (r.finish name returned).nodes.length
      (r.valueOf x) := by
    intro b' c n node u hb' _ hn hu hc heq
    cases hhome.symm.trans hb'
    obtain ⟨k, hk, hkc⟩ := Graph.home_eq_some.mp hc
    obtain ⟨w, hkw⟩ := writeBack_of_output hr hn hu hk
    obtain rfl := hone hv hkw hb hkc heq.symm
    exact ⟨hk.trans howner.symm, hmax u hk⟩
  have hsame := hf.same (known_end hr (hr.valueOf_lt (hr.linked.var hx).1))
    (settled_of_root hr (hr.writeBack_mem_roots hv)) hstands
  rw [Graph.look_of_home hhome, List.getD, hs'.written hv hb, Option.getD_some] at hsame
  exact congrArg Tensor.data hsame

/-- After a run in place a buffer that no written parameter has is as it
was. -/
theorem read_of_not_written (hr : Reached r)
    (hclass : r.tape.params.map Param.argClass = args.map ArgClass.ofArg)
    (hfits : ∀ arg ∈ args, arg.Fits s) (henv : r.tape.snapshot (inputsOf args s) = .ok env)
    (hf : (r.finish name returned).Follows args (r.finish name returned).nodes.length env m)
    {i : Nat} {a : NDArray} (hi : args[i]? = some (.array a))
    (hw : ∀ j v b, (j, v) ∈ r.writeBacks → args[j]? = some (.array b) → b.loc ≠ a.loc) :
    m.store.read a.loc = s.read a.loc := by
  obtain ⟨x, hx, -⟩ := var_of_array hr hclass hi
  obtain ⟨v, hinfo, -, -⟩ := hr.param_of_var hx
  have hhome : (r.finish name returned).home args v = some a :=
    Graph.home_eq_some.mpr ⟨i, hr.recorded.ownerOf_leaf hinfo (by simp), hi⟩
  -- no node stores in the buffer, so the initial value is still there
  have hstands : (r.finish name returned).Stands args (r.finish name returned).nodes.length v := by
    intro a' c n node u ha' _ hn hu hc heq
    cases hhome.symm.trans ha'
    obtain ⟨k, hk, hkc⟩ := Graph.home_eq_some.mp hc
    obtain ⟨w, hkw⟩ := writeBack_of_output hr hn hu hk
    exact absurd heq (hw k w c hkw hkc)
  have hsettled : (r.finish name returned).Settled v := by
    intro n hn
    obtain ⟨form, k, hout⟩ := Graph.producer_eq_some.mp hn
    cases hinfo.symm.trans hout
  have hsame := hf.same (known_end hr (List.getElem?_eq_some_iff.mp hinfo).1) hsettled hstands
  rw [Graph.look_of_home hhome, List.getD, snapshot_initial hr hclass hfits henv hinfo hi,
    Option.getD_some] at hsame
  exact congrArg Tensor.data hsame

/-- After a run in place every argument holds what a commit leaves in it. -/
theorem tensor_of_follows (hr : Reached r)
    (hclass : r.tape.params.map Param.argClass = args.map ArgClass.ofArg)
    (hfits : ∀ arg ∈ args, arg.Fits s) (henv : r.tape.snapshot (inputsOf args s) = .ok env)
    (hone : OneWriter r args)
    (hf : (r.finish name returned).Follows args (r.finish name returned).nodes.length env m)
    (hs' : Committed r env args s s') : ∀ arg ∈ args, arg.tensor m.store = arg.tensor s' := by
  intro arg harg
  obtain ⟨i, hi⟩ := List.getElem?_of_mem harg
  cases arg with
  | scalar c => rfl
  | absent => rfl
  | array a =>
    suffices hread : m.store.read a.loc = s'.read a.loc from
      congrArg (Tensor.mk a.dtype a.shape) hread
    by_cases hw : ∃ j v b, (j, v) ∈ r.writeBacks ∧ args[j]? = some (.array b) ∧ b.loc = a.loc
    · obtain ⟨j, v, b, hv, hb, hloc⟩ := hw
      rw [← hloc]
      exact read_of_written hr hone hf hs' hv hb
    · have hno : ∀ j v b, (j, v) ∈ r.writeBacks → args[j]? = some (.array b) → b.loc ≠ a.loc :=
        fun j v b hv hb heq => hw ⟨j, v, b, hv, hb, heq⟩
      rw [hs'.kept (hfits _ harg a rfl).1 hno]
      exact read_of_not_written hr hclass hfits henv hf hi hno

/-- A returned value that is not the caller's own array lives in no argument. -/
theorem home_of_slot (hr : Reached r)
    (hclass : r.tape.params.map Param.argClass = args.map ArgClass.ofArg) {x : Handle}
    (hx : r.Valid x) (hnot : ∀ i : Nat, r.paramVars[i]? = some (some x.var) → x.kind ≠ .array) :
    (r.finish name returned).home args (r.valueOf x.var) = none := by
  rcases hhome : (r.finish name returned).home args (r.valueOf x.var) with - | a
  · rfl
  · obtain ⟨i, howner, hi⟩ := Graph.home_eq_some.mp hhome
    have hvar := hr.versions.held hx.1 howner
    obtain ⟨y, hy, hkind⟩ := var_of_array hr hclass hi
    cases Option.some.inj (Option.some.inj (hvar.symm.trans hy))
    rw [hx.2] at hkind
    exact absurd hkind (hnot i hvar)

/-- Returned values of a run in place hold what the snapshot says. -/
theorem slotContents_of_follows (hr : Reached r) (hvalid : ∀ x ∈ returned.toList, r.Valid x)
    (hclass : r.tape.params.map Param.argClass = args.map ArgClass.ofArg)
    (hf : (r.finish name returned).Follows args (r.finish name returned).nodes.length env m)
    (hstore : ∀ arg ∈ args, arg.tensor m.store = arg.tensor s') :
    ∀ slot ∈ (r.finish name returned).outputs,
      Graph.slotContents args ((r.finish name returned).look args m) m.store slot =
        Graph.slotContents args (env.getD · .blank) s' slot := by
  intro slot hslot
  obtain ⟨x, hmem, heq⟩ := List.mem_map.mp hslot
  have hx := hvalid x hmem
  rcases hr.slotOf_cases hx with ⟨i, hi, hvar, -⟩ | ⟨hval, hnot⟩
  · obtain rfl := hi.symm.trans heq
    show (args.getD i .absent).tensor _ = (args.getD i .absent).tensor _
    rcases hget : args[i]? with - | arg
    · rw [List.getD, hget]
      rfl
    · rw [List.getD, hget]
      exact hstore arg (List.mem_of_getElem? hget)
  · obtain rfl := hval.symm.trans heq
    have hhome : (r.finish name returned).home args (r.valueOf x.var) = none :=
      home_of_slot hr hclass hx hnot
    refine hf.same (known_end hr (hr.valueOf_lt hx.1)) ?_ ?_
    · intro n hn
      obtain ⟨form, k, hinfo⟩ := Graph.producer_eq_some.mp hn
      exact settled_of_root hr (Recorder.slot_mem_roots hslot hinfo) n hn
    · intro a b n node u ha
      rw [hhome] at ha
      cases ha

/-- What a launch returned for a slot holds what the snapshot says. -/
theorem slotContents_of_fills {built : List (ValueId × Operand)} {base : Nat}
    (hbuilt : Built r.tape env base s' built) {slot : ReturnSlot} {o : Operand}
    (h : Fills args built slot o) :
    Graph.slotContents args (env.getD · .blank) s' slot = o.tensor s' := by
  cases slot with
  | param i =>
    obtain ⟨arg, harg, ho⟩ := argOperand_eq_ok.mp h
    show (args.getD i .absent).tensor s' = _
    rw [List.getD, harg, Option.getD_some, Arg.tensor_of_operand ho]
  | value v =>
    show env.getD v .blank = _
    rw [List.getD, (hbuilt.contents h).1, Option.getD_some]

end

/-- The check of shared storage is sound.  If the arrays of no hazard share
storage, running the nodes in place, in program order, ends as the snapshot
does whose write-backs are committed in the end: it fails with the same error,
or the returned values and all arguments hold the same.  So it ends as a
launch on the host does. -/
theorem hazards_sound {fn : Function} {tag name : String} {args : List Arg}
    {returned : Returned Handle} {r : Recorder} {s : Store}
    (hrec : record fn (args.map ArgClass.ofArg) tag .empty = (.ok returned, r))
    (hfits : ∀ arg ∈ args, arg.Fits s) (hclone : Graph.Cloned args)
    (hraces : ∀ p ∈ (r.finish name returned).hazards, shareStorage args p.1 p.2 = false) :
    let g := r.finish name returned
    ExceptRel (fun env m =>
        (∀ slot ∈ g.outputs, Graph.slotContents args (g.look args m) m.store slot =
          Graph.slotContents args (env.getD · .blank) (commit (g.writesOf args env) s) slot) ∧
        ∀ arg ∈ args, arg.tensor m.store = arg.tensor (commit (g.writesOf args env) s))
      (g.toTape.snapshot (inputsOf args s)) (g.runInPlace args s) ∧
    ∀ b, ofGraph g Host.backend = .ok b →
      ExceptRel (fun m ret =>
          List.Forall₂ (fun slot o => Graph.slotContents args (g.look args m) m.store slot =
            o.tensor (b.launch args s).2) g.outputs ret.toList ∧
          ∀ arg ∈ args, arg.tensor m.store = arg.tensor (b.launch args s).2)
        (g.runInPlace args s) (b.launch args s).1 := by
  intro g
  obtain ⟨hr, hclass, hvalid⟩ := reached_of_record hrec
  have hvalid := hvalid returned rfl
  have hone := oneWriter_of_hazards hr hraces
  have hrun := (raceFree_of_hazards hr hclass hraces hclone).run hfits
  rcases henv : g.toTape.snapshot (inputsOf args s) with e | env
  · rw [henv] at hrun
    generalize g.runInPlace args s = run at hrun ⊢
    cases hrun
    refine ⟨.error e, ?_⟩
    intro b hb
    rw [launch_of_snapshot_error hr hclass hfits henv (graph_of_ofGraph hb)]
    exact .error e
  · rw [henv] at hrun
    generalize g.runInPlace args s = run at hrun ⊢
    cases hrun with
    | @ok _ m hf =>
      have hstore : ∀ {s' : Store}, Committed r env args s s' →
          ∀ arg ∈ args, arg.tensor m.store = arg.tensor s' :=
        fun hs' => tensor_of_follows hr hclass hfits henv hone hf hs'
      refine ⟨.ok ?_, ?_⟩
      · have hcommitted : Committed r env args s (commit (g.writesOf args env) s) :=
          (commit_host hr hclass hfits henv hone fun a data => Graph.mem_writesOf).2
        exact ⟨slotContents_of_follows hr hvalid hclass hf (hstore hcommitted), hstore hcommitted⟩
      · intro b hb
        obtain ⟨us, s', hlaunch, -, hdel⟩ := launch_host rfl hr hvalid hclass hfits henv
          (checkRaces_eq_ok.mpr hraces) hone hb
        have hargs := hstore hdel.toCommitted
        obtain ⟨built, hbuilt, hfill⟩ := hdel.values
        rw [hlaunch]
        refine .ok ⟨forall₂_of_getElem? hfill.length_eq ?_, hargs⟩
        intro k slot o hslot ho
        obtain ⟨o', ho', hfills⟩ := forall₂_getElem? hfill hslot
        cases ho.symm.trans ho'
        exact (slotContents_of_follows hr hvalid hclass hf hargs slot
          (List.mem_of_getElem? hslot)).trans (slotContents_of_fills hbuilt hfills)

/-- A body that adds a second array to a first, looks at the second once more
to no avail, and adds the first to a third. -/
def addAlong : Function :=
  ⟨"add_along", none,
    [.arg (.one "a") 0, .arg (.one "b") 1, .arg (.one "c") 2, .inplace .drop .add "a" "b",
      .ufunc (.one "d") .add ["b", "b"] none, .inplace .drop .add "c" "a",
      .ret (.tuple ["a", "c"])]⟩

/-- The first two arrays share storage, which is no hazard.  The third must not
share it. -/
theorem hazards_sound_add_along :
    let args : List Arg := [.array ⟨0, .int .w64, ⟨[2]⟩⟩, .array ⟨0, .int .w64, ⟨[2]⟩⟩,
      .array ⟨1, .int .w64, ⟨[2]⟩⟩]
    let store : Store := ⟨[[.int 3, .int 4], [.int 10, .int 20]]⟩
    ∃ returned r m b ret s', record addAlong (args.map ArgClass.ofArg) Host.backend.name .empty =
        (.ok returned, r) ∧ (r.finish "kernel" returned).hazards = [(0, 2), (2, 0)] ∧
      (r.finish "kernel" returned).runInPlace args store = .ok m ∧
      ofGraph (r.finish "kernel" returned) Host.backend = .ok b ∧
      b.launch args store = (.ok ret, s') ∧ ∀ arg ∈ args, arg.tensor m.store = arg.tensor s' := by
  intro args store
  have hok : ∃ returned, (record addAlong (args.map ArgClass.ofArg) Host.backend.name .empty).1 =
      .ok returned ∧
        ((record addAlong (args.map ArgClass.ofArg) Host.backend.name .empty).2.finish "kernel"
          returned).hazards = [(0, 2), (2, 0)] ∧
        ∃ b, ofGraph ((record addAlong (args.map ArgClass.ofArg) Host.backend.name .empty).2.finish
          "kernel" returned) Host.backend = .ok b ∧ (∃ ret, (b.launch args store).1 = .ok ret ∧
            ret.arity = .tuple 2) := by
    decide +kernel
  rcases hrec : record addAlong (args.map ArgClass.ofArg) Host.backend.name .empty with ⟨res, r⟩
  rw [hrec] at hok
  obtain ⟨returned, rfl, hhaz, b, hb, ret, hret, -⟩ := hok
  obtain ⟨-, hlaunch⟩ := hazards_sound hrec (by decide +kernel : ∀ arg ∈ args, arg.Fits store)
    (by decide +kernel : Graph.Cloned args) (by rw [hhaz]; decide +kernel)
  have hend := hlaunch b hb
  rw [hret] at hend
  generalize hrun : (r.finish "kernel" returned).runInPlace args store = run at hend
  cases hend with
  | @ok m _ h => exact ⟨returned, r, m, b, ret, _, rfl, hhaz, hrun, hb, Prod.ext hret rfl, h.2⟩

end Bundle

end ArrayFusion
