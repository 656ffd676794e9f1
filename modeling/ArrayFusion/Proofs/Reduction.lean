/-
ArrayFusion/Proofs/Reduction.lean

A reduction of an array that fills its shape has a result that fills the
reduced shape.

Design.  An axis splits the extents into those before it, its own, and those
behind it, and so it splits an offset (`slotOf_lt_count`).  Every slot that an
element is sent to therefore exists, and folding elements in never fails
(`pushAll_spec`).
-/
import ArrayFusion.Proofs.Casting
import ArrayFusion.Proofs.Except
import ArrayFusion.Proofs.Shape.Index
import ArrayFusion.Reduction.Fold

namespace ArrayFusion

/-! ### Slots -/

namespace Shape

/-- The shape after a reduction. -/
def without (s : Shape) : (axis : Option Nat) → Shape
  | none => .scalar
  | some a => ⟨s.dims.eraseIdx a⟩

end Shape

namespace Reduction

open Shape (extent extent_append extent_cons)

/-- The extents without an axis, as those before it and those behind it. -/
theorem extent_eraseIdx (dims : List Nat) (a : Nat) :
    extent (dims.eraseIdx a) = extent (dims.take a) * extent (dims.drop (a + 1)) := by
  rw [List.eraseIdx_eq_take_drop_succ, extent_append]

theorem extent_split {dims : List Nat} {a : Nat} (h : a < dims.length) :
    extent dims = extent (dims.take a) * (dims.getD a 1 * extent (dims.drop (a + 1))) := by
  conv => lhs; rw [← List.take_append_drop a dims]
  rw [extent_append, List.drop_eq_getElem_cons h, extent_cons]
  simp [List.getD, h]

/-- Dropping the middle digit of an offset in `p * (l * i)` keeps it below
`p * i`. -/
theorem slot_lt {p l i flat : Nat} (h : flat < p * (l * i)) :
    flat / (i * l) * i + flat % i < p * i := by
  have hi : 0 < i := by
    rcases Nat.eq_zero_or_pos i with rfl | hi
    · simp at h
    · exact hi
  have hq : flat / (i * l) < p := by
    rw [Nat.mul_comm i l]
    exact Nat.div_lt_of_lt_mul (by rwa [Nat.mul_comm])
  calc flat / (i * l) * i + flat % i < flat / (i * l) * i + i :=
        Nat.add_lt_add_left (Nat.mod_lt _ hi) _
    _ = (flat / (i * l) + 1) * i := by rw [Nat.add_mul, Nat.one_mul]
    _ ≤ p * i := Nat.mul_le_mul_right _ hq

theorem reducedShape_none {op : Reduction} {shape out : Shape}
    (h : op.reducedShape shape none = .ok out) : out = .scalar := by
  obtain ⟨mid, hmid, h⟩ := except_bind_eq_ok.mp h
  cases hmid
  dsimp only at h
  split at h <;> cases h
  rfl

theorem reducedShape_some {op : Reduction} {shape out : Shape} {a : Nat}
    (h : op.reducedShape shape (some a) = .ok out) :
    a < shape.ndim ∧ out = ⟨shape.dims.eraseIdx a⟩ := by
  obtain ⟨mid, hmid, h⟩ := except_bind_eq_ok.mp h
  unfold Shape.removeAxis at hmid
  split at hmid
  · next ha =>
    cases hmid
    dsimp only at h
    split at h <;> cases h
    exact ⟨ha, rfl⟩
  · cases hmid

theorem reducedShape_eq_ok {op : Reduction} {shape out : Shape} {axis : Option Nat}
    (h : op.reducedShape shape axis = .ok out) :
    (∀ a ∈ axis, a < shape.ndim) ∧ out = shape.without axis := by
  cases axis with
  | none => exact ⟨nofun, reducedShape_none h⟩
  | some a =>
    obtain ⟨ha, hout⟩ := reducedShape_some h
    refine ⟨?_, hout⟩
    rintro b ⟨rfl⟩
    exact ha

/-- A shape with elements that is in a word is so after a reduction. -/
theorem inWord_of_reducedShape {op : Reduction} {shape out : Shape} {axis : Option Nat}
    (h : op.reducedShape shape axis = .ok out) (hpos : 0 < shape.count) (hw : shape.InWord) :
    out.InWord := by
  obtain ⟨ha, rfl⟩ := reducedShape_eq_ok h
  cases axis with
  | none =>
    show 1 < Shape.wordSize
    decide
  | some a =>
    show extent (shape.dims.eraseIdx a) < Shape.wordSize
    rw [extent_eraseIdx]
    rw [Shape.count, extent_split (ha a rfl)] at hpos
    rw [Shape.InWord, Shape.count, extent_split (ha a rfl)] at hw
    have hmid : 0 < shape.dims.getD a 1 := Nat.pos_of_mul_pos_right (Nat.pos_of_mul_pos_left hpos)
    exact Nat.lt_of_le_of_lt (Nat.mul_le_mul_left _ (Nat.le_mul_of_pos_left _ hmid)) hw

-- an empty axis does not bound the others
example : sum.reducedShape ⟨[4294967296, 0, 4294967296]⟩ (some 1) =
      .ok ⟨[4294967296, 4294967296]⟩ ∧
    Shape.InWord ⟨[4294967296, 0, 4294967296]⟩ ∧ ¬ Shape.InWord ⟨[4294967296, 4294967296]⟩ := by
  decide

/-- Elements of an array go to slots of the result. -/
theorem slotOf_lt_count {shape : Shape} {axis : Option Nat} (ha : ∀ a ∈ axis, a < shape.ndim)
    {flat : Nat} (hf : flat < shape.count) : slotOf shape axis flat < (shape.without axis).count := by
  cases axis with
  | none => exact Nat.one_pos
  | some a =>
    show _ < extent (shape.dims.eraseIdx a)
    rw [extent_eraseIdx]
    rw [Shape.count, extent_split (ha a rfl)] at hf
    exact slot_lt hf

/-- Where there is an element, its slot is not found by a division by zero. -/
theorem divisor_pos {shape : Shape} {a : Nat} (ha : a < shape.ndim) {flat : Nat}
    (hf : flat < shape.count) :
    0 < extent (shape.dims.drop (a + 1)) * shape.dims.getD a 1 := by
  rw [Shape.count, extent_split ha] at hf
  have hsize := Nat.zero_lt_of_lt hf
  rw [Nat.mul_comm]
  exact Nat.pos_of_mul_pos_left hsize

theorem canonical_identity {op : Reduction} {d : DType} {e : Elem} (h : op.identity d = some e) :
    e.Canonical d := by
  cases op <;> cases h <;> exact Elem.canonical_cast _ d

end Reduction

/-! ### Folding elements in -/

namespace Accumulator

/-- The slots that have a value hold it in the form the dtype stores. -/
def Canonical (acc : Accumulator) : Prop :=
  ∀ e, some e ∈ acc.slots → e.Canonical acc.dtype

theorem canonical_start (op : Reduction) (d : DType) (len : Nat) : (start op d len).Canonical := by
  intro e he
  exact Reduction.canonical_identity (List.eq_of_mem_replicate he).symm

theorem canonical_fill (acc : Accumulator) (slot : Option Elem) (value : Elem) :
    (acc.fill slot value).Canonical acc.dtype := by
  cases slot <;> exact Elem.canonical_cast _ _

/-- What one more element keeps. -/
theorem push_spec {acc : Accumulator} (hc : acc.Canonical) {slot : Nat}
    (h : slot < acc.slots.length) (value : Elem) :
    ∃ acc', acc.push slot value = .ok acc' ∧ acc'.Canonical ∧ acc'.dtype = acc.dtype ∧
      acc'.slots.length = acc.slots.length := by
  unfold push
  rw [List.getElem?_eq_getElem h]
  refine ⟨_, rfl, ?_, rfl, List.length_set⟩
  intro e he
  rcases List.mem_or_eq_of_mem_set he with he | he
  · exact hc e he
  · cases he
    exact acc.canonical_fill _ value

/-- Folding elements in never fails if each has a slot. -/
theorem pushAll_spec {slotAt : Nat → Nat} {acc : Accumulator} (hc : acc.Canonical) {flat : Nat}
    {data : List Elem} (h : ∀ k, k < data.length → slotAt (flat + k) < acc.slots.length) :
    ∃ acc', acc.pushAll slotAt flat data = .ok acc' ∧ acc'.Canonical ∧ acc'.dtype = acc.dtype ∧
      acc'.slots.length = acc.slots.length := by
  induction data generalizing acc flat with
  | nil => exact ⟨acc, rfl, hc, rfl, rfl⟩
  | cons e es ih =>
    obtain ⟨acc₁, h₁, hc₁, hd₁, hl₁⟩ := push_spec hc (h 0 (by simp)) e
    have hrest : ∀ k, k < es.length → slotAt (flat + 1 + k) < acc₁.slots.length := by
      intro k hk
      rw [hl₁, Nat.add_assoc, Nat.add_comm 1 k]
      exact h (k + 1) (by simpa using hk)
    obtain ⟨acc₂, h₂, hc₂, hd₂, hl₂⟩ := ih hc₁ hrest
    refine ⟨acc₂, ?_, hc₂, hd₂.trans hd₁, hl₂.trans hl₁⟩
    rw [pushAll]
    rw [Nat.add_zero] at h₁
    rw [h₁]
    exact h₂

@[simp] theorem length_finish (acc : Accumulator) : acc.finish.length = acc.slots.length := by
  simp [finish]

theorem canonical_finish {acc : Accumulator} (h : acc.Canonical) :
    ∀ e ∈ acc.finish, e.Canonical acc.dtype := by
  intro e he
  obtain ⟨slot, hs, rfl⟩ := List.mem_map.mp he
  cases slot with
  | none => exact Elem.canonical_zero _
  | some e => exact h e hs

end Accumulator

/-- A reduction of elements that fill their shape fails only if there is no
reduced shape. -/
theorem Reduction.reduceElems_spec {op : Reduction} {data : List Elem} {shape out : Shape}
    {axis : Option Nat} (d : DType) (hd : data.length = shape.count)
    (ho : op.reducedShape shape axis = .ok out) :
    ∃ acc, (Accumulator.start op (op.outputDType d) out.count).pushAll (slotOf shape axis) 0 data
        = .ok acc ∧
      op.reduceElems data shape d axis = .ok (acc.finish, out) ∧
      acc.finish.length = out.count ∧ ∀ e ∈ acc.finish, e.Canonical (op.outputDType d) := by
  have hslots : ∀ k, k < data.length → slotOf shape axis (0 + k) <
      (Accumulator.start op (op.outputDType d) out.count).slots.length := by
    intro k hk
    rw [Nat.zero_add, Accumulator.start, List.length_replicate]
    obtain ⟨haxis, rfl⟩ := reducedShape_eq_ok ho
    exact slotOf_lt_count haxis (hd ▸ hk)
  obtain ⟨acc, hacc, hc, hdt, hl⟩ :=
    Accumulator.pushAll_spec (Accumulator.canonical_start _ _ _) hslots
  refine ⟨acc, hacc, ?_, ?_, ?_⟩
  · rw [reduceElems, ho, except_bind_ok]
    simp only [hacc]
    rfl
  · rw [Accumulator.length_finish, hl, Accumulator.start, List.length_replicate]
  · have := Accumulator.canonical_finish hc
    rwa [hdt] at this

end ArrayFusion
