/-
ArrayFusion/Proofs/Tensor.lean

Contents of a value, apart from where they are stored: dtype, shape and
elements.

Design.  A tensor whose elements fill its shape is a function on the indices
of that shape (`map_get_indices`), and broadcasting extends it to the
indices of every larger shape (`get`).  The loops of evaluation op at a time
are restated as maps over indices here, so that later proofs compare
elements and never positions in lists.
-/
import ArrayFusion.Eager
import ArrayFusion.Proofs.Reduction
import ArrayFusion.Proofs.Ufunc

namespace ArrayFusion

/-- The contents of an array or a scalar. -/
structure Tensor where
  dtype : DType
  shape : Shape
  data : List Elem
  deriving DecidableEq

namespace Tensor

/-- The elements fill the shape. -/
def Sized (t : Tensor) : Prop :=
  t.data.length = t.shape.count

/-- The elements are in the form the dtype stores. -/
def Canonical (t : Tensor) : Prop :=
  ∀ e ∈ t.data, e.Canonical t.dtype

instance (t : Tensor) : Decidable t.Sized :=
  inferInstanceAs (Decidable (_ = _))

instance (t : Tensor) : Decidable t.Canonical :=
  inferInstanceAs (Decidable (∀ e ∈ t.data, e.cast t.dtype = e))

/-- The element that broadcasting puts at an index. -/
def get (t : Tensor) (index : List Nat) : Elem :=
  t.data.getD (t.shape.sourceOffset index) (Elem.zero t.dtype)

/-- The contents of a scalar. -/
def ofScalar (c : Scalar) : Tensor :=
  ⟨c.dtype, .scalar, [c.value]⟩

/-- Elements and shape, as loops take them. -/
def content (t : Tensor) : List Elem × Shape :=
  (t.data, t.shape)

theorem sized_ofScalar (c : Scalar) : (ofScalar c).Sized := rfl

/-! ### Elements -/

theorem getElem?_of_broadcast {t : Tensor} (ht : t.Sized) {s : Shape}
    (hs : t.shape.BroadcastsInto s) {index : List Nat} (hi : s.InRange index) :
    t.data[t.shape.sourceOffset index]? = some (t.get index) := by
  have hlt : t.shape.sourceOffset index < t.data.length := by
    rw [ht]
    exact Shape.sourceOffset_lt_count hs hi
  rw [get, List.getD, List.getElem?_eq_getElem hlt, Option.getD_some]

/-- The index may be pulled back to the tensor's own shape first. -/
theorem get_unbroadcast {t : Tensor} {s : Shape} (hs : t.shape.BroadcastsInto s)
    {index : List Nat} (hi : s.InRange index) :
    t.get (t.shape.unbroadcast index) = t.get index := by
  have hr := Shape.inRange_unbroadcast hs hi
  rw [get, get, Shape.sourceOffset_self hr, Shape.sourceOffset_eq]

/-- The elements are the values at the indices of the shape, in order. -/
theorem map_get_indices {t : Tensor} (ht : t.Sized) : t.shape.indices.map t.get = t.data := by
  apply List.ext_getElem?
  intro flat
  by_cases h : flat < t.shape.count
  · have hr := Shape.inRange_unravel h
    rw [List.getElem?_map, Shape.getElem?_indices h, Option.map_some,
      ← getElem?_of_broadcast ht (Shape.broadcastsInto_refl _) hr,
      Shape.sourceOffset_self hr, Shape.offset_unravel h]
  · rw [List.getElem?_eq_none (by simpa using h),
      List.getElem?_eq_none (by rw [ht]; exact Nat.le_of_not_lt h)]

/-- The elements of a tensor made over the indices of its shape. -/
theorem get_of_data {t : Tensor} {g : List Nat → Elem} (h : t.data = t.shape.indices.map g)
    {index : List Nat} (hi : t.shape.InRange index) : t.get index = g index := by
  rw [get, Shape.sourceOffset_self hi, h, List.getD, Shape.getElem?_map_indices g hi,
    Option.getD_some]

theorem sized_of_data {t : Tensor} {g : List Nat → Elem} (h : t.data = t.shape.indices.map g) :
    t.Sized := by
  rw [Sized, h, List.length_map, Shape.length_indices]

/-! ### Loops -/

theorem fetch_eq_ok {t : Tensor} (ht : t.Sized) {s : Shape} (hs : t.shape.BroadcastsInto s)
    {index : List Nat} (hi : s.InRange index) :
    Eager.fetch t.data t.shape index = .ok (t.get index) := by
  rw [Eager.fetch, getElem?_of_broadcast ht hs hi]

/-- Both outputs of a loop at an index. -/
def rowAt (f : Ufunc) (loop : Loop) (inputs : List Tensor) (index : List Nat) : Elem × Elem :=
  f.apply loop ((inputs.zip loop.inputs).map fun p => (p.1.get index).cast p.2)

theorem arguments_eq_ok {inputs : List Tensor} {s : Shape}
    (h : ∀ t ∈ inputs, t.Sized ∧ t.shape.BroadcastsInto s) (loop : Loop) {index : List Nat}
    (hi : s.InRange index) :
    Eager.arguments (inputs.map content) loop index =
      .ok ((inputs.zip loop.inputs).map fun p => (p.1.get index).cast p.2) := by
  rw [Eager.arguments, List.zip_map_left, List.mapM_map]
  apply mapM_eq_ok_map
  rintro ⟨t, d⟩ hp
  obtain ⟨ht, hs⟩ := h t (List.of_mem_zip hp).1
  show (Eager.fetch t.data t.shape index >>= _) = _
  rw [fetch_eq_ok ht hs hi]
  rfl

/-- A loop over operands that fill their shapes and broadcast never fails. -/
theorem runLoop_eq_ok {inputs : List Tensor} {s : Shape}
    (h : ∀ t ∈ inputs, t.Sized ∧ t.shape.BroadcastsInto s) (f : Ufunc) (loop : Loop) :
    Eager.runLoop f loop (inputs.map content) s = .ok (s.indices.map (rowAt f loop inputs)) := by
  apply mapM_eq_ok_map
  intro index hi
  rw [arguments_eq_ok h loop (Shape.mem_indices_iff.mp hi)]
  rfl

/-- The column of an output holds it at every index. -/
theorem getElem?_columns {loop : Loop} {rows : List (Elem × Elem)} {k : Nat}
    (h : k < loop.outputs.length) (h2 : k < 2) :
    (Eager.columns loop rows)[k]? = some (rows.map (Ufunc.pick k)) := by
  rw [Eager.columns, List.getElem?_take_of_lt h]
  match k, h2 with
  | 0, _ => rfl
  | 1, _ => rfl

theorem length_columns {loop : Loop} (h : loop.outputs.length ≤ 2) (rows : List (Elem × Elem)) :
    (Eager.columns loop rows).length = loop.outputs.length := by
  simp [Eager.columns, h]

end Tensor

end ArrayFusion
