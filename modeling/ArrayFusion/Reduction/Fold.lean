/-
ArrayFusion/Reduction/Fold.lean

Folding the elements of an array.

An accumulator has one slot per element of the result.  A slot starts at
the identity of the reduction, or empty where there is none, in which case
the first element pushed fills it.  Elements come in row-major order;
`slotOf` says which slot an element belongs to.
-/
import ArrayFusion.Shape.Broadcast
import ArrayFusion.Ufunc.Eval

namespace ArrayFusion

namespace Reduction

/-- The value a fold starts from, in the dtype of the result. -/
def identity (op : Reduction) (d : DType) : Option Elem :=
  match op with
  | sum => some ((Elem.int 0).cast d)
  | prod => some ((Elem.int 1).cast d)
  | all => some ((Elem.bool true).cast d)
  | any => some ((Elem.bool false).cast d)
  | amax => none
  | amin => none

/-- Folds one more element in. -/
def combine (op : Reduction) (d : DType) (acc value : Elem) : Elem :=
  op.ufunc.combine d acc value

/-- Elements that go into one slot of the result. -/
def countAlong (shape : Shape) : (axis : Option Nat) → Nat
  | none => shape.count
  | some a => shape.dims.getD a 1

/-- The shape of the result.  A reduction without identity fails when a slot
would receive no element. -/
def reducedShape (op : Reduction) (shape : Shape) (axis : Option Nat) : Except Error Shape := do
  let out ← match axis with
    | none => .ok Shape.scalar
    | some a => shape.removeAxis a
  if countAlong shape axis = 0 ∧ 0 < out.count ∧ op.hasIdentity = false then
    .error (.shape (.emptyReduction op))
  else .ok out

/-- The slot of the element at a row-major offset. -/
def slotOf (shape : Shape) (axis : Option Nat) (flat : Nat) : Nat :=
  match axis with
  | none => 0
  | some a =>
    let inner := Shape.extent (shape.dims.drop (a + 1))
    let len := shape.dims.getD a 1
    flat / (inner * len) * inner + flat % inner

end Reduction

/-- The running state of a reduction. -/
structure Accumulator where
  op : Reduction
  dtype : DType
  slots : List (Option Elem)

namespace Accumulator

/-- An accumulator with `len` slots. -/
def start (op : Reduction) (d : DType) (len : Nat) : Accumulator :=
  ⟨op, d, List.replicate len (op.identity d)⟩

/-- A slot after one more element. -/
def fill (acc : Accumulator) (slot : Option Elem) (value : Elem) : Elem :=
  match slot with
  | some e => acc.op.combine acc.dtype e (value.cast acc.dtype)
  | none => value.cast acc.dtype

/-- Folds an element into a slot. -/
def push (acc : Accumulator) (slot : Nat) (value : Elem) : Except Error Accumulator :=
  match acc.slots[slot]? with
  | some cell => .ok { acc with slots := acc.slots.set slot (some (acc.fill cell value)) }
  | none => .error (.fault .slot)

/-- The slots' values; a slot that stayed empty counts as zero. -/
def finish (acc : Accumulator) : List Elem :=
  acc.slots.map fun slot => slot.getD (Elem.zero acc.dtype)

/-- Folds elements in, each into the slot of its offset. -/
def pushAll (slotAt : Nat → Nat) : Accumulator → (flat : Nat) → List Elem → Except Error Accumulator
  | acc, _, [] => .ok acc
  | acc, flat, e :: es => do
    let acc ← acc.push (slotAt flat) e
    pushAll slotAt acc (flat + 1) es

end Accumulator

/-- Reduces the elements of an array; yields elements and shape of the
result. -/
def Reduction.reduceElems (op : Reduction) (data : List Elem) (shape : Shape) (input : DType)
    (axis : Option Nat) : Except Error (List Elem × Shape) := do
  let out ← op.reducedShape shape axis
  let acc := Accumulator.start op (op.outputDType input) out.count
  let acc ← acc.pushAll (slotOf shape axis) 0 data
  return (acc.finish, out)

end ArrayFusion
