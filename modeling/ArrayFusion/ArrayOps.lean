/-
ArrayFusion/ArrayOps.lean

The operations a body may use, with the kind of value left open.  A body
written against them runs on real arrays as well as on the placeholders of
a recording.
-/
import ArrayFusion.Operand
import ArrayFusion.Shape.Region

namespace ArrayFusion

/-- Array operations on values of type `V`, acting on states of type
`σ`. -/
structure ArrayOps (σ V : Type) where
  /-- Name of the backend the body runs for. -/
  tag : String
  /-- The dtype of a value. -/
  dtype : V → DType
  /-- Number of axes of a value. -/
  ndim : V → Nat
  /-- Whether a value is an array or a scalar. -/
  kind : V → ArgKind
  /-- A constant. -/
  scalar : Scalar → Exec σ V
  /-- Applies an elementwise function; one value per output. -/
  ufunc : Ufunc → List V → Exec σ (List V)
  /-- Applies an elementwise function and writes into existing arrays, which
  it returns. -/
  ufuncOut : Ufunc → (inputs outs : List V) → Exec σ (List V)
  /-- Reduces along an axis, or over all axes. -/
  reduce : Reduction → V → Option Nat → Exec σ V
  /-- Converts to a dtype. -/
  astype : V → DType → Exec σ V
  /-- Overwrites a region of an array. -/
  assign : (target source : V) → Region → Exec σ Unit
  /-- Truth of a value with one element. -/
  truth : V → Exec σ Bool
  /-- The only element of a value. -/
  item : V → Exec σ Scalar

namespace ArrayOps

variable {σ V : Type}

/-- Augmented assignment.  An array is updated in place and stays the same
value; a scalar cannot be updated, so the result is a new value. -/
def inplace (ops : ArrayOps σ V) (f : Ufunc) (target other : V) : Exec σ (List V) :=
  match ops.kind target with
  | .array => do
    let _ ← ops.ufuncOut f [target, other] [target]
    return [target]
  | _ => do
    let outputs ← ops.ufunc f [target, other]
    return outputs.take 1

end ArrayOps

end ArrayFusion
