/-
ArrayFusion/DType/Promotion.lean

Finding a common dtype.  `DType.promote` joins two dtypes and
`DType.resultType` joins the dtypes of a list of operands.

Scalars weigh less than arrays: when both occur, the scalars are left out
unless the highest scalar category lies above the highest array category.
The decision is taken once for the whole list.
-/
import ArrayFusion.DType

namespace ArrayFusion

/-- What promotion looks at in an operand. -/
structure OperandType where
  /-- Its dtype. -/
  dtype : DType
  /-- Whether it is a scalar. -/
  isScalar : Bool
  deriving DecidableEq

/-- The smallest float whose significand holds every integer of the width,
as far as one exists. -/
def Width.floatFor : Width → Precision
  | .w8 => .half
  | .w16 => .single
  | .w32 => .double
  | .w64 => .double

/-- The next wider width. -/
def Width.next? : Width → Option Width
  | .w8 => some .w16
  | .w16 => some .w32
  | .w32 => some .w64
  | .w64 => none

namespace DType

/-- Common dtype of an unsigned and a signed integer: the signed one if it
is wider, else the next wider signed integer, else double precision. -/
def promoteMixed (u s : Width) : DType :=
  if u.bytes < s.bytes then .int s
  else match u.next? with
    | some w => .int w
    | none => .float .double

/-- Common dtype of two dtypes. -/
def promote : DType → DType → DType
  | .bool, d => d
  | d, .bool => d
  | .int v, .int w => .int (v.max w)
  | .uint v, .uint w => .uint (v.max w)
  | .float p, .float q => .float (p.max q)
  | .float p, .int w => .float (p.max w.floatFor)
  | .float p, .uint w => .float (p.max w.floatFor)
  | .int w, .float p => .float (w.floatFor.max p)
  | .uint w, .float p => .float (w.floatFor.max p)
  | .uint u, .int s => promoteMixed u s
  | .int s, .uint u => promoteMixed u s

/-- Left-to-right join of a list of dtypes; none for the empty list. -/
def promoteAll : List DType → Option DType
  | [] => none
  | d :: ds => some (ds.foldl promote d)

/-- Highest category rank among the operands that are scalars (or are
arrays, with `scalars := false`). -/
def topCategory (scalars : Bool) (operands : List OperandType) : Option Nat :=
  ((operands.filter fun o => o.isScalar == scalars).map fun o => o.dtype.category.rank).max?

/-- Whether scalar operands take part in finding the common dtype. -/
def scalarsCount (operands : List OperandType) : Bool :=
  match topCategory false operands, topCategory true operands with
  | some a, some s => decide (a < s)
  | _, _ => true

/-- Common dtype of a list of operands; none for the empty list. -/
def resultType (operands : List OperandType) : Option DType :=
  promoteAll ((operands.filter fun o => scalarsCount operands || !o.isScalar).map (·.dtype))

/-- Whether casting `source` to `target` stays within a kind or goes up. -/
def canCastSameKind (source target : DType) : Bool :=
  decide (source.kind.rank ≤ target.kind.rank)

/-- The dtype float functions run in: floats keep theirs, bools and integers
take the smallest float that fits. -/
def floatLift : DType → DType
  | .bool => .float .half
  | .int w => .float w.floatFor
  | .uint w => .float w.floatFor
  | .float p => .float p

end DType

end ArrayFusion
