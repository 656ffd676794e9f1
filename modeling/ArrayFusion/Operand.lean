/-
ArrayFusion/Operand.lean

The values bodies compute with (arrays and scalars), the positional
arguments of a call, and what a body returns.
-/
import ArrayFusion.DType.Promotion
import ArrayFusion.Store

namespace ArrayFusion

/-- What a positional argument is. -/
inductive ArgKind
  | array
  | scalar
  | absent
  deriving DecidableEq

/-- The name of a kind of argument. -/
def ArgKind.name : ArgKind → String
  | .array => "array"
  | .scalar => "scalar"
  | .absent => "absent"

/-- An array or a scalar. -/
inductive Operand
  | array (a : NDArray)
  | scalar (s : Scalar)
  deriving DecidableEq

namespace Operand

/-- The dtype of the value. -/
def dtype : Operand → DType
  | .array a => a.dtype
  | .scalar s => s.dtype

/-- The shape of the value; scalars have no axes. -/
def shape : Operand → Shape
  | .array a => a.shape
  | .scalar _ => .scalar

/-- Number of axes. -/
def ndim (o : Operand) : Nat :=
  o.shape.ndim

/-- Whether the value is a scalar. -/
def isScalar : Operand → Bool
  | .array _ => false
  | .scalar _ => true

/-- Array or scalar. -/
def kind : Operand → ArgKind
  | .array _ => .array
  | .scalar _ => .scalar

/-- The array, if it is one. -/
def array? : Operand → Option NDArray
  | .array a => some a
  | .scalar _ => none

/-- The scalar, if it is one. -/
def scalar? : Operand → Option Scalar
  | .array _ => none
  | .scalar s => some s

/-- What promotion looks at. -/
def type (o : Operand) : OperandType :=
  ⟨o.dtype, o.isScalar⟩

/-- The elements in row-major order; a scalar has one. -/
def elems (o : Operand) (s : Store) : List Elem :=
  match o with
  | .array a => a.elems s
  | .scalar c => [c.value]

end Operand

/-- A positional argument of a call. -/
inductive Arg
  | array (a : NDArray)
  | scalar (s : Scalar)
  | absent
  deriving DecidableEq

namespace Arg

/-- Array, scalar or absent. -/
def kind : Arg → ArgKind
  | .array _ => .array
  | .scalar _ => .scalar
  | .absent => .absent

/-- The dtype, if there is a value. -/
def dtype? : Arg → Option DType
  | .array a => some a.dtype
  | .scalar s => some s.dtype
  | .absent => none

/-- The shape; scalars and absent arguments have no axes. -/
def shape : Arg → Shape
  | .array a => a.shape
  | _ => .scalar

/-- Number of axes. -/
def ndim (a : Arg) : Nat :=
  a.shape.ndim

/-- The value, if there is one. -/
def operand? : Arg → Option Operand
  | .array a => some (.array a)
  | .scalar s => some (.scalar s)
  | .absent => none

/-- The elements in row-major order; an absent argument has none. -/
def elems (arg : Arg) (s : Store) : List Elem :=
  match arg with
  | .array a => a.elems s
  | .scalar c => [c.value]
  | .absent => []

end Arg

/-- An operand passed as an argument. -/
def Operand.toArg : Operand → Arg
  | .array a => .array a
  | .scalar s => .scalar s

/-- What a body returns. -/
inductive Returned (α : Type)
  | none
  | single (a : α)
  | tuple (as : List α)
  deriving DecidableEq

/-- The form of what a body returns. -/
inductive Arity
  | none
  | single
  | tuple (n : Nat)
  deriving DecidableEq

/-- The text of an arity. -/
def Arity.text : Arity → String
  | .none => "None"
  | .single => "Single"
  | .tuple n => "Tuple(" ++ toString n ++ ")"

namespace Returned

variable {α β : Type}

/-- The form of a returned value. -/
def arity : Returned α → Arity
  | .none => .none
  | .single _ => .single
  | .tuple as => .tuple as.length

/-- The returned values in order. -/
def toList : Returned α → List α
  | .none => []
  | .single a => [a]
  | .tuple as => as

/-- A returned value of a given form; a single one is the last part. -/
def ofParts (arity : Arity) (parts : List α) : Returned α :=
  match arity with
  | .none => .none
  | .single =>
    match parts.getLast? with
    | some a => .single a
    | Option.none => .none
  | .tuple _ => .tuple parts

/-- The name of a form of return. -/
def formName : Returned α → String
  | .none => "none"
  | .single _ => "single"
  | .tuple _ => "tuple"

end Returned

end ArrayFusion
