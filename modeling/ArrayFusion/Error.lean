/-
ArrayFusion/Error.lean

Everything that can go wrong, by cause, and the one place that words it.

`Error` separates five groups.  *Trace* errors say that a body cannot be
fused.  *Shape* and *type* errors are raised by evaluation op at a time and
by fused calls alike, with the same payload.  *Data race* and *backend*
errors belong to fused calls only.  Beside them stand `unbound`, for a body
that names a variable it never bound, and `fault`, for an access outside
storage: neither arises from well-formed bodies and arrays.
-/
import ArrayFusion.DType
import ArrayFusion.Shape.Basic
import ArrayFusion.Ufunc.Basic
import ArrayFusion.Reduction.Basic

namespace ArrayFusion

/-- A question about an array's contents, which a recording cannot answer. -/
inductive DataQuestion
  | truth
  | item
  deriving DecidableEq

/-- Why a body cannot be fused. -/
inductive TraceError
  | dataDependent (what : DataQuestion)
  | multipleReductions (first second : Reduction)
  | missingArgument (index : Nat)
  | unsupported (reason : String)
  deriving DecidableEq

/-- Why shapes do not fit together. -/
inductive ShapeError
  | notBroadcastable (shapes : List Shape)
  | outputMismatch (output broadcast : Shape)
  | setItem (source target : Shape)
  | axisOutOfBounds (axis ndim : Nat)
  | emptyReduction (op : Reduction)
  | tooManyIndices
  deriving DecidableEq

/-- Why dtypes or kinds of values do not fit an operation. -/
inductive TypeError
  | argumentCount (function : String) (takes given : Nat)
  | boolNegative
  | boolSubtract
  | noLoop (f : Ufunc)
  | outputCount (f : Ufunc) (expects given : Nat)
  | outputNotArray
  | outputCast (f : Ufunc) (source target : DType)
  | scalarAssignment
  | ambiguousTruth
  | notOneElement
  | absentReturned
  deriving DecidableEq

/-- Why a backend cannot compile or run a kernel. -/
inductive BackendError
  | notReduction (kernel : String) (node : Nat)
  | missingElement (param offset : Nat)
  | strayReduction (node : Nat)
  | resultLength (given param expected : Nat)
  | notComputed (value : Nat)
  | other (reason : String)
  deriving DecidableEq

/-- An access outside storage, or data that does not fill its shape. -/
inductive Fault
  | lengthMismatch
  | offset
  | slot
  | operand
  | cycle
  deriving DecidableEq

/-- A failure. -/
inductive Error
  | trace (e : TraceError)
  | shape (e : ShapeError)
  | type (e : TypeError)
  | dataRace (written other : Nat)
  | backend (e : BackendError)
  | unbound (name : String)
  | fault (f : Fault)
  deriving DecidableEq

/-! ### Wording -/

/-- The name of a question. -/
def DataQuestion.name : DataQuestion → String
  | .truth => "bool"
  | .item => "item"

/-- The wording of a trace error. -/
def TraceError.message : TraceError → String
  | .dataDependent what =>
    "not fusable: " ++ what.name ++
      " of a traced value is data dependent and cannot be resolved while tracing"
  | .multipleReductions first second =>
    "not fusable: a fused function may contain at most one reduction, found " ++
      first.name ++ " and " ++ second.name
  | .missingArgument index =>
    "not fusable: argument " ++ toString index ++ " is absent but used as a value"
  | .unsupported reason => "not fusable: " ++ reason

/-- The wording of a shape error. -/
def ShapeError.message : ShapeError → String
  | .notBroadcastable shapes =>
    "operands could not be broadcast together with shapes " ++
      " ".intercalate (shapes.map Shape.text)
  | .outputMismatch output broadcast =>
    "non-broadcastable output operand with shape " ++ output.text ++
      " doesn't match the broadcast shape " ++ broadcast.text
  | .setItem source target =>
    "could not broadcast input array from shape " ++ source.text ++
      " into shape " ++ target.text
  | .axisOutOfBounds axis ndim =>
    "axis " ++ toString axis ++ " is out of bounds for array of dimension " ++ toString ndim
  | .emptyReduction op =>
    "zero-size array to reduction operation " ++ op.ufunc.name ++ " which has no identity"
  | .tooManyIndices =>
    "too many indices for array: array is 0-dimensional, but 1 were indexed"

/-- The wording of a type error. -/
def TypeError.message : TypeError → String
  | .argumentCount function takes given =>
    function ++ "() takes " ++ toString takes ++ " positional arguments but " ++
      toString given ++ " were given"
  | .boolNegative =>
    "The numpy boolean negative, the `-` operator, is not supported, " ++
      "use the `~` operator or the logical_not function instead."
  | .boolSubtract =>
    "numpy boolean subtract, the `-` operator, is not supported, " ++
      "use the bitwise_xor, the `^` operator, or the logical_xor function instead."
  | .noLoop f =>
    "ufunc '" ++ f.name ++ "' not supported for the input types, and the inputs could not " ++
      "be safely coerced to any supported types according to the casting rule ''safe''"
  | .outputCount f expects given =>
    "ufunc '" ++ f.name ++ "' expects " ++ toString expects ++ " output operands, got " ++
      toString given
  | .outputNotArray => "return arrays must be of ArrayType"
  | .outputCast f source target =>
    "Cannot cast ufunc '" ++ f.name ++ "' output from dtype('" ++ source.name ++
      "') to dtype('" ++ target.name ++ "') with casting rule 'same_kind'"
  | .scalarAssignment => "scalar values do not support item assignment"
  | .ambiguousTruth =>
    "The truth value of an array with more than one element is ambiguous. " ++
      "Use a.any() or a.all()"
  | .notOneElement => "can only convert an array of size 1 to a Python scalar"
  | .absentReturned => "cannot return an absent argument"

/-- The wording of a backend error. -/
def BackendError.message : BackendError → String
  | .notReduction kernel node =>
    "backend error: kernel '" ++ kernel ++ "': node n" ++ toString node ++ " is not a reduction"
  | .missingElement param offset =>
    "backend error: argument " ++ toString param ++ " has no element " ++ toString offset
  | .strayReduction node =>
    "backend error: reduction n" ++ toString node ++ " evaluated outside its kernel"
  | .resultLength given param expected =>
    "backend error: kernel produced " ++ toString given ++ " elements for argument " ++
      toString param ++ " of " ++ toString expected ++ " elements"
  | .notComputed value => "backend error: no kernel computed v" ++ toString value
  | .other reason => "backend error: " ++ reason

/-- The wording of a fault. -/
def Fault.message : Fault → String
  | .lengthMismatch => "data length must match shape size"
  | .offset => "offset outside storage"
  | .slot => "slot outside the accumulator"
  | .operand => "operand missing"
  | .cycle => "value depends on itself"

namespace Error

/-- The wording of an error. -/
def message : Error → String
  | .trace e => e.message
  | .shape e => e.message
  | .type e => e.message
  | .dataRace written other =>
    "data race: argument " ++ toString written ++ " is updated in place but argument " ++
      toString other ++ ", which shares its memory, is used after the update"
  | .backend e => e.message
  | .unbound name => "variable " ++ name ++ " is not bound"
  | .fault f => f.message

/-- Whether the error says that a body cannot be fused. -/
def isTrace : Error → Bool
  | .trace _ => true
  | _ => false

end Error

end ArrayFusion
