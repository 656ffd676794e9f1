/-
ArrayFusion/Body/Method.lean

Short names of the operations that bodies use most: arithmetic and
comparisons, augmented assignments and reductions.
-/
import ArrayFusion.Body.Basic

namespace ArrayFusion

/-- What a short name stands for. -/
inductive Method
  | pointwise (f : Ufunc)
  | inplace (f : Ufunc)
  | reduce (op : Reduction)

namespace Method

/-- Functions that have a short name, which is their own. -/
def pointwiseFunctions : List Ufunc :=
  [.add, .subtract, .multiply, .trueDivide, .floorDivide, .remainder, .fmod, .power, .maximum,
   .minimum, .fmax, .fmin, .arctan2, .hypot, .greater, .greaterEqual, .less, .lessEqual, .equal,
   .notEqual, .logicalAnd, .logicalOr, .logicalXor, .bitwiseAnd, .bitwiseOr, .bitwiseXor,
   .leftShift, .rightShift, .ldexp, .negative, .absolute, .sign, .square, .sqrt, .exp, .log,
   .sin, .cos, .tanh, .floor, .ceil, .logicalNot, .isnan, .invert, .select, .clip, .modf,
   .divmod, .frexp]

/-- Names of the augmented assignments. -/
def inplaceFunctions : List (String × Ufunc) :=
  [("iadd", .add), ("isub", .subtract), ("imul", .multiply), ("itruediv", .trueDivide),
   ("ifloordiv", .floorDivide), ("imod", .remainder), ("ipow", .power), ("iand", .bitwiseAnd),
   ("ior", .bitwiseOr), ("ixor", .bitwiseXor), ("ilshift", .leftShift),
   ("irshift", .rightShift)]

/-- The operation of a short name. -/
def ofName? (name : String) : Option Method :=
  match pointwiseFunctions.find? fun f => f.name == name with
  | some f => some (.pointwise f)
  | none =>
    match inplaceFunctions.lookup name with
    | some f => some (.inplace f)
    | none => (Reduction.ofName? name).map .reduce

/-- The statement that applies a method to variables; none if their number
does not fit. -/
def stmt? (m : Method) (dest : Binder) (inputs : List String) (axis : Option Nat) : Option Stmt :=
  match m, inputs with
  | .pointwise f, xs => if xs.length = f.nin then some (.ufunc dest f xs none) else none
  | .inplace f, [target, other] => some (.inplace dest f target other)
  | .reduce op, [x] => some (.reduce dest op x axis)
  | _, _ => none

end Method

end ArrayFusion
