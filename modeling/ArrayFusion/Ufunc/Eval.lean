/-
ArrayFusion/Ufunc/Eval.lean

What each elementwise function does to one set of elements.

Inputs arrive cast to the dtypes of the loop.  Integers are computed in
sixty-four bits and reduced to the loop's width afterwards, floats in
double precision and rounded afterwards.  Evaluation op at a time and
kernels both go through `Ufunc.apply`.
-/
import ArrayFusion.Elem
import ArrayFusion.Binary64.Elementary
import ArrayFusion.Ufunc.Loop
import ArrayFusion.Ufunc.Word

namespace ArrayFusion.Ufunc

/-! ### One operation, four representations -/

/-- Applies the form of a binary operation that belongs to a kind. -/
def binary (k : Kind) (signed : Int64 → Int64 → Int64) (unsigned : UInt64 → UInt64 → UInt64)
    (flt : Float → Float → Float) (logic : Bool → Bool → Bool) (a b : Elem) : Elem :=
  match k with
  | .bool => .bool (logic a.toBool b.toBool)
  | .signed => .int (signed a.toInt64 b.toInt64)
  | .unsigned => .uint (unsigned a.toUInt64 b.toUInt64)
  | .float => .float (flt a.toFloat b.toFloat)

/-- Applies the form of a unary operation that belongs to a kind. -/
def unary (k : Kind) (signed : Int64 → Int64) (unsigned : UInt64 → UInt64)
    (flt : Float → Float) (logic : Bool → Bool) (a : Elem) : Elem :=
  match k with
  | .bool => .bool (logic a.toBool)
  | .signed => .int (signed a.toInt64)
  | .unsigned => .uint (unsigned a.toUInt64)
  | .float => .float (flt a.toFloat)

/-- Order of two elements of a kind; none if one is not a number. -/
def order (k : Kind) (a b : Elem) : Option Ordering :=
  match k with
  | .bool => some (Ord.compare a.toBool b.toBool)
  | .signed => some (Ord.compare a.toInt64 b.toInt64)
  | .unsigned => some (Ord.compare a.toUInt64 b.toUInt64)
  | .float =>
    let x := a.toFloat
    let y := b.toFloat
    if x < y then some .lt else if y < x then some .gt else if x == y then some .eq else none

/-- The larger of two elements. -/
def larger (k : Kind) : Elem → Elem → Elem :=
  binary k (fun x y => if x ≤ y then y else x) (fun x y => if x ≤ y then y else x)
    Binary64.maximum (· || ·)

/-- The smaller of two elements. -/
def smaller (k : Kind) : Elem → Elem → Elem :=
  binary k (fun x y => if x ≤ y then x else y) (fun x y => if x ≤ y then x else y)
    Binary64.minimum (· && ·)

/-- The quotient rounded down. -/
def floorQuotient (k : Kind) : Elem → Elem → Elem :=
  binary k Word.floorDiv Word.divide Binary64.floorDiv (fun x _ => x)

/-- The remainder of division rounded down. -/
def floorRest (k : Kind) : Elem → Elem → Elem :=
  binary k Word.floorMod Word.modulo Binary64.floorMod (fun _ _ => false)

/-- The left shift in a dtype. -/
def shiftedLeft (d : DType) (a b : Elem) : Elem :=
  let bits := 8 * d.bytes
  if d.isUnsigned then .uint (Word.shiftLeftUnsigned bits a.toUInt64 b.toUInt64)
  else .int (Word.shiftLeft bits a.toInt64 b.toInt64)

/-- The right shift in a dtype. -/
def shiftedRight (d : DType) (a b : Elem) : Elem :=
  let bits := 8 * d.bytes
  if d.isUnsigned then .uint (Word.shiftRightUnsigned bits a.toUInt64 b.toUInt64)
  else .int (Word.shiftRight bits a.toInt64 b.toInt64)

/-- The neighbour of a number in a dtype; all but the two narrow floats use
double precision. -/
def neighbour (d : DType) (x y : Float) : Float :=
  match d with
  | .float p => Binary64.nextAfter p x y
  | _ => Binary64.nextAfter .double x y

/-! ### The functions -/

/-- Value of a function with one output, computed in dtype `d`; for a
function with two outputs, the first one. -/
def first (f : Ufunc) (d : DType) (a b c : Elem) : Elem :=
  let k := d.kind
  let onFloat (g : Float → Float) : Elem := .float (g a.toFloat)
  let onFloats (g : Float → Float → Float) : Elem := .float (g a.toFloat b.toFloat)
  match f with
  | .add => binary k (· + ·) (· + ·) (· + ·) (· || ·) a b
  | .subtract => binary k (· - ·) (· - ·) (· - ·) (· ^^ ·) a b
  | .multiply => binary k (· * ·) (· * ·) (· * ·) (· && ·) a b
  | .trueDivide => onFloats (· / ·)
  | .floorDivide => floorQuotient k a b
  | .remainder => floorRest k a b
  | .fmod => binary k Word.truncMod Word.modulo Binary64.fmod (fun _ _ => false) a b
  | .power => binary k Word.powerSigned Word.power Float.pow (fun x _ => x) a b
  | .maximum => larger k a b
  | .minimum => smaller k a b
  | .fmax =>
    binary k (fun x y => if x ≤ y then y else x) (fun x y => if x ≤ y then y else x)
      Binary64.maxNumber (· || ·) a b
  | .fmin =>
    binary k (fun x y => if x ≤ y then x else y) (fun x y => if x ≤ y then x else y)
      Binary64.minNumber (· && ·) a b
  | .absolute => unary k Word.absolute id Float.abs id a
  | .negative => unary k (- ·) (- ·) (- ·) id a
  | .sign => unary k Word.sign Word.signUnsigned Binary64.sign id a
  | .square => binary k (· * ·) (· * ·) (· * ·) (· && ·) a a
  | .reciprocal => unary k Word.reciprocal (Word.divide 1) (1.0 / ·) id a
  | .sqrt => onFloat Float.sqrt
  | .cbrt => onFloat Float.cbrt
  | .exp => onFloat Float.exp
  | .exp2 => onFloat Float.exp2
  | .expm1 => onFloat Binary64.expm1
  | .log => onFloat Float.log
  | .log2 => onFloat Float.log2
  | .log10 => onFloat Float.log10
  | .log1p => onFloat Binary64.log1p
  | .sin => onFloat Float.sin
  | .cos => onFloat Float.cos
  | .tan => onFloat Float.tan
  | .arcsin => onFloat Float.asin
  | .arccos => onFloat Float.acos
  | .arctan => onFloat Float.atan
  | .sinh => onFloat Float.sinh
  | .cosh => onFloat Float.cosh
  | .tanh => onFloat Float.tanh
  | .arcsinh => onFloat Float.asinh
  | .arccosh => onFloat Float.acosh
  | .arctanh => onFloat Float.atanh
  | .deg2rad => onFloat Binary64.toRadians
  | .rad2deg => onFloat Binary64.toDegrees
  | .floor => onFloat Float.floor
  | .ceil => onFloat Float.ceil
  | .trunc => onFloat Binary64.trunc
  | .rint => onFloat Binary64.rint
  | .arctan2 => onFloats Float.atan2
  | .hypot => onFloats Binary64.hypot
  | .copysign => onFloats Binary64.copySign
  | .nextafter => onFloats (neighbour d)
  | .logaddexp => onFloats Binary64.logaddexp
  | .logaddexp2 => onFloats Binary64.logaddexp2
  | .greater => .bool (order k a b == some .gt)
  | .greaterEqual => .bool (order k a b == some .gt || order k a b == some .eq)
  | .less => .bool (order k a b == some .lt)
  | .lessEqual => .bool (order k a b == some .lt || order k a b == some .eq)
  | .equal => .bool (order k a b == some .eq)
  | .notEqual => .bool (order k a b != some .eq)
  | .logicalAnd => .bool (a.toBool && b.toBool)
  | .logicalOr => .bool (a.toBool || b.toBool)
  | .logicalXor => .bool (a.toBool ^^ b.toBool)
  | .logicalNot => .bool !a.toBool
  | .isnan => .bool a.toFloat.isNaN
  | .isinf => .bool a.toFloat.isInf
  | .isfinite => .bool a.toFloat.isFinite
  | .signbit => .bool (Binary64.isNegative a.toFloat)
  | .bitwiseAnd => binary k (· &&& ·) (· &&& ·) (fun x _ => x) (· && ·) a b
  | .bitwiseOr => binary k (· ||| ·) (· ||| ·) (fun x _ => x) (· || ·) a b
  | .bitwiseXor => binary k (· ^^^ ·) (· ^^^ ·) (fun x _ => x) (· ^^ ·) a b
  | .invert => unary k (~~~ ·) (~~~ ·) id (! ·) a
  | .leftShift => shiftedLeft d a b
  | .rightShift => shiftedRight d a b
  | .modf => .float (Binary64.modf a.toFloat).1
  | .divmod => floorQuotient k a b
  | .frexp => .float (Binary64.frexp a.toFloat).1
  | .ldexp => .float (Binary64.ldexp a.toFloat b.toInt64.toInt)
  | .select => if a.toBool then b else c
  | .clip => smaller k (larger k a b) c

/-- The second output of a function that has one. -/
def second (f : Ufunc) (d : DType) (a b : Elem) : Elem :=
  match f with
  | .modf => .float (Binary64.modf a.toFloat).2
  | .divmod => floorRest d.kind a b
  | .frexp => .int (Int64.ofInt (Binary64.frexp a.toFloat).2)
  | _ => .bool false

/-- Both outputs of a function on a list of elements, computed in dtype `d`
and not yet cast.  A missing operand repeats the first one. -/
def eval (f : Ufunc) (d : DType) (args : List Elem) : Elem × Elem :=
  let a := args.headD (.bool false)
  let b := args.getD 1 a
  let c := args.getD 2 a
  (f.first d a b c, f.second d a b)

/-- Casts an output if the loop gives it a dtype. -/
def castOutput (dtype : Option DType) (e : Elem) : Elem :=
  match dtype with
  | some d => e.cast d
  | none => e

/-- Both outputs of a function, cast to the dtypes of the loop.  Only as
many as the loop has outputs mean anything. -/
def apply (f : Ufunc) (loop : Loop) (args : List Elem) : Elem × Elem :=
  let raw := f.eval loop.compute args
  (castOutput loop.outputs[0]? raw.1, castOutput loop.outputs[1]? raw.2)

/-- Applies a binary function with one output in a dtype. -/
def combine (f : Ufunc) (d : DType) (a b : Elem) : Elem :=
  (f.eval d [a, b]).1.cast d

end ArrayFusion.Ufunc
