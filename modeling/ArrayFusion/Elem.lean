/-
ArrayFusion/Elem.lean

Elements and scalars.  An element is a truth value, a signed or unsigned
word of sixty-four bits, or a double.  Narrower dtypes use the same four
representations: an element is *canonical* for a dtype when casting it to
that dtype leaves it alone.

Integer casts reduce modulo the width.  `wrapInt` picks the representative
in the signed range and `wrapUInt` the one in the unsigned range.  How a cast
rounds to half precision is a parameter (`castBy`); elements are cast with
`Binary64.toHalf`.
-/
import ArrayFusion.DType
import ArrayFusion.Binary64.Format
import ArrayFusion.Decimal.Shortest

namespace ArrayFusion

/-- One element of an array. -/
inductive Elem
  | bool (b : Bool)
  | int (i : Int64)
  | uint (u : UInt64)
  | float (x : Float)
  deriving DecidableEq

/-! ### Wrapping words -/

/-- Number of values of an integer of the width. -/
def Width.modulus : Width → Nat
  | .w8 => 256
  | .w16 => 65536
  | .w32 => 4294967296
  | .w64 => 18446744073709551616

/-- The representative of `i` modulo the width in the signed range. -/
def Width.wrapInt (w : Width) (i : Int64) : Int64 :=
  Int64.ofInt (i.toInt.bmod w.modulus)

/-- The representative of `u` modulo the width in the unsigned range. -/
def Width.wrapUInt (w : Width) (u : UInt64) : UInt64 :=
  UInt64.ofNat (u.toNat % w.modulus)

/-- A double without its fraction, kept within the signed range;
not-a-number becomes zero. -/
def Binary64.toInt64 (x : Float) : Int64 :=
  if x.isNaN then 0 else x.toInt64

namespace Elem

/-! ### Views -/

/-- The element as a double. -/
def toFloat : Elem → Float
  | .bool b => if b then 1.0 else 0.0
  | .int i => i.toFloat
  | .uint u => u.toFloat
  | .float x => x

/-- The element as a signed word: unsigned words are read in two's
complement, doubles lose their fraction and saturate. -/
def toInt64 : Elem → Int64
  | .bool b => if b then 1 else 0
  | .int i => i
  | .uint u => u.toInt64
  | .float x => Binary64.toInt64 x

/-- The element as an unsigned word: signed words are read in two's
complement, and so are doubles below zero. -/
def toUInt64 : Elem → UInt64
  | .bool b => if b then 1 else 0
  | .int i => i.toUInt64
  | .uint u => u
  | .float x => if x ≥ 0.0 then x.toUInt64 else (Binary64.toInt64 x).toUInt64

/-- Whether the element is not zero. -/
def toBool : Elem → Bool
  | .bool b => b
  | .int i => i != 0
  | .uint u => u != 0
  | .float x => x != 0.0

/-! ### Casting -/

/-- The element converted to a dtype, with a given rounding to half
precision. -/
def castBy (half : Float → Float) (e : Elem) : DType → Elem
  | .bool => .bool e.toBool
  | .int w => .int (w.wrapInt e.toInt64)
  | .uint w => .uint (w.wrapUInt e.toUInt64)
  | .float p => .float (p.roundBy half e.toFloat)

/-- The element converted to a dtype. -/
def cast (e : Elem) (d : DType) : Elem :=
  e.castBy Binary64.toHalf d

/-- The zero of a dtype. -/
def zero (d : DType) : Elem :=
  (Elem.bool false).cast d

/-- Whether the element is in the form a dtype stores. -/
def Canonical (e : Elem) (d : DType) : Prop :=
  e.cast d = e

/-- The text of an element. -/
def text : Elem → String
  | .bool b => if b then "True" else "False"
  | .int i => toString i
  | .uint u => toString u
  | .float x => Decimal.text x

end Elem

/-! ### Scalars -/

/-- A single element with its dtype. -/
structure Scalar where
  dtype : DType
  value : Elem
  deriving DecidableEq

namespace Scalar

/-- A scalar from any element, cast to the dtype. -/
def ofElem (d : DType) (e : Elem) : Scalar :=
  ⟨d, e.cast d⟩

/-- The scalar converted to another dtype. -/
def astype (s : Scalar) (d : DType) : Scalar :=
  ofElem d s.value

/-- The text of a scalar, such as `int8(5)`. -/
def text (s : Scalar) : String :=
  s.dtype.name ++ "(" ++ s.value.text ++ ")"

end Scalar

end ArrayFusion
