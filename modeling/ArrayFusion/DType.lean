/-
ArrayFusion/DType.lean

The element types of arrays.  A dtype is a truth value, a signed or
unsigned integer of one of four widths, or a binary float of one of three
precisions.

Two coarser views matter for type resolution:

* the *kind* (`DType.kind`) orders bool < unsigned < signed < float, and a
  cast is "same kind" when it does not go down in that order;
* the *category* (`DType.category`) forgets signedness, and decides whether
  scalar operands take part in finding a common dtype.
-/
namespace ArrayFusion

/-- Width of an integer dtype. -/
inductive Width
  | w8
  | w16
  | w32
  | w64
  deriving DecidableEq

/-- Precision of a float dtype. -/
inductive Precision
  | half
  | single
  | double
  deriving DecidableEq

/-- The type of an array's elements. -/
inductive DType
  | bool
  | int (w : Width)
  | uint (w : Width)
  | float (p : Precision)
  deriving DecidableEq

/-- Kinds of dtypes, in casting order. -/
inductive Kind
  | bool
  | unsigned
  | signed
  | float
  deriving DecidableEq

/-- Categories of dtypes, in promotion order. -/
inductive Category
  | bool
  | integer
  | float
  deriving DecidableEq

/-! ### Sizes -/

/-- Storage size in bytes. -/
def Width.bytes : Width → Nat
  | .w8 => 1
  | .w16 => 2
  | .w32 => 4
  | .w64 => 8

/-- Size in bits. -/
def Width.bits (w : Width) : Nat :=
  8 * w.bytes

/-- Storage size in bytes. -/
def Precision.bytes : Precision → Nat
  | .half => 2
  | .single => 4
  | .double => 8

/-- Storage size of one element in bytes; a truth value takes one. -/
def DType.bytes : DType → Nat
  | .bool => 1
  | .int w => w.bytes
  | .uint w => w.bytes
  | .float p => p.bytes

/-- The wider of two widths. -/
def Width.max (v w : Width) : Width :=
  if w.bytes ≤ v.bytes then v else w

/-- The more precise of two precisions. -/
def Precision.max (p q : Precision) : Precision :=
  if q.bytes ≤ p.bytes then p else q

/-! ### Classification -/

/-- Position of a kind in casting order. -/
def Kind.rank : Kind → Nat
  | .bool => 0
  | .unsigned => 1
  | .signed => 2
  | .float => 3

/-- The name of a kind. -/
def Kind.name : Kind → String
  | .bool => "Bool"
  | .unsigned => "Unsigned"
  | .signed => "Signed"
  | .float => "Float"

/-- The name of a category. -/
def Category.name : Category → String
  | .bool => "Bool"
  | .integer => "Integer"
  | .float => "Float"

/-- Position of a category in promotion order. -/
def Category.rank : Category → Nat
  | .bool => 0
  | .integer => 1
  | .float => 2

namespace DType

/-- The kind of a dtype. -/
def kind : DType → Kind
  | .bool => .bool
  | .int _ => .signed
  | .uint _ => .unsigned
  | .float _ => .float

/-- The category of a dtype. -/
def category : DType → Category
  | .bool => .bool
  | .int _ => .integer
  | .uint _ => .integer
  | .float _ => .float

/-- Whether the dtype is a float. -/
def isFloat : DType → Bool
  | .float _ => true
  | _ => false

/-- Whether the dtype is a signed integer. -/
def isSigned : DType → Bool
  | .int _ => true
  | _ => false

/-- Whether the dtype is an unsigned integer. -/
def isUnsigned : DType → Bool
  | .uint _ => true
  | _ => false

/-- Whether the dtype is an integer. -/
def isInteger (d : DType) : Bool :=
  d.isSigned || d.isUnsigned

/-! ### Names -/

/-- Every dtype. -/
def all : List DType :=
  [.bool, .int .w8, .int .w16, .int .w32, .int .w64,
   .uint .w8, .uint .w16, .uint .w32, .uint .w64,
   .float .half, .float .single, .float .double]

/-- The canonical name, such as `float32`. -/
def name : DType → String
  | .bool => "bool"
  | .int .w8 => "int8"
  | .int .w16 => "int16"
  | .int .w32 => "int32"
  | .int .w64 => "int64"
  | .uint .w8 => "uint8"
  | .uint .w16 => "uint16"
  | .uint .w32 => "uint32"
  | .uint .w64 => "uint64"
  | .float .half => "float16"
  | .float .single => "float32"
  | .float .double => "float64"

/-- The short name, such as `f32`; bool has no shorter one. -/
def shortName : DType → String
  | .bool => "bool"
  | .int .w8 => "i8"
  | .int .w16 => "i16"
  | .int .w32 => "i32"
  | .int .w64 => "i64"
  | .uint .w8 => "u8"
  | .uint .w16 => "u16"
  | .uint .w32 => "u32"
  | .uint .w64 => "u64"
  | .float .half => "f16"
  | .float .single => "f32"
  | .float .double => "f64"

/-- The spelling of the dtype in kernel source. -/
def cType : DType → String
  | .bool => "bool"
  | .int .w8 => "signed char"
  | .int .w16 => "short"
  | .int .w32 => "int"
  | .int .w64 => "long long"
  | .uint .w8 => "unsigned char"
  | .uint .w16 => "unsigned short"
  | .uint .w32 => "unsigned int"
  | .uint .w64 => "unsigned long long"
  | .float .half => "float16"
  | .float .single => "float"
  | .float .double => "double"

/-- Reads a canonical or short name, in any case.  The letters of the names
are ASCII and no other character has one of them as its lower case, so
lowering ASCII letters is enough. -/
def ofName? (s : String) : Option DType :=
  let key := s.toLower
  all.find? fun d => key == d.name || key == d.shortName

end DType

end ArrayFusion
