/-
ArrayFusion/Shape/Basic.lean

Shapes: the extents of an array, outermost axis first.

The number of elements of a shape is `count`.  The program computes it, and
offsets of elements, in machine words that wrap around: `size` is what it gets.
The two agree as long as the number of elements is one of a word (`InWord`).
Arrays are described with `count`, and so for shapes in a word only.  Every
array that has its elements in memory is of such a shape.  The shape of a
result need not be: broadcasting multiplies extents of different operands, and
a reduction along an empty axis leaves extents that no elements bound.
-/
namespace ArrayFusion

/-- The extents of an array along its axes. -/
structure Shape where
  dims : List Nat
  deriving DecidableEq

namespace Shape

/-- The shape without axes. -/
def scalar : Shape := ⟨[]⟩

/-- Number of axes. -/
def ndim (s : Shape) : Nat :=
  s.dims.length

/-- Number of elements of a block with the given extents. -/
def extent (dims : List Nat) : Nat :=
  dims.foldr (· * ·) 1

/-- Number of elements. -/
def count (s : Shape) : Nat :=
  extent s.dims

/-- Number of values of a machine word, which has sixty-four bits. -/
def wordSize : Nat := 18446744073709551616

/-- What a machine word keeps of a number. -/
def word (n : Nat) : Nat :=
  n % wordSize

/-- Number of elements, computed in machine words. -/
def size (s : Shape) : Nat :=
  s.dims.foldl (fun n d => word (n * d)) 1

/-- The number of elements is one of a machine word. -/
def InWord (s : Shape) : Prop :=
  s.count < wordSize

instance (s : Shape) : Decidable s.InWord :=
  inferInstanceAs (Decidable (_ < _))

/-- The text of a shape: `()`, `(5,)`, `(2, 3)`. -/
def text (s : Shape) : String :=
  match s.dims with
  | [d] => "(" ++ toString d ++ ",)"
  | ds => "(" ++ ", ".intercalate (ds.map toString) ++ ")"

/-! ### Small facts -/

@[simp] theorem extent_nil : extent [] = 1 := rfl

@[simp] theorem extent_cons (d : Nat) (ds : List Nat) : extent (d :: ds) = d * extent ds := rfl

@[simp] theorem ndim_scalar : scalar.ndim = 0 := rfl

@[simp] theorem count_scalar : scalar.count = 1 := rfl

end Shape

end ArrayFusion
