/-
ArrayFusion/Store.lean

Arrays and the storage behind them.

A store is a growing list of buffers.  An array is a handle: the location
of its buffer, its dtype and its shape.  Two handles with one location
share storage, so a write through either shows through both.  Buffers are
never freed and never change their length.  The shapes of arrays are taken to
be in a word (`Shape.InWord`), where elements are counted exactly.
-/
import ArrayFusion.Elem
import ArrayFusion.Exec
import ArrayFusion.Shape.Index

namespace ArrayFusion

/-- The contents of all buffers, by location. -/
structure Store where
  buffers : List (List Elem)

/-- A handle on an array. -/
structure NDArray where
  loc : Nat
  dtype : DType
  shape : Shape
  deriving DecidableEq

namespace Store

/-- The store without buffers. -/
def empty : Store := ⟨[]⟩

/-- The contents of a buffer. -/
def read (s : Store) (loc : Nat) : List Elem :=
  s.buffers.getD loc []

/-- Replaces the contents of a buffer. -/
def write (s : Store) (loc : Nat) (data : List Elem) : Store :=
  ⟨s.buffers.set loc data⟩

/-- Adds a buffer at the end. -/
def push (s : Store) (data : List Elem) : Store :=
  ⟨s.buffers ++ [data]⟩

@[simp] theorem length_write (s : Store) (loc : Nat) (data : List Elem) :
    (s.write loc data).buffers.length = s.buffers.length := by
  simp [write]

@[simp] theorem length_push (s : Store) (data : List Elem) :
    (s.push data).buffers.length = s.buffers.length + 1 := by
  simp [push]

theorem read_write_self {s : Store} {loc : Nat} (h : loc < s.buffers.length)
    (data : List Elem) : (s.write loc data).read loc = data := by
  simp [read, write, h]

theorem read_write_of_ne (s : Store) {loc other : Nat} (h : loc ≠ other) (data : List Elem) :
    (s.write loc data).read other = s.read other := by
  simp [read, write, h]

@[simp] theorem read_push_self (s : Store) (data : List Elem) :
    (s.push data).read s.buffers.length = data := by
  simp [read, push]

end Store

/-- `new` laid over the front of `old`: the length stays that of `old`. -/
def overlay : (old new : List Elem) → List Elem
  | [], _ => []
  | old, [] => old
  | _ :: old, n :: new => n :: overlay old new

@[simp] theorem length_overlay (old new : List Elem) :
    (overlay old new).length = old.length := by
  fun_induction overlay old new <;> simp_all

/-- New contents of full length replace all of the old ones. -/
theorem overlay_of_length_eq {old new : List Elem} (h : old.length = new.length) :
    overlay old new = new := by
  fun_induction overlay old new with
  | case1 new => exact (List.eq_nil_of_length_eq_zero h.symm).symm
  | case2 => simp_all
  | case3 => simp_all

namespace NDArray

/-- Number of axes. -/
def ndim (a : NDArray) : Nat :=
  a.shape.ndim

/-- Number of elements the shape calls for. -/
def size (a : NDArray) : Nat :=
  a.shape.count

/-- Whether two arrays share storage. -/
def Shares (a b : NDArray) : Prop :=
  a.loc = b.loc

instance (a b : NDArray) : Decidable (a.Shares b) :=
  inferInstanceAs (Decidable (_ = _))

/-! ### Reading -/

/-- The elements in row-major order. -/
def elems (a : NDArray) (s : Store) : List Elem :=
  s.read a.loc

/-- The element at an index; none if the index is out of range. -/
def get? (a : NDArray) (s : Store) (index : List Nat) : Option Scalar :=
  if a.shape.InRange index then
    (a.elems s)[a.shape.offset index]?.map (Scalar.ofElem a.dtype)
  else none

/-- The only element; none unless there is exactly one. -/
def item? (a : NDArray) (s : Store) : Option Scalar :=
  if a.size = 1 then (a.elems s).head?.map (Scalar.ofElem a.dtype) else none

/-- The text of an array. -/
def text (a : NDArray) (s : Store) : String :=
  "array([" ++ ", ".intercalate ((a.elems s).map Elem.text) ++ "], shape=" ++ a.shape.text ++
    ", dtype=" ++ a.dtype.name ++ ")"

/-! ### Making arrays -/

/-- A new array over the given elements, which are stored as they are. -/
def alloc (data : List Elem) (d : DType) (shape : Shape) : Exec Store NDArray :=
  fun s => (.ok ⟨s.buffers.length, d, shape⟩, s.push data)

/-- A new array of one repeated scalar. -/
def full (value : Scalar) (shape : Shape) : Exec Store NDArray :=
  alloc (List.replicate shape.count (value.value.cast value.dtype)) value.dtype shape

/-- A new array of zeros. -/
def zeros (shape : Shape) (d : DType) : Exec Store NDArray :=
  full ⟨d, Elem.zero d⟩ shape

/-- A new array of ones. -/
def ones (shape : Shape) (d : DType) : Exec Store NDArray :=
  full (Scalar.ofElem d (.int 1)) shape

/-- A new array without axes. -/
def ofScalar (value : Scalar) : Exec Store NDArray :=
  full value .scalar

/-- A new array over the given elements, cast to the dtype.  They must fill
the shape. -/
def ofElems (data : List Elem) (shape : Shape) (d : DType) : Exec Store NDArray :=
  if data.length = shape.count then alloc (data.map (·.cast d)) d shape
  else Exec.fail (.fault .lengthMismatch)

/-- A new array with the same contents. -/
def copy (a : NDArray) : Exec Store NDArray := do
  alloc (a.elems (← Exec.get)) a.dtype a.shape

/-- A new array with the contents cast to another dtype. -/
def astype (a : NDArray) (d : DType) : Exec Store NDArray := do
  ofElems (a.elems (← Exec.get)) a.shape d

/-! ### Writing -/

/-- The store after the array's elements were overwritten, each cast to the
array's dtype.  Elements beyond the end of `data` stay. -/
def overwrite (a : NDArray) (data : List Elem) (s : Store) : Store :=
  s.write a.loc (overlay (a.elems s) (data.map (·.cast a.dtype)))

theorem elems_overwrite_of_ne (a : NDArray) {b : NDArray} (h : a.loc ≠ b.loc)
    (data : List Elem) (s : Store) : b.elems (a.overwrite data s) = b.elems s :=
  Store.read_write_of_ne s h _

/-- An overwrite keeps the number of elements. -/
theorem length_elems_overwrite {a : NDArray} {s : Store} (h : a.loc < s.buffers.length)
    (data : List Elem) : (a.elems (a.overwrite data s)).length = (a.elems s).length := by
  simp [elems, overwrite, Store.read_write_self h]

end NDArray

end ArrayFusion
