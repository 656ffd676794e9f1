/-
ArrayFusion/Shape/Index.lean

Multi-indices and flat offsets, outermost axis first.

`offset` and `unravel` go between a multi-index of a shape and its offset in
row-major order.  `unbroadcast` takes an index of a larger shape to the
index of the element that broadcasting puts there: leading axes are dropped
and axes of extent one are pinned to zero.  `sourceOffset` is the offset of
that index.  `ravel` and `unbroadcastOffset` are the two offsets computed in
machine words.
-/
import ArrayFusion.Shape.Basic

namespace ArrayFusion.Shape

/-- Offset of a multi-index in row-major order. -/
def offset (s : Shape) (index : List Nat) : Nat :=
  (index.zip s.dims).foldl (fun acc p => acc * p.2 + p.1) 0

/-- The offset of a multi-index, computed in machine words. -/
def ravel (s : Shape) (index : List Nat) : Nat :=
  (index.zip s.dims).foldl (fun acc p => word (word (acc * p.2) + p.1)) 0

/-- Splits an offset into the coordinates along `dims` and what is left
over for axes further out.  An axis without extent takes coordinate zero
and passes the offset on. -/
def unravelFrom : List Nat → Nat → List Nat × Nat
  | [], flat => ([], flat)
  | d :: ds, flat =>
    let inner := unravelFrom ds flat
    if d = 0 then (0 :: inner.1, inner.2)
    else (inner.2 % d :: inner.1, inner.2 / d)

/-- The multi-index at a row-major offset. -/
def unravel (s : Shape) (flat : Nat) : List Nat :=
  (unravelFrom s.dims flat).1

/-- The trailing coordinates of an index, as many as `s` has axes. -/
def trailing (s : Shape) (index : List Nat) : List Nat :=
  index.drop (index.length - s.ndim)

/-- The coordinate read along an axis of extent `d`. -/
def pin (i d : Nat) : Nat :=
  if d = 1 then 0 else i

/-- The index of the element of `s` that broadcasting puts at `index`. -/
def unbroadcast (s : Shape) (index : List Nat) : List Nat :=
  (s.trailing index).zipWith pin s.dims

/-- The row-major offset of `unbroadcast`. -/
def sourceOffset (s : Shape) (index : List Nat) : Nat :=
  ((s.trailing index).zip s.dims).foldl (fun acc p => acc * p.2 + pin p.1 p.2) 0

/-- The offset of `unbroadcast`, computed in machine words. -/
def unbroadcastOffset (s : Shape) (index : List Nat) : Nat :=
  ((s.trailing index).zip s.dims).foldl (fun acc p => word (word (acc * p.2) + pin p.1 p.2)) 0

/-- An index of a shape has one coordinate per axis, each within its
extent. -/
def InRange (s : Shape) (index : List Nat) : Prop :=
  index.length = s.ndim ∧ ∀ p ∈ index.zip s.dims, p.1 < p.2

instance (s : Shape) (index : List Nat) : Decidable (s.InRange index) :=
  inferInstanceAs (Decidable (_ ∧ _))

/-- Every multi-index, in row-major order. -/
def indices (s : Shape) : List (List Nat) :=
  (List.range s.count).map s.unravel

end ArrayFusion.Shape
