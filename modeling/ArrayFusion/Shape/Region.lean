/-
ArrayFusion/Shape/Region.lean

The part of an array a slice assignment writes: all of it, or a range of
rows along the leading axis.  Rows out of range are clamped, so a range may
turn out empty.
-/
import ArrayFusion.Shape.Broadcast

namespace ArrayFusion

/-- The part of an array a slice assignment writes. -/
inductive Region
  | full
  | rows (start stop : Nat)
  deriving DecidableEq

namespace Region

/-- First row and end row of the region, clamped to the target.  A target
without axes counts as one row. -/
def bounds (r : Region) (target : Shape) : Nat × Nat :=
  let len := target.dims.headD 1
  match r with
  | .full => (0, len)
  | .rows start stop => (min start (min stop len), min stop len)

/-- The shape of the region within a target. -/
def shapeIn (r : Region) (target : Shape) : Except Error Shape :=
  match r, target.dims with
  | .full, _ => .ok target
  | .rows _ _, [] => .error (.shape .tooManyIndices)
  | .rows _ _, _ :: ds =>
    let b := r.bounds target
    .ok ⟨(b.2 - b.1) :: ds⟩

/-- The shape of the region, if a source of shape `source` fits it. -/
def checkSource (r : Region) (source target : Shape) : Except Error Shape := do
  let inner ← r.shapeIn target
  if source.BroadcastsInto inner then .ok inner
  else .error (.shape (.setItem source inner))

end Region

end ArrayFusion
