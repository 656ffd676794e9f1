/-
ArrayFusion/Shape/Broadcast.lean

Broadcasting.  Shapes are aligned at their trailing axes, and a missing
axis counts as one of extent one.  Two extents go together when they are
equal or one of them is one; the other one is then the extent of the
result.
-/
import ArrayFusion.Error

namespace ArrayFusion.Shape

/-- Broadcasts two lists of extents, innermost axis first. -/
def broadcastRev : List Nat → List Nat → Option (List Nat)
  | [], ys => some ys
  | xs, [] => some xs
  | x :: xs, y :: ys =>
    if x = y ∨ x = 1 ∨ y = 1 then
      (broadcastRev xs ys).map ((if x = 1 then y else x) :: ·)
    else none

/-- The common shape of two shapes, if there is one. -/
def broadcastWith (s t : Shape) : Option Shape :=
  (broadcastRev s.dims.reverse t.dims.reverse).map fun ds => ⟨ds.reverse⟩

/-- Folds `broadcastWith` over a list, starting at `s`. -/
def broadcastFrom (s : Shape) : List Shape → Option Shape
  | [] => some s
  | t :: ts => (s.broadcastWith t).bind fun u => broadcastFrom u ts

/-- The common shape of a list of shapes.  The error names all of them. -/
def broadcastAll (shapes : List Shape) : Except Error Shape :=
  match broadcastFrom scalar shapes with
  | some s => .ok s
  | none => .error (.shape (.notBroadcastable shapes))

/-- Whether an array of shape `s` can stand for one of shape `t`. -/
def BroadcastsInto (s t : Shape) : Prop :=
  s.broadcastWith t = some t

instance (s t : Shape) : Decidable (s.BroadcastsInto t) :=
  inferInstanceAs (Decidable (_ = _))

/-- The shape without one of its axes. -/
def removeAxis (s : Shape) (axis : Nat) : Except Error Shape :=
  if axis < s.ndim then .ok ⟨s.dims.eraseIdx axis⟩
  else .error (.shape (.axisOutOfBounds axis s.ndim))

/-- The shape outputs are written in: the broadcast of all inputs and
outputs, which every output must already have. -/
def outputShape (inputs outs : List Shape) : Except Error Shape := do
  let common ← broadcastAll (inputs ++ outs)
  match outs.find? fun out => out ≠ common with
  | some out => .error (.shape (.outputMismatch out common))
  | none => .ok common

end ArrayFusion.Shape
