/-
ArrayFusion/Graph/Hazard.lean

Which pairs of array parameters must not share storage.

Kernels read every argument as it was when the call began.  That is what
evaluation op at a time sees too, unless the other parameter is updated as
well, or a live node after the first write reads it.  The writing node
itself may read it.
-/
import ArrayFusion.Graph.Reach

namespace ArrayFusion.Graph

/-- Parameters updated in place. -/
def written (g : Graph) : List Nat :=
  g.writeBacks.map (·.1)

/-- Position of the first node that writes a parameter. -/
def firstWrite (g : Graph) (w : Nat) : Option NodeId :=
  g.nodes.findIdx? fun n => n.targets.any fun t => g.ownerOf t == some w

/-- Whether a live node after `first` reads a parameter. -/
def readAfter (g : Graph) (first : NodeId) (other : Nat) : Bool :=
  g.live.any fun n =>
    decide (first < n) && (g.readsOf n).any fun v => g.ownerOf v == some other

/-- Whether two parameters must not share storage, the first being updated. -/
def isHazard (g : Graph) (w other : Nat) : Bool :=
  decide (other ∈ g.written) ||
    match g.firstWrite w with
    | some first => g.readAfter first other
    | none => false

/-- Array parameters other than a given one. -/
def otherArrays (g : Graph) (w : Nat) : List Nat :=
  (List.range g.params.length).filter fun i =>
    i != w && (g.params[i]?).any fun p => p.kind == .array

/-- Pairs of an updated parameter and another one that must not share its
storage. -/
def hazards (g : Graph) : List (Nat × Nat) :=
  g.written.flatMap fun w =>
    ((g.otherArrays w).filter (g.isHazard w)).map fun other => (w, other)

end ArrayFusion.Graph
