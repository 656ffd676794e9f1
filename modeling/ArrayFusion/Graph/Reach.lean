/-
ArrayFusion/Graph/Reach.lean

Which nodes a value depends on.

Design.  `search` is a worklist: it takes values off a stack, and a node met
for the first time puts what it reads on it.  Every step takes one value
off, and a node is expanded at most once, so `searchFuel` steps are enough
to empty the stack.  A node of the stop set is marked but not expanded.
-/
import ArrayFusion.Graph.Basic

namespace ArrayFusion.Graph

/-- Nodes seen after working a stack off. -/
def search (g : Graph) (stop : List NodeId) :
    (fuel : Nat) → (stack : List ValueId) → (seen : List NodeId) → List NodeId
  | 0, _, seen => seen
  | _ + 1, [], seen => seen
  | fuel + 1, v :: stack, seen =>
    match g.producer v with
    | none => search g stop fuel stack seen
    | some n =>
      if n ∈ seen then search g stop fuel stack seen
      else if n ∈ stop then search g stop fuel stack (n :: seen)
      else search g stop fuel (g.readsOf n ++ stack) (n :: seen)

/-- Number of reads of some nodes. -/
def countReads : List Node → Nat
  | [] => 0
  | n :: rest => n.reads.length + countReads rest

/-- Steps that always suffice: one per root and one per read. -/
def searchFuel (g : Graph) (roots : List ValueId) : Nat :=
  roots.length + countReads g.nodes

/-- Nodes needed to compute `roots`, in program order, not going past the
nodes in `stop`. -/
def closure (g : Graph) (roots : List ValueId) (stop : List NodeId) : List NodeId :=
  let seen := search g stop (searchFuel g roots) roots []
  (List.range g.nodes.length).filter fun n => decide (n ∈ seen) && !decide (n ∈ stop)

/-- Whether a value depends on the output of a node. -/
def dependsOn (g : Graph) (v : ValueId) (n : NodeId) : Bool :=
  g.producer v == some n || decide (n ∈ g.closure [v] [])

/-- Nodes that contribute to what is returned or written back. -/
def live (g : Graph) : List NodeId :=
  g.closure g.roots []

end ArrayFusion.Graph
