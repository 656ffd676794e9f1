/-
ArrayFusion/Graph/Stage.lean

Splitting a graph into the stages that become kernels.

Nodes that contribute to nothing are dropped.  Without a reduction all
others form one elementwise stage.  With one, the nodes below it are its
premap, and the roots that depend on it are computed from its result; roots
that do not depend on it get an elementwise stage of their own.  A node that
two stages need is computed by both.
-/
import ArrayFusion.Graph.Reach

namespace ArrayFusion

/-- What a stage computes. -/
inductive StageWork
  | elementwise
  | reduction (node : NodeId) (op : Reduction) (axis : Option Nat)
  deriving DecidableEq

/-- One kernel's share of a graph. -/
structure Stage where
  kind : StageWork
  /-- Nodes computed before the reduction; all nodes of an elementwise
  stage. -/
  premap : List NodeId
  /-- Nodes computed from the result of the reduction. -/
  postmap : List NodeId
  /-- Values the stage writes out. -/
  roots : List ValueId
  deriving DecidableEq

/-- The nodes of a stage. -/
def Stage.nodes (s : Stage) : List NodeId :=
  match s.kind with
  | .elementwise => s.premap ++ s.postmap
  | .reduction n _ _ => s.premap ++ [n] ++ s.postmap

/-- Whether the stage has a reduction. -/
def Stage.isReduction (s : Stage) : Bool :=
  match s.kind with
  | .elementwise => false
  | .reduction _ _ _ => true

namespace Graph

/-- An elementwise stage for some roots. -/
def elementwiseStage (g : Graph) (roots : List ValueId) : Stage :=
  ⟨.elementwise, g.closure roots [], [], roots⟩

/-- Values read by the reduction at a node. -/
def inputsOf (g : Graph) (n : NodeId) : List ValueId :=
  match g.nodes[n]? with
  | some node => node.inputs
  | none => []

/-- The stage of a reduction and the roots computed from it. -/
def reductionStage (g : Graph) (n : NodeId) (op : Reduction) (axis : Option Nat)
    (roots : List ValueId) : Stage :=
  ⟨.reduction n op axis, g.closure (g.inputsOf n) [], g.closure roots [n], roots⟩

/-- Live reductions in program order. -/
def liveReductions (g : Graph) : List (NodeId × Reduction × Option Nat) :=
  g.live.filterMap fun n => (g.reduction? n).map fun r => (n, r)

/-- Splits the graph into stages. -/
def partition (g : Graph) : Except Error (List Stage) :=
  match g.liveReductions with
  | (_, first, _) :: (_, second, _) :: _ =>
    .error (.trace (.multipleReductions first second))
  | [] => .ok (if g.roots.isEmpty then [] else [g.elementwiseStage g.roots])
  | [(n, op, axis)] =>
    let main := g.roots.filter fun v => g.dependsOn v n
    let side := g.roots.filter fun v => !g.dependsOn v n
    .ok (g.reductionStage n op axis main ::
      if side.isEmpty then [] else [g.elementwiseStage side])

/-- Number of recorded nodes that no stage computes. -/
def eliminated (g : Graph) : Nat :=
  g.nodes.length - g.live.length

end Graph

end ArrayFusion
