/-
ArrayFusion/Graph/Shapes.lean

The shapes of all values of a graph for one call.  The nodes are replayed in
program order, the dead ones too, with the checks that evaluation op at a
time makes, so the first failing check is the same.
-/
import ArrayFusion.Graph.Basic
import ArrayFusion.Reduction.Fold

namespace ArrayFusion.Graph

/-- Shape of a value before its node is replayed. -/
def initialShape (params : List Shape) (info : GraphValue) : Shape :=
  match info.source with
  | .param i => params.getD i .scalar
  | _ => .scalar

/-- The first of some shapes. -/
def firstShape : List Shape → Except Error Shape
  | s :: _ => .ok s
  | [] => .error (.fault .operand)

/-- Shapes of the outputs of a node, from those of its inputs and targets. -/
def nodeShapes (n : Node) (inputs targets : List Shape) : Except Error (List Shape) :=
  match n.op with
  | .ufunc _ _ =>
    if targets.isEmpty then do
      let s ← Shape.broadcastAll inputs
      return List.replicate n.outputs.length s
    else do
      let _ ← Shape.outputShape inputs targets
      return targets
  | .cast _ => do return [← firstShape inputs]
  | .reduce op axis => do return [← op.reducedShape (← firstShape inputs) axis]
  | .assign region => do
    let source ← firstShape inputs
    let target ← firstShape targets
    let _ ← region.checkSource source target
    return [target]

/-- Sets the shapes of several values. -/
def setShapes (shapes : List Shape) (entries : List (ValueId × Shape)) : List Shape :=
  entries.foldl (fun ss p => ss.set p.1 p.2) shapes

/-- Replays one node. -/
def replay (shapes : List Shape) (n : Node) : Except Error (List Shape) := do
  let at? := fun v => shapes.getD v Shape.scalar
  let resolved ← nodeShapes n (n.inputs.map at?) (n.targets.map at?)
  return setShapes shapes (n.outputs.zip resolved)

/-- Shapes of all values, given the shapes of the arguments. -/
def resolveShapes (g : Graph) (params : List Shape) : Except Error (List Shape) :=
  if params.length = g.params.length then
    g.nodes.foldlM replay (g.values.map (initialShape params))
  else .error (.type (.argumentCount g.name g.params.length params.length))

end ArrayFusion.Graph
