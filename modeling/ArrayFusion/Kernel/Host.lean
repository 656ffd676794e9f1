/-
ArrayFusion/Kernel/Host.lean

The backend that evaluates kernels point by point.

A launch first folds the input of the stage's reduction, if there is one,
and then computes the roots over their own shapes.  Roots of equal shape
share one pass, so that a value they have in common is found once per
point.
-/
import ArrayFusion.Kernel.Plan
import ArrayFusion.Kernel.Point

namespace ArrayFusion.Host

/-! ### Reducing -/

/-- Input and result of a node. -/
def ends (g : Graph) (n : NodeId) : Except Error (ValueId × ValueId) :=
  match g.nodes[n]? with
  | some ⟨_, input :: _, _, result :: _⟩ => .ok (input, result)
  | _ => .error (.fault .operand)

/-- Whether an axis exists. -/
def checkAxis (shape : Shape) : (axis : Option Nat) → Except Error Unit
  | none => .ok ()
  | some a => if a < shape.ndim then .ok () else .error (.fault .operand)

/-- Elements of a value over its shape, one point each. -/
def elements (lookup : Lookup) (f : Frame) (v : ValueId) (indices : List (List Nat)) :
    Exec Memory (List Elem) :=
  indices.mapM fun index => do
    Frame.nextPoint
    f.eval lookup f.depth v index

/-- The elements of the result of a reduction. -/
def reduce (lookup : Lookup) (f : Frame) (n : NodeId) (op : Reduction) (axis : Option Nat) :
    Exec Memory (ValueId × List Elem) := do
  let (input, result) ← Exec.lift (ends f.graph n)
  let shape := f.shapeOf input
  Exec.lift (checkAxis shape axis)
  let data ← elements lookup f input shape.indices
  let start := Accumulator.start op (f.graph.dtype result) (f.shapeOf result).count
  let acc ← Exec.lift (start.pushAll (Reduction.slotOf shape axis) 0 data)
  return (result, acc.finish)

/-! ### Mapping -/

/-- Adds a position to the group of its shape. -/
def insertGroup (shape : Shape) (k : Nat) : List (Shape × List Nat) → List (Shape × List Nat)
  | [] => [(shape, [k])]
  | (s, members) :: rest =>
    if s = shape then (s, members ++ [k]) :: rest
    else (s, members) :: insertGroup shape k rest

/-- Positions of roots grouped by shape, in order of first appearance. -/
def groups (f : Frame) (roots : List ValueId) : List (Shape × List Nat) :=
  (roots.zipIdx).foldl (fun gs p => insertGroup (f.shapeOf p.1) p.2 gs) []

/-- Elements of several values at one point. -/
def row (lookup : Lookup) (f : Frame) (values : List ValueId) (index : List Nat) :
    Exec Memory (List Elem) := do
  Frame.nextPoint
  values.mapM fun v => f.eval lookup f.depth v index

/-- The elements of the roots of one group, each with its position. -/
def runGroup (lookup : Lookup) (f : Frame) (roots : List ValueId) (group : Shape × List Nat) :
    Exec Memory (List (Nat × List Elem)) := do
  let values := group.2.filterMap fun k => roots[k]?
  let rows ← group.1.indices.mapM (row lookup f values)
  return group.2.mapIdx fun p k => (k, rows.filterMap (·[p]?))

/-- The elements of the roots, in order. -/
def map (lookup : Lookup) (f : Frame) (roots : List ValueId) : Exec Memory (List (List Elem)) := do
  let columns ← (groups f roots).mapM (runGroup lookup f roots)
  return (List.range roots.length).map fun k => (columns.flatten.lookup k).getD []

/-! ### The backend -/

/-- Evaluates the stage of a plan. -/
def run (lookup : Lookup) (plan : KernelPlan) (args : KernelInput) :
    Exec Memory (List (List Elem)) := do
  let frame : Frame := ⟨plan.graph, args.inputs, args.shapes, none⟩
  match plan.stage.kind with
  | .elementwise => map lookup frame plan.stage.roots
  | .reduction n op axis =>
    let reduced ← reduce lookup frame n op axis
    map lookup { frame with reduced := some reduced } plan.stage.roots

/-- Launches a kernel, looking elements up in a given way. -/
def launchWith (lookup : Lookup) (plan : KernelPlan) (args : KernelInput) :
    Except Error (List (List Elem)) :=
  (run lookup plan args (Memory.empty plan.graph.values.length)).1

/-- Launches a kernel. -/
def launch (plan : KernelPlan) (args : KernelInput) : Except Error (List (List Elem)) :=
  launchWith Memory.find? plan args

/-- Whether the stage of a plan can be run: its reduction must be one. -/
def check (plan : KernelPlan) : Except Error Unit :=
  match plan.stage.kind with
  | .elementwise => .ok ()
  | .reduction n _ _ =>
    if (plan.graph.reduction? n).isSome then .ok ()
    else .error (.backend (.notReduction plan.name n))

/-- Compiles a kernel. -/
def compile (plan : KernelPlan) : Except Error Kernel := do
  check plan
  return ⟨plan, launch plan⟩

/-- The host backend. -/
def backend : Backend := ⟨"host", false, compile⟩

end ArrayFusion.Host
