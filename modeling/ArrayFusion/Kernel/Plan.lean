/-
ArrayFusion/Kernel/Plan.lean

What a backend is given to build a kernel from, and what it gives back.
-/
import ArrayFusion.Kernel.Source

namespace ArrayFusion

/-- Where a result of a kernel goes. -/
inductive Destination
  /-- A new array or scalar. -/
  | fresh
  /-- The array passed for a parameter. -/
  | inPlace (param : Nat)
  deriving DecidableEq

/-- One result of a kernel. -/
structure OutputPlan where
  value : ValueId
  dtype : DType
  destination : Destination
  deriving DecidableEq

/-- Everything a backend needs to build one kernel. -/
structure KernelPlan where
  name : String
  stage : Stage
  graph : Graph
  /-- Parameters the kernel reads. -/
  params : List Nat
  /-- Results, in the order of the stage's roots. -/
  outputs : List OutputPlan
  source : KernelSource

namespace KernelPlan

/-- Where the value of a root goes. -/
def destinationOf (g : Graph) (v : ValueId) : Destination :=
  match g.writeBackOf v with
  | some i => .inPlace i
  | none => .fresh

/-- The plan of a stage. -/
def ofStage (name : String) (stage : Stage) (g : Graph) : KernelPlan where
  name := name
  stage := stage
  graph := g
  params := g.paramsRead stage
  outputs := stage.roots.map fun v => ⟨v, g.dtype v, destinationOf g v⟩
  source := ⟨name, g.formals stage, g.kernelBody stage⟩

/-- The names of the kernels of one function: the first has the function's
kernel name, the others a number behind it. -/
def kernelName (base : String) (position : Nat) : String :=
  if position = 0 then base else base ++ "_" ++ toString position

/-- The plans of the stages of a graph. -/
def ofStages (base : String) (stages : List Stage) (g : Graph) : List KernelPlan :=
  stages.mapIdx fun i stage => ofStage (kernelName base i) stage g

end KernelPlan

/-- What a kernel is launched on: the elements of each argument, and the
shape of each value. -/
structure KernelInput where
  inputs : List (List Elem)
  shapes : List Shape

/-- A kernel ready to be launched.  A launch yields the elements of each
output of the plan, in order. -/
structure Kernel where
  plan : KernelPlan
  launch : KernelInput → Except Error (List (List Elem))

/-- A kernel compiler. -/
structure Backend where
  name : String
  /-- Whether the kernels it compiles are recorded. -/
  records : Bool
  compile : KernelPlan → Except Error Kernel

/-- The text that describes a backend. -/
def Backend.text (b : Backend) : String :=
  "KernelBackend(" ++ b.name ++ ")"

end ArrayFusion
