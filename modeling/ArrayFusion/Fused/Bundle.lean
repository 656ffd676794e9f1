/-
ArrayFusion/Fused/Bundle.lean

The compiled form of one signature of a function.

The body is recorded on placeholders, the recording is split into stages,
and each stage is compiled.  A body that breaks a type or shape rule while
it is recorded breaks it in every call of the signature.  That failure is
kept behind the operations recorded before it, because a call may already
fail in one of those.
-/
import ArrayFusion.Body.Run
import ArrayFusion.Fused.Signature
import ArrayFusion.Graph.Hazard
import ArrayFusion.Graph.Recorder
import ArrayFusion.Kernel.Plan
import ArrayFusion.Text.Quoted

namespace ArrayFusion

/-- The compiled form of one signature. -/
structure Bundle where
  graph : Graph
  /-- Kernels in launch order. -/
  kernels : List Kernel
  /-- Pairs of array parameters that must not share storage. -/
  hazards : List (Nat × Nat)
  /-- How the body failed after the recorded operations, if it did. -/
  failure : Option Error

namespace Bundle

/-- Declares the parameters of a signature. -/
def declare (params : List ArgClass) : Exec Recorder (List (Option Handle)) :=
  params.mapM fun p => Recorder.param p.kind p.dtype p.ndim

/-- Records a body. -/
def record (fn : Function) (params : List ArgClass) (tag : String) :
    Exec Recorder (Returned Handle) := do
  fn.run (Recorder.ops tag) (← declare params)

/-- Compiles the stages of a graph. -/
def ofGraph (g : Graph) (backend : Backend) : Except Error Bundle := do
  let stages ← g.partition
  let kernels ← (KernelPlan.ofStages g.name stages g).mapM backend.compile
  return ⟨g, kernels, g.hazards, none⟩

/-- Compiles a function for a signature. -/
def compile (fn : Function) (params : List ArgClass) (kernelName : String) (backend : Backend) :
    Except Error Bundle :=
  match record fn params backend.name .empty with
  | (.ok returned, r) => ofGraph (r.finish kernelName returned) backend
  | (.error e, r) =>
    if e.isTrace then .error e
    else .ok ⟨r.finish kernelName .none, [], [], some e⟩

/-- Names of the kernels in launch order. -/
def kernelNames (b : Bundle) : List String :=
  b.kernels.map fun k => k.plan.name

/-- The text of a bundle without a failure. -/
def text (b : Bundle) : String :=
  Text.fields "CompiledBundle"
    [("graph", Text.quoted b.graph.name),
     ("kernels", Text.bracketed (b.kernelNames.map Text.quoted)),
     ("hazards", Text.bracketed (b.hazards.map fun p =>
        "(" ++ toString p.1 ++ ", " ++ toString p.2 ++ ")")),
     ("failure", "None")]

end Bundle

end ArrayFusion
