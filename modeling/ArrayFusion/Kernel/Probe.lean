/-
ArrayFusion/Kernel/Probe.lean

Backends for watching compilations and for failing on purpose.  All but one
compile through the host.
-/
import ArrayFusion.Kernel.Host

namespace ArrayFusion.Probe

/-- Compiles through the host and changes how the kernel is launched. -/
def through (change : KernelPlan → Except Error (List (List Elem)) → Except Error (List (List Elem)))
    (plan : KernelPlan) : Except Error Kernel := do
  let kernel ← Host.compile plan
  return ⟨plan, fun args => change plan (kernel.launch args)⟩

/-- Like the host. -/
def recording : Backend :=
  ⟨"recording", true, through fun _ result => result⟩

/-- Its kernels cannot be launched. -/
def failing : Backend :=
  ⟨"failing", true, through fun plan _ =>
    .error (.backend (.other ("cannot launch " ++ plan.name)))⟩

/-- Its kernels lose the last element of every result. -/
def short : Backend :=
  ⟨"short", true, through fun _ result => result.map fun columns => columns.map List.dropLast⟩

/-- Compiles nothing. -/
def refusing : Backend :=
  ⟨"refusing", false, fun plan => .error (.backend (.other ("cannot compile " ++ plan.name)))⟩

/-- Looks a backend up by its name. -/
def ofName? : String → Option Backend
  | "host" => some Host.backend
  | "recording" => some recording
  | "failing" => some failing
  | "short" => some short
  | "refusing" => some refusing
  | _ => none

end ArrayFusion.Probe
