/-
ArrayFusion/Fused/Basic.lean

Fused functions: a body with its options and what was compiled of it.

A call looks the kernels for its signature up, compiling them on first use,
and launches them.  The same body can be run op at a time, which is what a
fused call has to agree with.

A process that is started with `FUSE_RS_EAGER` set answers every call with
`callEager` and compiles nothing.  The switch is read once and is not part of
any state here: `call` is the call of a process that was started without it.
-/
import ArrayFusion.Eager
import ArrayFusion.Fused.KernelCache
import ArrayFusion.Fused.Launch
import ArrayFusion.Text.Quoted

namespace ArrayFusion

/-- Options of a fused function. -/
structure FusionSettings where
  /-- Name of the generated kernel; the function's name if missing. -/
  kernelName : Option String
  /-- Backend to compile for; the current one if missing. -/
  backend : Option Backend
  /-- Whether compilations are announced. -/
  onCompile : Bool

/-- The text of options. -/
def FusionSettings.text (o : FusionSettings) : String :=
  Text.fields "FuseOptions"
    [("kernel_name", Text.optional o.kernelName),
     ("backend", Text.optional (o.backend.map Backend.name)),
     ("on_compile", if o.onCompile then "true" else "false")]

/-- A fused function. -/
structure Fused where
  /-- Number that tells functions apart. -/
  id : Nat
  function : Function
  options : FusionSettings
  cache : KernelCache Bundle
  /-- Signatures whose compilation was announced, in order. -/
  announced : List Signature
  /-- Names of the kernels compiled on recording backends, in order. -/
  recorded : List String

namespace Fused

/-- Makes a fused function. -/
def make (id : Nat) (function : Function) (options : FusionSettings) : Fused :=
  ⟨id, function, options, .empty, [], []⟩

/-- Name given to generated kernels. -/
def kernelName (f : Fused) : String :=
  f.options.kernelName.getD f.function.name

/-- The backend a call compiles for. -/
def backendFor (f : Fused) (current : Backend) : Backend :=
  f.options.backend.getD current

/-- The signature of a call. -/
def signature (f : Fused) (backend : Backend) (args : List Arg) : Signature :=
  .ofArgs f.id backend.name args

/-- The function after compiling a bundle. -/
def announce (f : Fused) (sig : Signature) (backend : Backend) (b : Bundle) : Fused :=
  { f with
    announced := if f.options.onCompile then f.announced ++ [sig] else f.announced
    recorded := if backend.records then f.recorded ++ b.kernelNames else f.recorded }

/-- The bundle for a signature, compiled now if need be. -/
def bundleFor (backend : Backend) (sig : Signature) : Exec Fused Bundle :=
  fun f =>
    let compile := fun _ => Bundle.compile f.function sig.params f.kernelName backend
    let known := (f.cache.find? sig).isSome
    match KernelCache.fetch sig compile f.cache with
    | (.ok b, cache) =>
      let f := { f with cache := cache }
      (.ok b, if known then f else f.announce sig backend b)
    | (.error e, cache) => (.error e, { f with cache := cache })

/-- Calls the function, with `current` as the current backend, in a process
that was not switched to `callEager`. -/
def call (current : Backend) (args : List Arg) : Exec (Fused × Store) (Returned Operand) :=
  fun (f, store) =>
    let backend := f.backendFor current
    match bundleFor backend (f.signature backend args) f with
    | (.ok b, f) =>
      let (r, store) := b.launch args store
      (r, (f, store))
    | (.error e, f) => (.error e, (f, store))

/-- Runs the body op at a time. -/
def callEager (f : Fused) (current : Backend) (args : List Arg) :
    Exec Store (Returned Operand) :=
  f.function.run (Eager.ops current.name) (args.map Arg.operand?)

/-- Forgets what was compiled. -/
def clearCache (f : Fused) : Fused :=
  { f with cache := f.cache.clear }

end Fused

end ArrayFusion
