/-
ArrayFusion/Fused/Signature.lean

The part of a call that decides which kernels it needs: the function, the
backend, and kind, dtype and number of axes of each argument.  Shapes and
contents are not part of it.
-/
import ArrayFusion.Operand

namespace ArrayFusion

/-- What a signature says about one argument. -/
structure ArgClass where
  kind : ArgKind
  dtype : Option DType
  ndim : Nat
  deriving DecidableEq

namespace ArgClass

/-- The key of an argument. -/
def ofArg (a : Arg) : ArgClass :=
  ⟨a.kind, a.dtype?, a.ndim⟩

/-- The text of a key. -/
def text (k : ArgClass) : String :=
  match k.kind, k.dtype with
  | .array, some d => d.name ++ "[" ++ toString k.ndim ++ "d]"
  | .scalar, some d => d.name
  | _, _ => "none"

end ArgClass

/-- What the kernels of a call depend on. -/
structure Signature where
  /-- Number of the function. -/
  function : Nat
  /-- Name of the backend. -/
  backend : String
  params : List ArgClass
  deriving DecidableEq

namespace Signature

/-- The signature of a call. -/
def ofArgs (function : Nat) (backend : String) (args : List Arg) : Signature :=
  ⟨function, backend, args.map ArgClass.ofArg⟩

/-- The text of a signature. -/
def text (s : Signature) : String :=
  "fn#" ++ toString s.function ++ "@" ++ s.backend ++ "(" ++
    ", ".intercalate (s.params.map ArgClass.text) ++ ")"

end Signature

end ArrayFusion
