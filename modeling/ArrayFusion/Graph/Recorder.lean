/-
ArrayFusion/Graph/Recorder.lean

Array operations that record instead of computing.

A handle names a *variable*, and every variable is bound to a value of the
tape.  An in-place operation binds the variable of its target to a new
value, so all handles on the variable see the update, as all handles on one
array do.  Each operation checks dtypes and numbers of axes before it
records anything.
-/
import ArrayFusion.ArrayOps
import ArrayFusion.Graph.Basic

namespace ArrayFusion

/-- A placeholder for a value while a body is recorded. -/
structure Handle extends Form where
  var : Nat
  deriving DecidableEq

/-- A recording with its variables. -/
structure Recorder where
  tape : Tape
  /-- Current value of each variable. -/
  vars : List ValueId
  /-- Variable of each parameter that has a value. -/
  paramVars : List (Option Nat)
  deriving DecidableEq

namespace Recorder

/-- The recorder at the start. -/
def empty : Recorder := ⟨.empty, [], []⟩

/-- Current value of a handle's variable. -/
def current (r : Recorder) (h : Handle) : ValueId :=
  r.vars.getD h.var 0

/-! ### Steps of a recording -/

/-- A new variable for a value. -/
def wrap (v : ValueId) (form : Form) : Exec Recorder Handle :=
  fun r => (.ok ⟨form, r.vars.length⟩, { r with vars := r.vars ++ [v] })

/-- New variables for the outputs of a node. -/
def wrapAll (values : List ValueId) (forms : List Form) : Exec Recorder (List Handle) :=
  (values.zip forms).mapM fun p => wrap p.1 p.2

/-- Binds the variable of a handle to a value. -/
def rebind (h : Handle) (v : ValueId) : Exec Recorder Unit :=
  fun r => (.ok (), { r with vars := r.vars.set h.var v })

/-- Adds a node on the current values of handles. -/
def record (op : Op) (inputs targets : List Handle) (outputs : List Form) :
    Exec Recorder (List ValueId) :=
  fun r =>
    let (ids, tape) :=
      r.tape.node op (inputs.map r.current) (targets.map r.current) outputs
    (.ok ids, { r with tape := tape })

/-- Declares the next parameter; its handle, if it has a value. -/
def param (kind : ArgKind) (dtype : Option DType) (ndim : Nat) :
    Exec Recorder (Option Handle) :=
  fun r =>
    match r.tape.param kind dtype ndim, dtype with
    | (some v, tape), some d =>
      (.ok (some ⟨⟨d, ndim, kind⟩, r.vars.length⟩),
        ⟨tape, r.vars ++ [v], r.paramVars ++ [some r.vars.length]⟩)
    | (_, tape), _ => (.ok none, ⟨tape, r.vars, r.paramVars ++ [none]⟩)

/-! ### Operations -/

/-- A constant. -/
def scalar (value : Scalar) : Exec Recorder Handle :=
  fun r =>
    let (v, tape) := r.tape.constant value
    wrap v ⟨value.dtype, 0, .scalar⟩ { r with tape := tape }

/-- What promotion looks at. -/
def operandType (h : Handle) : OperandType :=
  ⟨h.dtype, h.kind == .scalar⟩

/-- Number of axes of a broadcast. -/
def maxNdim (inputs : List Handle) : Nat :=
  inputs.foldl (fun n h => max n h.ndim) 0

/-- Scalar if all inputs are. -/
def commonKind (inputs : List Handle) : ArgKind :=
  if inputs.all fun h => h.kind == .scalar then .scalar else .array

/-- An elementwise function into new values. -/
def ufunc (f : Ufunc) (inputs : List Handle) : Exec Recorder (List Handle) := do
  let loop ← Exec.lift (f.resolve (inputs.map operandType))
  let forms := loop.outputs.map fun d => (⟨d, maxNdim inputs, commonKind inputs⟩ : Form)
  let ids ← record (.ufunc f loop) inputs [] forms
  wrapAll ids forms

/-- Binds several targets in order. -/
def rebindAll : List (Handle × ValueId) → Exec Recorder Unit
  | [] => return ()
  | (h, v) :: rest => do
    rebind h v
    rebindAll rest

/-- An elementwise function into existing arrays. -/
def ufuncOut (f : Ufunc) (inputs outs : List Handle) : Exec Recorder (List Handle) := do
  let loop ← Exec.lift (f.resolve (inputs.map operandType))
  Exec.lift (f.checkOutputs loop
    (outs.map fun o => if o.kind = .array then some o.dtype else none))
  let forms := outs.map fun o => (⟨o.dtype, o.ndim, .array⟩ : Form)
  let ids ← record (.ufunc f loop) inputs outs forms
  rebindAll (outs.zip ids)
  return outs

/-- The first of the handles an operation made. -/
def firstOf : List Handle → Except Error Handle
  | h :: _ => .ok h
  | [] => .error (.trace (.unsupported "operation produced no value"))

/-- Number of axes after a reduction. -/
def reducedNdim (ndim : Nat) : (axis : Option Nat) → Except Error Nat
  | none => .ok 0
  | some a =>
    if a < ndim then .ok (ndim - 1) else .error (.shape (.axisOutOfBounds a ndim))

/-- A reduction; the result is always an array. -/
def reduce (op : Reduction) (value : Handle) (axis : Option Nat) : Exec Recorder Handle := do
  let ndim ← Exec.lift (reducedNdim value.ndim axis)
  let form : Form := ⟨op.outputDType value.dtype, ndim, .array⟩
  let ids ← record (.reduce op axis) [value] [] [form]
  Exec.lift (firstOf (← wrapAll ids [form]))

/-- A conversion. -/
def astype (value : Handle) (dtype : DType) : Exec Recorder Handle := do
  let form : Form := ⟨dtype, value.ndim, value.kind⟩
  let ids ← record (.cast dtype) [value] [] [form]
  Exec.lift (firstOf (← wrapAll ids [form]))

/-- What must hold of the target of a slice assignment. -/
def checkTarget (target : Handle) (region : Region) : Except Error Unit :=
  if target.kind = .array then
    match region, target.ndim with
    | .rows _ _, 0 => .error (.shape .tooManyIndices)
    | _, _ => .ok ()
  else .error (.type .scalarAssignment)

/-- A slice assignment. -/
def assign (target source : Handle) (region : Region) : Exec Recorder Unit := do
  Exec.lift (checkTarget target region)
  let ids ← record (.assign region) [source] [target] [⟨target.dtype, target.ndim, .array⟩]
  rebindAll (ids.map fun v => (target, v))

/-- The recording operations, for a backend of the given name. -/
def ops (tag : String) : ArrayOps Recorder Handle where
  tag := tag
  dtype h := h.dtype
  ndim h := h.ndim
  kind h := h.kind
  scalar := scalar
  ufunc := ufunc
  ufuncOut := ufuncOut
  reduce := reduce
  astype := astype
  assign := assign
  truth _ := Exec.fail (.trace (.dataDependent .truth))
  item _ := Exec.fail (.trace (.dataDependent .item))

/-! ### The end of a recording -/

/-- The array parameter a variable belongs to. -/
def paramOfVar (r : Recorder) (var : Nat) : Option Nat :=
  match r.paramVars.findIdx? (· == some var) with
  | some i =>
    match r.tape.params[i]? with
    | some p => if p.kind = .array then some i else none
    | none => none
  | none => none

/-- Where a returned handle is taken from. -/
def slotOf (r : Recorder) (h : Handle) : ReturnSlot :=
  match r.paramOfVar h.var with
  | some i => .param i
  | none => .value (r.current h)

/-- The final value of a parameter, if it is an array that was written. -/
def writeBack? (r : Recorder) (p : Param) (var : Option Nat) : Option ValueId :=
  match var with
  | none => none
  | some x =>
    let now := r.vars.getD x 0
    if p.kind = .array ∧ p.value ≠ some now then some now else none

/-- Final values of the array parameters that were written. -/
def writeBacks (r : Recorder) : List (Nat × ValueId) :=
  ((r.tape.params.zip r.paramVars).zipIdx).filterMap fun q =>
    (r.writeBack? q.1.1 q.1.2).map fun v => (q.2, v)

/-- Ends the recording of a body that returned the given handles. -/
def finish (r : Recorder) (name : String) (returned : Returned Handle) : Graph :=
  { r.tape with
    name := name
    outputs := returned.toList.map r.slotOf
    arity := returned.arity
    writeBacks := r.writeBacks }

end Recorder

end ArrayFusion
