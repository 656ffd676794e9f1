/-
ArrayFusion/Eager.lean

Evaluation op at a time.  Every operation works on real arrays and makes a
new array for its result.  Each one checks everything before it writes
anything: dtypes first, then shapes.
-/
import ArrayFusion.ArrayOps
import ArrayFusion.Reduction.Fold

namespace ArrayFusion.Eager

/-! ### Elementwise functions -/

/-- The element that broadcasting puts at an index. -/
def fetch (data : List Elem) (shape : Shape) (index : List Nat) : Except Error Elem :=
  match data[shape.sourceOffset index]? with
  | some e => .ok e
  | none => .error (.fault .offset)

/-- The inputs of a loop at one index, cast to the loop's dtypes. -/
def arguments (inputs : List (List Elem × Shape)) (loop : Loop) (index : List Nat) :
    Except Error (List Elem) :=
  (inputs.zip loop.inputs).mapM fun p => do
    let e ← fetch p.1.1 p.1.2 index
    return e.cast p.2

/-- Both outputs of a loop at every index of a shape, in row-major order. -/
def runLoop (f : Ufunc) (loop : Loop) (inputs : List (List Elem × Shape)) (shape : Shape) :
    Except Error (List (Elem × Elem)) :=
  shape.indices.mapM fun index => do
    let args ← arguments inputs loop index
    return f.apply loop args

/-- The elements of each output of a loop. -/
def columns (loop : Loop) (rows : List (Elem × Elem)) : List (List Elem) :=
  [rows.map (·.1), rows.map (·.2)].take loop.outputs.length

/-- Contents and shapes of operands. -/
def contents (inputs : List Operand) (s : Store) : List (List Elem × Shape) :=
  inputs.map fun o => (o.elems s, o.shape)

/-- An output of a loop as a new value. -/
def output (asScalar : Bool) (shape : Shape) (data : List Elem) (d : DType) :
    Exec Store Operand :=
  if asScalar then return .scalar (Scalar.ofElem d (data.headD (Elem.zero d)))
  else do return .array (← NDArray.alloc data d shape)

/-- Applies a function to operands.  The results are scalars if all operands
are, else new arrays. -/
def ufunc (f : Ufunc) (inputs : List Operand) : Exec Store (List Operand) := do
  let loop ← Exec.lift (f.resolve (inputs.map Operand.type))
  let shape ← Exec.lift (Shape.broadcastAll (inputs.map Operand.shape))
  let store ← Exec.get
  let rows ← Exec.lift (runLoop f loop (contents inputs store) shape)
  ((columns loop rows).zip loop.outputs).mapM fun p =>
    output (inputs.all Operand.isScalar) shape p.1 p.2

/-- Overwrites arrays one after the other. -/
def overwriteAll : List (Operand × List Elem) → Store → Store
  | [], s => s
  | (.array a, data) :: rest, s => overwriteAll rest (a.overwrite data s)
  | (.scalar _, _) :: rest, s => overwriteAll rest s

/-- Applies a function to operands and writes the results into existing
arrays.  All inputs are read before anything is written. -/
def ufuncOut (f : Ufunc) (inputs outs : List Operand) : Exec Store (List Operand) := do
  let loop ← Exec.lift (f.resolve (inputs.map Operand.type))
  Exec.lift (f.checkOutputs loop (outs.map fun o => o.array?.map (·.dtype)))
  let shape ← Exec.lift (Shape.outputShape (inputs.map Operand.shape) (outs.map Operand.shape))
  let store ← Exec.get
  let rows ← Exec.lift (runLoop f loop (contents inputs store) shape)
  Exec.set (overwriteAll (outs.zip (columns loop rows)) store)
  return outs

/-! ### Reductions and conversions -/

/-- Reduces a value; the result is always an array. -/
def reduce (op : Reduction) (value : Operand) (axis : Option Nat) : Exec Store NDArray := do
  let store ← Exec.get
  let out ← Exec.lift (op.reduceElems (value.elems store) value.shape value.dtype axis)
  NDArray.alloc out.1 (op.outputDType value.dtype) out.2

/-- Converts a value to a dtype. -/
def astype (value : Operand) (d : DType) : Exec Store Operand :=
  match value with
  | .array a => do return .array (← a.astype d)
  | .scalar s => return .scalar (s.astype d)

/-! ### Slice assignment -/

/-- Puts `values` over the elements from `offset` on. -/
def splice (data : List Elem) (offset : Nat) (values : List Elem) : Except Error (List Elem) :=
  if values.length = 0 then .ok data
  else if offset + values.length ≤ data.length then
    .ok (data.take offset ++ values ++ data.drop (offset + values.length))
  else .error (.fault .offset)

/-- Overwrites a region of an array.  The source is read as it was before,
even if it shares the target's storage. -/
def assign (target source : Operand) (region : Region) : Exec Store Unit :=
  match target with
  | .scalar _ => Exec.fail (.type .scalarAssignment)
  | .array a => do
    let inner ← Exec.lift (region.checkSource source.shape a.shape)
    let store ← Exec.get
    let data := source.elems store
    let values ← Exec.lift (inner.indices.mapM fun index => do
      let e ← fetch data source.shape index
      return e.cast a.dtype)
    let start := (region.bounds a.shape).1 * Shape.extent (a.shape.dims.drop 1)
    let written ← Exec.lift (splice (a.elems store) start values)
    Exec.set (store.write a.loc written)

/-! ### Questions about contents -/

/-- Truth of a value with one element. -/
def truth (value : Operand) : Exec Store Bool :=
  match value with
  | .scalar s => return s.value.toBool
  | .array a => do
    match a.item? (← Exec.get) with
    | some s => return s.value.toBool
    | none => Exec.fail (.type .ambiguousTruth)

/-- The only element of a value. -/
def item (value : Operand) : Exec Store Scalar :=
  match value with
  | .scalar s => return s
  | .array a => do
    match a.item? (← Exec.get) with
    | some s => return s
    | none => Exec.fail (.type .notOneElement)

/-- The operations on real arrays, for a backend of the given name. -/
def ops (tag : String) : ArrayOps Store Operand where
  tag := tag
  dtype := Operand.dtype
  ndim := Operand.ndim
  kind := Operand.kind
  scalar s := return .scalar s
  ufunc := ufunc
  ufuncOut := ufuncOut
  reduce op value axis := do return .array (← reduce op value axis)
  astype := astype
  assign := assign
  truth := truth
  item := item

end ArrayFusion.Eager
