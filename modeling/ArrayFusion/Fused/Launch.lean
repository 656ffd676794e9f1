/-
ArrayFusion/Fused/Launch.lean

Running a compiled bundle on arguments.

A launch goes through its checks in a fixed order: shapes, the failure the
body ended in, shared storage.  Then all kernels run on the arguments as
they were, the lengths of the results to be written back are checked, and
only then is any argument written.
-/
import ArrayFusion.Fused.Bundle
import ArrayFusion.Graph.Shapes

namespace ArrayFusion.Bundle

/-- A result of a kernel. -/
abbrev Result := OutputPlan × List Elem

/-- The elements computed for values, what was computed last first. -/
abbrev ResultMap := List (ValueId × List Elem)

/-- Fails if the body did. -/
def checkFailure (b : Bundle) : Except Error Unit :=
  match b.failure with
  | some e => .error e
  | none => .ok ()

/-- Whether two arguments are arrays that share storage. -/
def shareStorage (args : List Arg) (i j : Nat) : Bool :=
  match args[i]?, args[j]? with
  | some (.array a), some (.array b) => decide (a.Shares b)
  | _, _ => false

/-- Fails if the arrays of a hazard share storage. -/
def checkRaces (args : List Arg) : List (Nat × Nat) → Except Error Unit
  | [] => .ok ()
  | (w, o) :: rest =>
    if shareStorage args w o then .error (.dataRace w o) else checkRaces args rest

/-- Results of the kernels, in order. -/
def runKernels (kernels : List Kernel) (args : KernelInput) : Except Error (List Result) := do
  let results ← kernels.mapM fun k => do return k.plan.outputs.zip (← k.launch args)
  return results.flatten

/-- The array a result is written back to, if there is one. -/
def target? (args : List Arg) (r : Result) : Option (Nat × NDArray) :=
  match r.1.destination with
  | .fresh => none
  | .inPlace i =>
    match args[i]? with
    | some (.array a) => some (i, a)
    | _ => none

/-- The results by value.  A value computed twice has the later elements. -/
def collect (results : List Result) : ResultMap :=
  (results.map fun r => (r.1.value, r.2)).reverse

/-- The arrays that results are written back to, each with its number among the
arguments and its new elements. -/
def pendingWrites (args : List Arg) (results : List Result) : List ((Nat × NDArray) × List Elem) :=
  let computed := collect results
  results.filterMap fun r =>
    (target? args r).bind fun t => (computed.lookup r.1.value).map fun data => (t, data)

/-- Arrays to be written, each with its new elements; their number must fit. -/
def commits (args : List Arg) (store : Store) (results : List Result) :
    Except Error (List (NDArray × List Elem)) :=
  (pendingWrites args results).mapM fun p =>
    let expected := (p.1.2.elems store).length
    if p.2.length = expected then .ok (p.1.2, p.2)
    else .error (.backend (.resultLength p.2.length p.1.1 expected))

/-- Writes arrays one after the other. -/
def commit (writes : List (NDArray × List Elem)) (store : Store) : Store :=
  writes.foldl (fun s w => w.1.overwrite w.2 s) store

/-! ### Returned values -/

/-- An argument as a returned value. -/
def argOperand (args : List Arg) (i : Nat) : Except Error Operand :=
  match (args[i]?).bind Arg.operand? with
  | some o => .ok o
  | none => .error (.type .absentReturned)

/-- Takes the elements of a value out of the results.  They are there only
once. -/
def takeResult (v : ValueId) (results : ResultMap) : Except Error (List Elem × ResultMap) :=
  match results.lookup v with
  | some data => .ok (data, results.filter fun p => p.1 != v)
  | none => .error (.backend (.notComputed v))

/-- Elements as a new array, or the first of them as a scalar. -/
def ofResult (form : Form) (shape : Shape) (data : List Elem) : Exec Store Operand :=
  if form.kind = .scalar then
    return .scalar (Scalar.ofElem form.dtype (data.headD (Elem.zero form.dtype)))
  else do return .array (← NDArray.alloc data form.dtype shape)

/-- A returned value of a graph, and the results that are left. -/
def buildValue (g : Graph) (shapes : List Shape) (args : List Arg) (v : ValueId)
    (results : ResultMap) : Exec Store (Operand × ResultMap) :=
  match g.values[v]? with
  | some ⟨_, .param i⟩ => do return (← Exec.lift (argOperand args i), results)
  | some ⟨_, .constant s⟩ => return (.scalar s, results)
  | some ⟨form, .output _ _⟩ => do
    let taken ← Exec.lift (takeResult v results)
    return (← ofResult form (shapes.getD v .scalar) taken.1, taken.2)
  | none => Exec.fail (.fault .operand)

/-- The returned values in order.  A value returned twice is built once. -/
def buildAll (build : ValueId → ResultMap → Exec Store (Operand × ResultMap)) (args : List Arg) :
    (results : ResultMap) → (built : List (ValueId × Operand)) → List ReturnSlot →
      Exec Store (List Operand)
  | _, _, [] => return []
  | results, built, .param i :: rest => do
    let o ← Exec.lift (argOperand args i)
    return o :: (← buildAll build args results built rest)
  | results, built, .value v :: rest =>
    match built.lookup v with
    | some o => do return o :: (← buildAll build args results built rest)
    | none => do
      let made ← build v results
      return made.1 :: (← buildAll build args made.2 ((v, made.1) :: built) rest)

/-- Runs the bundle on arguments. -/
def launch (b : Bundle) (args : List Arg) : Exec Store (Returned Operand) := do
  let shapes ← Exec.lift (b.graph.resolveShapes (args.map Arg.shape))
  Exec.lift b.checkFailure
  Exec.lift (checkRaces args b.hazards)
  let store ← Exec.get
  let results ← Exec.lift (runKernels b.kernels ⟨args.map fun a => a.elems store, shapes⟩)
  let writes ← Exec.lift (commits args store results)
  Exec.set (commit writes store)
  let values ← buildAll (buildValue b.graph shapes args) args (collect results) [] b.graph.outputs
  return Returned.ofParts b.graph.arity values

end ArrayFusion.Bundle
