/-
ArrayFusion/Kernel/Point.lean

The element of a value at one index, computed from the elements of the
values below it.

Design.  `Frame.recipe` says what an output of a node needs at an index and
how it is made from that.  Two evaluators follow it: `Frame.eval` keeps a
memory of the elements found at the current point, `Frame.evalFresh` keeps
none.  How the memory is consulted is a parameter of the first, so that the
same evaluation can also be run with a memory that recalls nothing.  Both
recurse along the graph, so a depth of one more than the number of nodes is
enough for any graph whose nodes read earlier values only.
-/
import ArrayFusion.Exec
import ArrayFusion.Graph.Basic
import ArrayFusion.Ufunc.Eval

namespace ArrayFusion

/-- What an evaluation reads. -/
structure Frame where
  graph : Graph
  inputs : List (List Elem)
  shapes : List Shape
  /-- The value of a reduction done before, with its elements. -/
  reduced : Option (ValueId × List Elem)

/-- How an element is made. -/
structure Recipe where
  /-- Elements needed: values with an index of a shape they broadcast into. -/
  needs : List (ValueId × List Nat)
  /-- The element, and elements of sibling values found on the way. -/
  make : List Elem → Except Error (Elem × List (ValueId × Elem))

namespace Frame

/-- Shape of a value. -/
def shapeOf (f : Frame) (v : ValueId) : Shape :=
  f.shapes.getD v .scalar

/-- An element of an argument. -/
def input (f : Frame) (param flat : Nat) : Except Error Elem :=
  match (f.inputs.getD param [])[flat]? with
  | some e => .ok e
  | none => .error (.backend (.missingElement param flat))

/-- The outputs of a loop, each cast to the dtype of its value. -/
def loopOutputs (f : Frame) (node : Node) (r : Elem × Elem) : List (ValueId × Elem) :=
  (node.outputs.zip [r.1, r.2]).map fun p => (p.1, p.2.cast (f.graph.dtype p.1))

/-- The output at a position of an elementwise function. -/
def ufuncRecipe (f : Frame) (node : Node) (g : Ufunc) (loop : Loop) (k : Nat)
    (own : List Nat) : Recipe where
  needs := (node.inputs.zip loop.inputs).map fun p => (p.1, own)
  make args :=
    let outputs := f.loopOutputs node (g.apply loop (args.zipWith Elem.cast loop.inputs))
    match outputs[k]? with
    | some p => .ok (p.2, outputs)
    | none => .error (.fault .operand)

/-- An element of another value, cast to a dtype. -/
def castRecipe (v : ValueId) (d : DType) (index : List Nat) : Recipe where
  needs := [(v, index)]
  make
    | e :: _ => .ok (e.cast d, [])
    | [] => .error (.fault .operand)

/-- An element of another value. -/
def copyRecipe (v : ValueId) (index : List Nat) : Recipe where
  needs := [(v, index)]
  make
    | e :: _ => .ok (e, [])
    | [] => .error (.fault .operand)

/-- An element of an array after a slice assignment: of the source where the
region was written, of the old array elsewhere. -/
def assignRecipe (f : Frame) (source target : ValueId) (region : Region) (own : List Nat) :
    Except Error Recipe :=
  let d := f.graph.dtype target
  match region with
  | .full => .ok (castRecipe source d own)
  | .rows _ _ =>
    let b := region.bounds (f.shapeOf target)
    let row := own.headD 0
    if b.1 ≤ row ∧ row < b.2 then
      match own with
      | [] => .error (.fault .offset)
      | _ :: rest => .ok (castRecipe source d ((row - b.1) :: rest))
    else .ok (copyRecipe target own)

/-- How output `k` of a node is made at an index of its shape. -/
def recipe (f : Frame) (n : NodeId) (k : Nat) (own : List Nat) : Except Error Recipe :=
  match f.graph.nodes[n]? with
  | none => .error (.fault .operand)
  | some node =>
    match node.op with
    | .ufunc g loop => .ok (f.ufuncRecipe node g loop k own)
    | .cast d =>
      match node.inputs with
      | v :: _ => .ok (castRecipe v d own)
      | [] => .error (.fault .operand)
    | .assign region =>
      match node.inputs, node.targets with
      | source :: _, target :: _ => f.assignRecipe source target region own
      | _, _ => .error (.fault .operand)
    | .reduce _ _ => .error (.backend (.strayReduction n))

/-- The elements of a value that a reduction left, if it is that value. -/
def reducedData (f : Frame) (v : ValueId) : Option (List Elem) :=
  match f.reduced with
  | some (r, data) => if r = v then some data else none
  | none => none

/-- An element of a value that needs no others: of an argument, a constant
or a finished reduction. -/
def leaf (f : Frame) (v : ValueId) (flat : Nat) : Except Error (Option Elem) :=
  match f.graph.values[v]? with
  | none => .error (.fault .operand)
  | some ⟨_, .param i⟩ => do return some (← f.input i flat)
  | some ⟨_, .constant s⟩ => .ok (some s.value)
  | some ⟨_, .output _ _⟩ =>
    match f.reducedData v with
    | none => .ok none
    | some data =>
      match data[flat]? with
      | some e => .ok (some e)
      | none => .error (.fault .offset)

/-- How a value that a node produces is made at an index of its shape. -/
def recipeOf (f : Frame) (v : ValueId) (own : List Nat) : Except Error Recipe :=
  match f.graph.values[v]? with
  | some ⟨_, .output n k⟩ => f.recipe n k own
  | _ => .error (.fault .operand)

/-- A depth that suffices for graphs whose nodes read earlier values only. -/
def depth (f : Frame) : Nat :=
  f.graph.nodes.length + 1

/-! ### Without a memo -/

/-- The element of a value at an index of any shape it broadcasts into. -/
def evalFresh (f : Frame) : (depth : Nat) → ValueId → (index : List Nat) → Except Error Elem
  | 0, _, _ => .error (.fault .cycle)
  | depth + 1, v, index => do
    let shape := f.shapeOf v
    match ← f.leaf v (shape.sourceOffset index) with
    | some e => return e
    | none =>
      let r ← f.recipeOf v (shape.unbroadcast index)
      let args ← r.needs.mapM fun need => f.evalFresh depth need.1 need.2
      let made ← r.make args
      return made.1

end Frame

/-! ### With a memo -/

/-- An element found earlier. -/
structure Memo where
  epoch : Nat
  flat : Nat
  value : Elem

/-- The last element found of each value.  Elements of an earlier point are
out of date, which the epoch tells. -/
structure Memory where
  memos : List (Option Memo)
  epoch : Nat

namespace Memory

/-- A memory for `count` values. -/
def empty (count : Nat) : Memory :=
  ⟨List.replicate count none, 0⟩

/-- The element of a value at an offset, if it was found at this point. -/
def find? (m : Memory) (v : ValueId) (flat : Nat) : Option Elem :=
  match m.memos[v]? with
  | some (some memo) =>
    if memo.epoch = m.epoch ∧ memo.flat = flat then some memo.value else none
  | _ => none

/-- Never finds anything. -/
def forget (_ : Memory) (_ : ValueId) (_ : Nat) : Option Elem :=
  none

/-- Notes an element of a value. -/
def note (m : Memory) (flat : Nat) (p : ValueId × Elem) : Memory :=
  { m with memos := m.memos.set p.1 (some ⟨m.epoch, flat, p.2⟩) }

/-- Notes elements of several values at one offset. -/
def noteAll (m : Memory) (flat : Nat) (ps : List (ValueId × Elem)) : Memory :=
  ps.foldl (fun m p => m.note flat p) m

/-- The memory at the next point. -/
def advance (m : Memory) : Memory :=
  { m with epoch := m.epoch + 1 }

end Memory

/-- A way to look elements up in a memory. -/
abbrev Lookup := Memory → ValueId → Nat → Option Elem

namespace Frame

/-- Moves on to the next point. -/
def nextPoint : Exec Memory Unit :=
  fun m => (.ok (), m.advance)

/-- Notes elements at an offset. -/
def remember (flat : Nat) (ps : List (ValueId × Elem)) : Exec Memory Unit :=
  fun m => (.ok (), m.noteAll flat ps)

/-- The element of a value at an index of any shape it broadcasts into, with
elements found at the same point looked up. -/
def eval (f : Frame) (lookup : Lookup) :
    (depth : Nat) → ValueId → (index : List Nat) → Exec Memory Elem
  | 0, _, _ => Exec.fail (.fault .cycle)
  | depth + 1, v, index => do
    let shape := f.shapeOf v
    let flat := shape.sourceOffset index
    let memory ← Exec.get
    match lookup memory v flat with
    | some e => return e
    | none =>
      match ← Exec.lift (f.leaf v flat) with
      | some e =>
        remember flat [(v, e)]
        return e
      | none =>
        let r ← Exec.lift (f.recipeOf v (shape.unbroadcast index))
        let args ← r.needs.mapM fun need => f.eval lookup depth need.1 need.2
        let made ← Exec.lift (r.make args)
        remember flat made.2
        remember flat [(v, made.1)]
        return made.1

end Frame

end ArrayFusion
