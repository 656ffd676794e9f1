/-
ArrayFusion/Graph/Basic.lean

Recorded computations: nodes in program order over values that are defined
once.  Values carry what is known before any call (dtype, number of axes,
array or scalar); shapes belong to a call.

An in-place write never changes a value.  It makes a new value, and the node
keeps the old one as its target.

A `Tape` is a recording in progress, a `Graph` a finished one: a tape with
what the body returned and which parameters it updated.
-/
import ArrayFusion.Operand
import ArrayFusion.Shape.Region
import ArrayFusion.Ufunc.Loop

namespace ArrayFusion

/-- Position of a value in a recording. -/
abbrev ValueId := Nat

/-- Position of a node in a recording. -/
abbrev NodeId := Nat

/-- What is known about a value before any call. -/
structure Form where
  dtype : DType
  ndim : Nat
  kind : ArgKind
  deriving DecidableEq

/-- Where a value comes from. -/
inductive Source
  | param (index : Nat)
  | constant (value : Scalar)
  | output (node : NodeId) (index : Nat)
  deriving DecidableEq

/-- The text of a value's source. -/
def Source.text : Source → String
  | .param i => "param " ++ toString i
  | .constant s => "const " ++ s.text
  | .output n i => "n" ++ toString n ++ " output " ++ toString i

/-- A value of a recording. -/
structure GraphValue extends Form where
  source : Source
  deriving DecidableEq

/-- A recorded operation. -/
inductive Op
  | ufunc (f : Ufunc) (loop : Loop)
  | cast (dtype : DType)
  | reduce (op : Reduction) (axis : Option Nat)
  | assign (region : Region)
  deriving DecidableEq

/-- The name of an operation. -/
def Op.name : Op → String
  | .ufunc f _ => f.name
  | .cast d => "astype<" ++ d.name ++ ">"
  | .reduce op _ => op.name
  | .assign _ => "setitem"

/-- An operation with its values. -/
structure Node where
  op : Op
  inputs : List ValueId
  /-- Values before an in-place write, one per written array. -/
  targets : List ValueId
  /-- Values produced; for an in-place write, the new value of each target. -/
  outputs : List ValueId
  deriving DecidableEq

namespace Node

/-- Whether the node is a reduction. -/
def isReduction (n : Node) : Bool :=
  match n.op with
  | .reduce _ _ => true
  | _ => false

/-- Values whose elements the node reads.  An assignment of rows keeps the
other rows of its target; every other write replaces its target. -/
def reads (n : Node) : List ValueId :=
  match n.op with
  | .assign (.rows _ _) => n.inputs ++ n.targets
  | _ => n.inputs

end Node

/-- A positional parameter. -/
structure Param where
  kind : ArgKind
  dtype : Option DType
  ndim : Nat
  /-- Its value at call time; none if the argument is absent. -/
  value : Option ValueId
  deriving DecidableEq

/-- Where a returned value is taken from. -/
inductive ReturnSlot
  /-- The caller's own array. -/
  | param (index : Nat)
  | value (id : ValueId)
  deriving DecidableEq

/-- A recording in progress. -/
structure Tape where
  values : List GraphValue
  nodes : List Node
  params : List Param
  deriving DecidableEq

namespace Tape

/-- The tape without entries. -/
def empty : Tape := ⟨[], [], []⟩

/-- The tape with one more value. -/
def pushValue (t : Tape) (form : Form) (source : Source) : Tape :=
  { t with values := t.values ++ [⟨form, source⟩] }

/-- Declares the next parameter.  It has a value if it is present and its
dtype is known. -/
def param (t : Tape) (kind : ArgKind) (dtype : Option DType) (ndim : Nat) :
    Option ValueId × Tape :=
  match kind, dtype with
  | .absent, _ => (none, { t with params := t.params ++ [⟨kind, dtype, ndim, none⟩] })
  | _, none => (none, { t with params := t.params ++ [⟨kind, dtype, ndim, none⟩] })
  | _, some d =>
    let id := t.values.length
    let u := t.pushValue ⟨d, ndim, kind⟩ (.param t.params.length)
    (some id, { u with params := u.params ++ [⟨kind, dtype, ndim, some id⟩] })

/-- Adds a constant. -/
def constant (t : Tape) (value : Scalar) : ValueId × Tape :=
  (t.values.length, t.pushValue ⟨value.dtype, 0, .scalar⟩ (.constant value))

/-- Ids of the values that come next. -/
def nextIds (t : Tape) (count : Nat) : List ValueId :=
  (List.range count).map (t.values.length + ·)

/-- Adds a node that produces values of the given forms. -/
def node (t : Tape) (op : Op) (inputs targets : List ValueId) (outputs : List Form) :
    List ValueId × Tape :=
  let ids := t.nextIds outputs.length
  let infos := outputs.mapIdx fun k form => (⟨form, .output t.nodes.length k⟩ : GraphValue)
  (ids, { t with
    values := t.values ++ infos
    nodes := t.nodes ++ [⟨op, inputs, targets, ids⟩] })

end Tape

/-- A finished recording. -/
structure Graph extends Tape where
  name : String
  /-- Returned values in order. -/
  outputs : List ReturnSlot
  arity : Arity
  /-- Final values of the parameters updated in place. -/
  writeBacks : List (Nat × ValueId)
  deriving DecidableEq

namespace Graph

/-- The dtype of a value. -/
def dtype (g : Graph) (v : ValueId) : DType :=
  match g.values[v]? with
  | some info => info.dtype
  | none => .float .double

/-- The node that produces a value, if one does. -/
def producer (g : Graph) (v : ValueId) : Option NodeId :=
  match g.values[v]? with
  | some ⟨_, .output n _⟩ => some n
  | _ => none

/-- The parameter a value is the initial value of, if it is one. -/
def paramOf (g : Graph) (v : ValueId) : Option Nat :=
  match g.values[v]? with
  | some ⟨_, .param i⟩ => some i
  | _ => none

/-- Values read by a node. -/
def readsOf (g : Graph) (n : NodeId) : List ValueId :=
  match g.nodes[n]? with
  | some node => node.reads
  | none => []

/-- The reduction of a node, if it is one. -/
def reduction? (g : Graph) (n : NodeId) : Option (Reduction × Option Nat) :=
  match g.nodes[n]? with
  | some ⟨.reduce op axis, _, _, _⟩ => some (op, axis)
  | _ => none

/-- The value of an output slot, unless it is the caller's own array. -/
def slotValue : ReturnSlot → Option ValueId
  | .param _ => none
  | .value v => some v

/-- Values that kernels must compute: those returned and those written back,
each once. -/
def roots (g : Graph) : List ValueId :=
  ((g.outputs.filterMap slotValue ++ g.writeBacks.map (·.2)).filter
    fun v => (g.producer v).isSome).eraseDups

/-- The parameter that a value is the final value of. -/
def writeBackOf (g : Graph) (v : ValueId) : Option Nat :=
  (g.writeBacks.find? fun p => p.2 == v).map (·.1)

/-! ### Ownership -/

/-- Records that a value lives where another one does. -/
def inherit (owners : List (Option Nat)) (p : ValueId × ValueId) : List (Option Nat) :=
  owners.set p.2 (owners[p.1]?).join

/-- The parameter whose storage each value lives in: the parameter's initial
value and every in-place update of it. -/
def owners (g : Graph) : List (Option Nat) :=
  let start := g.values.map fun info =>
    match info.source with
    | .param i => some i
    | _ => none
  g.nodes.foldl (fun os n => (n.targets.zip n.outputs).foldl inherit os) start

/-- The owner of one value. -/
def ownerOf (g : Graph) (v : ValueId) : Option Nat :=
  (g.owners[v]?).join

end Graph

end ArrayFusion
