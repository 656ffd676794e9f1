/-
ArrayFusion/Kernel/Source.lean

The source text of a kernel, as a device compiler takes it.

Design.  The source is built as a list of lines that know which value they
declare, which values they use and which buffers they touch, and only then
rendered.  A map kernel is one loop.  A fold kernel loops over the input of
its reduction and then computes the values that depend on the result; lines
of the loop are not in scope after it.
-/
import ArrayFusion.Graph.Stage
import ArrayFusion.Reduction.Fold

namespace ArrayFusion

/-- A buffer of a kernel. -/
inductive BufferName
  /-- The argument at a position. -/
  | input (param : Nat)
  /-- The result for the root at a position. -/
  | output (root : Nat)
  deriving DecidableEq

/-- A formal parameter of a kernel. -/
inductive Formal
  | array (dtype : Option DType) (buffer : BufferName)
  | scalar (dtype : Option DType) (param : Nat)
  deriving DecidableEq

/-- A line of a kernel's body. -/
inductive Line
  | loadArray (dtype : DType) (dest : ValueId) (param : Nat)
  | loadScalar (dtype : DType) (dest : ValueId) (param : Nat)
  | literal (dtype : DType) (dest : ValueId) (value : Elem)
  /-- Declares a value that the next line sets. -/
  | declare (dtype : DType) (dest : ValueId)
  | compute (dtype : DType) (dest : ValueId) (template : Template)
      (operands : List (DType × ValueId)) (second : Option ValueId)
  | convert (dtype : DType) (dest source : ValueId)
  | selectRows (dtype : DType) (dest : ValueId) (start stop : Nat) (source target : ValueId)
  | store (buffer : BufferName) (value : ValueId)

/-- The body of a kernel. -/
inductive KernelBody
  | map (lines : List Line)
  | fold (op : Reduction) (dtype : DType) (loop : List Line) (input result : ValueId)
      (after : List Line)

/-- A kernel before rendering. -/
structure KernelSource where
  name : String
  formals : List Formal
  body : KernelBody

namespace Line

/-- The value a line declares. -/
def declared : Line → Option ValueId
  | .loadArray _ v _ => some v
  | .loadScalar _ v _ => some v
  | .literal _ v _ => some v
  | .declare _ v => some v
  | .compute _ v _ _ _ => some v
  | .convert _ v _ => some v
  | .selectRows _ v _ _ _ _ => some v
  | .store _ _ => none

/-- The values a line uses. -/
def used : Line → List ValueId
  | .compute _ _ _ operands second => operands.map (·.2) ++ second.toList
  | .convert _ _ source => [source]
  | .selectRows _ _ _ _ source target => [source, target]
  | .store _ v => [v]
  | _ => []

/-- The buffer a line loads from or stores to. -/
def buffer : Line → Option BufferName
  | .loadArray _ _ i => some (.input i)
  | .loadScalar _ _ i => some (.input i)
  | .store b _ => some b
  | _ => none

end Line

/-- The buffer a formal parameter declares. -/
def Formal.buffer : Formal → BufferName
  | .array _ b => b
  | .scalar _ i => .input i

/-! ### Rendering -/

/-- The identifier of a value. -/
def valueName (v : ValueId) : String :=
  "v" ++ toString v

/-- The identifier of a buffer. -/
def BufferName.text : BufferName → String
  | .input i => "in" ++ toString i
  | .output k => "out" ++ toString k

/-- The type of a formal parameter. -/
def formalType : Option DType → String
  | some d => d.cType
  | none => "void"

/-- The text of a formal parameter. -/
def Formal.text : Formal → String
  | .array d b => formalType d ++ "* " ++ b.text
  | .scalar d i => "const " ++ formalType d ++ " " ++ (BufferName.input i).text

/-- A constant; bools are written in lower case. -/
def literalText : Elem → String
  | .bool true => "true"
  | .bool false => "false"
  | e => e.text

/-- A value converted to a dtype. -/
def castText (d : DType) (v : ValueId) : String :=
  "(" ++ d.cType ++ ")" ++ valueName v

/-- A template with its holes filled; holes without an operand stay. -/
def Template.fill (t : Template) (operands : List (DType × ValueId)) (second : Option ValueId) :
    String :=
  String.join <| t.map fun piece =>
    match piece with
    | .text s => s
    | .operand k =>
      match operands[k]? with
      | some (d, v) => castText d v
      | none => Template.text [piece]
    | .second =>
      match second with
      | some v => valueName v
      | none => Template.text [piece]

/-- The text of a line. -/
def Line.text : Line → String
  | .loadArray d v i =>
    "const " ++ d.cType ++ " " ++ valueName v ++ " = " ++ (BufferName.input i).text ++
      "[_ind.get()];"
  | .loadScalar d v i =>
    "const " ++ d.cType ++ " " ++ valueName v ++ " = " ++ (BufferName.input i).text ++ ";"
  | .literal d v e =>
    "const " ++ d.cType ++ " " ++ valueName v ++ " = (" ++ d.cType ++ ")" ++ literalText e ++ ";"
  | .declare d v => d.cType ++ " " ++ valueName v ++ ";"
  | .compute d v t operands second =>
    d.cType ++ " " ++ valueName v ++ " = " ++ t.fill operands second ++ ";"
  | .convert d v source => d.cType ++ " " ++ valueName v ++ " = " ++ castText d source ++ ";"
  | .selectRows d v start stop source target =>
    d.cType ++ " " ++ valueName v ++ " = (_ind.row() >= " ++ toString start ++
      " && _ind.row() < " ++ toString stop ++ ") ? " ++ castText d source ++ " : " ++
      valueName target ++ ";"
  | .store b v => b.text ++ "[_ind.get()] = " ++ valueName v ++ ";"

/-- How a reduction folds one element in. -/
def Reduction.foldText : Reduction → String
  | sum => "_acc + _x"
  | prod => "_acc * _x"
  | amax => "_maximum(_acc, _x)"
  | amin => "_minimum(_acc, _x)"
  | all => "_acc && _x"
  | any => "_acc || _x"

/-- What a reduction starts from. -/
def Reduction.startText (op : Reduction) (d : DType) : String :=
  match op.identity d with
  | some e => "(" ++ d.cType ++ ")" ++ literalText e
  | none => "_first_element"

/-- Lines with their depth. -/
def KernelBody.layout : KernelBody → List (Nat × String)
  | .map lines =>
    [(1, "FUSE_FOR(i, _ind.size()) \x7b"), (2, "_ind.set(i);")] ++
      lines.map (fun l => (2, l.text)) ++ [(1, "\x7d")]
  | .fold op d loop input result after =>
    [(1, d.cType ++ " _acc = " ++ op.startText d ++ ";"),
     (1, "FUSE_FOR(i, _in_ind.size()) \x7b"), (2, "_in_ind.set(i);")] ++
      loop.map (fun l => (2, l.text)) ++
      [(2, d.cType ++ " _x = " ++ castText d input ++ ";"), (2, "_acc = " ++ op.foldText ++ ";"),
       (1, "\x7d"), (1, "_REDUCE_SYNC(_acc);"),
       (1, d.cType ++ " " ++ valueName result ++ " = _acc;")] ++
      after.map (fun l => (1, l.text))

/-- The text of a kernel. -/
def KernelSource.render (k : KernelSource) : String :=
  let formals := ", ".intercalate (k.formals.map Formal.text ++ ["CIndexer _ind"])
  let header := "extern \"C\" __global__ void " ++ k.name ++ "(" ++ formals ++ ") \x7b"
  let lines := [(0, header)] ++ k.body.layout ++ [(0, "\x7d")]
  String.join <| lines.map fun p => String.join (List.replicate p.1 "  ") ++ p.2 ++ "\n"

/-! ### Building -/

namespace Graph

/-- The line that loads a value which no node produces. -/
def loadLine (g : Graph) (v : ValueId) : List Line :=
  match g.values[v]? with
  | some ⟨form, .param i⟩ =>
    if form.kind = .array then [.loadArray form.dtype v i] else [.loadScalar form.dtype v i]
  | some ⟨form, .constant s⟩ => [.literal form.dtype v s.value]
  | _ => []

/-- Loads of the parameters and constants that nodes read. -/
def loadLines (g : Graph) (nodes : List NodeId) : List Line :=
  let reads := nodes.flatMap g.readsOf
  ((List.range g.values.length).filter fun v => decide (v ∈ reads)).flatMap g.loadLine

/-- Lines that compute the outputs of a node; none for a reduction. -/
def nodeLines (g : Graph) (n : NodeId) : List Line :=
  match g.nodes[n]? with
  | none => []
  | some node =>
    match node.op, node.outputs with
    | .ufunc f loop, out :: rest =>
      let operands := (loop.inputs.zip node.inputs)
      (rest.take 1).map (fun v => .declare (g.dtype v) v) ++
        [.compute (g.dtype out) out f.template operands rest.head?]
    | .cast d, out :: _ => node.inputs.head?.toList.map fun v => .convert d out v
    | .assign .full, out :: _ =>
      node.inputs.head?.toList.map fun v => .convert (g.dtype out) out v
    | .assign (.rows start stop), out :: _ =>
      match node.inputs, node.targets with
      | source :: _, target :: _ => [.selectRows (g.dtype out) out start stop source target]
      | _, _ => []
    | _, _ => []

/-- Where the root at a position is stored. -/
def destination (g : Graph) (k : Nat) (root : ValueId) : BufferName :=
  match g.writeBackOf root with
  | some i => .input i
  | none => .output k

/-- Stores of the roots of a stage. -/
def storeLines (g : Graph) (roots : List ValueId) : List Line :=
  roots.mapIdx fun k root => .store (g.destination k root) root

/-- Loads, then the nodes in order. -/
def blockLines (g : Graph) (nodes : List NodeId) : List Line :=
  g.loadLines nodes ++ nodes.flatMap g.nodeLines

/-- Parameters that a stage reads. -/
def paramsRead (g : Graph) (s : Stage) : List Nat :=
  let reads := s.nodes.flatMap g.readsOf ++ s.roots
  (List.range g.params.length).filter fun i => reads.any fun v => g.paramOf v == some i

/-- The formal parameter of an argument. -/
def argFormal (g : Graph) (i : Nat) : List Formal :=
  match g.params[i]? with
  | some p => if p.kind = .array then [.array p.dtype (.input i)] else [.scalar p.dtype i]
  | none => []

/-- The formal parameter of a root that is not written back. -/
def rootFormal (g : Graph) (k : Nat) (root : ValueId) : Option Formal :=
  match g.writeBackOf root with
  | some _ => none
  | none => some (.array (some (g.dtype root)) (.output k))

/-- The formal parameters of a stage. -/
def formals (g : Graph) (s : Stage) : List Formal :=
  (g.paramsRead s).flatMap g.argFormal ++
    (s.roots.mapIdx g.rootFormal).filterMap id

/-- The body of a stage. -/
def kernelBody (g : Graph) (s : Stage) : KernelBody :=
  match s.kind with
  | .elementwise => .map (g.blockLines s.premap ++ g.storeLines s.roots)
  | .reduction n op _ =>
    let (inputs, outputs) := match g.nodes[n]? with
      | some node => (node.inputs, node.outputs)
      | none => ([], [])
    let result := outputs.headD 0
    .fold op (g.dtype result) (g.blockLines s.premap) (inputs.headD 0) result
      (g.blockLines s.postmap ++ g.storeLines s.roots)

end Graph

end ArrayFusion
