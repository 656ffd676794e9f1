/-
ArrayFusion/Body/Run.lean

Running a body against array operations.

Design.  `runStmt` and `runBlock` are structural in the statement tree.  A
statement yields either the variables for the next statement or the value
that the body returns; a return inside a branch passes through the
enclosing blocks unchanged.
-/
import ArrayFusion.ArrayOps
import ArrayFusion.Body.Basic

namespace ArrayFusion

variable {σ V : Type}

/-- The variables of a body; the latest binding of a name counts. -/
abbrev Variables (V : Type) := List (String × V)

namespace Variables

/-- The value of a variable. -/
def fetch (vars : Variables V) (name : String) : Except Error V :=
  match vars.lookup name with
  | some v => .ok v
  | none => .error (.unbound name)

/-- The values of several variables. -/
def fetchAll (vars : Variables V) (names : List String) : Except Error (List V) :=
  names.mapM vars.fetch

/-- The values of variables passed to a call, some of them left out. -/
def fetchArgs (vars : Variables V) (names : List (Option String)) :
    Except Error (List (Option V)) :=
  names.mapM fun name =>
    match name with
    | some x => do return some (← vars.fetch x)
    | none => .ok none

/-- What a return statement returns. -/
def fetchReturned (vars : Variables V) : Returned String → Except Error (Returned V)
  | .none => .ok .none
  | .single x => do return .single (← vars.fetch x)
  | .tuple xs => do return .tuple (← vars.fetchAll xs)

end Variables

/-- The variables after binding produced values. -/
def Binder.bind (b : Binder) (values : List V) (vars : Variables V) : Variables V :=
  match b, values with
  | .drop, _ => vars
  | .one x, v :: _ => (x, v) :: vars
  | .one _, [] => vars
  | .many xs, values => (xs.zip values).reverse ++ vars

/-- How a statement ends. -/
inductive Flow (V : Type)
  | next (vars : Variables V)
  | done (value : Returned V)

/-- What a block returns; nothing, if it runs to its end. -/
def Flow.returned : Flow V → Returned V
  | .next _ => .none
  | .done r => r

/-- A required positional argument. -/
def requiredArg (args : List (Option V)) (index : Nat) : Except Error V :=
  match args[index]? with
  | some (some v) => .ok v
  | _ => .error (.trace (.missingArgument index))

/-- Decides the condition of a branch. -/
def Test.holds (ops : ArrayOps σ V) (args : List (Option V)) (vars : Variables V) :
    Test → Exec σ Bool
  | .present i => return (args[i]?).join.isSome
  | .backend tag => return ops.tag == tag
  | .kind x k => do return ops.kind (← Exec.lift (vars.fetch x)) == k
  | .dtype x d => do return ops.dtype (← Exec.lift (vars.fetch x)) == d
  | .ndim x n => do return ops.ndim (← Exec.lift (vars.fetch x)) == n
  | .truth x => do ops.truth (← Exec.lift (vars.fetch x))

mutual

/-- Runs one statement. -/
def runStmt (ops : ArrayOps σ V) (args : List (Option V)) (vars : Variables V) :
    Stmt → Exec σ (Flow V)
  | .ret value => do return .done (← Exec.lift (vars.fetchReturned value))
  | .branch test yes no => do
    if ← test.holds ops args vars then runBlock ops args vars yes
    else runBlock ops args vars no
  | .arg dest index => do
    let v ← Exec.lift (requiredArg args index)
    return .next (dest.bind [v] vars)
  | .const dest value => do
    let v ← ops.scalar value
    return .next (dest.bind [v] vars)
  | .synonym dest x => do
    let v ← Exec.lift (vars.fetch x)
    return .next (dest.bind [v] vars)
  | .ufunc dest f inputs none => do
    let values ← ops.ufunc f (← Exec.lift (vars.fetchAll inputs))
    return .next (dest.bind values vars)
  | .ufunc dest f inputs (some outs) => do
    let ins ← Exec.lift (vars.fetchAll inputs)
    let values ← ops.ufuncOut f ins (← Exec.lift (vars.fetchAll outs))
    return .next (dest.bind values vars)
  | .inplace dest f target other => do
    let t ← Exec.lift (vars.fetch target)
    let values ← ops.inplace f t (← Exec.lift (vars.fetch other))
    return .next (dest.bind values vars)
  | .reduce dest op x axis => do
    let v ← ops.reduce op (← Exec.lift (vars.fetch x)) axis
    return .next (dest.bind [v] vars)
  | .astype dest dtype x => do
    let v ← ops.astype (← Exec.lift (vars.fetch x)) dtype
    return .next (dest.bind [v] vars)
  | .assign target source region => do
    let t ← Exec.lift (vars.fetch target)
    ops.assign t (← Exec.lift (vars.fetch source)) region
    return .next vars
  | .item dest x => do
    let s ← ops.item (← Exec.lift (vars.fetch x))
    let v ← ops.scalar s
    return .next (dest.bind [v] vars)
  | .call dest callee names => do
    let values ← Exec.lift (vars.fetchArgs names)
    let flow ← runBlock ops values [] callee
    return .next (dest.bind flow.returned.toList vars)
  | .raise reason => Exec.fail (.trace (.unsupported reason))

/-- Runs statements until one of them returns. -/
def runBlock (ops : ArrayOps σ V) (args : List (Option V)) (vars : Variables V) :
    List Stmt → Exec σ (Flow V)
  | [] => return .next vars
  | s :: rest => do
    match ← runStmt ops args vars s with
    | .next vars => runBlock ops args vars rest
    | .done r => return .done r

end

/-- Runs a function on positional arguments. -/
def Function.run (fn : Function) (ops : ArrayOps σ V) (args : List (Option V)) :
    Exec σ (Returned V) := do
  return (← runBlock ops args [] fn.body).returned

end ArrayFusion
