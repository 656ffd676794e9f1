/-
ArrayFusion/Ufunc/Loop.lean

Resolving an elementwise function against its operand dtypes.  The result
is a loop: the dtype each input is cast to before the function is applied,
and the dtype of each output.
-/
import ArrayFusion.DType.Promotion
import ArrayFusion.Error

namespace ArrayFusion

/-- A resolved inner loop. -/
structure Loop where
  /-- The dtype each input is cast to. -/
  inputs : List DType
  /-- The dtype of each output. -/
  outputs : List DType
  deriving DecidableEq

namespace Loop

/-- The dtype the loop computes in: that of its first input. -/
def compute (l : Loop) : DType :=
  l.inputs.headD (.float .double)

/-- A loop with all inputs of one dtype. -/
def uniform (nin : Nat) (input : DType) (outputs : List DType) : Loop :=
  ⟨List.replicate nin input, outputs⟩

end Loop

namespace Ufunc

/-- Bools give way to the smallest signed integer. -/
def withoutBool : DType → DType
  | .bool => .int .w8
  | d => d

/-- Common dtype of the operands. -/
def common (operands : List OperandType) : DType :=
  (DType.resultType operands).getD (.float .double)

/-- Inputs and outputs all of one dtype. -/
def sameLoop (f : Ufunc) (d : DType) : Loop :=
  .uniform f.nin d (List.replicate f.nout d)

/-- The scaling function: the number is lifted to a float, the exponent is
any integer that fits a signed word.  A float is not scaled by a bool. -/
def ldexpLoop (number exponent : DType) : Except Error Loop :=
  if number.isFloat && exponent == .bool || exponent.isFloat || exponent == .uint .w64 then
    .error (.type (.noLoop .ldexp))
  else .ok ⟨[number.floatLift, .int .w64], [number.floatLift]⟩

/-- Loops of the functions with a rule of their own. -/
def specialLoop (f : Ufunc) (operands : List OperandType) : Except Error Loop :=
  let d := common operands
  match f, operands with
  | .modf, _ => .ok (.uniform 1 d.floatLift [d.floatLift, d.floatLift])
  | .frexp, _ => .ok (.uniform 1 d.floatLift [d.floatLift, .int .w32])
  | .divmod, _ => .ok (.uniform 2 (withoutBool d) [withoutBool d, withoutBool d])
  | .ldexp, number :: exponent :: _ => ldexpLoop number.dtype exponent.dtype
  | .select, _ :: choices => .ok ⟨[.bool, common choices, common choices], [common choices]⟩
  | .clip, _ => .ok (.uniform 3 d [d])
  | _, _ => .error (.type (.noLoop f))

/-- The error of a function that refuses bools. -/
def boolError : Ufunc → TypeError
  | .negative => .boolNegative
  | _ => .boolSubtract

/-- The loop of a function for the given operands. -/
def resolve (f : Ufunc) (operands : List OperandType) : Except Error Loop :=
  if operands.length ≠ f.nin then
    .error (.type (.argumentCount f.name f.nin operands.length))
  else
    let d := common operands
    match f.loopRule with
    | .arith => .ok (f.sameLoop d)
    | .arithNoBool => .ok (f.sameLoop (withoutBool d))
    | .rejectBool =>
      if d = .bool then .error (.type f.boolError) else .ok (f.sameLoop d)
    | .trueDivide => .ok (f.sameLoop (if d.isFloat then d else .float .double))
    | .float => .ok (f.sameLoop d.floatLift)
    | .compare => .ok (.uniform f.nin d [.bool])
    | .logical => .ok (.uniform f.nin .bool [.bool])
    | .predicate => .ok (.uniform f.nin d.floatLift [.bool])
    | .bitwise =>
      if d.isFloat then .error (.type (.noLoop f)) else .ok (f.sameLoop d)
    | .shift =>
      if d.isFloat then .error (.type (.noLoop f)) else .ok (f.sameLoop (withoutBool d))
    | .special => f.specialLoop operands

/-- Checks the dtypes of the arrays a loop is to write: their number first,
then each in turn.  `none` stands for an output that is not an array. -/
def checkOutputs (f : Ufunc) (loop : Loop) (outs : List (Option DType)) : Except Error Unit :=
  if outs.length ≠ f.nout then
    .error (.type (.outputCount f f.nout outs.length))
  else
    (loop.outputs.zip outs).forM fun
      | (_, none) => .error (.type .outputNotArray)
      | (source, some target) =>
        if source.canCastSameKind target then .ok ()
        else .error (.type (.outputCast f source target))

end Ufunc

end ArrayFusion
