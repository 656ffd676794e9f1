/-
ArrayFusion/Reduction/Basic.lean

The catalogue of reductions: names, the elementwise function each one folds
with, and the dtype of its result.
-/
import ArrayFusion.DType
import ArrayFusion.Ufunc.Basic

namespace ArrayFusion

/-- A reduction of an array along an axis or over all axes. -/
inductive Reduction
  | sum
  | prod
  | amax
  | amin
  | all
  | any
  deriving DecidableEq

namespace Reduction

/-- The reduction's name. -/
def name : Reduction → String
  | sum => "sum"
  | prod => "prod"
  | amax => "amax"
  | amin => "amin"
  | all => "all"
  | any => "any"

/-- Looks a reduction up by its name. -/
def ofName? : String → Option Reduction
  | "sum" => some sum
  | "prod" => some prod
  | "amax" => some amax
  | "amin" => some amin
  | "all" => some all
  | "any" => some any
  | _ => none

/-- The elementwise function a reduction folds with. -/
def ufunc : Reduction → Ufunc
  | sum => .add
  | prod => .multiply
  | amax => .maximum
  | amin => .minimum
  | all => .logicalAnd
  | any => .logicalOr

/-- The dtype of the result.  Sums and products of bools and integers are
taken in sixty-four bits. -/
def outputDType : Reduction → DType → DType
  | sum, .bool => .int .w64
  | sum, .int _ => .int .w64
  | sum, .uint _ => .uint .w64
  | sum, .float p => .float p
  | prod, .bool => .int .w64
  | prod, .int _ => .int .w64
  | prod, .uint _ => .uint .w64
  | prod, .float p => .float p
  | amax, d => d
  | amin, d => d
  | all, _ => .bool
  | any, _ => .bool

/-- Whether a reduction of no elements has a value. -/
def hasIdentity : Reduction → Bool
  | amax => false
  | amin => false
  | _ => true

end Reduction

end ArrayFusion
