/-
ArrayFusion/Ufunc/Basic.lean

The catalogue of elementwise functions.  `Ufunc.info` is its one table: the
name, the number of inputs and outputs, the rule that resolves operand
dtypes, and the expression written into kernel source.
-/
namespace ArrayFusion

/-- An elementwise function. -/
inductive Ufunc
  -- arithmetic
  | add | subtract | multiply | trueDivide | floorDivide | remainder | fmod | power
  | maximum | minimum | fmax | fmin | absolute | negative | sign | square | reciprocal
  -- functions on floats
  | sqrt | cbrt | exp | exp2 | expm1 | log | log2 | log10 | log1p
  | sin | cos | tan | arcsin | arccos | arctan
  | sinh | cosh | tanh | arcsinh | arccosh | arctanh
  | deg2rad | rad2deg | floor | ceil | trunc | rint
  | arctan2 | hypot | copysign | nextafter | logaddexp | logaddexp2
  -- comparisons
  | greater | greaterEqual | less | lessEqual | equal | notEqual
  -- logic
  | logicalAnd | logicalOr | logicalXor | logicalNot | isnan | isinf | isfinite | signbit
  -- bits
  | bitwiseAnd | bitwiseOr | bitwiseXor | invert | leftShift | rightShift
  -- several outputs or mixed operands
  | modf | divmod | frexp | ldexp | select | clip
  deriving DecidableEq

/-- How operand dtypes determine the loop of a function. -/
inductive LoopRule
  /-- Runs in the common dtype. -/
  | arith
  /-- Runs in the common dtype, bools in the smallest signed integer. -/
  | arithNoBool
  /-- Runs in the common dtype and refuses bools. -/
  | rejectBool
  /-- Bools and integers divide in double precision. -/
  | trueDivide
  /-- Runs in floats; bools and integers are lifted. -/
  | float
  /-- Runs in the common dtype and yields a truth value. -/
  | compare
  /-- Runs on truth values. -/
  | logical
  /-- Runs in floats and yields a truth value. -/
  | predicate
  /-- Runs on bools and integers. -/
  | bitwise
  /-- Runs on integers, bools in the smallest signed integer. -/
  | shift
  /-- Has a rule of its own. -/
  | special
  deriving DecidableEq

/-- A piece of an expression template. -/
inductive Piece
  | text (s : String)
  | operand (k : Nat)
  | second
  deriving DecidableEq

/-- An expression with holes for the operands and for the name that receives
a second output. -/
abbrev Template := List Piece

namespace Template

/-- An operator between two operands. -/
def between (op : String) : Template :=
  [.operand 0, .text op, .operand 1]

/-- A call with one operand. -/
def call1 (f : String) : Template :=
  [.text (f ++ "("), .operand 0, .text ")"]

/-- A call with two operands. -/
def call2 (f : String) : Template :=
  [.text (f ++ "("), .operand 0, .text ", ", .operand 1, .text ")"]

/-- The template with its holes shown as `$0`, `$1`, `$2` and `$o1`. -/
def text (t : Template) : String :=
  String.join <| t.map fun
    | .text s => s
    | .operand k => "$" ++ toString k
    | .second => "$o1"

end Template

/-- What the catalogue says about a function. -/
structure UfuncInfo where
  name : String
  nin : Nat
  nout : Nat
  loopRule : LoopRule
  template : Template

namespace Ufunc

open Template (between call1 call2)

/-- The catalogue. -/
def info : Ufunc → UfuncInfo
  | add => ⟨"add", 2, 1, .arith, between " + "⟩
  | subtract => ⟨"subtract", 2, 1, .rejectBool, between " - "⟩
  | multiply => ⟨"multiply", 2, 1, .arith, between " * "⟩
  | trueDivide => ⟨"true_divide", 2, 1, .trueDivide, between " / "⟩
  | floorDivide => ⟨"floor_divide", 2, 1, .arithNoBool, call2 "_floor_divide"⟩
  | remainder => ⟨"remainder", 2, 1, .arithNoBool, call2 "_python_mod"⟩
  | fmod => ⟨"fmod", 2, 1, .arithNoBool, call2 "fmod"⟩
  | power => ⟨"power", 2, 1, .arithNoBool, call2 "pow"⟩
  | maximum => ⟨"maximum", 2, 1, .arith, call2 "_maximum"⟩
  | minimum => ⟨"minimum", 2, 1, .arith, call2 "_minimum"⟩
  | fmax => ⟨"fmax", 2, 1, .arith, call2 "fmax"⟩
  | fmin => ⟨"fmin", 2, 1, .arith, call2 "fmin"⟩
  | absolute => ⟨"absolute", 1, 1, .arith, call1 "abs"⟩
  | negative => ⟨"negative", 1, 1, .rejectBool, [.text "-", .operand 0]⟩
  | sign => ⟨"sign", 1, 1, .arithNoBool, call1 "_sign"⟩
  | square => ⟨"square", 1, 1, .arithNoBool, [.operand 0, .text " * ", .operand 0]⟩
  | reciprocal => ⟨"reciprocal", 1, 1, .arithNoBool, [.text "1 / ", .operand 0]⟩
  | sqrt => ⟨"sqrt", 1, 1, .float, call1 "sqrt"⟩
  | cbrt => ⟨"cbrt", 1, 1, .float, call1 "cbrt"⟩
  | exp => ⟨"exp", 1, 1, .float, call1 "exp"⟩
  | exp2 => ⟨"exp2", 1, 1, .float, call1 "exp2"⟩
  | expm1 => ⟨"expm1", 1, 1, .float, call1 "expm1"⟩
  | log => ⟨"log", 1, 1, .float, call1 "log"⟩
  | log2 => ⟨"log2", 1, 1, .float, call1 "log2"⟩
  | log10 => ⟨"log10", 1, 1, .float, call1 "log10"⟩
  | log1p => ⟨"log1p", 1, 1, .float, call1 "log1p"⟩
  | sin => ⟨"sin", 1, 1, .float, call1 "sin"⟩
  | cos => ⟨"cos", 1, 1, .float, call1 "cos"⟩
  | tan => ⟨"tan", 1, 1, .float, call1 "tan"⟩
  | arcsin => ⟨"arcsin", 1, 1, .float, call1 "asin"⟩
  | arccos => ⟨"arccos", 1, 1, .float, call1 "acos"⟩
  | arctan => ⟨"arctan", 1, 1, .float, call1 "atan"⟩
  | sinh => ⟨"sinh", 1, 1, .float, call1 "sinh"⟩
  | cosh => ⟨"cosh", 1, 1, .float, call1 "cosh"⟩
  | tanh => ⟨"tanh", 1, 1, .float, call1 "tanh"⟩
  | arcsinh => ⟨"arcsinh", 1, 1, .float, call1 "asinh"⟩
  | arccosh => ⟨"arccosh", 1, 1, .float, call1 "acosh"⟩
  | arctanh => ⟨"arctanh", 1, 1, .float, call1 "atanh"⟩
  | deg2rad => ⟨"deg2rad", 1, 1, .float, [.operand 0, .text " * (M_PI / 180)"]⟩
  | rad2deg => ⟨"rad2deg", 1, 1, .float, [.operand 0, .text " * (180 / M_PI)"]⟩
  | floor => ⟨"floor", 1, 1, .float, call1 "floor"⟩
  | ceil => ⟨"ceil", 1, 1, .float, call1 "ceil"⟩
  | trunc => ⟨"trunc", 1, 1, .float, call1 "trunc"⟩
  | rint => ⟨"rint", 1, 1, .float, call1 "rint"⟩
  | arctan2 => ⟨"arctan2", 2, 1, .float, call2 "atan2"⟩
  | hypot => ⟨"hypot", 2, 1, .float, call2 "hypot"⟩
  | copysign => ⟨"copysign", 2, 1, .float, call2 "copysign"⟩
  | nextafter => ⟨"nextafter", 2, 1, .float, call2 "nextafter"⟩
  | logaddexp => ⟨"logaddexp", 2, 1, .float, call2 "_logaddexp"⟩
  | logaddexp2 => ⟨"logaddexp2", 2, 1, .float, call2 "_logaddexp2"⟩
  | greater => ⟨"greater", 2, 1, .compare, between " > "⟩
  | greaterEqual => ⟨"greater_equal", 2, 1, .compare, between " >= "⟩
  | less => ⟨"less", 2, 1, .compare, between " < "⟩
  | lessEqual => ⟨"less_equal", 2, 1, .compare, between " <= "⟩
  | equal => ⟨"equal", 2, 1, .compare, between " == "⟩
  | notEqual => ⟨"not_equal", 2, 1, .compare, between " != "⟩
  | logicalAnd => ⟨"logical_and", 2, 1, .logical, between " && "⟩
  | logicalOr => ⟨"logical_or", 2, 1, .logical, between " || "⟩
  | logicalXor => ⟨"logical_xor", 2, 1, .logical, between " != "⟩
  | logicalNot => ⟨"logical_not", 1, 1, .logical, [.text "!", .operand 0]⟩
  | isnan => ⟨"isnan", 1, 1, .predicate, call1 "isnan"⟩
  | isinf => ⟨"isinf", 1, 1, .predicate, call1 "isinf"⟩
  | isfinite => ⟨"isfinite", 1, 1, .predicate, call1 "isfinite"⟩
  | signbit => ⟨"signbit", 1, 1, .predicate, call1 "signbit"⟩
  | bitwiseAnd => ⟨"bitwise_and", 2, 1, .bitwise, between " & "⟩
  | bitwiseOr => ⟨"bitwise_or", 2, 1, .bitwise, between " | "⟩
  | bitwiseXor => ⟨"bitwise_xor", 2, 1, .bitwise, between " ^ "⟩
  | invert => ⟨"invert", 1, 1, .bitwise, [.text "~", .operand 0]⟩
  | leftShift => ⟨"left_shift", 2, 1, .shift, between " << "⟩
  | rightShift => ⟨"right_shift", 2, 1, .shift, between " >> "⟩
  | modf => ⟨"modf", 1, 2, .special, [.text "modf(", .operand 0, .text ", &", .second, .text ")"]⟩
  | divmod => ⟨"divmod", 2, 2, .special,
      [.text "_divmod(", .operand 0, .text ", ", .operand 1, .text ", &", .second, .text ")"]⟩
  | frexp => ⟨"frexp", 1, 2, .special, [.text "frexp(", .operand 0, .text ", &", .second, .text ")"]⟩
  | ldexp => ⟨"ldexp", 2, 1, .special, call2 "ldexp"⟩
  | select => ⟨"where", 3, 1, .special,
      [.operand 0, .text " ? ", .operand 1, .text " : ", .operand 2]⟩
  | clip => ⟨"clip", 3, 1, .special,
      [.text "_minimum(_maximum(", .operand 0, .text ", ", .operand 1, .text "), ",
       .operand 2, .text ")"]⟩

/-- The function's name. -/
def name (f : Ufunc) : String := f.info.name

/-- Number of inputs. -/
def nin (f : Ufunc) : Nat := f.info.nin

/-- Number of outputs. -/
def nout (f : Ufunc) : Nat := f.info.nout

/-- Rule that resolves operand dtypes. -/
def loopRule (f : Ufunc) : LoopRule := f.info.loopRule

/-- Expression written into kernel source. -/
def template (f : Ufunc) : Template := f.info.template

/-- Every function. -/
def all : List Ufunc :=
  [add, subtract, multiply, trueDivide, floorDivide, remainder, fmod, power,
   maximum, minimum, fmax, fmin, absolute, negative, sign, square, reciprocal,
   sqrt, cbrt, exp, exp2, expm1, log, log2, log10, log1p,
   sin, cos, tan, arcsin, arccos, arctan,
   sinh, cosh, tanh, arcsinh, arccosh, arctanh,
   deg2rad, rad2deg, floor, ceil, trunc, rint,
   arctan2, hypot, copysign, nextafter, logaddexp, logaddexp2,
   greater, greaterEqual, less, lessEqual, equal, notEqual,
   logicalAnd, logicalOr, logicalXor, logicalNot, isnan, isinf, isfinite, signbit,
   bitwiseAnd, bitwiseOr, bitwiseXor, invert, leftShift, rightShift,
   modf, divmod, frexp, ldexp, select, clip]

/-- Looks a function up by its name or by one of three shorter names. -/
def ofName? (s : String) : Option Ufunc :=
  match s with
  | "divide" => some trueDivide
  | "mod" => some remainder
  | "abs" => some absolute
  | _ => all.find? fun f => f.name == s

end Ufunc

namespace LoopRule

/-- The name of a loop class. -/
def name : LoopRule → String
  | arith => "Arith"
  | arithNoBool => "ArithNoBool"
  | rejectBool => "RejectBool"
  | trueDivide => "TrueDivide"
  | float => "Float"
  | compare => "Compare"
  | logical => "Logical"
  | predicate => "Predicate"
  | bitwise => "Bitwise"
  | shift => "Shift"
  | special => "Special"

end LoopRule

end ArrayFusion
