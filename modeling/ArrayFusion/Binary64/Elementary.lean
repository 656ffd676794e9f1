/-
ArrayFusion/Binary64/Elementary.lean

Elementary functions on doubles that the core library does not provide.
Each one is arranged so that no digits cancel: `expm1` and `log1p` keep
their relative accuracy near zero, and `hypot` neither overflows nor
underflows before its result does.
-/
import ArrayFusion.Binary64.Arithmetic

namespace ArrayFusion.Binary64

/-- The circle constant. -/
def pi : Float := 3.141592653589793

/-- The natural logarithm of two. -/
def ln2 : Float := 0.6931471805599453

/-- `exp x - 1`.  Near zero the rounding error of `exp x` is divided out
again through its logarithm. -/
def expm1 (x : Float) : Float :=
  if x.abs > 1.0 || x.isNaN then x.exp - 1.0
  else
    let u := x.exp
    if u == 1.0 then x else (u - 1.0) * (x / u.log)

/-- `log (1 + x)`.  The rounding error of `1 + x` is divided out again. -/
def log1p (x : Float) : Float :=
  let u := 1.0 + x
  if u == 1.0 then x
  else if u.isInf then u.log
  else u.log * (x / (u - 1.0))

/-- The length of the hypotenuse over two legs whose squares neither overflow
nor underflow.  The rounding error of the root is found from differences that
are exact or nearly so, and taken off again. -/
def hypotScaled (long short : Float) : Float :=
  let h := (long * long + short * short).sqrt
  let excess :=
    if h <= 2.0 * short then
      let gap := h - short
      long * (2.0 * gap - long) + (gap - 2.0 * (long - short)) * gap
    else
      let gap := h - long
      2.0 * gap * (long - 2.0 * short) + ((4.0 * gap - short) * short + gap * gap)
  h - excess / (2.0 * h)

/-- The length of the hypotenuse; infinite as soon as one leg is.  A leg that
is negligible beside the other is added, and others are scaled before they
are squared. -/
def hypot (x y : Float) : Float :=
  if x.isInf || y.isInf then ofWord false FloatFormat.binary64.infinity
  else if x.isNaN || y.isNaN then nan
  else
    let long := maxNumber x.abs y.abs
    let short := minNumber x.abs y.abs
    let scale := powerOfTwo 600
    if short <= long * powerOfTwo (-54) then long + short
    else if long > powerOfTwo 511 then hypotScaled (long / scale) (short / scale) * scale
    else if short < powerOfTwo (-459) then hypotScaled (long * scale) (short * scale) / scale
    else hypotScaled long short

/-- `log (exp a + exp b)`. -/
def logaddexp (a b : Float) : Float :=
  if a == b then a + ln2
  else maximum a b + log1p (-(a - b).abs).exp

/-- `log2 (2 ^ a + 2 ^ b)`. -/
def logaddexp2 (a b : Float) : Float :=
  if a == b then a + 1.0
  else maximum a b + log1p (-(a - b).abs).exp2 / ln2

/-- Degrees to radians. -/
def toRadians (x : Float) : Float :=
  x * (pi / 180.0)

/-- Radians to degrees. -/
def toDegrees (x : Float) : Float :=
  x * (180.0 / pi)

end ArrayFusion.Binary64
