/-
ArrayFusion/Binary64/Arithmetic.lean

Arithmetic on doubles beyond the four operations: remainders and the
division that goes with them, rounding to whole numbers, splitting into
parts, neighbours, and comparisons that pass a not-a-number on.
-/
import ArrayFusion.Binary64.Format

namespace ArrayFusion.Binary64

/-- The quiet not-a-number. -/
def nan : Float := ofWord false FloatFormat.binary64.quietNaN

/-! ### Sign and order -/

/-- The magnitude of `x` with the sign of `y`. -/
def copySign (x y : Float) : Float :=
  ofWord (isNegative y) (word x)

/-- The larger number; a not-a-number gives way to the other operand. -/
def maxNumber (a b : Float) : Float :=
  if a.isNaN then b else if b.isNaN then a else if a < b then b else a

/-- The smaller number; a not-a-number gives way to the other operand. -/
def minNumber (a b : Float) : Float :=
  if a.isNaN then b else if b.isNaN then a else if b < a then b else a

/-- The larger operand; a not-a-number on either side wins. -/
def maximum (a b : Float) : Float :=
  if a.isNaN || b.isNaN then nan else maxNumber a b

/-- The smaller operand; a not-a-number on either side wins. -/
def minimum (a b : Float) : Float :=
  if a.isNaN || b.isNaN then nan else minNumber a b

/-- One with the sign of `a`; zero and not-a-number stay what they are. -/
def sign (a : Float) : Float :=
  if a.isNaN || a == 0.0 then a * 0.0 else copySign 1.0 a

/-! ### Rounding to whole numbers -/

/-- `x` without its fraction. -/
def trunc (x : Float) : Float :=
  if x < 0.0 then x.ceil else x.floor

/-- `x` rounded to the nearest whole number, a tie to the even one. -/
def rint (x : Float) : Float :=
  if (x - trunc x).abs == 0.5 then 2.0 * (x / 2.0).round else x.round

/-! ### Division with remainder -/

/-- The remainder of truncating division.  It is exact and has the sign of
the dividend. -/
def fmod (a b : Float) : Float :=
  if a.isNaN || b.isNaN || a.isInf || b == 0.0 then nan
  else if b.isInf then a
  else ofMagnitude (isNegative a) (magnitude a % magnitude b)

/-- The quotient rounded down. -/
def floorDiv (a b : Float) : Float :=
  if b == 0.0 then a / b
  else
    let m := fmod a b
    let d := (a - m) / b
    let d := if m != 0.0 && decide (b < 0.0) != decide (m < 0.0) then d - 1.0 else d
    if d == 0.0 then copySign 0.0 (a / b)
    else
      let f := d.floor
      if d - f > 0.5 then f + 1.0 else f

/-- The remainder of floor division; it has the sign of the divisor. -/
def floorMod (a b : Float) : Float :=
  let r := fmod a b
  if r != 0.0 && decide (r < 0.0) != decide (b < 0.0) then r + b
  else if r == 0.0 then copySign 0.0 b
  else r

/-! ### Parts of a number -/

/-- Fractional and whole part, both with the sign of `x`. -/
def modf (x : Float) : Float × Float :=
  if x.isInf then (copySign 0.0 x, x)
  else
    let whole := trunc x
    (copySign (x - whole) x, whole)

/-- Significand in `[1/2, 1)` and binary exponent; zero and non-finite
numbers have exponent zero. -/
def frexp (x : Float) : Float × Int :=
  if x == 0.0 || x.isNaN || x.isInf then (x, 0)
  else
    let n := magnitude x
    let len := FloatFormat.bitLength n
    let significand := if len ≤ 53 then n * pow2 (53 - len) else n / pow2 (len - 53)
    (ofWord (isNegative x) (1021 * pow2 52 + significand), (len : Int) - 1074)

/-- `2 ^ e` for an exponent of the normal range. -/
def powerOfTwo (e : Int) : Float :=
  ofWord false ((e + 1023).toNat * pow2 52)

/-- Moves a scale of at most a thousand from the exponent into the
number. -/
def scaleStep : Float × Int → Float × Int
  | (x, e) =>
    if e > 1000 then (x * powerOfTwo 1000, e - 1000)
    else if e < -1000 then (x * powerOfTwo (-1000), e + 1000)
    else (x, e)

/-- `x * 2 ^ e`, multiplied in steps of at most a thousand binary places.
Beyond 2200 places the result no longer changes, and two steps bring such
an exponent within the last multiplication. -/
def ldexp (x : Float) (e : Int) : Float :=
  let clamped := max (-2200) (min e 2200)
  let scaled := scaleStep (scaleStep (x, clamped))
  scaled.1 * powerOfTwo scaled.2

/-! ### Neighbours -/

/-- The next number of a precision after `x` in the direction of `y`. -/
def nextAfter (p : Precision) (x y : Float) : Float :=
  if x.isNaN || y.isNaN then nan
  else if x == y then y
  else
    let up := decide (x < y)
    let w := wordIn p.format (p.round x)
    if w = 0 then ofWordIn p.format (!up) 1
    else if isNegative x = up then ofWordIn p.format (isNegative x) (w - 1)
    else ofWordIn p.format (isNegative x) (w + 1)

end ArrayFusion.Binary64
