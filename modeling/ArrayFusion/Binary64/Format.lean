/-
ArrayFusion/Binary64/Format.lean

Binary interchange formats seen from double precision.

Design.  Every finite number of the three formats is a whole multiple of
the smallest positive double, `2 ^ -1074`.  Its *magnitude* is that
multiple, a natural number, so rounding, remainders and decimal expansion
are exact arithmetic on `Nat` and need no exponents.  A format is then
given by its precision, the number of its exponent bits, and the binary
logarithm of its own smallest positive number in the same unit.

A *word* of a format is its bit pattern without the sign bit.  Words count
upwards with the magnitude: `wordOf` rounds a magnitude to the nearest
word, ties to the even word, and `magnitudeOf` reads a finite word back.
-/
import ArrayFusion.DType

namespace ArrayFusion

/-- The `k`-th power of two. -/
def pow2 (k : Nat) : Nat :=
  Nat.pow 2 k

@[simp] theorem pow2_zero : pow2 0 = 1 := rfl

theorem pow2_succ (k : Nat) : pow2 (k + 1) = pow2 k * 2 := rfl

theorem pow2_pos (k : Nat) : 0 < pow2 k := by
  induction k with
  | zero => exact Nat.one_pos
  | succ k ih =>
    rw [pow2_succ]
    omega

/-- A binary interchange format. -/
structure FloatFormat where
  /-- Bits of the significand, the leading one included. -/
  precision : Nat
  /-- Bits of the exponent field. -/
  exponentBits : Nat
  /-- The smallest positive number is `2 ^ step` smallest doubles. -/
  step : Nat
  deriving DecidableEq

namespace FloatFormat

/-- Half precision: sixteen bits. -/
def binary16 : FloatFormat := ⟨11, 5, 1050⟩

/-- Single precision: thirty-two bits. -/
def binary32 : FloatFormat := ⟨24, 8, 925⟩

/-- Double precision: sixty-four bits. -/
def binary64 : FloatFormat := ⟨53, 11, 0⟩

/-- Words from one exponent to the next. -/
def binade (f : FloatFormat) : Nat :=
  pow2 (f.precision - 1)

/-- The word of infinity; larger words are not numbers. -/
def infinity (f : FloatFormat) : Nat :=
  (pow2 f.exponentBits - 1) * f.binade

/-- The word of the quiet not-a-number. -/
def quietNaN (f : FloatFormat) : Nat :=
  f.infinity + pow2 (f.precision - 2)

/-- `n / 2 ^ k` rounded to the nearest natural number, a tie to the even
one. -/
def roundHalfEven (n k : Nat) : Nat :=
  let q := n / pow2 k
  let r := n % pow2 k
  if 2 * r < pow2 k then q
  else if 2 * r = pow2 k then q + q % 2
  else q + 1

/-- Number of binary digits. -/
def bitLength (n : Nat) : Nat :=
  if n = 0 then 0 else n.log2 + 1

/-- The magnitude of a finite word. -/
def magnitudeOf (f : FloatFormat) (word : Nat) : Nat :=
  let e := word / f.binade
  let m := word % f.binade
  if e = 0 then m * pow2 f.step
  else (m + f.binade) * pow2 (e - 1 + f.step)

/-- The word nearest to a magnitude, infinity where the format ends. -/
def wordOf (f : FloatFormat) (n : Nat) : Nat :=
  let shift := max (bitLength n - f.precision) f.step
  min ((shift - f.step) * f.binade + roundHalfEven n shift) f.infinity

end FloatFormat

namespace Binary64

/-- Whether the sign bit is set. -/
def isNegative (x : Float) : Bool :=
  x.toBits >>> 63 == 1

/-- The bit pattern without the sign. -/
def word (x : Float) : Nat :=
  x.toBits.toNat % pow2 63

/-- The double with the given sign and word. -/
def ofWord (negative : Bool) (w : Nat) : Float :=
  Float.ofBits (UInt64.ofNat (w + if negative then pow2 63 else 0))

/-- The magnitude of a finite double. -/
def magnitude (x : Float) : Nat :=
  FloatFormat.binary64.magnitudeOf (word x)

/-- The double nearest to a magnitude. -/
def ofMagnitude (negative : Bool) (n : Nat) : Float :=
  ofWord negative (FloatFormat.binary64.wordOf n)

/-- The word of `format` nearest to `x`. -/
def wordIn (format : FloatFormat) (x : Float) : Nat :=
  if x.isNaN then format.quietNaN
  else if x.isInf then format.infinity
  else format.wordOf (magnitude x)

/-- The double a word of `format` stands for. -/
def ofWordIn (format : FloatFormat) (negative : Bool) (w : Nat) : Float :=
  if w < format.infinity then ofMagnitude negative (format.magnitudeOf w)
  else if w = format.infinity then ofWord negative FloatFormat.binary64.infinity
  else ofWord negative FloatFormat.binary64.quietNaN

/-- `x` rounded to `format`, as a double. -/
def roundTo (format : FloatFormat) (x : Float) : Float :=
  ofWordIn format (isNegative x) (wordIn format x)

/-- `x` rounded to single precision. -/
def toSingle (x : Float) : Float :=
  roundTo .binary32 x

/-- `x` rounded to half precision.  The rounding goes through single
precision, so it happens twice. -/
def toHalf (x : Float) : Float :=
  roundTo .binary16 (toSingle x)

end Binary64

/-- The format of a precision. -/
def Precision.format : Precision → FloatFormat
  | .half => .binary16
  | .single => .binary32
  | .double => .binary64

/-- A double rounded to a precision, with a given rounding to half
precision. -/
def Precision.roundBy (half : Float → Float) : Precision → Float → Float
  | .half, x => half x
  | .single, x => Binary64.toSingle x
  | .double, x => x

/-- A double rounded to a precision. -/
def Precision.round (p : Precision) (x : Float) : Float :=
  p.roundBy Binary64.toHalf x

end ArrayFusion
