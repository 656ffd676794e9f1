/-
ArrayFusion/Ufunc/Word.lean

Arithmetic on words of sixty-four bits.  All operations wrap.  Division and
remainder by zero give zero, as does a negative power.

Floor division is truncating division moved down by one where the signs
differ and the division leaves a rest; its remainder is moved by the
divisor accordingly.
-/
namespace ArrayFusion.Word

/-! ### Division -/

/-- Signed division rounded down. -/
def floorDiv (a b : Int64) : Int64 :=
  if b = 0 then 0
  else if a % b ≠ 0 ∧ decide (a < 0) ≠ decide (b < 0) then a / b - 1
  else a / b

/-- Remainder of signed division rounded down; it has the sign of the
divisor. -/
def floorMod (a b : Int64) : Int64 :=
  if b = 0 then 0
  else if a % b ≠ 0 ∧ decide (a % b < 0) ≠ decide (b < 0) then a % b + b
  else a % b

/-- Remainder of signed division rounded towards zero; it has the sign of
the dividend. -/
def truncMod (a b : Int64) : Int64 :=
  if b = 0 then 0 else a % b

/-- Unsigned division. -/
def divide (a b : UInt64) : UInt64 :=
  if b = 0 then 0 else a / b

/-- Unsigned remainder. -/
def modulo (a b : UInt64) : UInt64 :=
  if b = 0 then 0 else a % b

/-- Reciprocal of a signed word, rounded towards zero. -/
def reciprocal (a : Int64) : Int64 :=
  if a = 0 then 0 else 1 / a

/-! ### Powers -/

/-- Multiplies `acc` by the power of `base` whose exponent is the number
formed by the lowest `bits` binary digits of `exponent`. -/
def powBits : (bits : Nat) → (base acc : UInt64) → (exponent : Nat) → UInt64
  | 0, _, acc, _ => acc
  | n + 1, base, acc, exponent =>
    powBits n (base * base) (if exponent % 2 = 1 then acc * base else acc) (exponent / 2)

/-- Power of an unsigned word, by repeated squaring. -/
def power (base exponent : UInt64) : UInt64 :=
  powBits 64 base 1 exponent.toNat

/-- Power of a signed word; a negative exponent gives zero. -/
def powerSigned (base exponent : Int64) : Int64 :=
  if exponent < 0 then 0 else (power base.toUInt64 exponent.toUInt64).toInt64

/-! ### Signs -/

/-- Absolute value; the least word is its own. -/
def absolute (a : Int64) : Int64 :=
  if a < 0 then -a else a

/-- One, zero or minus one. -/
def sign (a : Int64) : Int64 :=
  if a < 0 then -1 else if a = 0 then 0 else 1

/-- One or zero. -/
def signUnsigned (a : UInt64) : UInt64 :=
  if a = 0 then 0 else 1

/-! ### Shifts

A shift by the width or more, or by a negative amount, moves every digit
out. -/

/-- Left shift of a signed word. -/
def shiftLeft (bits : Nat) (a s : Int64) : Int64 :=
  if 0 ≤ s ∧ s < Int64.ofNat bits then a <<< s else 0

/-- Left shift of an unsigned word. -/
def shiftLeftUnsigned (bits : Nat) (a s : UInt64) : UInt64 :=
  if s < UInt64.ofNat bits then a <<< s else 0

/-- Right shift of a signed word, which keeps the sign. -/
def shiftRight (bits : Nat) (a s : Int64) : Int64 :=
  if 0 ≤ s ∧ s < Int64.ofNat bits then a >>> s else if a < 0 then -1 else 0

/-- Right shift of an unsigned word. -/
def shiftRightUnsigned (bits : Nat) (a s : UInt64) : UInt64 :=
  if s < UInt64.ofNat bits then a >>> s else 0

end ArrayFusion.Word
