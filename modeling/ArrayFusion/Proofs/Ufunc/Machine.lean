/-
ArrayFusion/Proofs/Ufunc/Machine.lean

Functions on integers compute what a machine of the dtype's width computes.

Design.  `Exact` says on unbounded integers what a function means for a width.
Evaluation computes in words of sixty-four bits instead and casts the result
once.  Words wrap, but they stay in the class of the exact result modulo the
width (`Exact.signed`, `Exact.unsigned`), and a dtype holds one integer of each
class; so the single cast at the end lands on the element that wrapping at the
narrow width at every step would give (`cast_of_class`).  Shifts and the digits
of two's complement are the cases where the class of the operands alone does
not do: a right shift needs the operand itself, and it never leaves its range.

Main result: the only output of such a function on canonical elements is the
canonical element of the exact result (`onArrays_exact`).
-/
import Mathlib.Algebra.Order.Ring.Int
import ArrayFusion.Proofs.Integer
import ArrayFusion.Proofs.Promotion
import ArrayFusion.Proofs.Ufunc

namespace ArrayFusion

/-! ### Words -/

namespace Word

theorem toInt_absolute (x : Int64) : (absolute x).toInt ≡ |x.toInt| [ZMOD 2 ^ 64] := by
  unfold absolute
  by_cases h : x < 0
  · rw [if_pos h, Int64.toInt_neg, abs_of_neg (Int64.lt_iff_toInt_lt.mp h)]
    exact bmod_word _
  · have hx : 0 ≤ x.toInt := Int.not_lt.mp fun hlt => h (Int64.lt_iff_toInt_lt.mpr hlt)
    rw [if_neg h, abs_of_nonneg hx]

/-- Repeated squaring, with any start.  One round takes the lowest digit of the
exponent, and what is left is the exponent of the square. -/
theorem toNat_powBits (n : Nat) (base acc : UInt64) (exponent : Nat) :
    (powBits n base acc exponent).toNat ≡
      acc.toNat * base.toNat ^ (exponent % 2 ^ n) [MOD 2 ^ 64] := by
  induction n generalizing base acc exponent with
  | zero =>
    rw [pow_zero, Nat.mod_one, pow_zero, mul_one]
    exact Nat.ModEq.refl _
  | succ n ih =>
    have hbase : (base * base).toNat ≡ base.toNat ^ 2 [MOD 2 ^ 64] := by
      rw [UInt64.toNat_mul, sq]
      exact Nat.mod_modEq _ _
    have hacc : (if exponent % 2 = 1 then acc * base else acc).toNat ≡
        acc.toNat * base.toNat ^ (exponent % 2) [MOD 2 ^ 64] := by
      rcases Nat.mod_two_eq_zero_or_one exponent with h | h
      · rw [h, if_neg (by decide), pow_zero, mul_one]
      · rw [h, if_pos rfl, pow_one, UInt64.toNat_mul]
        exact Nat.mod_modEq _ _
    have hdigits : exponent % 2 ^ (n + 1) = exponent % 2 + 2 * (exponent / 2 % 2 ^ n) := by
      rw [pow_succ', Nat.mod_mul]
    rw [hdigits, pow_add, pow_mul, ← mul_assoc]
    exact (ih _ _ _).trans (hacc.mul (hbase.pow _))

theorem toNat_sub (x y : UInt64) : ((x - y).toNat : Int) ≡ x.toNat - y.toNat [ZMOD 2 ^ 64] := by
  calc ((x - y).toNat : Int)
      ≡ (x - y).toInt64.toInt [ZMOD 2 ^ 64] := (ArrayFusion.toInt_toInt64 _).symm
    _ = (x.toInt64.toInt - y.toInt64.toInt).bmod (2 ^ 64) := by
      rw [UInt64.toInt64_sub, Int64.toInt_sub]
    _ ≡ x.toInt64.toInt - y.toInt64.toInt [ZMOD 2 ^ 64] := bmod_word _
    _ ≡ x.toNat - y.toNat [ZMOD 2 ^ 64] :=
      (ArrayFusion.toInt_toInt64 x).sub (ArrayFusion.toInt_toInt64 y)

theorem toNat_neg (x : UInt64) : ((-x).toNat : Int) ≡ -x.toNat [ZMOD 2 ^ 64] := by
  have h := toNat_sub 0 x
  rwa [UInt64.zero_sub, UInt64.toNat_zero, Nat.cast_zero, zero_sub] at h

theorem toNat_power (base exponent : UInt64) :
    (power base exponent).toNat ≡ base.toNat ^ exponent.toNat [MOD 2 ^ 64] := by
  have h := toNat_powBits 64 base 1 exponent.toNat
  rwa [UInt64.toNat_one, one_mul, Nat.mod_eq_of_lt exponent.toNat_lt] at h

/-- A word that is not negative, read without its sign. -/
theorem toNat_toUInt64_of_nonneg {i : Int64} (h : 0 ≤ i.toInt) :
    i.toUInt64.toNat = i.toInt.toNat := by
  have hclass : (i.toUInt64.toNat : Int) ≡ i.toInt [ZMOD 2 ^ 64] := ArrayFusion.toNat_toUInt64 i
  have hlt := i.toUInt64.toNat_lt
  have hlt' := i.toInt_lt
  have heq : (i.toUInt64.toNat : Int) = i.toInt := by
    unfold Int.ModEq at hclass
    omega
  omega

theorem toInt_powerSigned (x y : Int64) :
    (powerSigned x y).toInt ≡ if 0 ≤ y.toInt then x.toInt ^ y.toInt.toNat else 0 [ZMOD 2 ^ 64] := by
  unfold powerSigned
  by_cases h : y < 0
  · have hy : ¬ 0 ≤ y.toInt := Int.not_le.mpr (Int64.lt_iff_toInt_lt.mp h)
    rw [if_pos h, if_neg hy]
    rfl
  · have hy : 0 ≤ y.toInt := Int.not_lt.mp fun hlt => h (Int64.lt_iff_toInt_lt.mpr hlt)
    rw [if_neg h, if_pos hy, ← toNat_toUInt64_of_nonneg hy]
    calc (power x.toUInt64 y.toUInt64).toInt64.toInt
        ≡ (power x.toUInt64 y.toUInt64).toNat [ZMOD 2 ^ 64] := ArrayFusion.toInt_toInt64 _
      _ ≡ (x.toUInt64.toNat : Int) ^ y.toUInt64.toNat [ZMOD 2 ^ 64] := by
        exact_mod_cast (Int.natCast_modEq_iff.mpr (toNat_power x.toUInt64 y.toUInt64))
      _ ≡ x.toInt ^ y.toUInt64.toNat [ZMOD 2 ^ 64] := (ArrayFusion.toNat_toUInt64 x).pow _

/-! ### Shifts -/

/-- The amount that a shift by less than the word moves digits by. -/
theorem toNat_smod {s : Int64} (h : 0 ≤ s.toInt) (hlt : s.toInt < 64) :
    (s.toBitVec.smod 64).toNat = s.toInt.toNat := by
  have hint : (s.toBitVec.smod 64).toInt = s.toInt := by
    rw [BitVec.toInt_smod]
    exact Int.fmod_eq_of_lt h hlt
  have hnat := BitVec.toInt_eq_toNat_bmod (s.toBitVec.smod 64)
  have hbound := (s.toBitVec.smod 64).isLt
  rw [hint] at hnat
  rw [Int.bmod_def] at hnat
  split at hnat <;> omega

theorem toInt_shl {a s : Int64} (h : 0 ≤ s.toInt) (hlt : s.toInt < 64) :
    (a <<< s).toInt ≡ a.toInt * 2 ^ s.toInt.toNat [ZMOD 2 ^ 64] := by
  rw [← Int64.toInt_toBitVec, Int64.toBitVec_shiftLeft, BitVec.shiftLeft_eq', toNat_smod h hlt,
    BitVec.toInt_shiftLeft, Nat.shiftLeft_eq]
  push_cast
  refine (bmod_word _).trans ?_
  exact (ArrayFusion.toNat_toUInt64 a).mul_right _

theorem toInt_shr {a s : Int64} (h : 0 ≤ s.toInt) (hlt : s.toInt < 64) :
    (a >>> s).toInt = a.toInt / 2 ^ s.toInt.toNat := by
  rw [← Int64.toInt_toBitVec, Int64.toBitVec_shiftRight, BitVec.toInt_sshiftRight',
    toNat_smod h hlt, Int.shiftRight_eq_div_pow, Int64.toInt_toBitVec]
  push_cast
  rfl

/-- The amounts that a shift in a width does not take as too large. -/
theorem shift_iff (w : Width) (s : Int64) :
    (0 ≤ s ∧ s < Int64.ofNat w.bits) ↔ 0 ≤ s.toInt ∧ s.toInt < w.bits := by
  have hbits : (Int64.ofNat w.bits).toInt = w.bits := by cases w <;> rfl
  rw [Int64.le_iff_toInt_le, Int64.lt_iff_toInt_lt, hbits]
  rfl

theorem shift_unsigned_iff (w : Width) (s : UInt64) :
    s < UInt64.ofNat w.bits ↔ 0 ≤ (s.toNat : Int) ∧ (s.toNat : Int) < w.bits := by
  have hbits : (UInt64.ofNat w.bits).toNat = w.bits := by cases w <;> rfl
  rw [UInt64.lt_iff_toNat_lt, hbits]
  omega

theorem toInt_shiftLeft (w : Width) (a s : Int64) :
    (shiftLeft w.bits a s).toInt ≡
      if 0 ≤ s.toInt ∧ s.toInt < w.bits then a.toInt * 2 ^ s.toInt.toNat else 0 [ZMOD 2 ^ 64] := by
  by_cases h : 0 ≤ s.toInt ∧ s.toInt < w.bits
  · have hlt : s.toInt < 64 := lt_of_lt_of_le h.2 (by exact_mod_cast w.bits_le)
    rw [shiftLeft, if_pos ((shift_iff w s).mpr h), if_pos h]
    exact toInt_shl h.1 hlt
  · rw [shiftLeft, if_neg fun hs => h ((shift_iff w s).mp hs), if_neg h]
    rfl

/-- A right shift divides and rounds down, and nothing wraps. -/
theorem toInt_shiftRight (w : Width) (a s : Int64) :
    (shiftRight w.bits a s).toInt =
      if 0 ≤ s.toInt ∧ s.toInt < w.bits then a.toInt / 2 ^ s.toInt.toNat
      else if a.toInt < 0 then -1 else 0 := by
  by_cases h : 0 ≤ s.toInt ∧ s.toInt < w.bits
  · have hlt : s.toInt < 64 := lt_of_lt_of_le h.2 (by exact_mod_cast w.bits_le)
    rw [shiftRight, if_pos ((shift_iff w s).mpr h), if_pos h, toInt_shr h.1 hlt]
  · rw [shiftRight, if_neg fun hs => h ((shift_iff w s).mp hs), if_neg h]
    by_cases ha : a < 0
    · rw [if_pos ha, if_pos (show a.toInt < 0 from Int64.lt_iff_toInt_lt.mp ha)]
      rfl
    · rw [if_neg ha, if_neg fun hlt : a.toInt < 0 => ha (Int64.lt_iff_toInt_lt.mpr hlt)]
      rfl

theorem toNat_shiftLeftUnsigned (w : Width) (a s : UInt64) :
    ((shiftLeftUnsigned w.bits a s).toNat : Int) ≡
      if 0 ≤ (s.toNat : Int) ∧ (s.toNat : Int) < w.bits then (a.toNat : Int) * 2 ^ (s.toNat : Int).toNat
      else 0 [ZMOD 2 ^ 64] := by
  by_cases h : 0 ≤ (s.toNat : Int) ∧ (s.toNat : Int) < w.bits
  · have hlt : s.toNat < 64 := lt_of_lt_of_le (by exact_mod_cast h.2) w.bits_le
    rw [shiftLeftUnsigned, if_pos ((shift_unsigned_iff w s).mpr h), if_pos h,
      UInt64.toNat_shiftLeft, Nat.mod_eq_of_lt hlt, Nat.shiftLeft_eq, Int.toNat_natCast]
    push_cast
    exact Int.mod_modEq _ _
  · rw [shiftLeftUnsigned, if_neg fun hs => h ((shift_unsigned_iff w s).mp hs), if_neg h]
    rfl

theorem toNat_shiftRightUnsigned (w : Width) (a s : UInt64) :
    ((shiftRightUnsigned w.bits a s).toNat : Int) =
      if 0 ≤ (s.toNat : Int) ∧ (s.toNat : Int) < w.bits then (a.toNat : Int) / 2 ^ (s.toNat : Int).toNat
      else if (a.toNat : Int) < 0 then -1 else 0 := by
  by_cases h : 0 ≤ (s.toNat : Int) ∧ (s.toNat : Int) < w.bits
  · have hlt : s.toNat < 64 := lt_of_lt_of_le (by exact_mod_cast h.2) w.bits_le
    rw [shiftRightUnsigned, if_pos ((shift_unsigned_iff w s).mpr h), if_pos h,
      UInt64.toNat_shiftRight, Nat.mod_eq_of_lt hlt, Nat.shiftRight_eq_div_pow, Int.toNat_natCast]
    push_cast
    rfl
  · have ha : ¬ (a.toNat : Int) < 0 := by omega
    rw [shiftRightUnsigned, if_neg fun hs => h ((shift_unsigned_iff w s).mp hs), if_neg h, if_neg ha]
    rfl

/-! ### Digits -/

/-- A number in the class of a pattern has the pattern as its lowest digits. -/
theorem modEq_toNat_iff {k : Nat} {n : Int} {v : BitVec k} :
    n ≡ v.toNat [ZMOD 2 ^ k] ↔ BitVec.ofInt k n = v := by
  have hcast : ((BitVec.ofInt k n).toNat : Int) = n % 2 ^ k := by
    have hpos : ((2 ^ k : Nat) : Int) ≠ 0 := Int.natCast_ne_zero.mpr (Nat.two_pow_pos k).ne'
    rw [BitVec.toNat_ofInt, Int.toNat_of_nonneg (Int.emod_nonneg _ hpos)]
    push_cast
    rfl
  constructor
  · intro h
    apply BitVec.eq_of_toNat_eq
    have hv : (v.toNat : Int) % 2 ^ k = v.toNat :=
      Int.emod_eq_of_lt (Int.natCast_nonneg _) (by exact_mod_cast v.isLt)
    have hn : n % 2 ^ k = v.toNat % 2 ^ k := h
    exact_mod_cast hcast.trans (hn.trans hv)
  · rintro rfl
    rw [hcast]
    exact (Int.mod_modEq n _).symm

/-- The lowest digits of a signed word. -/
theorem ofInt_toInt {k : Nat} (hk : k ≤ 64) (i : Int64) :
    BitVec.ofInt k i.toInt = i.toBitVec.setWidth k := by
  rw [← modEq_toNat_iff, BitVec.toNat_setWidth]
  push_cast
  have hword : i.toInt ≡ i.toBitVec.toNat [ZMOD 2 ^ 64] := (ArrayFusion.toNat_toUInt64 i).symm
  exact (hword.of_dvd (pow_dvd_pow 2 hk)).trans (Int.mod_modEq _ _).symm

/-- The lowest digits of an unsigned word. -/
theorem ofInt_toNat (k : Nat) (u : UInt64) :
    BitVec.ofInt k u.toNat = u.toBitVec.setWidth k := by
  rw [BitVec.ofInt_natCast, ← UInt64.toNat_toBitVec, BitVec.ofNat_toNat]

end Word

/-! ### Loops for arrays of one dtype -/

namespace Ufunc

/-- The outputs of a function on one element of each operand, with the loop
that is resolved for arrays of one dtype. -/
def onArrays (f : Ufunc) (d : DType) (args : List Elem) : Except Error (List Elem) := do
  let loop ← f.resolve (List.replicate args.length ⟨d, false⟩)
  let out := f.apply loop args
  return [out.1, out.2].take loop.outputs.length

theorem nin_pos (f : Ufunc) : 0 < f.nin := by
  cases f <;> decide

/-- The rules under which integers of one dtype stay in it. -/
def KeepsIntegers (f : Ufunc) : Prop :=
  f.loopRule = .arith ∨ f.loopRule = .arithNoBool ∨ f.loopRule = .rejectBool ∨
    f.loopRule = .bitwise ∨ f.loopRule = .shift

instance (f : Ufunc) : Decidable f.KeepsIntegers := by
  unfold KeepsIntegers
  infer_instance

theorem withoutBool_of_width {d : DType} {w : Width} (hd : d.width? = some w) :
    withoutBool d = d := by
  cases d with
  | int | uint => rfl
  | bool | float => cases hd

theorem common_replicate (d : DType) {n : Nat} (hn : 0 < n) :
    common (List.replicate n ⟨d, false⟩) = d := by
  rw [common, DType.resultType_replicate d hn, Option.getD_some]

theorem resolve_integers {f : Ufunc} (hf : f.KeepsIntegers) {d : DType} {w : Width}
    (hd : d.width? = some w) : f.resolve (List.replicate f.nin ⟨d, false⟩) = .ok (f.sameLoop d) := by
  have hkeep : d ≠ .bool ∧ d.isFloat = false := by
    cases d with
    | int | uint => exact ⟨nofun, rfl⟩
    | bool | float => cases hd
  obtain ⟨hbool, hfloat⟩ := hkeep
  rw [resolve, if_neg (not_not.mpr List.length_replicate), common_replicate d f.nin_pos]
  rcases hf with h | h | h | h | h <;> simp [h, withoutBool_of_width hd, hbool, hfloat]

/-- One output, cast to the dtype of the arrays. -/
theorem onArrays_eq {f : Ufunc} (hf : f.KeepsIntegers) (hout : f.nout = 1) {d : DType} {w : Width}
    (hd : d.width? = some w) {args : List Elem} (hargs : args.length = f.nin) :
    f.onArrays d args = .ok [(f.eval d args).1.cast d] := by
  have hcompute : (f.sameLoop d).compute = d := by
    obtain ⟨n, hn⟩ := Nat.exists_eq_succ_of_ne_zero (Nat.ne_of_gt f.nin_pos)
    rw [Loop.compute, sameLoop, hn]
    rfl
  have houts : (f.sameLoop d).outputs = [d] := by
    rw [sameLoop, hout]
    rfl
  rw [onArrays, hargs, resolve_integers hf hd, except_bind_ok, apply, hcompute, houts]
  rfl

/-- A word cast to a dtype is the element in its class. -/
theorem cast_of_class {d : DType} {w : Width} (hd : d.width? = some w) {e : Elem}
    (he : ∀ x, e ≠ .float x) {n : Int} (hclass : e.integer ≡ n [ZMOD 2 ^ w.bits]) :
    (e.cast d).Canonical d ∧ (e.cast d).integer ≡ n [ZMOD 2 ^ w.bits] ∧
      (d.Holds n → (e.cast d).integer = n) := by
  have hcan := Elem.canonical_cast e d
  have hcast := (Elem.integer_cast hd he).trans hclass
  exact ⟨hcan, hcast, fun hn => DType.holds_unique hd (hcan.holds hd) hn hcast⟩

/-! ### Exact results -/

/-- What functions mean on integers, for a width of so many bits; the result is
to be taken modulo the width.  Functions on digits look at as many of them in
two's complement.  A shift by a negative amount or by all digits leaves nothing
but the sign. -/
inductive Exact (bits : Nat) : Ufunc → (Int → Int → Int) → Prop
  | add : Exact bits .add fun x y => x + y
  | subtract : Exact bits .subtract fun x y => x - y
  | multiply : Exact bits .multiply fun x y => x * y
  | negative : Exact bits .negative fun x _ => -x
  | absolute : Exact bits .absolute fun x _ => |x|
  | square : Exact bits .square fun x _ => x ^ 2
  | power : Exact bits .power fun x y => if 0 ≤ y then x ^ y.toNat else 0
  | bitwiseAnd : Exact bits .bitwiseAnd fun x y =>
      (BitVec.ofInt bits x &&& BitVec.ofInt bits y).toNat
  | bitwiseOr : Exact bits .bitwiseOr fun x y =>
      (BitVec.ofInt bits x ||| BitVec.ofInt bits y).toNat
  | bitwiseXor : Exact bits .bitwiseXor fun x y =>
      (BitVec.ofInt bits x ^^^ BitVec.ofInt bits y).toNat
  | invert : Exact bits .invert fun x _ => (~~~BitVec.ofInt bits x).toNat
  | leftShift : Exact bits .leftShift fun x y =>
      if 0 ≤ y ∧ y < bits then x * 2 ^ y.toNat else 0
  | rightShift : Exact bits .rightShift fun x y =>
      if 0 ≤ y ∧ y < bits then x / 2 ^ y.toNat else if x < 0 then -1 else 0

variable {f : Ufunc} {g : Int → Int → Int} {w : Width}

/-- Functions with an exact meaning keep integers, have one output, and take
two operands or do not look at the second. -/
theorem Exact.keeps {bits : Nat} (hg : Exact bits f g) :
    f.KeepsIntegers ∧ f.nout = 1 ∧ (f.nin = 2 ∨ f.nin = 1 ∧ ∀ x y z, g x y = g x z) := by
  cases hg with
  | negative | absolute | square | invert =>
    exact ⟨by decide, rfl, .inr ⟨rfl, fun _ _ _ => rfl⟩⟩
  | _ => exact ⟨by decide, rfl, .inl rfl⟩

/-- Signed words stay in the class of the exact result. -/
theorem Exact.signed (hg : Exact w.bits f g) (x y : Int64) (c : Elem) :
    ∃ i, f.first (.int w) (.int x) (.int y) c = .int i ∧
      i.toInt ≡ g x.toInt y.toInt [ZMOD 2 ^ w.bits] := by
  have hbmod := fun n => w.modEq_of_word (bmod_word n)
  have hdigits := Word.ofInt_toInt w.bits_le
  cases hg with
  | add => exact ⟨x + y, rfl, Int64.toInt_add x y ▸ hbmod _⟩
  | subtract => exact ⟨x - y, rfl, Int64.toInt_sub x y ▸ hbmod _⟩
  | multiply => exact ⟨x * y, rfl, Int64.toInt_mul x y ▸ hbmod _⟩
  | negative => exact ⟨-x, rfl, Int64.toInt_neg x ▸ hbmod _⟩
  | absolute => exact ⟨Word.absolute x, rfl, w.modEq_of_word (Word.toInt_absolute x)⟩
  | square =>
    refine ⟨x * x, rfl, ?_⟩
    show (x * x).toInt ≡ x.toInt ^ 2 [ZMOD _]
    rw [Int64.toInt_mul, sq]
    exact hbmod _
  | power => exact ⟨Word.powerSigned x y, rfl, w.modEq_of_word (Word.toInt_powerSigned x y)⟩
  | bitwiseAnd =>
    refine ⟨x &&& y, rfl, Word.modEq_toNat_iff.mpr ?_⟩
    rw [hdigits, hdigits, hdigits, Int64.toBitVec_and, BitVec.setWidth_and]
  | bitwiseOr =>
    refine ⟨x ||| y, rfl, Word.modEq_toNat_iff.mpr ?_⟩
    rw [hdigits, hdigits, hdigits, Int64.toBitVec_or, BitVec.setWidth_or]
  | bitwiseXor =>
    refine ⟨x ^^^ y, rfl, Word.modEq_toNat_iff.mpr ?_⟩
    rw [hdigits, hdigits, hdigits, Int64.toBitVec_xor, BitVec.setWidth_xor]
  | invert =>
    refine ⟨~~~x, rfl, Word.modEq_toNat_iff.mpr ?_⟩
    rw [hdigits, hdigits, Int64.toBitVec_not, BitVec.setWidth_not w.bits_le]
  | leftShift => exact ⟨Word.shiftLeft w.bits x y, rfl, w.modEq_of_word (Word.toInt_shiftLeft w x y)⟩
  | rightShift =>
    exact ⟨Word.shiftRight w.bits x y, rfl, congrArg (· % _) (Word.toInt_shiftRight w x y)⟩

/-- Unsigned words stay in the class of the exact result. -/
theorem Exact.unsigned (hg : Exact w.bits f g) (x y : UInt64) (c : Elem) :
    ∃ u, f.first (.uint w) (.uint x) (.uint y) c = .uint u ∧
      u.toNat ≡ g x.toNat y.toNat [ZMOD 2 ^ w.bits] := by
  have hmod : ∀ m : Nat, ((m % 2 ^ 64 : Nat) : Int) ≡ m [ZMOD 2 ^ w.bits] := by
    intro m
    push_cast
    exact w.modEq_of_word (Int.mod_modEq _ _)
  have hdigits := Word.ofInt_toNat w.bits
  cases hg with
  | add => exact ⟨x + y, rfl, by simpa [UInt64.toNat_add] using hmod (x.toNat + y.toNat)⟩
  | subtract => exact ⟨x - y, rfl, w.modEq_of_word (Word.toNat_sub x y)⟩
  | multiply => exact ⟨x * y, rfl, by simpa [UInt64.toNat_mul] using hmod (x.toNat * y.toNat)⟩
  | negative => exact ⟨-x, rfl, w.modEq_of_word (Word.toNat_neg x)⟩
  | absolute => exact ⟨x, rfl, congrArg (· % _) (abs_of_nonneg (Int.natCast_nonneg _)).symm⟩
  | square => exact ⟨x * x, rfl, by simpa [UInt64.toNat_mul, sq] using hmod (x.toNat * x.toNat)⟩
  | power =>
    refine ⟨Word.power x y, rfl, ?_⟩
    have hpow : ((Word.power x y).toNat : Int) ≡ (x.toNat : Int) ^ y.toNat [ZMOD 2 ^ 64] := by
      exact_mod_cast Int.natCast_modEq_iff.mpr (Word.toNat_power x y)
    simpa using w.modEq_of_word hpow
  | bitwiseAnd =>
    refine ⟨x &&& y, rfl, Word.modEq_toNat_iff.mpr ?_⟩
    rw [hdigits, hdigits, hdigits, UInt64.toBitVec_and, BitVec.setWidth_and]
  | bitwiseOr =>
    refine ⟨x ||| y, rfl, Word.modEq_toNat_iff.mpr ?_⟩
    rw [hdigits, hdigits, hdigits, UInt64.toBitVec_or, BitVec.setWidth_or]
  | bitwiseXor =>
    refine ⟨x ^^^ y, rfl, Word.modEq_toNat_iff.mpr ?_⟩
    rw [hdigits, hdigits, hdigits, UInt64.toBitVec_xor, BitVec.setWidth_xor]
  | invert =>
    refine ⟨~~~x, rfl, Word.modEq_toNat_iff.mpr ?_⟩
    rw [hdigits, hdigits, UInt64.toBitVec_not, BitVec.setWidth_not w.bits_le]
  | leftShift =>
    exact ⟨Word.shiftLeftUnsigned w.bits x y, rfl,
      w.modEq_of_word (Word.toNat_shiftLeftUnsigned w x y)⟩
  | rightShift =>
    exact ⟨Word.shiftRightUnsigned w.bits x y, rfl,
      congrArg (· % _) (Word.toNat_shiftRightUnsigned w x y)⟩

/-- A right shift moves a number towards zero, or to minus one. -/
theorem holds_shiftRight {d : DType} (hd : d.width? = some w) {x : Int} (hx : d.Holds x) (y : Int) :
    d.Holds (if 0 ≤ y ∧ y < w.bits then x / 2 ^ y.toNat else if x < 0 then -1 else 0) := by
  split_ifs with hshift hneg
  · have hpow : (0 : Int) < 2 ^ y.toNat := Int.pow_pos (by decide)
    rcases lt_or_ge x 0 with hlt | hge
    · refine hx.towards_zero (.inr ⟨?_, Int.le_of_lt (Int.ediv_neg_of_neg_of_pos hlt hpow)⟩)
      rw [Int.le_ediv_iff_mul_le hpow]
      calc x * 2 ^ y.toNat ≤ x * 1 := Int.mul_le_mul_of_nonpos_left (Int.le_of_lt hlt) hpow
        _ = x := Int.mul_one x
    · exact hx.towards_zero (.inl ⟨Int.ediv_nonneg hge (Int.le_of_lt hpow), Int.ediv_le_self _ hge⟩)
  · exact hx.towards_zero (.inr (by omega))
  · exact DType.holds_zero hd

/-- The word that a function computes is in the class of the exact result. -/
theorem Exact.first {d : DType} (hd : d.width? = some w) (hg : Exact w.bits f g) {a b : Elem}
    (ha : a.Canonical d) (hb : b.Canonical d) (c : Elem) :
    (f.first d a b c).integer ≡ g a.integer b.integer [ZMOD 2 ^ w.bits] ∧
      ∀ x, f.first d a b c ≠ .float x := by
  cases d with
  | int w' =>
    cases hd
    obtain ⟨x, rfl⟩ := ha.exists_int
    obtain ⟨y, rfl⟩ := hb.exists_int
    obtain ⟨i, hi, hclass⟩ := hg.signed x y c
    rw [hi]
    exact ⟨hclass, nofun⟩
  | uint w' =>
    cases hd
    obtain ⟨x, rfl⟩ := ha.exists_uint
    obtain ⟨y, rfl⟩ := hb.exists_uint
    obtain ⟨u, hu, hclass⟩ := hg.unsigned x y c
    rw [hu]
    exact ⟨hclass, nofun⟩
  | bool | float => cases hd

/-- **Integer functions computed in sixty-four bits are those of the width.**
Take an integer dtype, canonical elements of it, and a function with an exact
meaning on integers.  With the loop resolved for arrays of the dtype, the
function has one output, and this is the one canonical element in the class of
the exact result modulo the width.  It is the exact result itself if the dtype
holds that, as it always does for a right shift. -/
theorem onArrays_exact {f : Ufunc} {d : DType} {w : Width} (hd : d.width? = some w)
    {g : Int → Int → Int} (hg : Exact w.bits f g) {a b : Elem} (ha : a.Canonical d)
    (hb : b.Canonical d) :
    ∃ e, f.onArrays d ([a, b].take f.nin) = .ok [e] ∧ e.Canonical d ∧
      e.integer ≡ g a.integer b.integer [ZMOD 2 ^ w.bits] ∧
      (∀ e', e'.Canonical d → e'.integer ≡ g a.integer b.integer [ZMOD 2 ^ w.bits] → e' = e) ∧
      (d.Holds (g a.integer b.integer) → e.integer = g a.integer b.integer) ∧
      (f = .rightShift → d.Holds (g a.integer b.integer)) := by
  obtain ⟨hkeeps, hout, hin⟩ := hg.keeps
  -- a function of one operand does not look at the second
  obtain ⟨second, c, hsecond, heval, hsame⟩ : ∃ second c, Elem.Canonical second d ∧
      (f.eval d ([a, b].take f.nin)).1 = f.first d a second c ∧
      g a.integer second.integer = g a.integer b.integer := by
    rcases hin with h | ⟨h, hg⟩
    · exact ⟨b, a, hb, by rw [h]; rfl, rfl⟩
    · exact ⟨a, a, ha, by rw [h]; rfl, hg _ _ _⟩
  have hlen : ([a, b].take f.nin).length = f.nin := by
    rcases hin with h | ⟨h, -⟩ <;> rw [h] <;> rfl
  obtain ⟨hclass, hword⟩ := hg.first hd ha hsecond c
  rw [hsame] at hclass
  obtain ⟨hcan, hcast, hexact⟩ := cast_of_class hd hword hclass
  refine ⟨_, (onArrays_eq hkeeps hout hd hlen).trans (by rw [heval]), hcan, hcast, ?_, hexact, ?_⟩
  · intro e' he' hclass'
    exact he'.ext hd hcan (DType.holds_unique hd (he'.holds hd) (hcan.holds hd)
      (hclass'.trans hcast.symm))
  · rintro rfl
    cases hg
    exact holds_shiftRight hd (ha.holds hd) b.integer

/-- A negative base in eight bits: minus three to the fifth is minus 243, and
thirteen modulo 256. -/
theorem onArrays_exact_power :
    (Elem.int (-3)).Canonical (.int .w8) ∧ (Elem.int 5).Canonical (.int .w8) ∧
      ∃ e, power.onArrays (.int .w8) [.int (-3), .int 5] = .ok [e] ∧ e.Canonical (.int .w8) ∧
        e.integer ≡ 13 [ZMOD 2 ^ 8] := by
  have hbase : (Elem.int (-3)).Canonical (.int .w8) := rfl
  have hexponent : (Elem.int 5).Canonical (.int .w8) := rfl
  obtain ⟨e, he, hcan, hclass, -⟩ := onArrays_exact rfl .power hbase hexponent
  exact ⟨hbase, hexponent, e, he, hcan, hclass⟩

end Ufunc

end ArrayFusion
