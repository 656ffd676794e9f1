/-
ArrayFusion/Proofs/Casting.lean

Casting to a dtype twice is casting once, so what a cast yields is canonical
for its dtype.  Integers need that a narrow modulus divides the one of
sixty-four bits, floats that rounding is idempotent.  Of the rounding to half
precision nothing else is used, here or in what follows.
-/
import ArrayFusion.Elem
import ArrayFusion.Proofs.Binary64.Rounding

namespace ArrayFusion

theorem Width.modulus_dvd (w : Width) : w.modulus ∣ 18446744073709551616 := by
  cases w <;> decide

theorem Width.wrapInt_wrapInt (w : Width) (i : Int64) : w.wrapInt (w.wrapInt i) = w.wrapInt i := by
  unfold Width.wrapInt
  rw [Int64.toInt_ofInt]
  have hdvd : w.modulus ∣ Int64.size := w.modulus_dvd
  rw [Int.bmod_bmod_of_dvd hdvd, Int.bmod_bmod]

theorem Width.wrapUInt_wrapUInt (w : Width) (u : UInt64) :
    w.wrapUInt (w.wrapUInt u) = w.wrapUInt u := by
  unfold Width.wrapUInt
  rw [UInt64.toNat_ofNat']
  have hdvd : w.modulus ∣ UInt64.size := w.modulus_dvd
  rw [show (2 : Nat) ^ 64 = UInt64.size from rfl, Nat.mod_mod_of_dvd _ hdvd, Nat.mod_mod]

namespace Elem

/-- Casting to the same dtype again changes nothing, if rounding again does
not. -/
theorem castBy_castBy {half : Float → Float} (hhalf : Binary64.Idempotent half) (e : Elem)
    (d : DType) : (e.castBy half d).castBy half d = e.castBy half d := by
  cases d with
  | bool => rfl
  | int w =>
    show Elem.int (w.wrapInt (w.wrapInt e.toInt64)) = Elem.int (w.wrapInt e.toInt64)
    rw [w.wrapInt_wrapInt]
  | uint w =>
    show Elem.uint (w.wrapUInt (w.wrapUInt e.toUInt64)) = Elem.uint (w.wrapUInt e.toUInt64)
    rw [w.wrapUInt_wrapUInt]
  | float p =>
    show Elem.float (p.roundBy half (p.roundBy half e.toFloat)) =
      Elem.float (p.roundBy half e.toFloat)
    rw [p.idempotent_roundBy hhalf]

@[simp] theorem cast_cast (e : Elem) (d : DType) : (e.cast d).cast d = e.cast d :=
  e.castBy_castBy Binary64.idempotent_toHalf d

theorem canonical_cast (e : Elem) (d : DType) : (e.cast d).Canonical d :=
  e.cast_cast d

theorem canonical_zero (d : DType) : (zero d).Canonical d :=
  canonical_cast _ d

/-- The number that an element stands for; a double loses its fraction. -/
def integer : Elem → Int
  | .bool b => if b then 1 else 0
  | .int i => i.toInt
  | .uint u => u.toNat
  | .float x => (Binary64.toInt64 x).toInt

end Elem

end ArrayFusion
