/-
ArrayFusion/Proofs/Integer.lean

Elements of integer dtypes as integers.

Design.  An integer dtype holds one integer of each class modulo its width
(`holds_unique`), and its canonical elements are those integers
(`Canonical.holds`, `Canonical.ext`).  A cast stays in the class
(`integer_cast`).  So whatever computes a word in the right class modulo
sixty-four bits has computed the right element of every narrower dtype, once
it is cast.

Main results: a cast gives the one element of the dtype in the class
(`eq_cast_iff`), so it keeps the integers that the dtype holds
(`integer_cast_eq_iff`), and a cast to a dtype at least as wide may be left out
before another (`cast_cast_of_le`).
-/
import Mathlib.Data.Int.ModEq
import ArrayFusion.Proofs.Casting

namespace ArrayFusion

/-! ### Widths -/

namespace Width

theorem modulus_eq (w : Width) : w.modulus = 2 ^ w.bits := by
  cases w <;> rfl

theorem modulus_pos (w : Width) : 0 < w.modulus := by
  cases w <;> decide

theorem bits_le (w : Width) : w.bits ≤ 64 := by
  cases w <;> decide

/-- The range of signed integers is half as wide as that of unsigned ones. -/
theorem two_pow_bits (w : Width) : (2 : Int) ^ w.bits = 2 * 2 ^ (w.bits - 1) := by
  cases w <;> rfl

/-- Classes of words are finer than those of narrower integers. -/
theorem modEq_of_word (w : Width) {m n : Int} (h : m ≡ n [ZMOD 2 ^ 64]) :
    m ≡ n [ZMOD 2 ^ w.bits] :=
  h.of_dvd (pow_dvd_pow 2 w.bits_le)

theorem toInt_wrapInt (w : Width) (i : Int64) :
    (w.wrapInt i).toInt = i.toInt.bmod (2 ^ w.bits) := by
  -- the representative lies well within the range of words
  have hlow := Int.le_bmod (x := i.toInt) (m := w.modulus) w.modulus_pos
  have hhigh := Int.bmod_lt (x := i.toInt) (m := w.modulus) w.modulus_pos
  rw [wrapInt, Int64.toInt_ofInt_of_le, w.modulus_eq]
  all_goals
    cases w <;> simp only [modulus] at hlow hhigh ⊢ <;> omega

theorem toNat_wrapUInt (w : Width) (u : UInt64) :
    (w.wrapUInt u).toNat = u.toNat % 2 ^ w.bits := by
  have hle : u.toNat % w.modulus ≤ u.toNat := Nat.mod_le _ _
  rw [wrapUInt, UInt64.toNat_ofNat_of_lt' (Nat.lt_of_le_of_lt hle u.toNat_lt_size), w.modulus_eq]

end Width

/-! ### Words -/

/-- What signed words do with a number stays in its class. -/
theorem bmod_word (n : Int) : n.bmod (2 ^ 64) ≡ n [ZMOD 2 ^ 64] :=
  Int.bmod_emod

theorem toInt_toInt64 (u : UInt64) : u.toInt64.toInt ≡ u.toNat [ZMOD 2 ^ 64] := by
  rw [← Int64.toInt_toBitVec, UInt64.toBitVec_toInt64, BitVec.toInt_eq_toNat_bmod]
  exact bmod_word _

theorem toNat_toUInt64 (i : Int64) : (i.toUInt64.toNat : Int) ≡ i.toInt [ZMOD 2 ^ 64] := by
  have h := toInt_toInt64 i.toUInt64
  rw [Int64.toInt64_toUInt64] at h
  exact h.symm

/-! ### Integers of a dtype -/

namespace DType

/-- The width of an integer dtype. -/
def width? : DType → Option Width
  | .int w => some w
  | .uint w => some w
  | _ => none

/-- The integers that an integer dtype has elements for. -/
def Holds : DType → Int → Prop
  | .int w, n => -2 ^ (w.bits - 1) ≤ n ∧ n < 2 ^ (w.bits - 1)
  | .uint w, n => 0 ≤ n ∧ n < 2 ^ w.bits
  | _, _ => False

instance : (d : DType) → (n : Int) → Decidable (d.Holds n)
  | .int _, _ => inferInstanceAs (Decidable (_ ∧ _))
  | .uint _, _ => inferInstanceAs (Decidable (_ ∧ _))
  | .bool, _ => inferInstanceAs (Decidable False)
  | .float _, _ => inferInstanceAs (Decidable False)

theorem holds_zero {d : DType} {w : Width} (hd : d.width? = some w) : d.Holds 0 := by
  cases d with
  | int w | uint w => cases w <;> decide
  | bool | float => cases hd

/-- A dtype holds what lies between one of its integers and zero. -/
theorem Holds.towards_zero {d : DType} {n k : Int} (hn : d.Holds n)
    (h : 0 ≤ k ∧ k ≤ n ∨ n ≤ k ∧ k ≤ 0) : d.Holds k := by
  cases d with
  | int w =>
    have hzero := holds_zero (d := .int w) rfl
    simp only [Holds] at hn hzero ⊢
    omega
  | uint w =>
    have hzero := holds_zero (d := .uint w) rfl
    simp only [Holds] at hn hzero ⊢
    omega
  | bool | float => exact hn.elim

/-- Of every class modulo its width, a dtype holds one integer only. -/
theorem holds_unique {d : DType} {w : Width} (hd : d.width? = some w) {m n : Int} (hm : d.Holds m)
    (hn : d.Holds n) (h : m ≡ n [ZMOD 2 ^ w.bits]) : m = n := by
  have hnear : |n - m| < 2 ^ w.bits := by
    rw [abs_lt]
    cases d with
    | int w =>
      cases hd
      obtain ⟨hm₁, hm₂⟩ := hm
      obtain ⟨hn₁, hn₂⟩ := hn
      rw [w.two_pow_bits]
      constructor <;> omega
    | uint w =>
      cases hd
      obtain ⟨hm₁, hm₂⟩ := hm
      obtain ⟨hn₁, hn₂⟩ := hn
      constructor <;> omega
    | bool | float => cases hd
  have hzero := Int.eq_zero_of_abs_lt_dvd h.dvd hnear
  omega

end DType

namespace Elem

theorem Canonical.exists_int {w : Width} {e : Elem} (he : e.Canonical (.int w)) :
    ∃ x, e = .int x :=
  ⟨_, he.symm⟩

theorem Canonical.exists_uint {w : Width} {e : Elem} (he : e.Canonical (.uint w)) :
    ∃ x, e = .uint x :=
  ⟨_, he.symm⟩

/-- A canonical element of an integer dtype is one of its integers. -/
theorem Canonical.holds {d : DType} {w : Width} (hd : d.width? = some w) {e : Elem}
    (he : e.Canonical d) : d.Holds e.integer := by
  cases d with
  | int w =>
    rw [← he]
    show -2 ^ (w.bits - 1) ≤ (w.wrapInt e.toInt64).toInt ∧
      (w.wrapInt e.toInt64).toInt < 2 ^ (w.bits - 1)
    rw [w.toInt_wrapInt]
    have hlow := Int.le_bmod (x := e.toInt64.toInt) (Nat.two_pow_pos w.bits)
    have hhigh := Int.bmod_lt (x := e.toInt64.toInt) (Nat.two_pow_pos w.bits)
    push_cast at hlow hhigh
    rw [w.two_pow_bits] at hlow hhigh
    omega
  | uint w =>
    rw [← he]
    show (0 : Int) ≤ (w.wrapUInt e.toUInt64).toNat ∧
      ((w.wrapUInt e.toUInt64).toNat : Int) < 2 ^ w.bits
    rw [w.toNat_wrapUInt]
    have hlt := Nat.mod_lt e.toUInt64.toNat (Nat.two_pow_pos w.bits)
    exact ⟨Int.natCast_nonneg _, by exact_mod_cast hlt⟩
  | bool | float => cases hd

/-- Canonical elements are told apart by their integers. -/
theorem Canonical.ext {d : DType} {w : Width} (hd : d.width? = some w) {e f : Elem}
    (he : e.Canonical d) (hf : f.Canonical d) (h : e.integer = f.integer) : e = f := by
  cases d with
  | int w =>
    obtain ⟨x, rfl⟩ := he.exists_int
    obtain ⟨y, rfl⟩ := hf.exists_int
    exact congrArg Elem.int (Int64.toInt_inj.mp h)
  | uint w =>
    obtain ⟨x, rfl⟩ := he.exists_uint
    obtain ⟨y, rfl⟩ := hf.exists_uint
    exact congrArg Elem.uint (UInt64.toNat_inj.mp (Int.ofNat_inj.mp h))
  | bool | float => cases hd

theorem toInt_toInt64 {e : Elem} (he : ∀ x, e ≠ .float x) :
    e.toInt64.toInt ≡ e.integer [ZMOD 2 ^ 64] := by
  cases e with
  | bool b => cases b <;> rfl
  | int i => rfl
  | uint u => exact ArrayFusion.toInt_toInt64 u
  | float x => exact absurd rfl (he x)

theorem toNat_toUInt64 {e : Elem} (he : ∀ x, e ≠ .float x) :
    (e.toUInt64.toNat : Int) ≡ e.integer [ZMOD 2 ^ 64] := by
  cases e with
  | bool b => cases b <;> rfl
  | int i => exact ArrayFusion.toNat_toUInt64 i
  | uint u => rfl
  | float x => exact absurd rfl (he x)

/-- Casting to an integer dtype reduces modulo its width. -/
theorem integer_cast {d : DType} {w : Width} (hd : d.width? = some w) {e : Elem}
    (he : ∀ x, e ≠ .float x) : (e.cast d).integer ≡ e.integer [ZMOD 2 ^ w.bits] := by
  cases d with
  | int w =>
    cases hd
    refine Int.ModEq.trans ?_ (w.modEq_of_word (toInt_toInt64 he))
    show (w.wrapInt e.toInt64).toInt ≡ _ [ZMOD _]
    rw [w.toInt_wrapInt]
    exact_mod_cast (Int.bmod_emod : e.toInt64.toInt.bmod (2 ^ w.bits) % _ = _)
  | uint w =>
    cases hd
    refine Int.ModEq.trans ?_ (w.modEq_of_word (toNat_toUInt64 he))
    show ((w.wrapUInt e.toUInt64).toNat : Int) ≡ _ [ZMOD _]
    rw [w.toNat_wrapUInt]
    push_cast
    exact Int.mod_modEq _ _
  | bool | float => cases hd

/-! ### Casts between integers -/

/-- The form in which an integer dtype keeps its elements: a word of its sign,
in its range. -/
def Stored : Elem → DType → Prop
  | .int i, .int w => (DType.int w).Holds i.toInt
  | .uint u, .uint w => (DType.uint w).Holds u.toNat
  | _, _ => False

section

variable {d : DType} {w : Width} (hd : d.width? = some w) {e : Elem}

include hd

theorem cast_ne_float (x : Float) : e.cast d ≠ .float x := by
  cases d with
  | int w | uint w => simp [cast, castBy]
  | bool | float => cases hd

/-- A cast keeps the integers that the dtype holds. -/
theorem integer_cast_eq_iff (he : ∀ x, e ≠ .float x) :
    (e.cast d).integer = e.integer ↔ d.Holds e.integer := by
  have hholds := (e.canonical_cast d).holds hd
  constructor
  · intro h
    rwa [h] at hholds
  · intro h
    exact DType.holds_unique hd hholds h (integer_cast hd he)

/-- The elements that a cast leaves alone are those in stored form. -/
theorem canonical_iff_stored : e.Canonical d ↔ e.Stored d := by
  constructor
  · intro h
    cases d with
    | int w =>
      obtain ⟨i, rfl⟩ := h.exists_int
      exact h.holds hd
    | uint w =>
      obtain ⟨u, rfl⟩ := h.exists_uint
      exact h.holds hd
    | bool | float => cases hd
  · intro h
    -- the dtype and the element have the same sign, and the cast keeps the integer
    cases d with
    | int w =>
      cases e with
      | int i =>
        have hkept := (integer_cast_eq_iff hd (e := .int i) (by simp)).mpr h
        exact congrArg Elem.int (Int64.toInt_inj.mp hkept)
      | bool | uint | float => exact h.elim
    | uint w =>
      cases e with
      | uint u =>
        have hkept := (integer_cast_eq_iff hd (e := .uint u) (by simp)).mpr h
        exact congrArg Elem.uint (UInt64.toNat_inj.mp (Int.ofNat_inj.mp hkept))
      | bool | int | float => exact h.elim
    | bool | float => cases hd

theorem stored_cast : (e.cast d).Stored d :=
  (canonical_iff_stored hd).mp (e.canonical_cast d)

/-- A cast gives the one stored element that is in the class. -/
theorem eq_cast_iff (he : ∀ x, e ≠ .float x) {f : Elem} :
    f = e.cast d ↔ f.Stored d ∧ f.integer ≡ e.integer [ZMOD 2 ^ w.bits] := by
  constructor
  · rintro rfl
    exact ⟨stored_cast hd, integer_cast hd he⟩
  · rintro ⟨hf, hclass⟩
    have hf := (canonical_iff_stored hd).mpr hf
    have hcast := e.canonical_cast d
    apply hf.ext hd hcast
    exact DType.holds_unique hd (hf.holds hd) (hcast.holds hd)
      (hclass.trans (integer_cast hd he).symm)

/-- What a cast to a wider dtype forgets, a cast to a narrower one forgets
too. -/
theorem cast_cast_of_le (he : ∀ x, e ≠ .float x) {d' : DType} {w' : Width}
    (hd' : d'.width? = some w') (hle : w'.bits ≤ w.bits) : (e.cast d).cast d' = e.cast d' := by
  rw [eq_cast_iff hd' he]
  -- the narrow modulus divides the wide one, so the first cast stays in the class
  have hfirst : (e.cast d).integer ≡ e.integer [ZMOD 2 ^ w'.bits] :=
    (integer_cast hd he).of_dvd (pow_dvd_pow 2 hle)
  have hsecond := integer_cast hd' (cast_ne_float hd (e := e))
  exact ⟨stored_cast hd', hsecond.trans hfirst⟩

end

/-- **Integer casts reduce modulo the width.**  Casting a truth value or an
integer to an integer dtype gives the only element in the stored form of the
dtype that is congruent to it modulo the width.  Casting again changes nothing,
the value is kept if and only if the dtype holds it, and a cast before one to a
dtype that is not wider makes no difference, whatever the signs. -/
theorem cast_modulo_width {e : Elem} (he : ∀ x, e ≠ .float x) {d : DType} {w : Width}
    (hd : d.width? = some w) :
    (∀ f : Elem, f = e.cast d ↔ f.Stored d ∧ f.integer ≡ e.integer [ZMOD 2 ^ w.bits]) ∧
    (e.cast d).cast d = e.cast d ∧
    ((e.cast d).integer = e.integer ↔ d.Holds e.integer) ∧
    ∀ d' w', d'.width? = some w' → w'.bits ≤ w.bits → (e.cast d).cast d' = e.cast d' :=
  ⟨fun _ => eq_cast_iff hd he, e.cast_cast d, integer_cast_eq_iff hd he,
    fun _ _ hd' hle => cast_cast_of_le hd he hd' hle⟩

/-- A large unsigned word is cast to signed words and then to bytes. -/
theorem cast_modulo_width_large_word :
    let e : Elem := .uint 18446744073709551560
    e.cast (.int .w64) = .int (-56) ∧ (Elem.int (-56)).Stored (.int .w64) ∧
      ¬(DType.int .w64).Holds e.integer ∧ (e.cast (.int .w64)).integer ≠ e.integer ∧
      (e.cast (.int .w64)).cast (.uint .w8) = e.cast (.uint .w8) ∧
      e.cast (.uint .w8) = .uint 200 := by
  intro e
  obtain ⟨hone, -, hkept, hnarrow⟩ :=
    cast_modulo_width (e := e) (by simp [e]) (d := .int .w64) (w := .w64) rfl
  have hcast : e.cast (.int .w64) = .int (-56) := by decide
  have hrange : ¬(DType.int .w64).Holds e.integer := by decide
  exact ⟨hcast, ((hone _).mp hcast.symm).1, hrange, fun h => hrange (hkept.mp h),
    hnarrow (.uint .w8) .w8 rfl (by decide), by decide⟩

end Elem

end ArrayFusion
