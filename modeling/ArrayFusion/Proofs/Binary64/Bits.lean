/-
ArrayFusion/Proofs/Binary64/Bits.lean

Doubles and their bit patterns.

A double is its bit pattern, except that all patterns that are not numbers
are one double.  A pattern is seen here as its sign and its word; the word
of infinity separates the finite words below from those that are not
numbers above.

Main results: a pattern whose word is at most infinity is read back
unchanged (`toBits_ofBits`), and `isNaN`, `isInf` compare the word with
infinity (`isNaN_ofBits_iff`, `isInf_ofBits_iff`).
-/
import ArrayFusion.Binary64.Format

namespace ArrayFusion.Binary64

open Float.Model Float.Model.UnpackedFloat

/-! ### The three fields of a pattern -/

theorem toNat_unpackMantissa (b : BitVec Format.binary64.numBits) :
    (unpackMantissa b).toNat = b.toNat % 4503599627370496 := by
  simp [unpackMantissa, BitVec.extractLsb, BitVec.extractLsb']

theorem toNat_unpackExponent (b : BitVec Format.binary64.numBits) :
    (unpackExponent b).toNat = b.toNat / 4503599627370496 % 2048 := by
  simp [unpackExponent, BitVec.extractLsb, BitVec.extractLsb', Nat.shiftRight_eq_div_pow]

theorem toNat_unpackSign (b : BitVec Format.binary64.numBits) :
    (unpackSign b).toNat = b.toNat / 9223372036854775808 % 2 := by
  delta unpackSign
  simp [BitVec.extractLsb, BitVec.extractLsb', Nat.shiftRight_eq_div_pow]

theorem toNat_packComponents (s : Sign) (e : BitVec Format.binary64.exponentBits)
    (m : BitVec Format.binary64.mantissaBitsWithoutImplicit) :
    (packComponents Format.binary64 s e m).toNat =
      (s.toBitVec.toNat * 2048 + e.toNat) * 4503599627370496 + m.toNat := by
  unfold packComponents
  rw [BitVec.toNat_append, ← Nat.shiftLeft_add_eq_or_of_lt m.isLt, BitVec.toNat_append,
    ← Nat.shiftLeft_add_eq_or_of_lt e.isLt]
  simp [Nat.shiftLeft_eq]

/-- A pattern is put together from its own fields. -/
theorem packComponents_unpack (b : BitVec Format.binary64.numBits) :
    packComponents Format.binary64 (Sign.ofBitVec (unpackSign b)) (unpackExponent b)
      (unpackMantissa b) = b := by
  have hsign : ∀ v : BitVec 1, (Sign.ofBitVec v).toBitVec = v := by decide
  apply BitVec.eq_of_toNat_eq
  rw [toNat_packComponents, hsign, toNat_unpackSign, toNat_unpackExponent, toNat_unpackMantissa]
  have hlt : b.toNat < 18446744073709551616 := b.isLt
  omega

/-! ### Packing what was unpacked -/

/-- The word of a pattern is at most infinity: its exponent is not full, or
nothing follows it. -/
def IsNumber (b : BitVec Format.binary64.numBits) : Prop :=
  b.toNat % 9223372036854775808 ≤ 9218868437227405312

theorem unpackExponent_eq_iff (b : BitVec Format.binary64.numBits) :
    unpackExponent b = -1#_ ↔ b.toNat / 4503599627370496 % 2048 = 2047 := by
  rw [← BitVec.toNat_inj, toNat_unpackExponent]
  exact Iff.rfl

theorem unpackMantissa_eq_iff (b : BitVec Format.binary64.numBits) :
    unpackMantissa b = 0#_ ↔ b.toNat % 4503599627370496 = 0 := by
  rw [← BitVec.toNat_inj, toNat_unpackMantissa]
  exact Iff.rfl

theorem isNumber_iff (b : BitVec Format.binary64.numBits) :
    IsNumber b ↔ unpackExponent b = -1#_ → unpackMantissa b = 0#_ := by
  rw [unpackExponent_eq_iff, unpackMantissa_eq_iff, IsNumber]
  omega

theorem pack_unpack {b : BitVec Format.binary64.numBits} (h : IsNumber b) :
    UnpackedFloat.pack Format.binary64 (UnpackedFloat.unpack Format.binary64 b) = b := by
  have hm := toNat_unpackMantissa b
  have he := toNat_unpackExponent b
  have hb := packComponents_unpack b
  rw [isNumber_iff] at h
  delta UnpackedFloat.unpack
  dsimp only
  by_cases hexp : unpackExponent b = -1#11
  · rw [if_pos hexp, if_pos (h hexp)]
    rw [hexp, h hexp] at hb
    exact hb
  · rw [if_neg hexp]
    have hne : (unpackExponent b).toNat ≠ 2047 := fun hc => hexp (BitVec.eq_of_toNat_eq hc)
    by_cases hzero : unpackExponent b = 0#11
    · rw [if_pos hzero]
      have hz : (unpackExponent b).toNat = 0 := by
        rw [hzero]
        rfl
      by_cases hmant : unpackMantissa b = 0#52
      · rw [dif_pos hmant]
        rw [hzero, hmant] at hb
        exact hb
      · rw [dif_neg hmant]
        -- a subnormal number: too few digits for the implicit bit
        have hpos : (unpackMantissa b).toNat ≠ 0 := fun hc => hmant (BitVec.eq_of_toNat_eq hc)
        have hlog : (unpackMantissa b).toNat.log2 < 52 :=
          (Nat.log2_lt hpos).mpr (unpackMantissa b).isLt
        delta UnpackedFloat.pack
        dsimp only
        simp only [hz]
        rw [if_neg (by decide), if_neg (by
          intro hc
          rw [show Format.binary64.mantissaBits = 53 from rfl] at hc
          omega)]
        rw [BitVec.ofNat_toNat, BitVec.setWidth_eq, ← hzero]
        exact hb
    · rw [if_neg hzero]
      -- a normal number: the implicit bit is the leading digit
      have hnz : (unpackExponent b).toNat ≠ 0 := fun hc => hzero (BitVec.eq_of_toNat_eq hc)
      have hlt : (unpackMantissa b).toNat < 4503599627370496 := (unpackMantissa b).isLt
      have hbig : (1#1 ++ unpackMantissa b).toNat = 4503599627370496 + (unpackMantissa b).toNat := by
        rw [BitVec.toNat_append, ← Nat.shiftLeft_add_eq_or_of_lt (unpackMantissa b).isLt]
        simp [Nat.shiftLeft_eq]
      have hlog : (1#1 ++ unpackMantissa b).toNat.log2 = 52 := by
        rw [hbig, Nat.log2_eq_iff (by omega)]
        omega
      have hexpo : (((unpackExponent b).toNat : Int) -
          ((Format.binary64.exponentBias : Nat) + (Format.binary64.mantissaBitsWithoutImplicit : Nat)) +
          (Format.binary64.exponentBias : Nat) +
          (Format.binary64.mantissaBitsWithoutImplicit : Nat)).toNat = (unpackExponent b).toNat := by
        omega
      delta UnpackedFloat.pack
      dsimp only
      simp only [hexpo, hlog]
      rw [if_neg (by
          have : (unpackExponent b).toNat < 2048 := (unpackExponent b).isLt
          show ¬ 2048 ≤ (unpackExponent b).toNat + 1
          omega), if_pos (by rfl)]
      have hmv : BitVec.ofNat Format.binary64.mantissaBitsWithoutImplicit
          (1#1 ++ unpackMantissa b).toNat = unpackMantissa b := by
        apply BitVec.eq_of_toNat_eq
        rw [BitVec.toNat_ofNat, hbig]
        show (4503599627370496 + (unpackMantissa b).toNat) % 4503599627370496 = _
        omega
      rw [hmv, BitVec.ofNat_toNat, BitVec.setWidth_eq]
      exact hb

/-- A full exponent is that of infinity and of what is not a number; all other
patterns are neither. -/
theorem unpack_cases (b : BitVec Format.binary64.numBits) :
    (unpackExponent b = -1#_ ∧ unpackMantissa b = 0#_ ∧
      UnpackedFloat.unpack Format.binary64 b = .infinity (Sign.ofBitVec (unpackSign b))) ∨
    (unpackExponent b = -1#_ ∧ unpackMantissa b ≠ 0#_ ∧
      UnpackedFloat.unpack Format.binary64 b = .notANumber) ∨
    (unpackExponent b ≠ -1#_ ∧ (UnpackedFloat.unpack Format.binary64 b).isNaN = false ∧
      (UnpackedFloat.unpack Format.binary64 b).isInf = false) := by
  delta UnpackedFloat.unpack
  dsimp only
  by_cases hexp : unpackExponent b = -1#11
  · rw [if_pos hexp]
    by_cases hmant : unpackMantissa b = 0#52
    · rw [if_pos hmant]
      exact .inl ⟨hexp, hmant, rfl⟩
    · rw [if_neg hmant]
      exact .inr (.inl ⟨hexp, hmant, rfl⟩)
  · rw [if_neg hexp]
    refine .inr (.inr ⟨hexp, ?_⟩)
    by_cases hzero : unpackExponent b = 0#11
    · rw [if_pos hzero]
      by_cases hmant : unpackMantissa b = 0#52
      · rw [dif_pos hmant]
        exact ⟨rfl, rfl⟩
      · rw [dif_neg hmant]
        exact ⟨rfl, rfl⟩
    · rw [if_neg hzero]
      exact ⟨rfl, rfl⟩

theorem unpack_of_not_isNumber {b : BitVec Format.binary64.numBits} (h : ¬ IsNumber b) :
    UnpackedFloat.unpack Format.binary64 b = .notANumber := by
  rw [isNumber_iff, Classical.not_imp] at h
  rcases unpack_cases b with ⟨-, hmant, -⟩ | ⟨-, -, hnan⟩ | ⟨hexp, -, -⟩
  · exact absurd hmant h.2
  · exact hnan
  · exact absurd h.1 hexp

/-! ### Doubles -/

theorem ofBits_of_not_isNumber {b : UInt64} (h : ¬ IsNumber b.toBitVec) :
    Float.ofBits b = .ofModel (.pack .notANumber) := by
  rw [Float.ofBits, Float.Model.ofBits, unpack_of_not_isNumber h]

/-- A pattern that is a number is read back unchanged. -/
theorem toBits_ofBits {b : UInt64} (h : IsNumber b.toBitVec) : (Float.ofBits b).toBits = b := by
  show UInt64.ofBitVec (UnpackedFloat.pack Format.binary64 (UnpackedFloat.unpack Format.binary64 b.toBitVec)) = b
  rw [pack_unpack h]

theorem unpack_ofBits (b : UInt64) :
    (Float.ofBits b).toModel.unpack = UnpackedFloat.unpack Format.binary64 b.toBitVec := by
  show UnpackedFloat.unpack Format.binary64 (UnpackedFloat.pack Format.binary64 (UnpackedFloat.unpack Format.binary64 b.toBitVec)) = _
  by_cases h : IsNumber b.toBitVec
  · rw [pack_unpack h]
  · rw [unpack_of_not_isNumber h]
    rfl

theorem isNaN_unpack_iff (b : BitVec Format.binary64.numBits) :
    (UnpackedFloat.unpack Format.binary64 b).isNaN = true ↔ ¬ IsNumber b := by
  rw [isNumber_iff, Classical.not_imp]
  rcases unpack_cases b with ⟨-, hmant, hinf⟩ | ⟨hexp, hmant, hnan⟩ | ⟨hexp, hnan, -⟩
  · rw [hinf]
    exact ⟨fun h => (by cases h), fun h => absurd hmant h.2⟩
  · rw [hnan]
    exact ⟨fun _ => ⟨hexp, hmant⟩, fun _ => rfl⟩
  · rw [hnan]
    exact ⟨fun h => (by cases h), fun h => absurd h.1 hexp⟩

theorem isInf_unpack_iff (b : BitVec Format.binary64.numBits) :
    (UnpackedFloat.unpack Format.binary64 b).isInf = true ↔
      b.toNat % 9223372036854775808 = 9218868437227405312 := by
  have hw : b.toNat % 9223372036854775808 = 9218868437227405312 ↔
      unpackExponent b = -1#_ ∧ unpackMantissa b = 0#_ := by
    rw [unpackExponent_eq_iff, unpackMantissa_eq_iff]
    omega
  rw [hw]
  rcases unpack_cases b with ⟨hexp, hmant, hinf⟩ | ⟨-, hmant, hnan⟩ | ⟨hexp, -, hinf⟩
  · rw [hinf]
    exact ⟨fun _ => ⟨hexp, hmant⟩, fun _ => rfl⟩
  · rw [hnan]
    exact ⟨fun h => (by cases h), fun h => absurd h.2 hmant⟩
  · rw [hinf]
    exact ⟨fun h => (by cases h), fun h => absurd h.1 hexp⟩

theorem isNaN_ofBits_iff (b : UInt64) :
    (Float.ofBits b).isNaN = true ↔ ¬ IsNumber b.toBitVec := by
  show (Float.ofBits b).toModel.unpack.isNaN = true ↔ _
  rw [unpack_ofBits]
  exact isNaN_unpack_iff b.toBitVec

theorem isInf_ofBits_iff (b : UInt64) :
    (Float.ofBits b).isInf = true ↔ b.toNat % 9223372036854775808 = 9218868437227405312 := by
  show (Float.ofBits b).toModel.unpack.isInf = true ↔ _
  rw [unpack_ofBits]
  exact isInf_unpack_iff b.toBitVec

end ArrayFusion.Binary64
