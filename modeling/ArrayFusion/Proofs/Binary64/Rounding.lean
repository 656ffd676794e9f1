/-
ArrayFusion/Proofs/Binary64/Rounding.lean

Rounding to a format is idempotent.

Design.  All rounding happens on magnitudes.  A magnitude is *representable*
in a format when it is a significand of the format's precision times a power
of two within the format's range; `magnitudeOf` yields only such numbers, and
`wordOf` is exact on them (`magnitudeOf_wordOf`).  A format *within* another
one has no numbers that the other lacks, so rounding to the wider format
leaves what was rounded to the narrower alone (`roundTo_roundTo`).  Half
precision needs both uses of that, because its rounding goes through single
precision.
-/
import ArrayFusion.Proofs.Binary64.Bits

namespace ArrayFusion

/-! ### Powers of two and numbers of digits -/

theorem pow2_add (a b : Nat) : pow2 (a + b) = pow2 a * pow2 b :=
  Nat.pow_add 2 a b

theorem pow2_le_pow2 {a b : Nat} (h : a ≤ b) : pow2 a ≤ pow2 b :=
  Nat.pow_le_pow_right (by decide) h

theorem pow2_dvd_pow2 {a b : Nat} (h : a ≤ b) : pow2 a ∣ pow2 b :=
  Nat.pow_dvd_pow 2 h

namespace FloatFormat

theorem lt_pow2_bitLength (n : Nat) : n < pow2 (bitLength n) := by
  unfold bitLength
  by_cases h : n = 0
  · rw [if_pos h, h]
    exact pow2_pos 0
  · rw [if_neg h]
    exact (Nat.log2_lt h).mp (Nat.lt_succ_self _)

theorem bitLength_le {n k : Nat} (h : n < pow2 k) : bitLength n ≤ k := by
  unfold bitLength
  by_cases hn : n = 0
  · rw [if_pos hn]
    exact Nat.zero_le k
  · rw [if_neg hn]
    exact (Nat.log2_lt hn).mpr h

theorem pow2_le_of_bitLength {n k : Nat} (h : bitLength n = k + 1) : pow2 k ≤ n := by
  unfold bitLength at h
  by_cases hn : n = 0
  · rw [if_pos hn] at h
    omega
  · rw [if_neg hn] at h
    exact (Nat.le_log2 hn).mp (by omega)

/-! ### Representable magnitudes -/

/-- `n` is a number of the format: a significand that has the format's
precision, scaled by a power of two within its range. -/
def Representable (f : FloatFormat) (n : Nat) : Prop :=
  ∃ m k, n = m * pow2 k ∧ m < pow2 f.precision ∧ f.step ≤ k ∧ k + 3 ≤ f.step + pow2 f.exponentBits

/-- Every number of `f` is one of `g`. -/
structure Within (f g : FloatFormat) : Prop where
  precision : f.precision ≤ g.precision
  step : g.step ≤ f.step
  range : f.step + pow2 f.exponentBits ≤ g.step + pow2 g.exponentBits

theorem Representable.mono {f g : FloatFormat} (h : f.Within g) {n : Nat}
    (hn : f.Representable n) : g.Representable n := by
  obtain ⟨m, k, rfl, hm, hk, hr⟩ := hn
  have := h.step
  have := h.range
  exact ⟨m, k, rfl, Nat.lt_of_lt_of_le hm (pow2_le_pow2 h.precision), by omega, by omega⟩

theorem binade_pos (f : FloatFormat) : 0 < f.binade := pow2_pos _

/-- A significand has one digit more than the words of an exponent. -/
theorem pow2_precision {f : FloatFormat} (hp : 0 < f.precision) :
    pow2 f.precision = 2 * f.binade := by
  rw [binade, Nat.mul_comm, ← pow2_succ, Nat.sub_add_cancel hp]

theorem representable_magnitudeOf {f : FloatFormat} (hp : 0 < f.precision)
    (he : 4 ≤ pow2 f.exponentBits) {w : Nat} (hw : w < f.infinity) :
    f.Representable (f.magnitudeOf w) := by
  have hb := f.binade_pos
  have hmod := Nat.mod_lt w hb
  have hprec := pow2_precision hp
  have hdiv : w / f.binade < pow2 f.exponentBits - 1 := Nat.div_lt_of_lt_mul (by
    rw [infinity, Nat.mul_comm] at hw
    exact hw)
  unfold magnitudeOf
  simp only
  by_cases hz : w / f.binade = 0
  · rw [if_pos hz]
    exact ⟨_, f.step, rfl, by omega, Nat.le_refl _, by omega⟩
  · rw [if_neg hz]
    exact ⟨_, _, rfl, by omega, by omega, by omega⟩

/-! ### Exactness -/

theorem roundHalfEven_of_dvd {n k : Nat} (h : pow2 k ∣ n) : roundHalfEven n k = n / pow2 k := by
  have hpos := pow2_pos k
  unfold roundHalfEven
  simp only
  rw [Nat.mod_eq_zero_of_dvd h, if_pos (by omega)]

/-- The word made of a scale and a significand stands for their product. -/
theorem magnitudeOf_word {f : FloatFormat} {j q : Nat} (hq : q < 2 * f.binade)
    (hn : j = 0 ∨ f.binade ≤ q) : f.magnitudeOf (j * f.binade + q) = q * pow2 (j + f.step) := by
  have hb := f.binade_pos
  unfold magnitudeOf
  simp only
  by_cases hlt : q < f.binade
  · have hj : j = 0 := by omega
    subst hj
    rw [Nat.zero_mul, Nat.zero_add, Nat.div_eq_of_lt hlt, if_pos rfl, Nat.mod_eq_of_lt hlt,
      Nat.zero_add]
  · have hsplit : j * f.binade + q = (q - f.binade) + f.binade * (j + 1) := by
      rw [Nat.mul_comm, Nat.mul_add, Nat.mul_one]
      omega
    have hd : (q - f.binade) / f.binade = 0 := Nat.div_eq_of_lt (by omega)
    have hm : (q - f.binade) % f.binade = q - f.binade := Nat.mod_eq_of_lt (by omega)
    rw [hsplit, Nat.add_mul_div_left _ _ hb, Nat.add_mul_mod_self_left, hd, hm, if_neg (by omega)]
    congr 1
    · omega
    · congr 1
      omega

/-- The shift that `wordOf` rounds at. -/
def shiftOf (f : FloatFormat) (n : Nat) : Nat :=
  max (bitLength n - f.precision) f.step

/-- A representable magnitude is split exactly at its shift. -/
theorem Representable.split {f : FloatFormat} (hp : 0 < f.precision) {n : Nat}
    (h : f.Representable n) :
    pow2 (f.shiftOf n) ∣ n ∧ n / pow2 (f.shiftOf n) < 2 * f.binade ∧
      (f.shiftOf n - f.step = 0 ∨ f.binade ≤ n / pow2 (f.shiftOf n)) ∧
      f.shiftOf n + 3 ≤ f.step + pow2 f.exponentBits := by
  obtain ⟨m, k, rfl, hm, hk, hr⟩ := h
  have hlen : bitLength (m * pow2 k) ≤ f.precision + k := by
    apply bitLength_le
    rw [pow2_add]
    exact Nat.mul_lt_mul_of_pos_right hm (pow2_pos k)
  have hle : f.shiftOf (m * pow2 k) ≤ k := by
    unfold shiftOf
    omega
  refine ⟨?_, ?_, ?_, by omega⟩
  · exact Nat.dvd_trans (pow2_dvd_pow2 hle) (Nat.dvd_mul_left _ _)
  · rw [← pow2_precision hp]
    apply Nat.div_lt_of_lt_mul
    rw [← pow2_add]
    refine Nat.lt_of_lt_of_le (lt_pow2_bitLength _) (pow2_le_pow2 ?_)
    unfold shiftOf
    omega
  · by_cases hs : bitLength (m * pow2 k) - f.precision ≤ f.step
    · left
      unfold shiftOf
      omega
    · right
      have hsh : f.shiftOf (m * pow2 k) = bitLength (m * pow2 k) - f.precision := by
        unfold shiftOf
        omega
      rw [Nat.le_div_iff_mul_le (pow2_pos _), binade, ← pow2_add]
      exact pow2_le_of_bitLength (by omega)

theorem wordOf_eq {f : FloatFormat} (hp : 0 < f.precision) {n : Nat} (h : f.Representable n) :
    f.wordOf n = (f.shiftOf n - f.step) * f.binade + n / pow2 (f.shiftOf n) ∧
      f.wordOf n < f.infinity := by
  obtain ⟨hd, hq, -, hr⟩ := h.split hp
  have hword : (f.shiftOf n - f.step) * f.binade + n / pow2 (f.shiftOf n) < f.infinity := by
    calc (f.shiftOf n - f.step) * f.binade + n / pow2 (f.shiftOf n)
        < (f.shiftOf n - f.step) * f.binade + 2 * f.binade := by omega
      _ = (f.shiftOf n - f.step + 2) * f.binade := by rw [Nat.add_mul]
      _ ≤ f.infinity := Nat.mul_le_mul_right _ (by
          have : f.step ≤ f.shiftOf n := Nat.le_max_right _ _
          omega)
  have heq : f.wordOf n = (f.shiftOf n - f.step) * f.binade + n / pow2 (f.shiftOf n) := by
    show min ((f.shiftOf n - f.step) * f.binade + roundHalfEven n (f.shiftOf n)) f.infinity = _
    rw [roundHalfEven_of_dvd hd]
    exact Nat.min_eq_left (Nat.le_of_lt hword)
  exact ⟨heq, heq ▸ hword⟩

/-- The word of a representable magnitude reads back as that magnitude. -/
theorem magnitudeOf_wordOf {f : FloatFormat} (hp : 0 < f.precision) {n : Nat}
    (h : f.Representable n) : f.magnitudeOf (f.wordOf n) = n := by
  obtain ⟨hd, hq, hn, -⟩ := h.split hp
  have hs : f.step ≤ f.shiftOf n := Nat.le_max_right _ _
  rw [(wordOf_eq hp h).1, magnitudeOf_word hq hn, Nat.sub_add_cancel hs]
  exact Nat.div_mul_cancel hd

end FloatFormat

namespace Binary64

open FloatFormat

/-! ### Doubles by sign and word -/

theorem infinity_binary64 : FloatFormat.binary64.infinity = 9218868437227405312 := by decide

theorem pow2_63 : pow2 63 = 9223372036854775808 := by decide

/-- The pattern of a sign and a word. -/
theorem toNat_pattern {w : Nat} (hw : w < 9223372036854775808) (negative : Bool) :
    (UInt64.ofNat (w + if negative then pow2 63 else 0)).toNat =
      w + if negative then 9223372036854775808 else 0 := by
  rw [pow2_63, UInt64.toNat_ofNat_of_lt']
  show _ < 18446744073709551616
  cases negative <;> simp <;> omega

theorem isNumber_pattern {w : Nat} (hw : w ≤ 9218868437227405312) (negative : Bool) :
    IsNumber (UInt64.ofNat (w + if negative then pow2 63 else 0)).toBitVec := by
  show (UInt64.ofNat _).toNat % _ ≤ _
  rw [toNat_pattern (by omega)]
  cases negative <;> simp <;> omega

/-- Sign and word of a double that is a number. -/
theorem ofWord_fields {w : Nat} (hw : w ≤ 9218868437227405312) (negative : Bool) :
    word (ofWord negative w) = w ∧ isNegative (ofWord negative w) = negative ∧
      (ofWord negative w).isNaN = false := by
  have hnum := isNumber_pattern hw negative
  have hbits : (ofWord negative w).toBits = UInt64.ofNat (w + if negative then pow2 63 else 0) :=
    toBits_ofBits hnum
  refine ⟨?_, ?_, ?_⟩
  · rw [word, hbits, toNat_pattern (by omega), pow2_63]
    cases negative <;> simp <;> omega
  · rw [isNegative, hbits]
    have hshift : (UInt64.ofNat (w + if negative then pow2 63 else 0) >>> 63).toNat =
        if negative then 1 else 0 := by
      rw [UInt64.toNat_shiftRight, toNat_pattern (by omega)]
      show _ >>> 63 = _
      rw [Nat.shiftRight_eq_div_pow]
      show _ / 9223372036854775808 = _
      cases negative <;> simp <;> omega
    rw [Bool.eq_iff_iff, beq_iff_eq, ← UInt64.toNat_inj, hshift]
    cases negative <;> simp
  · rw [Bool.eq_false_iff, Ne, ofWord, isNaN_ofBits_iff, Classical.not_not]
    exact hnum

theorem isInf_ofWord {w : Nat} (hw : w ≤ 9218868437227405312) (negative : Bool) :
    (ofWord negative w).isInf = true ↔ w = 9218868437227405312 := by
  rw [ofWord, isInf_ofBits_iff, toNat_pattern (by omega)]
  cases negative <;> simp <;> omega

/-- All doubles that are not numbers are one. -/
theorem ofWord_nan (a b : Bool) :
    ofWord a FloatFormat.binary64.quietNaN = ofWord b FloatFormat.binary64.quietNaN ∧
      (ofWord a FloatFormat.binary64.quietNaN).isNaN = true := by
  have hnan : ∀ c : Bool, ¬ IsNumber
      (UInt64.ofNat (FloatFormat.binary64.quietNaN + if c then pow2 63 else 0)).toBitVec := by
    unfold IsNumber
    decide
  constructor
  · rw [ofWord, ofWord, ofBits_of_not_isNumber (hnan a), ofBits_of_not_isNumber (hnan b)]
  · rw [ofWord, isNaN_ofBits_iff]
    exact hnan a

/-! ### Rounding -/

/-- Rounding again changes nothing. -/
def Idempotent (round : Float → Float) : Prop :=
  ∀ x, round (round x) = round x

/-- What rounding leaves alone in a format: the quiet not-a-number, the
infinities, and the numbers of the format. -/
inductive RoundedTo (f : FloatFormat) : Float → Prop
  | nan (negative : Bool) : RoundedTo f (ofWord negative FloatFormat.binary64.quietNaN)
  | infinite (negative : Bool) : RoundedTo f (ofWord negative FloatFormat.binary64.infinity)
  | finite (negative : Bool) {n : Nat} (h : f.Representable n) :
      RoundedTo f (ofMagnitude negative n)

/-- The three formats have significands, and at least two exponents. -/
structure Proper (f : FloatFormat) : Prop where
  precision : 0 < f.precision
  exponents : 4 ≤ pow2 f.exponentBits
  withinDouble : f.Within .binary64

theorem roundedTo_roundTo {f : FloatFormat} (hf : Proper f) (x : Float) :
    RoundedTo f (roundTo f x) := by
  unfold roundTo ofWordIn
  by_cases hlt : wordIn f x < f.infinity
  · rw [if_pos hlt]
    exact .finite _ (representable_magnitudeOf hf.precision hf.exponents hlt)
  · rw [if_neg hlt]
    by_cases heq : wordIn f x = f.infinity
    · rw [if_pos heq]
      exact .infinite _
    · rw [if_neg heq]
      exact .nan _

/-- The double nearest to a representable magnitude has that magnitude. -/
theorem ofMagnitude_fields {n : Nat} (h : FloatFormat.binary64.Representable n) (negative : Bool) :
    magnitude (ofMagnitude negative n) = n ∧ isNegative (ofMagnitude negative n) = negative ∧
      (ofMagnitude negative n).isNaN = false ∧ (ofMagnitude negative n).isInf = false := by
  have hp : 0 < FloatFormat.binary64.precision := by decide
  have hlt := (wordOf_eq hp h).2
  rw [infinity_binary64] at hlt
  obtain ⟨hw, hs, hn⟩ := ofWord_fields (Nat.le_of_lt hlt) negative
  refine ⟨?_, hs, hn, ?_⟩
  · rw [magnitude, ofMagnitude, hw]
    exact magnitudeOf_wordOf hp h
  · rw [Bool.eq_false_iff, Ne, ofMagnitude, isInf_ofWord (Nat.le_of_lt hlt)]
    omega

/-- Rounding to a format keeps what was rounded to one within it. -/
theorem roundTo_of_roundedTo {f g : FloatFormat} (hf : Proper f) (hg : Proper g)
    (h : f.Within g) {x : Float} (hx : RoundedTo f x) : roundTo g x = x := by
  cases hx with
  | nan negative =>
    obtain ⟨hsame, hnan⟩ := ofWord_nan negative (isNegative (ofWord negative binary64.quietNaN))
    have hinf : g.infinity < g.quietNaN := Nat.lt_add_of_pos_right (pow2_pos _)
    rw [roundTo, wordIn, if_pos hnan, ofWordIn, if_neg (by omega), if_neg (by omega)]
    exact hsame.symm
  | infinite negative =>
    rw [infinity_binary64]
    obtain ⟨-, hs, hn⟩ := ofWord_fields (Nat.le_refl _) negative
    rw [roundTo, wordIn, hn, if_neg (by decide), if_pos ((isInf_ofWord (Nat.le_refl _) _).mpr rfl),
      ofWordIn, if_neg (Nat.lt_irrefl _), if_pos rfl, hs, infinity_binary64]
  | @finite negative n hr =>
    obtain ⟨hm, hs, hn, hi⟩ := ofMagnitude_fields (hr.mono hf.withinDouble) negative
    have hrg := hr.mono h
    rw [roundTo, wordIn, hn, if_neg (by decide), hi, if_neg (by decide), hm, hs, ofWordIn,
      if_pos (wordOf_eq hg.precision hrg).2, magnitudeOf_wordOf hg.precision hrg]

theorem proper_binary16 : Proper .binary16 := ⟨by decide, by decide, by decide, by decide, by decide⟩

theorem proper_binary32 : Proper .binary32 := ⟨by decide, by decide, by decide, by decide, by decide⟩

theorem within_refl (f : FloatFormat) : f.Within f :=
  ⟨Nat.le_refl _, Nat.le_refl _, Nat.le_refl _⟩

theorem idempotent_toSingle : Idempotent toSingle := fun x =>
  roundTo_of_roundedTo proper_binary32 proper_binary32 (within_refl _)
    (roundedTo_roundTo proper_binary32 x)

/-- A number of half precision is one of single precision, so the way
through single precision does not change it. -/
theorem idempotent_toHalf : Idempotent toHalf := by
  intro x
  have hr : RoundedTo .binary16 (toHalf x) := roundedTo_roundTo proper_binary16 (toSingle x)
  have hs : toSingle (toHalf x) = toHalf x :=
    roundTo_of_roundedTo proper_binary16 proper_binary32 ⟨by decide, by decide, by decide⟩ hr
  rw [toHalf, hs]
  exact roundTo_of_roundedTo proper_binary16 proper_binary16 (within_refl _) hr

end Binary64

/-- Rounding to a precision is idempotent if rounding to half precision is. -/
theorem Precision.idempotent_roundBy {half : Float → Float} (hhalf : Binary64.Idempotent half)
    (p : Precision) : Binary64.Idempotent (p.roundBy half) := by
  intro x
  cases p with
  | half => exact hhalf x
  | single => exact Binary64.idempotent_toSingle x
  | double => rfl

end ArrayFusion
