/-
ArrayFusion/Proofs/Ufunc/Division.lean

Integer division at every width.

Design.  Words are divided towards zero and then corrected by a test on signs.
The test is right (`toInt_floorDiv`, `toInt_floorMod`): the quotient is in the
class of the floor and the rest is the rest of the floor.  The corrections do
not wrap.  A rest of the other sign than the divisor lies between zero and its
negative, and a division that leaves a rest has a divisor of at least two, so
its quotient is not the least word.

A rest lies between zero and an operand, so every dtype that holds the operands
holds it.  The floor lies there too, but for the least integer by minus one
(`Overflows`), where it is the first integer beyond the dtype and the cast
takes it back to the dividend.

Main result: the four functions that divide integers give one quotient, one
rest rounded down and one rest rounded towards zero, and these obey the laws of
division (`onArrays_division`).
-/
import ArrayFusion.Proofs.Ufunc.Machine

namespace ArrayFusion

/-! ### Division of integers -/

section Integers

variable {x y q r : Int}

/-- Signs of a rest and of a divisor, as the tests read them. -/
theorem sign_eq_iff (hy : y ≠ 0) : r = 0 ∨ r.sign = y.sign ↔ r = 0 ∨ (r < 0 ↔ y < 0) := by
  rcases lt_or_gt_of_ne hy with hneg | hpos
  · rw [Int.sign_eq_neg_one_of_neg hneg, Int.sign_eq_neg_one_iff_neg]
    omega
  · rw [Int.sign_eq_one_of_pos hpos, Int.sign_eq_one_iff_pos]
    omega

/-- The floor and its rest are the quotient and rest whose rest is smaller than
the divisor and has its sign. -/
theorem fdiv_fmod_iff (hy : y ≠ 0) :
    x.fdiv y = q ∧ x.fmod y = r ↔ q * y + r = x ∧ (r = 0 ∨ r.sign = y.sign) ∧ |r| < |y| := by
  rw [sign_eq_iff hy, Int.abs_eq_natAbs, Int.abs_eq_natAbs, Int.mul_comm, Int.add_comm]
  rcases lt_or_gt_of_ne hy with hneg | hpos
  · rw [Int.fdiv_fmod_unique' hneg]
    refine and_congr_right fun _ => ?_
    omega
  · rw [Int.fdiv_fmod_unique hpos]
    refine and_congr_right fun _ => ?_
    omega

theorem fdiv_fmod_neg_one (x : Int) : x.fdiv (-1) = -x ∧ x.fmod (-1) = 0 :=
  (fdiv_fmod_iff (by decide)).mpr ⟨by omega, .inl rfl, by decide⟩

theorem natAbs_tmod_lt (x : Int) (hy : y ≠ 0) : (x.tmod y).natAbs < y.natAbs := by
  rw [Int.natAbs_tmod]
  exact Nat.mod_lt _ (Int.natAbs_pos.mpr hy)

theorem abs_tmod_lt (x : Int) (hy : y ≠ 0) : |x.tmod y| < |y| := by
  rw [Int.abs_eq_natAbs, Int.abs_eq_natAbs]
  exact_mod_cast natAbs_tmod_lt x hy

theorem sign_tmod (x y : Int) : x.tmod y = 0 ∨ (x.tmod y).sign = x.sign := by
  by_cases hdvd : y ∣ x
  · exact .inl (Int.dvd_iff_tmod_eq_zero.mp hdvd)
  · exact .inr (by rw [Int.sign_tmod, if_neg hdvd])

/-- Where the rest towards zero has the sign of the divisor, the division is
the floor already. -/
theorem floor_of_sign (hy : y ≠ 0) (h : x.tmod y = 0 ∨ (x.tmod y < 0 ↔ y < 0)) :
    x.fdiv y = x.tdiv y ∧ x.fmod y = x.tmod y :=
  (fdiv_fmod_iff hy).mpr ⟨Int.tdiv_mul_add_tmod x y, (sign_eq_iff hy).mpr h, abs_tmod_lt x hy⟩

/-- Elsewhere the floor is one step down. -/
theorem floor_of_turn (hy : y ≠ 0) (h : ¬ (x.tmod y = 0 ∨ (x.tmod y < 0 ↔ y < 0))) :
    x.fdiv y = x.tdiv y - 1 ∧ x.fmod y = x.tmod y + y := by
  have hlt := natAbs_tmod_lt x hy
  have hdiv := Int.tdiv_mul_add_tmod x y
  refine (fdiv_fmod_iff hy).mpr ⟨?_, (sign_eq_iff hy).mpr ?_, ?_⟩
  · rw [Int.sub_mul, Int.one_mul]
    omega
  · omega
  · rw [Int.abs_eq_natAbs, Int.abs_eq_natAbs]
    omega

end Integers

/-! ### Division of words -/

namespace Word

variable {x y : Int64}

/-- The rest towards zero has neither the sign of the divisor nor none. -/
def Turns (x y : Int64) : Prop :=
  x % y ≠ 0 ∧ decide (x % y < 0) ≠ decide (y < 0)

instance (x y : Int64) : Decidable (Turns x y) :=
  inferInstanceAs (Decidable (_ ∧ _))

theorem toInt_ne_zero (hy : y ≠ 0) : y.toInt ≠ 0 :=
  fun h => hy (Int64.toInt_inj.mp h)

theorem neg_iff (x : Int64) : x < 0 ↔ x.toInt < 0 :=
  Int64.lt_iff_toInt_lt

theorem turns_iff :
    Turns x y ↔
      ¬ (x.toInt.tmod y.toInt = 0 ∨ (x.toInt.tmod y.toInt < 0 ↔ y.toInt < 0)) := by
  rw [← Int64.toInt_mod, ← neg_iff, ← neg_iff, ← Int64.toInt_zero, Int64.toInt_inj, not_or,
    Turns, ne_eq, ne_eq, decide_eq_decide]

theorem not_turns_iff :
    ¬ Turns x y ↔ x.toInt.tmod y.toInt = 0 ∨ (x.toInt.tmod y.toInt < 0 ↔ y.toInt < 0) := by
  rw [turns_iff, not_not]

/-- A rest has the sign of the dividend, so that either may be tested. -/
theorem turns_iff_dividend :
    Turns x y ↔ x % y ≠ 0 ∧ decide (x < 0) ≠ decide (y < 0) := by
  refine and_congr_right fun hrest => ?_
  have hsign : x % y < 0 ↔ x < 0 := by
    rw [neg_iff, neg_iff, Int64.toInt_mod]
    rcases sign_tmod x.toInt y.toInt with h | h
    · rw [← Int64.toInt_mod] at h
      exact absurd h (toInt_ne_zero hrest)
    · rw [← Int.sign_eq_neg_one_iff_neg, h, Int.sign_eq_neg_one_iff_neg]
  rw [decide_eq_decide.mpr hsign]

/-- A quotient that leaves a rest is not the least word. -/
theorem toInt_div_of_rest (hrest : x % y ≠ 0) (hy : y ≠ 0) :
    (x / y).toInt = x.toInt.tdiv y.toInt ∧ -2 ^ 63 < x.toInt.tdiv y.toInt := by
  have hrest' := toInt_ne_zero hrest
  rw [Int64.toInt_mod] at hrest'
  have htwo : 1 < y.toInt.natAbs := by
    have hlt := natAbs_tmod_lt x.toInt (toInt_ne_zero hy)
    omega
  have hx : x.toInt ≠ 0 := by
    intro h
    rw [h, Int.zero_tmod] at hrest'
    exact hrest' rfl
  have hdiv : (x.toInt.tdiv y.toInt).natAbs < x.toInt.natAbs := by
    rw [Int.natAbs_tdiv]
    exact Nat.div_lt_self (Int.natAbs_pos.mpr hx) htwo
  have hlow := x.le_toInt
  have hhigh := x.toInt_lt
  refine ⟨Int64.toInt_div_of_ne_right x y ?_, by omega⟩
  rintro rfl
  exact absurd htwo (by decide)

/-- The two corrections do not wrap. -/
theorem Turns.fits (h : Turns x y) (hy : y ≠ 0) :
    (x / y - 1).toInt = (x / y).toInt - 1 ∧ (x % y + y).toInt = (x % y).toInt + y.toInt := by
  have hsigns := turns_iff.mp h
  have hlt := natAbs_tmod_lt x.toInt (toInt_ne_zero hy)
  obtain ⟨hquot, hleast⟩ := toInt_div_of_rest h.1 hy
  have hquot' := (x / y).toInt_lt
  have hlow := y.le_toInt
  have hhigh := y.toInt_lt
  constructor
  · -- there is a word below the quotient
    rw [Int64.toInt_sub, hquot, Int64.toInt_one]
    apply Int.bmod_eq_of_le <;> omega
  · -- the signs differ, so the sum lies between zero and the divisor
    rw [Int64.toInt_add, Int64.toInt_mod]
    apply Int.bmod_eq_of_le <;> omega

/-- The quotient is the floor, wrapped if it is the first integer beyond the
words. -/
theorem toInt_floorDiv (x y : Int64) :
    (floorDiv x y).toInt = (x.toInt.fdiv y.toInt).bmod (2 ^ 64) := by
  by_cases hy : y = 0
  · subst hy
    rw [floorDiv, if_pos rfl, Int64.toInt_zero, Int.fdiv_zero]
    rfl
  rw [floorDiv, if_neg hy]
  simp only [← turns_iff_dividend]
  by_cases h : Turns x y
  · obtain ⟨hquot, -⟩ := toInt_div_of_rest h.1 hy
    rw [if_pos h, (floor_of_turn (toInt_ne_zero hy) (turns_iff.mp h)).1, ← hquot,
      ← (h.fits hy).1]
    exact (Int64.toInt_bmod _).symm
  · rw [if_neg h, (floor_of_sign (toInt_ne_zero hy) (not_turns_iff.mp h)).1,
      Int64.toInt_div]

theorem toInt_floorMod (x y : Int64) :
    (floorMod x y).toInt = if y.toInt = 0 then 0 else x.toInt.fmod y.toInt := by
  by_cases hy : y = 0
  · subst hy
    rfl
  rw [floorMod, if_neg hy, if_neg (toInt_ne_zero hy)]
  show (if Turns x y then x % y + y else x % y).toInt = _
  by_cases h : Turns x y
  · rw [if_pos h, (h.fits hy).2, (floor_of_turn (toInt_ne_zero hy) (turns_iff.mp h)).2,
      Int64.toInt_mod]
  · rw [if_neg h, (floor_of_sign (toInt_ne_zero hy) (not_turns_iff.mp h)).2,
      Int64.toInt_mod]

theorem toInt_truncMod (x y : Int64) :
    (truncMod x y).toInt = if y.toInt = 0 then 0 else x.toInt.tmod y.toInt := by
  by_cases hy : y = 0
  · subst hy
    rfl
  · rw [truncMod, if_neg hy, if_neg (toInt_ne_zero hy), Int64.toInt_mod]

theorem toNat_divide (x y : UInt64) :
    ((divide x y).toNat : Int) = (x.toNat : Int).fdiv y.toNat := by
  by_cases hy : y = 0
  · subst hy
    rw [divide, if_pos rfl, UInt64.toNat_zero, Int.natCast_zero, Int.fdiv_zero]
  · rw [divide, if_neg hy, UInt64.toNat_div, Int.fdiv_eq_ediv_of_nonneg _ (Int.natCast_nonneg _)]
    exact Int.natCast_ediv _ _

theorem toNat_modulo (x y : UInt64) :
    ((modulo x y).toNat : Int) = if (y.toNat : Int) = 0 then 0 else (x.toNat : Int) % y.toNat := by
  by_cases hy : y = 0
  · subst hy
    rfl
  · have hne : (y.toNat : Int) ≠ 0 := fun h => hy (UInt64.toNat_inj.mp (Int.ofNat_inj.mp h))
    rw [modulo, if_neg hy, if_neg hne, UInt64.toNat_mod]
    exact Int.natCast_emod _ _

/-- Neither correction of a division wraps where it is made. -/
def CorrectionsFit (x y : Int64) : Prop :=
  x % y ≠ 0 →
    (decide (x < 0) ≠ decide (y < 0) → (x / y - 1).toInt = (x / y).toInt - 1) ∧
    (decide (x % y < 0) ≠ decide (y < 0) → (x % y + y).toInt = (x % y).toInt + y.toInt)

theorem correctionsFit (hy : y ≠ 0) : CorrectionsFit x y := fun hrest =>
  ⟨fun hs => (Turns.fits (turns_iff_dividend.mpr ⟨hrest, hs⟩) hy).1,
    fun hs => (Turns.fits ⟨hrest, hs⟩ hy).2⟩

end Word

/-! ### Division in a dtype -/

namespace DType

/-- The least integer of a signed dtype, by minus one. -/
def Overflows (d : DType) (a b : Int) : Prop :=
  ∃ w, d = .int w ∧ a = -2 ^ (w.bits - 1) ∧ b = -1

variable {d : DType} {w : Width} {a b : Int}

/-- A dtype holds the floors of its integers, with one exception. -/
theorem Holds.fdiv (ha : d.Holds a) (hb : d.Holds b) (h : ¬ d.Overflows a b) :
    d.Holds (a.fdiv b) := by
  have hle := Int.natAbs_fdiv_le_natAbs a b
  cases d with
  | int w =>
    have hpos : (0 : Int) < 2 ^ (w.bits - 1) := Int.pow_pos (by decide)
    obtain ⟨hlow, hhigh⟩ := ha
    -- a floor is no larger than the dividend, which settles all but the least one
    by_cases hmin : a = -2 ^ (w.bits - 1)
    · have hb' : b ≠ -1 := fun hb' => h ⟨w, rfl, hmin, hb'⟩
      have hlt : a.fdiv b < 2 ^ (w.bits - 1) := by
        rw [← Int.neg_fdiv_neg]
        rcases lt_or_ge b 0 with hneg | hnonneg
        · rw [Int.fdiv_eq_ediv_of_nonneg _ (by omega)]
          have hless := @Int.ediv_lt_self_of_pos_of_ne_one (-a) (-b) (by omega) (by omega)
          omega
        · have hnonpos : (-a).fdiv (-b) ≤ 0 :=
            Int.fdiv_nonpos_of_nonneg_of_nonpos (by omega) (by omega)
          omega
      exact ⟨by omega, hlt⟩
    · exact ⟨by omega, by omega⟩
  | uint w =>
    have ha₀ := ha.1
    exact ha.towards_zero (.inl ⟨Int.fdiv_nonneg ha₀ hb.1, by omega⟩)
  | bool | float => exact ha.elim

/-- The rest of the floor lies between zero and the divisor. -/
theorem Holds.fmod (hb : d.Holds b) (hne : b ≠ 0) (a : Int) : d.Holds (a.fmod b) := by
  obtain ⟨-, hsign, hlt⟩ := (fdiv_fmod_iff hne).mp ⟨rfl, Eq.refl (a.fmod b)⟩
  replace hsign := (sign_eq_iff hne).mp hsign
  rw [Int.abs_eq_natAbs, Int.abs_eq_natAbs] at hlt
  exact hb.towards_zero (by omega)

/-- The rest towards zero lies between zero and the dividend. -/
theorem Holds.tmod (ha : d.Holds a) (b : Int) : d.Holds (a.tmod b) := by
  have hle : (a.tmod b).natAbs ≤ a.natAbs := Int.natAbs_tmod a b ▸ Nat.mod_le _ _
  refine ha.towards_zero ?_
  rcases lt_or_ge a 0 with hneg | hnonneg
  · have hrest := Int.tmod_nonneg b (show 0 ≤ -a by omega)
    rw [Int.neg_tmod] at hrest
    omega
  · have hrest := Int.tmod_nonneg b hnonneg
    omega

/-- The laws of division, at `a` by `b` which is not zero: `q` is the quotient
and `r` the rest of division rounded down, `m` the rest of division rounded
towards zero. -/
structure Division (d : DType) (w : Width) (a b q r m : Int) : Prop where
  /-- Quotient and rest give the dividend back. -/
  recombine : q * b + r ≡ a [ZMOD 2 ^ w.bits]
  /-- The quotient is the floor of the exact one. -/
  floor : ¬ d.Overflows a b → q = a.fdiv b
  /-- In the one case without room for the floor, it is the dividend. -/
  overflow : d.Overflows a b → q = a ∧ r = 0
  rest_sign : r = 0 ∨ r.sign = b.sign
  rest_lt : |r| < |b|
  /-- The two rests differ by a multiple of the divisor. -/
  trunc_modEq : m ≡ r [ZMOD b]
  trunc_sign : m = 0 ∨ m.sign = a.sign
  trunc_lt : |m| < |b|

/-- An integer of the dtype in the class of the floor obeys the laws. -/
theorem division_of_class (hd : d.width? = some w) (ha : d.Holds a) (hb : d.Holds b)
    (hne : b ≠ 0) {q : Int} (hq : d.Holds q) (hclass : q ≡ a.fdiv b [ZMOD 2 ^ w.bits]) :
    d.Division w a b q (a.fmod b) (a.tmod b) := by
  obtain ⟨hdiv, hsign, hlt⟩ := (fdiv_fmod_iff hne).mp ⟨Eq.refl (a.fdiv b), Eq.refl (a.fmod b)⟩
  refine ⟨?_, ?_, ?_, hsign, hlt, ?_, sign_tmod a b, abs_tmod_lt a hne⟩
  · calc q * b + a.fmod b ≡ a.fdiv b * b + a.fmod b [ZMOD 2 ^ w.bits] :=
          (hclass.mul_right b).add_right _
      _ = a := hdiv
  · intro h
    exact holds_unique hd hq (ha.fdiv hb h) hclass
  · rintro ⟨w, rfl, rfl, rfl⟩
    cases hd
    obtain ⟨hquot, hrest⟩ := fdiv_fmod_neg_one (-2 ^ (w.bits - 1))
    refine ⟨holds_unique rfl hq ha (hclass.trans ?_), hrest⟩
    -- the floor is one modulus above the dividend
    rw [hquot, w.two_pow_bits, Int.modEq_iff_dvd]
    exact ⟨-1, by omega⟩
  · rw [Int.modEq_iff_dvd]
    exact ⟨a.tdiv b - a.fdiv b, by
      rw [Int.mul_sub]
      have htrunc := Int.mul_tdiv_add_tmod a b
      have hfloor := Int.mul_fdiv_add_fmod a b
      omega⟩

end DType

/-! ### Functions that divide -/

namespace Ufunc

/-- What the functions that divide mean on integers. -/
inductive Rounded : Ufunc → (Int → Int → Int) → Prop
  | floorDivide : Rounded .floorDivide Int.fdiv
  | remainder : Rounded .remainder fun a b => if b = 0 then 0 else a.fmod b
  | fmod : Rounded .fmod fun a b => if b = 0 then 0 else a.tmod b

variable {f : Ufunc} {g : Int → Int → Int} {d : DType} {w : Width} {a b : Elem}

/-- The word that a division computes is in the class of its meaning. -/
theorem Rounded.first (hg : Rounded f g) (hd : d.width? = some w) (ha : a.Canonical d)
    (hb : b.Canonical d) (c : Elem) :
    (f.first d a b c).integer ≡ g a.integer b.integer [ZMOD 2 ^ w.bits] ∧
      ∀ x, f.first d a b c ≠ .float x := by
  cases d with
  | int w' =>
    cases hd
    obtain ⟨x, rfl⟩ := ha.exists_int
    obtain ⟨y, rfl⟩ := hb.exists_int
    cases hg with
    | floorDivide =>
      refine ⟨w.modEq_of_word ?_, nofun⟩
      show (Word.floorDiv x y).toInt ≡ x.toInt.fdiv y.toInt [ZMOD 2 ^ 64]
      rw [Word.toInt_floorDiv]
      exact bmod_word _
    | remainder => exact ⟨congrArg (· % _) (Word.toInt_floorMod x y), nofun⟩
    | fmod => exact ⟨congrArg (· % _) (Word.toInt_truncMod x y), nofun⟩
  | uint w' =>
    cases hd
    obtain ⟨x, rfl⟩ := ha.exists_uint
    obtain ⟨y, rfl⟩ := hb.exists_uint
    have hmod := Word.toNat_modulo x y
    cases hg with
    | floorDivide => exact ⟨congrArg (· % _) (Word.toNat_divide x y), nofun⟩
    | remainder =>
      rw [← Int.fmod_eq_emod_of_nonneg _ (Int.natCast_nonneg _)] at hmod
      exact ⟨congrArg (· % _) hmod, nofun⟩
    | fmod =>
      rw [← Int.tmod_eq_emod_of_nonneg (Int.natCast_nonneg _)] at hmod
      exact ⟨congrArg (· % _) hmod, nofun⟩
  | bool | float => cases hd

/-- The paired function has the outputs of the two single ones. -/
theorem onArrays_divmod (hd : d.width? = some w) :
    divmod.onArrays d [a, b] =
      .ok [(floorDivide.first d a b a).cast d, (remainder.first d a b a).cast d] := by
  have hloop : divmod.resolve (List.replicate 2 ⟨d, false⟩) = .ok (.uniform 2 d [d, d]) := by
    show divmod.specialLoop (List.replicate 2 ⟨d, false⟩) = _
    rw [specialLoop, common_replicate d (by decide), withoutBool_of_width hd]
  rw [onArrays]
  show (divmod.resolve (List.replicate 2 ⟨d, false⟩) >>= _) = _
  rw [hloop]
  rfl

/-- **Integer division obeys the laws of division at every width.**  Take an
integer dtype and canonical elements `a` and `b` of it.  With the loops
resolved for arrays of the dtype, floor division gives a quotient `q`, the
remainder a rest `r`, the truncated remainder a rest `m`, and the paired
function gives `q` and `r` again, all canonical.  By zero they are zero; else
they obey the laws of division.  Signed words are corrected without wrapping. -/
theorem onArrays_division {d : DType} {w : Width} (hd : d.width? = some w) {a b : Elem}
    (ha : a.Canonical d) (hb : b.Canonical d) :
    ∃ q r m, floorDivide.onArrays d [a, b] = .ok [q] ∧ remainder.onArrays d [a, b] = .ok [r] ∧
      Ufunc.fmod.onArrays d [a, b] = .ok [m] ∧ divmod.onArrays d [a, b] = .ok [q, r] ∧
      q.Canonical d ∧ r.Canonical d ∧ m.Canonical d ∧
      (b.integer = 0 → q.integer = 0 ∧ r.integer = 0 ∧ m.integer = 0) ∧
      (b.integer ≠ 0 →
        d.Division w a.integer b.integer q.integer r.integer m.integer) ∧
      ∀ x y, a = .int x → b = .int y → y ≠ 0 → Word.CorrectionsFit x y := by
  obtain ⟨hqclass, hqword⟩ := Rounded.floorDivide.first hd ha hb a
  obtain ⟨hrclass, hrword⟩ := Rounded.remainder.first hd ha hb a
  obtain ⟨hmclass, hmword⟩ := Rounded.fmod.first hd ha hb a
  obtain ⟨hqcan, hqcast, hqexact⟩ := cast_of_class hd hqword hqclass
  obtain ⟨hrcan, -, hrexact⟩ := cast_of_class hd hrword hrclass
  obtain ⟨hmcan, -, hmexact⟩ := cast_of_class hd hmword hmclass
  refine ⟨_, _, _, onArrays_eq (by decide) rfl hd rfl, onArrays_eq (by decide) rfl hd rfl,
    onArrays_eq (by decide) rfl hd rfl, onArrays_divmod hd, hqcan, hrcan, hmcan, ?_, ?_,
    fun x y _ _ hy => Word.correctionsFit hy⟩
  · intro hzero
    rw [hzero, Int.fdiv_zero] at hqexact
    rw [if_pos hzero] at hrexact hmexact
    have hholds := DType.holds_zero hd
    exact ⟨hqexact hholds, hrexact hholds, hmexact hholds⟩
  · intro hne
    rw [if_neg hne] at hrexact hmexact
    have hrest := hrexact ((hb.holds hd).fmod hne a.integer)
    have htrunc := hmexact ((ha.holds hd).tmod b.integer)
    have hlaws := DType.division_of_class hd (ha.holds hd) (hb.holds hd) hne (hqcan.holds hd) hqcast
    rw [← hrest, ← htrunc] at hlaws
    exact hlaws

/-- The least integer of eight bits by minus one, where the floor has no room. -/
theorem onArrays_division_least :
    (Elem.int (-128)).Canonical (.int .w8) ∧ (Elem.int (-1)).Canonical (.int .w8) ∧
      DType.Overflows (.int .w8) (-128) (-1) ∧
      ∃ q r, divmod.onArrays (.int .w8) [.int (-128), .int (-1)] = .ok [q, r] ∧
        q.integer = -128 ∧ r.integer = 0 := by
  have hleast : (Elem.int (-128)).Canonical (.int .w8) := rfl
  have hone : (Elem.int (-1)).Canonical (.int .w8) := rfl
  have hover : DType.Overflows (.int .w8) (-128) (-1) := ⟨.w8, rfl, rfl, rfl⟩
  obtain ⟨q, r, _, -, -, -, hpair, -, -, -, -, hlaws, -⟩ := onArrays_division rfl hleast hone
  exact ⟨hleast, hone, hover, q, r, hpair, (hlaws (by decide)).overflow hover⟩

end Ufunc

end ArrayFusion
