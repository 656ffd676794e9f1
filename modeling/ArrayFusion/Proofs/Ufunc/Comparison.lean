/-
ArrayFusion/Proofs/Ufunc/Comparison.lean

Comparing integers of different dtypes compares the numbers.

Design.  A dtype that is no float has a range of numbers, and the join of two
of them has a range around both, unless it is a float (`within_promote`).  So
the left-to-right join of a list has a range around every operand
(`within_foldl`), and a number in the range of a dtype survives the cast to it
(`integer_cast_of_mem`).  The loop of a comparison then meets its operands in
one representation.  There the order of words is that of the numbers
(`order_eq`), and the larger and the smaller of two elements are elements
again (`larger_eq`, `smaller_eq`), so the cast behind the loop changes nothing.

Main result: the cast to the common dtype keeps the numbers of all operands
that are no floats, and so comparisons, maxima and minima of two arrays are
those of the numbers (`Eager.compares_numbers`).
-/
import ArrayFusion.Proofs.Integer
import ArrayFusion.Proofs.Outputs
import ArrayFusion.Proofs.Promotion.Order

namespace ArrayFusion

/-! ### Ranges -/

namespace DType

/-- The least number of a dtype that is no float. -/
def least : DType → Int
  | .int w => -2 ^ (w.bits - 1)
  | _ => 0

/-- The greatest number of a dtype that is no float. -/
def greatest : DType → Int
  | .bool => 1
  | .int w => 2 ^ (w.bits - 1) - 1
  | .uint w => 2 ^ w.bits - 1
  | .float _ => 0

/-- The range of one dtype lies in that of another. -/
def Within (d e : DType) : Prop :=
  e.least ≤ d.least ∧ d.greatest ≤ e.greatest

instance (d e : DType) : Decidable (d.Within e) :=
  inferInstanceAs (Decidable (_ ∧ _))

theorem Within.trans {d e f : DType} (h : d.Within e) (h' : e.Within f) : d.Within f :=
  ⟨Int.le_trans h'.1 h.1, Int.le_trans h.2 h'.2⟩

/-- A join that is no float has a range around both sides. -/
theorem within_promote {d e : DType} (h : (d.promote e).category ≠ .float) :
    d.Within (d.promote e) ∧ e.Within (d.promote e) := by
  revert d e
  decide

theorem within_foldl {ds : List DType} {a : DType}
    (h : (ds.foldl promote a).category ≠ .float) :
    a.Within (ds.foldl promote a) ∧ ∀ d ∈ ds, d.Within (ds.foldl promote a) := by
  induction ds generalizing a with
  | nil => exact ⟨⟨Int.le_refl _, Int.le_refl _⟩, by simp⟩
  | cons x ds ih =>
    -- a float would have stayed one
    have hjoin : (a.promote x).category ≠ .float := fun hfloat => h (category_foldl hfloat ds)
    obtain ⟨hleft, hright⟩ := within_promote hjoin
    obtain ⟨hstart, hrest⟩ := ih h
    exact ⟨hleft.trans hstart, List.forall_mem_cons.mpr ⟨hright.trans hstart, hrest⟩⟩

/-- Operands that are all arrays or all scalars count. -/
theorem counted_of_alike {ops : List OperandType} {b : Bool} (h : ∀ o ∈ ops, o.isScalar = b) :
    counted ops = ops.map (·.dtype) := by
  have hkeep : ∀ o ∈ ops, (scalarsCount ops || !o.isScalar) = true := by
    intro o ho
    cases b with
    | false => simp [h o ho]
    | true =>
      -- there is no array to outrank
      have hnone : topCategory false ops = none := by
        rw [topCategory, List.max?_eq_none_iff, List.map_eq_nil_iff, List.filter_eq_nil_iff]
        intro o' ho'
        simp [h o' ho']
      simp [scalarsCount, hnone]
  rw [counted, List.filter_eq_self.mpr hkeep]

/-- The common dtype of arrays or of scalars, if it is no float, has a range
around all of them. -/
theorem within_resultType {ops : List OperandType} {b : Bool} (h : ∀ o ∈ ops, o.isScalar = b)
    {r : DType} (hr : resultType ops = some r) (hfloat : r.category ≠ .float) :
    ∀ o ∈ ops, o.dtype.category ≠ .float ∧ o.dtype.Within r := by
  intro o ho
  have hmem : o.dtype ∈ ops.map (·.dtype) := List.mem_map_of_mem ho
  rw [resultType_eq_promoteAll, counted_of_alike h,
    promoteAll_eq_foldl (List.ne_nil_of_mem hmem)] at hr
  obtain rfl := Option.some.inj hr
  exact ⟨fun hop => hfloat (category_foldl_of_mem .bool ⟨_, hmem, hop⟩),
    (within_foldl hfloat).2 _ hmem⟩

end DType

/-! ### Numbers that survive a cast -/

namespace Elem

theorem Canonical.ne_float {d : DType} (hd : d.category ≠ .float) {e : Elem} (he : e.Canonical d) :
    ∀ x, e ≠ .float x := by
  rintro x rfl
  cases d with
  | float p => exact hd rfl
  | bool | int | uint => cases he

theorem Canonical.bounds {d : DType} (hd : d.category ≠ .float) {e : Elem} (he : e.Canonical d) :
    d.least ≤ e.integer ∧ e.integer ≤ d.greatest := by
  cases d with
  | bool =>
    rw [← he]
    cases h : e.toBool <;> simp [cast, castBy, h, integer, DType.least, DType.greatest]
  | int w =>
    obtain ⟨hlow, hhigh⟩ := he.holds rfl
    exact ⟨hlow, Int.le_sub_one_of_lt hhigh⟩
  | uint w =>
    obtain ⟨hlow, hhigh⟩ := he.holds rfl
    exact ⟨hlow, Int.le_sub_one_of_lt hhigh⟩
  | float p => exact absurd rfl hd

/-- Zero is the one number that counts as false. -/
theorem toBool_iff {e : Elem} (he : ∀ x, e ≠ .float x) : e.toBool = true ↔ e.integer ≠ 0 := by
  cases e with
  | bool b => cases b <;> decide
  | int i => simp [toBool, integer, ← Int64.toInt_inj]
  | uint u => simp [toBool, integer, ← UInt64.toNat_inj]
  | float x => exact absurd rfl (he x)

/-- A number in the range of a dtype survives the cast to it. -/
theorem integer_cast_of_mem {d : DType} (hd : d.category ≠ .float) {e : Elem}
    (he : ∀ x, e ≠ .float x) (hlow : d.least ≤ e.integer) (hhigh : e.integer ≤ d.greatest) :
    (e.cast d).integer = e.integer := by
  cases d with
  | bool =>
    simp only [DType.least, DType.greatest] at hlow hhigh
    show (if e.toBool then (1 : Int) else 0) = e.integer
    by_cases hzero : e.integer = 0
    · rw [if_neg fun htrue => (toBool_iff he).mp htrue hzero, hzero]
    · rw [if_pos ((toBool_iff he).mpr hzero)]
      omega
  | int w =>
    exact DType.holds_unique rfl ((canonical_cast e _).holds rfl)
      ⟨hlow, Int.lt_of_le_sub_one hhigh⟩ (integer_cast rfl he)
  | uint w =>
    exact DType.holds_unique rfl ((canonical_cast e _).holds rfl)
      ⟨hlow, Int.lt_of_le_sub_one hhigh⟩ (integer_cast rfl he)
  | float p => exact absurd rfl hd

/-- A canonical element keeps its number in a dtype of a larger range. -/
theorem Canonical.integer_cast {d r : DType} (hd : d.category ≠ .float) (hr : r.category ≠ .float)
    (h : d.Within r) {e : Elem} (he : e.Canonical d) : (e.cast r).integer = e.integer := by
  obtain ⟨hlow, hhigh⟩ := he.bounds hd
  exact integer_cast_of_mem hr (he.ne_float hd) (Int.le_trans h.1 hlow) (Int.le_trans hhigh h.2)

end Elem

/-! ### Comparing elements -/

namespace Ufunc

theorem compare_toInt (x y : Int64) : Ord.compare x y = Ord.compare x.toInt y.toInt := by
  show compareOfLessAndEq x y = compareOfLessAndEq x.toInt y.toInt
  simp only [compareOfLessAndEq, Int64.lt_iff_toInt_lt, Int64.toInt_inj]

theorem compare_toNat (x y : UInt64) :
    Ord.compare x y = Ord.compare (x.toNat : Int) (y.toNat : Int) := by
  show compareOfLessAndEq x y = compareOfLessAndEq (x.toNat : Int) (y.toNat : Int)
  simp only [compareOfLessAndEq, UInt64.lt_iff_toNat_lt, Int.ofNat_lt, Int.ofNat_inj,
    UInt64.toNat_inj]

variable {d : DType} {a b : Elem}

/-- Two elements of one dtype that is no float have one representation. -/
theorem alike_of_canonical (hd : d.category ≠ .float) (ha : a.Canonical d) (hb : b.Canonical d) :
    (d = .bool ∧ ∃ x y, a = .bool x ∧ b = .bool y) ∨
    (∃ w, d = .int w ∧ ∃ x y, a = .int x ∧ b = .int y) ∨
    (∃ w, d = .uint w ∧ ∃ x y, a = .uint x ∧ b = .uint y) := by
  cases d with
  | bool => exact .inl ⟨rfl, _, _, ha.symm, hb.symm⟩
  | int w => exact .inr (.inl ⟨w, rfl, _, _, ha.symm, hb.symm⟩)
  | uint w => exact .inr (.inr ⟨w, rfl, _, _, ha.symm, hb.symm⟩)
  | float p => exact absurd rfl hd

/-- In one dtype the order of elements is that of their numbers. -/
theorem order_eq (hd : d.category ≠ .float) (ha : a.Canonical d) (hb : b.Canonical d) :
    order d.kind a b = some (Ord.compare a.integer b.integer) := by
  rcases alike_of_canonical hd ha hb with
    ⟨rfl, x, y, rfl, rfl⟩ | ⟨w, rfl, x, y, rfl, rfl⟩ | ⟨w, rfl, x, y, rfl, rfl⟩
  · cases x <;> cases y <;> rfl
  · exact congrArg some (compare_toInt x y)
  · exact congrArg some (compare_toNat x y)

/-- In one dtype the larger of two elements is one of them. -/
theorem larger_eq (hd : d.category ≠ .float) (ha : a.Canonical d) (hb : b.Canonical d) :
    larger d.kind a b = if a.integer ≤ b.integer then b else a := by
  rcases alike_of_canonical hd ha hb with
    ⟨rfl, x, y, rfl, rfl⟩ | ⟨w, rfl, x, y, rfl, rfl⟩ | ⟨w, rfl, x, y, rfl, rfl⟩
  · cases x <;> cases y <;> rfl
  · show Elem.int (if x ≤ y then y else x) = if x.toInt ≤ y.toInt then _ else _
    rw [apply_ite Elem.int]
    simp only [Int64.le_iff_toInt_le]
  · show Elem.uint (if x ≤ y then y else x) = if (x.toNat : Int) ≤ y.toNat then _ else _
    rw [apply_ite Elem.uint]
    simp only [UInt64.le_iff_toNat_le, Int.ofNat_le]

/-- In one dtype the smaller of two elements is one of them. -/
theorem smaller_eq (hd : d.category ≠ .float) (ha : a.Canonical d) (hb : b.Canonical d) :
    smaller d.kind a b = if a.integer ≤ b.integer then a else b := by
  rcases alike_of_canonical hd ha hb with
    ⟨rfl, x, y, rfl, rfl⟩ | ⟨w, rfl, x, y, rfl, rfl⟩ | ⟨w, rfl, x, y, rfl, rfl⟩
  · cases x <;> cases y <;> rfl
  · show Elem.int (if x ≤ y then x else y) = if x.toInt ≤ y.toInt then _ else _
    rw [apply_ite Elem.int]
    simp only [Int64.le_iff_toInt_le]
  · show Elem.uint (if x ≤ y then x else y) = if (x.toNat : Int) ≤ y.toNat then _ else _
    rw [apply_ite Elem.uint]
    simp only [UInt64.le_iff_toNat_le, Int.ofNat_le]

/-- What comparisons mean on numbers. -/
inductive Compares : Ufunc → (Int → Int → Bool) → Prop
  | greater : Compares .greater fun x y => decide (y < x)
  | greaterEqual : Compares .greaterEqual fun x y => decide (y ≤ x)
  | less : Compares .less fun x y => decide (x < y)
  | lessEqual : Compares .lessEqual fun x y => decide (x ≤ y)
  | equal : Compares .equal fun x y => decide (x = y)
  | notEqual : Compares .notEqual fun x y => decide (x ≠ y)

/-- What the functions that pick one of two elements mean on numbers. -/
inductive Picks : Ufunc → (Int → Int → Int) → Prop
  | maximum : Picks .maximum max
  | minimum : Picks .minimum min

/-- A comparison in one dtype compares numbers. -/
theorem Compares.first {f : Ufunc} {g : Int → Int → Bool} (hg : Compares f g)
    (hd : d.category ≠ .float) (ha : a.Canonical d) (hb : b.Canonical d) (c : Elem) :
    f.first d a b c = .bool (g a.integer b.integer) := by
  have horder := order_eq hd ha hb
  generalize a.integer = x at horder ⊢
  generalize b.integer = y at horder ⊢
  rcases Int.lt_trichotomy x y with hlt | rfl | hgt
  · rw [compare_lt_iff_lt.mpr hlt] at horder
    have hne : x ≠ y := Int.ne_of_lt hlt
    cases hg <;> simp [Ufunc.first, horder, hlt, hne, Int.le_of_lt hlt]
  · rw [compare_eq_iff_eq.mpr rfl] at horder
    cases hg <;> simp [Ufunc.first, horder]
  · rw [compare_gt_iff_gt.mpr hgt] at horder
    have hne : x ≠ y := Int.ne_of_gt hgt
    cases hg <;> simp [Ufunc.first, horder, hgt, hne, Int.le_of_lt hgt]

/-- The larger or smaller of two elements of a dtype is one of them. -/
theorem Picks.first {f : Ufunc} {g : Int → Int → Int} (hg : Picks f g)
    (hd : d.category ≠ .float) (ha : a.Canonical d) (hb : b.Canonical d) (c : Elem) :
    (f.first d a b c).Canonical d ∧ (f.first d a b c).integer = g a.integer b.integer := by
  cases hg with
  | maximum =>
    show (larger d.kind a b).Canonical d ∧ (larger d.kind a b).integer = _
    rw [larger_eq hd ha hb]
    split
    · next h => exact ⟨hb, (max_eq_right h).symm⟩
    · next h => exact ⟨ha, (max_eq_left (Int.le_of_not_le h)).symm⟩
  | minimum =>
    show (smaller d.kind a b).Canonical d ∧ (smaller d.kind a b).integer = _
    rw [smaller_eq hd ha hb]
    split
    · next h => exact ⟨ha, (min_eq_left h).symm⟩
    · next h => exact ⟨hb, (min_eq_right (Int.le_of_not_le h)).symm⟩

end Ufunc

/-! ### Two operands -/

namespace DType

/-- An unsigned integer of sixty-four bits beside a signed integer. -/
def LongPair (d e : DType) : Prop :=
  d = .uint .w64 ∧ e.isSigned = true ∨ e = .uint .w64 ∧ d.isSigned = true

instance (d e : DType) : Decidable (LongPair d e) :=
  inferInstanceAs (Decidable (_ ∨ _))

theorem category_promote_ne_float {d e : DType} (hd : d.category ≠ .float)
    (he : e.category ≠ .float) (h : ¬ LongPair d e) : (d.promote e).category ≠ .float := by
  revert d e
  decide

theorem resultType_pair {x y : OperandType} (h : x.isScalar = y.isScalar) :
    resultType [x, y] = some (x.dtype.promote y.dtype) := by
  have halike : ∀ o ∈ [x, y], o.isScalar = y.isScalar := by simp [h]
  rw [resultType_eq_promoteAll, counted_of_alike halike]
  rfl

end DType

theorem Tensor.canonical_get {t : Tensor} (ht : t.Canonical) (index : List Nat) :
    (t.get index).Canonical t.dtype := by
  rw [get, List.getD_eq_getElem?_getD]
  rcases h : t.data[t.shape.sourceOffset index]? with - | e
  · exact Elem.canonical_zero t.dtype
  · exact ht e (List.mem_of_getElem? h)

namespace Eager

variable {f : Ufunc} {x y : Operand} {s : Store} {shape : Shape}

/-- A function of two operands with one output, in a loop of one dtype. -/
theorem ufunc_pair {d out : DType} (hout : f.nout = 1)
    (hres : f.resolve [x.type, y.type] = .ok (.uniform 2 d [out]))
    (hx : (x.tensor s).Sized) (hy : (y.tensor s).Sized)
    (hshape : Shape.broadcastAll [x.shape, y.shape] = .ok shape) :
    ∃ r s', ufunc f [x, y] s = (.ok [r], s') ∧
      r.tensor s' = ⟨out, shape, shape.indices.map fun index =>
        let a := ((x.tensor s).get index).cast d
        let b := ((y.tensor s).get index).cast d
        (f.first d a b a).cast out⟩ := by
  have hi : ∀ o ∈ [x, y], (o.tensor s).Sized := by simp [hx, hy]
  obtain ⟨rs, s', hrs, hlen, hresults⟩ := ufunc_eq_ok_outputs hi hres hshape
  rw [hout] at hlen hresults
  obtain ⟨r, rfl⟩ := List.length_eq_one_iff.mp hlen
  obtain ⟨r', d', hr', hd', htensor⟩ := hresults 0 Nat.one_pos
  cases hr'
  cases hd'
  exact ⟨r, s', hrs, htensor⟩

/-- What is asked of two operands: arrays or scalars alike, filled, canonical,
no floats, and not an unsigned integer of sixty-four bits beside a signed one. -/
structure ComparableIn (x y : Operand) (s : Store) : Prop where
  alike : x.isScalar = y.isScalar
  sized : (x.tensor s).Sized ∧ (y.tensor s).Sized
  canonical : (x.tensor s).Canonical ∧ (y.tensor s).Canonical
  noFloat : x.dtype.category ≠ .float ∧ y.dtype.category ≠ .float
  noLongPair : ¬ DType.LongPair x.dtype y.dtype

theorem ComparableIn.category_promote (h : ComparableIn x y s) :
    (x.dtype.promote y.dtype).category ≠ .float :=
  DType.category_promote_ne_float h.noFloat.1 h.noFloat.2 h.noLongPair

theorem ComparableIn.common (h : ComparableIn x y s) :
    Ufunc.common [x.type, y.type] = x.dtype.promote y.dtype := by
  rw [Ufunc.common, DType.resultType_pair h.alike]
  rfl

/-- The casts of a loop in the common dtype keep the numbers of both operands. -/
theorem ComparableIn.integer_cast (h : ComparableIn x y s) (index : List Nat) :
    (((x.tensor s).get index).cast (x.dtype.promote y.dtype)).integer =
        ((x.tensor s).get index).integer ∧
      (((y.tensor s).get index).cast (x.dtype.promote y.dtype)).integer =
        ((y.tensor s).get index).integer := by
  obtain ⟨hx, hy⟩ := DType.within_promote h.category_promote
  exact ⟨(Tensor.canonical_get h.canonical.1 index).integer_cast h.noFloat.1 h.category_promote hx,
    (Tensor.canonical_get h.canonical.2 index).integer_cast h.noFloat.2 h.category_promote hy⟩

theorem ComparableIn.compares (h : ComparableIn x y s)
    (hshape : Shape.broadcastAll [x.shape, y.shape] = .ok shape) {g : Int → Int → Bool}
    (hg : Ufunc.Compares f g) :
    ∃ r s', ufunc f [x, y] s = (.ok [r], s') ∧
      r.tensor s' = ⟨.bool, shape, shape.indices.map fun index =>
        .bool (g ((x.tensor s).get index).integer ((y.tensor s).get index).integer)⟩ := by
  have hres : f.resolve [x.type, y.type] = .ok (.uniform 2 (x.dtype.promote y.dtype) [.bool]) := by
    rw [← h.common]
    cases hg <;> rfl
  have hout : f.nout = 1 := by cases hg <;> rfl
  obtain ⟨r, s', hr, htensor⟩ := ufunc_pair hout hres h.sized.1 h.sized.2 hshape
  refine ⟨r, s', hr, htensor.trans ?_⟩
  congr 1
  apply List.map_congr_left
  intro index _
  obtain ⟨hx, hy⟩ := h.integer_cast index
  dsimp only
  rw [hg.first h.category_promote (Elem.canonical_cast _ _) (Elem.canonical_cast _ _), hx, hy]
  rfl

theorem ComparableIn.picks (h : ComparableIn x y s)
    (hshape : Shape.broadcastAll [x.shape, y.shape] = .ok shape) {g : Int → Int → Int}
    (hg : Ufunc.Picks f g) :
    ∃ r s', ufunc f [x, y] s = (.ok [r], s') ∧
      r.dtype = x.dtype.promote y.dtype ∧ r.shape = shape ∧
      ∀ index, shape.InRange index →
        ((r.tensor s').get index).Canonical r.dtype ∧
        ((r.tensor s').get index).integer =
          g ((x.tensor s).get index).integer ((y.tensor s).get index).integer := by
  have hres : f.resolve [x.type, y.type] =
      .ok (.uniform 2 (x.dtype.promote y.dtype) [x.dtype.promote y.dtype]) := by
    rw [← h.common]
    cases hg <;> rfl
  have hout : f.nout = 1 := by cases hg <;> rfl
  obtain ⟨r, s', hr, htensor⟩ := ufunc_pair hout hres h.sized.1 h.sized.2 hshape
  have hdtype : r.dtype = x.dtype.promote y.dtype := congrArg Tensor.dtype htensor
  refine ⟨r, s', hr, hdtype, congrArg Tensor.shape htensor, fun index hi => ?_⟩
  obtain ⟨hx, hy⟩ := h.integer_cast index
  obtain ⟨hcan, hinteger⟩ := hg.first h.category_promote
    (Elem.canonical_cast ((x.tensor s).get index) _)
    (Elem.canonical_cast ((y.tensor s).get index) _)
    (((x.tensor s).get index).cast (x.dtype.promote y.dtype))
  rw [hdtype, htensor, Tensor.get_of_data rfl hi]
  refine ⟨Elem.canonical_cast _ _, ?_⟩
  -- the picked element is canonical, so the cast behind the loop leaves it
  rw [Elem.Canonical] at hcan
  dsimp only
  rw [hcan, hinteger, hx, hy]

/-- **Loops in a common integer dtype compare the numbers.**  Take operands
that are all arrays or all scalars.  If their common dtype is no float, then
casting to it keeps the number of every canonical element of every operand.
Hence take two filled and canonical arrays (or scalars) of bool or integer
dtypes, other than an unsigned integer of sixty-four bits beside a signed one,
whose shapes broadcast: the six comparisons succeed and answer, at every index,
how the numbers compare, and the maximum and minimum succeed and hold the
larger and the smaller number. -/
theorem compares_numbers :
    (∀ (ops : List OperandType) (isScalar : Bool) (r : DType),
      (∀ o ∈ ops, o.isScalar = isScalar) → DType.resultType ops = some r →
      r.category ≠ .float →
      ∀ o ∈ ops, ∀ e : Elem, e.Canonical o.dtype → (e.cast r).integer = e.integer) ∧
    ∀ (x y : Operand) (s : Store) (shape : Shape), ComparableIn x y s →
      Shape.broadcastAll [x.shape, y.shape] = .ok shape →
      (∀ f g, Ufunc.Compares f g → ∃ r s', ufunc f [x, y] s = (.ok [r], s') ∧
        r.tensor s' = ⟨.bool, shape, shape.indices.map fun index =>
          .bool (g ((x.tensor s).get index).integer ((y.tensor s).get index).integer)⟩) ∧
      ∀ f g, Ufunc.Picks f g → ∃ r s', ufunc f [x, y] s = (.ok [r], s') ∧
        r.dtype = x.dtype.promote y.dtype ∧ r.shape = shape ∧
        ∀ index, shape.InRange index →
          ((r.tensor s').get index).Canonical r.dtype ∧
          ((r.tensor s').get index).integer =
            g ((x.tensor s).get index).integer ((y.tensor s).get index).integer := by
  refine ⟨fun ops isScalar r halike hr hfloat o ho e he => ?_, fun x y s shape h hshape => ?_⟩
  · obtain ⟨hop, hwithin⟩ := DType.within_resultType halike hr hfloat o ho
    exact he.integer_cast hop hfloat hwithin
  · exact ⟨fun f g hg => h.compares hshape hg, fun f g hg => h.picks hshape hg⟩

/-- An unsigned integer above the signed range of its width, beside a negative
one: they meet in the next width, where the order is that of the numbers. -/
theorem compares_numbers_mixed_signs :
    let s : Store := ⟨[[.uint 4294967295, .uint 7], [.int (-1)]]⟩
    let x : Operand := .array ⟨0, .uint .w32, ⟨[2]⟩⟩
    let y : Operand := .array ⟨1, .int .w32, ⟨[1]⟩⟩
    ComparableIn x y s ∧ Shape.broadcastAll [x.shape, y.shape] = .ok ⟨[2]⟩ ∧
      (∃ r s', ufunc .less [x, y] s = (.ok [r], s') ∧ r.elems s' = [.bool false, .bool false]) ∧
      ∃ r s', ufunc .maximum [x, y] s = (.ok [r], s') ∧
        ((r.tensor s').get [0]).integer = 4294967295 := by
  intro s x y
  have h : ComparableIn x y s :=
    ⟨rfl, ⟨by decide, by decide⟩, ⟨by decide, by decide⟩, ⟨by decide, by decide⟩, by decide⟩
  have hshape : Shape.broadcastAll [x.shape, y.shape] = .ok ⟨[2]⟩ := rfl
  obtain ⟨hcompare, hpick⟩ := compares_numbers.2 x y s ⟨[2]⟩ h hshape
  obtain ⟨r, s₁, hr, htensor⟩ := hcompare _ _ .less
  obtain ⟨m, s₂, hm, -, -, hnumbers⟩ := hpick _ _ .maximum
  refine ⟨h, hshape, ⟨r, s₁, hr, ?_⟩, m, s₂, hm, ?_⟩
  · exact (congrArg Tensor.data htensor).trans (by decide)
  · exact (hnumbers [0] (by decide)).2.trans (by decide)

end Eager

end ArrayFusion
