/-
ArrayFusion/Proofs/Promotion/Order.lean

When the order of the operands matters for the common dtype.

Design.  Which operands count does not depend on their order
(`counted_perm`), so everything is about the left-to-right join of what counts.
Without floats the join is one of a semilattice, and operands may be exchanged
(`promoteAll_perm`).  With floats it is not: the integers in front of the
first float are joined with each other, those behind it are joined with the
float one by one, and an integer of either sign in eight bits fits in half
precision while their join does not.

The size of a float join is therefore that of its largest operand, or of the
largest join of two leading integers (`floatBytes_foldl`).  Two are enough: an
integer join needs no larger float than some two of its operands
(`floatBytes_promote_promote`).

Main result: the order matters exactly if a float is among the operands that
count, and two others whose join needs a larger float than every one of them
(`OrderMatters`); the bounds of a clip may be exchanged unless that is so and
the clipped operand is no float (`resultType_order`).
-/
import Mathlib.Data.List.TakeWhile
import Mathlib.Data.List.Perm.Subperm
import ArrayFusion.Proofs.Promotion
import ArrayFusion.Ufunc.Loop

namespace ArrayFusion.DType

/-! ### Sizes of floats -/

/-- Size of the float that holds a dtype. -/
def floatBytes (d : DType) : Nat :=
  d.floatLift.bytes

theorem two_le_floatBytes (d : DType) : 2 ≤ d.floatBytes := by
  revert d
  decide

/-- Floats are told apart by their sizes. -/
theorem eq_of_floatBytes {d e : DType} (hd : d.category = .float) (he : e.category = .float)
    (h : d.floatBytes = e.floatBytes) : d = e := by
  revert d e
  decide

theorem floatBytes_le_promote (d e : DType) : d.floatBytes ≤ (d.promote e).floatBytes := by
  revert d e
  decide

/-- A float grows to the size that an operand needs. -/
theorem floatBytes_promote_left {d : DType} (hd : d.category = .float) (e : DType) :
    (d.promote e).floatBytes = max d.floatBytes e.floatBytes := by
  revert d e
  decide

theorem floatBytes_promote_right (d : DType) {e : DType} (he : e.category = .float) :
    (d.promote e).floatBytes = max d.floatBytes e.floatBytes := by
  revert d e
  decide

/-- What a join of integers can be. -/
def IntegerJoin (d : DType) : Prop :=
  d.category ≠ .float ∨ d = .float .double

instance (d : DType) : Decidable d.IntegerJoin :=
  inferInstanceAs (Decidable (_ ∨ _))

theorem IntegerJoin.promote {d e : DType} (hd : d.IntegerJoin) (he : e.category ≠ .float) :
    (d.promote e).IntegerJoin := by
  revert d e
  decide

/-- A join of three integers needs the float that some two of them need. -/
theorem floatBytes_promote_promote {d x y : DType} (hd : d.IntegerJoin) (hx : x.category ≠ .float)
    (hy : y.category ≠ .float) :
    ((d.promote x).promote y).floatBytes =
      max (d.promote x).floatBytes (max (d.promote y).floatBytes (x.promote y).floatBytes) := by
  revert d x y
  decide +kernel

/-! ### Exchanging operands -/

theorem promote_comm (d e : DType) : d.promote e = e.promote d := by
  revert d e
  decide

/-- Operands that are no floats may be exchanged. -/
theorem promote_right_comm_of_ne_float {x y : DType} (hx : x.category ≠ .float)
    (hy : y.category ≠ .float) (d : DType) :
    (d.promote x).promote y = (d.promote y).promote x := by
  revert x y d
  decide +kernel

/-- Without floats the order of a join does not matter. -/
theorem promoteAll_perm {ds es : List DType} (h : ds.Perm es)
    (hds : ∀ d ∈ ds, d.category ≠ .float) : promoteAll ds = promoteAll es := by
  by_cases hne : ds = []
  · subst hne
    rw [h.nil_eq]
  · have hne' : es ≠ [] := fun hnil => hne (hnil ▸ h).eq_nil
    rw [promoteAll_eq_foldl hne, promoteAll_eq_foldl hne']
    exact congrArg some (h.foldl_eq'
      (fun x hx y hy z => promote_right_comm_of_ne_float (hds x hx) (hds y hy) z) .bool)

/-! ### Joins with a float -/

/-- The operands in front of the first float. -/
def leading (ds : List DType) : List DType :=
  ds.takeWhile fun d => d.category ≠ .float

/-- A join of integers needs the float that some two of them need. -/
theorem floatBytes_foldl_integers {ds : List DType} (hds : ∀ d ∈ ds, d.category ≠ .float)
    {a : DType} (ha : a.IntegerJoin) (n : Nat) :
    (ds.foldl promote a).floatBytes ≤ n ↔
      a.floatBytes ≤ n ∧ (∀ d ∈ ds, (a.promote d).floatBytes ≤ n) ∧
        ∀ d ∈ ds, ∀ e ∈ ds, (d.promote e).floatBytes ≤ n := by
  induction ds generalizing a with
  | nil => simp
  | cons x ds ih =>
    obtain ⟨hx, hds⟩ := List.forall_mem_cons.mp hds
    -- the next operand meets the join so far and the one joined last
    have hthree : ∀ d ∈ ds, ((a.promote x).promote d).floatBytes ≤ n ↔
        (a.promote x).floatBytes ≤ n ∧ (a.promote d).floatBytes ≤ n ∧
          (x.promote d).floatBytes ≤ n := by
      intro d hd
      rw [floatBytes_promote_promote ha hx (hds d hd), Nat.max_le, Nat.max_le]
    have hx' : x.floatBytes ≤ (x.promote a).floatBytes := floatBytes_le_promote x a
    have ha' : a.floatBytes ≤ (x.promote a).floatBytes := by
      rw [promote_comm]
      exact floatBytes_le_promote a x
    rw [List.foldl_cons, ih hds (ha.promote hx), forall₂_congr hthree]
    simp only [List.forall_mem_cons, promote_self, promote_comm _ x, forall_and]
    constructor
    · rintro ⟨hax, ⟨-, had, hxd⟩, hpairs⟩
      exact ⟨Nat.le_trans ha' hax, ⟨hax, had⟩, ⟨Nat.le_trans hx' hax, hxd⟩, hxd, hpairs⟩
    · rintro ⟨-, ⟨hax, had⟩, ⟨-, hxd⟩, -, hpairs⟩
      exact ⟨hax, ⟨fun _ _ => hax, had, hxd⟩, hpairs⟩

/-- Behind a float every operand counts for itself. -/
theorem floatBytes_foldl_float (ds : List DType) {a : DType} (ha : a.category = .float) (n : Nat) :
    (ds.foldl promote a).floatBytes ≤ n ↔
      a.floatBytes ≤ n ∧ ∀ d ∈ ds, d.floatBytes ≤ n := by
  induction ds generalizing a with
  | nil => simp
  | cons x ds ih =>
    rw [List.foldl_cons, ih (category_promote_left ha x), floatBytes_promote_left ha, Nat.max_le,
      List.forall_mem_cons, and_assoc]

/-- The size of a join with a float: every operand fits, and so does the join
of any two that stand in front of the first float. -/
theorem floatBytes_foldl {ds : List DType} (h : ∃ f ∈ ds, f.category = .float) (n : Nat) :
    (ds.foldl promote .bool).floatBytes ≤ n ↔
      (∀ d ∈ ds, d.floatBytes ≤ n) ∧
        ∀ d ∈ leading ds, ∀ e ∈ leading ds, (d.promote e).floatBytes ≤ n := by
  obtain ⟨f, rest, hf, hsplit⟩ := exists_first_float h
  have hfront : ∀ d ∈ leading ds, d.category ≠ .float := by
    intro d hd
    simpa using List.mem_takeWhile_imp hd
  change ds = leading ds ++ f :: rest at hsplit
  generalize leading ds = front at hsplit hfront ⊢
  subst hsplit
  have hzero : DType.bool.floatBytes ≤ f.floatBytes := two_le_floatBytes f
  rw [List.foldl_append, List.foldl_cons, floatBytes_foldl_float rest (category_promote_right _ hf),
    floatBytes_promote_right _ hf, Nat.max_le, floatBytes_foldl_integers hfront (.inl (by decide))]
  simp only [List.forall_mem_append, List.forall_mem_cons]
  constructor
  · rintro ⟨⟨⟨-, hsingle, hpairs⟩, hf⟩, hrest⟩
    exact ⟨⟨hsingle, hf, hrest⟩, hpairs⟩
  · rintro ⟨⟨hsingle, hf, hrest⟩, hpairs⟩
    exact ⟨⟨⟨Nat.le_trans hzero hf, hsingle, hpairs⟩, hf⟩, hrest⟩

/-! ### Operands that count -/

/-- The dtypes of the operands that take part in finding the common dtype. -/
def counted (ops : List OperandType) : List DType :=
  (ops.filter fun o => scalarsCount ops || !o.isScalar).map (·.dtype)

theorem resultType_eq_promoteAll (ops : List OperandType) :
    resultType ops = promoteAll (counted ops) := rfl

theorem topCategory_perm {ops ops' : List OperandType} (h : ops.Perm ops') (b : Bool) :
    topCategory b ops = topCategory b ops' := by
  ext m
  rw [topCategory_eq_some_iff, topCategory_eq_some_iff]
  simp only [h.mem_iff]

theorem scalarsCount_perm {ops ops' : List OperandType} (h : ops.Perm ops') :
    scalarsCount ops = scalarsCount ops' := by
  rw [scalarsCount, scalarsCount, topCategory_perm h, topCategory_perm h]

/-- Which operands count does not depend on their order. -/
theorem counted_perm {ops ops' : List OperandType} (h : ops.Perm ops') :
    (counted ops).Perm (counted ops') := by
  rw [counted, counted, scalarsCount_perm h]
  exact (h.filter _).map _

/-- With a float among the operands that count, the common dtype is the
smallest float that holds each of them and the join of any two leading ones. -/
theorem resultType_float {ops : List OperandType} (h : ∃ f ∈ counted ops, f.category = .float) :
    ∃ q, resultType ops = some (.float q) ∧ ∀ n, q.bytes ≤ n ↔
      (∀ d ∈ counted ops, d.floatBytes ≤ n) ∧
        ∀ d ∈ leading (counted ops), ∀ e ∈ leading (counted ops), (d.promote e).floatBytes ≤ n := by
  have hne : counted ops ≠ [] := by
    obtain ⟨f, hf, -⟩ := h
    exact List.ne_nil_of_mem hf
  obtain ⟨q, hq⟩ := exists_float (category_foldl_of_mem .bool h)
  refine ⟨q, by rw [resultType_eq_promoteAll, promoteAll_eq_foldl hne, hq], fun n => ?_⟩
  rw [← floatBytes_foldl h, hq]
  rfl

/-! ### When the order matters -/

/-- A float is among the dtypes, and two others whose join needs a larger float
than every dtype for itself. -/
def OrderMatters (ds : List DType) : Prop :=
  (∃ f ∈ ds, f.category = .float) ∧
    ∃ d ∈ ds, ∃ e ∈ ds, d.category ≠ .float ∧ e.category ≠ .float ∧
      ∀ x ∈ ds, x.floatBytes < (d.promote e).floatBytes

instance (ds : List DType) : Decidable (OrderMatters ds) := by
  unfold OrderMatters
  infer_instance

theorem orderMatters_perm {ds es : List DType} (h : ds.Perm es) :
    OrderMatters ds ↔ OrderMatters es := by
  simp only [OrderMatters, h.mem_iff]

/-- Where the order does not matter, the largest operand decides. -/
theorem resultType_of_not_orderMatters {ops : List OperandType}
    (h : ∃ f ∈ counted ops, f.category = .float) (hno : ¬ OrderMatters (counted ops)) :
    ∃ q, resultType ops = some (.float q) ∧
      ∀ n, q.bytes ≤ n ↔ ∀ d ∈ counted ops, d.floatBytes ≤ n := by
  obtain ⟨q, hq, hsize⟩ := resultType_float h
  refine ⟨q, hq, fun n => (hsize n).trans (and_iff_left_of_imp ?_)⟩
  intro hn d hd e he
  have hpair : ∃ x ∈ counted ops, (d.promote e).floatBytes ≤ x.floatBytes := by
    by_contra hlarge
    push Not at hlarge
    have hmem : ∀ {x}, x ∈ leading (counted ops) → x ∈ counted ops ∧ x.category ≠ .float := by
      intro x hx
      exact ⟨(List.takeWhile_sublist _).mem hx, by simpa using List.mem_takeWhile_imp hx⟩
    exact hno ⟨h, d, (hmem hd).1, e, (hmem he).1, (hmem hd).2, (hmem he).2, hlarge⟩
  obtain ⟨x, hx, hle⟩ := hpair
  exact Nat.le_trans hle (hn x hx)

theorem resultType_perm_of_not_orderMatters {ops ops' : List OperandType} (hperm : ops'.Perm ops)
    (hno : ¬ OrderMatters (counted ops)) : resultType ops' = resultType ops := by
  have hcounted := counted_perm hperm
  by_cases h : ∃ f ∈ counted ops, f.category = .float
  · have h' : ∃ f ∈ counted ops', f.category = .float := by
      simpa only [hcounted.mem_iff] using h
    obtain ⟨q, hq, hsize⟩ := resultType_of_not_orderMatters h hno
    obtain ⟨q', hq', hsize'⟩ :=
      resultType_of_not_orderMatters h' (mt (orderMatters_perm hcounted).mp hno)
    have hbytes : q'.bytes = q.bytes := by
      simp only [hcounted.mem_iff] at hsize'
      exact Nat.le_antisymm ((hsize' _).mpr ((hsize _).mp (Nat.le_refl _)))
        ((hsize _).mpr ((hsize' _).mp (Nat.le_refl _)))
    rw [hq, hq', eq_of_floatBytes (d := .float q') (e := .float q) rfl rfl hbytes]
  · push Not at h
    exact promoteAll_perm hcounted fun d hd => h d (hcounted.mem_iff.mp hd)

/-! ### Orders that differ -/

/-- An operand that counts can be put first. -/
theorem exists_perm_first {ops : List OperandType} {f : DType} (hf : f ∈ counted ops) :
    ∃ ops', ops'.Perm ops ∧ (counted ops').head? = some f := by
  obtain ⟨o, ho, rfl⟩ := List.mem_map.mp hf
  obtain ⟨hmem, hkeep⟩ := List.mem_filter.mp ho
  obtain ⟨xs, ys, rfl⟩ := List.append_of_mem hmem
  have hperm : (o :: (xs ++ ys)).Perm (xs ++ o :: ys) := List.perm_middle.symm
  refine ⟨_, hperm, ?_⟩
  rw [counted, scalarsCount_perm hperm, List.filter_cons, if_pos hkeep]
  rfl

/-- All operands but the floats can be put first. -/
theorem exists_perm_leading (ops : List OperandType) :
    ∃ ops', ops'.Perm ops ∧
      ∀ d ∈ counted ops, d.category ≠ .float → d ∈ leading (counted ops') := by
  have hperm := List.filter_append_perm (fun o => decide (o.dtype.category ≠ .float)) ops
  refine ⟨_, hperm, ?_⟩
  intro d hd hne
  obtain ⟨o, ho, rfl⟩ := List.mem_map.mp hd
  obtain ⟨hmem, hkeep⟩ := List.mem_filter.mp ho
  rw [leading, counted, scalarsCount_perm hperm, List.filter_append, List.map_append,
    List.takeWhile_append_of_pos]
  · refine List.mem_append_left _ (List.mem_map_of_mem (List.mem_filter.mpr ⟨?_, hkeep⟩))
    exact List.mem_filter.mpr ⟨hmem, by simpa using hne⟩
  · intro e he
    obtain ⟨o', ho', rfl⟩ := List.mem_map.mp he
    exact (List.mem_filter.mp (List.mem_filter.mp ho').1).2

/-- Where the order matters, some order shows it. -/
theorem exists_perm_ne {ops : List OperandType} (h : OrderMatters (counted ops)) :
    ∃ ops', ops'.Perm ops ∧ resultType ops' ≠ resultType ops := by
  obtain ⟨⟨f, hf, hfloat⟩, d, hd, e, he, hdne, hene, hlarge⟩ := h
  obtain ⟨ops₁, hperm₁, hfirst⟩ := exists_perm_first hf
  obtain ⟨ds, hfirst⟩ := List.head?_eq_some_iff.mp hfirst
  obtain ⟨ops₂, hperm₂, hleading⟩ := exists_perm_leading ops
  -- the float first: no two operands are joined without it
  have hsmall : ∃ q, resultType ops₁ = some (.float q) ∧ q.bytes < (d.promote e).floatBytes := by
    have hmem : ∃ f ∈ counted ops₁, f.category = .float := ⟨f, by simp [hfirst], hfloat⟩
    obtain ⟨q, hq, hsize⟩ := resultType_float hmem
    refine ⟨q, hq, Nat.lt_of_le_pred ?_ ((hsize _).mpr ⟨?_, ?_⟩)⟩
    · exact Nat.lt_of_lt_of_le (by decide) (two_le_floatBytes _)
    · intro x hx
      exact Nat.le_pred_of_lt (hlarge x ((counted_perm hperm₁).mem_iff.mp hx))
    · simp [leading, hfirst, hfloat]
  -- the float last: the two are joined without it
  have hbig : ∃ q, resultType ops₂ = some (.float q) ∧ (d.promote e).floatBytes ≤ q.bytes := by
    have hmem : ∃ f ∈ counted ops₂, f.category = .float :=
      ⟨f, (counted_perm hperm₂).mem_iff.mpr hf, hfloat⟩
    obtain ⟨q, hq, hsize⟩ := resultType_float hmem
    exact ⟨q, hq, ((hsize _).mp (Nat.le_refl _)).2 d (hleading d hd hdne) e (hleading e he hene)⟩
  obtain ⟨q₁, hq₁, hlt⟩ := hsmall
  obtain ⟨q₂, hq₂, hle⟩ := hbig
  by_cases hsame : resultType ops₁ = resultType ops
  · refine ⟨ops₂, hperm₂, fun hsame' => ?_⟩
    have hq : q₁ = q₂ := by
      simpa [hq₁, hq₂] using hsame.trans hsame'.symm
    rw [hq] at hlt
    exact Nat.not_lt_of_le hle hlt
  · exact ⟨ops₁, hperm₁, hsame⟩

/-! ### The bounds of a clip -/

/-- A join that needs a larger float than an operand is one with another. -/
theorem ne_of_floatBytes_lt {d e : DType} (h : d.floatBytes < (d.promote e).floatBytes) :
    d ≠ e := by
  rintro rfl
  rw [promote_self] at h
  exact Nat.lt_irrefl _ h

/-- Among three operands the order matters only if all of them count. -/
theorem counted_eq_of_orderMatters {x y z : OperandType}
    (h : OrderMatters (counted [x, y, z])) : counted [x, y, z] = [x.dtype, y.dtype, z.dtype] := by
  obtain ⟨⟨f, hf, hfloat⟩, d, hd, e, he, hdne, hene, hlarge⟩ := h
  have hde : d ≠ e := ne_of_floatBytes_lt (hlarge d hd)
  have hnodup : [f, d, e].Nodup := by
    have hfd : f ≠ d := fun heq => hdne (heq ▸ hfloat)
    have hfe : f ≠ e := fun heq => hene (heq ▸ hfloat)
    simp [hfd, hfe, hde]
  have hsub : [f, d, e] ⊆ counted [x, y, z] := by simp [hf, hd, he]
  have hsublist : List.Sublist (counted [x, y, z]) [x.dtype, y.dtype, z.dtype] :=
    List.filter_sublist.map _
  exact hsublist.eq_of_length_le (List.subperm_of_subset hnodup hsub).length_le

/-- A float before the join of two operands, or behind it. -/
theorem promote_swap_ne {d x y : DType} (hx : x.category = .float)
    (hlarge : ∀ z ∈ [d, x, y], z.floatBytes < (d.promote y).floatBytes) :
    (d.promote x).promote y ≠ (d.promote y).promote x := by
  intro h
  have hbytes := congrArg floatBytes h
  rw [floatBytes_promote_left (category_promote_right d hx), floatBytes_promote_right _ hx,
    floatBytes_promote_right _ hx] at hbytes
  simp only [List.forall_mem_cons] at hlarge
  omega

/-- The last two of three operands may be exchanged unless the order matters
and the first is no float. -/
theorem promote_swap_iff {d x y : DType} (h : OrderMatters [d, x, y]) :
    (d.promote x).promote y = (d.promote y).promote x ↔ d.category = .float := by
  refine ⟨fun hsame => ?_, fun hd => promote_right_comm hd x y⟩
  by_contra hd
  obtain ⟨⟨f, hf, hfloat⟩, a, ha, b, hb, hane, hbne, hlarge⟩ := h
  have hab : a ≠ b := ne_of_floatBytes_lt (hlarge a ha)
  -- if one of the last two is a float, then the pair is the first and the other
  have hpair : ∀ u v, u.category = .float → [d, x, y].Perm [d, u, v] →
      a.promote b = d.promote v := by
    intro u v hu hperm
    have hmem : ∀ z, z ∈ [d, x, y] → z.category ≠ .float → z = d ∨ z = v := by
      intro z hz hne
      have hz' : z = d ∨ z = u ∨ z = v := by simpa using hperm.mem_iff.mp hz
      rcases hz' with hz | rfl | hz
      · exact .inl hz
      · exact absurd hu hne
      · exact .inr hz
    rcases hmem a ha hane with rfl | rfl <;> rcases hmem b hb hbne with rfl | rfl
    · exact absurd rfl hab
    · rfl
    · exact promote_comm _ _
    · exact absurd rfl hab
  have hf' : f = d ∨ f = x ∨ f = y := by simpa using hf
  rcases hf' with rfl | rfl | rfl
  · exact hd hfloat
  · rw [hpair f y hfloat (List.Perm.refl _)] at hlarge
    exact promote_swap_ne hfloat hlarge hsame
  · have hperm : [d, x, f].Perm [d, f, x] := (List.Perm.swap f x []).cons d
    rw [hpair f x hfloat hperm] at hlarge
    exact promote_swap_ne hfloat (fun z hz => hlarge z (hperm.mem_iff.mpr hz)) hsame.symm

theorem clip_swap_iff (x lo hi : OperandType) :
    Ufunc.clip.resolve [x, lo, hi] = Ufunc.clip.resolve [x, hi, lo] ↔
      ¬ (OrderMatters (counted [x, lo, hi]) ∧ x.dtype.category ≠ .float) := by
  have hloop : ∀ a b c : OperandType, Ufunc.clip.resolve [a, b, c] =
      .ok (.uniform 3 (Ufunc.common [a, b, c]) [Ufunc.common [a, b, c]]) := fun _ _ _ => rfl
  have hperm : [x, hi, lo].Perm [x, lo, hi] := (List.Perm.swap _ _ _).cons x
  rw [hloop, hloop]
  by_cases h : OrderMatters (counted [x, lo, hi])
  · have hcounted := counted_eq_of_orderMatters h
    have hcounted' := counted_eq_of_orderMatters ((orderMatters_perm (counted_perm hperm)).mpr h)
    have hswap := promote_swap_iff (hcounted ▸ h)
    simp [Ufunc.common, resultType_eq_promoteAll, hcounted, hcounted', promoteAll, Loop.uniform,
      hswap, hcounted ▸ h]
  · rw [Ufunc.common, Ufunc.common, resultType_perm_of_not_orderMatters hperm h]
    simp [h]

/-- **When the order of operands matters.**  The common dtype is the same for
every order of the operands if and only if it is not the case that a float
counts and two others whose join needs a larger float than every operand that
counts.  In that case every order gives a float: the smallest one that holds
each operand that counts and the join of any two in front of the first float.
The bounds of a clip may be exchanged unless the order matters and the clipped
operand is no float. -/
theorem resultType_order (ops : List OperandType) :
    ((∀ ops' : List OperandType, ops'.Perm ops → resultType ops' = resultType ops) ↔
      ¬ OrderMatters (counted ops)) ∧
    (OrderMatters (counted ops) → ∀ ops' : List OperandType, ops'.Perm ops →
      ∃ q, resultType ops' = some (.float q) ∧ ∀ n, q.bytes ≤ n ↔
        (∀ d ∈ counted ops', d.floatBytes ≤ n) ∧
          ∀ d ∈ leading (counted ops'), ∀ e ∈ leading (counted ops'),
            (d.promote e).floatBytes ≤ n) ∧
    ∀ x lo hi : OperandType,
      Ufunc.clip.resolve [x, lo, hi] = Ufunc.clip.resolve [x, hi, lo] ↔
        ¬ (OrderMatters (counted [x, lo, hi]) ∧ x.dtype.category ≠ .float) := by
  refine ⟨⟨?_, ?_⟩, ?_, clip_swap_iff⟩
  · intro hsame hmatters
    obtain ⟨ops', hperm, hne⟩ := exists_perm_ne hmatters
    exact hne (hsame ops' hperm)
  · intro hno ops' hperm
    exact resultType_perm_of_not_orderMatters hperm hno
  · intro hmatters ops' hperm
    exact resultType_float ((orderMatters_perm (counted_perm hperm)).mpr hmatters).1

/-- Arrays of sixteen bits without a sign and of eight with one, and scalars of
half and single precision: double precision with the integers in front, single
precision with a float between them. -/
theorem resultType_order_between :
    let u : OperandType := ⟨.uint .w16, false⟩
    let i : OperandType := ⟨.int .w8, false⟩
    let h : OperandType := ⟨.float .half, true⟩
    let f : OperandType := ⟨.float .single, true⟩
    OrderMatters (counted [u, i, h, f]) ∧
      (∃ q, resultType [u, i, h, f] = some (.float q) ∧ ¬ q.bytes ≤ 4) ∧
      ∃ q, resultType [u, f, i, h] = some (.float q) ∧ q.bytes ≤ 4 := by
  intro u i h f
  have hmatters : OrderMatters (counted [u, i, h, f]) := by decide
  have hperm : [u, f, i, h].Perm [u, i, h, f] := by decide
  obtain ⟨-, hfloat, -⟩ := resultType_order [u, i, h, f]
  obtain ⟨q, hq, hsize⟩ := hfloat hmatters _ (List.Perm.refl _)
  obtain ⟨r, hr, hsize'⟩ := hfloat hmatters _ hperm
  exact ⟨hmatters, ⟨q, hq, mt (hsize 4).mp (by decide)⟩, r, hr, (hsize' 4).mpr (by decide)⟩

/-- Two bytes of either sign and a float of half precision: the common dtype
depends on their order, and so does the loop of a clip on that of its bounds. -/
theorem order_changes_resultType :
    let i : OperandType := ⟨.int .w8, false⟩
    let u : OperandType := ⟨.uint .w8, false⟩
    let h : OperandType := ⟨.float .half, false⟩
    [i, h, u].Perm [i, u, h] ∧
      resultType [i, u, h] = some (.float .single) ∧ resultType [i, h, u] = some (.float .half) ∧
      Ufunc.clip.resolve [i, u, h] = .ok (.uniform 3 (.float .single) [.float .single]) ∧
      Ufunc.clip.resolve [i, h, u] = .ok (.uniform 3 (.float .half) [.float .half]) := by
  intro i u h
  exact ⟨by decide, by decide, by decide, rfl, rfl⟩

end ArrayFusion.DType
