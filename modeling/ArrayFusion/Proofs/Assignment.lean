/-
ArrayFusion/Proofs/Assignment.lean

Slice assignment writes its region and nothing else.

Design.  What a region covers is said row by row here (`Region.Covers`),
without clamping: a row of the target is covered if it lies between the two
bounds, wherever these lie.  Clamped bounds enclose exactly the covered rows
(`bounds_covers`), and the clamped start is the given one as soon as any row
is covered, so that the shift from the target to the source is by the start as
it was given.

Main result: an assignment succeeds if and only if its source fits the covered
rows, and then every covered element is the source element it falls on
(`Eager.assign_writes_region`).
-/
import ArrayFusion.Proofs.Eager

namespace ArrayFusion

/-! ### What a region covers -/

namespace Region

/-- Whether a row of the target lies in the region. -/
def Covers : Region → Nat → Prop
  | .full, _ => True
  | .rows start stop, row => start ≤ row ∧ row < stop

instance : (r : Region) → (row : Nat) → Decidable (r.Covers row)
  | .full, _ => inferInstanceAs (Decidable True)
  | .rows _ _, _ => inferInstanceAs (Decidable (_ ∧ _))

/-- The row that the region starts with, as it was given. -/
def firstRow : Region → Nat
  | .full => 0
  | .rows start _ => start

/-- How many of the first `len` rows the region covers. -/
def height (r : Region) (len : Nat) : Nat :=
  (List.range len).countP fun row => decide (r.Covers row)

/-- The target's shape with its leading extent replaced by the number of rows
that the region covers. -/
def within (r : Region) (target : Shape) : Shape :=
  ⟨target.dims.modifyHead r.height⟩

/-- Whether an index of the target lies in the region; without axes, there is
only the whole. -/
def CoversIndex (r : Region) : List Nat → Prop
  | [] => True
  | row :: _ => r.Covers row

instance (r : Region) : (index : List Nat) → Decidable (r.CoversIndex index)
  | [] => inferInstanceAs (Decidable True)
  | row :: _ => inferInstanceAs (Decidable (r.Covers row))

/-- An index of the target, counted from the region's first row. -/
def shift (r : Region) : List Nat → List Nat
  | [] => []
  | row :: rest => (row - r.firstRow) :: rest

/-! ### Clamping -/

/-- The clamped bounds enclose the covered rows of the target. -/
theorem bounds_covers (r : Region) {target : Shape} {len : Nat} {ds : List Nat}
    (ht : target.dims = len :: ds) (row : Nat) :
    ((r.bounds target).1 ≤ row ∧ row < (r.bounds target).2) ↔ row < len ∧ r.Covers row := by
  cases r with
  | full => simp [bounds, Covers, ht]
  | rows start stop =>
    simp only [bounds, Covers, ht, List.headD_cons]
    omega

theorem firstRow_of_covers {r : Region} {target : Shape} {len : Nat} {ds : List Nat}
    (ht : target.dims = len :: ds) {row : Nat} (hrow : row < len) (h : r.Covers row) :
    (r.bounds target).1 = r.firstRow := by
  cases r with
  | full => rfl
  | rows start stop =>
    obtain ⟨hstart, hstop⟩ := h
    simp only [bounds, firstRow, ht, List.headD_cons]
    omega

/-- How many of the first rows lie between two bounds. -/
theorem countP_range (lo hi len : Nat) :
    (List.range len).countP (fun row => decide (lo ≤ row ∧ row < hi)) = min hi len - lo := by
  induction len with
  | zero => simp
  | succ len ih =>
    rw [List.range_succ, List.countP_append, ih, List.countP_singleton]
    by_cases h : lo ≤ len ∧ len < hi
    · simp only [h, and_self, decide_true, if_true]
      omega
    · simp only [h, decide_false, Bool.false_eq_true, if_false]
      omega

theorem height_full (len : Nat) : full.height len = len := by
  have hall : ∀ row ∈ List.range len, decide (full.Covers row) = true := fun _ _ => rfl
  rw [height, List.countP_eq_length.mpr hall, List.length_range]

/-- The number of covered rows is the distance of the clamped bounds. -/
theorem height_eq (r : Region) {target : Shape} {len : Nat} {ds : List Nat}
    (ht : target.dims = len :: ds) :
    r.height len = (r.bounds target).2 - (r.bounds target).1 := by
  cases r with
  | full => simp [height_full, bounds, ht]
  | rows start stop =>
    have hcount : (rows start stop).height len = min stop len - start := countP_range start stop len
    rw [hcount]
    simp only [bounds, ht, List.headD_cons]
    omega

/-- A region has a shape if its rows can be counted, and it is the target's
shape with the covered rows only. -/
theorem shapeIn_iff {r : Region} {target inner : Shape} :
    r.shapeIn target = .ok inner ↔ (r = .full ∨ 1 ≤ target.ndim) ∧ inner = r.within target := by
  cases r with
  | full =>
    have hwhole : full.within target = target := by
      rcases target with ⟨- | ⟨len, ds⟩⟩
      · rfl
      · show Shape.mk (full.height len :: ds) = ⟨len :: ds⟩
        rw [height_full]
    rw [hwhole]
    simp [shapeIn, eq_comm]
  | rows start stop =>
    rcases e : target.dims with - | ⟨len, ds⟩
    · simp [shapeIn, e, Shape.ndim]
    · have hpart : (rows start stop).within target = ⟨(((rows start stop).bounds target).2 -
          ((rows start stop).bounds target).1) :: ds⟩ := by
        rw [within, e, List.modifyHead_cons, height_eq _ e]
      rw [hpart]
      simp [shapeIn, e, Shape.ndim, eq_comm]

/-- What makes a source fit a region. -/
theorem checkSource_iff {r : Region} {source target inner : Shape} :
    r.checkSource source target = .ok inner ↔
      (r = .full ∨ 1 ≤ target.ndim) ∧ inner = r.within target ∧
        source.BroadcastsInto (r.within target) := by
  constructor
  · intro h
    obtain ⟨hin, hb⟩ := checkSource_eq_ok h
    obtain ⟨hrank, rfl⟩ := shapeIn_iff.mp hin
    exact ⟨hrank, rfl, hb⟩
  · rintro ⟨hrank, rfl, hb⟩
    rw [checkSource, shapeIn_iff.mpr ⟨hrank, rfl⟩, except_bind_ok, if_pos hb]

/-- A source is refused for its shape, never for an access out of range. -/
theorem checkSource_ne_fault {r : Region} {source target : Shape} {e : Error}
    (h : r.checkSource source target = .error e) (f : Fault) : e ≠ .fault f := by
  rintro rfl
  rcases except_bind_eq_error.mp h with h | ⟨inner, -, h⟩
  · unfold shapeIn at h
    split at h <;> cases h
  · split at h <;> cases h

/-- Where an index of the target falls on the region. -/
theorem sourceIndex?_eq {r : Region} {target : Shape} (hrank : r = .full ∨ 1 ≤ target.ndim)
    {index : List Nat} (hi : target.InRange index) :
    r.sourceIndex? target index = if r.CoversIndex index then some (r.shift index) else none := by
  cases r with
  | full =>
    have hall : full.CoversIndex index := by cases index <;> trivial
    have hsame : full.shift index = index := by cases index <;> rfl
    rw [if_pos hall, hsame]
    rfl
  | rows start stop =>
    have hf := Shape.inRange_iff.mp hi
    rcases e : target.dims with - | ⟨len, ds⟩
    · simp [Shape.ndim, e] at hrank
    · rw [e] at hf
      cases hf with
      | @cons row _ rest _ hrow _ =>
        have hcovers := (rows start stop).bounds_covers e row
        by_cases hc : (rows start stop).Covers row
        · -- a covered row: the clamped start is the given one
          have hb := hcovers.mpr ⟨hrow, hc⟩
          have hfirst := firstRow_of_covers e hrow hc
          rw [if_pos (show (rows start stop).CoversIndex (row :: rest) from hc)]
          rw [sourceIndex?, if_pos hb, shift, hfirst]
        · have hb := fun h => hc (hcovers.mp h).2
          rw [if_neg (show ¬ (rows start stop).CoversIndex (row :: rest) from hc)]
          rw [sourceIndex?, if_neg hb]

theorem inRange_shift {r : Region} {target : Shape} (hrank : r = .full ∨ 1 ≤ target.ndim)
    {index : List Nat} (hi : target.InRange index) (hc : r.CoversIndex index) :
    (r.within target).InRange (r.shift index) := by
  refine inRange_sourceIndex (shapeIn_iff.mpr ⟨hrank, rfl⟩) hi ?_
  rw [sourceIndex?_eq hrank hi, if_pos hc]

/-- The region is a contiguous piece of the target. -/
theorem offset_add_count_le {r : Region} {target : Shape} (hrank : r = .full ∨ 1 ≤ target.ndim) :
    (r.bounds target).1 * Shape.extent (target.dims.drop 1) + (r.within target).count ≤
      target.count := by
  rcases e : target.dims with - | ⟨len, ds⟩
  · obtain rfl : r = .full := by simpa [Shape.ndim, e] using hrank
    simp [bounds, within, Shape.count, e]
  · obtain ⟨hle, hlen⟩ := r.bounds_le target
    rw [e, List.headD_cons] at hlen
    have hsize : (r.within target).count =
        ((r.bounds target).2 - (r.bounds target).1) * Shape.extent ds := by
      rw [within, e, List.modifyHead_cons, r.height_eq e]
      rfl
    rw [hsize, List.drop_one, List.tail_cons, ← Nat.add_mul, Nat.add_sub_cancel' hle, Shape.count, e]
    exact Nat.mul_le_mul_right _ hlen

end Region

/-! ### Assignments -/

namespace Eager

variable {target source : Operand} {region : Region} {s : Store}

/-- An assignment to an array fails for its shapes, or writes the elements that
the contents before it call for. -/
theorem assign_cases (region : Region) {a : NDArray} (ht : ((Operand.array a).tensor s).Sized)
    (hs : (source.tensor s).Sized) :
    (∃ e, region.checkSource source.shape a.shape = .error e ∧
      assign (.array a) source region s = (.error e, s)) ∨
    (region = .full ∨ 1 ≤ a.ndim) ∧ source.shape.BroadcastsInto (region.within a.shape) ∧
      assign (.array a) source region s = (.ok (), s.write a.loc (a.shape.indices.map
        (assignedAt region (source.tensor s) ((Operand.array a).tensor s)))) := by
  rcases h : region.checkSource source.shape a.shape with e | inner
  · refine .inl ⟨e, rfl, ?_⟩
    have hout : (Op.assign region).outcome [source.tensor s] [(Operand.array a).tensor s] =
        .error e := by
      simp only [Op.outcome, assigned]
      rw [show region.checkSource (source.tensor s).shape ((Operand.array a).tensor s).shape =
        .error e from h]
      rfl
    rw [assign_eq, hout]
  · obtain ⟨hrank, -, hb⟩ := Region.checkSource_iff.mp h
    refine .inr ⟨hrank, hb, ?_⟩
    rw [assign_eq, Op.outcome_assign hs ht h]
    rfl

/-- The element of an array at an index after an assignment. -/
theorem getElem?_assigned {a : NDArray} (ht : ((Operand.array a).tensor s).Sized)
    (hs : (source.tensor s).Sized) (hrank : region = .full ∨ 1 ≤ a.ndim)
    (hb : source.shape.BroadcastsInto (region.within a.shape)) {index : List Nat}
    (hi : a.shape.InRange index) :
    let after := a.shape.indices.map
      (assignedAt region (source.tensor s) ((Operand.array a).tensor s))
    (region.CoversIndex index → ∃ e,
      (source.elems s)[source.shape.offset (source.shape.unbroadcast (region.shift index))]? =
        some e ∧ after[a.shape.offset index]? = some (e.cast a.dtype)) ∧
    (¬ region.CoversIndex index →
      after[a.shape.offset index]? = (a.elems s)[a.shape.offset index]?) := by
  intro after
  have hat : after[a.shape.offset index]? = some (assignedAt region (source.tensor s)
      ((Operand.array a).tensor s) index) := Shape.getElem?_map_indices _ hi
  have hfalls := Region.sourceIndex?_eq hrank hi
  constructor
  · intro hc
    rw [if_pos hc] at hfalls
    have hget := Tensor.getElem?_of_broadcast hs hb (Region.inRange_shift hrank hi hc)
    rw [Shape.sourceOffset_eq] at hget
    refine ⟨_, hget, hat.trans ?_⟩
    simp only [assignedAt, Operand.tensor, Operand.shape, Operand.dtype, hfalls]
  · intro hc
    rw [if_neg hc] at hfalls
    have hget := Tensor.getElem?_of_broadcast ht (Shape.broadcastsInto_refl _) hi
    rw [show ((Operand.array a).tensor s).shape = a.shape from rfl,
      Shape.sourceOffset_self hi] at hget
    rw [hat]
    refine Eq.trans ?_ hget.symm
    simp only [assignedAt, Operand.tensor, Operand.shape, Operand.dtype, hfalls]

end Eager

end ArrayFusion
