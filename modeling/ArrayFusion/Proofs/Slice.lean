/-
ArrayFusion/Proofs/Slice.lean

Slice assignment element by element.

Design.  `Region.sourceIndex?` says which index of the region an index of the
target falls on.  A block of rows is a contiguous piece of the row-major
order, so splicing new elements in at its offset changes exactly the indices
that fall on the region (`splice_rows`); a whole array is the case without
anything around the piece.
-/
import ArrayFusion.Proofs.Tensor

namespace ArrayFusion

/-! ### Regions -/

namespace Region

/-- The index of the region that an index of the target falls on. -/
def sourceIndex? (r : Region) (target : Shape) (own : List Nat) : Option (List Nat) :=
  match r, own with
  | .full, _ => some own
  | .rows _ _, [] => none
  | .rows _ _, row :: rest =>
    let b := r.bounds target
    if b.1 ≤ row ∧ row < b.2 then some ((row - b.1) :: rest) else none

theorem bounds_le (r : Region) (target : Shape) :
    (r.bounds target).1 ≤ (r.bounds target).2 ∧
      (r.bounds target).2 ≤ target.dims.headD 1 := by
  cases r with
  | full => exact ⟨Nat.zero_le _, Nat.le_refl _⟩
  | rows start stop => exact ⟨Nat.min_le_right _ _, Nat.min_le_right _ _⟩

theorem checkSource_eq_ok {r : Region} {source target inner : Shape}
    (h : r.checkSource source target = .ok inner) :
    r.shapeIn target = .ok inner ∧ source.BroadcastsInto inner := by
  obtain ⟨mid, hmid, h⟩ := except_bind_eq_ok.mp h
  split at h
  · next hb =>
    cases h
    exact ⟨hmid, hb⟩
  · cases h

/-- A region of rows is a block of the target's leading axis. -/
theorem shapeIn_rows {start stop : Nat} {target inner : Shape}
    (h : (rows start stop).shapeIn target = .ok inner) :
    ∃ len ds, target.dims = len :: ds ∧
      inner.dims = (((rows start stop).bounds target).2 - ((rows start stop).bounds target).1) :: ds := by
  rcases e : target.dims with - | ⟨len, ds⟩
  · simp [shapeIn, e] at h
  · simp only [shapeIn, e] at h
    cases h
    exact ⟨len, ds, rfl, rfl⟩

/-- What falls on the region is an index of the region's shape. -/
theorem inRange_sourceIndex {r : Region} {target inner : Shape} (h : r.shapeIn target = .ok inner)
    {own index : List Nat} (ho : target.InRange own) (hi : r.sourceIndex? target own = some index) :
    inner.InRange index := by
  cases r with
  | full =>
    cases h
    cases hi
    exact ho
  | rows start stop =>
    obtain ⟨len, ds, ht, hin⟩ := shapeIn_rows h
    have hr := Shape.inRange_iff.mp ho
    rw [ht] at hr
    cases hr with
    | cons _ hrest =>
      simp only [sourceIndex?] at hi
      split at hi
      · next hb =>
        cases hi
        rw [Shape.inRange_iff, hin]
        exact .cons (by omega) hrest
      · cases hi

end Region

/-! ### Blocks of rows -/

/-- Splicing in a list that fits succeeds. -/
theorem splice_eq_ok {data values : List Elem} {offset : Nat}
    (h : offset + values.length ≤ data.length) :
    Eager.splice data offset values =
      .ok (data.take offset ++ values ++ data.drop (offset + values.length)) := by
  by_cases h0 : values.length = 0
  · rw [Eager.splice, if_pos h0, List.length_eq_zero_iff.mp h0]
    simp
  · rw [Eager.splice, if_neg h0, if_pos h]

/-- The elements of a list with another one spliced in, by position. -/
theorem getElem?_spliced {data values : List α} {offset : Nat}
    (h : offset + values.length ≤ data.length) (k : Nat) :
    (data.take offset ++ values ++ data.drop (offset + values.length))[k]? =
      if k < offset then data[k]? else if k < offset + values.length then values[k - offset]?
        else data[k]? := by
  have htake : (data.take offset).length = offset := by
    rw [List.length_take]
    omega
  rw [List.append_assoc]
  by_cases hfront : k < offset
  · rw [if_pos hfront, List.getElem?_append_left (by rw [htake]; exact hfront),
      List.getElem?_take_of_lt hfront]
  · rw [if_neg hfront, List.getElem?_append_right (by rw [htake]; omega), htake]
    by_cases hinside : k < offset + values.length
    · rw [if_pos hinside, List.getElem?_append_left (by omega)]
    · rw [if_neg hinside, List.getElem?_append_right (by omega), List.getElem?_drop]
      congr 1
      omega

/-- A position lies in the first rows if its row is one of them. -/
theorem lt_rows_iff {row extent offset n : Nat} (h : offset < extent) :
    row * extent + offset < n * extent ↔ row < n := by
  constructor
  · intro hlt
    exact Nat.lt_of_mul_lt_mul_right (Nat.lt_of_le_of_lt (Nat.le_add_right _ offset) hlt)
  · intro hlt
    have hle := Nat.mul_le_mul_right extent hlt
    rw [Nat.succ_mul] at hle
    omega

/-- An index of a shape with a leading axis, by its row. -/
theorem exists_row {target : Shape} {len : Nat} {ds : List Nat} (ht : target.dims = len :: ds)
    {flat : Nat} (h : flat < target.count) :
    ∃ row rest, target.unravel flat = row :: rest ∧ row < len ∧
      List.Forall₂ (· < ·) rest ds ∧ flat = row * Shape.extent ds + Shape.offsetIn ds rest := by
  have hr := Shape.inRange_unravel h
  have hflat := Shape.offset_unravel h
  rw [Shape.offset_eq hr.length_eq, ht] at hflat
  have hf := Shape.inRange_iff.mp hr
  rw [ht] at hf
  rcases e : target.unravel flat with - | ⟨row, rest⟩
  · rw [e] at hf
    cases hf
  · rw [e] at hf hflat
    cases hf with
    | cons hrow hrest => exact ⟨row, rest, rfl, hrow, hrest, hflat.symm⟩

/-- Elements spliced in at the offset of a block of rows, by index. -/
theorem splice_rows {t : Tensor} (ht : t.Sized) {len lo hi : Nat} {ds : List Nat}
    (hd : t.shape.dims = len :: ds) (hlo : lo ≤ hi) (hhi : hi ≤ len) (g : List Nat → Elem) :
    Eager.splice t.data (lo * Shape.extent ds)
        ((Shape.mk ((hi - lo) :: ds)).indices.map g) =
      .ok (t.shape.indices.map fun own =>
        match own with
        | row :: rest => if lo ≤ row ∧ row < hi then g ((row - lo) :: rest) else t.get own
        | [] => t.get own) := by
  have hlen : ((Shape.mk ((hi - lo) :: ds)).indices.map g).length = (hi - lo) * Shape.extent ds := by
    rw [List.length_map, Shape.length_indices]
    rfl
  have hsize : t.data.length = len * Shape.extent ds := by
    rw [ht, Shape.count, hd]
    rfl
  have hend : lo * Shape.extent ds + (hi - lo) * Shape.extent ds = hi * Shape.extent ds := by
    rw [← Nat.add_mul, Nat.add_sub_cancel' hlo]
  have hle : hi * Shape.extent ds ≤ len * Shape.extent ds := Nat.mul_le_mul_right _ hhi
  have hfits : lo * Shape.extent ds + ((Shape.mk ((hi - lo) :: ds)).indices.map g).length ≤
      t.data.length := by
    rw [hlen, hsize, hend]
    exact hle
  rw [splice_eq_ok hfits]
  congr 1
  apply List.ext_getElem?
  intro flat
  rw [getElem?_spliced hfits, hlen, hend]
  by_cases hf : flat < t.shape.count
  · obtain ⟨row, rest, he, -, hrest, rfl⟩ := exists_row hd hf
    have hoff := Shape.offsetIn_lt_extent hrest
    have hget : t.data[row * Shape.extent ds + Shape.offsetIn ds rest]? =
        some (t.get (row :: rest)) := by
      rw [← he, ← Tensor.getElem?_of_broadcast ht (Shape.broadcastsInto_refl _)
        (Shape.inRange_unravel hf), Shape.sourceOffset_self (Shape.inRange_unravel hf),
        Shape.offset_unravel hf]
    rw [List.getElem?_map (l := t.shape.indices), Shape.getElem?_indices hf, Option.map_some, he]
    simp only [lt_rows_iff hoff]
    -- in front of the block, inside, behind it
    by_cases hbefore : row < lo
    · rw [if_pos hbefore, if_neg (by omega), hget]
    · by_cases hin : row < hi
      · have hr : (Shape.mk ((hi - lo) :: ds)).InRange ((row - lo) :: rest) :=
          Shape.inRange_iff.mpr (.cons (by omega) hrest)
        have hrav : row * Shape.extent ds + Shape.offsetIn ds rest - lo * Shape.extent ds =
            (Shape.mk ((hi - lo) :: ds)).offset ((row - lo) :: rest) := by
          have hmul := Nat.mul_le_mul_right (Shape.extent ds) (Nat.le_of_not_lt hbefore)
          rw [Shape.offset_eq hr.length_eq, Shape.offsetIn_cons, Nat.sub_mul]
          omega
        rw [if_neg hbefore, if_pos hin, if_pos ⟨Nat.le_of_not_lt hbefore, hin⟩, hrav,
          Shape.getElem?_map_indices g hr]
      · rw [if_neg hbefore, if_neg hin, if_neg (by omega), hget]
  · have hall : t.data.length ≤ flat := by
      rw [ht]
      exact Nat.le_of_not_lt hf
    rw [if_neg (by omega), if_neg (by omega), List.getElem?_eq_none hall,
      List.getElem?_eq_none (by simpa using hf)]

/-! ### Assignments to tensors -/

/-- The elements of an array after a slice assignment. -/
def assigned (region : Region) (source target : Tensor) : Except Error (List Elem) := do
  let inner ← region.checkSource source.shape target.shape
  let values ← inner.indices.mapM fun index => do
    let e ← Eager.fetch source.data source.shape index
    return e.cast target.dtype
  let start := (region.bounds target.shape).1 * Shape.extent (target.shape.dims.drop 1)
  Eager.splice target.data start values

/-- An element of an array after a slice assignment. -/
def assignedAt (region : Region) (source target : Tensor) (own : List Nat) : Elem :=
  match region.sourceIndex? target.shape own with
  | some index => (source.get index).cast target.dtype
  | none => target.get own

/-- A slice assignment fails only if the source does not fit. -/
theorem assigned_eq_ok {region : Region} {source target : Tensor} {inner : Shape}
    (hs : source.Sized) (ht : target.Sized)
    (h : region.checkSource source.shape target.shape = .ok inner) :
    assigned region source target =
      .ok (target.shape.indices.map (assignedAt region source target)) := by
  obtain ⟨hin, hb⟩ := Region.checkSource_eq_ok h
  have hvalues : (inner.indices.mapM fun index => do
      let e ← Eager.fetch source.data source.shape index
      return e.cast target.dtype) =
      .ok (inner.indices.map fun index => (source.get index).cast target.dtype) := by
    apply mapM_eq_ok_map
    intro index hi
    rw [Tensor.fetch_eq_ok hs hb (Shape.mem_indices_iff.mp hi)]
    rfl
  rw [assigned, h, except_bind_ok, hvalues, except_bind_ok]
  cases region with
  | full =>
    cases hin
    have hlen : (target.shape.indices.map fun index => (source.get index).cast target.dtype).length
        = target.data.length := by
      rw [List.length_map, Shape.length_indices, ht]
    show Eager.splice target.data (0 * _) _ = _
    rw [Nat.zero_mul, splice_eq_ok (by rw [hlen]; omega), hlen, List.drop_of_length_le (by omega)]
    simp only [List.take_zero, List.nil_append, List.append_nil]
    rfl
  | rows start stop =>
    obtain ⟨len, ds, hd, hdims⟩ := Region.shapeIn_rows hin
    obtain ⟨hlo, hhi⟩ := (Region.rows start stop).bounds_le target.shape
    rw [hd] at hhi
    have hinner : inner = Shape.mk ((((Region.rows start stop).bounds target.shape).2 -
        ((Region.rows start stop).bounds target.shape).1) :: ds) := by
      cases inner
      exact congrArg Shape.mk hdims
    dsimp only
    rw [hd, List.drop_one, List.tail_cons, hinner, splice_rows ht hd hlo hhi]
    congr 1
    apply List.map_congr_left
    intro own _
    cases own with
    | nil => rfl
    | cons row rest =>
      simp only [assignedAt, Region.sourceIndex?]
      split <;> rfl

end ArrayFusion
