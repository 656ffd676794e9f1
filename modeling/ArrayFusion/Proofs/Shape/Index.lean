/-
ArrayFusion/Proofs/Shape/Index.lean

Multi-indices, offsets, and the index maps of broadcasting.

Design.  `offsetIn` is the row-major offset by recursion on the extents; the
folds that run are shown equal to it once (`offset_eq`, `sourceOffset_eq`).
After that an index of a shape is a list related to the extents by `<`
(`inRange_iff`), and every fact is an induction on that relation.

Main results: offsets of indices in range are below the number of elements and
determine the index (`offset_lt_count`, `offset_inj`), `unravel` inverts
`offset`, and an index of a shape pulls back along broadcasting to an index of
the smaller shape, in two steps as in one (`inRange_unbroadcast`,
`unbroadcast_unbroadcast`).
-/
import ArrayFusion.Shape.Index
import ArrayFusion.Proofs.Shape.Broadcast

namespace ArrayFusion.Shape

theorem extent_append (xs ys : List Nat) : extent (xs ++ ys) = extent xs * extent ys := by
  induction xs with
  | nil => simp
  | cons x xs ih => rw [List.cons_append, extent_cons, extent_cons, ih, Nat.mul_assoc]

/-! ### Offsets by recursion -/

/-- Row-major offset of an index along the given extents. -/
def offsetIn : (dims index : List Nat) → Nat
  | _ :: ds, i :: is => i * extent ds + offsetIn ds is
  | _, _ => 0

@[simp] theorem offsetIn_nil (index : List Nat) : offsetIn [] index = 0 := by
  cases index <;> rfl

@[simp] theorem offsetIn_cons (d i : Nat) (ds is : List Nat) :
    offsetIn (d :: ds) (i :: is) = i * extent ds + offsetIn ds is := rfl

/-- The fold of `offset` with any start is an offset behind that many blocks. -/
theorem foldl_offset {index dims : List Nat} (h : index.length = dims.length) (acc : Nat) :
    (index.zip dims).foldl (fun acc p => acc * p.2 + p.1) acc =
      acc * extent dims + offsetIn dims index := by
  induction dims generalizing index acc with
  | nil =>
    obtain rfl := List.length_eq_zero_iff.mp h
    simp
  | cons d ds ih =>
    obtain ⟨i, is, rfl⟩ := List.exists_cons_of_length_eq_add_one h
    rw [List.zip_cons_cons, List.foldl_cons, ih (by simpa using h)]
    simp only [offsetIn_cons, extent_cons]
    rw [Nat.add_mul, Nat.mul_assoc, Nat.add_assoc]

theorem offset_eq {s : Shape} {index : List Nat} (h : index.length = s.ndim) :
    s.offset index = offsetIn s.dims index := by
  rw [offset, foldl_offset h, Nat.zero_mul, Nat.zero_add]

/-! ### Indices in range -/

/-- An index of a shape is below the extents, axis by axis. -/
theorem inRange_iff {s : Shape} {index : List Nat} :
    s.InRange index ↔ List.Forall₂ (· < ·) index s.dims := by
  rw [InRange, List.forall₂_iff_zip]
  constructor
  · rintro ⟨hlen, h⟩
    exact ⟨hlen, fun hm => h _ hm⟩
  · rintro ⟨hlen, h⟩
    exact ⟨hlen, fun p hm => h hm⟩

theorem InRange.length_eq {s : Shape} {index : List Nat} (h : s.InRange index) :
    index.length = s.ndim := h.1

theorem offsetIn_lt_extent {index dims : List Nat} (h : List.Forall₂ (· < ·) index dims) :
    offsetIn dims index < extent dims := by
  induction h with
  | nil => simp
  | @cons i d is ds hi _ ih =>
    rw [offsetIn_cons, extent_cons]
    calc i * extent ds + offsetIn ds is < i * extent ds + extent ds := by omega
      _ = (i + 1) * extent ds := by rw [Nat.add_mul, Nat.one_mul]
      _ ≤ d * extent ds := Nat.mul_le_mul_right _ hi

/-- The offset of an index of a shape is below its number of elements. -/
theorem offset_lt_count {s : Shape} {index : List Nat} (h : s.InRange index) :
    s.offset index < s.count := by
  rw [offset_eq h.length_eq]
  exact offsetIn_lt_extent (inRange_iff.mp h)

theorem offsetIn_inj {i j dims : List Nat} (hi : List.Forall₂ (· < ·) i dims)
    (hj : List.Forall₂ (· < ·) j dims) (h : offsetIn dims i = offsetIn dims j) : i = j := by
  induction hi generalizing j with
  | nil =>
    cases hj
    rfl
  | @cons a d is ds _ his ih =>
    cases hj with
    | @cons b _ js _ _ hjs =>
      rw [offsetIn_cons, offsetIn_cons] at h
      have hlt := offsetIn_lt_extent his
      have hlt' := offsetIn_lt_extent hjs
      have hpos : 0 < extent ds := by omega
      have hq : a = b := by
        have h1 := congrArg (· / extent ds) h
        simp only [Nat.mul_comm _ (extent ds), Nat.mul_add_div hpos, Nat.div_eq_of_lt hlt,
          Nat.div_eq_of_lt hlt'] at h1
        omega
      subst hq
      rw [ih hjs (by omega)]

/-- Offsets determine the index. -/
theorem offset_inj {s : Shape} {i j : List Nat} (hi : s.InRange i) (hj : s.InRange j)
    (h : s.offset i = s.offset j) : i = j := by
  rw [offset_eq hi.length_eq, offset_eq hj.length_eq] at h
  exact offsetIn_inj (inRange_iff.mp hi) (inRange_iff.mp hj) h

/-! ### Taking offsets apart -/

/-- What `unravelFrom` leaves over, and what its coordinates say about the
offset. -/
theorem unravelFrom_spec (dims : List Nat) (h : 0 < extent dims) (flat : Nat) :
    List.Forall₂ (· < ·) (unravelFrom dims flat).1 dims ∧
      (unravelFrom dims flat).2 = flat / extent dims ∧
      offsetIn dims (unravelFrom dims flat).1 = flat % extent dims := by
  induction dims with
  | nil => simp [unravelFrom, Nat.mod_one]
  | cons d ds ih =>
    rw [extent_cons] at h
    have hd : d ≠ 0 := by
      rintro rfl
      simp at h
    have hds : 0 < extent ds := Nat.pos_of_mul_pos_left h
    obtain ⟨hr, hq, ho⟩ := ih hds
    simp only [unravelFrom, if_neg hd]
    refine ⟨.cons (Nat.mod_lt _ (Nat.pos_of_ne_zero hd)) hr, ?_, ?_⟩
    · rw [hq, extent_cons, Nat.div_div_eq_div_mul, Nat.mul_comm]
    · rw [offsetIn_cons, hq, ho, extent_cons, Nat.mul_comm d, Nat.mod_mul, Nat.mul_comm (extent ds)]
      omega

theorem inRange_unravel {s : Shape} {flat : Nat} (h : flat < s.count) :
    s.InRange (s.unravel flat) :=
  inRange_iff.mpr (unravelFrom_spec s.dims (by rw [count] at h; omega) flat).1

theorem offset_unravel {s : Shape} {flat : Nat} (h : flat < s.count) :
    s.offset (s.unravel flat) = flat := by
  rw [offset_eq (inRange_unravel h).length_eq]
  obtain ⟨-, -, ho⟩ := unravelFrom_spec s.dims (by rw [count] at h; omega) flat
  rw [unravel, ho]
  exact Nat.mod_eq_of_lt h

theorem unravel_offset {s : Shape} {index : List Nat} (h : s.InRange index) :
    s.unravel (s.offset index) = index :=
  offset_inj (inRange_unravel (offset_lt_count h)) h (offset_unravel (offset_lt_count h))

/-! ### All indices -/

@[simp] theorem length_indices (s : Shape) : s.indices.length = s.count := by
  simp [indices]

theorem getElem?_indices {s : Shape} {flat : Nat} (h : flat < s.count) :
    s.indices[flat]? = some (s.unravel flat) := by
  simp [indices, h]

theorem mem_indices_iff {s : Shape} {index : List Nat} :
    index ∈ s.indices ↔ s.InRange index := by
  rw [indices, List.mem_map]
  constructor
  · rintro ⟨flat, hf, rfl⟩
    exact inRange_unravel (List.mem_range.mp hf)
  · intro h
    exact ⟨s.offset index, List.mem_range.mpr (offset_lt_count h), unravel_offset h⟩

/-- The element that a list made over all indices has at an index. -/
theorem getElem?_map_indices {α : Type} {s : Shape} (f : List Nat → α) {index : List Nat}
    (h : s.InRange index) : (s.indices.map f)[s.offset index]? = some (f index) := by
  rw [List.getElem?_map, getElem?_indices (offset_lt_count h), unravel_offset h, Option.map_some]

/-! ### Pulling indices back along broadcasting -/

/-- An index of the larger shape ends in one of the axes that are fitted. -/
theorem exists_trailing {s t : Shape} (h : s.BroadcastsInto t) {index : List Nat}
    (hi : t.InRange index) :
    ∃ mid, List.Forall₂ Fits s.dims mid ∧ List.Forall₂ (· < ·) (s.trailing index) mid := by
  obtain ⟨lead, mid, ht, hf⟩ := broadcastsInto_iff.mp h
  refine ⟨mid, hf, ?_⟩
  have hr := inRange_iff.mp hi
  rw [ht] at hr
  have hd := List.forall₂_drop lead.length hr
  have hl : index.length = lead.length + mid.length := by
    rw [hr.length_eq, List.length_append]
  have hsub : index.length - s.ndim = lead.length := by
    rw [hl, ndim, hf.length_eq, Nat.add_sub_cancel]
  rw [trailing, hsub]
  rwa [List.drop_left' rfl] at hd

theorem pin_lt {i d e : Nat} (h : Fits d e) (hi : i < e) : pin i d < d := by
  unfold pin
  by_cases hd : d = 1
  · rw [if_pos hd]
    omega
  · rw [if_neg hd]
    rcases h with rfl | h1
    · exact hi
    · exact absurd h1 hd

theorem pin_pin {i d e : Nat} (h : Fits d e) : pin (pin i e) d = pin i d := by
  unfold pin
  by_cases hd : d = 1
  · rw [if_pos hd, if_pos hd]
  · rcases h with rfl | h1
    · rw [if_neg hd, if_neg hd]
    · exact absurd h1 hd

theorem pin_eq_self {i d : Nat} (h : i < d) : pin i d = i := by
  unfold pin
  by_cases hd : d = 1
  · rw [if_pos hd]
    omega
  · rw [if_neg hd]

theorem zipWith_pin_lt {is ds es : List Nat} (h : List.Forall₂ Fits ds es)
    (hi : List.Forall₂ (· < ·) is es) : List.Forall₂ (· < ·) (is.zipWith pin ds) ds := by
  induction h generalizing is with
  | nil =>
    cases hi
    exact .nil
  | cons hf _ ih =>
    cases hi with
    | cons hd tl => exact .cons (pin_lt hf hd) (ih tl)

/-- An index of the larger shape gives one of the smaller. -/
theorem inRange_unbroadcast {s t : Shape} (h : s.BroadcastsInto t) {index : List Nat}
    (hi : t.InRange index) : s.InRange (s.unbroadcast index) := by
  obtain ⟨mid, hf, hm⟩ := exists_trailing h hi
  exact inRange_iff.mpr (zipWith_pin_lt hf hm)

/-- An index of the shape itself is left alone. -/
theorem unbroadcast_self {s : Shape} {index : List Nat} (h : s.InRange index) :
    s.unbroadcast index = index := by
  rw [unbroadcast, trailing, h.length_eq, Nat.sub_self, List.drop_zero]
  have hr := inRange_iff.mp h
  clear h
  generalize s.dims = ds at hr
  induction hr with
  | nil => rfl
  | cons hd _ ih => rw [List.zipWith_cons_cons, pin_eq_self hd, ih]

theorem zipWith_pin_pin {is ds es : List Nat} (h : List.Forall₂ Fits ds es) :
    (is.zipWith pin es).zipWith pin ds = is.zipWith pin ds := by
  induction h generalizing is with
  | nil => simp
  | cons hf _ ih =>
    cases is with
    | nil => rfl
    | cons i is => rw [List.zipWith_cons_cons, List.zipWith_cons_cons, List.zipWith_cons_cons,
        pin_pin hf, ih]

theorem length_trailing {s t : Shape} (h : s.BroadcastsInto t) {index : List Nat}
    (hi : t.InRange index) : (s.trailing index).length = s.dims.length := by
  obtain ⟨mid, hf, hm⟩ := exists_trailing h hi
  rw [hm.length_eq, hf.length_eq]

theorem trailing_trailing {s t : Shape} {index : List Nat} (hle : s.ndim ≤ t.ndim)
    (h : (t.trailing index).length = t.ndim) :
    s.trailing (t.trailing index) = s.trailing index := by
  rw [trailing, h, trailing, trailing, List.drop_drop]
  rw [trailing, List.length_drop] at h
  congr 1
  omega

theorem trailing_zipWith {s : Shape} {is lead mid : List Nat} (hm : mid.length = s.ndim)
    (h : is.length = (lead ++ mid).length) :
    s.trailing (is.zipWith pin (lead ++ mid)) = (s.trailing is).zipWith pin mid := by
  rw [trailing, List.length_zipWith, h, Nat.min_self, List.drop_zipWith, trailing, h]
  congr 1
  rw [List.length_append, hm, Nat.add_sub_cancel]
  exact List.drop_left' rfl

/-- Pulling an index back in two steps is pulling it back in one. -/
theorem unbroadcast_unbroadcast {s t u : Shape} (h : s.BroadcastsInto t)
    (h' : t.BroadcastsInto u) {index : List Nat} (hi : u.InRange index) :
    s.unbroadcast (t.unbroadcast index) = s.unbroadcast index := by
  obtain ⟨lead, mid, ht, hf⟩ := broadcastsInto_iff.mp h
  have hle : s.ndim ≤ t.ndim := by
    rw [ndim, ndim, ht, List.length_append, hf.length_eq]
    omega
  have hl := length_trailing h' hi
  have hdrop : s.trailing (t.unbroadcast index) = (s.trailing index).zipWith pin mid := by
    rw [unbroadcast, ht, trailing_zipWith hf.length_eq.symm (by rw [hl, ht]),
      trailing_trailing hle hl]
  rw [unbroadcast, hdrop, zipWith_pin_pin hf, unbroadcast]

theorem foldl_unbroadcast (dims is : List Nat) (acc : Nat) :
    (is.zip dims).foldl (fun acc p => acc * p.2 + pin p.1 p.2) acc =
      ((is.zipWith pin dims).zip dims).foldl (fun acc p => acc * p.2 + p.1) acc := by
  induction dims generalizing is acc with
  | nil => simp
  | cons d ds ih =>
    cases is with
    | nil => rfl
    | cons i is =>
      rw [List.zip_cons_cons, List.foldl_cons, ih]
      rfl

/-- The offset read is that of the pulled back index. -/
theorem sourceOffset_eq (s : Shape) (index : List Nat) :
    s.sourceOffset index = s.offset (s.unbroadcast index) :=
  foldl_unbroadcast s.dims (s.trailing index) 0

theorem sourceOffset_lt_count {s t : Shape} (h : s.BroadcastsInto t) {index : List Nat}
    (hi : t.InRange index) : s.sourceOffset index < s.count := by
  rw [sourceOffset_eq]
  exact offset_lt_count (inRange_unbroadcast h hi)

theorem sourceOffset_self {s : Shape} {index : List Nat} (h : s.InRange index) :
    s.sourceOffset index = s.offset index := by
  rw [sourceOffset_eq, unbroadcast_self h]

end ArrayFusion.Shape
