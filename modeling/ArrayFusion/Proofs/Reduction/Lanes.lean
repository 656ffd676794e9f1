/-
ArrayFusion/Proofs/Reduction/Lanes.lean

Which elements a reduction folds into an element of its result, and in which
order.

Design.  The lane of an index of the result has the elements whose own index
becomes that index when the axis is dropped.  The program finds the slot of
an element from its offset alone; an axis splits an offset into three digits,
and the slot is the offset that is left when the middle digit is dropped
(`slotOf_offset`).  So the elements sent to a slot are those of a lane.  In a
lane only the middle digit changes, which makes the order of offsets that of
the coordinates along the axis (`coordinates_lane`).

Main results: after a run every slot holds the fold of its lane
(`Reduction.slots_eq_fold`), and no slot stays empty (`Reduction.slots_filled`).
-/
import Mathlib.Data.List.GetD
import Mathlib.Data.List.Sort
import Mathlib.Data.List.Zip
import ArrayFusion.Proofs.Reduction

namespace ArrayFusion

/-! ### Dropping an axis of an index -/

namespace Shape

open Reduction (slotOf)

/-- An index without the coordinate along an axis; without all of them if
there is none. -/
def dropAxis : (axis : Option Nat) → (index : List Nat) → List Nat
  | none, _ => []
  | some a, index => index.eraseIdx a

theorem offsetIn_append {xs is : List Nat} (h : is.length = xs.length) (ys js : List Nat) :
    offsetIn (xs ++ ys) (is ++ js) = offsetIn xs is * extent ys + offsetIn ys js := by
  induction xs generalizing is with
  | nil =>
    obtain rfl := List.length_eq_zero_iff.mp h
    simp
  | cons x xs ih =>
    obtain ⟨i, is, rfl⟩ := List.exists_cons_of_length_eq_add_one h
    rw [List.cons_append, List.cons_append, offsetIn_cons, offsetIn_cons, extent_append,
      ih (by simpa using h), Nat.add_mul, Nat.mul_assoc, Nat.add_assoc]

/-- The coordinates before an axis, along it and behind it are three digits of
an offset. -/
theorem offsetIn_split {dims index : List Nat} (h : index.length = dims.length) {a : Nat}
    (ha : a < dims.length) :
    offsetIn dims index = offsetIn (dims.take a) (index.take a) *
        (dims.getD a 1 * extent (dims.drop (a + 1))) +
      (index.getD a 0 * extent (dims.drop (a + 1)) +
        offsetIn (dims.drop (a + 1)) (index.drop (a + 1))) := by
  have hi : a < index.length := h ▸ ha
  conv =>
    lhs
    rw [← List.take_append_drop a dims, ← List.take_append_drop a index,
      List.drop_eq_getElem_cons ha, List.drop_eq_getElem_cons hi]
  rw [offsetIn_append (by simp [h]), offsetIn_cons, extent_cons]
  simp [List.getD, ha, hi]

/-- Without the axis the outer and the inner digit remain. -/
theorem offsetIn_eraseIdx {dims index : List Nat} (h : index.length = dims.length) (a : Nat) :
    offsetIn (dims.eraseIdx a) (index.eraseIdx a) =
      offsetIn (dims.take a) (index.take a) * extent (dims.drop (a + 1)) +
        offsetIn (dims.drop (a + 1)) (index.drop (a + 1)) := by
  rw [List.eraseIdx_eq_take_drop_succ, List.eraseIdx_eq_take_drop_succ,
    offsetIn_append (by simp [h])]

variable {s : Shape} {axis : Option Nat} {a : Nat} {index : List Nat}

/-- Of an index in range, the digits along an axis and behind it are below
their extents. -/
theorem digits_lt (hi : s.InRange index) (ha : a < s.ndim) :
    index.getD a 0 < s.dims.getD a 1 ∧
      offsetIn (s.dims.drop (a + 1)) (index.drop (a + 1)) < extent (s.dims.drop (a + 1)) := by
  have hr := inRange_iff.mp hi
  constructor
  · have hai : a < index.length := hi.length_eq ▸ ha
    have hlt : index.get ⟨a, hai⟩ < s.dims.get ⟨a, ha⟩ := hr.get hai ha
    rw [List.getD_eq_getElem _ _ hai, List.getD_eq_getElem _ _ ha]
    exact hlt
  · exact offsetIn_lt_extent (List.forall₂_drop _ hr)

/-- Dropping the middle one of three digits. -/
theorem drop_middle_digit {p c q l i : Nat} (hc : c < l) (hq : q < i) :
    (p * (l * i) + (c * i + q)) / (i * l) * i + (p * (l * i) + (c * i + q)) % i = p * i + q := by
  have hlow : c * i + q < i * l := by
    calc c * i + q < c * i + i := Nat.add_lt_add_left hq _
      _ = (c + 1) * i := by rw [Nat.add_mul, Nat.one_mul]
      _ ≤ l * i := Nat.mul_le_mul_right _ hc
      _ = i * l := Nat.mul_comm _ _
  have hquot : (p * (l * i) + (c * i + q)) / (i * l) = p := by
    rw [Nat.mul_comm l i, Nat.mul_comm p, Nat.mul_add_div (Nat.zero_lt_of_lt hlow),
      Nat.div_eq_of_lt hlow, Nat.add_zero]
  have hrem : (p * (l * i) + (c * i + q)) % i = q := by
    rw [← Nat.mul_assoc, ← Nat.add_assoc, ← Nat.add_mul, Nat.mul_comm, Nat.mul_add_mod,
      Nat.mod_eq_of_lt hq]
  rw [hquot, hrem]

/-- The slot of an element is the offset of its index without the axis. -/
theorem slotOf_offset (ha : ∀ a ∈ axis, a < s.ndim) (hi : s.InRange index) :
    slotOf s axis (s.offset index) = (s.without axis).offset (dropAxis axis index) := by
  cases axis with
  | none => rfl
  | some a =>
    have haxis : a < s.ndim := ha a rfl
    obtain ⟨hc, hq⟩ := digits_lt hi haxis
    have herase : (dropAxis (some a) index).length = (s.without (some a)).ndim := by
      simp [dropAxis, without, ndim, List.length_eraseIdx, hi.length_eq]
    rw [offset_eq hi.length_eq, offset_eq herase, offsetIn_split hi.length_eq haxis]
    exact (drop_middle_digit hc hq).trans (offsetIn_eraseIdx hi.length_eq a).symm

/-- An index without the axis is one of the reduced shape. -/
theorem inRange_dropAxis (hi : s.InRange index) :
    (s.without axis).InRange (dropAxis axis index) := by
  rw [inRange_iff]
  cases axis with
  | none => exact .nil
  | some a =>
    have hr := inRange_iff.mp hi
    show List.Forall₂ _ (index.eraseIdx a) (s.dims.eraseIdx a)
    rw [List.eraseIdx_eq_take_drop_succ, List.eraseIdx_eq_take_drop_succ]
    exact List.rel_append (List.forall₂_take _ hr) (List.forall₂_drop _ hr)

/-- An element goes to the slot at an offset if its index becomes the index at
that offset. -/
theorem slotOf_eq_iff (ha : ∀ a ∈ axis, a < s.ndim) {flat slot : Nat} (hf : flat < s.count)
    (hs : slot < (s.without axis).count) :
    slotOf s axis flat = slot ↔ dropAxis axis (s.unravel flat) = (s.without axis).unravel slot := by
  have hi := inRange_unravel hf
  have hslot := slotOf_offset ha hi
  rw [offset_unravel hf] at hslot
  rw [hslot]
  constructor
  · rintro rfl
    rw [unravel_offset (inRange_dropAxis hi)]
  · intro h
    rw [h, offset_unravel hs]

/-! ### Lanes -/

/-- The elements of an array that a reduction folds into the element of its
result at an index, each with its own index, in row-major order. -/
def lane (s : Shape) (axis : Option Nat) (data : List Elem) (index : List Nat) :
    List (List Nat × Elem) :=
  (s.indices.zip data).filter fun p => dropAxis axis p.1 = index

variable {data : List Elem}

@[simp] theorem lane_none : s.lane none data [] = s.indices.zip data := by
  simp [lane, dropAxis]

theorem map_snd_lane_none (hd : data.length = s.count) :
    (s.lane none data []).map Prod.snd = data := by
  rw [lane_none, List.map_snd_zip (by rw [length_indices, hd])]

/-- Indices come in the order of their offsets. -/
theorem pairwise_indices (s : Shape) :
    s.indices.Pairwise fun i j => s.InRange i ∧ s.InRange j ∧ s.offset i < s.offset j := by
  rw [indices, List.pairwise_map]
  refine List.Pairwise.imp_of_mem ?_ (List.pairwise_lt_range (n := s.count))
  intro x y hx hy hlt
  have hx := List.mem_range.mp hx
  have hy := List.mem_range.mp hy
  refine ⟨inRange_unravel hx, inRange_unravel hy, ?_⟩
  rwa [offset_unravel hx, offset_unravel hy]

/-- Two indices that agree outside an axis are ordered by their coordinates
along it. -/
theorem coordinate_lt_of_offset_lt {i j : List Nat} (hi : s.InRange i) (hj : s.InRange j)
    (ha : a < s.ndim) (h : i.eraseIdx a = j.eraseIdx a) (hlt : s.offset i < s.offset j) :
    i.getD a 0 < j.getD a 0 := by
  have hlen : i.length = j.length := hi.length_eq.trans hj.length_eq.symm
  rw [List.eraseIdx_eq_take_drop_succ, List.eraseIdx_eq_take_drop_succ] at h
  -- the outer and the inner digit are the same, so the middle one decides
  obtain ⟨htake, hdrop⟩ := List.append_inj h (by rw [List.length_take, List.length_take, hlen])
  rw [offset_eq hi.length_eq, offset_eq hj.length_eq, offsetIn_split hi.length_eq ha,
    offsetIn_split hj.length_eq ha, htake, hdrop] at hlt
  exact Nat.lt_of_mul_lt_mul_right (Nat.lt_of_add_lt_add_right (Nat.lt_of_add_lt_add_left hlt))

/-- An index of the reduced shape with a coordinate along the axis put in. -/
theorem inRange_insertIdx {dims index : List Nat} {a c : Nat} (ha : a < dims.length)
    (hc : c < dims.getD a 1) (h : List.Forall₂ (· < ·) index (dims.eraseIdx a)) :
    List.Forall₂ (· < ·) (index.insertIdx a c) dims := by
  induction dims generalizing index a with
  | nil => exact absurd ha (Nat.not_lt_zero _)
  | cons d ds ih =>
    cases a with
    | zero => exact .cons hc h
    | succ a =>
      cases h with
      | cons hd tl => exact .cons hd (ih (Nat.lt_of_succ_lt_succ ha) hc tl)

/-- A lane runs along its axis from end to end. -/
theorem coordinates_lane (hd : data.length = s.count) (ha : a < s.ndim)
    (hi : (s.without (some a)).InRange index) :
    (s.lane (some a) data index).map (fun p => p.1.getD a 0) = List.range (s.dims.getD a 1) := by
  have hindices : (s.indices.zip data).map Prod.fst = s.indices :=
    List.map_fst_zip (by rw [length_indices, hd])
  -- both sides increase, so it is enough that they have the same members
  refine List.Pairwise.eq_of_mem_iff (r := (· < ·)) ?_ List.pairwise_lt_range ?_
  · have hsorted := s.pairwise_indices
    rw [← hindices, List.pairwise_map] at hsorted
    rw [List.pairwise_map]
    refine List.Pairwise.imp_of_mem ?_ (hsorted.filter _)
    intro p q hp hq hpq
    have hp : p.1.eraseIdx a = index := of_decide_eq_true (List.mem_filter.mp hp).2
    have hq : q.1.eraseIdx a = index := of_decide_eq_true (List.mem_filter.mp hq).2
    exact coordinate_lt_of_offset_lt hpq.1 hpq.2.1 ha (hp.trans hq.symm) hpq.2.2
  · intro c
    rw [List.mem_map, List.mem_range]
    constructor
    · rintro ⟨p, hp, rfl⟩
      have hmem : p.1 ∈ s.indices := hindices ▸ List.mem_map_of_mem (List.mem_filter.mp hp).1
      exact (digits_lt (mem_indices_iff.mp hmem) ha).1
    · intro hc
      have hrange := inRange_insertIdx ha hc (inRange_iff.mp hi)
      have hmem : index.insertIdx a c ∈ s.indices := mem_indices_iff.mpr (inRange_iff.mpr hrange)
      rw [← hindices] at hmem
      obtain ⟨p, hp, hpi⟩ := List.mem_map.mp hmem
      have hlen : a < (index.insertIdx a c).length := by
        rw [hrange.length_eq]
        exact ha
      refine ⟨p, List.mem_filter.mpr ⟨hp, decide_eq_true ?_⟩, ?_⟩
      · rw [hpi]
        exact List.eraseIdx_insertIdx_self c
      · rw [hpi, List.getD_eq_getElem _ _ hlen, List.getElem_insertIdx_self]

/-- A lane has as many elements as the reduction counts. -/
theorem length_lane (ha : ∀ a ∈ axis, a < s.ndim) (hd : data.length = s.count)
    (hi : (s.without axis).InRange index) :
    (s.lane axis data index).length = Reduction.countAlong s axis := by
  cases axis with
  | none =>
    obtain rfl := List.length_eq_zero_iff.mp hi.length_eq
    rw [lane_none, List.length_zip, length_indices, hd, Nat.min_self]
    rfl
  | some a =>
    have hcoords := congrArg List.length (coordinates_lane hd (ha a rfl) hi)
    rwa [List.length_map, List.length_range] at hcoords

/-- The elements that are sent to a slot are those of its lane. -/
theorem filter_slotOf (ha : ∀ a ∈ axis, a < s.ndim) (hd : data.length = s.count) {slot : Nat}
    (hs : slot < (s.without axis).count) :
    ((data.zipIdx).filter fun p => slotOf s axis p.2 = slot).map Prod.fst =
      (s.lane axis data ((s.without axis).unravel slot)).map Prod.snd := by
  have hzip : data.zipIdx = ((List.range s.count).zip data).map Prod.swap := by
    rw [List.zipIdx_eq_zip_range', ← List.range_eq_range', hd, List.zip_swap]
  have hindices : s.indices.zip data = ((List.range s.count).zip data).map
      (Prod.map s.unravel id) := by
    rw [indices, List.zip_map_left]
  -- both lists run through the offsets, and only the tests look different
  rw [lane, hzip, hindices, List.filter_map, List.filter_map, List.map_map, List.map_map]
  refine congrArg (List.map Prod.snd) (List.filter_congr ?_)
  intro p hp
  have hlt : p.1 < s.count := List.mem_range.mp (List.of_mem_zip hp).1
  exact decide_eq_decide.mpr (slotOf_eq_iff ha hlt hs)

end Shape

/-! ### What the slots hold -/

/-- The left fold of elements in a dtype, from the identity of the reduction
or else from the first element. -/
def Reduction.fold (op : Reduction) (d : DType) (es : List Elem) : Option Elem :=
  match op.identity d, es.map (·.cast d) with
  | some e, vs => some (vs.foldl (op.combine d) e)
  | none, [] => none
  | none, v :: vs => some (vs.foldl (op.combine d) v)

namespace Accumulator

theorem foldl_fill_some (acc : Accumulator) (e : Elem) (es : List Elem) :
    es.foldl (fun slot v => some (acc.fill slot v)) (some e) =
      some ((es.map (·.cast acc.dtype)).foldl (acc.op.combine acc.dtype) e) := by
  induction es generalizing e with
  | nil => rfl
  | cons v es ih => exact ih _

theorem foldl_fill (acc : Accumulator) (es : List Elem) :
    es.foldl (fun slot v => some (acc.fill slot v)) (acc.op.identity acc.dtype) =
      acc.op.fold acc.dtype es := by
  unfold Reduction.fold
  cases acc.op.identity acc.dtype with
  | some e => exact acc.foldl_fill_some e es
  | none =>
    cases es with
    | nil => rfl
    | cons v es => exact acc.foldl_fill_some _ es

/-- A push changes one slot. -/
theorem push_eq_ok {acc acc' : Accumulator} {slot : Nat} {value : Elem}
    (h : acc.push slot value = .ok acc') :
    ∃ cell, acc.slots[slot]? = some cell ∧
      acc' = { acc with slots := acc.slots.set slot (some (acc.fill cell value)) } := by
  unfold push at h
  cases hslot : acc.slots[slot]? with
  | none => simp [hslot] at h
  | some cell =>
    rw [hslot] at h
    exact ⟨cell, rfl, (Except.ok.inj h).symm⟩

/-- Elements folded in one after the other: a slot takes those that are sent
to it, in order. -/
theorem getElem?_slots_pushAll {slotAt : Nat → Nat} {acc acc' : Accumulator} {flat : Nat}
    {data : List Elem} (h : acc.pushAll slotAt flat data = .ok acc') (slot : Nat) :
    acc'.slots[slot]? = acc.slots[slot]?.map fun cell =>
      (((data.zipIdx flat).filter fun p => slotAt p.2 = slot).map Prod.fst).foldl
        (fun cell v => some (acc.fill cell v)) cell := by
  induction data generalizing acc flat with
  | nil =>
    cases h
    simp
  | cons e es ih =>
    obtain ⟨mid, hmid, h⟩ := except_bind_eq_ok.mp h
    obtain ⟨cell, hcell, rfl⟩ := push_eq_ok hmid
    -- the first element changes this slot or leaves it alone
    rw [ih h, List.zipIdx_cons]
    by_cases hs : slotAt flat = slot
    · subst hs
      have hlt : slotAt flat < acc.slots.length := (List.getElem?_eq_some_iff.mp hcell).1
      rw [List.filter_cons_of_pos (by simp), List.map_cons]
      simp only [List.getElem?_set_self hlt, hcell, Option.map_some, List.foldl_cons]
      rfl
    · rw [List.filter_cons_of_neg (by simpa using hs), List.getElem?_set_ne hs]
      rfl

end Accumulator

namespace Reduction

variable {op : Reduction} {d : DType} {data : List Elem} {s out : Shape} {axis : Option Nat}
  {acc : Accumulator}

/-- After a run every slot holds the fold of its lane. -/
theorem slots_eq_fold (hd : data.length = s.count) (ha : ∀ a ∈ axis, a < s.ndim)
    (h : (Accumulator.start op d (s.without axis).count).pushAll (slotOf s axis) 0 data = .ok acc)
    {slot : Nat} (hs : slot < (s.without axis).count) :
    acc.slots[slot]? =
      some (op.fold d ((s.lane axis data ((s.without axis).unravel slot)).map Prod.snd)) := by
  rw [Accumulator.getElem?_slots_pushAll h, Shape.filter_slotOf ha hd hs]
  have hstart : (Accumulator.start op d (s.without axis).count).slots[slot]? =
      some (op.identity d) := by
    rw [Accumulator.start, List.getElem?_replicate, if_pos hs]
  rw [hstart, Option.map_some]
  exact congrArg some (Accumulator.foldl_fill (.start op d _) _)

/-- A fold over elements, or with an identity, has a value. -/
theorem isSome_fold (es : List Elem) (h : op.hasIdentity = true ∨ es ≠ []) :
    (op.fold d es).isSome := by
  unfold fold
  rcases hid : op.identity d with - | e
  · have hes : es ≠ [] := by
      rcases h with h | h
      · cases op <;> simp_all [identity, hasIdentity]
      · exact h
    obtain ⟨v, vs, rfl⟩ := List.exists_cons_of_ne_nil hes
    rfl
  · rfl

/-- With a valid axis, only a lane without elements stands in the way of the
reduced shape. -/
theorem reducedShape_eq (ha : ∀ a ∈ axis, a < s.ndim) :
    op.reducedShape s axis =
      if countAlong s axis = 0 ∧ 0 < (s.without axis).count ∧ op.hasIdentity = false then
        .error (.shape (.emptyReduction op))
      else .ok (s.without axis) := by
  cases axis with
  | none => rfl
  | some a =>
    rw [reducedShape, Shape.removeAxis, if_pos (ha a rfl)]
    rfl

theorem reducedShape_counts (h : op.reducedShape s axis = .ok out) (hout : 0 < out.count) :
    op.hasIdentity = true ∨ countAlong s axis ≠ 0 := by
  obtain ⟨ha, rfl⟩ := reducedShape_eq_ok h
  rw [reducedShape_eq ha] at h
  split at h
  · cases h
  · next hcond =>
    by_contra hboth
    obtain ⟨hid, hcount⟩ := not_or.mp hboth
    exact hcond ⟨not_not.mp hcount, hout, Bool.eq_false_iff.mpr hid⟩

/-- Where there is a reduced shape, every lane has a fold. -/
theorem isSome_fold_lane (ho : op.reducedShape s axis = .ok out) (hd : data.length = s.count)
    {index : List Nat} (hi : out.InRange index) :
    (op.fold d ((s.lane axis data index).map Prod.snd)).isSome := by
  have hpos : 0 < out.count := Nat.zero_lt_of_lt (Shape.offset_lt_count hi)
  refine isSome_fold _ ((reducedShape_counts ho hpos).imp_right ?_)
  intro hcount hnil
  obtain ⟨ha, rfl⟩ := reducedShape_eq_ok ho
  rw [List.map_eq_nil_iff] at hnil
  rw [← Shape.length_lane ha hd hi, hnil] at hcount
  exact hcount rfl

/-- No slot stays empty. -/
theorem slots_filled (ho : op.reducedShape s axis = .ok out) (hd : data.length = s.count)
    (h : (Accumulator.start op d out.count).pushAll (slotOf s axis) 0 data = .ok acc)
    (hlen : acc.slots.length = out.count) : none ∉ acc.slots := by
  intro hnone
  obtain ⟨slot, hslot⟩ := List.mem_iff_getElem?.mp hnone
  have hlt : slot < out.count := hlen ▸ (List.getElem?_eq_some_iff.mp hslot).1
  have hfold := isSome_fold_lane (d := d) ho hd (Shape.inRange_unravel hlt)
  obtain ⟨ha, rfl⟩ := reducedShape_eq_ok ho
  rw [slots_eq_fold hd ha h hlt] at hslot
  rw [Option.some.inj hslot] at hfold
  exact absurd hfold (by simp)

/-- The elements of the result are the folds of the lanes. -/
theorem getElem?_finish_eq_fold (ho : op.reducedShape s axis = .ok out) (hd : data.length = s.count)
    (h : (Accumulator.start op d out.count).pushAll (slotOf s axis) 0 data = .ok acc) {slot : Nat}
    (hs : slot < out.count) :
    acc.finish[slot]? = op.fold d ((s.lane axis data (out.unravel slot)).map Prod.snd) := by
  have hfold := isSome_fold_lane (d := d) ho hd (Shape.inRange_unravel hs)
  obtain ⟨ha, rfl⟩ := reducedShape_eq_ok ho
  obtain ⟨e, he⟩ := Option.isSome_iff_exists.mp hfold
  rw [Accumulator.finish, List.getElem?_map, slots_eq_fold hd ha h hs, he]
  rfl

end Reduction

end ArrayFusion
