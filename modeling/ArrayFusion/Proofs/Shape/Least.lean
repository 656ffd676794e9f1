/-
ArrayFusion/Proofs/Shape/Least.lean

Common shapes are least.

Design.  Shapes are ordered by what they broadcast into.  Two shapes with a
common bound have a common shape, and it lies below every bound
(`broadcastsInto_of_bounds`); folding over a list keeps that
(`least_broadcastFrom`).  A least bound depends on the set of bounds only, so
neither the order of a list nor its grouping can matter.

Whether there is a bound shows axis by axis, counted from the last: extents
other than one must agree (`Aligned`).  The fold never makes an extent of its
own, each one comes from one of the two shapes (`axis_of_broadcastWith`), so
agreement is kept.

Main result: a list has a common shape exactly if its shapes are aligned, and
it is their least bound, whatever their order and grouping
(`broadcastAll_least`).
-/
import ArrayFusion.Proofs.Except
import ArrayFusion.Proofs.Shape.Broadcast

namespace ArrayFusion.Shape

/-! ### Reversed lists of extents -/

theorem FitsFront.antisymm {xs ys : List Nat} (h : FitsFront xs ys) (h' : FitsFront ys xs) :
    xs = ys := by
  induction xs generalizing ys with
  | nil =>
    cases ys with
    | nil => rfl
    | cons y ys =>
      obtain ⟨_, _, hnil, -⟩ := fitsFront_cons_iff.mp h'
      cases hnil
  | cons x xs ih =>
    obtain ⟨y, ys, rfl, hxy, hs⟩ := fitsFront_cons_iff.mp h
    obtain ⟨_, _, heq, hyx, hs'⟩ := fitsFront_cons_iff.mp h'
    cases heq
    have hsame : x = y := by
      rcases hxy with h | h
      · exact h
      · rcases hyx with h' | h'
        · exact h'.symm
        · rw [h, h']
    rw [hsame, ih hs hs']

/-- The broadcast of two lists fits whatever both of them fit. -/
theorem fitsFront_of_bounds {xs ys zs us : List Nat} (h : broadcastRev xs ys = some zs)
    (hx : FitsFront xs us) (hy : FitsFront ys us) : FitsFront zs us := by
  fun_induction broadcastRev xs ys generalizing zs us with
  | case1 ys =>
    cases h
    exact hy
  | case2 xs =>
    cases h
    exact hx
  | case3 x xs y ys hc ih =>
    obtain ⟨ws, hws, rfl⟩ := Option.map_eq_some_iff.mp h
    obtain ⟨u, us, rfl, hxu, hxs⟩ := fitsFront_cons_iff.mp hx
    obtain ⟨_, _, heq, hyu, hys⟩ := fitsFront_cons_iff.mp hy
    cases heq
    refine (ih hws hxs hys).cons ?_
    -- whichever extent is kept, it fits
    split
    · exact hyu
    · exact hxu
  | case4 x xs y ys hc => cases h

theorem FitsFront.getD {xs ys : List Nat} (h : FitsFront xs ys) (k : Nat) :
    Fits (xs.getD k 1) (ys.getD k 1) := by
  induction xs generalizing ys k with
  | nil => exact .inr rfl
  | cons x xs ih =>
    obtain ⟨y, ys, rfl, hxy, hs⟩ := fitsFront_cons_iff.mp h
    cases k with
    | zero => exact hxy
    | succ k => exact ih hs k

/-- Extents that agree unless one of them is one. -/
def Agree (a b : Nat) : Prop :=
  a ≠ 1 → b ≠ 1 → a = b

/-- Extents that agree at every axis can be broadcast. -/
theorem exists_broadcastRev {xs ys : List Nat} (h : ∀ k, Agree (xs.getD k 1) (ys.getD k 1)) :
    ∃ zs, broadcastRev xs ys = some zs := by
  fun_induction broadcastRev xs ys with
  | case1 ys => exact ⟨ys, rfl⟩
  | case2 xs => exact ⟨xs, rfl⟩
  | case3 x xs y ys hc ih =>
    obtain ⟨zs, hzs⟩ := ih fun k => h (k + 1)
    exact ⟨_, by rw [hzs, Option.map_some]⟩
  | case4 x xs y ys hc =>
    have hxy : Agree x y := h 0
    exact absurd (by unfold Agree at hxy; omega) hc

/-- Broadcasting takes every extent from one of the two lists. -/
theorem getD_of_broadcastRev {xs ys zs : List Nat} (h : broadcastRev xs ys = some zs) (k : Nat) :
    zs.getD k 1 = xs.getD k 1 ∨ zs.getD k 1 = ys.getD k 1 := by
  fun_induction broadcastRev xs ys generalizing zs k with
  | case1 ys =>
    cases h
    exact .inr rfl
  | case2 xs =>
    cases h
    exact .inl rfl
  | case3 x xs y ys hc ih =>
    obtain ⟨ws, hws, rfl⟩ := Option.map_eq_some_iff.mp h
    cases k with
    | zero =>
      rw [List.getD_cons_zero]
      split
      · exact .inr rfl
      · exact .inl rfl
    | succ k => exact ih hws k
  | case4 x xs y ys hc => cases h

/-! ### Axes -/

/-- The extent of an axis, counted from the last one; a missing axis has extent
one. -/
def axis (s : Shape) (k : Nat) : Nat :=
  s.dims.reverse.getD k 1

theorem BroadcastsInto.antisymm {s t : Shape} (h : s.BroadcastsInto t) (h' : t.BroadcastsInto s) :
    s = t := by
  obtain ⟨ds⟩ := s
  obtain ⟨es⟩ := t
  have hrev := (broadcastsInto_iff_fitsFront.mp h).antisymm (broadcastsInto_iff_fitsFront.mp h')
  exact congrArg Shape.mk (List.reverse_injective hrev)

theorem BroadcastsInto.axis {s t : Shape} (h : s.BroadcastsInto t) (k : Nat) :
    Fits (s.axis k) (t.axis k) :=
  (broadcastsInto_iff_fitsFront.mp h).getD k

theorem axis_of_broadcastWith {s t u : Shape} (h : s.broadcastWith t = some u) (k : Nat) :
    u.axis k = s.axis k ∨ u.axis k = t.axis k := by
  obtain ⟨ds, hd, rfl⟩ := Option.map_eq_some_iff.mp h
  rw [axis, List.reverse_reverse]
  exact getD_of_broadcastRev hd k

theorem exists_broadcastWith {s t : Shape} (h : ∀ k, Agree (s.axis k) (t.axis k)) :
    ∃ u, s.broadcastWith t = some u := by
  obtain ⟨ds, hd⟩ := exists_broadcastRev h
  exact ⟨_, by rw [broadcastWith, hd, Option.map_some]⟩

/-- The common shape of two lies below every bound of theirs. -/
theorem broadcastsInto_of_bounds {s t u v : Shape} (h : s.broadcastWith t = some u)
    (hs : s.BroadcastsInto v) (ht : t.BroadcastsInto v) : u.BroadcastsInto v := by
  obtain ⟨ds, hd, rfl⟩ := Option.map_eq_some_iff.mp h
  rw [broadcastsInto_iff_fitsFront] at hs ht ⊢
  rw [List.reverse_reverse]
  exact fitsFront_of_bounds hd hs ht

/-! ### Lists of shapes -/

/-- At every axis, counted from the last one, all extents other than one are
the same. -/
def Aligned (shapes : List Shape) : Prop :=
  ∀ k, ∀ s ∈ shapes, ∀ t ∈ shapes, Agree (s.axis k) (t.axis k)

/-- A shape that all shapes of a list broadcast into. -/
def Bounds (t : Shape) (shapes : List Shape) : Prop :=
  ∀ s ∈ shapes, s.BroadcastsInto t

/-- A bound that broadcasts into every other bound. -/
def LeastBound (t : Shape) (shapes : List Shape) : Prop :=
  t.Bounds shapes ∧ ∀ u : Shape, u.Bounds shapes → t.BroadcastsInto u

theorem bounds_cons (t s : Shape) (shapes : List Shape) :
    t.Bounds (s :: shapes) ↔ s.BroadcastsInto t ∧ t.Bounds shapes :=
  List.forall_mem_cons

theorem bounds_append (t : Shape) (xs ys : List Shape) :
    t.Bounds (xs ++ ys) ↔ t.Bounds xs ∧ t.Bounds ys :=
  List.forall_mem_append

theorem Bounds.aligned {t : Shape} {shapes : List Shape} (h : t.Bounds shapes) :
    Aligned shapes := by
  intro k s hs u hu hs1 hu1
  have hst : s.axis k = t.axis k := ((h s hs).axis k).resolve_right hs1
  have hut : u.axis k = t.axis k := ((h u hu).axis k).resolve_right hu1
  exact hst.trans hut.symm

theorem exists_broadcastFrom {s : Shape} {shapes : List Shape} (h : Aligned (s :: shapes)) :
    ∃ t, broadcastFrom s shapes = some t := by
  induction shapes generalizing s with
  | nil => exact ⟨s, rfl⟩
  | cons v vs ih =>
    obtain ⟨u, hu⟩ := exists_broadcastWith fun k => h k s (by simp) v (by simp)
    have hnext : Aligned (u :: vs) := by
      -- an extent of the new shape is one of the old shapes'
      have hold : ∀ k, ∀ t ∈ u :: vs, ∃ t' ∈ s :: v :: vs, t.axis k = t'.axis k := by
        intro k t ht
        rcases List.mem_cons.mp ht with rfl | ht
        · rcases axis_of_broadcastWith hu k with heq | heq
          · exact ⟨s, by simp, heq⟩
          · exact ⟨v, by simp, heq⟩
        · exact ⟨t, by simp [ht], rfl⟩
      intro k t ht t' ht'
      obtain ⟨a, ha, heq⟩ := hold k t ht
      obtain ⟨b, hb, heq'⟩ := hold k t' ht'
      rw [heq, heq']
      exact h k a ha b hb
    obtain ⟨t, ht⟩ := ih hnext
    exact ⟨t, by rw [broadcastFrom, hu, Option.bind_some, ht]⟩

theorem least_broadcastFrom {s t u : Shape} {shapes : List Shape}
    (h : broadcastFrom s shapes = some t) (hs : s.BroadcastsInto u) (hu : u.Bounds shapes) :
    t.BroadcastsInto u := by
  induction shapes generalizing s with
  | nil =>
    cases h
    exact hs
  | cons v vs ih =>
    obtain ⟨w, hw, hrest⟩ := Option.bind_eq_some_iff.mp h
    obtain ⟨hv, hvs⟩ := List.forall_mem_cons.mp hu
    exact ih hrest (broadcastsInto_of_bounds hw hs hv) hvs

theorem scalar_broadcastsInto (s : Shape) : scalar.BroadcastsInto s :=
  broadcastsInto_iff_fitsFront.mpr (fitsFront_nil _)

theorem exists_broadcastAll {shapes : List Shape} (h : Aligned shapes) :
    ∃ t, broadcastAll shapes = .ok t := by
  have hscalar : Aligned (scalar :: shapes) := by
    intro k s hs t ht hs1 ht1
    -- the scalar has extent one everywhere
    rcases List.mem_cons.mp hs with rfl | hs
    · exact absurd rfl hs1
    · rcases List.mem_cons.mp ht with rfl | ht
      · exact absurd rfl ht1
      · exact h k s hs t ht hs1 ht1
  obtain ⟨t, ht⟩ := exists_broadcastFrom hscalar
  exact ⟨t, broadcastAll_eq_ok.mpr ht⟩

theorem LeastBound.unique {t u : Shape} {shapes : List Shape} (ht : t.LeastBound shapes)
    (hu : u.LeastBound shapes) : t = u :=
  (ht.2 u hu.1).antisymm (hu.2 t ht.1)

/-- A shape that the least bound broadcasts into is a bound. -/
theorem LeastBound.bounds_iff {t : Shape} {shapes : List Shape} (ht : t.LeastBound shapes)
    (u : Shape) : t.BroadcastsInto u ↔ u.Bounds shapes :=
  ⟨fun h s hs => (ht.1 s hs).trans h, ht.2 u⟩

/-- The common shape of a list is its least bound. -/
theorem broadcastAll_eq_ok_iff {shapes : List Shape} {t : Shape} :
    broadcastAll shapes = .ok t ↔ t.LeastBound shapes := by
  have hleast : ∀ {u}, broadcastAll shapes = .ok u → u.LeastBound shapes := fun h =>
    ⟨broadcastsInto_of_broadcastAll h, fun v hv =>
      least_broadcastFrom (broadcastAll_eq_ok.mp h) (scalar_broadcastsInto v) hv⟩
  refine ⟨hleast, fun h => ?_⟩
  obtain ⟨u, hu⟩ := exists_broadcastAll h.1.aligned
  rw [hu, h.unique (hleast hu)]

/-- Least bounds depend on the bounds only. -/
theorem leastBound_congr {xs ys : List Shape} (h : ∀ u : Shape, u.Bounds xs ↔ u.Bounds ys)
    (t : Shape) : t.LeastBound xs ↔ t.LeastBound ys := by
  simp only [LeastBound, h]

theorem leastBound_perm {xs ys : List Shape} (h : xs.Perm ys) (t : Shape) :
    t.LeastBound xs ↔ t.LeastBound ys := by
  refine leastBound_congr (fun u => ?_) t
  simp only [Bounds, h.mem_iff]

/-! ### Groups of shapes -/

/-- Shapes put together in groups, and groups in groups. -/
inductive Grouping
  | one (s : Shape)
  | group (parts : List Grouping)

namespace Grouping

mutual

/-- The shapes of a grouping, from left to right. -/
def shapes : Grouping → List Shape
  | .one s => [s]
  | .group parts => shapesAll parts

/-- The shapes of groupings, from left to right. -/
def shapesAll : List Grouping → List Shape
  | [] => []
  | g :: gs => g.shapes ++ shapesAll gs

end

mutual

/-- The common shape of the parts, each of which is the common shape of its
own parts. -/
def common : Grouping → Except Error Shape
  | .one s => .ok s
  | .group parts => do broadcastAll (← commonAll parts)

/-- The common shapes of groupings. -/
def commonAll : List Grouping → Except Error (List Shape)
  | [] => .ok []
  | g :: gs => do
    let t ← g.common
    let ts ← commonAll gs
    return t :: ts

end

mutual

/-- The common shape of a grouping is the least bound of its shapes. -/
theorem leastBound_of_common {t : Shape} :
    (g : Grouping) → g.common = .ok t → t.LeastBound g.shapes
  | .one s, h => by
    cases h
    exact ⟨by simp [Bounds, shapes, broadcastsInto_refl], fun u hu => hu t (by simp [shapes])⟩
  | .group parts, h => by
    rw [common] at h
    obtain ⟨ts, hts, ht⟩ := except_bind_eq_ok.mp h
    exact (leastBound_congr (bounds_of_commonAll parts hts) t).mp (broadcastAll_eq_ok_iff.mp ht)

/-- The common shapes of groupings have the bounds that their shapes have. -/
theorem bounds_of_commonAll {ts : List Shape} :
    (gs : List Grouping) → commonAll gs = .ok ts →
      ∀ u : Shape, u.Bounds ts ↔ u.Bounds (shapesAll gs)
  | [], h, u => by
    cases h
    exact Iff.rfl
  | g :: gs, h, u => by
    rw [commonAll] at h
    obtain ⟨t, ht, h⟩ := except_bind_eq_ok.mp h
    obtain ⟨rest, hrest, h⟩ := except_bind_eq_ok.mp h
    cases h
    have hgroup := (leastBound_of_common g ht).bounds_iff u
    have hrest := bounds_of_commonAll gs hrest u
    rw [shapesAll, bounds_cons, bounds_append, hgroup, hrest]

end

mutual

/-- A grouping whose shapes have a bound has a common shape. -/
theorem exists_common {u : Shape} :
    (g : Grouping) → u.Bounds g.shapes → ∃ t, g.common = .ok t
  | .one s, _ => ⟨s, rfl⟩
  | .group parts, h => by
    obtain ⟨ts, hts⟩ := exists_commonAll parts h
    obtain ⟨t, ht⟩ := exists_broadcastAll ((bounds_of_commonAll parts hts u).mpr h).aligned
    exact ⟨t, by rw [common, hts, except_bind_ok, ht]⟩

theorem exists_commonAll {u : Shape} :
    (gs : List Grouping) → u.Bounds (shapesAll gs) → ∃ ts, commonAll gs = .ok ts
  | [], _ => ⟨[], rfl⟩
  | g :: gs, h => by
    obtain ⟨hg, hgs⟩ := (bounds_append _ _ _).mp h
    obtain ⟨t, ht⟩ := exists_common g hg
    obtain ⟨ts, hts⟩ := exists_commonAll gs hgs
    exact ⟨t :: ts, by rw [commonAll, ht, except_bind_ok, hts, except_bind_ok]; rfl⟩

end

theorem common_eq_ok_iff {g : Grouping} {t : Shape} :
    g.common = .ok t ↔ t.LeastBound g.shapes := by
  refine ⟨leastBound_of_common g, fun h => ?_⟩
  obtain ⟨u, hu⟩ := exists_common g h.1
  rw [hu, h.unique (leastBound_of_common g hu)]

end Grouping

/-- **The common shape is the least one.**  A list of shapes has a common shape
if and only if at every axis, counted from the last one, the extents other than
one are the same; missing axes have extent one.  The common shape is the shape
that all of them broadcast into and that broadcasts into every other such
shape.  So it is the same for every order of the list, and however the list is
grouped.  The error names all shapes in the given order. -/
theorem broadcastAll_least (shapes : List Shape) :
    ((∃ t, broadcastAll shapes = .ok t) ↔ Aligned shapes) ∧
    (∀ t, broadcastAll shapes = .ok t ↔ t.LeastBound shapes) ∧
    (∀ shapes' : List Shape, shapes'.Perm shapes →
      ∀ t, broadcastAll shapes' = .ok t ↔ broadcastAll shapes = .ok t) ∧
    (∀ g : Grouping, g.shapes.Perm shapes →
      ∀ t, g.common = .ok t ↔ broadcastAll shapes = .ok t) ∧
    ∀ e, broadcastAll shapes = .error e → e = .shape (.notBroadcastable shapes) := by
  refine ⟨⟨?_, exists_broadcastAll⟩, fun t => broadcastAll_eq_ok_iff, ?_, ?_, ?_⟩
  · rintro ⟨t, ht⟩
    exact (broadcastAll_eq_ok_iff.mp ht).1.aligned
  · intro shapes' hperm t
    rw [broadcastAll_eq_ok_iff, broadcastAll_eq_ok_iff, leastBound_perm hperm]
  · intro g hperm t
    rw [Grouping.common_eq_ok_iff, broadcastAll_eq_ok_iff, leastBound_perm hperm]
  · intro e he
    unfold broadcastAll at he
    split at he
    · cases he
    · cases he
      rfl

/-- Three ranks with units and an empty axis: the common shape is found from the
right as it is from the left. -/
theorem broadcastAll_least_empty_axis :
    let g : Grouping := .group [.one ⟨[0]⟩, .group [.one ⟨[3, 1]⟩, .one ⟨[2, 1, 1]⟩]]
    g.shapes.Perm [⟨[2, 1, 1]⟩, ⟨[3, 1]⟩, ⟨[0]⟩] ∧ g.common = .ok ⟨[2, 3, 0]⟩ ∧
      LeastBound ⟨[2, 3, 0]⟩ [⟨[2, 1, 1]⟩, ⟨[3, 1]⟩, ⟨[0]⟩] := by
  intro g
  obtain ⟨-, hleast, -, hgroup, -⟩ := broadcastAll_least [⟨[2, 1, 1]⟩, ⟨[3, 1]⟩, ⟨[0]⟩]
  have hperm : g.shapes.Perm [⟨[2, 1, 1]⟩, ⟨[3, 1]⟩, ⟨[0]⟩] := by decide
  have hcommon : broadcastAll [⟨[2, 1, 1]⟩, ⟨[3, 1]⟩, ⟨[0]⟩] = .ok ⟨[2, 3, 0]⟩ := rfl
  exact ⟨hperm, (hgroup g hperm _).mpr hcommon, (hleast _).mp hcommon⟩

end ArrayFusion.Shape
