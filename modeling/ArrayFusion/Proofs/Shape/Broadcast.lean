/-
ArrayFusion/Proofs/Shape/Broadcast.lean

What broadcasting means for the extents.

Design.  Broadcasting aligns shapes at their trailing axes, so it is defined
on reversed lists.  `broadcastsInto_iff` says the same from the front: the
larger shape is some leading axes followed by axes that the smaller shape
*fits*, axis by axis (`Fits`).  Everything below it is about lists aligned
at their heads.

Main results: the common shape of a list is one that every member
broadcasts into (`broadcastsInto_of_broadcastAll`), and its number of axes
is the largest of the list (`ndim_of_broadcastAll`).
-/
import ArrayFusion.Shape.Region
import Mathlib.Data.List.Forall2

namespace ArrayFusion.Shape

/-! ### Extents that fit -/

/-- An axis of extent `a` can stand for one of extent `b`. -/
def Fits (a b : Nat) : Prop :=
  a = b ∨ a = 1

theorem fits_refl (a : Nat) : Fits a a := Or.inl rfl

theorem Fits.trans {a b c : Nat} (h : Fits a b) (h' : Fits b c) : Fits a c := by
  rcases h with rfl | rfl
  · exact h'
  · exact Or.inr rfl

theorem forall₂_fits_refl (ds : List Nat) : List.Forall₂ Fits ds ds := by
  induction ds with
  | nil => exact .nil
  | cons d ds ih => exact .cons (fits_refl d) ih

/-! ### Reversed lists of extents -/

/-- Reversed extents `xs` fit the front of the reversed extents `ys`. -/
def FitsFront (xs ys : List Nat) : Prop :=
  ∃ front rest, ys = front ++ rest ∧ List.Forall₂ Fits xs front

theorem fitsFront_nil (ys : List Nat) : FitsFront [] ys := ⟨[], ys, rfl, .nil⟩

theorem fitsFront_refl (xs : List Nat) : FitsFront xs xs :=
  ⟨xs, [], by simp, forall₂_fits_refl xs⟩

theorem FitsFront.cons {x y : Nat} {xs ys : List Nat} (h : Fits x y) (hs : FitsFront xs ys) :
    FitsFront (x :: xs) (y :: ys) := by
  obtain ⟨front, rest, rfl, hf⟩ := hs
  exact ⟨y :: front, rest, rfl, .cons h hf⟩

theorem fitsFront_cons_iff {x : Nat} {xs ys : List Nat} :
    FitsFront (x :: xs) ys ↔ ∃ y ys', ys = y :: ys' ∧ Fits x y ∧ FitsFront xs ys' := by
  constructor
  · rintro ⟨front, rest, rfl, hf⟩
    cases hf with
    | cons hd tl => exact ⟨_, _, rfl, hd, _, rest, rfl, tl⟩
  · rintro ⟨y, ys', rfl, h, hs⟩
    exact hs.cons h

theorem FitsFront.trans {xs ys zs : List Nat} (h : FitsFront xs ys) (h' : FitsFront ys zs) :
    FitsFront xs zs := by
  induction xs generalizing ys zs with
  | nil => exact fitsFront_nil zs
  | cons x xs ih =>
    obtain ⟨y, ys', rfl, hxy, hs⟩ := fitsFront_cons_iff.mp h
    obtain ⟨z, zs', rfl, hyz, hs'⟩ := fitsFront_cons_iff.mp h'
    exact (ih hs hs').cons (hxy.trans hyz)

/-- The result of broadcasting is fitted by both sides. -/
theorem fitsFront_of_broadcastRev {xs ys zs : List Nat} (h : broadcastRev xs ys = some zs) :
    FitsFront xs zs ∧ FitsFront ys zs := by
  fun_induction broadcastRev xs ys generalizing zs with
  | case1 ys =>
    cases h
    exact ⟨fitsFront_nil _, fitsFront_refl _⟩
  | case2 xs =>
    cases h
    exact ⟨fitsFront_refl _, fitsFront_nil _⟩
  | case3 x xs y ys hc ih =>
    obtain ⟨us, hu, rfl⟩ := Option.map_eq_some_iff.mp h
    obtain ⟨hx, hy⟩ := ih hu
    by_cases hx1 : x = 1
    · rw [if_pos hx1]
      exact ⟨hx.cons (Or.inr hx1), hy.cons (fits_refl y)⟩
    · rw [if_neg hx1]
      have hyx : Fits y x := by
        rcases hc with rfl | h1 | h1
        · exact fits_refl x
        · exact absurd h1 hx1
        · exact Or.inr h1
      exact ⟨hx.cons (fits_refl x), hy.cons hyx⟩
  | case4 x xs y ys hc => cases h

/-- Broadcasting gives back the right-hand side exactly when the left one
fits it. -/
theorem broadcastRev_eq_right_iff {xs ys : List Nat} :
    broadcastRev xs ys = some ys ↔ FitsFront xs ys := by
  constructor
  · intro h
    exact (fitsFront_of_broadcastRev h).1
  · intro h
    induction xs generalizing ys with
    | nil => rw [broadcastRev]
    | cons x xs ih =>
      obtain ⟨y, ys', rfl, hxy, hs⟩ := fitsFront_cons_iff.mp h
      rw [broadcastRev, if_pos (by rcases hxy with h | h <;> simp [h]), ih hs]
      by_cases hx1 : x = 1
      · simp [hx1]
      · rcases hxy with rfl | h1
        · simp
        · exact absurd h1 hx1

/-- The length of a broadcast. -/
theorem length_of_broadcastRev {xs ys zs : List Nat} (h : broadcastRev xs ys = some zs) :
    zs.length = max xs.length ys.length := by
  fun_induction broadcastRev xs ys generalizing zs with
  | case1 ys =>
    cases h
    simp
  | case2 xs =>
    cases h
    simp
  | case3 x xs y ys hc ih =>
    obtain ⟨us, hu, rfl⟩ := Option.map_eq_some_iff.mp h
    rw [List.length_cons, ih hu, List.length_cons, List.length_cons]
    omega
  | case4 x xs y ys hc => cases h

/-! ### Shapes -/

theorem broadcastsInto_iff_fitsFront {s t : Shape} :
    s.BroadcastsInto t ↔ FitsFront s.dims.reverse t.dims.reverse := by
  rw [← broadcastRev_eq_right_iff]
  unfold BroadcastsInto broadcastWith
  rcases e : broadcastRev s.dims.reverse t.dims.reverse with - | ds
  · simp
  · simp only [Option.map_some, Option.some.injEq]
    constructor
    · intro h
      rw [← h]
      simp
    · intro h
      rw [h, List.reverse_reverse]

/-- From the front: leading axes, and then axes that `s` fits one by one. -/
theorem broadcastsInto_iff {s t : Shape} :
    s.BroadcastsInto t ↔ ∃ lead mid, t.dims = lead ++ mid ∧ List.Forall₂ Fits s.dims mid := by
  rw [broadcastsInto_iff_fitsFront]
  constructor
  · rintro ⟨front, rest, ht, hf⟩
    refine ⟨rest.reverse, front.reverse, ?_, ?_⟩
    · rw [← List.reverse_append, ← ht, List.reverse_reverse]
    · rw [← List.forall₂_reverse_iff, List.reverse_reverse]
      exact hf
  · rintro ⟨lead, mid, ht, hf⟩
    refine ⟨mid.reverse, lead.reverse, ?_, List.forall₂_reverse_iff.mpr hf⟩
    rw [ht, List.reverse_append]

theorem broadcastsInto_refl (s : Shape) : s.BroadcastsInto s :=
  broadcastsInto_iff_fitsFront.mpr (fitsFront_refl _)

theorem BroadcastsInto.trans {s t u : Shape} (h : s.BroadcastsInto t) (h' : t.BroadcastsInto u) :
    s.BroadcastsInto u :=
  broadcastsInto_iff_fitsFront.mpr
    ((broadcastsInto_iff_fitsFront.mp h).trans (broadcastsInto_iff_fitsFront.mp h'))

theorem broadcastsInto_of_broadcastWith {s t u : Shape} (h : s.broadcastWith t = some u) :
    s.BroadcastsInto u ∧ t.BroadcastsInto u := by
  obtain ⟨ds, hd, rfl⟩ := Option.map_eq_some_iff.mp h
  obtain ⟨hs, ht⟩ := fitsFront_of_broadcastRev hd
  constructor
  · rw [broadcastsInto_iff_fitsFront, List.reverse_reverse]
    exact hs
  · rw [broadcastsInto_iff_fitsFront, List.reverse_reverse]
    exact ht

theorem ndim_of_broadcastWith {s t u : Shape} (h : s.broadcastWith t = some u) :
    u.ndim = max s.ndim t.ndim := by
  obtain ⟨ds, hd, rfl⟩ := Option.map_eq_some_iff.mp h
  simpa [ndim] using length_of_broadcastRev hd

/-! ### Lists of shapes -/

theorem broadcastsInto_of_broadcastFrom {s t : Shape} {shapes : List Shape}
    (h : broadcastFrom s shapes = some t) :
    s.BroadcastsInto t ∧ ∀ u ∈ shapes, u.BroadcastsInto t := by
  induction shapes generalizing s with
  | nil =>
    cases h
    exact ⟨broadcastsInto_refl _, by simp⟩
  | cons v vs ih =>
    obtain ⟨w, hw, hrest⟩ := Option.bind_eq_some_iff.mp h
    obtain ⟨hs, hv⟩ := broadcastsInto_of_broadcastWith hw
    obtain ⟨hwt, hvs⟩ := ih hrest
    refine ⟨hs.trans hwt, ?_⟩
    intro u hu
    rcases List.mem_cons.mp hu with rfl | hu
    · exact hv.trans hwt
    · exact hvs u hu

theorem ndim_of_broadcastFrom {s t : Shape} {shapes : List Shape}
    (h : broadcastFrom s shapes = some t) :
    t.ndim = shapes.foldl (fun n u => max n u.ndim) s.ndim := by
  induction shapes generalizing s with
  | nil =>
    cases h
    rfl
  | cons v vs ih =>
    obtain ⟨w, hw, hrest⟩ := Option.bind_eq_some_iff.mp h
    rw [ih hrest, ndim_of_broadcastWith hw, List.foldl_cons]

theorem broadcastFrom_of_broadcastAll {shapes : List Shape} {t : Shape}
    (h : broadcastAll shapes = .ok t) : broadcastFrom scalar shapes = some t := by
  unfold broadcastAll at h
  rcases e : broadcastFrom scalar shapes with - | u
  · rw [e] at h
    cases h
  · rw [e] at h
    cases h
    rfl

theorem broadcastAll_eq_ok {shapes : List Shape} {t : Shape} :
    broadcastAll shapes = .ok t ↔ broadcastFrom scalar shapes = some t := by
  constructor
  · exact broadcastFrom_of_broadcastAll
  · intro h
    rw [broadcastAll, h]

/-- Every member of a list broadcasts into the common shape. -/
theorem broadcastsInto_of_broadcastAll {shapes : List Shape} {t : Shape}
    (h : broadcastAll shapes = .ok t) : ∀ s ∈ shapes, s.BroadcastsInto t :=
  (broadcastsInto_of_broadcastFrom (broadcastFrom_of_broadcastAll h)).2

/-- The common shape has as many axes as the largest member. -/
theorem ndim_of_broadcastAll {shapes : List Shape} {t : Shape}
    (h : broadcastAll shapes = .ok t) : t.ndim = shapes.foldl (fun n u => max n u.ndim) 0 :=
  ndim_of_broadcastFrom (broadcastFrom_of_broadcastAll h)

/-- Outputs are written in the broadcast of all inputs and outputs, and every
output already has that shape. -/
theorem outputShape_eq_ok {inputs outs : List Shape} {t : Shape}
    (h : outputShape inputs outs = .ok t) :
    (∀ s ∈ inputs, s.BroadcastsInto t) ∧ ∀ s ∈ outs, s = t := by
  unfold outputShape at h
  rcases e : broadcastAll (inputs ++ outs) with err | u
  · rw [e] at h
    cases h
  · rw [e] at h
    simp only [bind, Except.bind] at h
    rcases e' : outs.find? (fun out => out ≠ u) with - | out
    · rw [e'] at h
      cases h
      refine ⟨fun s hs => broadcastsInto_of_broadcastAll e s (List.mem_append_left _ hs), ?_⟩
      intro s hs
      simpa using List.find?_eq_none.mp e' s hs
    · rw [e'] at h
      cases h

end ArrayFusion.Shape
