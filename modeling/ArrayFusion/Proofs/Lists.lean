/-
ArrayFusion/Proofs/Lists.lean

Lists related member by member, seen through positions.
-/
import ArrayFusion.Proofs.Except
import Mathlib.Data.List.Forall2

namespace ArrayFusion

variable {α β : Type}

theorem forall₂_of_getElem? {R : α → β → Prop} {xs : List α} {ys : List β}
    (hl : xs.length = ys.length)
    (h : ∀ (k : Nat) x y, xs[k]? = some x → ys[k]? = some y → R x y) : List.Forall₂ R xs ys := by
  apply List.forall₂_of_length_eq_of_get hl
  intro k hx hy
  exact h k _ _ (List.getElem?_eq_getElem hx) (List.getElem?_eq_getElem hy)

theorem forall₂_getElem? {R : α → β → Prop} {xs : List α} {ys : List β}
    (h : List.Forall₂ R xs ys) {k : Nat} {x : α} (hx : xs[k]? = some x) :
    ∃ y, ys[k]? = some y ∧ R x y := by
  induction h generalizing k with
  | nil => simp at hx
  | cons hd _ ih =>
    cases k with
    | zero =>
      cases hx
      exact ⟨_, rfl, hd⟩
    | succ k => exact ih hx

theorem forall₂_getElem?_right {R : α → β → Prop} {xs : List α} {ys : List β}
    (h : List.Forall₂ R xs ys) {k : Nat} {y : β} (hy : ys[k]? = some y) :
    ∃ x, xs[k]? = some x ∧ R x y := by
  obtain ⟨x, hx, hr⟩ := forall₂_getElem? h.flip hy
  exact ⟨x, hx, hr⟩

theorem forall₂_mem_left {R : α → β → Prop} {xs : List α} {ys : List β}
    (h : List.Forall₂ R xs ys) {x : α} (hx : x ∈ xs) : ∃ y ∈ ys, R x y := by
  obtain ⟨k, hk⟩ := List.getElem?_of_mem hx
  obtain ⟨y, hy, hr⟩ := forall₂_getElem? h hk
  exact ⟨y, List.mem_of_getElem? hy, hr⟩

theorem forall₂_mem_right {R : α → β → Prop} {xs : List α} {ys : List β}
    (h : List.Forall₂ R xs ys) {y : β} (hy : y ∈ ys) : ∃ x ∈ xs, R x y := by
  obtain ⟨x, hx, hr⟩ := forall₂_mem_left h.flip hy
  exact ⟨x, hx, hr⟩

/-- Going through a list successfully, member by member. -/
theorem mapM_eq_ok_iff {xs : List α} {f : α → Except Error β} {ys : List β} :
    xs.mapM f = .ok ys ↔ List.Forall₂ (fun x y => f x = .ok y) xs ys := by
  induction xs generalizing ys with
  | nil =>
    constructor
    · intro h
      cases h
      exact .nil
    · intro h
      cases h
      rfl
  | cons x xs ih =>
    rw [mapM_cons_eq_ok]
    constructor
    · rintro ⟨y, zs, hy, hzs, rfl⟩
      exact .cons hy (ih.mp hzs)
    · intro h
      cases h with
      | cons hy hzs => exact ⟨_, _, hy, ih.mpr hzs, rfl⟩

theorem filterMap_eq_map_of_some {xs : List α} {f : α → Option β} {g : α → β}
    (h : ∀ x ∈ xs, f x = some (g x)) : xs.filterMap f = xs.map g := by
  rw [← List.filterMap_eq_map]
  exact List.filterMap_congr h

theorem nodup_eraseDups [BEq α] [LawfulBEq α] (xs : List α) : xs.eraseDups.Nodup := by
  -- on the length: what is left behind the first member is filtered
  generalize hn : xs.length = n
  induction n using Nat.strongRecOn generalizing xs with
  | ind n ih =>
    cases xs with
    | nil => simp
    | cons x xs =>
      rw [List.eraseDups_cons, List.nodup_cons]
      constructor
      · simp
      · refine ih _ ?_ _ rfl
        rw [← hn, List.length_cons]
        exact Nat.lt_succ_of_le (List.length_filter_le _ _)

/-! ### Lists that grow at their end -/

theorem getElem?_of_isPrefix {xs ys : List α} (h : xs <+: ys) {k : Nat} {x : α}
    (hx : xs[k]? = some x) : ys[k]? = some x := by
  obtain ⟨zs, rfl⟩ := h
  rwa [List.getElem?_append_left (List.getElem?_eq_some_iff.mp hx).1]

/-- A member of a list with one more member is an old one or that one. -/
theorem getElem?_concat_eq_some {xs : List α} {x y : α} {k : Nat}
    (h : (xs ++ [x])[k]? = some y) : xs[k]? = some y ∨ k = xs.length ∧ y = x := by
  rcases Nat.lt_or_ge k xs.length with hk | hk
  · left
    rwa [List.getElem?_append_left hk] at h
  · right
    rw [List.getElem?_append_right hk, List.getElem?_singleton] at h
    split at h
    · next h0 =>
      cases h
      exact ⟨Nat.le_antisymm (Nat.sub_eq_zero_iff_le.mp h0) hk, rfl⟩
    · cases h

theorem getElem?_concat_length (xs : List α) (x : α) : (xs ++ [x])[xs.length]? = some x := by
  simp

end ArrayFusion
