/-
ArrayFusion/Text/Ranges.lean

Sets of code points as lists of closed ranges.  A list that is ascending can
be searched from the left and given up at the first range that starts too
late; `covers_iff` says that nothing is missed.
-/
namespace ArrayFusion.Text

/-- Closed ranges of code points, each with its first and last member. -/
abbrev Ranges := List (Nat × Nat)

namespace Ranges

/-- Whether the ranges are nonempty, in ascending order and apart. -/
def ascending : Ranges → Bool
  | [] => true
  | [r] => decide (r.1 ≤ r.2)
  | r :: s :: rest => decide (r.1 ≤ r.2) && decide (r.2 + 1 < s.1) && ascending (s :: rest)

/-- Whether a code point lies in one of the ranges, searched in order. -/
def covers : Ranges → Nat → Bool
  | [], _ => false
  | r :: rest, n => if n < r.1 then false else if n ≤ r.2 then true else covers rest n

/-- How many code points the ranges hold. -/
def count : Ranges → Nat
  | [] => 0
  | r :: rest => (r.2 + 1 - r.1) + count rest

theorem ascending_tail {r : Nat × Nat} {rest : Ranges} (h : ascending (r :: rest) = true) :
    ascending rest = true := by
  cases rest with
  | nil => rfl
  | cons s rest =>
    simp only [ascending, Bool.and_eq_true] at h
    exact h.2

/-- The ranges after the first one of an ascending list start beyond it. -/
theorem lt_of_mem_tail {r : Nat × Nat} {rest : Ranges} (h : ascending (r :: rest) = true) :
    ∀ s ∈ rest, r.2 < s.1 := by
  induction rest generalizing r with
  | nil => intro s hs; cases hs
  | cons t rest ih =>
    intro s hs
    have ht := ascending_tail h
    simp only [ascending, Bool.and_eq_true, decide_eq_true_eq] at h
    rcases List.mem_cons.mp hs with rfl | hs
    · omega
    · have hlt := ih ht s hs
      have hle : t.1 ≤ t.2 := by
        cases rest with
        | nil => cases hs
        | cons u rest =>
          simp only [ascending, Bool.and_eq_true, decide_eq_true_eq] at ht
          exact ht.1.1
      omega

/-- In an ascending list the search finds exactly the members of the ranges. -/
theorem covers_iff {rs : Ranges} (h : ascending rs = true) (n : Nat) :
    covers rs n = true ↔ ∃ r ∈ rs, r.1 ≤ n ∧ n ≤ r.2 := by
  induction rs with
  | nil => simp [covers]
  | cons r rest ih =>
    have hlt := lt_of_mem_tail h
    have ih := ih (ascending_tail h)
    by_cases hlo : n < r.1
    · have hr : r.1 ≤ r.2 := by
        cases rest with
        | nil => simpa [ascending] using h
        | cons s rest =>
          simp only [ascending, Bool.and_eq_true, decide_eq_true_eq] at h
          exact h.1.1
      simp only [covers, hlo, if_true, Bool.false_eq_true, false_iff]
      rintro ⟨s, hs, hl, -⟩
      rcases List.mem_cons.mp hs with rfl | hs
      · omega
      · have := hlt s hs
        omega
    · by_cases hhi : n ≤ r.2
      · simp only [covers, hlo, hhi, if_false, if_true, true_iff]
        exact ⟨r, List.mem_cons_self, by omega, hhi⟩
      · simp only [covers, hlo, hhi, if_false]
        rw [ih]
        constructor
        · rintro ⟨s, hs, hb⟩
          exact ⟨s, List.mem_cons_of_mem r hs, hb⟩
        · rintro ⟨s, hs, hb⟩
          rcases List.mem_cons.mp hs with rfl | hs
          · omega
          · exact ⟨s, hs, hb⟩

end Ranges

end ArrayFusion.Text
