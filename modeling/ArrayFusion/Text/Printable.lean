/-
ArrayFusion/Text/Printable.lean

Which characters print: those that leave a mark of their own on the page, and
the space.  A character that extends the one before it has no mark of its own.
The classes are general categories of the Unicode standard, version 17.0.
-/
import ArrayFusion.Text.Extending
import ArrayFusion.Text.Unassigned

namespace ArrayFusion.Text

/-- Controls. -/
def controls : Ranges :=
  [(0, 0x1F), (0x7F, 0x9F)]

/-- Characters that steer the layout of their neighbours, such as the soft
hyphen, direction marks and joiners. -/
def formatting : Ranges :=
  [(0xAD, 0xAD), (0x600, 0x605), (0x61C, 0x61C), (0x6DD, 0x6DD), (0x70F, 0x70F), (0x890, 0x891),
   (0x8E2, 0x8E2), (0x180E, 0x180E), (0x200B, 0x200F), (0x202A, 0x202E), (0x2060, 0x2064),
   (0x2066, 0x206F), (0xFEFF, 0xFEFF), (0xFFF9, 0xFFFB), (0x110BD, 0x110BD), (0x110CD, 0x110CD),
   (0x13430, 0x1343F), (0x1BCA0, 0x1BCA3), (0x1D173, 0x1D17A), (0xE0001, 0xE0001),
   (0xE0020, 0xE007F)]

/-- Spaces and separators of lines and paragraphs, apart from the space itself. -/
def separators : Ranges :=
  [(0xA0, 0xA0), (0x1680, 0x1680), (0x2000, 0x200A), (0x2028, 0x2029), (0x202F, 0x202F),
   (0x205F, 0x205F), (0x3000, 0x3000)]

/-- Code points left for private agreement. -/
def privateUse : Ranges :=
  [(0xE000, 0xF8FF), (0xF0000, 0xFFFFD), (0x100000, 0x10FFFD)]

theorem ascending_controls : controls.ascending = true := by decide

theorem ascending_formatting : formatting.ascending = true := by decide +kernel

theorem ascending_separators : separators.ascending = true := by decide

theorem ascending_privateUse : privateUse.ascending = true := by decide

/-- The classes of characters that do not print. -/
def unprintable : List Ranges :=
  [controls, formatting, separators, privateUse, unassigned, extending]

/-- Whether a character prints. -/
def prints (c : Char) : Bool :=
  unprintable.all fun rs => !rs.covers c.toNat

/-- A character prints exactly if it is in none of the ranges of any class. -/
theorem prints_iff (c : Char) :
    prints c = true ↔ ∀ rs ∈ unprintable, ∀ r ∈ rs, ¬(r.1 ≤ c.toNat ∧ c.toNat ≤ r.2) := by
  have h : ∀ rs ∈ unprintable, rs.ascending = true := by
    simp only [unprintable, List.mem_cons, List.not_mem_nil, or_false]
    rintro rs (rfl | rfl | rfl | rfl | rfl | rfl)
    · exact ascending_controls
    · exact ascending_formatting
    · exact ascending_separators
    · exact ascending_privateUse
    · exact ascending_unassigned
    · exact ascending_extending
  simp only [prints, List.all_eq_true, Bool.not_eq_true']
  constructor
  · intro hp rs hrs r hr hb
    have hc := (Ranges.covers_iff (h rs hrs) c.toNat).mpr ⟨r, hr, hb⟩
    rw [hp rs hrs] at hc
    cases hc
  · intro hp rs hrs
    cases hc : rs.covers c.toNat with
    | false => rfl
    | true =>
      obtain ⟨r, hr, hb⟩ := (Ranges.covers_iff (h rs hrs) c.toNat).mp hc
      exact absurd hb (hp rs hrs r hr)

end ArrayFusion.Text
