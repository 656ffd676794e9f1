/-
ArrayFusion/Proofs/Promotion.lean

What a scalar may do to the common dtype.

Design.  Whether scalars count is decided once for all of them: they do if one
of them outranks every array (`ScalarsOutrank`), and then the whole list is
joined, scalars of a low category included.  A low scalar does not change that
decision (`scalarsOutrank_insert`), so it matters only where another scalar
outranks the arrays.  There it is one more operand of the join.  A truth value
is neutral in a join.  An integer is not, and what it does depends on its
place: behind a float it is joined alone, before the first float it is joined
with the integers around it first, and their join can need a wider float than
each of them (`entersAs`).

Joins are not associative, but around floats they are tame.  An integer join
goes up in the order `Below`, a float takes the wider of two such joins
(`Below.promote_float`), and operands behind a float may be exchanged
(`foldl_promote_float`).

Main result: a low scalar leaves the common dtype as it is, unless it is an
integer and another scalar outranks the arrays; in that case the common dtype
is a float, and the scalar widens it to the float as which it enters the join
(`resultType_insert_low_scalar`).
-/
import ArrayFusion.DType.Promotion

namespace ArrayFusion.DType

/-! ### Statements about all dtypes -/

theorem mem_all (d : DType) : d ∈ all := by
  cases d with
  | bool => decide
  | int w | uint w => cases w <;> decide
  | float p => cases p <;> decide

instance (P : DType → Prop) [DecidablePred P] : Decidable (∀ d, P d) :=
  decidable_of_iff (∀ d ∈ all, P d) ⟨fun h d => h d d.mem_all, fun h d _ => h d⟩

/-! ### Joins of two dtypes -/

@[simp] theorem promote_bool (d : DType) : d.promote .bool = d := by
  revert d
  decide

theorem promote_self (d : DType) : d.promote d = d := by
  revert d
  decide

/-- A float with anything is a float. -/
theorem category_promote_left {d : DType} (hd : d.category = .float) (e : DType) :
    (d.promote e).category = .float := by
  revert d e
  decide

theorem category_promote_right (d : DType) {e : DType} (he : e.category = .float) :
    (d.promote e).category = .float := by
  revert d e
  decide

theorem category_floatLift (d : DType) : d.floatLift.category = .float := by
  revert d
  decide

theorem exists_float {d : DType} (hd : d.category = .float) : ∃ p, d = .float p := by
  cases d with
  | float p => exact ⟨p, rfl⟩
  | bool | int | uint => cases hd

/-- Behind a float an operand counts as the float it fits in. -/
theorem promote_floatLift {d : DType} (hd : d.category = .float) (e : DType) :
    d.promote e.floatLift = d.promote e := by
  revert d e
  decide

/-- Behind a float the order of two operands does not matter. -/
theorem promote_right_comm {d : DType} (hd : d.category = .float) (x y : DType) :
    (d.promote x).promote y = (d.promote y).promote x := by
  revert d x y
  decide +kernel

/-- How a join goes up: integers to integers that hold them, floats to wider
floats, and everything to double precision. -/
def Below : DType → DType → Prop
  | .bool, .bool => True
  | .bool, .int _ => True
  | .bool, .uint _ => True
  | .int v, .int w => v.bytes ≤ w.bytes
  | .uint v, .uint w => v.bytes ≤ w.bytes
  | .uint v, .int w => v.bytes < w.bytes
  | .float p, .float q => p.bytes ≤ q.bytes
  | _, .float .double => True
  | _, _ => False

instance (d e : DType) : Decidable (d.Below e) := by
  unfold Below
  split <;> infer_instance

/-- Joining an integer goes up. -/
theorem below_promote (d : DType) {e : DType} (he : e.category = .integer) :
    d.Below (d.promote e) := by
  revert d e
  decide

/-- Whatever is joined to both sides, the order stays. -/
theorem Below.promote {d e : DType} (h : d.Below e) (x : DType) :
    (d.promote x).Below (e.promote x) := by
  revert d e x
  decide +kernel

/-- The higher of two dtypes takes a float as far as both of them would. -/
theorem Below.promote_float {d e f : DType} (h : d.Below e) (hf : f.category = .float) :
    e.promote f = (d.promote f).promote e.floatLift := by
  revert d e f
  decide +kernel

/-! ### Joins of a list -/

/-- The join may start at the truth values. -/
theorem promoteAll_eq_foldl {ds : List DType} (h : ds ≠ []) :
    promoteAll ds = some (ds.foldl promote .bool) := by
  cases ds with
  | nil => exact absurd rfl h
  | cons d ds => rfl

theorem Below.foldl {d e : DType} (h : d.Below e) (ds : List DType) :
    (ds.foldl DType.promote d).Below (ds.foldl DType.promote e) := by
  induction ds generalizing d e with
  | nil => exact h
  | cons x ds ih => exact ih (h.promote x)

theorem foldl_promote_replicate (d : DType) (n : Nat) :
    (List.replicate n d).foldl promote d = d := by
  induction n with
  | zero => rfl
  | succ n ih => rw [List.replicate_succ, List.foldl_cons, promote_self, ih]

theorem category_foldl {d : DType} (hd : d.category = .float) (ds : List DType) :
    (ds.foldl promote d).category = .float := by
  induction ds generalizing d with
  | nil => exact hd
  | cons x ds ih => exact ih (category_promote_left hd x)

/-- A join with a float among its operands is a float. -/
theorem category_foldl_of_mem {ds : List DType} (d : DType)
    (h : ∃ f ∈ ds, f.category = .float) : (ds.foldl promote d).category = .float := by
  obtain ⟨f, hmem, hf⟩ := h
  obtain ⟨xs, ys, rfl⟩ := List.append_of_mem hmem
  rw [List.foldl_append, List.foldl_cons]
  exact category_foldl (category_promote_right _ hf) ys

/-- Behind a float an operand may be joined last. -/
theorem foldl_promote_float {d : DType} (hd : d.category = .float) (x : DType)
    (ds : List DType) :
    ds.foldl promote (d.promote x) = (ds.foldl promote d).promote x := by
  induction ds generalizing d with
  | nil => rfl
  | cons y ds ih =>
    rw [List.foldl_cons, promote_right_comm hd, ih (category_promote_left hd y), List.foldl_cons]

/-- The float as which `s` between `xs` and `ys` enters the join: alone if a
float stands before it, else together with everything up to the first float. -/
def entersAs (xs : List DType) (s : DType) (ys : List DType) : DType :=
  if ∃ f ∈ xs, f.category = .float then s.floatLift
  else ((xs ++ s :: ys.takeWhile fun d => d.category ≠ .float).foldl promote .bool).floatLift

theorem category_entersAs (xs : List DType) (s : DType) (ys : List DType) :
    (entersAs xs s ys).category = .float := by
  unfold entersAs
  split <;> exact category_floatLift _

/-- A list with a float, cut at its first float. -/
theorem exists_first_float {ds : List DType} (h : ∃ f ∈ ds, f.category = .float) :
    ∃ f rest, f.category = .float ∧
      ds = (ds.takeWhile fun d => d.category ≠ .float) ++ f :: rest := by
  induction ds with
  | nil => simp at h
  | cons d ds ih =>
    by_cases hd : d.category = .float
    · exact ⟨d, ds, hd, by simp [hd]⟩
    · obtain ⟨f, rest, hf, hrest⟩ := ih (by simpa [hd] using h)
      refine ⟨f, rest, hf, ?_⟩
      rw [List.takeWhile_cons_of_pos (by simpa using hd), List.cons_append, ← hrest]

/-- One more integer in a join that has a float. -/
theorem foldl_insert_integer {xs ys : List DType} {s : DType} (hs : s.category = .integer)
    (h : ∃ f ∈ xs ++ ys, f.category = .float) :
    (xs ++ s :: ys).foldl promote .bool
      = ((xs ++ ys).foldl promote .bool).promote (entersAs xs s ys) := by
  by_cases hxs : ∃ f ∈ xs, f.category = .float
  · -- the join is a float already when it comes to `s`
    have hx : (xs.foldl promote .bool).category = .float := category_foldl_of_mem _ hxs
    rw [entersAs, if_pos hxs, List.foldl_append, List.foldl_cons, List.foldl_append,
      foldl_promote_float hx, promote_floatLift (category_foldl hx ys)]
  · have hys : ∃ f ∈ ys, f.category = .float := by
      obtain ⟨f, hmem, hf⟩ := h
      rcases List.mem_append.mp hmem with hmem | hmem
      · exact absurd ⟨f, hmem, hf⟩ hxs
      · exact ⟨f, hmem, hf⟩
    obtain ⟨f, rest, hf, hsplit⟩ := exists_first_float hys
    rw [entersAs, if_neg hxs]
    -- `front` is what stands between `s` and the first float
    generalize (ys.takeWhile fun d => d.category ≠ .float) = front at hsplit ⊢
    subst hsplit
    have hbelow : (front.foldl promote (xs.foldl promote .bool)).Below
        (front.foldl promote ((xs.foldl promote .bool).promote s)) :=
      (below_promote _ hs).foldl front
    simp only [List.foldl_append, List.foldl_cons]
    rw [hbelow.promote_float hf, foldl_promote_float (category_promote_right _ hf)]

/-! ### When scalars count -/

theorem category_of_rank_lt {c d : Category} (h : c.rank < d.rank) :
    c = .bool ∨ c = .integer ∧ d = .float := by
  revert h
  cases c <;> cases d <;> decide

/-- Some scalar has a higher category than every array. -/
def ScalarsOutrank (ops : List OperandType) : Prop :=
  ∃ o ∈ ops, o.isScalar = true ∧
    ∀ a ∈ ops, a.isScalar = false → a.dtype.category.rank < o.dtype.category.rank

instance (ops : List OperandType) : Decidable (ScalarsOutrank ops) := by
  unfold ScalarsOutrank
  infer_instance

/-- The highest rank is the rank of an operand, and no operand lies above it. -/
theorem topCategory_eq_some_iff {b : Bool} {ops : List OperandType} {m : Nat} :
    topCategory b ops = some m ↔
      (∃ o ∈ ops, o.isScalar = b ∧ o.dtype.category.rank = m) ∧
      ∀ o ∈ ops, o.isScalar = b → o.dtype.category.rank ≤ m := by
  rw [topCategory, List.max?_eq_some_iff]
  simp only [List.mem_map, List.mem_filter, beq_iff_eq, and_assoc, forall_exists_index,
    and_imp]
  exact and_congr_right fun _ =>
    ⟨fun h o ho hb => h _ o ho hb rfl, fun h _ o ho hb hr => hr ▸ h o ho hb⟩

theorem exists_topCategory {b : Bool} {ops : List OperandType}
    (h : ∃ o ∈ ops, o.isScalar = b) : ∃ m, topCategory b ops = some m := by
  obtain ⟨o, hmem, hb⟩ := h
  rw [← Option.isSome_iff_exists, topCategory, List.isSome_max?_iff, ne_eq,
    List.map_eq_nil_iff, List.filter_eq_nil_iff]
  intro hnone
  exact hnone o hmem (by simp [hb])

/-- With scalars and arrays both there, the scalars count if one outranks the
arrays. -/
theorem scalarsCount_iff {ops : List OperandType} (harr : ∃ a ∈ ops, a.isScalar = false)
    (hsc : ∃ o ∈ ops, o.isScalar = true) : scalarsCount ops = true ↔ ScalarsOutrank ops := by
  obtain ⟨m, hm⟩ := exists_topCategory harr
  obtain ⟨n, hn⟩ := exists_topCategory hsc
  obtain ⟨⟨a, ha, haArr, rfl⟩, hle⟩ := topCategory_eq_some_iff.mp hm
  obtain ⟨⟨o, ho, hoSc, rfl⟩, hge⟩ := topCategory_eq_some_iff.mp hn
  simp only [scalarsCount, hm, hn, decide_eq_true_eq]
  constructor
  · intro hlt
    exact ⟨o, ho, hoSc, fun a' ha' harr' => Nat.lt_of_le_of_lt (hle a' ha' harr') hlt⟩
  · rintro ⟨o', ho', hoSc', hlt⟩
    exact Nat.lt_of_lt_of_le (hlt a ha haArr) (hge o' ho' hoSc')

/-- The common dtype joins all operands if a scalar outranks the arrays, and
otherwise the arrays. -/
theorem resultType_eq {ops : List OperandType} (harr : ∃ a ∈ ops, a.isScalar = false) :
    resultType ops = promoteAll
      ((if ScalarsOutrank ops then ops else ops.filter fun o => !o.isScalar).map (·.dtype)) := by
  by_cases hsc : ∃ o ∈ ops, o.isScalar = true
  · have hcount := scalarsCount_iff harr hsc
    by_cases hout : ScalarsOutrank ops
    · have hkeep : (ops.filter fun o => scalarsCount ops || !o.isScalar) = ops :=
        List.filter_eq_self.mpr fun o _ => by simp [hcount.mpr hout]
      rw [resultType, hkeep, if_pos hout]
    · have hfalse : scalarsCount ops = false := by simpa [hout] using hcount
      simp [resultType, hout, hfalse]
  · -- without scalars both readings keep the whole list
    have hall : ∀ o ∈ ops, (!o.isScalar) = true := by
      intro o ho
      cases hb : o.isScalar with
      | false => rfl
      | true => exact absurd ⟨o, ho, hb⟩ hsc
    have hkeep : (ops.filter fun o => !o.isScalar) = ops := List.filter_eq_self.mpr hall
    have hkeep' : (ops.filter fun o => scalarsCount ops || !o.isScalar) = ops :=
      List.filter_eq_self.mpr fun o ho => by simp [hall o ho]
    rw [resultType, hkeep', hkeep, ite_self]

/-- Arrays of one dtype have it in common. -/
theorem resultType_replicate (d : DType) {n : Nat} (hn : 0 < n) :
    resultType (List.replicate n ⟨d, false⟩) = some d := by
  obtain ⟨n, rfl⟩ := Nat.exists_eq_succ_of_ne_zero (Nat.ne_of_gt hn)
  have hfirst : OperandType.mk d false ∈ List.replicate (n + 1) ⟨d, false⟩ :=
    List.mem_cons_self
  rw [resultType_eq ⟨_, hfirst, rfl⟩, List.filter_eq_self.mpr, ite_self, List.map_replicate,
    List.replicate_succ, promoteAll, foldl_promote_replicate]
  intro o ho
  rw [List.eq_of_mem_replicate ho]
  rfl

/-! ### Low scalars -/

/-- Some array has at least the category of the operand. -/
def LowAmong (s : OperandType) (ops : List OperandType) : Prop :=
  ∃ a ∈ ops, a.isScalar = false ∧ s.dtype.category.rank ≤ a.dtype.category.rank

instance (s : OperandType) (ops : List OperandType) : Decidable (LowAmong s ops) := by
  unfold LowAmong
  infer_instance

section Insert

variable {xs ys : List OperandType} {s : OperandType}

theorem mem_insert {o : OperandType} : o ∈ xs ++ s :: ys ↔ o = s ∨ o ∈ xs ++ ys := by
  rw [List.mem_append, List.mem_cons, or_left_comm, List.mem_append]

/-- A low scalar neither outranks the arrays nor is one of them. -/
theorem scalarsOutrank_insert (hs : s.isScalar = true) (hlow : LowAmong s (xs ++ ys)) :
    ScalarsOutrank (xs ++ s :: ys) ↔ ScalarsOutrank (xs ++ ys) := by
  constructor
  · rintro ⟨o, ho, hsc, hlt⟩
    rcases mem_insert.mp ho with rfl | ho'
    · obtain ⟨a, ha, harr, hle⟩ := hlow
      exact absurd (hlt a (mem_insert.mpr (.inr ha)) harr) (Nat.not_lt.mpr hle)
    · exact ⟨o, ho', hsc, fun a ha => hlt a (mem_insert.mpr (.inr ha))⟩
  · rintro ⟨o, ho, hsc, hlt⟩
    refine ⟨o, mem_insert.mpr (.inr ho), hsc, fun a ha harr => ?_⟩
    rcases mem_insert.mp ha with rfl | ha'
    · rw [hs] at harr
      cases harr
    · exact hlt a ha' harr

/-- Where a scalar outranks the arrays, low operands are integers at most, and
an integer is low only beside a float. -/
theorem category_of_outrank {ops : List OperandType} (hlow : LowAmong s ops)
    (hout : ScalarsOutrank ops) :
    s.dtype.category = .bool ∨
    s.dtype.category = .integer ∧ ∃ o ∈ ops, o.dtype.category = .float := by
  obtain ⟨o, ho, -, hlt⟩ := hout
  obtain ⟨a, ha, harr, hle⟩ := hlow
  have hrank : s.dtype.category.rank < o.dtype.category.rank :=
    Nat.lt_of_le_of_lt hle (hlt a ha harr)
  rcases category_of_rank_lt hrank with hb | ⟨hi, hf⟩
  · exact .inl hb
  · exact .inr ⟨hi, o, ho, hf⟩

/-- **What a low scalar does.**  A scalar whose category is not above the
highest array category leaves the common dtype as it is, unless it is an
integer and another scalar outranks the arrays.  Then the common dtype is a
float, and the scalar widens it to the float as which it enters the join. -/
theorem resultType_insert_low_scalar (hs : s.isScalar = true)
    (hlow : LowAmong s (xs ++ ys)) :
    (¬ (s.dtype.category = .integer ∧ ScalarsOutrank (xs ++ ys)) →
      resultType (xs ++ s :: ys) = resultType (xs ++ ys)) ∧
    (s.dtype.category = .integer → ScalarsOutrank (xs ++ ys) →
      ∃ q k, resultType (xs ++ ys) = some (.float q) ∧
        entersAs (xs.map (·.dtype)) s.dtype (ys.map (·.dtype)) = .float k ∧
        resultType (xs ++ s :: ys) = some (.float (q.max k))) := by
  have harr : ∃ a ∈ xs ++ ys, a.isScalar = false := by
    obtain ⟨a, ha, h, -⟩ := hlow
    exact ⟨a, ha, h⟩
  have harr' : ∃ a ∈ xs ++ s :: ys, a.isScalar = false := by
    obtain ⟨a, ha, h⟩ := harr
    exact ⟨a, mem_insert.mpr (.inr ha), h⟩
  rw [resultType_eq harr', resultType_eq harr]
  simp only [scalarsOutrank_insert hs hlow]
  by_cases hout : ScalarsOutrank (xs ++ ys)
  · -- every operand is joined, the low scalar too
    have hne : (xs ++ ys).map (·.dtype) ≠ [] := by
      obtain ⟨a, ha, -⟩ := harr
      exact List.ne_nil_of_mem (List.mem_map_of_mem ha)
    rw [if_pos hout, if_pos hout, promoteAll_eq_foldl hne, promoteAll_eq_foldl (by simp)]
    simp only [List.map_append, List.map_cons]
    rcases category_of_outrank hlow hout with hbool | ⟨hint, hfloat⟩
    · refine ⟨fun _ => ?_, fun hint => ?_⟩
      · have hsb : s.dtype = .bool := by
          cases hd : s.dtype <;> simp [hd, category] at hbool
          rfl
        simp [hsb]
      · rw [hbool] at hint
        cases hint
    · refine ⟨fun h => absurd ⟨hint, hout⟩ h, fun _ _ => ?_⟩
      have hmem : ∃ f ∈ xs.map (·.dtype) ++ ys.map (·.dtype), f.category = .float := by
        obtain ⟨o, ho, hf⟩ := hfloat
        rw [← List.map_append]
        exact ⟨o.dtype, List.mem_map_of_mem ho, hf⟩
      obtain ⟨q, hq⟩ := exists_float (category_foldl_of_mem .bool hmem)
      obtain ⟨k, hk⟩ := exists_float
        (category_entersAs (xs.map (·.dtype)) s.dtype (ys.map (·.dtype)))
      exact ⟨q, k, by rw [hq], hk, by rw [foldl_insert_integer hint hmem, hq, hk]; rfl⟩
  · -- only the arrays are joined
    rw [if_neg hout, if_neg hout]
    exact ⟨fun _ => by simp [hs], fun _ h => absurd h hout⟩

end Insert

/-- An eight-bit array, a long scalar and a half-precision scalar: the long
scalar enters the join with the array and widens half to double precision. -/
theorem resultType_insert_low_scalar_long :
    LowAmong ⟨.int .w64, true⟩ [⟨.int .w8, false⟩, ⟨.float .half, true⟩] ∧
    ScalarsOutrank [⟨.int .w8, false⟩, ⟨.float .half, true⟩] ∧
    ∃ q k, resultType [⟨.int .w8, false⟩, ⟨.float .half, true⟩] = some (.float q) ∧
      entersAs [.int .w8] (.int .w64) [.float .half] = .float k ∧
      resultType [⟨.int .w8, false⟩, ⟨.int .w64, true⟩, ⟨.float .half, true⟩]
        = some (.float (q.max k)) := by
  have hlow : LowAmong ⟨.int .w64, true⟩ ([⟨.int .w8, false⟩] ++ [⟨.float .half, true⟩]) := by
    decide
  have hout : ScalarsOutrank ([⟨.int .w8, false⟩] ++ [⟨.float .half, true⟩]) := by decide
  exact ⟨hlow, hout, (resultType_insert_low_scalar rfl hlow).2 rfl hout⟩

/-- A low scalar can change the common dtype. -/
theorem low_scalar_counts :
    LowAmong ⟨.int .w64, true⟩ [⟨.int .w8, false⟩, ⟨.float .half, true⟩] ∧
    resultType [⟨.int .w8, false⟩, ⟨.int .w64, true⟩, ⟨.float .half, true⟩]
      = some (.float .double) ∧
    resultType [⟨.int .w8, false⟩, ⟨.float .half, true⟩] = some (.float .half) := by
  decide

end ArrayFusion.DType
