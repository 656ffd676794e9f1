/-
ArrayFusion/Proofs/Reduction/TwoSteps.lean

Reducing along an axis and then the rest gives what reducing at once gives.

Design.  On dtypes that are not floats the function that a reduction folds
with is commutative and associative (`lawful`): modulo a power of two, in a
linear order, or on truth values.  With such a function the slots of an
accumulator have a total that does not depend on how elements are spread over
them.  A push multiplies the total by its element, whichever slot takes it
(`total_push`), and so a run multiplies it by all elements (`total_pushAll`).

Main result: the two ways fail together, for one reason, or have the same
element (`Eager.reduce_in_two_steps`).
-/
import Mathlib.Data.Int.ModEq
import ArrayFusion.Proofs.Eager
import ArrayFusion.Proofs.Reduction.Lanes

namespace ArrayFusion

/-! ### The functions that reductions fold with -/

namespace Width

@[simp] theorem wrapInt_w64 (i : Int64) : w64.wrapInt i = i := by
  have hmod : w64.modulus = Int64.size := rfl
  rw [wrapInt, hmod, ← Int64.toInt_ofInt, Int64.ofInt_toInt, Int64.ofInt_toInt]

@[simp] theorem wrapUInt_w64 (u : UInt64) : w64.wrapUInt u = u := by
  have hmod : w64.modulus = UInt64.size := rfl
  rw [wrapUInt, hmod, Nat.mod_eq_of_lt u.toNat_lt_size, UInt64.ofNat_toNat]

end Width

namespace Reduction

/-- Two elements combined in a dtype. -/
def join (op : Reduction) (d : DType) (a b : Elem) : Elem :=
  op.combine d (a.cast d) (b.cast d)

/-- Elements may be combined in any order and grouping. -/
structure Lawful (op : Reduction) (d : DType) : Prop where
  comm : Std.Commutative (op.join d)
  assoc : Std.Associative (op.join d)

/-- A function on elements that computes on one of their views. -/
theorem lawful_of_view {op : Reduction} {d : DType} {α : Type} (view : Elem → α) (mk : α → Elem)
    {g : α → α → α} (hjoin : ∀ a b, op.join d a b = mk (g (view a) (view b)))
    (hview : ∀ a b, view (mk (g (view a) (view b))) = g (view a) (view b))
    (comm : ∀ x y, g x y = g y x) (assoc : ∀ x y z, g (g x y) z = g x (g y z)) :
    op.Lawful d where
  comm := ⟨fun a b => by rw [hjoin, hjoin, comm]⟩
  assoc := ⟨fun a b c => by simp only [hjoin, hview, assoc]⟩

/-- Signed words, if no result leaves the width. -/
theorem lawful_signed {op : Reduction} {w : Width} {g : Int64 → Int64 → Int64}
    (hop : ∀ x y, op.combine (.int w) (.int x) (.int y) = .int (w.wrapInt (g x y)))
    (hwrap : ∀ x y, w.wrapInt x = x → w.wrapInt y = y → w.wrapInt (g x y) = g x y)
    (comm : ∀ x y, g x y = g y x) (assoc : ∀ x y z, g (g x y) z = g x (g y z)) :
    op.Lawful (.int w) := by
  have hwrap : ∀ a b : Elem, w.wrapInt (g (w.wrapInt a.toInt64) (w.wrapInt b.toInt64)) =
      g (w.wrapInt a.toInt64) (w.wrapInt b.toInt64) :=
    fun a b => hwrap _ _ (w.wrapInt_wrapInt _) (w.wrapInt_wrapInt _)
  refine lawful_of_view (fun a => w.wrapInt a.toInt64) .int ?_ hwrap comm assoc
  intro a b
  exact (hop _ _).trans (congrArg Elem.int (hwrap a b))

/-- Unsigned words, if no result leaves the width. -/
theorem lawful_unsigned {op : Reduction} {w : Width} {g : UInt64 → UInt64 → UInt64}
    (hop : ∀ x y, op.combine (.uint w) (.uint x) (.uint y) = .uint (w.wrapUInt (g x y)))
    (hwrap : ∀ x y, w.wrapUInt x = x → w.wrapUInt y = y → w.wrapUInt (g x y) = g x y)
    (comm : ∀ x y, g x y = g y x) (assoc : ∀ x y z, g (g x y) z = g x (g y z)) :
    op.Lawful (.uint w) := by
  have hwrap : ∀ a b : Elem, w.wrapUInt (g (w.wrapUInt a.toUInt64) (w.wrapUInt b.toUInt64)) =
      g (w.wrapUInt a.toUInt64) (w.wrapUInt b.toUInt64) :=
    fun a b => hwrap _ _ (w.wrapUInt_wrapUInt _) (w.wrapUInt_wrapUInt _)
  refine lawful_of_view (fun a => w.wrapUInt a.toUInt64) .uint ?_ hwrap comm assoc
  intro a b
  exact (hop _ _).trans (congrArg Elem.uint (hwrap a b))

/-- Truth values. -/
theorem lawful_bool {op : Reduction} {g : Bool → Bool → Bool}
    (hop : ∀ x y, op.combine .bool (.bool x) (.bool y) = .bool (g x y))
    (comm : ∀ x y, g x y = g y x) (assoc : ∀ x y z, g (g x y) z = g x (g y z)) :
    op.Lawful .bool :=
  lawful_of_view Elem.toBool .bool (fun _ _ => hop _ _) (fun _ _ => rfl) comm assoc

/-- Which dtypes a reduction may be regrouped on. -/
def Regroups (op : Reduction) (d : DType) : Prop :=
  d.isFloat = false ∨ op = .all ∨ op = .any

instance (op : Reduction) (d : DType) : Decidable (op.Regroups d) :=
  inferInstanceAs (Decidable (_ ∨ _ ∨ _))

theorem lawful_sum {d : DType} (h : d.isFloat = false) : sum.Lawful (sum.outputDType d) := by
  have hint : sum.Lawful (.int .w64) :=
    lawful_signed (fun _ _ => rfl) (by simp) Int64.add_comm Int64.add_assoc
  cases d with
  | bool | int => exact hint
  | uint => exact lawful_unsigned (fun _ _ => rfl) (by simp) UInt64.add_comm UInt64.add_assoc
  | float => cases h

theorem lawful_prod {d : DType} (h : d.isFloat = false) : prod.Lawful (prod.outputDType d) := by
  have hint : prod.Lawful (.int .w64) :=
    lawful_signed (fun _ _ => rfl) (by simp) Int64.mul_comm Int64.mul_assoc
  cases d with
  | bool | int => exact hint
  | uint => exact lawful_unsigned (fun _ _ => rfl) (by simp) UInt64.mul_comm UInt64.mul_assoc
  | float => cases h

-- the larger and the smaller of two words are one of them, so they fit
theorem lawful_amax {d : DType} (h : d.isFloat = false) : amax.Lawful d := by
  cases d with
  | bool => exact lawful_bool (fun _ _ => rfl) Bool.or_comm Bool.or_assoc
  | int =>
    exact lawful_signed (g := fun x y => if x ≤ y then y else x) (fun _ _ => rfl) (by grind)
      (by grind) (by grind)
  | uint =>
    exact lawful_unsigned (g := fun x y => if x ≤ y then y else x) (fun _ _ => rfl) (by grind)
      (by grind) (by grind)
  | float => cases h

theorem lawful_amin {d : DType} (h : d.isFloat = false) : amin.Lawful d := by
  cases d with
  | bool => exact lawful_bool (fun _ _ => rfl) Bool.and_comm Bool.and_assoc
  | int =>
    exact lawful_signed (g := fun x y => if x ≤ y then x else y) (fun _ _ => rfl) (by grind)
      (by grind) (by grind)
  | uint =>
    exact lawful_unsigned (g := fun x y => if x ≤ y then x else y) (fun _ _ => rfl) (by grind)
      (by grind) (by grind)
  | float => cases h

theorem lawful {op : Reduction} {d : DType} (h : op.Regroups d) : op.Lawful (op.outputDType d) := by
  have hfloat : op ≠ .all → op ≠ .any → d.isFloat = false := by
    intro hall hany
    rcases h with h | h | h
    · exact h
    · exact absurd h hall
    · exact absurd h hany
  cases op with
  | sum => exact lawful_sum (hfloat nofun nofun)
  | prod => exact lawful_prod (hfloat nofun nofun)
  | amax => exact lawful_amax (hfloat nofun nofun)
  | amin => exact lawful_amin (hfloat nofun nofun)
  | all => exact lawful_bool (fun _ _ => rfl) Bool.and_comm Bool.and_assoc
  | any => exact lawful_bool (fun _ _ => rfl) Bool.or_comm Bool.or_assoc

@[simp] theorem outputDType_outputDType (op : Reduction) (d : DType) :
    op.outputDType (op.outputDType d) = op.outputDType d := by
  cases op <;> cases d <;> rfl

/-! ### Totals -/

/-- Two slots combined; an empty one counts for nothing. -/
def merge (op : Reduction) (d : DType) : Option Elem → Option Elem → Option Elem :=
  Option.merge (op.join d)

/-- All slots combined. -/
def total (op : Reduction) (d : DType) (cells : List (Option Elem)) : Option Elem :=
  cells.foldr (op.merge d) none

variable {op : Reduction} {d : DType}

@[simp] theorem merge_none (x : Option Elem) : op.merge d x none = x := by
  cases x <;> rfl

@[simp] theorem total_singleton (x : Option Elem) : op.total d [x] = x :=
  merge_none x

theorem Lawful.merge_comm (h : op.Lawful d) (x y : Option Elem) :
    op.merge d x y = op.merge d y x := by
  have := h.comm
  exact (Option.commutative_merge (op.join d)).comm x y

theorem Lawful.merge_assoc (h : op.Lawful d) (x y z : Option Elem) :
    op.merge d (op.merge d x y) z = op.merge d x (op.merge d y z) := by
  have := h.assoc
  exact (Option.associative_merge (op.join d)).assoc x y z

/-- Whichever slot an element goes to, the total takes it. -/
theorem Lawful.total_set (h : op.Lawful d) {cells : List (Option Elem)} {j : Nat}
    {cell : Option Elem} (hj : cells[j]? = some cell) (v : Option Elem) :
    op.total d (cells.set j (op.merge d cell v)) = op.merge d (op.total d cells) v := by
  induction cells generalizing j with
  | nil => simp at hj
  | cons c cells ih =>
    cases j with
    | zero =>
      -- the element moves past the slots behind
      obtain rfl : c = cell := Option.some.inj hj
      show op.merge d (op.merge d c v) (op.total d cells) =
        op.merge d (op.merge d c (op.total d cells)) v
      rw [h.merge_assoc, h.merge_comm v, h.merge_assoc]
    | succ j =>
      show op.merge d c (op.total d (cells.set j (op.merge d cell v))) =
        op.merge d (op.merge d c (op.total d cells)) v
      rw [ih hj, h.merge_assoc]

/-- Combining identities yields the identity. -/
theorem merge_identity (h : op.Regroups d) :
    op.merge (op.outputDType d) (op.identity (op.outputDType d))
      (op.identity (op.outputDType d)) = op.identity (op.outputDType d) := by
  rcases h with h | rfl | rfl
  · cases d with
    | bool => cases op <;> decide
    | int w | uint w => cases w <;> cases op <;> decide
    | float => cases h
  · rfl
  · rfl

theorem merge_total_replicate {e : Option Elem} (h : op.Lawful d) (he : op.merge d e e = e)
    (n : Nat) : op.merge d e (op.total d (List.replicate n e)) = e := by
  induction n with
  | zero => exact merge_none e
  | succ n ih =>
    show op.merge d e (op.merge d e (op.total d (List.replicate n e))) = e
    rw [← h.merge_assoc, he, ih]

end Reduction

namespace Accumulator

theorem canonical_push {acc acc' : Accumulator} (hc : acc.Canonical) {slot : Nat} {value : Elem}
    (h : acc.push slot value = .ok acc') : acc'.Canonical := by
  obtain ⟨cell, hcell, -⟩ := push_eq_ok h
  obtain ⟨acc₁, h₁, hc₁, -⟩ := push_spec hc (List.getElem?_eq_some_iff.mp hcell).1 value
  cases h.symm.trans h₁
  exact hc₁

theorem fill_eq_merge (acc : Accumulator) {cell : Option Elem}
    (hc : ∀ e, cell = some e → e.Canonical acc.dtype) (value : Elem) :
    some (acc.fill cell value) =
      acc.op.merge acc.dtype cell (some (value.cast acc.dtype)) := by
  cases cell with
  | none => rfl
  | some e =>
    show some (acc.op.combine acc.dtype e (value.cast acc.dtype)) =
      some (acc.op.combine acc.dtype (e.cast acc.dtype) ((value.cast acc.dtype).cast acc.dtype))
    rw [Elem.cast_cast, hc e rfl]

/-- What one more element does to the total. -/
theorem total_push {acc acc' : Accumulator} (hl : acc.op.Lawful acc.dtype) (hc : acc.Canonical)
    {slot : Nat} {value : Elem} (h : acc.push slot value = .ok acc') :
    acc.op.total acc.dtype acc'.slots = acc.op.merge acc.dtype (acc.op.total acc.dtype acc.slots)
      (some (value.cast acc.dtype)) := by
  obtain ⟨cell, hcell, rfl⟩ := push_eq_ok h
  have hmem : ∀ e, cell = some e → e.Canonical acc.dtype := by
    rintro e rfl
    exact hc e (List.mem_of_getElem? hcell)
  rw [acc.fill_eq_merge hmem]
  exact hl.total_set hcell _

/-- What a run does to the total: it takes all elements, wherever they go. -/
theorem total_pushAll {slotAt : Nat → Nat} {acc acc' : Accumulator}
    (hl : acc.op.Lawful acc.dtype) (hc : acc.Canonical) {flat : Nat} {data : List Elem}
    (h : acc.pushAll slotAt flat data = .ok acc') :
    acc.op.total acc.dtype acc'.slots = acc.op.merge acc.dtype (acc.op.total acc.dtype acc.slots)
      (acc.op.total acc.dtype (data.map fun v => some (v.cast acc.dtype))) := by
  induction data generalizing acc flat with
  | nil =>
    cases h
    exact (Reduction.merge_none _).symm
  | cons v vs ih =>
    obtain ⟨mid, hmid, h⟩ := except_bind_eq_ok.mp h
    have hstep := total_push hl hc hmid
    have hcmid := canonical_push hc hmid
    obtain ⟨cell, -, hsame⟩ := push_eq_ok hmid
    have hlmid : mid.op.Lawful mid.dtype := by
      rw [hsame]
      exact hl
    have hrest := ih hlmid hcmid h
    subst hsame
    refine hrest.trans ?_
    show acc.op.merge acc.dtype (acc.op.total acc.dtype _) _ =
      acc.op.merge acc.dtype _ (acc.op.merge acc.dtype (some (v.cast acc.dtype)) _)
    rw [hstep, hl.merge_assoc]
    rfl

theorem map_some_finish {acc : Accumulator} (h : none ∉ acc.slots) :
    acc.finish.map some = acc.slots := by
  rw [finish, List.map_map]
  conv => rhs; rw [← List.map_id acc.slots]
  apply List.map_congr_left
  intro cell hcell
  cases cell with
  | none => exact absurd hcell h
  | some e => rfl

end Accumulator

namespace Reduction

variable {op : Reduction} {d : DType} {data : List Elem} {s out : Shape} {axis : Option Nat}

/-- The total of a result is that of the elements and of the identities that
its slots started with. -/
theorem total_reduceElems (hl : op.Lawful (op.outputDType d)) (hd : data.length = s.count)
    (ho : op.reducedShape s axis = .ok out) {slots : List Elem}
    (hr : op.reduceElems data s d axis = .ok (slots, out)) :
    op.total (op.outputDType d) (slots.map some) =
      op.merge (op.outputDType d)
        (op.total (op.outputDType d) (List.replicate out.count (op.identity (op.outputDType d))))
        (op.total (op.outputDType d) (data.map fun v => some (v.cast (op.outputDType d)))) := by
  obtain ⟨acc, hacc, hreduce, hlen, -⟩ := reduceElems_spec d hd ho
  obtain rfl : slots = acc.finish := congrArg Prod.fst (Except.ok.inj (hr.symm.trans hreduce))
  rw [Accumulator.length_finish] at hlen
  rw [Accumulator.map_some_finish (slots_filled ho hd hacc hlen)]
  exact Accumulator.total_pushAll hl (Accumulator.canonical_start _ _ _) hacc

/-- A reduction to a scalar, as one element. -/
theorem reduceElems_scalar (d : DType) (hd : data.length = s.count)
    (ho : op.reducedShape s axis = .ok .scalar) :
    ∃ e, op.reduceElems data s d axis = .ok ([e], .scalar) := by
  obtain ⟨acc, -, hreduce, hlen, -⟩ := reduceElems_spec d hd ho
  obtain ⟨e, he⟩ := List.length_eq_one_iff.mp hlen
  exact ⟨e, by rw [hreduce, he]⟩

/-- Where all three reductions have a shape, the second step ends in the
element that reducing at once ends in. -/
theorem reduceElems_in_two_steps (hg : op.Regroups d) (hd : data.length = s.count)
    (ho : op.reducedShape s axis = .ok out) (hrest : op.reducedShape out none = .ok .scalar)
    (honce : op.reducedShape s none = .ok .scalar) :
    ∃ slots e, op.reduceElems data s d axis = .ok (slots, out) ∧
      op.reduceElems slots out (op.outputDType d) none = .ok ([e], .scalar) ∧
      op.reduceElems data s d none = .ok ([e], .scalar) := by
  have hl := lawful hg
  obtain ⟨acc, -, hfirst, hlen, hcan⟩ := reduceElems_spec d hd ho
  obtain ⟨e₂, hsecond⟩ := reduceElems_scalar (op.outputDType d) hlen hrest
  obtain ⟨e₁, hall⟩ := reduceElems_scalar d hd honce
  have hcast : acc.finish.map (fun v => some (v.cast (op.outputDType d))) =
      acc.finish.map some :=
    List.map_congr_left fun v hv => congrArg some (hcan v hv)
  have htotal := total_reduceElems hl hd ho hfirst
  have htotal₁ := total_reduceElems hl hd honce hall
  have htotal₂ := total_reduceElems (by rwa [outputDType_outputDType]) hlen hrest hsecond
  -- both scalars are the identity combined with the total of the elements
  rw [outputDType_outputDType, hcast, htotal, ← hl.merge_assoc] at htotal₂
  simp only [List.map_cons, List.map_nil, total_singleton, Shape.count_scalar,
    List.replicate_one] at htotal₁ htotal₂
  rw [merge_total_replicate hl (merge_identity hg), ← htotal₁] at htotal₂
  obtain rfl : e₂ = e₁ := Option.some.inj htotal₂
  exact ⟨acc.finish, e₂, hfirst, hsecond, hall⟩

/-- Reducing at once is one fold over all elements. -/
theorem fold_of_reduceElems (hd : data.length = s.count) (ho : op.reducedShape s none = .ok .scalar)
    {e : Elem} (hr : op.reduceElems data s d none = .ok ([e], .scalar)) :
    op.fold (op.outputDType d) data = some e := by
  obtain ⟨acc, hacc, hreduce, -⟩ := reduceElems_spec d hd ho
  have hfinish : [e] = acc.finish := congrArg Prod.fst (Except.ok.inj (hr.symm.trans hreduce))
  have hfold := getElem?_finish_eq_fold ho hd hacc Nat.one_pos
  rw [← hfinish, show Shape.scalar.unravel 0 = [] from rfl, Shape.map_snd_lane_none hd] at hfold
  exact hfold.symm

/-! ### Sums and products as integers -/

/-- The reduction folds words of sixty-four bits as `f` folds integers from
`z` on, modulo their number. -/
structure Modular (op : Reduction) (f : Int → Int → Int) (z : Int) : Prop where
  dtype : ∀ d, op.outputDType d = sum.outputDType d
  start : ∀ d, ∃ e, op.identity d = some e ∧ (d = .int .w64 ∨ d = .uint .w64 → e.integer = z)
  signed : ∀ x y : Int64, (op.combine (.int .w64) (.int x) (.int y)).integer ≡
    f x.toInt y.toInt [ZMOD 2 ^ 64]
  unsigned : ∀ x y : UInt64, (op.combine (.uint .w64) (.uint x) (.uint y)).integer ≡
    f x.toNat y.toNat [ZMOD 2 ^ 64]
  congr : ∀ {x y : Int} (u : Int), x ≡ y [ZMOD 2 ^ 64] → f x u ≡ f y u [ZMOD 2 ^ 64]

theorem modular_sum : sum.Modular (· + ·) 0 where
  dtype _ := rfl
  start d := ⟨_, rfl, by rintro (rfl | rfl) <;> decide⟩
  signed x y := by
    show (Width.w64.wrapInt (x + y)).toInt ≡ x.toInt + y.toInt [ZMOD 2 ^ 64]
    rw [Width.wrapInt_w64, Int64.toInt_add]
    exact Int.bmod_emod
  unsigned x y := by
    show ((Width.w64.wrapUInt (x + y)).toNat : Int) ≡ x.toNat + y.toNat [ZMOD 2 ^ 64]
    rw [Width.wrapUInt_w64, UInt64.toNat_add]
    push_cast
    exact Int.mod_modEq _ _
  congr u h := h.add_right u

theorem modular_prod : prod.Modular (· * ·) 1 where
  dtype d := by cases d <;> rfl
  start d := ⟨_, rfl, by rintro (rfl | rfl) <;> decide⟩
  signed x y := by
    show (Width.w64.wrapInt (x * y)).toInt ≡ x.toInt * y.toInt [ZMOD 2 ^ 64]
    rw [Width.wrapInt_w64, Int64.toInt_mul]
    exact Int.bmod_emod
  unsigned x y := by
    show ((Width.w64.wrapUInt (x * y)).toNat : Int) ≡ x.toNat * y.toNat [ZMOD 2 ^ 64]
    rw [Width.wrapUInt_w64, UInt64.toNat_mul]
    push_cast
    exact Int.mod_modEq _ _
  congr u h := h.mul_right u

section

variable {f : Int → Int → Int} {z : Int} (hm : op.Modular f z)
include hm

theorem Modular.combine (hd : d = .int .w64 ∨ d = .uint .w64) {a b : Elem} (ha : a.Canonical d)
    (hb : b.Canonical d) :
    (op.combine d a b).integer ≡ f a.integer b.integer [ZMOD 2 ^ 64] := by
  rcases hd with rfl | rfl
  · obtain ⟨x, rfl⟩ : ∃ x, a = .int x := ⟨_, ha.symm⟩
    obtain ⟨y, rfl⟩ : ∃ y, b = .int y := ⟨_, hb.symm⟩
    exact hm.signed x y
  · obtain ⟨x, rfl⟩ : ∃ x, a = .uint x := ⟨_, ha.symm⟩
    obtain ⟨y, rfl⟩ : ∃ y, b = .uint y := ⟨_, hb.symm⟩
    exact hm.unsigned x y

theorem Modular.foldl (hd : d = .int .w64 ∨ d = .uint .w64) {vs : List Elem}
    (hvs : ∀ v ∈ vs, v.Canonical d) {e : Elem} (he : e.Canonical d) {u : Int}
    (hu : e.integer ≡ u [ZMOD 2 ^ 64]) :
    (vs.foldl (op.combine d) e).integer ≡ (vs.map Elem.integer).foldl f u [ZMOD 2 ^ 64] := by
  induction vs generalizing e u with
  | nil => exact hu
  | cons v vs ih =>
    have hstep := (hm.combine hd he (hvs v List.mem_cons_self)).trans (hm.congr v.integer hu)
    exact ih (fun v' hv' => hvs v' (List.mem_cons_of_mem v hv')) (Elem.canonical_cast _ d) hstep

/-- Sixty-four bits hold the elements of every dtype that is not a float. -/
theorem Modular.integer_cast (hd : d.isFloat = false) {v : Elem} (hv : v.Canonical d) :
    (v.cast (op.outputDType d)).integer = v.integer := by
  rw [hm.dtype]
  cases d with
  | bool =>
    obtain ⟨b, rfl⟩ : ∃ b, v = .bool b := ⟨_, hv.symm⟩
    cases b <;> decide
  | int =>
    obtain ⟨x, rfl⟩ : ∃ x, v = .int x := ⟨_, hv.symm⟩
    exact congrArg Int64.toInt (Width.wrapInt_w64 x)
  | uint =>
    obtain ⟨x, rfl⟩ : ∃ x, v = .uint x := ⟨_, hv.symm⟩
    exact congrArg (fun u => (UInt64.toNat u : Int)) (Width.wrapUInt_w64 x)
  | float => cases hd

/-- A fold of stored elements is that of the integers they stand for. -/
theorem Modular.fold (hd : d.isFloat = false) (hdata : ∀ v ∈ data, v.Canonical d) {e : Elem}
    (h : op.fold (op.outputDType d) data = some e) :
    e.integer ≡ (data.map Elem.integer).foldl f z [ZMOD 2 ^ 64] := by
  have hword : op.outputDType d = .int .w64 ∨ op.outputDType d = .uint .w64 := by
    rw [hm.dtype]
    cases d with
    | bool | int => exact .inl rfl
    | uint => exact .inr rfl
    | float => cases hd
  obtain ⟨e₀, he₀, hz⟩ := hm.start (op.outputDType d)
  have hintegers : (data.map (·.cast (op.outputDType d))).map Elem.integer =
      data.map Elem.integer := by
    rw [List.map_map]
    exact List.map_congr_left fun v hv => hm.integer_cast hd (hdata v hv)
  have hcast : ∀ v ∈ data.map (·.cast (op.outputDType d)), v.Canonical (op.outputDType d) := by
    intro v hv
    obtain ⟨u, -, rfl⟩ := List.mem_map.mp hv
    exact Elem.canonical_cast u _
  simp only [Reduction.fold, he₀, Option.some.injEq] at h
  rw [← h, ← hintegers]
  exact hm.foldl hword hcast (canonical_identity he₀) (by rw [hz hword])

end

/-! ### Where reductions fail -/

theorem reduceElems_of_error (d : DType) {e : Error} (h : op.reducedShape s axis = .error e) :
    op.reduceElems data s d axis = .error e := by
  rw [reduceElems, h]
  rfl

theorem reducedShape_none_eq (op : Reduction) (s : Shape) :
    op.reducedShape s none =
      if op.hasIdentity = false ∧ s.count = 0 then .error (.shape (.emptyReduction op))
      else .ok .scalar := by
  have haxis : ∀ a ∈ (none : Option Nat), a < s.ndim := nofun
  rw [reducedShape_eq haxis]
  refine if_congr ⟨?_, ?_⟩ rfl rfl
  · rintro ⟨hsize, -, hid⟩
    exact ⟨hid, hsize⟩
  · rintro ⟨hid, hsize⟩
    exact ⟨hsize, Nat.one_pos, hid⟩

/-- No elements at all: lanes without elements, or no lanes. -/
theorem count_eq_zero_iff (ha : ∀ a ∈ axis, a < s.ndim) :
    s.count = 0 ↔ countAlong s axis = 0 ∨ (s.without axis).count = 0 := by
  cases axis with
  | none =>
    show s.count = 0 ↔ s.count = 0 ∨ 1 = 0
    omega
  | some a =>
    show Shape.extent s.dims = 0 ↔ s.dims.getD a 1 = 0 ∨ Shape.extent (s.dims.eraseIdx a) = 0
    rw [extent_split (ha a rfl), extent_eraseIdx, Nat.mul_eq_zero, Nat.mul_eq_zero,
      Nat.mul_eq_zero]
    exact or_left_comm

/-- With elements, or with an identity, every step has a shape. -/
theorem reducedShapes_of_nonempty (ha : ∀ a ∈ axis, a < s.ndim)
    (h : ¬(op.hasIdentity = false ∧ s.count = 0)) :
    op.reducedShape s axis = .ok (s.without axis) ∧
      op.reducedShape (s.without axis) none = .ok .scalar ∧
      op.reducedShape s none = .ok .scalar := by
  have hsize := count_eq_zero_iff ha
  refine ⟨?_, ?_, ?_⟩
  · rw [reducedShape_eq ha, if_neg]
    rintro ⟨hcount, -, hid⟩
    exact h ⟨hid, hsize.mpr (.inl hcount)⟩
  · rw [reducedShape_none_eq, if_neg]
    rintro ⟨hid, hout⟩
    exact h ⟨hid, hsize.mpr (.inr hout)⟩
  · rw [reducedShape_none_eq, if_neg h]

/-- Without either, the first step fails or leaves no elements. -/
theorem reducedShapes_of_empty (ha : ∀ a ∈ axis, a < s.ndim)
    (h : op.hasIdentity = false ∧ s.count = 0) :
    op.reducedShape s axis = .error (.shape (.emptyReduction op)) ∨
      op.reducedShape s axis = .ok (s.without axis) ∧
        op.reducedShape (s.without axis) none = .error (.shape (.emptyReduction op)) := by
  by_cases hout : (s.without axis).count = 0
  · refine .inr ⟨?_, ?_⟩
    · rw [reducedShape_eq ha, if_neg]
      rintro ⟨-, hpos, -⟩
      exact Nat.ne_of_gt hpos hout
    · rw [reducedShape_none_eq, if_pos ⟨h.1, hout⟩]
  · left
    have hcount := ((count_eq_zero_iff ha).mp h.2).resolve_right hout
    rw [reducedShape_eq ha, if_pos ⟨hcount, Nat.pos_of_ne_zero hout, h.1⟩]

end Reduction

/-! ### On arrays -/

namespace Eager

theorem reduce_apply (op : Reduction) (x : Operand) (axis : Option Nat) (s : Store) :
    reduce op x axis s =
      match op.reduceElems (x.elems s) x.shape x.dtype axis with
      | .error e => (.error e, s)
      | .ok out => NDArray.alloc out.1 (op.outputDType x.dtype) out.2 s := by
  rw [reduce, Exec.bind_apply, Exec.get_apply]
  dsimp only
  rw [Exec.bind_apply, Exec.lift_apply]
  cases op.reduceElems (x.elems s) x.shape x.dtype axis <;> rfl

/-- Reduces along an axis, and then what is left. -/
def reduceTwice (op : Reduction) (x : Operand) (axis : Option Nat) : Exec Store NDArray := do
  let y ← reduce op x axis
  reduce op (.array y) none

theorem reduceTwice_of_ok {op : Reduction} {x : Operand} {axis : Option Nat} {s : Store}
    {slots : List Elem} {out : Shape}
    (h : op.reduceElems (x.elems s) x.shape x.dtype axis = .ok (slots, out)) :
    reduceTwice op x axis s =
      match op.reduceElems slots out (op.outputDType x.dtype) none with
      | .error e => (.error e, s.push slots)
      | .ok rest => NDArray.alloc rest.1 (op.outputDType x.dtype) rest.2 (s.push slots) := by
  have hread : (Operand.array ⟨s.buffers.length, op.outputDType x.dtype, out⟩).elems
      (s.push slots) = slots := s.read_push_self slots
  rw [reduceTwice, Exec.bind_apply, reduce_apply, h]
  dsimp only [NDArray.alloc]
  rw [reduce_apply, hread]
  show (match op.reduceElems slots out (op.outputDType x.dtype) none with
    | .error e => _
    | .ok rest => NDArray.alloc rest.1 (op.outputDType (op.outputDType x.dtype)) rest.2 _) = _
  rw [Reduction.outputDType_outputDType]
  rfl

end Eager

end ArrayFusion
