/-
ArrayFusion/Proofs/Fused/Realize.lean

Runs of a body that do what its recording says.

Design.  The two ways of running a body are compared with the recording and
its snapshot, not with each other.  A run *realizes* the recording if returned
values and arguments hold what the snapshot says, and share storage exactly
if their variables are the same (`Realizes`).

Main results: evaluation op at a time realizes the recording, because the
recorder tracks it (`Realizes.of_tracks`), and so does a launch, because of
what it delivers (`Realizes.of_delivered`).  Two runs that realize one
recording end alike (`EndAlike.of_realizes`).
-/
import ArrayFusion.Proofs.Fused.Delivery

namespace ArrayFusion

open Recorder (Reached Tracks)

/-! ### Runs that realize a recording -/

/-- Returned values `us` and arguments `args`, found in the store, are what
the recording says. -/
structure Realizes (r : Recorder) (env : List Tensor) (hs : List Handle) (args : List Arg)
    (us : List Operand) (s : Store) : Prop where
  values : List.Forall₂ (fun u h => u.form = h.toForm ∧
    env[r.valueOf h.var]? = some (u.tensor s)) us hs
  finals : ∀ {i x : Nat} {a : NDArray}, r.paramVars[i]? = some (some x) →
    args[i]? = some (.array a) → env[r.valueOf x]? = some ((Operand.array a).tensor s)
  returned : ∀ {j k : Nat} {a b : NDArray} {h h' : Handle}, us[j]? = some (.array a) →
    us[k]? = some (.array b) → hs[j]? = some h → hs[k]? = some h' →
    (a.loc = b.loc ↔ h.var = h'.var)
  passed : ∀ {j i x : Nat} {a b : NDArray} {h : Handle}, us[j]? = some (.array a) →
    args[i]? = some (.array b) → hs[j]? = some h → r.paramVars[i]? = some (some x) →
    (a.loc = b.loc ↔ h.var = x)

/-- A run that the recorder tracks. -/
theorem Realizes.of_tracks {inputs env : List Tensor} {os : List Operand} {s : Store} {r : Recorder}
    (htr : Tracks inputs os s r) (henv : r.tape.snapshot inputs = .ok env) {us : List Operand}
    {hs : List Handle} (hval : List.Forall₂ ((lockstep inputs).val os) us hs)
    {args : List Arg}
    (hargs : ∀ {i x : Nat}, r.paramVars[i]? = some (some x) →
      ∃ arg o, args[i]? = some arg ∧ arg.operand? = some o ∧ os[x]? = some o) :
    Realizes r env hs args us s := by
  obtain ⟨env', henv', hcont⟩ := htr.contents
  obtain rfl : env' = env := Except.ok.inj (henv'.symm.trans henv)
  have hvars : ∀ {x : Nat} {o : Operand}, os[x]? = some o → env'[r.valueOf x]? = some (o.tensor s) := by
    intro x o hx
    exact hcont hx (Recorder.getElem?_vars (htr.count ▸ (List.getElem?_eq_some_iff.mp hx).1))
  have hparam : ∀ {i x : Nat} {a : NDArray}, r.paramVars[i]? = some (some x) → args[i]? = some (.array a) →
      os[x]? = some (.array a) := by
    intro i x a hx ha
    obtain ⟨arg, o, harg, ho, hos⟩ := hargs hx
    rw [ha] at harg
    cases harg
    cases ho
    exact hos
  have hreturned : ∀ {k : Nat} {u : Operand} {h : Handle}, us[k]? = some u → hs[k]? = some h →
      os[h.var]? = some u := by
    intro k u h hu hh
    obtain ⟨h', hh', hv⟩ := forall₂_getElem? hval hu
    rw [hh] at hh'
    cases hh'
    exact hv.1
  constructor
  case values =>
    refine hval.imp ?_
    intro u h hv
    exact ⟨hv.2.symm, hvars hv.1⟩
  case finals => exact fun hx ha => hvars (hparam hx ha)
  case returned =>
    intro j k a b h h' hj hk hh hh'
    exact htr.apart.loc_eq_iff (hreturned hj hh) (hreturned hk hh')
  case passed =>
    intro j i x a b h hj hi hh hx
    exact htr.apart.loc_eq_iff (hreturned hj hh) (hparam hx hi)

/-- Arguments that can be passed, no two of which share storage. -/
structure Separate (args : List Arg) (s : Store) : Prop where
  fits : ∀ a ∈ args, a.Fits s
  unshared : Unshared args

instance (args : List Arg) (s : Store) : Decidable (Separate args s) :=
  decidable_of_iff ((∀ a ∈ args, a.Fits s) ∧ Unshared args)
    ⟨fun h => ⟨h.1, h.2⟩, fun h => ⟨h.fits, h.unshared⟩⟩

section

variable {r : Recorder} {env : List Tensor} {args : List Arg} {s s' : Store}

/-- After a launch every argument holds its final version. -/
theorem finals_of_delivered (hr : Reached r)
    (hclass : r.tape.params.map Param.argClass = args.map ArgClass.ofArg)
    (hargs : Separate args s) (henv : r.tape.snapshot (Bundle.inputsOf args s) = .ok env)
    {slots : List ReturnSlot} {us : List Operand}
    (h : Bundle.Delivered r env args s slots us s') {i x : Nat} {a : NDArray}
    (hx : r.paramVars[i]? = some (some x)) (ha : args[i]? = some (.array a)) :
    env[r.valueOf x]? = some ((Operand.array a).tensor s') := by
  have hkind : (r.formOf x).kind = .array := by
    obtain ⟨y, hy, hk⟩ := Bundle.var_of_array hr hclass ha
    rw [hx] at hy
    cases hy
    exact hk
  by_cases hw : (i, r.valueOf x) ∈ r.writeBacks
  · exact h.written hw ha
  · -- the variable still holds the initial value, and the buffer is untouched
    have hinit : ∃ form, r.tape.values[r.valueOf x]? = some ⟨form, .param i⟩ := by
      by_contra hno
      exact hw (hr.mem_writeBacks.mpr ⟨x, hx, hkind, rfl, fun form hf => hno ⟨form, hf⟩⟩)
    obtain ⟨form, hinfo⟩ := hinit
    have hkept : s'.read a.loc = s.read a.loc := by
      apply h.kept (hargs.fits _ (List.mem_of_getElem? ha) a rfl).1
      intro j v b hjw hb heq
      obtain rfl := hargs.unshared hb ha heq
      obtain ⟨y, hy, -, rfl, -⟩ := hr.mem_writeBacks.mp hjw
      rw [hx] at hy
      cases hy
      exact hw hjw
    rw [Bundle.snapshot_initial hr hclass hargs.fits henv hinfo ha]
    exact congrArg (fun data => some (Tensor.mk a.dtype a.shape data)) hkept.symm

/-- How a returned value came about: it is the caller's own array, or it was
built. -/
inductive Filled (r : Recorder) (args : List Arg) (built : List (ValueId × Operand)) (x : Handle) :
    Operand → Prop
  | passed {i : Nat} {a : NDArray} (var : r.paramVars[i]? = some (some x.var))
      (arg : args[i]? = some (.array a)) (form : (Operand.array a).form = x.toForm) :
      Filled r args built x (.array a)
  | built {u : Operand} (found : built.lookup (r.valueOf x.var) = some u)
      (own : ∀ i : Nat, r.paramVars[i]? = some (some x.var) → x.kind ≠ .array) :
      Filled r args built x u

theorem filled_of_fills (hr : Reached r)
    (hclass : r.tape.params.map Param.argClass = args.map ArgClass.ofArg) {x : Handle}
    (hx : r.Valid x) {built : List (ValueId × Operand)} {u : Operand}
    (h : Bundle.Fills args built (r.slotOf x) u) : Filled r args built x u := by
  rcases hr.slotOf_cases hx with ⟨i, hslot, hvar, hk⟩ | ⟨hslot, hnot⟩
  · rw [hslot] at h
    obtain ⟨v, hinfo, -, -⟩ := hr.param_of_var hvar
    obtain ⟨arg, o, harg, ho, hform⟩ := Bundle.arg_of_param hr hclass hinfo
    obtain rfl : o = u := Except.ok.inj ((Bundle.argOperand_eq_ok.mpr ⟨arg, harg, ho⟩).symm.trans h)
    rw [hx.2] at hform
    cases arg with
    | absent => cases ho
    | scalar c =>
      cases ho
      rw [← congrArg Form.kind hform] at hk
      cases hk
    | array a =>
      cases ho
      exact .passed hvar harg hform
  · rw [hslot] at h
    exact .built h hnot

section

variable {built : List (ValueId × Operand)}
  (hbuilt : Bundle.Built r.tape env s.buffers.length s' built)

include hbuilt

theorem form_of_built {x : Handle} (hx : r.Valid x) {u : Operand}
    (h : built.lookup (r.valueOf x.var) = some u) : u.form = x.toForm :=
  (hbuilt.contents h).2.trans hx.2

/-- A built array and an argument do not share storage, and their variables
differ. -/
theorem apart_of_built (hargs : Separate args s) {x : Handle} (hx : r.Valid x) {a : NDArray}
    (ha : built.lookup (r.valueOf x.var) = some (.array a))
    (hown : ∀ i : Nat, r.paramVars[i]? = some (some x.var) → x.kind ≠ .array) {i y : Nat}
    {b : NDArray} (hb : args[i]? = some (.array b)) (hy : r.paramVars[i]? = some (some y)) :
    a.loc ≠ b.loc ∧ x.var ≠ y := by
  have hnew := (hbuilt.fresh ha).1
  have hold := (hargs.fits _ (List.mem_of_getElem? hb) b rfl).1
  refine ⟨fun heq => ?_, fun heq => ?_⟩
  · exact absurd hold (Nat.not_lt_of_le (heq ▸ hnew))
  · exact hown i (heq ▸ hy) (congrArg Form.kind (form_of_built hbuilt hx ha)).symm

/-- Arrays that were returned share storage exactly if their variables are the
same. -/
theorem shares_iff_of_filled (hr : Reached r) (hargs : Separate args s) {x y : Handle}
    (hx : r.Valid x) (hy : r.Valid y) {a b : NDArray} (ha : Filled r args built x (.array a))
    (hb : Filled r args built y (.array b)) : a.loc = b.loc ↔ x.var = y.var := by
  cases ha with
  | @passed i _ hvar ha _ =>
    cases hb with
    | @passed j _ hvar' hb _ =>
      constructor
      · intro heq
        obtain rfl := hargs.unshared ha hb heq
        exact Option.some.inj (Option.some.inj (hvar.symm.trans hvar'))
      · intro heq
        rw [← heq] at hvar'
        obtain rfl := hr.linked.inj hvar hvar'
        rw [ha] at hb
        cases hb
        rfl
    | built hb hown =>
      obtain ⟨hloc, hne⟩ := apart_of_built hbuilt hargs hy hb hown ha hvar
      exact ⟨fun heq => absurd heq.symm hloc, fun heq => absurd heq.symm hne⟩
  | built ha hown =>
    cases hb with
    | passed hvar hb _ =>
      obtain ⟨hloc, hne⟩ := apart_of_built hbuilt hargs hx ha hown hb hvar
      exact ⟨fun heq => absurd heq hloc, fun heq => absurd heq hne⟩
    | built hb _ =>
      constructor
      · intro heq
        exact hr.valueOf_inj hx.1 hy.1 (hbuilt.apart ha hb heq)
      · intro heq
        rw [heq, hb] at ha
        cases ha
        rfl

end

/-- A launch that delivers realizes the recording. -/
theorem Realizes.of_delivered (hr : Reached r)
    (hclass : r.tape.params.map Param.argClass = args.map ArgClass.ofArg)
    (hargs : Separate args s) (henv : r.tape.snapshot (Bundle.inputsOf args s) = .ok env)
    {hs : List Handle} (hvalid : ∀ x ∈ hs, r.Valid x) {us : List Operand}
    (h : Bundle.Delivered r env args s (hs.map r.slotOf) us s') : Realizes r env hs args us s' := by
  have hfinals : ∀ {i x : Nat} {a : NDArray}, r.paramVars[i]? = some (some x) →
      args[i]? = some (.array a) → env[r.valueOf x]? = some ((Operand.array a).tensor s') :=
    fun hx ha => finals_of_delivered hr hclass hargs henv h hx ha
  obtain ⟨built, hbuilt, hfill⟩ := h.values
  rw [List.forall₂_map_left_iff] at hfill
  have hfilled : ∀ {k : Nat} {u : Operand} {x : Handle}, us[k]? = some u → hs[k]? = some x →
      r.Valid x ∧ Filled r args built x u := by
    intro k u x hu hx
    obtain ⟨u', hu', hfx⟩ := forall₂_getElem? hfill hx
    rw [hu] at hu'
    cases hu'
    have hv := hvalid x (List.mem_of_getElem? hx)
    exact ⟨hv, filled_of_fills hr hclass hv hfx⟩
  constructor
  case values =>
    refine forall₂_of_getElem? hfill.length_eq.symm ?_
    intro k u x hu hx
    obtain ⟨hv, hux⟩ := hfilled hu hx
    cases hux with
    | passed hvar ha hform => exact ⟨hform, hfinals hvar ha⟩
    | built hb hown => exact ⟨form_of_built hbuilt hv hb, (hbuilt.contents hb).1⟩
  case finals => exact hfinals
  case returned =>
    intro j k a b x y hj hk hx hy
    obtain ⟨hvx, ha⟩ := hfilled hj hx
    obtain ⟨hvy, hb⟩ := hfilled hk hy
    exact shares_iff_of_filled hbuilt hr hargs hvx hvy ha hb
  case passed =>
    intro j i x a b y hj hi hy hx
    obtain ⟨hvy, ha⟩ := hfilled hj hy
    -- the argument is what a handle on its variable would return
    obtain ⟨v, hinfo, -, -⟩ := hr.param_of_var hx
    obtain ⟨arg, o, harg, ho, hform⟩ := Bundle.arg_of_param hr hclass hinfo
    rw [hi] at harg
    cases harg
    cases ho
    have hvx : r.Valid ⟨r.formOf x, x⟩ := ⟨(hr.linked.var hx).1, rfl⟩
    exact shares_iff_of_filled hbuilt hr hargs hvy hvx ha (.passed hx hi hform)

end

/-! ### Two runs that end alike -/

/-- Two values are arrays over one buffer. -/
def Operand.Shares (o p : Operand) : Prop :=
  ∃ a b, o = .array a ∧ p = .array b ∧ a.Shares b

/-- Two runs return the same, leave the same in their arguments, and let the
same values share storage. -/
structure EndAlike (args : List Arg) (ret : Returned Operand) (s : Store) (args₂ : List Arg)
    (ret₂ : Returned Operand) (s₂ : Store) : Prop where
  arity : ret.arity = ret₂.arity
  values : List.Forall₂ (fun u u₂ => u.kind = u₂.kind ∧ u.tensor s = u₂.tensor s₂)
    ret.toList ret₂.toList
  arguments : List.Forall₂ (fun a a₂ => a.tensor s = a₂.tensor s₂) args args₂
  returned : ∀ {j k : Nat} {u v u₂ v₂ : Operand}, ret.toList[j]? = some u →
    ret.toList[k]? = some v → ret₂.toList[j]? = some u₂ → ret₂.toList[k]? = some v₂ →
    (u.Shares v ↔ u₂.Shares v₂)
  passed : ∀ {j i : Nat} {u u₂ v v₂ : Operand} {a a₂ : Arg}, ret.toList[j]? = some u →
    ret₂.toList[j]? = some u₂ → args[i]? = some a → args₂[i]? = some a₂ → a.operand? = some v →
    a₂.operand? = some v₂ → (u.Shares v ↔ u₂.Shares v₂)

/-- Arguments in one store that hold what the arguments in another one hold. -/
structure Copies (args : List Arg) (s : Store) (args₂ : List Arg) (s₂ : Store) : Prop where
  separate : Separate args₂ s₂
  contents : List.Forall₂ (fun a a₂ => a.kind = a₂.kind ∧ a.tensor s = a₂.tensor s₂) args args₂

instance (args : List Arg) (s : Store) (args₂ : List Arg) (s₂ : Store) :
    Decidable (Copies args s args₂ s₂) :=
  decidable_of_iff (Separate args₂ s₂ ∧
      List.Forall₂ (fun a a₂ => a.kind = a₂.kind ∧ a.tensor s = a₂.tensor s₂) args args₂)
    ⟨fun h => ⟨h.1, h.2⟩, fun h => ⟨h.separate, h.contents⟩⟩

theorem Copies.inputsOf {args args₂ : List Arg} {s s₂ : Store} (h : Copies args s args₂ s₂) :
    Bundle.inputsOf args s = Bundle.inputsOf args₂ s₂ := by
  have heq : List.Forall₂ (· = ·) (args.map (·.tensor s)) (args₂.map (·.tensor s₂)) := by
    rw [List.forall₂_map_left_iff, List.forall₂_map_right_iff]
    exact h.contents.imp fun a a₂ hc => hc.2
  rwa [List.forall₂_eq_eq_eq] at heq

theorem ofArg_of_tensor {a a₂ : Arg} {s s₂ : Store} (hk : a.kind = a₂.kind)
    (ht : a.tensor s = a₂.tensor s₂) : ArgClass.ofArg a = ArgClass.ofArg a₂ := by
  have hd : a.dtype?.getD .bool = a₂.dtype?.getD .bool := congrArg Tensor.dtype ht
  have hs : a.shape = a₂.shape := congrArg Tensor.shape ht
  have hdt : a.dtype? = a₂.dtype? := by
    cases a <;> cases a₂ <;> cases hk
    · exact congrArg some hd
    · exact congrArg some hd
    · rfl
  rw [ArgClass.ofArg, ArgClass.ofArg, hk, hdt, Arg.ndim, Arg.ndim, hs]

theorem Copies.signature {args args₂ : List Arg} {s s₂ : Store} (h : Copies args s args₂ s₂) :
    args.map ArgClass.ofArg = args₂.map ArgClass.ofArg := by
  have heq : List.Forall₂ (· = ·) (args.map ArgClass.ofArg) (args₂.map ArgClass.ofArg) := by
    rw [List.forall₂_map_left_iff, List.forall₂_map_right_iff]
    exact h.contents.imp fun a a₂ hc => ofArg_of_tensor hc.1 hc.2
  rwa [List.forall₂_eq_eq_eq] at heq

/-- Sharing that is decided by one condition for both pairs. -/
theorem shares_iff_shares {u v u₂ v₂ : Operand} (hu : u.kind = u₂.kind) (hv : v.kind = v₂.kind)
    {P : Prop} (h : ∀ {a b}, u = .array a → v = .array b → (a.loc = b.loc ↔ P))
    (h₂ : ∀ {a b}, u₂ = .array a → v₂ = .array b → (a.loc = b.loc ↔ P)) :
    u.Shares v ↔ u₂.Shares v₂ := by
  cases u with
  | scalar c =>
    cases u₂ with
    | scalar c₂ => simp [Operand.Shares]
    | array a₂ => cases hu
  | array a =>
    cases u₂ with
    | scalar c₂ => cases hu
    | array a₂ =>
      cases v with
      | scalar c =>
        cases v₂ with
        | scalar c₂ => simp [Operand.Shares]
        | array b₂ => cases hv
      | array b =>
        cases v₂ with
        | scalar c₂ => cases hv
        | array b₂ => simp [Operand.Shares, NDArray.Shares, h rfl rfl, h₂ rfl rfl]

/-- An argument and its copy hold the same after two runs that realize one
recording. -/
theorem tensor_of_realizes {r : Recorder} (hr : Reached r) {env : List Tensor} {hs : List Handle}
    {args args₂ : List Arg} {s₀ s₀₂ s s₂ : Store} {us us₂ : List Operand}
    (hclass : r.tape.params.map Param.argClass = args.map ArgClass.ofArg)
    (h : Realizes r env hs args us s) (h₂ : Realizes r env hs args₂ us₂ s₂) {i : Nat} {a a₂ : Arg}
    (ha : args[i]? = some a) (ha₂ : args₂[i]? = some a₂) (hk : a.kind = a₂.kind)
    (ht : a.tensor s₀ = a₂.tensor s₀₂) : a.tensor s = a₂.tensor s₂ := by
  cases a with
  | array b =>
    cases a₂ with
    | array b₂ =>
      obtain ⟨x, hx, -⟩ := Bundle.var_of_array hr hclass ha
      exact Option.some.inj ((h.finals hx ha).symm.trans (h₂.finals hx ha₂))
    | scalar c => cases hk
    | absent => cases hk
  | scalar c =>
    cases a₂ with
    | array b₂ => cases hk
    | scalar c₂ => exact ht
    | absent => cases hk
  | absent =>
    cases a₂ with
    | array b₂ => cases hk
    | scalar c₂ => cases hk
    | absent => rfl

/-- Two runs that realize one recording, on arguments and on copies of them,
end alike. -/
theorem EndAlike.of_realizes {r : Recorder} (hr : Reached r) {env : List Tensor} {hs : List Handle}
    {args args₂ : List Arg} {s₀ s₀₂ s s₂ : Store}
    (hclass : r.tape.params.map Param.argClass = args.map ArgClass.ofArg)
    (hcopy : Copies args s₀ args₂ s₀₂) {ret ret₂ : Returned Operand}
    (harity : ret.arity = ret₂.arity) (h : Realizes r env hs args ret.toList s)
    (h₂ : Realizes r env hs args₂ ret₂.toList s₂) : EndAlike args ret s args₂ ret₂ s₂ := by
  have hclass₂ := hclass.trans hcopy.signature
  have hlen := h.values.length_eq
  have hlen₂ := h₂.values.length_eq
  -- values at one position stand for the same variable
  have hvalue : ∀ {k : Nat} {u u₂ : Operand}, ret.toList[k]? = some u → ret₂.toList[k]? = some u₂ →
      ∃ x, hs[k]? = some x ∧ u.kind = u₂.kind ∧ u.tensor s = u₂.tensor s₂ := by
    intro k u u₂ hu hu₂
    obtain ⟨x, hx, hform, hcont⟩ := forall₂_getElem? h.values hu
    obtain ⟨x', hx', hform₂, hcont₂⟩ := forall₂_getElem? h₂.values hu₂
    rw [hx] at hx'
    cases hx'
    exact ⟨x, hx, congrArg Form.kind (hform.trans hform₂.symm),
      Option.some.inj (hcont.symm.trans hcont₂)⟩
  constructor
  case arity => exact harity
  case values =>
    refine forall₂_of_getElem? (hlen.trans hlen₂.symm) ?_
    intro k u u₂ hu hu₂
    obtain ⟨x, -, hval⟩ := hvalue hu hu₂
    exact hval
  case arguments =>
    refine forall₂_of_getElem? hcopy.contents.length_eq ?_
    intro i a a₂ ha ha₂
    obtain ⟨a', ha', hk, ht⟩ := forall₂_getElem? hcopy.contents ha
    rw [ha₂] at ha'
    cases ha'
    exact tensor_of_realizes hr hclass h h₂ ha ha₂ hk ht
  case returned =>
    intro j k u v u₂ v₂ hu hv hu₂ hv₂
    obtain ⟨x, hx, hku, -⟩ := hvalue hu hu₂
    obtain ⟨y, hy, hkv, -⟩ := hvalue hv hv₂
    refine shares_iff_shares hku hkv (P := x.var = y.var) ?_ ?_
    · rintro a b rfl rfl
      exact h.returned hu hv hx hy
    · rintro a b rfl rfl
      exact h₂.returned hu₂ hv₂ hx hy
  case passed =>
    intro j i u u₂ v v₂ a a₂ hu hu₂ ha ha₂ hv hv₂
    obtain ⟨x, hx, hku, -⟩ := hvalue hu hu₂
    obtain ⟨a', ha', hk, -⟩ := forall₂_getElem? hcopy.contents ha
    rw [ha₂] at ha'
    cases ha'
    have hkv : v.kind = v₂.kind := by
      rw [← Arg.kind_of_operand hv, ← Arg.kind_of_operand hv₂]
      exact hk
    refine shares_iff_shares hku hkv (P := r.paramVars[i]? = some (some x.var)) ?_ ?_
    · rintro b c rfl rfl
      rw [Arg.eq_array_of_operand hv] at ha
      obtain ⟨y, hy, -⟩ := Bundle.var_of_array hr hclass ha
      rw [h.passed hu ha hx hy, hy, Option.some.injEq, Option.some.injEq, eq_comm]
    · rintro b c rfl rfl
      rw [Arg.eq_array_of_operand hv₂] at ha₂
      obtain ⟨y, hy, -⟩ := Bundle.var_of_array hr hclass₂ ha₂
      rw [h₂.passed hu₂ ha₂ hx hy, hy, Option.some.injEq, Option.some.injEq, eq_comm]

end ArrayFusion
