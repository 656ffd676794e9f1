/-
ArrayFusion/Proofs/Fused/Record.lean

Recording a function for a signature, next to a run of it on arguments of
that signature.

Design.  Declaring the parameters takes the empty recorder to one whose
variables stand for the arguments that are present (`declare_tracks`); from
there on the body is covered by `Lockstep.Simulates.run`.  What holds of a
recording alone, without arguments, is stated for every signature
(`reached_of_record`).
-/
import ArrayFusion.Proofs.Simulation

namespace ArrayFusion

/-! ### Arguments -/

namespace Arg

/-- The contents of an argument. -/
def tensor (a : Arg) (s : Store) : Tensor :=
  ⟨a.dtype?.getD .bool, a.shape, a.elems s⟩

/-- What holds of every array that can be passed: its buffer exists, fills the
shape, and holds elements of the dtype. -/
def Fits (arg : Arg) (s : Store) : Prop :=
  ∀ a, arg = .array a → a.loc < s.buffers.length ∧
    ((Operand.array a).tensor s).Sized ∧ ((Operand.array a).tensor s).Canonical

instance (arg : Arg) (s : Store) : Decidable (arg.Fits s) :=
  match arg with
  | .array a => decidable_of_iff (a.loc < s.buffers.length ∧
      ((Operand.array a).tensor s).Sized ∧ ((Operand.array a).tensor s).Canonical)
      ⟨fun h b hb => by cases hb; exact h, fun h => h a rfl⟩
  | .scalar _ => isTrue fun _ h => by cases h
  | .absent => isTrue fun _ h => by cases h

/-- Two arguments are arrays over one buffer. -/
def Shares : Arg → Arg → Prop
  | .array a, .array b => a.Shares b
  | _, _ => False

instance (p q : Arg) : Decidable (p.Shares q) :=
  match p, q with
  | .array a, .array b => inferInstanceAs (Decidable (a.Shares b))
  | .array _, .scalar _ | .array _, .absent | .scalar _, _ | .absent, _ =>
    inferInstanceAs (Decidable False)

theorem shares_iff {p q : Arg} :
    p.Shares q ↔ ∃ a b, p = .array a ∧ q = .array b ∧ a.loc = b.loc := by
  cases p <;> cases q <;> simp [Shares, NDArray.Shares]

theorem tensor_of_operand {arg : Arg} {o : Operand} (h : arg.operand? = some o) (s : Store) :
    arg.tensor s = o.tensor s := by
  cases arg with
  | absent => cases h
  | array a | scalar c =>
    cases h
    rfl

theorem ofArg_of_operand {arg : Arg} {o : Operand} (h : arg.operand? = some o) :
    ArgClass.ofArg arg = ⟨o.kind, some o.dtype, o.ndim⟩ := by
  cases arg with
  | absent => cases h
  | array a | scalar c =>
    cases h
    rfl

theorem eq_array_of_operand {arg : Arg} {a : NDArray} (h : arg.operand? = some (.array a)) :
    arg = .array a := by
  cases arg with
  | absent | scalar c => cases h
  | array b =>
    cases h
    rfl

theorem kind_of_operand {arg : Arg} {o : Operand} (h : arg.operand? = some o) :
    arg.kind = o.kind :=
  congrArg ArgClass.kind (ofArg_of_operand h)

theorem hasForm_of_fits {arg : Arg} {s : Store} (h : arg.Fits s) {o : Operand}
    (ho : arg.operand? = some o) : o.StoredIn s ∧ (o.tensor s).HasForm o.form := by
  cases arg with
  | absent => cases ho
  | array a =>
    cases ho
    obtain ⟨hloc, hsized, hcan⟩ := h a rfl
    refine ⟨?_, rfl, rfl, hsized, fun _ => hcan, fun hk => absurd rfl hk⟩
    intro b hb
    cases hb
    exact hloc
  | scalar c =>
    cases ho
    exact ⟨(fun a ha => by cases ha), Tape.hasForm_ofScalar c⟩

end Arg

/-- No two arguments share storage. -/
def Unshared (args : List Arg) : Prop :=
  ∀ ⦃i j : Nat⦄ ⦃a b : NDArray⦄, args[i]? = some (.array a) → args[j]? = some (.array b) →
    a.loc = b.loc → i = j

theorem unshared_of_isPrefix {args args' : List Arg} (h : args <+: args') (hu : Unshared args') :
    Unshared args :=
  fun _ _ _ _ hi hj => hu (getElem?_of_isPrefix h hi) (getElem?_of_isPrefix h hj)

theorem unshared_iff_pairwise {args : List Arg} :
    Unshared args ↔ args.Pairwise fun p q => ¬ p.Shares q := by
  rw [List.pairwise_iff_getElem]
  constructor
  · intro h i j hi hj hij hs
    obtain ⟨a, b, ha, hb, heq⟩ := Arg.shares_iff.mp hs
    have := h (List.getElem?_eq_some_iff.mpr ⟨hi, ha⟩) (List.getElem?_eq_some_iff.mpr ⟨hj, hb⟩) heq
    omega
  · intro h i j a b hi hj heq
    obtain ⟨hil, hia⟩ := List.getElem?_eq_some_iff.mp hi
    obtain ⟨hjl, hjb⟩ := List.getElem?_eq_some_iff.mp hj
    rcases Nat.lt_trichotomy i j with hlt | hij | hgt
    · exact absurd (Arg.shares_iff.mpr ⟨a, b, hia, hjb, heq⟩) (h i j hil hjl hlt)
    · exact hij
    · exact absurd (Arg.shares_iff.mpr ⟨b, a, hjb, hia, heq.symm⟩) (h j i hjl hil hgt)

instance (args : List Arg) : Decidable (Unshared args) :=
  decidable_of_iff _ unshared_iff_pairwise.symm

/-- The arrays among unshared arguments are apart. -/
theorem Unshared.apart {args : List Arg} (h : Unshared args) :
    Recorder.Apart (args.filterMap Arg.operand?) := by
  have hops : (args.filterMap Arg.operand?).Pairwise fun p q =>
      ∀ a b, p = .array a → q = .array b → a.loc ≠ b.loc := by
    refine List.Pairwise.filterMap _ ?_ (unshared_iff_pairwise.mp h)
    intro p q hpq o ho o' ho' a b ha hb heq
    subst ha hb
    refine hpq (Arg.shares_iff.mpr ⟨a, b, ?_, ?_, heq⟩)
    · cases p <;> cases ho
      rfl
    · cases q <;> cases ho'
      rfl
  rw [List.pairwise_iff_getElem] at hops
  intro x y a b hx hy heq
  obtain ⟨hxl, hxa⟩ := List.getElem?_eq_some_iff.mp hx
  obtain ⟨hyl, hyb⟩ := List.getElem?_eq_some_iff.mp hy
  rcases Nat.lt_trichotomy x y with hlt | heq' | hgt
  · exact absurd heq (hops x y hxl hyl hlt a b hxa hyb)
  · exact heq'
  · exact absurd heq.symm (hops y x hyl hxl hgt b a hyb hxa)

/-- What the signature says about a declared parameter. -/
def Param.argClass (p : Param) : ArgClass :=
  ⟨p.kind, p.dtype, p.ndim⟩

namespace Bundle

open Recorder (Reached Valid Tracks)

/-! ### Recordings alone -/

theorem params_param (r : Recorder) (kind : ArgKind) (dtype : Option DType) (ndim : Nat) :
    (Recorder.param kind dtype ndim r).2.tape.params.map Param.argClass =
      r.tape.params.map Param.argClass ++ [⟨kind, dtype, ndim⟩] := by
  rcases r.param_cases kind dtype ndim with ⟨h, -⟩ | ⟨d, rfl, -, h⟩
  · rw [h]
    exact List.map_append
  · rw [h]
    exact List.map_append

/-- A declaration keeps the handles that were valid. -/
theorem valid_param {r : Recorder} (hr : Reached r) (kind : ArgKind) (dtype : Option DType)
    (ndim : Nat) {x : Handle} (hx : r.Valid x) : (Recorder.param kind dtype ndim r).2.Valid x := by
  rcases r.param_cases kind dtype ndim with ⟨h, -⟩ | ⟨d, -, -, h⟩
  · rw [h]
    exact hx
  · rw [h]
    refine ⟨?_, ?_⟩
    · show _ < (r.vars ++ [_]).length
      rw [List.length_append]
      exact Nat.lt_add_right _ hx.1
    · rw [Recorder.formOf_of_getElem? hr (r.tape.extends_addParam _) hx.1
        (Recorder.getElem?_vars_addParam hx.1 _), hx.2]

/-- The handle of a declared parameter is valid. -/
theorem valid_of_param {r : Recorder} {kind : ArgKind} {dtype : Option DType} {ndim : Nat}
    {x : Handle} (h : (Recorder.param kind dtype ndim r).1 = .ok (some x)) :
    (Recorder.param kind dtype ndim r).2.Valid x := by
  rcases r.param_cases kind dtype ndim with ⟨heq, -⟩ | ⟨d, -, -, heq⟩
  · rw [heq] at h
    cases h
  · rw [heq] at h ⊢
    cases h
    refine ⟨?_, ?_⟩
    · show _ < (r.vars ++ [_]).length
      simp
    · rw [Recorder.formOf, Recorder.valueOf_addParam_new]
      apply Tape.formOf_concat
      rfl

/-- Declaring parameters succeeds, with one parameter per entry. -/
theorem declare_reached (params : List ArgClass) {r : Recorder} (hr : Reached r) :
    ∃ hs r', declare params r = (.ok hs, r') ∧ Reached r' ∧ ArgsAll r'.Valid hs ∧
      r'.tape.params.map Param.argClass = r.tape.params.map Param.argClass ++ params ∧
      ∀ x, r.Valid x → r'.Valid x := by
  induction params generalizing r with
  | nil =>
    refine ⟨[], r, rfl, hr, ?_, by simp, fun x hx => hx⟩
    intro x hx
    simp at hx
  | cons p params ih =>
    obtain ⟨kind, dtype, ndim⟩ := p
    obtain ⟨o, ho⟩ : ∃ o, Recorder.param kind dtype ndim r =
        (.ok o, (Recorder.param kind dtype ndim r).2) := by
      rcases r.param_cases kind dtype ndim with ⟨h, -⟩ | ⟨d, -, -, h⟩
      · exact ⟨_, by rw [h]⟩
      · exact ⟨_, by rw [h]⟩
    obtain ⟨hs, r', hdecl, hr', hall, hparams, hmono⟩ := ih (.param kind dtype ndim hr)
    refine ⟨o :: hs, r', ?_, hr', ?_, ?_, fun x hx => hmono x (valid_param hr kind dtype ndim hx)⟩
    · rw [declare, List.mapM_cons]
      exact Exec.bind_eq_ok.mpr ⟨o, _, ho, Exec.bind_eq_ok.mpr ⟨hs, r', hdecl, rfl⟩⟩
    · intro x hx
      rcases List.mem_cons.mp hx with rfl | hx
      · exact hmono x (valid_of_param (congrArg Prod.fst ho))
      · exact hall x hx
    · rw [hparams, params_param, List.append_assoc]
      rfl

/-- What holds of every recording of a function. -/
theorem reached_of_record {fn : Function} {params : List ArgClass} {tag : String} {r : Recorder}
    {res : Except Error (Returned Handle)} (h : record fn params tag .empty = (res, r)) :
    Reached r ∧ r.tape.params.map Param.argClass = params ∧
      ∀ returned, res = .ok returned → ∀ x ∈ returned.toList, r.Valid x := by
  obtain ⟨hs, r₀, hdecl, hr, hall, hparams, -⟩ := declare_reached params Reached.empty
  have heq : fn.run (Recorder.ops tag) hs r₀ = (res, r) := by
    rw [← h, record, Exec.bind_apply, hdecl]
  obtain ⟨hI, hM, hQ⟩ := (Recorder.preserves_reached tag).run fn hr hall
  rw [heq] at hI hM hQ
  refine ⟨hI, ?_, hQ⟩
  rw [hM.params, hparams]
  rfl

/-! ### Recordings next to arguments -/

section

variable {inputs : List Tensor} {os : List Operand} {s : Store} {r : Recorder}

/-- An absent argument declares a parameter without a variable. -/
theorem tracks_absent (h : Tracks inputs os s r) (ndim : Nat) :
    Recorder.param .absent none ndim r = (.ok none, (Recorder.param .absent none ndim r).2) ∧
      Tracks inputs os s (Recorder.param .absent none ndim r).2 := by
  rcases r.param_cases .absent none ndim with ⟨heq, -⟩ | ⟨d, hd, -, -⟩
  · have hr := Reached.param .absent none ndim h.reached
    rw [heq] at hr ⊢
    refine ⟨rfl, hr, ?_, h.count, h.contents, h.forms, h.stored, h.apart⟩
    intro i p v d hp hv
    rcases getElem?_concat_eq_some hp with hp | ⟨-, rfl⟩
    · exact h.accepts i p v d hp hv
    · cases hv
  · cases hd

/-- A present argument is tracked by the variable of its parameter. -/
theorem tracks_present (h : Tracks inputs os s r) {o : Operand}
    (hin : inputs[r.tape.params.length]? = some (o.tensor s)) (hform : (o.tensor s).HasForm o.form)
    (hstored : o.StoredIn s) (hapart : Recorder.Apart (os ++ [o])) :
    Recorder.param o.kind (some o.dtype) o.ndim r =
        (.ok (some ⟨o.form, r.vars.length⟩), (Recorder.param o.kind (some o.dtype) o.ndim r).2) ∧
      Tracks inputs (os ++ [o]) s (Recorder.param o.kind (some o.dtype) o.ndim r).2 := by
  have hkind : o.kind ≠ .absent := by
    cases o <;> simp [Operand.kind]
  rcases r.param_cases o.kind (some o.dtype) o.ndim with ⟨-, habs⟩ | ⟨d, hd, -, heq⟩
  · rcases habs with habs | habs
    · exact absurd habs hkind
    · cases habs
  · cases hd
    have hr := Reached.param o.kind (some o.dtype) o.ndim h.reached
    rw [heq] at hr ⊢
    obtain ⟨env, henv, hcont⟩ := h.contents
    refine ⟨rfl, h.append hr ?_ (r.tape.extends_addParam _) henv hcont ?_ rfl ?_ (List.prefix_refl _) ?_ hapart⟩
    · intro i p v d hp hv hdt
      rcases getElem?_concat_eq_some hp with hp | ⟨rfl, rfl⟩
      · exact h.accepts i p v d hp hv hdt
      · cases hdt
        exact ⟨_, hin, hform⟩
    · show (r.tape.addParam _).snapshot inputs = _
      rw [h.reached.recorded.snapshot_addParam, henv, List.getD, hin]
      rfl
    · intro k u hk
      cases k with
      | zero =>
        cases hk
        apply Tape.formOf_concat
        rfl
      | succ k => cases hk
    · intro u hu
      rw [List.mem_singleton.mp hu]
      exact hstored

theorem length_params_param (r : Recorder) (kind : ArgKind) (dtype : Option DType) (ndim : Nat) :
    (Recorder.param kind dtype ndim r).2.tape.params.length = r.tape.params.length + 1 := by
  have h := congrArg List.length (params_param r kind dtype ndim)
  rwa [List.length_map, List.length_append, List.length_map] at h

theorem paramVars_param {kind : ArgKind} {dtype : Option DType} {ndim : Nat} {o : Option Handle}
    (h : (Recorder.param kind dtype ndim r).1 = .ok o) :
    (Recorder.param kind dtype ndim r).2.paramVars = r.paramVars ++ [o.map Handle.var] := by
  rcases r.param_cases kind dtype ndim with ⟨heq, -⟩ | ⟨d, -, -, heq⟩ <;>
  · rw [heq] at h ⊢
    cases h
    rfl

/-- One argument more. -/
theorem param_tracks {before : List Arg} {arg : Arg}
    (h : Tracks inputs (before.filterMap Arg.operand?) s r)
    (hin : inputs[r.tape.params.length]? = some (arg.tensor s)) (hfits : arg.Fits s)
    (hun : Unshared (before ++ [arg])) :
    ∃ o, Recorder.param arg.kind arg.dtype? arg.ndim r =
        (.ok o, (Recorder.param arg.kind arg.dtype? arg.ndim r).2) ∧
      Tracks inputs ((before ++ [arg]).filterMap Arg.operand?) s
        (Recorder.param arg.kind arg.dtype? arg.ndim r).2 ∧
      Option.Rel ((lockstep inputs).val ((before ++ [arg]).filterMap Arg.operand?))
        arg.operand? o := by
  have happ := hun.apart
  rw [List.filterMap_append] at happ ⊢
  rcases ho : arg.operand? with - | o
  · obtain rfl : arg = .absent := by
      cases arg <;> first | rfl | cases ho
    obtain ⟨heq, htr⟩ := tracks_absent h 0
    refine ⟨none, heq, ?_, .none⟩
    rwa [show [Arg.absent].filterMap Arg.operand? = [] from rfl, List.append_nil]
  · have hop : [arg].filterMap Arg.operand? = [o] := by
      rw [List.filterMap_cons, ho]
      rfl
    obtain ⟨hstored, hform⟩ := Arg.hasForm_of_fits hfits ho
    rw [Arg.tensor_of_operand ho] at hin
    have hclass := Arg.ofArg_of_operand ho
    rw [hop] at happ ⊢
    obtain ⟨heq, htr⟩ := tracks_present h hin hform hstored happ
    rw [Arg.kind_of_operand ho,
      show arg.dtype? = some o.dtype from congrArg ArgClass.dtype hclass,
      show arg.ndim = o.ndim from congrArg ArgClass.ndim hclass]
    refine ⟨_, heq, htr, .some ⟨?_, rfl⟩⟩
    show (_ ++ [o])[r.vars.length]? = some o
    rw [← h.count]
    exact getElem?_concat_length _ _

/-- Declaring the parameters of arguments makes the recorder track them. -/
theorem declare_tracks (rest before : List Arg)
    (h : Tracks inputs (before.filterMap Arg.operand?) s r)
    (hcount : r.tape.params.length = before.length)
    (hin : ∀ (k : Nat) (a : Arg), rest[k]? = some a →
      inputs[before.length + k]? = some (a.tensor s))
    (hfits : ∀ a ∈ rest, a.Fits s) (hun : Unshared (before ++ rest)) :
    ∃ hs r', declare (rest.map ArgClass.ofArg) r = (.ok hs, r') ∧
      Tracks inputs ((before ++ rest).filterMap Arg.operand?) s r' ∧
      List.Forall₂ (Option.Rel ((lockstep inputs).val ((before ++ rest).filterMap Arg.operand?)))
        (rest.map Arg.operand?) hs ∧
      r'.paramVars = r.paramVars ++ hs.map (Option.map Handle.var) := by
  induction rest generalizing before r with
  | nil =>
    refine ⟨[], r, rfl, ?_, .nil, by simp⟩
    rwa [List.append_nil]
  | cons arg rest ih =>
    obtain ⟨o, ho, htracks, hrel⟩ := param_tracks h
      (by rw [hcount]; exact hin 0 arg rfl) (hfits arg List.mem_cons_self)
      (unshared_of_isPrefix (by simp) hun)
    have hpv := paramVars_param (congrArg Prod.fst ho)
    have hun' : Unshared ((before ++ [arg]) ++ rest) := by simpa using hun
    obtain ⟨hs, r', hdecl, htr, hrels, hpvs⟩ := ih (before ++ [arg]) htracks
      (by rw [length_params_param, hcount, List.length_append]; rfl)
      (by
        intro k a hk
        rw [List.length_append, List.length_singleton, Nat.add_assoc, Nat.add_comm 1 k]
        exact hin (k + 1) a hk)
      (fun a ha => hfits a (List.mem_cons_of_mem _ ha)) hun'
    rw [List.append_assoc, List.singleton_append] at htr hrels
    refine ⟨o :: hs, r', ?_, htr, .cons ?_ hrels, ?_⟩
    · rw [declare, List.map_cons, List.mapM_cons]
      exact Exec.bind_eq_ok.mpr ⟨o, _, ho, Exec.bind_eq_ok.mpr ⟨hs, r', hdecl, rfl⟩⟩
    · have hle : (before ++ [arg]).filterMap Arg.operand? <+:
          (before ++ arg :: rest).filterMap Arg.operand? :=
        ⟨rest.filterMap Arg.operand?, by rw [← List.filterMap_append]; simp⟩
      generalize arg.operand? = p at hrel ⊢
      cases hrel with
      | none => exact .none
      | some hv => exact .some ((simulates inputs "").mono hle hv)
    · rw [hpvs, hpv, List.append_assoc]
      rfl

end

/-- The contents of arguments. -/
def inputsOf (args : List Arg) (s : Store) : List Tensor :=
  args.map (·.tensor s)

theorem getElem?_inputsOf {args : List Arg} {i : Nat} {arg : Arg} (h : args[i]? = some arg)
    (s : Store) : (inputsOf args s)[i]? = some (arg.tensor s) := by
  rw [inputsOf, List.getElem?_map, h, Option.map_some]

theorem getD_inputsOf {args : List Arg} {i : Nat} {arg : Arg} (h : args[i]? = some arg)
    (s : Store) : (inputsOf args s).getD i .blank = arg.tensor s := by
  rw [List.getD, getElem?_inputsOf h, Option.getD_some]

theorem tracks_empty (inputs : List Tensor) (s : Store) : Tracks inputs [] s .empty := by
  refine ⟨.empty, ?_, rfl, ⟨[], rfl, ?_⟩, ?_, ?_, ?_⟩
  · intro i p v d hp
    simp [Recorder.empty, Tape.empty] at hp
  · intro x o v hx
    simp at hx
  · intro x o hx
    simp at hx
  · intro x o hx
    simp at hx
  · intro x y a b hx
    simp at hx

/-- Recording a function for a signature agrees with running it on arguments
of that signature, and each parameter's variable stands for the argument. -/
theorem record_agrees (fn : Function) (tag : String) {args : List Arg} {s : Store}
    (hfits : ∀ a ∈ args, a.Fits s) (hun : Unshared args) :
    (lockstep (inputsOf args s)).Agrees (args.filterMap Arg.operand?)
        (fun w => Returned.Rel ((lockstep (inputsOf args s)).val w))
        (fn.run (Eager.ops tag) (args.map Arg.operand?) s)
        (record fn (args.map ArgClass.ofArg) tag .empty) ∧
      ∀ {i x : Nat}, (record fn (args.map ArgClass.ofArg) tag .empty).2.paramVars[i]? =
          some (some x) →
        ∃ arg o, args[i]? = some arg ∧ arg.operand? = some o ∧
          (args.filterMap Arg.operand?)[x]? = some o := by
  obtain ⟨hs, r, hdecl, htracks, hrel, hpv⟩ := declare_tracks args []
    (tracks_empty (inputsOf args s) s) rfl
    (by
      intro k a hk
      rw [List.length_nil, Nat.zero_add]
      exact getElem?_inputsOf hk s)
    hfits hun
  rw [List.nil_append] at htracks hrel
  have heq : record fn (args.map ArgClass.ofArg) tag .empty = fn.run (Recorder.ops tag) hs r := by
    rw [record, Exec.bind_apply, hdecl]
  have hsim := simulates (inputsOf args s) tag
  rw [heq]
  refine ⟨hsim.run fn htracks hrel, ?_⟩
  intro i x hx
  obtain ⟨-, hM, -⟩ := hsim.keeps.run fn htracks.reached (hsim.validArgs htracks hrel)
  rw [hM.paramVars, hpv] at hx
  have hx : (hs.map (Option.map Handle.var))[i]? = some (some x) := hx
  rw [List.getElem?_map, Option.map_eq_some_iff] at hx
  obtain ⟨o', ho', hvar⟩ := hx
  obtain ⟨h, rfl, rfl⟩ := Option.map_eq_some_iff.mp hvar
  obtain ⟨p, hp, hpr⟩ := forall₂_getElem?_right hrel ho'
  rw [List.getElem?_map, Option.map_eq_some_iff] at hp
  obtain ⟨arg, harg, rfl⟩ := hp
  generalize hop : arg.operand? = p at hpr
  cases hpr with
  | @some o _ hv => exact ⟨arg, o, harg, hop, hv.1⟩

end Bundle

end ArrayFusion
