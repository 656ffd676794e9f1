/-
ArrayFusion/Proofs/Ufunc.lean

What a resolved loop promises: one dtype per input and output of the function,
and outputs in the form their dtype stores.
-/
import ArrayFusion.Proofs.Casting
import ArrayFusion.Proofs.Except
import ArrayFusion.Ufunc.Eval

namespace ArrayFusion.Ufunc

/-! ### Number of outputs -/

theorem nout_cases (f : Ufunc) : f.nout = 1 ∨ f.nout = 2 := by
  cases f <;> decide

/-- The rules with a truth value as their only output are rules of functions
with one output. -/
theorem nout_of_loopRule {f : Ufunc}
    (h : f.loopRule = .compare ∨ f.loopRule = .logical ∨ f.loopRule = .predicate) :
    f.nout = 1 := by
  rcases f.nout_cases with h1 | h2
  · exact h1
  · -- the functions with two outputs have rules of their own
    exfalso
    cases f <;> revert h h2 <;> decide

theorem outputs_of_ldexpLoop {number exponent : DType} {loop : Loop}
    (h : ldexpLoop number exponent = .ok loop) : loop.outputs.length = 1 := by
  unfold ldexpLoop at h
  split at h <;> cases h
  rfl

theorem outputs_of_specialLoop {f : Ufunc} {operands : List OperandType} {loop : Loop}
    (h : f.specialLoop operands = .ok loop) : loop.outputs.length = f.nout := by
  unfold specialLoop at h
  split at h
  case h_4 => exact outputs_of_ldexpLoop h
  case h_7 => cases h
  all_goals
    cases h
    rfl

/-- A loop has one dtype per output of its function. -/
theorem outputs_of_resolve {f : Ufunc} {operands : List OperandType} {loop : Loop}
    (h : f.resolve operands = .ok loop) : loop.outputs.length = f.nout := by
  have same : ∀ d, (f.sameLoop d).outputs.length = f.nout := fun d => List.length_replicate
  unfold resolve at h
  split at h
  · cases h
  · dsimp only at h
    split at h
    case h_11 => exact outputs_of_specialLoop h
    case h_6 hr =>
      cases h
      exact (nout_of_loopRule (.inl hr)).symm
    case h_7 hr =>
      cases h
      exact (nout_of_loopRule (.inr (.inl hr))).symm
    case h_8 hr =>
      cases h
      exact (nout_of_loopRule (.inr (.inr hr))).symm
    all_goals
      first
        | (split at h <;> cases h <;> exact same _)
        | (cases h; exact same _)

theorem length_outputs_le_two {f : Ufunc} {operands : List OperandType} {loop : Loop}
    (h : f.resolve operands = .ok loop) : loop.outputs.length ≤ 2 := by
  rw [outputs_of_resolve h]
  rcases f.nout_cases with h1 | h2 <;> omega

theorem length_outputs_pos {f : Ufunc} {operands : List OperandType} {loop : Loop}
    (h : f.resolve operands = .ok loop) : 0 < loop.outputs.length := by
  rw [outputs_of_resolve h]
  rcases f.nout_cases with h1 | h2 <;> omega

/-! ### Number of inputs -/

theorem inputs_of_ldexpLoop {number exponent : DType} {loop : Loop}
    (h : ldexpLoop number exponent = .ok loop) : loop.inputs.length = 2 := by
  unfold ldexpLoop at h
  split at h <;> cases h
  rfl

theorem inputs_of_specialLoop {f : Ufunc} {operands : List OperandType} {loop : Loop}
    (h : f.specialLoop operands = .ok loop) : loop.inputs.length = f.nin := by
  unfold specialLoop at h
  split at h
  case h_4 => exact inputs_of_ldexpLoop h
  case h_7 => cases h
  all_goals
    cases h
    rfl

/-- A loop has one dtype per input of its function, for as many operands. -/
theorem inputs_of_resolve {f : Ufunc} {operands : List OperandType} {loop : Loop}
    (h : f.resolve operands = .ok loop) :
    operands.length = f.nin ∧ loop.inputs.length = f.nin := by
  have uniform : ∀ d outputs, (Loop.uniform f.nin d outputs).inputs.length = f.nin :=
    fun _ _ => List.length_replicate
  unfold resolve at h
  split at h
  · cases h
  · next hcount =>
    refine ⟨Decidable.of_not_not hcount, ?_⟩
    dsimp only at h
    split at h
    case h_11 => exact inputs_of_specialLoop h
    case h_3 | h_9 | h_10 =>
      split at h
      · cases h
      · cases h
        exact uniform _ _
    all_goals
      cases h
      exact uniform _ _

/-- Outputs that pass the check are as many as the loop writes, and all of
them are arrays. -/
theorem checkOutputs_eq_ok {f : Ufunc} {loop : Loop} {outs : List (Option DType)}
    (hl : loop.outputs.length = f.nout) (h : f.checkOutputs loop outs = .ok ()) :
    outs.length = loop.outputs.length ∧ ∀ o ∈ outs, o.isSome := by
  unfold checkOutputs at h
  split at h
  · cases h
  · next hlen =>
    have hlen : outs.length = f.nout := Decidable.of_not_not hlen
    refine ⟨hlen.trans hl.symm, ?_⟩
    intro o ho
    obtain ⟨k, hk⟩ := List.getElem?_of_mem ho
    have hk' : k < loop.outputs.length := by
      rw [hl, ← hlen]
      exact (List.getElem?_eq_some_iff.mp hk).1
    have hz : (loop.outputs[k], o) ∈ loop.outputs.zip outs :=
      List.mem_of_getElem? (List.getElem?_zip_eq_some.mpr ⟨List.getElem?_eq_getElem hk', hk⟩)
    have hcheck := forM_eq_ok.mp h _ hz
    cases o with
    | none => cases hcheck
    | some d => rfl

/-! ### Outputs by position -/

/-- An output of a loop by its position. -/
def pick : Nat → Elem × Elem → Elem
  | 0, r => r.1
  | _, r => r.2

theorem getElem?_pair (r : Elem × Elem) {k : Nat} (h : k < 2) :
    [r.1, r.2][k]? = some (pick k r) := by
  match k, h with
  | 0, _ => rfl
  | 1, _ => rfl

/-- Outputs are in the form that the loop's dtypes store. -/
theorem canonical_apply {f : Ufunc} {loop : Loop} {k : Nat} {d : DType} (hk : k < 2)
    (h : loop.outputs[k]? = some d) (args : List Elem) :
    (pick k (f.apply loop args)).Canonical d := by
  match k, hk with
  | 0, _ =>
    show (castOutput loop.outputs[0]? _).Canonical d
    rw [h]
    exact Elem.canonical_cast _ d
  | 1, _ =>
    show (castOutput loop.outputs[1]? _).Canonical d
    rw [h]
    exact Elem.canonical_cast _ d

end ArrayFusion.Ufunc
