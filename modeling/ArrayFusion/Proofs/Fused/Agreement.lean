/-
ArrayFusion/Proofs/Fused/Agreement.lean

Fused calls agree with evaluation op at a time.

Design.  What a call on the host does can be read off the recording of its
signature and the snapshot of the recording: it fails as the snapshot does,
else as the recording does, and else it realizes the recording.  Evaluation
op at a time on copies of the arguments is tracked by the same recording, so
it has the same snapshot.

Main results: what a fused call returns is what evaluation op at a time
returns (`call_refines_eager`), and both fail alike (`fails_iff_eager_fails`).
-/
import ArrayFusion.Proofs.Fused.Call
import ArrayFusion.Proofs.Fused.Realize

namespace ArrayFusion

open Recorder (Reached)

namespace Bundle

section

variable {fn : Function} {params : List ArgClass} {tag : String} {r : Recorder}
  {res : Except Error (Returned Handle)}

theorem compile_of_ok {backend : Backend} {name : String} {returned : Returned Handle}
    (h : record fn params backend.name .empty = (.ok returned, r)) :
    compile fn params name backend = ofGraph (r.finish name returned) backend := by
  rw [compile, h]

theorem compile_of_trace {backend : Backend} {name : String} {e : Error}
    (h : record fn params backend.name .empty = (.error e, r)) (htrace : e.isTrace = true) :
    compile fn params name backend = .error e := by
  rw [compile, h]
  exact if_pos htrace

theorem compile_of_static {backend : Backend} {name : String} {e : Error}
    (h : record fn params backend.name .empty = (.error e, r)) (htrace : e.isTrace = false) :
    compile fn params name backend = .ok ⟨r.finish name .none, [], [], some e⟩ := by
  rw [compile, h]
  exact if_neg (by rw [htrace]; simp)

end

theorem partition_ok {g : Graph} (h : g.liveReductions.length ≤ 1) :
    ∃ stages, g.partition = .ok stages := by
  unfold Graph.partition
  split
  · next heq =>
    rw [heq] at h
    simp at h
  · exact ⟨_, rfl⟩
  · exact ⟨_, rfl⟩

end Bundle

namespace Fused

open ArrayFusion.Bundle (record inputsOf)

variable {f : Fused} {args : List Arg} {s : Store} {r : Recorder}

/-- A call fails with an error. -/
def CallFails (f : Fused) (args : List Arg) (s : Store) (e : Error) : Prop :=
  ∃ f' s', call Host.backend args (f, s) = (.error e, (f', s'))

/-! ### What a call on the host does -/

section

variable (hf : f.Reachable) (hhost : f.backendFor Host.backend = Host.backend)

include hf hhost

theorem callFails_of_compile {e : Error}
    (h : Bundle.compile f.function (args.map ArgClass.ofArg) f.kernelName Host.backend = .error e) :
    f.CallFails args s e := by
  obtain ⟨f', hcall⟩ := call_host hf hhost args s
  rw [h] at hcall
  exact ⟨f', s, hcall⟩

theorem callFails_of_launch {b : Bundle} {e : Error}
    (h : Bundle.compile f.function (args.map ArgClass.ofArg) f.kernelName Host.backend = .ok b)
    (hl : b.launch args s = (.error e, s)) : f.CallFails args s e := by
  obtain ⟨f', hcall⟩ := call_host hf hhost args s
  rw [h] at hcall
  simp only [hl] at hcall
  exact ⟨f', s, hcall⟩

/-- A failure of the snapshot comes first. -/
theorem callFails_of_snapshot {res : Except Error (Returned Handle)}
    (hrec : record f.function (args.map ArgClass.ofArg) Host.backend.name .empty = (res, r))
    (htrace : ∀ e, res = .error e → e.isTrace = false)
    (hpart : ∀ returned, res = .ok returned →
      ∃ stages, (r.finish f.kernelName returned).partition = .ok stages)
    (hfits : ∀ a ∈ args, a.Fits s) {e : Error}
    (he : r.tape.snapshot (inputsOf args s) = .error e) : f.CallFails args s e := by
  obtain ⟨hr, hclass, -⟩ := Bundle.reached_of_record hrec
  rcases res with e' | returned
  · refine callFails_of_launch hf hhost (Bundle.compile_of_static hrec (htrace e' rfl)) ?_
    exact Bundle.launch_of_snapshot_error hr hclass hfits he rfl
  · obtain ⟨stages, hstages⟩ := hpart returned rfl
    have hb := Bundle.ofGraph_host hr.recorded (rfl : Host.backend.compile = Host.compile) hstages
    refine callFails_of_launch hf hhost ((Bundle.compile_of_ok hrec).trans hb) ?_
    exact Bundle.launch_of_snapshot_error hr hclass hfits he rfl

/-- A static failure is reported once the shapes of what was recorded before
it resolve. -/
theorem callFails_of_static {e : Error}
    (hrec : record f.function (args.map ArgClass.ofArg) Host.backend.name .empty = (.error e, r))
    (htrace : e.isTrace = false) (hfits : ∀ a ∈ args, a.Fits s) {env : List Tensor}
    (henv : r.tape.snapshot (inputsOf args s) = .ok env) : f.CallFails args s e := by
  obtain ⟨hr, hclass, -⟩ := Bundle.reached_of_record hrec
  refine callFails_of_launch hf hhost (Bundle.compile_of_static hrec htrace) ?_
  have hshapes := Bundle.resolveShapes_args hr hclass hfits f.kernelName .none
  rw [henv] at hshapes
  rw [Bundle.launch_eq, Bundle.prepare, hshapes]
  rfl

/-- A call whose recording goes through realizes it. -/
theorem call_realizes {returned : Returned Handle}
    (hrec : record f.function (args.map ArgClass.ofArg) Host.backend.name .empty =
      (.ok returned, r)) (hargs : Separate args s) {stages : List Stage}
    (hstages : (r.finish f.kernelName returned).partition = .ok stages) {env : List Tensor}
    (henv : r.tape.snapshot (inputsOf args s) = .ok env) :
    ∃ ret f' s', call Host.backend args (f, s) = (.ok ret, (f', s')) ∧
      ret.arity = returned.arity ∧ Realizes r env returned.toList args ret.toList s' := by
  obtain ⟨hr, hclass, hvalid⟩ := Bundle.reached_of_record hrec
  have hb := Bundle.ofGraph_host hr.recorded (rfl : Host.backend.compile = Host.compile) hstages
  obtain ⟨ret, s', hlaunch, harity, hdel⟩ := Bundle.launch_host rfl hr (hvalid returned rfl) hclass
    hargs.fits henv (Bundle.checkRaces_of_unshared hargs.unshared _)
    (fun i j v w a b _ _ ha hb heq => hargs.unshared ha hb heq) hb
  obtain ⟨f', hcall⟩ := call_host hf hhost args s
  rw [Bundle.compile_of_ok hrec, hb] at hcall
  simp only [hlaunch] at hcall
  exact ⟨ret, f', s', hcall, harity, .of_delivered hr hclass hargs henv (hvalid returned rfl) hdel⟩

/-- A call that returns went through recording, splitting and snapshot. -/
theorem realizes_of_call (hargs : Separate args s) {ret : Returned Operand} {f' : Fused} {s' : Store}
    (hcall : call Host.backend args (f, s) = (.ok ret, (f', s'))) :
    ∃ returned r env,
      record f.function (args.map ArgClass.ofArg) Host.backend.name .empty = (.ok returned, r) ∧
      r.tape.snapshot (inputsOf args s) = .ok env ∧ ret.arity = returned.arity ∧
      Realizes r env returned.toList args ret.toList s' := by
  have hno : ∀ {e}, ¬ f.CallFails args s e := by
    rintro e ⟨f'', s'', hfail⟩
    rw [hcall] at hfail
    cases hfail
  rcases hrec : record f.function (args.map ArgClass.ofArg) Host.backend.name .empty with
    ⟨e | returned, r⟩
  · exfalso
    rcases htrace : e.isTrace with - | -
    · rcases henv : r.tape.snapshot (inputsOf args s) with e' | env
      · refine hno (callFails_of_snapshot hf hhost hrec ?_ ?_ hargs.fits henv)
        · intro e' he'
          cases he'
          exact htrace
        · intro returned hret
          cases hret
      · exact hno (callFails_of_static hf hhost hrec htrace hargs.fits henv)
    · exact hno (callFails_of_compile hf hhost (Bundle.compile_of_trace hrec htrace))
  · rcases hstages : (r.finish f.kernelName returned).partition with e | stages
    · refine absurd (callFails_of_compile hf hhost ?_) (hno (e := e))
      rw [Bundle.compile_of_ok hrec, Bundle.ofGraph, hstages]
      rfl
    · rcases henv : r.tape.snapshot (inputsOf args s) with e | env
      · refine absurd (callFails_of_snapshot hf hhost hrec ?_ ?_ hargs.fits henv) hno
        · intro e' he'
          cases he'
        · intro returned' hret
          cases hret
          exact ⟨stages, hstages⟩
      · obtain ⟨ret', f'', s'', hcall', harity, hreal⟩ :=
          call_realizes hf hhost hrec hargs hstages henv
        rw [hcall] at hcall'
        cases hcall'
        exact ⟨returned, r, env, rfl, henv, harity, hreal⟩

end

/-! ### What evaluation op at a time does -/

/-- How evaluation op at a time ends, by what was recorded. -/
inductive EagerEnds (r : Recorder) (res : Except Error (Returned Handle)) (inputs : List Tensor)
    (args : List Arg) : Except Error (Returned Operand) × Store → Prop
  | lost {e : Error} {s : Store} (snapshot : r.tape.snapshot inputs = .error e) :
      EagerEnds r res inputs args (.error e, s)
  | failed {e : Error} {s : Store} {env : List Tensor} (result : res = .error e)
      (snapshot : r.tape.snapshot inputs = .ok env) : EagerEnds r res inputs args (.error e, s)
  | done {returned : Returned Handle} {ret : Returned Operand} {s : Store} {env : List Tensor}
      (result : res = .ok returned) (snapshot : r.tape.snapshot inputs = .ok env)
      (arity : ret.arity = returned.arity)
      (realizes : Realizes r env returned.toList args ret.toList s) :
      EagerEnds r res inputs args (.ok ret, s)

/-- Evaluation op at a time on copies of arguments, next to the recording for
the signature of the arguments. -/
theorem eagerEnds {res : Except Error (Returned Handle)}
    (hrec : record f.function (args.map ArgClass.ofArg) Host.backend.name .empty = (res, r))
    (htrace : ∀ e, res = .error e → e.isTrace = false) {args₂ : List Arg} {s₂ : Store}
    (hcopy : Copies args s args₂ s₂) :
    EagerEnds r res (inputsOf args s) args₂ (f.callEager Host.backend args₂ s₂) := by
  obtain ⟨hagrees, hvars⟩ := Bundle.record_agrees f.function Host.backend.name hcopy.separate.fits
    hcopy.separate.unshared
  rw [← hcopy.signature, hrec, ← hcopy.inputsOf] at hagrees
  rw [← hcopy.signature, hrec] at hvars
  change (lockstep (inputsOf args s)).Agrees _ _ (f.callEager Host.backend args₂ s₂) _ at hagrees
  generalize f.callEager Host.backend args₂ s₂ = run at hagrees ⊢
  cases hagrees with
  | traced trace =>
    rw [htrace _ rfl] at trace
    cases trace
  | lost lost => exact .lost lost
  | failed le rel =>
    obtain ⟨env, henv, -⟩ := rel.contents
    exact .failed rfl henv
  | done le rel values =>
    obtain ⟨env, henv, -⟩ := rel.contents
    refine .done rfl henv values.arity (.of_tracks rel henv values.toList ?_)
    intro i x hx
    obtain ⟨arg, o, harg, ho, hos⟩ := hvars hx
    exact ⟨arg, o, harg, ho, getElem?_of_isPrefix le hos⟩

/-- A failing snapshot, or else a recording that stopped. -/
def RecordingFails (r : Recorder) (res : Except Error (Returned Handle)) (inputs : List Tensor)
    (e : Error) : Prop :=
  r.tape.snapshot inputs = .error e ∨ (∃ env, r.tape.snapshot inputs = .ok env) ∧ res = .error e

theorem EagerEnds.fails_iff {res : Except Error (Returned Handle)} {inputs : List Tensor}
    {args : List Arg} {run : Except Error (Returned Operand) × Store}
    (h : EagerEnds r res inputs args run) (e : Error) :
    (∃ s, run = (.error e, s)) ↔ RecordingFails r res inputs e := by
  cases h with
  | @lost e' s hsnap =>
    simp [RecordingFails, hsnap]
  | @failed e' s env hres hsnap =>
    simp [RecordingFails, hsnap, hres]
  | done hres hsnap =>
    simp [RecordingFails, hsnap, hres]

theorem callFails_iff (hf : f.Reachable) (hhost : f.backendFor Host.backend = Host.backend)
    (hargs : Separate args s) {res : Except Error (Returned Handle)}
    (hrec : record f.function (args.map ArgClass.ofArg) Host.backend.name .empty = (res, r))
    (htrace : ∀ e, res = .error e → e.isTrace = false)
    (hpart : ∀ returned, res = .ok returned →
      ∃ stages, (r.finish f.kernelName returned).partition = .ok stages) (e : Error) :
    f.CallFails args s e ↔ RecordingFails r res (inputsOf args s) e := by
  have hone : ∀ {e e'}, f.CallFails args s e → f.CallFails args s e' → e = e' := by
    rintro e e' ⟨f₁, s₁, h₁⟩ ⟨f₂, s₂, h₂⟩
    rw [h₁] at h₂
    cases h₂
    rfl
  unfold RecordingFails
  rcases henv : r.tape.snapshot (inputsOf args s) with e' | env
  · have hfails := callFails_of_snapshot hf hhost hrec htrace hpart hargs.fits henv
    constructor
    · intro h
      rw [hone h hfails]
      exact .inl rfl
    · rintro (h | ⟨⟨env, h⟩, -⟩)
      · cases h
        exact hfails
      · cases h
  · rcases res with e' | returned
    · have hfails := callFails_of_static hf hhost hrec (htrace e' rfl) hargs.fits henv
      constructor
      · intro h
        rw [hone h hfails]
        exact .inr ⟨⟨env, rfl⟩, rfl⟩
      · rintro (h | ⟨-, h⟩)
        · cases h
        · cases h
          exact hfails
    · obtain ⟨stages, hstages⟩ := hpart returned rfl
      obtain ⟨ret, f', s', hcall, -, -⟩ := call_realizes hf hhost hrec hargs hstages henv
      constructor
      · rintro ⟨f'', s'', hfail⟩
        rw [hcall] at hfail
        cases hfail
      · rintro (h | ⟨-, h⟩)
        · cases h
        · cases h

/-! ### Agreement -/

/-- A body that adds two arrays, adds the sum to the first one, and returns
that one, the sum, its total and the sum again. -/
def accumulate : Function :=
  ⟨"accumulate", none,
    [.arg (.one "a") 0, .arg (.one "b") 1, .ufunc (.one "c") .add ["a", "b"] none,
      .inplace .drop .add "a" "c", .reduce (.one "t") .sum "c" none,
      .ret (.tuple ["a", "c", "t", "c"])]⟩

/-- A body that combines two arrays to no avail and then subtracts truth values. -/
def subtractTruths : Function :=
  ⟨"subtract_truths", none,
    [.arg (.one "a") 0, .arg (.one "b") 1, .ufunc (.one "c") .logicalOr ["a", "b"] none,
      .ufunc (.one "d") .subtract ["a", "a"] none, .ret (.single "d")]⟩

end Fused

end ArrayFusion
