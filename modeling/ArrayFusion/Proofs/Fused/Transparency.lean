/-
ArrayFusion/Proofs/Fused/Transparency.lean

Nobody can tell from the answers of a fused function what it has compiled
before.

Design.  Two runs of the same uses are compared.  In one of them a single
function serves all uses and keeps what it compiles.  In the other one every
use gets a function that was just made.  What a used function keeps under a
signature is what some known backend of that name compiles for it (`Keeps`),
and recording a body looks at nothing beyond the signature.  So if the known
backends have different names, a call launches the same bundle in both runs.

Main result: `uses_eq_usesAnew`.
-/
import ArrayFusion.BackendScope
import ArrayFusion.Kernel.Probe
import ArrayFusion.Proofs.Fused.Call

namespace ArrayFusion.Fused

/-! ### Runs -/

/-- What can be done with a fused function, and in between. -/
inductive Use
  /-- Calls it with the backend that is current in a scope. -/
  | call (scope : BackendScope Backend) (args : List Arg)
  | clearCache
  /-- Changes arrays without it. -/
  | edit (change : Store → Store)

/-- The backend that a use compiles for. -/
def Use.backend? (options : FusionSettings) : Use → Option Backend
  | .call scope _ => some (options.backend.getD scope.current)
  | .clearCache => none
  | .edit _ => none

/-- One use: the answer if it is a call, and what is left behind. -/
def use (f : Fused) (s : Store) : Use → Option (Except Error (Returned Operand)) × Fused × Store
  | .call scope args =>
    let (answer, f, s) := call scope.current args (f, s)
    (some answer, f, s)
  | .clearCache => (none, f.clearCache, s)
  | .edit change => (none, f, change s)

/-- Uses one after the other: their answers, and the arrays after each. -/
def uses : Fused → Store → List Use → List (Option (Except Error (Returned Operand)) × Store)
  | _, _, [] => []
  | f, s, u :: us =>
    let (answer, f, s) := f.use s u
    (answer, s) :: uses f s us

/-- The same uses, each with a function made for it. -/
def usesAnew (function : Function) (options : FusionSettings) :
    (id : Nat) → Store → List Use → List (Option (Except Error (Returned Operand)) × Store)
  | _, _, [] => []
  | id, s, u :: us =>
    let (answer, _, s) := (make id function options).use s u
    (answer, s) :: usesAnew function options (id + 1) s us

/-- No two of the backends have the same name. -/
def NamesDiffer (backends : List Backend) : Prop :=
  ∀ b ∈ backends, ∀ c ∈ backends, b.name = c.name → b = c

/-! ### What a used function keeps -/

/-- A function with this body and these options that keeps under each signature
what a known backend of the signature's name compiles for it. -/
structure Keeps (function : Function) (options : FusionSettings) (known : List Backend)
    (f : Fused) : Prop where
  same_function : f.function = function
  same_options : f.options = options
  compiled : ∀ {sig : Signature} {b : Bundle}, f.cache.find? sig = some b →
    ∃ backend ∈ known, backend.name = sig.backend ∧
      Bundle.compile f.function sig.params f.kernelName backend = .ok b

section

variable {function : Function} {options : FusionSettings} {known : List Backend} {f g : Fused}

theorem keeps_make (id : Nat) : Keeps function options known (make id function options) :=
  ⟨rfl, rfl, fun h => by cases h⟩

theorem Keeps.clearCache (h : Keeps function options known f) :
    Keeps function options known f.clearCache :=
  ⟨h.same_function, h.same_options, fun h => by cases h⟩

/-- A call adds what its backend compiles. -/
theorem Keeps.call (h : Keeps function options known f) {current : Backend}
    (hknown : f.backendFor current ∈ known) (args : List Arg) (s : Store) :
    Keeps function options known (call current args (f, s)).2.1 := by
  rw [snd_call]
  obtain ⟨-, hcache, hfn, hopt⟩ :=
    bundleFor_eq (f.backendFor current) (f.signature (f.backendFor current) args) f
  refine ⟨hfn.trans h.same_function, hopt.trans h.same_options, ?_⟩
  intro sig b hfound
  rw [hcache] at hfound
  rw [kernelName, hfn, hopt]
  rcases KernelCache.find?_fetch hfound with hold | ⟨rfl, hnew⟩
  · exact h.compiled hold
  · exact ⟨f.backendFor current, hknown, rfl, hnew⟩

/-- What is kept for the signature of a call is what its backend compiles. -/
theorem Keeps.compile_of_find (h : Keeps function options known f) (hnames : NamesDiffer known)
    {current : Backend} (hknown : f.backendFor current ∈ known) {args : List Arg} {b : Bundle}
    (hfound : f.cache.find? (f.signature (f.backendFor current) args) = some b) :
    Bundle.compile f.function (args.map ArgClass.ofArg) f.kernelName (f.backendFor current) =
      .ok b := by
  obtain ⟨backend, hmem, hname, hcompile⟩ := h.compiled hfound
  rw [← hnames backend hmem _ hknown hname]
  exact hcompile

/-! ### One use -/

/-- Two functions with the same body and options answer a call alike, whatever
they keep. -/
theorem Keeps.call_alike (hf : Keeps function options known f)
    (hg : Keeps function options known g) (hnames : NamesDiffer known) {current : Backend}
    (hknown : options.backend.getD current ∈ known) (args : List Arg) (s : Store) :
    (Fused.call current args (f, s)).1 = (Fused.call current args (g, s)).1 ∧
      (Fused.call current args (f, s)).2.2 = (Fused.call current args (g, s)).2.2 := by
  have hfb : f.backendFor current = options.backend.getD current := by
    rw [backendFor, hf.same_options]
  have hgb : g.backendFor current = options.backend.getD current := by
    rw [backendFor, hg.same_options]
  have hname : f.kernelName = g.kernelName := by
    rw [kernelName, kernelName, hf.same_function, hf.same_options, hg.same_function,
      hg.same_options]
  obtain ⟨f', hf'⟩ := call_eq current args s
    fun b => hf.compile_of_find hnames (by rw [hfb]; exact hknown)
  obtain ⟨g', hg'⟩ := call_eq current args s
    fun b => hg.compile_of_find hnames (by rw [hgb]; exact hknown)
  rw [hf', hg', hfb, hgb, hname, hf.same_function, hg.same_function]
  rcases Bundle.compile function (args.map ArgClass.ofArg) g.kernelName
    (options.backend.getD current) with e | b
  · exact ⟨rfl, rfl⟩
  · exact ⟨rfl, rfl⟩

theorem Keeps.use (h : Keeps function options known f) (s : Store) {u : Use}
    (hknown : ∀ backend ∈ u.backend? options, backend ∈ known) :
    Keeps function options known (f.use s u).2.1 := by
  cases u with
  | call scope args =>
    apply h.call
    rw [backendFor, h.same_options]
    exact hknown _ rfl
  | clearCache => exact h.clearCache
  | edit change => exact h

theorem Keeps.use_alike (hf : Keeps function options known f) (hg : Keeps function options known g)
    (hnames : NamesDiffer known) (s : Store) {u : Use}
    (hknown : ∀ backend ∈ u.backend? options, backend ∈ known) :
    (f.use s u).1 = (g.use s u).1 ∧ (f.use s u).2.2 = (g.use s u).2.2 := by
  cases u with
  | call scope args =>
    obtain ⟨hanswer, hstore⟩ := hf.call_alike hg hnames (hknown _ rfl) args s
    exact ⟨congrArg some hanswer, hstore⟩
  | clearCache => exact ⟨rfl, rfl⟩
  | edit change => exact ⟨rfl, rfl⟩

/-! ### All uses -/

/-- From any function that keeps what known backends compile. -/
theorem Keeps.uses_eq (h : Keeps function options known f) (hnames : NamesDiffer known)
    {us : List Use} (hknown : ∀ u ∈ us, ∀ backend ∈ u.backend? options, backend ∈ known)
    (id : Nat) (s : Store) : f.uses s us = usesAnew function options id s us := by
  induction us generalizing f id s with
  | nil => rfl
  | cons u us ih =>
    have hu := hknown u List.mem_cons_self
    obtain ⟨hanswer, hstore⟩ := h.use_alike (keeps_make id) hnames s hu
    have hrest := ih (h.use s hu) (fun v hv => hknown v (List.mem_cons_of_mem u hv)) (id + 1)
      (f.use s u).2.2
    show ((f.use s u).1, (f.use s u).2.2) :: uses (f.use s u).2.1 (f.use s u).2.2 us = _
    rw [hrest, hanswer, hstore]
    rfl

end

/-- For every body, all options and every finite sequence of calls, whatever
their arguments and scopes, of clearings of the cache, and of changes to the
arrays in between: every call answers what a function just made would answer on
the same arrays, and leaves the same arrays behind. -/
theorem uses_eq_usesAnew (function : Function) (options : FusionSettings) (us : List Use)
    (hnames : NamesDiffer (us.filterMap (Use.backend? options))) (id id' : Nat) (s : Store) :
    (make id function options).uses s us = usesAnew function options id' s us := by
  apply (keeps_make id).uses_eq hnames
  intro u hu backend hbackend
  exact List.mem_filterMap.mpr ⟨u, hu, hbackend⟩

/-- A body that negates its argument on the host and returns it elsewhere. -/
def negateOnHost : Function :=
  ⟨"negate_on_host", none,
    [.arg (.one "a") 0, .branch (.backend "host")
      [.ufunc (.one "b") .negative ["a"] none] [.synonym (.one "b") "a"], .ret (.single "b")]⟩

/-- Calls on two backends, one of them served by what an earlier call on other
contents compiled, and one after the cache was cleared. -/
theorem uses_eq_usesAnew_negate_on_host :
    let options : FusionSettings := ⟨none, none, false⟩
    let scope : BackendScope Backend := .initial Host.backend
    let args : List Arg := [.array ⟨0, .int .w64, ⟨[2]⟩⟩]
    let us : List Use := [.call scope args, .call (scope.enter Probe.recording) args,
      .edit fun s => s.write 0 [.int 3, .int 4], .call scope args, .clearCache, .call scope args]
    let store : Store := ⟨[[.int 1, .int 2]]⟩
    NamesDiffer (us.filterMap (Use.backend? options)) ∧
      (make 0 negateOnHost options).uses store us = usesAnew negateOnHost options 1 store us := by
  intro options scope args us store
  have hnames : NamesDiffer (us.filterMap (Use.backend? options)) := by
    have htwo : ∀ b ∈ us.filterMap (Use.backend? options),
        b = Host.backend ∨ b = Probe.recording := by
      intro b hb
      have hb : b ∈ [Host.backend, Probe.recording, Host.backend, Host.backend] := hb
      simp only [List.mem_cons, List.not_mem_nil, or_false] at hb
      rcases hb with h | h | h | h
      · exact .inl h
      · exact .inr h
      · exact .inl h
      · exact .inl h
    intro b hb c hc hname
    rcases htwo b hb with rfl | rfl
    · rcases htwo c hc with rfl | rfl
      · rfl
      · exact absurd hname (by decide)
    · rcases htwo c hc with rfl | rfl
      · exact absurd hname (by decide)
      · rfl
  exact ⟨hnames, uses_eq_usesAnew negateOnHost options us hnames 0 1 store⟩

end ArrayFusion.Fused
