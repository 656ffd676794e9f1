/-
ArrayFusion/Proofs/Fused/Call.lean

What a fused call launches.

Design.  A function that is in use holds whatever its calls so far have
compiled, in whatever order and on whatever backends.  `Reachable` says how
such a function comes about.  The signature names the backend, so what is
found under the name of the host was compiled by the host, for the function's
own body (`Faithful`).

Main result: a call on the host launches what compiling its signature yields,
whether that was compiled now or before (`call_host`).
-/
import ArrayFusion.Fused.Basic
import ArrayFusion.Kernel.Host

namespace ArrayFusion

namespace KernelCache

variable {β : Type}

theorem find?_put_self (c : KernelCache β) (sig : Signature) (slot : Option β)
    (hits misses compiles : Nat) :
    find? ⟨put sig slot c.entries, hits, misses, compiles⟩ sig = slot := by
  rw [find?, lookup_put_self]
  rfl

theorem find?_put_of_ne (c : KernelCache β) {sig other : Signature} (h : other ≠ sig)
    (slot : Option β) (hits misses compiles : Nat) :
    find? ⟨put sig slot c.entries, hits, misses, compiles⟩ other = c.find? other := by
  rw [find?, lookup_put_of_ne h]
  rfl

/-- What is found after a request: what was there, or what the request
compiled. -/
theorem find?_fetch {c : KernelCache β} {sig other : Signature} {compile : Unit → Except Error β}
    {b : β} (h : (fetch sig compile c).2.find? other = some b) :
    c.find? other = some b ∨ other = sig ∧ compile () = .ok b := by
  unfold fetch at h
  rcases hfound : c.find? sig with - | b'
  · rw [hfound] at h
    rcases hc : compile () with e | b'
    · simp only [hc] at h
      by_cases ho : other = sig
      · rw [ho, find?_put_self] at h
        cases h
      · rw [find?_put_of_ne c ho] at h
        exact .inl h
    · simp only [hc] at h
      by_cases ho : other = sig
      · rw [ho, find?_put_self] at h
        cases h
        exact .inr ⟨ho, rfl⟩
      · rw [find?_put_of_ne c ho] at h
        exact .inl h
  · rw [hfound] at h
    exact .inl h

/-- A request yields what is there, or else what it compiles. -/
theorem fst_fetch (c : KernelCache β) (sig : Signature) (compile : Unit → Except Error β) :
    (fetch sig compile c).1 = match c.find? sig with
      | some b => .ok b
      | none => compile () := by
  unfold fetch
  rcases c.find? sig with - | b
  · rcases compile () with e | b
    · rfl
    · rfl
  · rfl

end KernelCache

namespace Fused

/-- How a fused function comes about: it is made, called, and told to forget
what was compiled.  No other backend goes by the name of the host. -/
inductive Reachable : Fused → Prop
  | make (id : Nat) (function : Function) (options : FusionSettings) :
      Reachable (make id function options)
  | call {f : Fused} (current : Backend) (args : List Arg) (store : Store) (before : Reachable f)
      (named : (f.backendFor current).name = Host.backend.name →
        f.backendFor current = Host.backend) :
      Reachable (call current args (f, store)).2.1
  | clearCache {f : Fused} (before : Reachable f) : Reachable f.clearCache

/-- What is kept under the name of the host is what the host compiles. -/
def Faithful (f : Fused) : Prop :=
  ∀ {sig : Signature} {b : Bundle}, f.cache.find? sig = some b →
    sig.backend = Host.backend.name →
    Bundle.compile f.function sig.params f.kernelName Host.backend = .ok b

/-- A request for a bundle changes the cache and the records, nothing else. -/
theorem bundleFor_eq (backend : Backend) (sig : Signature) (f : Fused) :
    let fetched := KernelCache.fetch sig
      (fun _ => Bundle.compile f.function sig.params f.kernelName backend) f.cache
    (bundleFor backend sig f).1 = fetched.1 ∧ (bundleFor backend sig f).2.cache = fetched.2 ∧
      (bundleFor backend sig f).2.function = f.function ∧
      (bundleFor backend sig f).2.options = f.options := by
  unfold bundleFor
  dsimp only
  rcases KernelCache.fetch sig
    (fun _ => Bundle.compile f.function sig.params f.kernelName backend) f.cache with ⟨e | b, c⟩
  · exact ⟨rfl, rfl, rfl, rfl⟩
  · cases (f.cache.find? sig).isSome with
    | false => exact ⟨rfl, rfl, rfl, rfl⟩
    | true => exact ⟨rfl, rfl, rfl, rfl⟩

theorem Faithful.bundleFor {f : Fused} (h : f.Faithful) {backend : Backend} {sig : Signature}
    (hsig : sig.backend = backend.name)
    (named : backend.name = Host.backend.name → backend = Host.backend) :
    (Fused.bundleFor backend sig f).2.Faithful := by
  obtain ⟨-, hcache, hfn, hopt⟩ := bundleFor_eq backend sig f
  intro other b hfound hother
  rw [hcache] at hfound
  rw [Fused.kernelName, hfn, hopt]
  rcases KernelCache.find?_fetch hfound with hold | ⟨rfl, hnew⟩
  · exact h hold hother
  · rw [← named (hsig.symm.trans hother)]
    exact hnew

/-- The function after a call is the function after the request for its
bundle. -/
theorem snd_call (current : Backend) (args : List Arg) (f : Fused) (store : Store) :
    (call current args (f, store)).2.1 =
      (bundleFor (f.backendFor current) (f.signature (f.backendFor current) args) f).2 := by
  unfold call
  dsimp only
  rcases bundleFor (f.backendFor current) (f.signature (f.backendFor current) args) f with
    ⟨e | b, f'⟩
  · rfl
  · rfl

theorem Reachable.faithful {f : Fused} (h : f.Reachable) : f.Faithful := by
  induction h with
  | make id function options =>
    intro sig b hfound
    cases hfound
  | call current args store before named ih =>
    rw [snd_call]
    exact ih.bundleFor rfl named
  | clearCache before ih =>
    intro sig b hfound
    cases hfound

/-- A call launches what compiling its signature yields, as long as nothing
else is kept for the signature. -/
theorem call_eq {f : Fused} (current : Backend) (args : List Arg) (s : Store)
    (hkept : ∀ b, f.cache.find? (f.signature (f.backendFor current) args) = some b →
      Bundle.compile f.function (args.map ArgClass.ofArg) f.kernelName (f.backendFor current) =
        .ok b) :
    ∃ f', call current args (f, s) =
      match Bundle.compile f.function (args.map ArgClass.ofArg) f.kernelName
        (f.backendFor current) with
      | .error e => (.error e, (f', s))
      | .ok b => ((b.launch args s).1, (f', (b.launch args s).2)) := by
  obtain ⟨hfst, -, -, -⟩ :=
    bundleFor_eq (f.backendFor current) (f.signature (f.backendFor current) args) f
  rw [KernelCache.fst_fetch] at hfst
  have hbundle : (bundleFor (f.backendFor current)
      (f.signature (f.backendFor current) args) f).1 =
      Bundle.compile f.function (args.map ArgClass.ofArg) f.kernelName
        (f.backendFor current) := by
    rcases hfound : f.cache.find? (f.signature (f.backendFor current) args) with - | b
    · rw [hfound] at hfst
      exact hfst
    · rw [hfound] at hfst
      exact hfst.trans (hkept b hfound).symm
  unfold call
  dsimp only
  rcases hreq : bundleFor (f.backendFor current)
    (f.signature (f.backendFor current) args) f with ⟨e | b, f'⟩
  · rw [hreq] at hbundle
    rw [← hbundle]
    exact ⟨f', rfl⟩
  · rw [hreq] at hbundle
    rw [← hbundle]
    exact ⟨f', rfl⟩

/-- A call on the host launches what the host compiles for its signature. -/
theorem call_host {f : Fused} (hf : f.Reachable) (hhost : f.backendFor Host.backend = Host.backend)
    (args : List Arg) (s : Store) :
    ∃ f', call Host.backend args (f, s) =
      match Bundle.compile f.function (args.map ArgClass.ofArg) f.kernelName Host.backend with
      | .error e => (.error e, (f', s))
      | .ok b => ((b.launch args s).1, (f', (b.launch args s).2)) := by
  have hcall := call_eq (f := f) Host.backend args s
  rw [hhost] at hcall
  exact hcall fun b hfound => hf.faithful hfound rfl

end Fused

end ArrayFusion
