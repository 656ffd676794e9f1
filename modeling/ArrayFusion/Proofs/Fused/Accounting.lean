/-
ArrayFusion/Proofs/Fused/Accounting.lean

What the counters of a fused function count.

Design.  A log says for each call what it did about its bundle: it found one,
it compiled one, or it failed to.  The counters are compared with the log, and
so is what the cache finds: these are the signatures compiled since the last
time it was cleared (`recent`).  A request has three outcomes
(`bundleFor_cases`), and each of them changes the cache in one place, so that
the comparison is kept by one step (`Tallied.bundleFor`).  A body that breaks a rule
while it is recorded counts as compiled, because its bundle keeps the failure.

Main result: a signature is compiled at most once between two clearings, and
calls, compilations and entries are counted right (`compile_once`).
-/
import ArrayFusion.Proofs.Fused.Call

namespace ArrayFusion

namespace KernelCache

variable {β : Type}

/-- Setting the entry of a signature for which nothing was compiled. -/
theorem countP_put {sig : Signature} {entries : List (Signature × Option β)}
    (h : (entries.lookup sig).join = none) (slot : Option β) :
    (put sig slot entries).countP (fun p => p.2.isSome) =
      entries.countP (fun p => p.2.isSome) + if slot.isSome then 1 else 0 := by
  fun_induction put sig slot entries with
  | case1 => simp [List.countP_cons]
  | case2 old rest =>
    -- the entry that is there is an empty one
    rw [List.lookup_cons, beq_self_eq_true] at h
    obtain rfl : old = none := h
    simp [List.countP_cons]
  | case3 s old rest hs ih =>
    have hb : (sig == s) = false := beq_eq_false_iff_ne.mpr (Ne.symm hs)
    rw [List.lookup_cons, hb] at h
    rw [List.countP_cons, List.countP_cons, ih h]
    omega

end KernelCache

namespace Fused

/-! ### Histories -/

/-- What a call does about its bundle. -/
inductive Outcome
  | found
  | compiled
  | failed
  deriving DecidableEq

/-- What a request for a bundle comes to. -/
def outcome (f : Fused) (backend : Backend) (sig : Signature) : Outcome :=
  match f.cache.find? sig with
  | some _ => .found
  | none =>
    match Bundle.compile f.function sig.params f.kernelName backend with
    | .ok _ => .compiled
    | .error _ => .failed

/-- What happens to a fused function. -/
inductive Event
  | call (sig : Signature) (outcome : Outcome)
  | clear
  deriving DecidableEq

/-- Number of calls in a log. -/
def calls (log : List Event) : Nat :=
  log.countP fun e => match e with
    | .call _ _ => true
    | .clear => false

/-- Number of successful compilations in a log. -/
def compilations (log : List Event) : Nat :=
  log.countP fun e => match e with
    | .call _ .compiled => true
    | _ => false

/-- Signatures compiled since the cache was cleared last; the log starts with
the latest event. -/
def recent : List Event → List Signature
  | [] => []
  | .clear :: _ => []
  | .call sig .compiled :: log => sig :: recent log
  | .call _ _ :: log => recent log

theorem calls_cons_call (sig : Signature) (o : Outcome) (log : List Event) :
    calls (.call sig o :: log) = calls log + 1 :=
  List.countP_cons_of_pos rfl

theorem compilations_cons_compiled (sig : Signature) (log : List Event) :
    compilations (.call sig .compiled :: log) = compilations log + 1 :=
  List.countP_cons_of_pos rfl

/-- The signature that a call asks a bundle for. -/
def asked (f : Fused) (current : Backend) (args : List Arg) : Signature :=
  f.signature (f.backendFor current) args

/-- How a fused function comes about, with the log of what happened to it.
Between two calls, arrays may change in any way. -/
inductive History (id : Nat) (function : Function) (options : FusionSettings) :
    Fused → List Event → Prop
  | make : History id function options (make id function options) []
  | call {f : Fused} {log : List Event} (before : History id function options f log)
      (current : Backend) (args : List Arg) (store : Store) :
      History id function options (call current args (f, store)).2.1
        (.call (f.asked current args)
          (f.outcome (f.backendFor current) (f.asked current args)) :: log)
  | clearCache {f : Fused} {log : List Event} (before : History id function options f log) :
      History id function options f.clearCache (.clear :: log)

/-- The counters agree with a log. -/
structure Balanced (f : Fused) (log : List Event) : Prop where
  requests : f.cache.stats.hits + f.cache.stats.misses = calls log
  announced : f.cache.stats.compiles = f.announced.length
  compiles : f.cache.stats.compiles = compilations log
  bound : f.cache.stats.compiles ≤ f.cache.stats.misses
  entries : f.cache.stats.entries = (recent log).length
  once : (recent log).Nodup

/-- How one more call is counted, if the function was in the first state before
it and is in the second one after it. -/
structure Counted (log : List Event) (current : Backend) (args : List Arg) (f g : Fused)
    (answer : Except Error (Returned Operand)) : Prop where
  /-- It is a hit iff its signature was compiled since the last clearing. -/
  hit : g.cache.stats.hits = f.cache.stats.hits + 1 ↔ f.asked current args ∈ recent log
  /-- Otherwise it is a miss. -/
  miss : g.cache.stats.misses = f.cache.stats.misses + 1 ↔ f.asked current args ∉ recent log
  /-- A compilation that fails is made at every call and not kept. -/
  failed : ∀ e, f.asked current args ∉ recent log →
    Bundle.compile f.function (args.map ArgClass.ofArg) f.kernelName (f.backendFor current) =
      .error e →
    f.outcome (f.backendFor current) (f.asked current args) = .failed ∧ answer = .error e ∧
      g.cache.stats = { f.cache.stats with misses := f.cache.stats.misses + 1 } ∧
      g.announced = f.announced

/-! ### One request -/

/-- The three outcomes of a request, with all that they change. -/
theorem bundleFor_cases (backend : Backend) (sig : Signature) (f : Fused) :
    (f.outcome backend sig = .found ∧ ∃ b, f.cache.find? sig = some b ∧
      bundleFor backend sig f =
        (.ok b, { f with cache := { f.cache with hits := f.cache.hits + 1 } })) ∨
    (f.outcome backend sig = .compiled ∧ f.cache.find? sig = none ∧
      ∃ b, Bundle.compile f.function sig.params f.kernelName backend = .ok b ∧
        bundleFor backend sig f = (.ok b, ({ f with cache :=
          ⟨KernelCache.put sig (some b) f.cache.entries, f.cache.hits, f.cache.misses + 1,
            f.cache.compiles + 1⟩ } : Fused).announce sig backend b)) ∨
    (f.outcome backend sig = .failed ∧ f.cache.find? sig = none ∧
      ∃ e, Bundle.compile f.function sig.params f.kernelName backend = .error e ∧
        bundleFor backend sig f = (.error e, { f with cache :=
          ⟨KernelCache.put sig none f.cache.entries, f.cache.hits, f.cache.misses + 1,
            f.cache.compiles⟩ })) := by
  unfold outcome bundleFor KernelCache.fetch
  dsimp only
  rcases hfound : f.cache.find? sig with - | b
  · right
    rcases hc : Bundle.compile f.function sig.params f.kernelName backend with e | b
    · exact .inr ⟨rfl, rfl, e, rfl, rfl⟩
    · exact .inl ⟨rfl, rfl, b, rfl, rfl⟩
  · exact .inl ⟨rfl, b, rfl, rfl⟩

/-- A call without a bundle fails. -/
theorem fst_call_of_error {f f' : Fused} {current : Backend} {args : List Arg} {e : Error}
    (h : bundleFor (f.backendFor current) (f.asked current args) f = (.error e, f'))
    (store : Store) : (call current args (f, store)).1 = .error e := by
  unfold asked at h
  unfold call
  dsimp only
  rw [h]

theorem announced_announce {f : Fused} (hook : f.options.onCompile = true) (sig : Signature)
    (backend : Backend) (b : Bundle) :
    (f.announce sig backend b).announced = f.announced ++ [sig] :=
  if_pos hook

/-! ### All requests -/

/-- The counters agree with a log, and what is found are the signatures
compiled since the last clearing. -/
structure Tallied (f : Fused) (log : List Event) : Prop where
  hook : f.options.onCompile = true
  balanced : f.Balanced log
  found : ∀ sig, (f.cache.find? sig).isSome ↔ sig ∈ recent log

theorem tallied_make (id : Nat) (function : Function) {options : FusionSettings}
    (hook : options.onCompile = true) : (make id function options).Tallied [] where
  hook := hook
  balanced := ⟨rfl, rfl, rfl, Nat.le_refl 0, rfl, List.nodup_nil⟩
  found sig := by simp [make, KernelCache.empty, KernelCache.find?, recent]

section

variable {f : Fused} {log : List Event}

/-- Clearing drops the entries and keeps the counters. -/
theorem Tallied.clearCache (h : f.Tallied log) : f.clearCache.Tallied (.clear :: log) where
  hook := h.hook
  balanced := { h.balanced with entries := rfl, once := List.nodup_nil }
  found sig := by simp [Fused.clearCache, KernelCache.clear, KernelCache.find?, recent]

theorem Tallied.not_mem (h : f.Tallied log) {sig : Signature} (hnone : f.cache.find? sig = none) :
    sig ∉ recent log := by
  rw [← h.found sig, hnone]
  simp

/-- What is found after an entry was set. -/
theorem Tallied.found_put (h : f.Tallied log) {sig : Signature} (hnone : f.cache.find? sig = none)
    (slot : Option Bundle) (hits misses compiles : Nat) (other : Signature) :
    (KernelCache.find? ⟨KernelCache.put sig slot f.cache.entries, hits, misses, compiles⟩
      other).isSome ↔ (other = sig ∧ slot.isSome) ∨ other ∈ recent log := by
  by_cases ho : other = sig
  · rw [ho, KernelCache.find?_put_self]
    simp [h.not_mem hnone]
  · rw [KernelCache.find?_put_of_ne f.cache ho, h.found other]
    simp [ho]

/-- A request keeps the counters in agreement with the log. -/
theorem Tallied.bundleFor (h : f.Tallied log) (backend : Backend) (sig : Signature) :
    (Fused.bundleFor backend sig f).2.Tallied (.call sig (f.outcome backend sig) :: log) := by
  obtain ⟨hreq, hann, hcomp, hbound, hent, honce⟩ := h.balanced
  simp only [KernelCache.stats] at hreq hann hcomp hbound hent
  rcases bundleFor_cases backend sig f with
    ⟨hout, b, hfound, heq⟩ | ⟨hout, hnone, b, -, heq⟩ | ⟨hout, hnone, e, -, heq⟩
  · rw [hout, heq]
    refine ⟨h.hook, ⟨?_, hann, hcomp, hbound, hent, honce⟩, h.found⟩
    rw [calls_cons_call, ← hreq]
    exact Nat.add_right_comm _ _ _
  · rw [hout, heq]
    dsimp only
    constructor
    case hook => exact h.hook
    case balanced =>
      constructor
      case requests => rw [calls_cons_call, ← hreq]; rfl
      case announced =>
        rw [announced_announce, List.length_append, List.length_singleton]
        · exact congrArg (· + 1) hann
        · exact h.hook
      case compiles => rw [compilations_cons_compiled, ← hcomp]; rfl
      case bound => exact Nat.succ_le_succ hbound
      case entries =>
        rw [recent, List.length_cons, ← hent]
        exact KernelCache.countP_put hnone (some b)
      case once => exact List.nodup_cons.mpr ⟨h.not_mem hnone, honce⟩
    case found =>
      intro other
      rw [recent, List.mem_cons]
      exact (h.found_put hnone (some b) _ _ _ other).trans (by simp)
  · rw [hout, heq]
    constructor
    case hook => exact h.hook
    case balanced =>
      refine ⟨?_, hann, hcomp, Nat.le_succ_of_le hbound, ?_, honce⟩
      · rw [calls_cons_call, ← hreq]
        rfl
      · show _ = (recent log).length
        rw [← hent]
        exact KernelCache.countP_put hnone none
    case found =>
      intro other
      exact (h.found_put hnone none _ _ _ other).trans (by simp [recent])

theorem History.tallied {id : Nat} {function : Function} {options : FusionSettings}
    (h : History id function options f log) (hook : options.onCompile = true) : f.Tallied log := by
  induction h with
  | make => exact tallied_make id function hook
  | call before current args store ih =>
    rw [snd_call]
    exact ih.bundleFor _ _
  | clearCache before ih => exact ih.clearCache

theorem Tallied.counted (h : f.Tallied log) (current : Backend) (args : List Arg) (store : Store) :
    Counted log current args f (Fused.call current args (f, store)).2.1
      (Fused.call current args (f, store)).1 := by
  have hafter : (Fused.call current args (f, store)).2.1 =
      (Fused.bundleFor (f.backendFor current) (f.asked current args) f).2 :=
    snd_call current args f store
  rw [hafter]
  rcases bundleFor_cases (f.backendFor current) (f.asked current args) f with
    ⟨hout, b, hfound, heq⟩ | ⟨hout, hnone, b, hc, heq⟩ | ⟨hout, hnone, e, hc, heq⟩
  · have hmem : f.asked current args ∈ recent log := by
      rw [← h.found, hfound]
      rfl
    rw [heq]
    refine ⟨iff_of_true rfl hmem, iff_of_false ?_ (not_not_intro hmem), ?_⟩
    · exact Nat.ne_of_lt (Nat.lt_succ_self _)
    · exact fun e hnot => absurd hmem hnot
  · rw [heq]
    have hnot := h.not_mem hnone
    refine ⟨iff_of_false ?_ hnot, iff_of_true rfl hnot, ?_⟩
    · exact Nat.ne_of_lt (Nat.lt_succ_self _)
    · intro e _ he
      cases hc.symm.trans he
  · have hanswer := fst_call_of_error heq store
    rw [heq]
    have hnot := h.not_mem hnone
    refine ⟨iff_of_false ?_ hnot, iff_of_true rfl hnot, ?_⟩
    · exact Nat.ne_of_lt (Nat.lt_succ_self _)
    · intro e' _ he
      cases hc.symm.trans he
      refine ⟨hout, hanswer, ?_, rfl⟩
      exact congrArg (CacheCounters.mk _ _ _) (KernelCache.countP_put hnone none)

/-- **Compile once.**  After any calls and clearings of a function that
announces what it compiles, whether the calls succeed, fail to compile or fail
when launched, the counters are those of the log, no signature was compiled
twice since the last clearing, and a call is a hit iff its signature was
compiled since then. -/
theorem compile_once {id : Nat} {function : Function} {options : FusionSettings}
    (h : History id function options f log) (hook : options.onCompile = true) :
    f.Balanced log ∧ ∀ current args store,
      Counted log current args f (call current args (f, store)).2.1
        (call current args (f, store)).1 := by
  have htally := h.tallied hook
  exact ⟨htally.balanced, fun current args store => htally.counted current args store⟩

end

/-- A body that reduces along an axis which is not there if its argument has
one axis, and cannot be recorded otherwise. -/
def failsByRank : Function :=
  ⟨"fails_by_rank", none,
    [.arg (.one "a") 0, .branch (.ndim "a" 1)
      [.reduce (.one "s") .sum "a" (some 3), .ret (.single "s")] [.raise "two axes"]]⟩

/-- The failure at the axis is compiled once and found again; the other one is
compiled at every call. -/
theorem compile_once_fails_by_rank :
    let store : Store := ⟨[[.int 1, .int 2]]⟩
    let row : List Arg := [.array ⟨0, .int .w64, ⟨[2]⟩⟩]
    let table : List Arg := [.array ⟨0, .int .w64, ⟨[1, 2]⟩⟩]
    let after := fun f args => (call Host.backend args (f, store)).2.1
    let f := after (after (after (make 0 failsByRank ⟨none, none, true⟩) row) row) table
    ∃ log, f.cache.stats = ⟨1, 2, 1, 1⟩ ∧ calls log = 3 ∧
      recent log = [f.asked Host.backend row] ∧ f.Balanced log ∧
      Counted log Host.backend table f (after f table) (call Host.backend table (f, store)).1 := by
  intro store row table after f
  have hf : History 0 failsByRank ⟨none, none, true⟩ f _ :=
    .call (.call (.call .make Host.backend row store) Host.backend row store)
      Host.backend table store
  obtain ⟨hbal, hcount⟩ := compile_once hf rfl
  exact ⟨_, by decide +kernel, by decide +kernel, by decide +kernel, hbal,
    hcount Host.backend table store⟩

end Fused

end ArrayFusion
