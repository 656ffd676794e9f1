/-
ArrayFusion/Fused/KernelCache.lean

What was compiled, by signature, with counters.

A failed compilation leaves an empty entry behind, and the next request for
its signature compiles again.  Dropping the entries keeps the counters.
-/
import ArrayFusion.Exec
import ArrayFusion.Fused.Signature
import ArrayFusion.Text.Quoted

namespace ArrayFusion

/-- Compiled things of type `β`, by signature. -/
structure KernelCache (β : Type) where
  entries : List (Signature × Option β)
  /-- Requests served by an entry. -/
  hits : Nat
  /-- Requests that found nothing compiled. -/
  misses : Nat
  /-- Successful compilations. -/
  compiles : Nat

/-- The counters of a cache, and how many compiled entries it holds. -/
structure CacheCounters where
  hits : Nat
  misses : Nat
  compiles : Nat
  entries : Nat
  deriving DecidableEq

namespace KernelCache

variable {β : Type}

/-- The cache at the start. -/
def empty : KernelCache β := ⟨[], 0, 0, 0⟩

/-- What was compiled for a signature. -/
def find? (c : KernelCache β) (sig : Signature) : Option β :=
  (c.entries.lookup sig).join

/-- Sets the entry of a signature. -/
def put (sig : Signature) (slot : Option β) :
    List (Signature × Option β) → List (Signature × Option β)
  | [] => [(sig, slot)]
  | (s, old) :: rest => if s = sig then (s, slot) :: rest else (s, old) :: put sig slot rest

theorem lookup_put_self (sig : Signature) (slot : Option β)
    (entries : List (Signature × Option β)) :
    (put sig slot entries).lookup sig = some slot := by
  fun_induction put sig slot entries with
  | case1 => simp
  | case2 => simp
  | case3 s old rest h ih =>
    have hb : (sig == s) = false := beq_eq_false_iff_ne.mpr (Ne.symm h)
    rw [List.lookup_cons, hb]
    exact ih

theorem lookup_put_of_ne {sig other : Signature} (h : other ≠ sig) (slot : Option β)
    (entries : List (Signature × Option β)) :
    (put sig slot entries).lookup other = entries.lookup other := by
  have hb : (other == sig) = false := beq_eq_false_iff_ne.mpr h
  fun_induction put sig slot entries with
  | case1 => simp [List.lookup_cons, hb]
  | case2 => simp [List.lookup_cons, hb]
  | case3 s old rest hs ih => rw [List.lookup_cons, List.lookup_cons, ih]

/-- What was compiled for a signature, compiling it now if need be. -/
def fetch (sig : Signature) (compile : Unit → Except Error β) : Exec (KernelCache β) β :=
  fun c =>
    match c.find? sig with
    | some b => (.ok b, { c with hits := c.hits + 1 })
    | none =>
      match compile () with
      | .ok b => (.ok b, { c with
          entries := put sig (some b) c.entries
          misses := c.misses + 1
          compiles := c.compiles + 1 })
      | .error e => (.error e, { c with
          entries := put sig none c.entries
          misses := c.misses + 1 })

/-- Drops the entries. -/
def clear (c : KernelCache β) : KernelCache β :=
  { c with entries := [] }

/-- Number of compiled entries. -/
def length (c : KernelCache β) : Nat :=
  c.entries.countP fun p => p.2.isSome

/-- The counters. -/
def stats (c : KernelCache β) : CacheCounters :=
  ⟨c.hits, c.misses, c.compiles, c.length⟩

end KernelCache

/-- The text of the counters. -/
def CacheCounters.text (s : CacheCounters) : String :=
  Text.fields "CacheStats" [("hits", toString s.hits), ("misses", toString s.misses),
    ("compiles", toString s.compiles), ("entries", toString s.entries)]

/-- The text of a cache. -/
def KernelCache.text {β : Type} (c : KernelCache β) : String :=
  Text.fields "KernelCache" [("stats", c.stats.text)]

end ArrayFusion
