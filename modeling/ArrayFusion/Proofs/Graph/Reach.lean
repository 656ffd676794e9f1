/-
ArrayFusion/Proofs/Graph/Reach.lean

The search for the nodes that a value depends on finds these and no others.

Design.  `Worklist.Step` is one step of the search without fuel.  It takes any
value off the stack, so that runs of it (`Worklist.Run`) are the searches in
every order.  Each step lowers the values on the stack and the reads of nodes
not seen yet (`unseen`) together: expanding a node moves its reads from the
second part to the first.  The invariant is that a read of a node seen is
produced by a node seen, or still on the stack (`Pending`); with an empty stack
nothing is pending.

Main results: the search with fuel is a run that empties the stack
(`run_search`), a run that empties the stack has seen exactly the nodes that the
roots reach without going past those it stops at (`Worklist.Run.mem_seen_iff`),
so these are the closure (`mem_closure_iff`), and live nodes read from live
nodes (`live_of_read`).
-/
import ArrayFusion.Graph.Hazard
import ArrayFusion.Proofs.Graph.Tape

namespace ArrayFusion.Graph

variable {g : Graph}

/-! ### Fuel -/

/-- Reads of the nodes not seen, the first node at position `k`. -/
def unseen (seen : List NodeId) : (k : Nat) → List Node → Nat
  | _, [] => 0
  | k, n :: rest => (if k ∈ seen then 0 else n.reads.length) + unseen seen (k + 1) rest

theorem unseen_nil (k : Nat) (nodes : List Node) : unseen [] k nodes = countReads nodes := by
  induction nodes generalizing k with
  | nil => rfl
  | cons n rest ih => simp [unseen, countReads, ih]

theorem unseen_cons_of_lt (seen : List NodeId) {m k : Nat} (h : m < k) (nodes : List Node) :
    unseen (m :: seen) k nodes = unseen seen k nodes := by
  induction nodes generalizing k with
  | nil => rfl
  | cons n rest ih =>
    have hk : k ≠ m := by omega
    rw [unseen, unseen, ih (by omega)]
    simp [hk]

/-- Seeing a node takes its reads off. -/
theorem unseen_cons {seen : List NodeId} {k j : Nat} (nodes : List Node) (h : k + j ∉ seen) :
    unseen ((k + j) :: seen) k nodes + (nodes[j]?.elim 0 fun n => n.reads.length) ≤
      unseen seen k nodes := by
  induction nodes generalizing k j with
  | nil => simp [unseen]
  | cons n rest ih =>
    cases j with
    | zero =>
      rw [Nat.add_zero] at h ⊢
      rw [unseen, unseen, unseen_cons_of_lt seen (show k < k + 1 by omega)]
      simp only [List.mem_cons, true_or, if_true, if_neg h, List.getElem?_cons_zero,
        Option.elim_some]
      omega
    | succ j =>
      have hk : k ≠ k + (j + 1) := by omega
      have hsucc : k + (j + 1) = k + 1 + j := by omega
      have hrest := ih (k := k + 1) (j := j) (hsucc ▸ h)
      rw [unseen, unseen, List.getElem?_cons_succ]
      simp only [List.mem_cons, hk, false_or]
      rw [hsucc] at *
      omega

theorem unseen_readsOf {seen : List NodeId} {n : NodeId} (h : n ∉ seen) :
    unseen (n :: seen) 0 g.nodes + (g.readsOf n).length ≤ unseen seen 0 g.nodes := by
  have hcons := unseen_cons (k := 0) (j := n) g.nodes (by simpa using h)
  rw [Nat.zero_add] at hcons
  refine Nat.le_trans (Nat.add_le_add_left ?_ _) hcons
  unfold readsOf
  rcases g.nodes[n]? with - | node <;> simp

/-! ### Reachability -/

/-- A node that a value is computed from. -/
inductive Reaches (g : Graph) : ValueId → NodeId → Prop
  | produced {v : ValueId} {n : NodeId} (by_ : g.producer v = some n) : Reaches g v n
  | read {v u : ValueId} {m n : NodeId} (by_ : g.producer v = some m) (read : u ∈ g.readsOf m)
      (from_ : Reaches g u n) : Reaches g v n

/-- A node that a value is computed from, along nodes outside `stop`. -/
inductive ReachesOutside (g : Graph) (stop : List NodeId) : ValueId → NodeId → Prop
  | produced {v : ValueId} {n : NodeId} (by_ : g.producer v = some n) (free : n ∉ stop) :
      ReachesOutside g stop v n
  | read {v u : ValueId} {m n : NodeId} (by_ : g.producer v = some m) (free : m ∉ stop)
      (read : u ∈ g.readsOf m) (from_ : ReachesOutside g stop u n) : ReachesOutside g stop v n

section

variable {stop : List NodeId} {v : ValueId} {n : NodeId}

theorem ReachesOutside.not_mem (h : g.ReachesOutside stop v n) : n ∉ stop := by
  induction h with
  | produced _ free => exact free
  | read _ _ _ _ ih => exact ih

/-- What a read of a node reaches is reached through the node. -/
theorem ReachesOutside.read_of_mem (h : g.ReachesOutside stop v n) {u : ValueId} {m : NodeId}
    (hu : u ∈ g.readsOf n) (hr : g.ReachesOutside stop u m) : g.ReachesOutside stop v m := by
  induction h with
  | produced by_ free => exact .read by_ free hu hr
  | read by_ free read _ ih => exact .read by_ free read (ih hu)

theorem ReachesOutside.reaches (h : g.ReachesOutside stop v n) : g.Reaches v n := by
  induction h with
  | produced hp _ => exact .produced hp
  | read hp _ hread _ ih => exact .read hp hread ih

/-- Nothing is passed if there is nothing to stop at. -/
theorem Reaches.outside_nil (h : g.Reaches v n) : g.ReachesOutside [] v n := by
  induction h with
  | produced hp => exact .produced hp (by simp)
  | read hp hread _ ih => exact .read hp (by simp) hread ih

/-- A node is reached along other nodes than the given one, or through it. -/
theorem Reaches.outside_or_through (h : g.Reaches v n) (m : NodeId) :
    g.ReachesOutside [m] v n ∨ n = m ∨ ∃ u ∈ g.readsOf m, g.Reaches u n := by
  induction h with
  | @produced v n hp =>
    by_cases hn : n = m
    · exact .inr (.inl hn)
    · exact .inl (.produced hp (by simpa using hn))
  | @read v u k n hp hread hr ih =>
    by_cases hk : k = m
    · subst hk
      exact .inr (.inr ⟨u, hread, hr⟩)
    · rcases ih with hout | hrest
      · exact .inl (.read hp (by simpa using hk) hread hout)
      · exact .inr hrest

end

/-! ### Worklists -/

/-- Reads of nodes seen are found or still on the stack. -/
def Pending (g : Graph) (stop : List NodeId) (stack : List ValueId) (seen : List NodeId) : Prop :=
  ∀ n ∈ seen, n ∉ stop → ∀ u ∈ g.readsOf n, ∀ m, g.producer u = some m → m ∈ seen ∨ u ∈ stack

/-- What meeting a node puts on the stack: its reads, unless the search stops
there. -/
def opened (g : Graph) (stop : List NodeId) (n : NodeId) : List ValueId :=
  if n ∈ stop then [] else g.readsOf n

theorem mem_opened {stop : List NodeId} {n : NodeId} {u : ValueId} :
    u ∈ g.opened stop n ↔ n ∉ stop ∧ u ∈ g.readsOf n := by
  unfold opened
  split
  · next h => simp [h]
  · next h => simp [h]

theorem length_opened_le (g : Graph) (stop : List NodeId) (n : NodeId) :
    (g.opened stop n).length ≤ (g.readsOf n).length := by
  unfold opened
  split <;> simp

/-- What a search holds between two steps: values to look at, which may be on
the stack more than once, and the nodes seen. -/
structure Worklist where
  stack : List ValueId
  seen : List NodeId

namespace Worklist

/-- One step of a search.  It takes a value off, whichever it is, and leaves
open in which order the stack lies. -/
inductive Step (g : Graph) (stop : List NodeId) : Worklist → Worklist → Prop
  | skip {v : ValueId} {stack rest : List ValueId} {seen : List NodeId}
      (off : stack.Perm (v :: rest)) (met : ∀ n, g.producer v = some n → n ∈ seen) :
      Step g stop ⟨stack, seen⟩ ⟨rest, seen⟩
  | meet {v : ValueId} {n : NodeId} {stack rest stack' : List ValueId} {seen : List NodeId}
      (off : stack.Perm (v :: rest)) (by_ : g.producer v = some n) (new : n ∉ seen)
      (on : stack'.Perm (g.opened stop n ++ rest)) :
      Step g stop ⟨stack, seen⟩ ⟨stack', n :: seen⟩

/-- A search of so many steps. -/
inductive Run (g : Graph) (stop : List NodeId) : Nat → Worklist → Worklist → Prop
  | done (w : Worklist) : Run g stop 0 w w
  | step {k : Nat} {w w' w'' : Worklist} (first : Step g stop w w') (rest : Run g stop k w' w'') :
      Run g stop (k + 1) w w''

/-- The steps that a search can still take, at most. -/
def potential (g : Graph) (w : Worklist) : Nat :=
  w.stack.length + unseen w.seen 0 g.nodes

/-- The node that produces a value is seen, or the value is on the stack. -/
def Covers (g : Graph) (w : Worklist) (v : ValueId) : Prop :=
  ∀ n, g.producer v = some n → n ∈ w.seen ∨ v ∈ w.stack

variable {stop : List NodeId} {k : Nat} {w w' : Worklist} {v : ValueId} {n : NodeId}

/-! ### What a step does -/

/-- A search is not stuck before its stack is empty. -/
theorem exists_step (g : Graph) (stop : List NodeId) (h : w.stack ≠ []) :
    ∃ w', Step g stop w w' := by
  obtain ⟨_ | ⟨v, rest⟩, seen⟩ := w
  · exact absurd rfl h
  · by_cases hmet : ∀ n, g.producer v = some n → n ∈ seen
    · exact ⟨_, .skip (.refl _) hmet⟩
    · simp only [not_forall] at hmet
      obtain ⟨n, hv, hn⟩ := hmet
      exact ⟨_, .meet (.refl _) hv hn (.refl _)⟩

theorem Step.potential_lt (h : Step g stop w w') : w'.potential g < w.potential g := by
  cases h with
  | skip off _ =>
    have hlen := off.length_eq
    rw [List.length_cons] at hlen
    simp only [potential]
    omega
  | @meet v n _ _ _ _ off _ new on =>
    -- what goes on the stack leaves the reads of unseen nodes
    have hlen := off.length_eq
    have hlen' := on.length_eq
    have hopened := length_opened_le g stop n
    have hreads := unseen_readsOf (g := g) new
    rw [List.length_cons] at hlen
    rw [List.length_append] at hlen'
    simp only [potential]
    omega

/-- What is covered stays so. -/
theorem Step.covers (h : Step g stop w w') (hv : w.Covers g v) : w'.Covers g v := by
  intro n hn
  cases h with
  | skip off met =>
    rcases hv n hn with hseen | hstack
    · exact .inl hseen
    · rcases List.mem_cons.mp (off.mem_iff.mp hstack) with rfl | hrest
      · exact .inl (met n hn)
      · exact .inr hrest
  | meet off by_ new on =>
    rcases hv n hn with hseen | hstack
    · exact .inl (List.mem_cons_of_mem _ hseen)
    · rcases List.mem_cons.mp (off.mem_iff.mp hstack) with rfl | hrest
      · -- the value taken off is covered by the node it makes the search meet
        rw [by_] at hn
        cases hn
        exact .inl List.mem_cons_self
      · exact .inr (on.mem_iff.mpr (List.mem_append_right _ hrest))

theorem Step.pending (h : Step g stop w w') (hp : g.Pending stop w.stack w.seen) :
    g.Pending stop w'.stack w'.seen := by
  intro m hm hs u hu
  have hkept : w.Covers g u → w'.Covers g u := h.covers
  cases h with
  | skip off met => exact hkept (hp m hm hs u hu)
  | meet off by_ new on =>
    rcases List.mem_cons.mp hm with rfl | hm
    · intro _ _
      exact .inr (on.mem_iff.mpr (List.mem_append_left _ (mem_opened.mpr ⟨hs, hu⟩)))
    · exact hkept (hp m hm hs u hu)

/-- Outside `stop`, a step adds nothing to what is seen or still to be
reached. -/
theorem Step.sound (h : Step g stop w w') (hn : n ∉ stop)
    (hfound : n ∈ w'.seen ∨ ∃ v ∈ w'.stack, g.ReachesOutside stop v n) :
    n ∈ w.seen ∨ ∃ v ∈ w.stack, g.ReachesOutside stop v n := by
  cases h with
  | skip off _ =>
    rcases hfound with hseen | ⟨u, hu, hr⟩
    · exact .inl hseen
    · exact .inr ⟨u, off.mem_iff.mpr (List.mem_cons_of_mem _ hu), hr⟩
  | @meet v m _ _ _ _ off by_ _ on =>
    have hv := off.mem_iff.mpr List.mem_cons_self
    rcases hfound with hseen | ⟨u, hu, hr⟩
    · rcases List.mem_cons.mp hseen with rfl | hseen
      · exact .inr ⟨v, hv, .produced by_ hn⟩
      · exact .inl hseen
    · rcases List.mem_append.mp (on.mem_iff.mp hu) with hu | hu
      · -- a read of the node met: the value taken off reaches what it reaches
        obtain ⟨free, hread⟩ := mem_opened.mp hu
        exact .inr ⟨v, hv, .read by_ free hread hr⟩
      · exact .inr ⟨u, off.mem_iff.mpr (List.mem_cons_of_mem _ hu), hr⟩

/-! ### What a run does -/

/-- A step uses up one unit of fuel at least. -/
theorem Step.exists_run {fuel : Nat} {w'' : Worklist} (h : Step g stop w w')
    (hfuel : w.potential g ≤ fuel + 1)
    (hrest : w'.potential g ≤ fuel → ∃ k, Run g stop k w' w'') : ∃ k, Run g stop k w w'' := by
  have hlt := h.potential_lt
  obtain ⟨k, hrun⟩ := hrest (by omega)
  exact ⟨k + 1, .step h hrun⟩

theorem Run.steps_le (h : Run g stop k w w') : k + w'.potential g ≤ w.potential g := by
  induction h with
  | done w => omega
  | step first _ ih =>
    have hlt := first.potential_lt
    omega

theorem Run.covers (h : Run g stop k w w') (hv : w.Covers g v) : w'.Covers g v := by
  induction h with
  | done _ => exact hv
  | step first _ ih => exact ih (first.covers hv)

theorem Run.pending (h : Run g stop k w w') (hp : g.Pending stop w.stack w.seen) :
    g.Pending stop w'.stack w'.seen := by
  induction h with
  | done _ => exact hp
  | step first _ ih => exact ih (first.pending hp)

theorem Run.sound (h : Run g stop k w w') (hn : n ∉ stop) (hfound : n ∈ w'.seen) :
    n ∈ w.seen ∨ ∃ v ∈ w.stack, g.ReachesOutside stop v n := by
  induction h with
  | done _ => exact .inl hfound
  | step first _ ih => exact first.sound hn (ih hfound)

/-- With nothing left on the stack, all that a covered value reaches is seen. -/
theorem mem_seen_of_covers {seen : List NodeId} (hp : g.Pending stop [] seen)
    (hr : g.ReachesOutside stop v n) (hv : Covers g ⟨[], seen⟩ v) : n ∈ seen := by
  have hseen : ∀ {u m}, Covers g ⟨[], seen⟩ u → g.producer u = some m → m ∈ seen := by
    intro u m hu hm
    rcases hu m hm with h | h
    · exact h
    · cases h
  -- down the path: a node on it is seen, so its reads are covered in turn
  induction hr with
  | produced by_ _ => exact hseen hv by_
  | read by_ free read _ ih => exact ih (hp _ (hseen hv by_) free _ read)

/-- A search that emptied its stack has seen, outside `stop`, exactly what its
roots reach. -/
theorem Run.mem_seen_iff {roots : List ValueId} {seen : List NodeId}
    (h : Run g stop k ⟨roots, []⟩ ⟨[], seen⟩) :
    n ∈ seen ∧ n ∉ stop ↔ ∃ v ∈ roots, g.ReachesOutside stop v n := by
  constructor
  · rintro ⟨hseen, hn⟩
    rcases h.sound hn hseen with hnone | hreach
    · cases hnone
    · exact hreach
  · rintro ⟨v, hv, hr⟩
    have hstart : g.Pending stop roots [] := fun m hm => by cases hm
    have hseen := mem_seen_of_covers (h.pending hstart) hr (h.covers fun _ _ => .inr hv)
    exact ⟨hseen, hr.not_mem⟩

end Worklist

/-! ### The search -/

open Worklist (Step Run)

/-- With enough fuel, the search is a run to the empty stack. -/
theorem run_search {stop : List NodeId} {fuel : Nat} {stack : List ValueId} {seen : List NodeId}
    (hfuel : Worklist.potential g ⟨stack, seen⟩ ≤ fuel) :
    ∃ k, Run g stop k ⟨stack, seen⟩ ⟨[], g.search stop fuel stack seen⟩ := by
  fun_induction search g stop fuel stack seen with
  | case1 stack seen =>
    -- out of fuel, which is then also out of values
    have hlen : stack.length = 0 := by
      simp only [Worklist.potential] at hfuel
      omega
    obtain rfl := List.length_eq_zero_iff.mp hlen
    exact ⟨0, .done _⟩
  | case2 fuel seen => exact ⟨0, .done _⟩
  | case3 fuel v stack seen hv ih =>
    have hskip : Step g stop ⟨v :: stack, seen⟩ ⟨stack, seen⟩ := .skip (.refl _) (by simp [hv])
    exact hskip.exists_run hfuel ih
  | case4 fuel v stack seen m hv hm ih =>
    have hskip : Step g stop ⟨v :: stack, seen⟩ ⟨stack, seen⟩ := .skip (.refl _) (by simp [hv, hm])
    exact hskip.exists_run hfuel ih
  | case5 fuel v stack seen m hv hm hstop ih =>
    have hmeet : Step g stop ⟨v :: stack, seen⟩ ⟨stack, m :: seen⟩ :=
      .meet (.refl _) hv hm (.of_eq (by rw [opened, if_pos hstop, List.nil_append]))
    exact hmeet.exists_run hfuel ih
  | case6 fuel v stack seen m hv hm hstop ih =>
    have hmeet : Step g stop ⟨v :: stack, seen⟩ ⟨g.readsOf m ++ stack, m :: seen⟩ :=
      .meet (.refl _) hv hm (.of_eq (by rw [opened, if_neg hstop]))
    exact hmeet.exists_run hfuel ih

/-- The fuel of a search covers all steps that it can take. -/
theorem potential_roots (g : Graph) (roots : List ValueId) :
    Worklist.potential g ⟨roots, []⟩ = g.searchFuel roots := by
  simp only [Worklist.potential, searchFuel, unseen_nil]

theorem run_searchFuel (g : Graph) (roots : List ValueId) (stop : List NodeId) :
    ∃ k, Run g stop k ⟨roots, []⟩ ⟨[], g.search stop (g.searchFuel roots) roots []⟩ :=
  run_search (Nat.le_of_eq (g.potential_roots roots))

/-! ### Closures -/

section

variable {roots : List ValueId} {stop : List NodeId} {n m : NodeId}

theorem mem_closure_stop_iff :
    n ∈ g.closure roots stop ↔
      n < g.nodes.length ∧ n ∈ g.search stop (g.searchFuel roots) roots [] ∧ n ∉ stop := by
  simp [closure]

/-- A closure is in program order. -/
theorem pairwise_closure (g : Graph) (roots : List ValueId) (stop : List NodeId) :
    (g.closure roots stop).Pairwise (· < ·) :=
  List.pairwise_lt_range.filter _

/-- A closure contains the nodes that its roots reach outside `stop`, and no
others. -/
theorem mem_closure_iff :
    n ∈ g.closure roots stop ↔ n < g.nodes.length ∧ ∃ v ∈ roots, g.ReachesOutside stop v n := by
  obtain ⟨k, hrun⟩ := g.run_searchFuel roots stop
  rw [mem_closure_stop_iff, hrun.mem_seen_iff]

/-- The nodes of a closure are reached from its roots, outside `stop`. -/
theorem reachesOutside_of_mem_closure (h : n ∈ g.closure roots stop) :
    ∃ v ∈ roots, g.ReachesOutside stop v n :=
  (mem_closure_iff.mp h).2

/-- A closure contains every node that its roots reach outside `stop`. -/
theorem mem_closure_of_reachesOutside {v : ValueId} (hv : v ∈ roots)
    (h : g.ReachesOutside stop v n) (hn : n < g.nodes.length) : n ∈ g.closure roots stop :=
  mem_closure_iff.mpr ⟨hn, v, hv, h⟩

theorem reaches_of_mem_closure (h : n ∈ g.closure roots stop) : ∃ v ∈ roots, g.Reaches v n := by
  obtain ⟨v, hv, hr⟩ := reachesOutside_of_mem_closure h
  exact ⟨v, hv, hr.reaches⟩

/-- The closure of some roots contains every node that they reach. -/
theorem mem_closure {v : ValueId} (hv : v ∈ roots) (h : g.Reaches v n)
    (hn : n < g.nodes.length) : n ∈ g.closure roots [] :=
  mem_closure_of_reachesOutside hv h.outside_nil hn

/-- What produces a root is in the closure, unless that stops there. -/
theorem mem_closure_of_root {v : ValueId} (hv : v ∈ roots) (hp : g.producer v = some n)
    (hn : n < g.nodes.length) (hs : n ∉ stop) : n ∈ g.closure roots stop :=
  mem_closure_of_reachesOutside hv (.produced hp hs) hn

/-- What produces a read of the closure is in it, unless it stops there. -/
theorem mem_closure_of_read (hn : n ∈ g.closure roots stop) {u : ValueId} (hu : u ∈ g.readsOf n)
    (hp : g.producer u = some m) (hm : m < g.nodes.length) (hs : m ∉ stop) :
    m ∈ g.closure roots stop := by
  obtain ⟨v, hv, hr⟩ := reachesOutside_of_mem_closure hn
  exact mem_closure_of_reachesOutside hv (hr.read_of_mem hu (.produced hp hs)) hm

end

/-! ### Dependence and liveness -/

theorem dependsOn_of_reaches {v : ValueId} {n : NodeId} (h : g.Reaches v n)
    (hn : n < g.nodes.length) : g.dependsOn v n = true := by
  rw [dependsOn, Bool.or_eq_true]
  exact .inr (decide_eq_true (mem_closure List.mem_cons_self h hn))

theorem reaches_of_dependsOn {v : ValueId} {n : NodeId} (h : g.dependsOn v n = true) :
    g.Reaches v n := by
  rw [dependsOn, Bool.or_eq_true] at h
  rcases h with h | h
  · exact .produced (beq_iff_eq.mp h)
  · obtain ⟨u, hu, hr⟩ := reaches_of_mem_closure (of_decide_eq_true h)
    rwa [List.mem_singleton.mp hu] at hr

/-- What a root reaches is live. -/
theorem live_of_reaches {v : ValueId} (hv : v ∈ g.roots) {n : NodeId} (h : g.Reaches v n)
    (hn : n < g.nodes.length) : n ∈ g.live :=
  mem_closure hv h hn

/-- Live nodes read from live nodes. -/
theorem live_of_read {n m : NodeId} (hn : n ∈ g.live) {u : ValueId} (hu : u ∈ g.readsOf n)
    (hp : g.producer u = some m) (hm : m < g.nodes.length) : m ∈ g.live :=
  mem_closure_of_read hn hu hp hm (by simp)

/-! ### Exactness -/

/-- **The search for what some values need ends and is exact.**  Nothing is asked
of the graph, so its nodes may even read values that come later.  In whichever
order values are taken off the stack, no search takes more steps than there are
roots and reads, each goes on until its stack is empty, and all of them see the
same nodes outside `stop`.  The search with fuel is one of them.  The closure
lists these nodes in increasing order: those that a root reaches along nodes
outside `stop`.  A value depends on the nodes it reaches when nothing stops the
search. -/
theorem closure_exact (g : Graph) (roots : List ValueId) (stop : List NodeId) :
    (∀ k w, Run g stop k ⟨roots, []⟩ w →
      k ≤ g.searchFuel roots ∧ (w.stack ≠ [] → ∃ w', Step g stop w w')) ∧
    (∃ k, Run g stop k ⟨roots, []⟩ ⟨[], g.search stop (g.searchFuel roots) roots []⟩) ∧
    (∀ k seen, Run g stop k ⟨roots, []⟩ ⟨[], seen⟩ →
      ∀ n, n ∈ g.closure roots stop ↔ n < g.nodes.length ∧ n ∈ seen ∧ n ∉ stop) ∧
    (g.closure roots stop).Pairwise (· < ·) ∧
    (∀ n, n ∈ g.closure roots stop ↔
      n < g.nodes.length ∧ ∃ v ∈ roots, g.ReachesOutside stop v n) ∧
    ∀ v n, n < g.nodes.length → (g.dependsOn v n = true ↔ g.ReachesOutside [] v n) := by
  refine ⟨?_, g.run_searchFuel roots stop, ?_, g.pairwise_closure roots stop,
    fun n => mem_closure_iff, ?_⟩
  · intro k w hrun
    have hsteps := hrun.steps_le
    rw [potential_roots] at hsteps
    exact ⟨by omega, Worklist.exists_step g stop⟩
  · intro k seen hrun n
    rw [mem_closure_iff, hrun.mem_seen_iff]
  · intro v n hn
    exact ⟨fun h => (reaches_of_dependsOn h).outside_nil, fun h => dependsOn_of_reaches h.reaches hn⟩

/-- A cast, a copy of it with another first row, and two sums.  The search that
stops at the copy goes past the first sum to the cast, on another way. -/
theorem closure_exact_beside_row_update :
    let form : Form := ⟨.int .w64, 1, .array⟩
    let sum : Op := .ufunc .add ⟨[form.dtype, form.dtype], [form.dtype]⟩
    let g : Graph :=
      { values := ⟨form, .param 0⟩ :: (List.range 4).map fun n => ⟨form, .output n 0⟩
        nodes := [⟨.cast form.dtype, [0], [], [1]⟩, ⟨.assign (.rows 0 1), [0], [1], [2]⟩,
          ⟨sum, [1, 2], [], [3]⟩, ⟨sum, [3, 3], [], [4]⟩]
        params := [⟨.array, some form.dtype, 1, some 0⟩]
        name := "sums", outputs := [.value 4, .value 2], arity := .tuple 2, writeBacks := [] }
    g.closure [4, 2] [1] = [0, 2, 3] ∧ (∃ v ∈ [4, 2], g.ReachesOutside [1] v 0) ∧
      g.dependsOn 4 1 = true ∧ g.ReachesOutside [] 4 1 ∧
      ∃ k ≤ 9, Run g [1] k ⟨[4, 2], []⟩ ⟨[], [1, 0, 2, 3]⟩ := by
  intro form sum g
  obtain ⟨hends, ⟨k, hrun⟩, -, -, hmem, hdep⟩ := closure_exact g [4, 2] [1]
  have hclosure : g.closure [4, 2] [1] = [0, 2, 3] := by decide
  have hdepends : g.dependsOn 4 1 = true := by decide
  have hsearch : g.search [1] (g.searchFuel [4, 2]) [4, 2] [] = [1, 0, 2, 3] := by decide
  rw [hsearch] at hrun
  have hcast : 0 ∈ g.closure [4, 2] [1] := by
    rw [hclosure]
    decide
  exact ⟨hclosure, ((hmem 0).mp hcast).2, hdepends, (hdep 4 1 (by decide)).mp hdepends, k,
    (hends k _ hrun).1, hrun⟩

end ArrayFusion.Graph
