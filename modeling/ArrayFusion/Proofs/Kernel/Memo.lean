/-
ArrayFusion/Proofs/Kernel/Memo.lean

The memo of an evaluation is invisible.

Design.  Between two points all that is known of a memory is that it has a
place for every value and no entry of a later point (`Memory.Kept`).  So a
point starts with entries that are out of date, whichever pass left them;
within the point an entry is noted only for an element that was just computed,
and is what recomputing it would find (`Frame.Faithful`).  Siblings that a loop
computes on the way are noted at the offset of the element, which is theirs too
because they have the same shape.

Two launches that look elements up in different ways are compared with
`Exec.Alike`: from memories with the invariant they have the same outcome.

Main result: a launch is the same with and without its memo, and each entry
that it finds is the element that recomputing would find.
-/
import ArrayFusion.Proofs.Kernel.Fresh
import ArrayFusion.Proofs.Kernel.Stage
import ArrayFusion.Proofs.Kernel.Visits

namespace ArrayFusion

/-! ### Entries of the current point -/

namespace Memory

variable {m : Memory} {count : Nat} {v : ValueId} {flat flat' : Nat} {e : Elem}
  {p : ValueId × Elem}

theorem find?_eq_some :
    m.find? v flat = some e ↔ m.memos[v]? = some (some ⟨m.epoch, flat, e⟩) := by
  unfold find?
  split
  · next memo hmemo =>
    obtain ⟨epoch, at', value⟩ := memo
    simp only [hmemo, Option.some.injEq, Memo.mk.injEq]
    split
    · next hc => simp [hc.1, hc.2]
    · next hc =>
      constructor
      · intro h
        cases h
      · rintro ⟨hepoch, hflat, -⟩
        exact absurd ⟨hepoch, hflat⟩ hc
  · next hno =>
    constructor
    · intro h
      cases h
    · intro h
      exact absurd h (hno _)

/-- What is known of a memory between points. -/
structure Kept (count : Nat) (m : Memory) : Prop where
  /-- There is a place for every value. -/
  size : m.memos.length = count
  /-- No entry is of a later point. -/
  dated : ∀ (v : ValueId) (memo : Memo), m.memos[v]? = some (some memo) → memo.epoch ≤ m.epoch

theorem kept_empty (count : Nat) : Kept count (.empty count) where
  size := List.length_replicate
  dated v memo h := by
    have := List.eq_of_mem_replicate (List.mem_of_getElem? h)
    cases this

/-- An entry after another one was noted. -/
theorem entry_note {memo : Memo} (h : (m.note flat p).memos[v]? = some (some memo)) :
    (v = p.1 ∧ memo = ⟨m.epoch, flat, p.2⟩) ∨ m.memos[v]? = some (some memo) := by
  simp only [note, List.getElem?_set] at h
  split at h
  · next heq =>
    split at h
    · cases h
      exact .inl ⟨heq.symm, rfl⟩
    · cases h
  · exact .inr h

theorem Kept.note (h : Kept count m) (flat : Nat) (p : ValueId × Elem) :
    Kept count (m.note flat p) where
  size := List.length_set.trans h.size
  dated v memo hv := by
    rcases entry_note hv with ⟨-, rfl⟩ | hv
    · exact Nat.le_refl _
    · exact h.dated v memo hv

theorem find?_note (h : (m.note flat p).find? v flat' = some e) :
    (v = p.1 ∧ flat' = flat ∧ e = p.2) ∨ m.find? v flat' = some e := by
  rcases entry_note (find?_eq_some.mp h) with ⟨rfl, hmemo⟩ | hv
  · cases hmemo
    exact .inl ⟨rfl, rfl, rfl⟩
  · exact .inr (find?_eq_some.mpr hv)

/-- At the next point all entries are out of date. -/
theorem Kept.find?_advance (h : Kept count m) (v : ValueId) (flat : Nat) :
    m.advance.find? v flat = none := by
  rcases hfind : m.advance.find? v flat with - | e
  · rfl
  · have hentry := find?_eq_some.mp hfind
    have hle : m.epoch + 1 ≤ m.epoch := h.dated v _ hentry
    exact absurd hle (Nat.not_succ_le_self _)

theorem Kept.advance (h : Kept count m) : Kept count m.advance :=
  ⟨h.size, fun v memo hv => Nat.le_succ_of_le (h.dated v memo hv)⟩

end Memory

/-- A way to look elements up that finds only entries of the current point. -/
def Lookup.Recalls (lookup : Lookup) : Prop :=
  ∀ (m : Memory) (v : ValueId) (flat : Nat) (e : Elem), lookup m v flat = some e →
    m.find? v flat = some e

theorem Memory.recalls_find? : Lookup.Recalls Memory.find? :=
  fun _ _ _ _ h => h

theorem Memory.recalls_forget : Lookup.Recalls Memory.forget :=
  nofun

namespace Frame

variable {f : Frame} {m : Memory} {lookup : Lookup}

/-- Recomputing the element of a value at an offset gives this element. -/
def Recomputes (f : Frame) (v : ValueId) (flat : Nat) (e : Elem) : Prop :=
  ∀ index, f.Locates v index → (f.shapeOf v).sourceOffset index = flat →
    f.evalFresh f.depth v index = .ok e

/-- Entries of the current point are what recomputing gives. -/
structure Faithful (f : Frame) (m : Memory) : Prop where
  kept : Memory.Kept f.graph.values.length m
  current : ∀ v flat e, m.find? v flat = some e → f.Recomputes v flat e

theorem faithful_advance (h : Memory.Kept f.graph.values.length m) : f.Faithful m.advance where
  kept := h.advance
  current v flat e he := by
    rw [h.find?_advance v flat] at he
    cases he

theorem Faithful.note (h : f.Faithful m) {flat : Nat} {p : ValueId × Elem}
    (hp : f.Recomputes p.1 flat p.2) : f.Faithful (m.note flat p) where
  kept := h.kept.note flat p
  current v flat' e he := by
    rcases Memory.find?_note he with ⟨rfl, rfl, rfl⟩ | he
    · exact hp
    · exact h.current v flat' e he

theorem Faithful.noteAll (h : f.Faithful m) {flat : Nat} {ps : List (ValueId × Elem)}
    (hp : ∀ p ∈ ps, f.Recomputes p.1 flat p.2) : f.Faithful (m.noteAll flat ps) := by
  induction ps generalizing m with
  | nil => exact h
  | cons p ps ih =>
    exact ih (h.note (hp p List.mem_cons_self)) fun q hq => hp q (List.mem_cons_of_mem p hq)

/-! ### One element -/

theorem recomputes_of_evalFresh {v : ValueId} {index : List Nat} (hloc : f.Locates v index)
    {e : Elem} (h : f.evalFresh f.depth v index = .ok e) :
    f.Recomputes v ((f.shapeOf v).sourceOffset index) e := by
  intro j hj hflat
  rw [evalFresh_congr hj hloc hflat, h]

/-- Siblings found on the way are what recomputing them gives. -/
theorem Serves.recomputes (h : f.Resolved) {n : NodeId} {node : Node} {v : ValueId}
    {index : List Nat} {r : Recipe} (hn : f.graph.nodes[n]? = some node)
    (hp : node.isReduction = false) (hloc : f.Locates v index)
    (hs : f.Serves n node v ((f.shapeOf v).unbroadcast index) r) {args : List Elem}
    (hargs : (r.needs.mapM fun need => f.evalFresh f.depth need.1 need.2) = .ok args) :
    ∃ e found, r.make args = .ok (e, found) ∧
      ∀ p ∈ found, f.Recomputes p.1 ((f.shapeOf v).sourceOffset index) p.2 := by
  obtain ⟨e, found, hmake, hsiblings⟩ :=
    hs.make args (mapM_eq_ok_iff.mp hargs).length_eq.symm
  refine ⟨e, found, hmake, ?_⟩
  intro p hpmem j hj hflat
  obtain ⟨hshape, k, r', rest, hout, hrec, hneeds, hmake'⟩ := hsiblings p hpmem
  obtain ⟨form, hv⟩ := h.recorded.source_of_output hn hout
  -- the sibling is asked for at the same index of its own shape
  have hown := hloc.unbroadcast_eq hj hshape hflat
  have hleaf := leaf_of_not_reduced hv (h.not_reduced hn hp (List.mem_of_getElem? hout))
    ((f.shapeOf p.1).sourceOffset j)
  have hrecOf : f.recipeOf p.1 ((f.shapeOf p.1).unbroadcast j) = .ok r' := by
    rw [hown]
    simp only [recipeOf, hv]
    exact hrec
  rw [evalFresh_recipe h.recorded hleaf hrecOf, hneeds, hargs, except_bind_ok, hmake',
    except_bind_ok]
  rfl

/-- The step: an element made after a recipe, if what the recipe asks for has
the outcomes that it has without a memory. -/
theorem eval_faithful_step (h : f.Resolved) {depth : Nat} {v : ValueId} {index : List Nat}
    (hloc : f.Locates v index) {r : Recipe}
    (hlook : lookup m v ((f.shapeOf v).sourceOffset index) = none)
    (hleaf : f.leaf v ((f.shapeOf v).sourceOffset index) = .ok none)
    (hrec : f.recipeOf v ((f.shapeOf v).unbroadcast index) = .ok r)
    (hneeds : ∀ need ∈ r.needs, ∀ m : Memory, f.Faithful m →
      ∃ m', f.eval lookup depth need.1 need.2 m = (f.evalFresh f.depth need.1 need.2, m') ∧
        f.Faithful m') (hm : f.Faithful m) :
    ∃ m', f.eval lookup (depth + 1) v index m = (f.evalFresh f.depth v index, m') ∧
      f.Faithful m' := by
  obtain ⟨n, node, -, hn, hp, -, hserves⟩ := serves_of_recipeOf h hloc hrec
  -- all that the recipe asks for is evaluated, one memory after the other
  obtain ⟨m', heval, hm'⟩ := exec_mapM_eq hneeds hm
  have hfresh := evalFresh_recipe h.recorded hleaf hrec
  rcases hargs : (r.needs.mapM fun need => f.evalFresh f.depth need.1 need.2) with err | args
  · rw [hargs] at heval hfresh
    refine ⟨m', ?_, hm'⟩
    simp only [hfresh, eval, Exec.bind_apply, Exec.get_apply, hlook, Exec.lift_apply, hleaf, hrec,
      heval, except_bind_error]
  · obtain ⟨e, found, hmake, hfound⟩ := hserves.recomputes h hn hp hloc hargs
    rw [hargs] at heval hfresh
    rw [except_bind_ok, hmake, except_bind_ok] at hfresh
    have hown := recomputes_of_evalFresh hloc hfresh
    rw [hfresh, eval_of_recipe hlook hleaf hrec heval hmake]
    -- the siblings are noted first, then the element
    exact ⟨_, rfl, (hm'.noteAll hfound).noteAll (by simpa using hown)⟩

/-- **One element**: an evaluation has the outcome that it has without a
memory, and leaves a faithful memory. -/
theorem eval_faithful (h : f.Resolved) (hrecalls : lookup.Recalls) (depth : Nat) {v : ValueId}
    (hd : f.graph.level v < depth) {index : List Nat} (hloc : f.Locates v index)
    (hm : f.Faithful m) :
    ∃ m', f.eval lookup depth v index m = (f.evalFresh f.depth v index, m') ∧ f.Faithful m' := by
  -- on the depth that is left: what a recipe asks for is on a lower level
  induction depth generalizing v index m with
  | zero => exact absurd hd (Nat.not_lt_zero _)
  | succ depth ih =>
    rcases hlook : lookup m v ((f.shapeOf v).sourceOffset index) with - | e
    · rcases hleaf : f.leaf v ((f.shapeOf v).sourceOffset index) with err | - | e
      · have hfresh : f.evalFresh f.depth v index = .error err := evalFresh_of_leaf_error hleaf
        exact ⟨m, by rw [eval_of_leaf_error hlook hleaf, hfresh], hm⟩
      · rcases hrec : f.recipeOf v ((f.shapeOf v).unbroadcast index) with err | r
        · have hfresh : f.evalFresh f.depth v index = .error err :=
            evalFresh_of_recipe_error hleaf hrec
          exact ⟨m, by rw [eval_of_recipe_error hlook hleaf hrec, hfresh], hm⟩
        · obtain ⟨n, node, hlevel, hn, -, hreads, hserves⟩ := serves_of_recipeOf h hloc hrec
          apply eval_faithful_step h hloc hlook hleaf hrec _ hm
          intro need hneed m hm
          have hlow := level_of_read h.recorded hn (hreads need hneed)
          exact ih (by omega) (hserves.located need hneed) hm
      · have hfresh : f.evalFresh f.depth v index = .ok e := evalFresh_of_leaf hleaf
        have hown := recomputes_of_evalFresh hloc hfresh
        rw [hfresh, eval_of_leaf hlook hleaf]
        exact ⟨_, rfl, hm.noteAll (by simpa using hown)⟩
    · -- found: an entry of this point, at the same offset
      have hfresh := hm.current v _ e (hrecalls m v _ e hlook) index hloc rfl
      rw [hfresh, eval_of_lookup hlook]
      exact ⟨m, rfl, hm⟩

/-- Every visit is to an element that exists, with a faithful memory. -/
theorem Visits.faithful (h : f.Resolved) (hrecalls : lookup.Recalls) {depth : Nat} {v u : ValueId}
    {index i : List Nat} {m' : Memory} (hv : f.Visits lookup depth v index m u i m')
    (hd : f.graph.level v < depth) (hloc : f.Locates v index) (hm : f.Faithful m) :
    f.Locates u i ∧ f.Faithful m' := by
  induction hv with
  | self => exact ⟨hloc, hm⟩
  | @need depth v u index i m m₁ m₂ r need miss leaf recipe comes visits ih =>
    obtain ⟨n, node, hlevel, hn, -, hreads, hserves⟩ := serves_of_recipeOf h hloc recipe
    have hlow : ∀ need ∈ r.needs, f.graph.level need.1 < depth := by
      intro need hneed
      have := level_of_read h.recorded hn (hreads need hneed)
      omega
    have hkeep : ∀ need ∈ r.needs, ∀ m e m', f.Faithful m →
        f.eval lookup depth need.1 need.2 m = (.ok e, m') → f.Faithful m' := by
      intro need hneed m e m' hm heval
      obtain ⟨m'', heval', hm''⟩ := eval_faithful h hrecalls depth (hlow need hneed)
        (hserves.located need hneed) hm
      obtain ⟨-, rfl⟩ := Prod.mk.inj (heval'.symm.trans heval)
      exact hm''
    exact ih (hlow need comes.mem) (hserves.located need comes.mem) (comes.keeps hkeep hm)

end Frame

/-! ### Computations with one outcome -/

namespace Exec

variable {σ α β : Type} {I J K : σ → Prop}

/-- From states with `I` two computations have the same outcome, and they
leave states with `J` if they succeed. -/
def Alike (I J : σ → Prop) (x y : Exec σ α) : Prop :=
  ∀ s t, I s → I t → ∃ r s' t', x s = (r, s') ∧ y t = (r, t') ∧ ∀ a, r = .ok a → J s' ∧ J t'

theorem alike_pure (a : α) : Alike I I (pure a : Exec σ α) (pure a) :=
  fun s t hs ht => ⟨.ok a, s, t, rfl, rfl, fun _ _ => ⟨hs, ht⟩⟩

theorem alike_lift (r : Except Error α) : Alike I I (lift r : Exec σ α) (lift r) :=
  fun s t hs ht => ⟨r, s, t, rfl, rfl, fun _ _ => ⟨hs, ht⟩⟩

theorem Alike.bind {x y : Exec σ α} {k l : α → Exec σ β} (h : Alike I J x y)
    (hk : ∀ a s t, x s = (.ok a, t) → Alike J K (k a) (l a)) : Alike I K (x >>= k) (y >>= l) := by
  intro s t hs ht
  obtain ⟨r, s', t', hx, hy, hJ⟩ := h s t hs ht
  rw [bind_apply, bind_apply, hx, hy]
  rcases r with e | a
  · exact ⟨.error e, s', t', rfl, rfl, nofun⟩
  · obtain ⟨hs', ht'⟩ := hJ a rfl
    exact hk a s s' hx s' t' hs' ht'

theorem Alike.mapM {xs : List α} {f g : α → Exec σ β} (h : ∀ x ∈ xs, Alike I I (f x) (g x)) :
    Alike I I (xs.mapM f) (xs.mapM g) := by
  induction xs with
  | nil => exact alike_pure []
  | cons x xs ih =>
    rw [List.mapM_cons, List.mapM_cons]
    refine (h x List.mem_cons_self).bind fun b _ _ _ => ?_
    refine (ih fun y hy => h y (List.mem_cons_of_mem x hy)).bind fun bs _ _ _ => ?_
    exact alike_pure (b :: bs)

/-- A computation like itself keeps the invariant. -/
theorem Alike.keeps {x : Exec σ α} (h : Alike I J x x) {s t : σ} {a : α} (hs : I s)
    (hx : x s = (.ok a, t)) : J t := by
  obtain ⟨r, s', t', hx', -, hJ⟩ := h s s hs hs
  obtain ⟨rfl, rfl⟩ := Prod.mk.inj (hx'.symm.trans hx)
  exact (hJ a rfl).1

end Exec

/-! ### Passes -/

namespace Host

open Exec (Alike)

variable {f : Frame} {lookup lookup' : Lookup} {roots : List ValueId}

theorem eval_alike (h : f.Resolved) (hl : lookup.Recalls) (hl' : lookup'.Recalls) {v : ValueId}
    {index : List Nat} (hloc : f.Locates v index) :
    Alike f.Faithful f.Faithful (f.eval lookup f.depth v index)
      (f.eval lookup' f.depth v index) := by
  intro m m' hm hm'
  have hd := Frame.level_lt_depth h.recorded v
  obtain ⟨s, hs, hfs⟩ := Frame.eval_faithful h hl f.depth hd hloc hm
  obtain ⟨t, ht, hft⟩ := Frame.eval_faithful h hl' f.depth hd hloc hm'
  exact ⟨_, s, t, hs, ht, fun _ _ => ⟨hfs, hft⟩⟩

/-- Two computations are alike from any memories between points. -/
abbrev AlikePasses {α : Type} (f : Frame) (x y : Exec Memory α) : Prop :=
  Alike (Memory.Kept f.graph.values.length) (Memory.Kept f.graph.values.length) x y

/-- What is done at a point starts with a faithful memory. -/
theorem alike_nextPoint {α : Type} {x y : Exec Memory α} (h : Alike f.Faithful f.Faithful x y) :
    AlikePasses f (do Frame.nextPoint; x) (do Frame.nextPoint; y) := by
  intro m m' hm hm'
  obtain ⟨r, s, t, hs, ht, hfaith⟩ := h m.advance m'.advance (Frame.faithful_advance hm)
    (Frame.faithful_advance hm')
  exact ⟨r, s, t, hs, ht, fun a ha => ⟨(hfaith a ha).1.kept, (hfaith a ha).2.kept⟩⟩

section

variable (h : f.Resolved) (hl : lookup.Recalls) (hl' : lookup'.Recalls)

include h hl hl'

theorem element_alike {v : ValueId} (hv : v < f.graph.values.length) {index : List Nat}
    (hindex : index ∈ (f.shapeOf v).indices) :
    AlikePasses f (do Frame.nextPoint; f.eval lookup f.depth v index)
      (do Frame.nextPoint; f.eval lookup' f.depth v index) :=
  alike_nextPoint
    (eval_alike h hl hl' (Frame.locates_of_inRange hv (Shape.mem_indices_iff.mp hindex)))

theorem reduce_alike {n : NodeId} {op : Reduction} {axis : Option Nat} {x w : ValueId}
    (hn : f.graph.nodes[n]? = some ⟨.reduce op axis, [x], [], [w]⟩) :
    AlikePasses f (reduce lookup f n op axis) (reduce lookup' f n op axis) := by
  have hx : x < f.graph.values.length := h.recorded.operand_lt hn (by simp)
  have hends : ends f.graph n = .ok (x, w) := by simp only [ends, hn]
  unfold reduce
  rw [hends]
  refine (Exec.alike_lift _).bind fun p s t hp => ?_
  cases hp
  refine (Exec.alike_lift _).bind fun _ _ _ _ => ?_
  refine (Alike.mapM fun index hindex => element_alike h hl hl' hx hindex).bind fun data _ _ _ => ?_
  refine (Exec.alike_lift _).bind fun acc _ _ _ => ?_
  exact Exec.alike_pure _

theorem row_alike {values : List ValueId} {index : List Nat}
    (hloc : ∀ v ∈ values, f.Locates v index) :
    AlikePasses f (row lookup f values index) (row lookup' f values index) :=
  alike_nextPoint (Alike.mapM fun v hv => eval_alike h hl hl' (hloc v hv))

omit h hl hl' in
/-- An index of a group's shape names an element of each of its roots. -/
theorem locates_member (hlt : ∀ v ∈ roots, v < f.graph.values.length) {group : Shape × List Nat}
    (hg : group ∈ groups f roots) {v : ValueId} (hv : v ∈ members roots group) {index : List Nat}
    (hindex : index ∈ group.1.indices) : f.Locates v index := by
  obtain ⟨k, hk, hroot⟩ := List.mem_filterMap.mp hv
  obtain ⟨w, hw, hshape⟩ := shape_of_mem_groups hg hk
  obtain rfl : w = v := Option.some.inj (hw.symm.trans hroot)
  exact Frame.locates_of_inRange (hlt w (List.mem_of_getElem? hw))
    (hshape ▸ Shape.mem_indices_iff.mp hindex)

theorem runGroup_alike (hlt : ∀ v ∈ roots, v < f.graph.values.length) {group : Shape × List Nat}
    (hg : group ∈ groups f roots) :
    AlikePasses f (runGroup lookup f roots group) (runGroup lookup' f roots group) := by
  have hrows : AlikePasses f (group.1.indices.mapM (row lookup f (members roots group)))
      (group.1.indices.mapM (row lookup' f (members roots group))) :=
    Alike.mapM fun index hindex =>
      row_alike h hl hl' fun v hv => locates_member hlt hg hv hindex
  exact hrows.bind fun rows _ _ _ => Exec.alike_pure _

theorem map_alike (hlt : ∀ v ∈ roots, v < f.graph.values.length) :
    AlikePasses f (map lookup f roots) (map lookup' f roots) := by
  have hgroups : AlikePasses f ((groups f roots).mapM (runGroup lookup f roots))
      ((groups f roots).mapM (runGroup lookup' f roots)) :=
    Alike.mapM fun group hg => runGroup_alike h hl hl' hlt hg
  exact hgroups.bind fun columns _ _ _ => Exec.alike_pure _

end

/-! ### A launch -/

/-- A reduction is known to be that of its node. -/
theorem fst_of_reduce {n : NodeId} {op : Reduction} {axis : Option Nat} {x w : ValueId}
    (hn : f.graph.nodes[n]? = some ⟨.reduce op axis, [x], [], [w]⟩) {m m' : Memory}
    {known : ValueId × List Elem} (h : reduce lookup f n op axis m = (.ok known, m')) :
    known.1 = w := by
  have hends : ends f.graph n = .ok (x, w) := by simp only [ends, hn]
  unfold reduce at h
  rw [hends] at h
  obtain ⟨p, m₁, hp, h⟩ := Exec.bind_eq_ok.mp h
  cases hp
  obtain ⟨u, m₂, -, h⟩ := Exec.bind_eq_ok.mp h
  obtain ⟨data, m₃, -, h⟩ := Exec.bind_eq_ok.mp h
  obtain ⟨acc, m₄, -, h⟩ := Exec.bind_eq_ok.mp h
  cases h
  rfl

section

variable {plan : KernelPlan} {args : KernelInput}

/-- With what the passes over the roots start. -/
theorem Maps.resolved (hl : lookup.Recalls) (h : (frame plan args).Resolved)
    (hs : plan.graph.Runnable plan.stage) {m : Memory} (hm : Maps lookup plan args f m) :
    f.Resolved ∧ f.graph = plan.graph ∧ Memory.Kept f.graph.values.length m := by
  cases hm with
  | elementwise => exact ⟨h, rfl, Memory.kept_empty _⟩
  | reduced kind done =>
    obtain ⟨x, w, hn, -⟩ := hs.reduction kind
    exact ⟨h.reduce hn (fst_of_reduce hn done), rfl,
      (reduce_alike h hl hl hn).keeps (Memory.kept_empty _) done⟩

/-- **A launch**: how elements are looked up makes no difference. -/
theorem launchWith_alike (hl : lookup.Recalls) (hl' : lookup'.Recalls)
    (h : (frame plan args).Resolved) (hs : plan.graph.Runnable plan.stage) :
    launchWith lookup plan args = launchWith lookup' plan args := by
  have halike : AlikePasses (frame plan args) (run lookup plan args) (run lookup' plan args) := by
    unfold run
    rcases kind : plan.stage.kind with - | ⟨n, op, axis⟩
    · exact map_alike (f := frame plan args) h hl hl' hs.1
    · obtain ⟨x, w, hn, -⟩ := hs.reduction kind
      refine (reduce_alike h hl hl' hn).bind fun known m m' hdone => ?_
      -- from here on the frame knows the reduction, but not which memory found it
      exact map_alike (f := { frame plan args with reduced := some known })
        (h.reduce hn (fst_of_reduce hn hdone)) hl hl' hs.1
  have hm := Memory.kept_empty plan.graph.values.length
  obtain ⟨r, s, t, hr, hr', -⟩ := halike _ _ hm hm
  rw [launchWith, launchWith, hr, hr']

/-- Every visit of a launch is to an element that exists, with a faithful
memory. -/
theorem Visits.faithful (hl : lookup.Recalls) (h : (frame plan args).Resolved)
    (hs : plan.graph.Runnable plan.stage) {u : ValueId} {i : List Nat} {m : Memory}
    (hv : Visits lookup plan args f u i m) : f.Resolved ∧ f.Locates u i ∧ f.Faithful m := by
  cases hv with
  | reducing kind hends checked visits =>
    obtain ⟨x, w, hn, -⟩ := hs.reduction kind
    have hx : x < plan.graph.values.length := h.recorded.operand_lt hn (by simp)
    simp only [ends, hn] at hends
    cases hends
    obtain ⟨index, m₁, hpoint, hvisit⟩ := visits
    have hindex := Shape.mem_indices_iff.mp hpoint.mem
    have hm₁ := hpoint.keeps
      (fun j hj _ _ _ hm hdone => (element_alike h hl hl hx hj).keeps hm hdone)
      (Memory.kept_empty _)
    exact ⟨h, hvisit.faithful h hl (Frame.level_lt_depth h.recorded _)
      (Frame.locates_of_inRange hx hindex) (Frame.faithful_advance hm₁)⟩
  | mapping maps visits =>
    obtain ⟨hf, hgraph, hm₀⟩ := maps.resolved hl h hs
    have hlt : ∀ v ∈ plan.stage.roots, v < f.graph.values.length := hgraph ▸ hs.1
    obtain ⟨group, m₁, index, m₂, v, m₃, hgroup, hpoint, hroot, hvisit⟩ := visits
    -- the memory along the groups, their points and their roots
    have hlocates : ∀ {u : ValueId} {j : List Nat}, u ∈ members plan.stage.roots group →
        j ∈ group.1.indices → f.Locates u j :=
      fun hu hj => locates_member hlt hgroup.mem hu hj
    have hm₁ := hgroup.keeps
      (fun g hg _ _ _ hm hdone => (runGroup_alike hf hl hl hlt hg).keeps hm hdone) hm₀
    have hm₂ := hpoint.keeps (fun j hj _ _ _ hm hdone =>
      (row_alike hf hl hl fun _ hu => hlocates hu hj).keeps hm hdone) hm₁
    have hm₃ := hroot.keeps
      (fun u hu _ _ _ hm hdone => (eval_alike hf hl hl (hlocates hu hpoint.mem)).keeps hm hdone)
      (Frame.faithful_advance hm₂)
    exact ⟨hf, hvisit.faithful hf hl (Frame.level_lt_depth hf.recorded v)
      (hlocates hroot.mem hpoint.mem) hm₃⟩

end

open Recorder (Reached Session)

/-- **The memo is invisible.**  Take the graph of any recorder that was reached,
any handles as its results, shapes that a call resolves, and arguments of any
contents.  A launch of a stage is the same if nothing is ever found in the
memo; whatever is found at a visit is the element that recomputing finds; and
the memo is consulted at visits alone. -/
theorem launch_without_memo {r : Recorder} (h : Reached r) (name : String)
    (returned : Returned Handle) {params shapes : List Shape}
    (hshapes : (r.finish name returned).resolveShapes params = .ok shapes) {stages : List Stage}
    (hp : (r.finish name returned).partition = .ok stages) {stage : Stage} (hs : stage ∈ stages)
    (kernel : String) (inputs : List (List Elem)) :
    let plan := KernelPlan.ofStage kernel stage (r.finish name returned)
    let args : KernelInput := ⟨inputs, shapes⟩
    launch plan args = launchWith Memory.forget plan args ∧
    (∀ f v index m e, Visits Memory.find? plan args f v index m →
      m.find? v ((f.shapeOf v).sourceOffset index) = some e →
        f.evalFresh f.depth v index = .ok e) ∧
    ∀ lookup, (∀ f v index m, Visits Memory.find? plan args f v index m →
      f.Same Memory.find? lookup v index m) → launchWith lookup plan args = launch plan args := by
  intro plan args
  have hframe : (frame plan args).Resolved :=
    ⟨h.recorded, ⟨params, (Graph.resolveShapes_eq_ok hshapes).2⟩, nofun⟩
  have hrun : plan.graph.Runnable plan.stage := Graph.runnable_of_partition h.recorded hp stage hs
  refine ⟨launchWith_alike Memory.recalls_find? Memory.recalls_forget hframe hrun, ?_, ?_⟩
  · intro f v index m e hv he
    obtain ⟨-, hloc, hm⟩ := hv.faithful Memory.recalls_find? hframe hrun
    exact hm.current v _ e he index hloc rfl
  · intro lookup hsame
    exact (launchWith_congr hsame).symm

/-- A sum of quotients is added to the remainders and to the quotients. -/
def shiftedQuotients : Session :=
  let word : Form := ⟨.int .w64, 0, .scalar⟩
  let words : Form := ⟨.int .w64, 1, .array⟩
  let total : Form := ⟨.int .w64, 0, .array⟩
  Session.start
    |>.step "host" (.param .array (some (.int .w64)) 1)
    |>.step "host" (.param .scalar (some (.int .w64)) 0)
    |>.step "host" (.ufunc .divmod [⟨words, 0⟩, ⟨word, 1⟩])
    |>.step "host" (.reduce .sum ⟨words, 2⟩ none)
    |>.step "host" (.ufunc .add [⟨total, 4⟩, ⟨words, 3⟩])
    |>.step "host" (.ufunc .add [⟨total, 4⟩, ⟨words, 2⟩])

theorem history_shiftedQuotients : shiftedQuotients.History "host" := by
  unfold shiftedQuotients
  refine .call (.call (.call (.call (.call (.call .start ?_) ?_) ?_) ?_) ?_) ?_ <;> decide

/-- A quotient is asked for a second time at the point of its remainder, and
found where the loop left it that computed both. -/
theorem launch_without_memo_sibling :
    let r := shiftedQuotients.recorder
    let g := r.finish "f" (.tuple (shiftedQuotients.handles.drop 5))
    let shapes : List Shape := [⟨[2]⟩, ⟨[]⟩, ⟨[2]⟩, ⟨[2]⟩, ⟨[]⟩, ⟨[2]⟩, ⟨[2]⟩]
    let stage : Stage := ⟨.reduction 1 .sum none, [0], [0, 2, 3], [5, 6]⟩
    let plan := KernelPlan.ofStage "f" stage g
    let args : KernelInput := ⟨[[.int 7, .int 9], [.int 4]], shapes⟩
    Reached r ∧ g.resolveShapes [⟨[2]⟩, .scalar] = .ok shapes ∧ g.partition = .ok [stage] ∧
      launch plan args = .ok [[.int 6, .int 4], [.int 4, .int 5]] ∧
      launchWith Memory.forget plan args = .ok [[.int 6, .int 4], [.int 4, .int 5]] ∧
      ∃ f m, Visits Memory.find? plan args f 2 [0] m ∧ m.find? 2 0 = some (.int 1) ∧
        f.evalFresh f.depth 2 [0] = .ok (.int 1) := by
  intro r g shapes stage plan args
  have hr : Reached r := history_shiftedQuotients.sound.1
  have hshapes : g.resolveShapes [⟨[2]⟩, .scalar] = .ok shapes := by decide +kernel
  have hp : g.partition = .ok [stage] := by decide +kernel
  obtain ⟨hforget, hfound, -⟩ := launch_without_memo hr "f" _ hshapes hp List.mem_cons_self "f"
    args.inputs
  have hlaunch : launch plan args = .ok [[.int 6, .int 4], [.int 4, .int 5]] := by decide +kernel
  refine ⟨hr, hshapes, hp, hlaunch, hforget.symm.trans hlaunch, ?_⟩
  -- the memories: after the sum, after the first root, after the sum was read for the second
  let f : Frame := { frame plan args with reduced := some (4, [.int 3]) }
  let m₀ := (reduce Memory.find? (frame plan args) 1 .sum none (.empty 7)).2
  let m₁ := (f.eval Memory.find? f.depth 5 [0] m₀.advance).2
  let m₂ := (f.eval Memory.find? f.graph.nodes.length 4 [0] m₁).2
  have hmaps : Maps Memory.find? plan args f m₀ :=
    .reduced rfl (Exec.eq_ok_of_fst (by decide +kernel))
  have hgroup : Exec.Comes (runGroup Memory.find? f [5, 6]) (groups f [5, 6]) m₀
      (⟨[2]⟩, [0, 1]) m₀ := by
    rw [show groups f [5, 6] = [(⟨[2]⟩, [0, 1])] by decide +kernel]
    exact .here
  have hpoint : Exec.Comes (row Memory.find? f [5, 6]) (Shape.indices ⟨[2]⟩) m₀ [0] m₀ := .here
  have hroot : Exec.Comes (fun v => f.eval Memory.find? f.depth v [0]) [5, 6] m₀.advance 6 m₁ :=
    .later (Exec.eq_ok_of_fst (a := .int 6) (by decide +kernel)) .here
  have hneed : f.Visits Memory.find? f.depth 6 [0] m₁ 2 [0] m₂ := by
    let loop : Loop := ⟨[.int .w64, .int .w64], [.int .w64]⟩
    let node : Node := ⟨.ufunc .add loop, [4, 2], [], [6]⟩
    have hv : f.graph.values[6]? = some ⟨⟨.int .w64, 1, .array⟩, .output 3 0⟩ := by decide +kernel
    have hn : f.graph.nodes[3]? = some node := by decide +kernel
    have hrec : f.recipeOf 6 ((f.shapeOf 6).unbroadcast [0]) =
        .ok (f.ufuncRecipe node .add loop 0 [0]) := by
      simp only [Frame.recipeOf, hv, Frame.recipe, hn]
      rfl
    exact .need (by decide +kernel) (by decide +kernel) hrec
      (.later (Exec.eq_ok_of_fst (a := Elem.int 3) (by decide +kernel)) .here) .self
  have hvisit : Visits Memory.find? plan args f 2 [0] m₂ :=
    .mapping hmaps ⟨_, _, _, _, _, _, hgroup, hpoint, hroot, hneed⟩
  have he : m₂.find? 2 0 = some (.int 1) := by decide +kernel
  exact ⟨f, m₂, hvisit, he, hfound f 2 [0] m₂ _ hvisit he⟩

end Host

end ArrayFusion
