/-
ArrayFusion/Proofs/Kernel/Host.lean

A launch on the host yields the contents that the snapshot has for the roots.

Design.  A pass over the indices of a shape evaluates one point after the
other, each with the memory that the points before left.  If every evaluation
finds the right element (`Finds`), then the pass finds the whole list of them
(`elements_of_finds`, `runGroup_of_finds`).  Grouping the roots by shape only
reorders passes: every root is in one group, and what is found for it does not
depend on the group (`map_of_finds`).

Main results: a reduction and the passes after it find the contents of the
snapshot (`reduce_spec`, `map_spec`).
-/
import ArrayFusion.Kernel.Host
import ArrayFusion.Proofs.Kernel.Point

namespace ArrayFusion.Host

variable {f : Frame} {inputs env : List Tensor} {lookup : Lookup}

/-! ### One value over its shape -/

/-- What holds of a memory between points (`I`) and within one (`J`). -/
structure Keeps (I J : Memory → Prop) : Prop where
  advance : ∀ {m : Memory}, I m → J m.advance
  settle : ∀ {m : Memory}, J m → I m

/-- Evaluating a value within a point finds the given elements. -/
def Finds (lookup : Lookup) (f : Frame) (J : Memory → Prop) (elem : ValueId → List Nat → Elem)
    (v : ValueId) : Prop :=
  ∀ index, (f.shapeOf v).InRange index → ∀ m : Memory, J m →
    ∃ m', f.eval lookup f.depth v index m = (.ok (elem v index), m') ∧ J m'

section

variable {I J : Memory → Prop} {elem : ValueId → List Nat → Elem}

/-- A pass over the shape of a value finds its elements in order. -/
theorem elements_of_finds (hk : Keeps I J) {v : ValueId} (h : Finds lookup f J elem v) {m : Memory}
    (hm : I m) :
    ∃ m', elements lookup f v (f.shapeOf v).indices m =
        (.ok ((f.shapeOf v).indices.map (elem v)), m') ∧ I m' := by
  have hpoints : ∀ index ∈ (f.shapeOf v).indices, ∀ m : Memory, I m →
      ∃ m', (do Frame.nextPoint; f.eval lookup f.depth v index) m = (.ok (elem v index), m') ∧
        I m' := by
    intro index hindex m hm
    obtain ⟨m', heval, hm'⟩ := h index (Shape.mem_indices_iff.mp hindex) _ (hk.advance hm)
    exact ⟨m', heval, hk.settle hm'⟩
  exact exec_mapM_eq_ok_map hpoints hm

end

theorem keeps_holds (env : List Tensor) : Keeps (·.Holds env) (·.Holds env) :=
  ⟨fun hm => hm.advance, fun hm => hm⟩

/-- A value that is ready has the elements of the snapshot. -/
theorem finds_of_sees (h : f.Sees inputs env) (hsound : Lookup.Sound lookup) {v : ValueId}
    (hr : f.Ready v) :
    Finds lookup f (·.Holds env) (fun v index => (env.getD v .blank).get index) v := by
  intro index hi m hm
  rw [h.shapeOf] at hi
  exact Frame.eval_spec h hsound f.depth hr (Frame.level_lt_depth h.recorded v)
    (Shape.broadcastsInto_refl _) hi hm

theorem map_get_of_sees (h : f.Sees inputs env) {v : ValueId} (hv : v < f.graph.values.length) :
    ((f.shapeOf v).indices.map fun index => (env.getD v .blank).get index) =
      (env.getD v .blank).data := by
  rw [h.shapeOf]
  exact Tensor.map_get_indices (h.hasForm hv).sized

/-! ### Reductions -/

theorem checkAxis_of_reducedShape {op : Reduction} {shape out : Shape} {axis : Option Nat}
    (h : op.reducedShape shape axis = .ok out) : checkAxis shape axis = .ok () := by
  cases axis with
  | none => rfl
  | some a => exact if_pos (Reduction.reducedShape_some h).1

/-- Reducing at a node finds the contents of its output. -/
theorem reduce_spec (h : f.Sees inputs env) (hsound : Lookup.Sound lookup) {n : NodeId}
    {op : Reduction} {axis : Option Nat} {x v : ValueId}
    (hn : f.graph.nodes[n]? = some ⟨.reduce op axis, [x], [], [v]⟩) (hr : f.Ready x) {m : Memory}
    (hm : m.Holds env) :
    ∃ m', reduce lookup f n op axis m = (.ok (v, (env.getD v .blank).data), m') ∧
      m'.Holds env := by
  -- the node's outcome says which shape and elements the output has
  obtain ⟨outs, ho, -, hout⟩ := h.recorded.snapshot_output h.accepts env h.snapshot hn
  obtain ⟨out, acc, hshape, hacc, rfl, -⟩ := Op.reduce_outcome (h.hasForm hr.lt).sized ho
  have hval : env.getD v .blank = ⟨op.outputDType (env.getD x .blank).dtype, out, acc.finish⟩ := by
    rw [List.getD, hout 0 v rfl]
    rfl
  have hv : v < f.graph.values.length := h.recorded.output_lt hn List.mem_cons_self
  obtain ⟨m', hdata, hm'⟩ := elements_of_finds (keeps_holds env) (finds_of_sees h hsound hr) hm
  refine ⟨m', ?_, hm'⟩
  rw [map_get_of_sees h hr.lt, h.shapeOf] at hdata
  simp only [reduce, ends, hn, Exec.bind_apply, Exec.lift_apply, h.shapeOf,
    checkAxis_of_reducedShape hshape, hdata, h.dtype hv, hval, hacc]
  rfl

/-! ### Groups of roots -/

/-- A group that a position was added to: the position is new, or the member
was there before. -/
theorem mem_insertGroup {shape : Shape} {k : Nat} {gs : List (Shape × List Nat)}
    {g : Shape × List Nat} (hg : g ∈ insertGroup shape k gs) {j : Nat} (hj : j ∈ g.2) :
    (j = k ∧ g.1 = shape) ∨ ∃ g' ∈ gs, g'.1 = g.1 ∧ j ∈ g'.2 := by
  induction gs with
  | nil =>
    obtain rfl := List.mem_singleton.mp hg
    exact .inl ⟨List.mem_singleton.mp hj, rfl⟩
  | cons p rest ih =>
    obtain ⟨s, members⟩ := p
    rw [insertGroup] at hg
    split at hg
    · next hs =>
      rcases List.mem_cons.mp hg with rfl | hg
      · rcases List.mem_append.mp hj with hj | hj
        · exact .inr ⟨_, List.mem_cons_self, rfl, hj⟩
        · exact .inl ⟨List.mem_singleton.mp hj, hs⟩
      · exact .inr ⟨g, List.mem_cons_of_mem _ hg, rfl, hj⟩
    · rcases List.mem_cons.mp hg with rfl | hg
      · exact .inr ⟨_, List.mem_cons_self, rfl, hj⟩
      · rcases ih hg with h | ⟨g', hg', h⟩
        · exact .inl h
        · exact .inr ⟨g', List.mem_cons_of_mem _ hg', h⟩

theorem exists_insertGroup (shape : Shape) (k : Nat) (gs : List (Shape × List Nat)) :
    ∃ g ∈ insertGroup shape k gs, k ∈ g.2 := by
  induction gs with
  | nil => exact ⟨_, List.mem_cons_self, List.mem_cons_self⟩
  | cons p rest ih =>
    obtain ⟨s, members⟩ := p
    rw [insertGroup]
    split
    · exact ⟨_, List.mem_cons_self, List.mem_append_right _ List.mem_cons_self⟩
    · obtain ⟨g, hg, hk⟩ := ih
      exact ⟨g, List.mem_cons_of_mem _ hg, hk⟩

theorem insertGroup_keeps (shape : Shape) (k : Nat) {gs : List (Shape × List Nat)}
    {g : Shape × List Nat} (hg : g ∈ gs) {j : Nat} (hj : j ∈ g.2) :
    ∃ g' ∈ insertGroup shape k gs, j ∈ g'.2 := by
  induction gs with
  | nil => simp at hg
  | cons p rest ih =>
    obtain ⟨s, members⟩ := p
    rw [insertGroup]
    rcases List.mem_cons.mp hg with rfl | hg
    · split
      · exact ⟨_, List.mem_cons_self, List.mem_append_left _ hj⟩
      · exact ⟨_, List.mem_cons_self, hj⟩
    · split
      · exact ⟨g, List.mem_cons_of_mem _ hg, hj⟩
      · obtain ⟨g', hg', hj'⟩ := ih hg
        exact ⟨g', List.mem_cons_of_mem _ hg', hj'⟩

/-- The groups made from entries: members come from them, and all of them
become members. -/
theorem foldl_insertGroup (shapeAt : ValueId → Shape) (entries : List (ValueId × Nat))
    (gs : List (Shape × List Nat)) :
    (∀ g ∈ entries.foldl (fun gs p => insertGroup (shapeAt p.1) p.2 gs) gs, ∀ j ∈ g.2,
      (∃ p ∈ entries, p.2 = j ∧ shapeAt p.1 = g.1) ∨ ∃ g' ∈ gs, g'.1 = g.1 ∧ j ∈ g'.2) ∧
    (∀ p ∈ entries, ∃ g ∈ entries.foldl (fun gs p => insertGroup (shapeAt p.1) p.2 gs) gs,
      p.2 ∈ g.2) ∧
    ∀ g ∈ gs, ∀ j ∈ g.2,
      ∃ g' ∈ entries.foldl (fun gs p => insertGroup (shapeAt p.1) p.2 gs) gs, j ∈ g'.2 := by
  induction entries generalizing gs with
  | nil =>
    refine ⟨fun g hg j hj => .inr ⟨g, hg, rfl, hj⟩, by simp, fun g hg j hj => ⟨g, hg, hj⟩⟩
  | cons p entries ih =>
    obtain ⟨hfrom, hall, hold⟩ := ih (insertGroup (shapeAt p.1) p.2 gs)
    refine ⟨?_, ?_, ?_⟩
    · intro g hg j hj
      rcases hfrom g hg j hj with ⟨q, hq, hqj⟩ | ⟨g', hg', hs, hj'⟩
      · exact .inl ⟨q, List.mem_cons_of_mem p hq, hqj⟩
      · rcases mem_insertGroup hg' hj' with ⟨rfl, hshape⟩ | ⟨g'', hg'', hs', hj''⟩
        · exact .inl ⟨p, List.mem_cons_self, rfl, hshape.symm.trans hs⟩
        · exact .inr ⟨g'', hg'', hs'.trans hs, hj''⟩
    · intro q hq
      rcases List.mem_cons.mp hq with rfl | hq
      · obtain ⟨g, hg, hk⟩ := exists_insertGroup (shapeAt q.1) q.2 gs
        exact hold g hg _ hk
      · exact hall q hq
    · intro g hg j hj
      obtain ⟨g', hg', hj'⟩ := insertGroup_keeps (shapeAt p.1) p.2 hg hj
      exact hold g' hg' j hj'

/-- Members of a group are positions of roots of its shape. -/
theorem shape_of_mem_groups {roots : List ValueId} {g : Shape × List Nat}
    (hg : g ∈ groups f roots) {k : Nat} (hk : k ∈ g.2) :
    ∃ v, roots[k]? = some v ∧ f.shapeOf v = g.1 := by
  rcases (foldl_insertGroup f.shapeOf roots.zipIdx []).1 g hg k hk with
    ⟨p, hp, rfl, hs⟩ | ⟨g', hg', -⟩
  · exact ⟨p.1, List.mem_zipIdx_iff_getElem?.mp hp, hs⟩
  · simp at hg'

/-- Every position is in a group. -/
theorem exists_group {roots : List ValueId} {k : Nat} (hk : k < roots.length) :
    ∃ g ∈ groups f roots, k ∈ g.2 :=
  (foldl_insertGroup f.shapeOf roots.zipIdx []).2.1 (roots[k], k)
    (List.mem_zipIdx_iff_getElem?.mpr (List.getElem?_eq_getElem hk))

/-! ### Passes over groups -/

/-- Roots at the positions of a group. -/
theorem filterMap_roots {roots : List ValueId} {ks : List Nat}
    (h : ∀ k ∈ ks, k < roots.length) :
    (ks.filterMap fun k => roots[k]?) = ks.map fun k => roots.getD k 0 := by
  apply filterMap_eq_map_of_some
  intro k hk
  simp [h k hk]

section

variable {I J : Memory → Prop} {elem : ValueId → List Nat → Elem}

/-- One pass finds the elements of every root of its group. -/
theorem runGroup_of_finds (hkeep : Keeps I J) {roots : List ValueId}
    (h : ∀ v ∈ roots, Finds lookup f J elem v) {g : Shape × List Nat} (hg : g ∈ groups f roots)
    {m : Memory} (hm : I m) :
    ∃ m', runGroup lookup f roots g m =
        (.ok (g.2.map fun k => (k, (f.shapeOf (roots.getD k 0)).indices.map
          (elem (roots.getD k 0)))), m') ∧ I m' := by
  have hmem : ∀ k ∈ g.2, roots.getD k 0 ∈ roots ∧ k < roots.length ∧
      f.shapeOf (roots.getD k 0) = g.1 := by
    intro k hk
    obtain ⟨v, hv, hs⟩ := shape_of_mem_groups hg hk
    rw [List.getD, hv, Option.getD_some]
    exact ⟨List.mem_of_getElem? hv, (List.getElem?_eq_some_iff.mp hv).1, hs⟩
  have hvalues := filterMap_roots fun k hk => (hmem k hk).2.1
  -- one point: all roots of the group at one index
  have hpoint : ∀ index ∈ g.1.indices, ∀ m : Memory, I m →
      ∃ m', row lookup f (g.2.map fun k => roots.getD k 0) index m =
        (.ok ((g.2.map fun k => roots.getD k 0).map fun v => elem v index), m') ∧ I m' := by
    intro index hindex m hm
    have heval : ∀ v ∈ g.2.map fun k => roots.getD k 0, ∀ m : Memory, J m →
        ∃ m', f.eval lookup f.depth v index m = (.ok (elem v index), m') ∧ J m' := by
      intro v hv m hm
      obtain ⟨k, hk, rfl⟩ := List.mem_map.mp hv
      obtain ⟨hroot, -, hs⟩ := hmem k hk
      exact h _ hroot index (hs ▸ Shape.mem_indices_iff.mp hindex) m hm
    obtain ⟨m', hrow, hm'⟩ := exec_mapM_eq_ok_map heval (hkeep.advance hm)
    exact ⟨m', hrow, hkeep.settle hm'⟩
  obtain ⟨m', hrows, hm'⟩ := exec_mapM_eq_ok_map hpoint hm
  refine ⟨m', ?_, hm'⟩
  simp only [runGroup, hvalues, Exec.bind_apply, hrows, Exec.pure_apply]
  congr 2
  apply List.ext_getElem?
  intro p
  rw [List.getElem?_mapIdx, List.getElem?_map]
  rcases e : g.2[p]? with - | k
  · rfl
  · obtain ⟨hroot, -, hs⟩ := hmem k (List.mem_of_getElem? e)
    rw [Option.map_some, Option.map_some, Option.some.injEq, Prod.mk.injEq]
    refine ⟨rfl, ?_⟩
    rw [hs, List.filterMap_map]
    apply filterMap_eq_map_of_some
    intro index _
    simp [e]

end

/-- Looking up in a list whose values are determined by the keys. -/
theorem lookup_eq_some {α : Type} {entries : List (Nat × α)} (value : Nat → α)
    (h : ∀ p ∈ entries, p.2 = value p.1) {k : Nat} (hk : ∃ p ∈ entries, p.1 = k) :
    entries.lookup k = some (value k) := by
  induction entries with
  | nil =>
    obtain ⟨p, hp, -⟩ := hk
    simp at hp
  | cons p rest ih =>
    rw [List.lookup_cons]
    by_cases hkey : k = p.1
    · subst hkey
      simp [h p List.mem_cons_self]
    · have hb : (k == p.1) = false := beq_eq_false_iff_ne.mpr hkey
      rw [hb]
      apply ih (fun q hq => h q (List.mem_cons_of_mem p hq))
      obtain ⟨q, hq, rfl⟩ := hk
      rcases List.mem_cons.mp hq with rfl | hq
      · exact absurd rfl hkey
      · exact ⟨q, hq, rfl⟩

/-- All passes together find the elements of all roots, in order. -/
theorem map_of_finds {I J : Memory → Prop} {elem : ValueId → List Nat → Elem}
    (hkeep : Keeps I J) {roots : List ValueId} (h : ∀ v ∈ roots, Finds lookup f J elem v)
    {m : Memory} (hm : I m) :
    ∃ m', map lookup f roots m =
        (.ok (roots.map fun v => (f.shapeOf v).indices.map (elem v)), m') ∧ I m' := by
  obtain ⟨m', hcols, hm'⟩ :=
    exec_mapM_eq_ok_map (fun g hg m hm => runGroup_of_finds hkeep h hg hm) hm
  refine ⟨m', ?_, hm'⟩
  simp only [Host.map, Exec.bind_apply, hcols, Exec.pure_apply]
  congr 2
  apply List.ext_getElem?
  intro k
  rw [List.getElem?_map, List.getElem?_map]
  rcases Nat.lt_or_ge k roots.length with hk | hk
  · rw [List.getElem?_range hk, List.getElem?_eq_getElem hk, Option.map_some, Option.map_some,
      lookup_eq_some fun k => (f.shapeOf (roots.getD k 0)).indices.map (elem (roots.getD k 0))]
    · simp [List.getD, hk]
    · intro p hp
      obtain ⟨col, hcol, hp⟩ := List.mem_flatten.mp hp
      obtain ⟨g, -, rfl⟩ := List.mem_map.mp hcol
      obtain ⟨j, -, rfl⟩ := List.mem_map.mp hp
      rfl
    · obtain ⟨g, hg, hkg⟩ := exists_group hk
      exact ⟨_, List.mem_flatten.mpr ⟨_, List.mem_map_of_mem hg, List.mem_map_of_mem hkg⟩, rfl⟩
  · rw [List.getElem?_eq_none (by simpa using hk), List.getElem?_eq_none hk]
    rfl

/-- Mapping finds the contents that the snapshot has for the roots. -/
theorem map_spec (h : f.Sees inputs env) (hsound : Lookup.Sound lookup) {roots : List ValueId}
    (hr : ∀ v ∈ roots, f.Ready v) {m : Memory} (hm : m.Holds env) :
    ∃ m', map lookup f roots m = (.ok (roots.map fun v => (env.getD v .blank).data), m') ∧
      m'.Holds env := by
  obtain ⟨m', hmap, hm'⟩ := map_of_finds (keeps_holds env)
    (fun v hv => finds_of_sees h hsound (hr v hv)) hm
  refine ⟨m', ?_, hm'⟩
  rw [hmap, List.map_congr_left fun v hv => map_get_of_sees h (hr v hv).lt]

end ArrayFusion.Host
