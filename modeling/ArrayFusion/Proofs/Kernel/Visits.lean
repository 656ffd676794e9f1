/-
ArrayFusion/Proofs/Kernel/Visits.lean

The elements that a launch evaluates, each with the memory it starts from.

Design.  A list is gone through member by member, each in the state that the
members before left (`Exec.Comes`).  An evaluation visits its own element and,
if this is made after a recipe, what is visited on the way to the elements
that the recipe asks for (`Frame.Visits`).  A launch visits what is visited at
the points of its passes (`Host.Visits`).

Main result: no visit is left out, since a launch depends on what is found in
the memory at its visits and on nothing else that could be found
(`launchWith_congr`).
-/
import ArrayFusion.Proofs.Kernel.Host

namespace ArrayFusion

/-! ### Going through a list -/

namespace Exec

variable {σ α β : Type}

/-- Going through a list from a state comes to a member, in a state. -/
inductive Comes (f : α → Exec σ β) : List α → σ → α → σ → Prop
  | here {x : α} {xs : List α} {s : σ} : Comes f (x :: xs) s x s
  | later {x y : α} {xs : List α} {b : β} {s t u : σ} (first : f x s = (.ok b, t))
      (rest : Comes f xs t y u) : Comes f (x :: xs) s y u

theorem eq_ok_of_fst {x : Exec σ α} {s : σ} {a : α} (h : (x s).1 = .ok a) :
    x s = (.ok a, (x s).2) :=
  Prod.ext h rfl

variable {f g : α → Exec σ β} {xs : List α}

theorem Comes.mem {s t : σ} {x : α} (h : Comes f xs s x t) : x ∈ xs := by
  induction h with
  | here => exact List.mem_cons_self
  | later _ _ ih => exact List.mem_cons_of_mem _ ih

/-- What each member keeps holds at every member. -/
theorem Comes.keeps {I : σ → Prop} {s t : σ} {x : α} (h : Comes f xs s x t)
    (hkeep : ∀ y ∈ xs, ∀ s b t, I s → f y s = (.ok b, t) → I t) (hs : I s) : I t := by
  induction h with
  | here => exact hs
  | later first rest ih =>
    exact ih (fun y hy => hkeep y (List.mem_cons_of_mem _ hy))
      (hkeep _ List.mem_cons_self _ _ _ hs first)

/-- Going through a list depends on what is done where it comes to. -/
theorem mapM_congr_comes {s : σ} (h : ∀ x t, Comes f xs s x t → f x t = g x t) :
    xs.mapM f s = xs.mapM g s := by
  induction xs generalizing s with
  | nil => rfl
  | cons x xs ih =>
    rw [List.mapM_cons, List.mapM_cons, bind_apply, bind_apply, ← h x s .here]
    rcases hx : f x s with ⟨e | b, t⟩
    · rfl
    · simp only [bind_apply, ih fun y u hy => h y u (.later hx hy)]

end Exec

/-! ### One element -/

namespace Frame

/-- While an element is evaluated, the evaluation of another one starts. -/
inductive Visits (f : Frame) (lookup : Lookup) :
    Nat → ValueId → List Nat → Memory → ValueId → List Nat → Memory → Prop
  | self {depth : Nat} {v : ValueId} {index : List Nat} {m : Memory} :
      Visits f lookup (depth + 1) v index m v index m
  | need {depth : Nat} {v u : ValueId} {index i : List Nat} {m m₁ m₂ : Memory} {r : Recipe}
      {need : ValueId × List Nat}
      (miss : lookup m v ((f.shapeOf v).sourceOffset index) = none)
      (leaf : f.leaf v ((f.shapeOf v).sourceOffset index) = .ok none)
      (recipe : f.recipeOf v ((f.shapeOf v).unbroadcast index) = .ok r)
      (comes : Exec.Comes (fun need => f.eval lookup depth need.1 need.2) r.needs m need m₁)
      (visits : Visits f lookup depth need.1 need.2 m₁ u i m₂) :
      Visits f lookup (depth + 1) v index m u i m₂

variable {f : Frame} {lookup lookup' : Lookup}

/-- Two ways to look elements up agree on an element. -/
def Same (f : Frame) (lookup lookup' : Lookup) (u : ValueId) (i : List Nat) (m : Memory) : Prop :=
  lookup' m u ((f.shapeOf u).sourceOffset i) = lookup m u ((f.shapeOf u).sourceOffset i)

theorem eval_congr {depth : Nat} {v : ValueId} {index : List Nat} {m : Memory}
    (h : ∀ u i m', f.Visits lookup depth v index m u i m' → f.Same lookup lookup' u i m') :
    f.eval lookup depth v index m = f.eval lookup' depth v index m := by
  induction depth generalizing v index m with
  | zero => rfl
  | succ depth ih =>
    have hself : lookup' m v _ = lookup m v _ := h v index m .self
    rcases hlook : lookup m v ((f.shapeOf v).sourceOffset index) with - | e
    · rcases hleaf : f.leaf v ((f.shapeOf v).sourceOffset index) with err | - | e
      · rw [eval_of_leaf_error hlook hleaf, eval_of_leaf_error (hself.trans hlook) hleaf]
      · rcases hrec : f.recipeOf v ((f.shapeOf v).unbroadcast index) with err | r
        · rw [eval_of_recipe_error hlook hleaf hrec,
            eval_of_recipe_error (hself.trans hlook) hleaf hrec]
        · have hneeds : r.needs.mapM (fun need => f.eval lookup depth need.1 need.2) m =
              r.needs.mapM (fun need => f.eval lookup' depth need.1 need.2) m := by
            apply Exec.mapM_congr_comes
            intro need m₁ hc
            apply ih
            intro u i m' hv
            exact h u i m' (.need hlook hleaf hrec hc hv)
          simp only [eval, Exec.bind_apply, Exec.get_apply, hself, hlook, Exec.lift_apply, hleaf,
            hrec, hneeds]
      · rw [eval_of_leaf hlook hleaf, eval_of_leaf (hself.trans hlook) hleaf]
    · rw [eval_of_lookup hlook, eval_of_lookup (hself.trans hlook)]

end Frame

/-! ### A launch -/

namespace Host

/-- Visits of a pass over the indices of one value. -/
def ElementsVisits (lookup : Lookup) (f : Frame) (v : ValueId) (m : Memory) (u : ValueId)
    (i : List Nat) (m' : Memory) : Prop :=
  ∃ index m₁, Exec.Comes (fun index => do Frame.nextPoint; f.eval lookup f.depth v index)
      (f.shapeOf v).indices m index m₁ ∧
    f.Visits lookup f.depth v index m₁.advance u i m'

/-- The roots of a group. -/
def members (roots : List ValueId) (group : Shape × List Nat) : List ValueId :=
  group.2.filterMap fun k => roots[k]?

/-- Visits of the passes over the roots: in a group, at a point, for a root. -/
def MapVisits (lookup : Lookup) (f : Frame) (roots : List ValueId) (m : Memory) (u : ValueId)
    (i : List Nat) (m' : Memory) : Prop :=
  ∃ group m₁ index m₂ v m₃,
    Exec.Comes (runGroup lookup f roots) (groups f roots) m group m₁ ∧
    Exec.Comes (row lookup f (members roots group)) group.1.indices m₁ index m₂ ∧
    Exec.Comes (fun v => f.eval lookup f.depth v index) (members roots group) m₂.advance v m₃ ∧
    f.Visits lookup f.depth v index m₃ u i m'

/-- What is read before a reduction was done. -/
def frame (plan : KernelPlan) (args : KernelInput) : Frame :=
  ⟨plan.graph, args.inputs, args.shapes, none⟩

/-- With what the passes over the roots start. -/
inductive Maps (lookup : Lookup) (plan : KernelPlan) (args : KernelInput) : Frame → Memory → Prop
  | elementwise (kind : plan.stage.kind = .elementwise) :
      Maps lookup plan args (frame plan args) (.empty plan.graph.values.length)
  | reduced {n : NodeId} {op : Reduction} {axis : Option Nat} {known : ValueId × List Elem}
      {m : Memory} (kind : plan.stage.kind = .reduction n op axis)
      (done : reduce lookup (frame plan args) n op axis (.empty plan.graph.values.length) =
        (.ok known, m)) :
      Maps lookup plan args { frame plan args with reduced := some known } m

/-- While a kernel is launched, the evaluation of an element starts. -/
inductive Visits (lookup : Lookup) (plan : KernelPlan) (args : KernelInput) :
    Frame → ValueId → List Nat → Memory → Prop
  | reducing {n : NodeId} {op : Reduction} {axis : Option Nat} {x w u : ValueId} {i : List Nat}
      {m : Memory} (kind : plan.stage.kind = .reduction n op axis)
      (ends : ends plan.graph n = .ok (x, w))
      (checked : checkAxis ((frame plan args).shapeOf x) axis = .ok ())
      (visits : ElementsVisits lookup (frame plan args) x (.empty plan.graph.values.length) u i m) :
      Visits lookup plan args (frame plan args) u i m
  | mapping {f : Frame} {u : ValueId} {i : List Nat} {m₀ m : Memory}
      (maps : Maps lookup plan args f m₀)
      (visits : MapVisits lookup f plan.stage.roots m₀ u i m) : Visits lookup plan args f u i m

variable {f : Frame} {lookup lookup' : Lookup}

theorem elements_congr {v : ValueId} {m : Memory}
    (h : ∀ u i m', ElementsVisits lookup f v m u i m' → f.Same lookup lookup' u i m') :
    elements lookup f v (f.shapeOf v).indices m = elements lookup' f v (f.shapeOf v).indices m := by
  apply Exec.mapM_congr_comes
  intro index m₁ hc
  show f.eval lookup f.depth v index m₁.advance = f.eval lookup' f.depth v index m₁.advance
  apply Frame.eval_congr
  intro u i m' hv
  exact h u i m' ⟨index, m₁, hc, hv⟩

theorem map_congr {roots : List ValueId} {m : Memory}
    (h : ∀ u i m', MapVisits lookup f roots m u i m' → f.Same lookup lookup' u i m') :
    map lookup f roots m = map lookup' f roots m := by
  have hgroups : (groups f roots).mapM (runGroup lookup f roots) m =
      (groups f roots).mapM (runGroup lookup' f roots) m := by
    apply Exec.mapM_congr_comes
    intro group m₁ hgroup
    have hrows : group.1.indices.mapM (row lookup f (members roots group)) m₁ =
        group.1.indices.mapM (row lookup' f (members roots group)) m₁ := by
      apply Exec.mapM_congr_comes
      intro index m₂ hpoint
      apply Exec.mapM_congr_comes
      intro v m₃ hroot
      apply Frame.eval_congr
      intro u i m' hv
      exact h u i m' ⟨group, m₁, index, m₂, v, m₃, hgroup, hpoint, hroot, hv⟩
    simp only [runGroup, Exec.bind_apply]
    rw [← members, hrows]
  simp only [Host.map, Exec.bind_apply, hgroups]

theorem reduce_congr {n : NodeId} {op : Reduction} {axis : Option Nat} {m : Memory}
    (h : ∀ x w u i m', ends f.graph n = .ok (x, w) → checkAxis (f.shapeOf x) axis = .ok () →
      ElementsVisits lookup f x m u i m' → f.Same lookup lookup' u i m') :
    reduce lookup f n op axis m = reduce lookup' f n op axis m := by
  rcases hends : ends f.graph n with e | ⟨x, w⟩
  · simp only [reduce, hends, Exec.bind_apply, Exec.lift_apply]
  · rcases haxis : checkAxis (f.shapeOf x) axis with e | ⟨⟩
    · simp only [reduce, hends, haxis, Exec.bind_apply, Exec.lift_apply]
    · have hdata := elements_congr fun u i m' hv => h x w u i m' hends haxis hv
      simp only [reduce, hends, haxis, Exec.bind_apply, Exec.lift_apply, hdata]

/-- Ways to look elements up that agree at the visits make no difference. -/
theorem launchWith_congr {plan : KernelPlan} {args : KernelInput}
    (h : ∀ f u i m, Visits lookup plan args f u i m → f.Same lookup lookup' u i m) :
    launchWith lookup plan args = launchWith lookup' plan args := by
  unfold launchWith
  apply congrArg Prod.fst
  rcases hkind : plan.stage.kind with - | ⟨n, op, axis⟩
  · simp only [run, hkind]
    exact map_congr fun u i m hv => h _ u i m (.mapping (.elementwise hkind) hv)
  · have hreduce : reduce lookup (frame plan args) n op axis (.empty plan.graph.values.length) =
        reduce lookup' (frame plan args) n op axis (.empty plan.graph.values.length) := by
      apply reduce_congr
      intro x w u i m hends haxis hv
      exact h _ u i m (.reducing hkind hends haxis hv)
    simp only [run, hkind, Exec.bind_apply]
    rw [← frame, ← hreduce]
    rcases hdone : reduce lookup (frame plan args) n op axis (.empty plan.graph.values.length)
      with ⟨e | known, m⟩
    · rfl
    · exact map_congr fun u i m' hv => h _ u i m' (.mapping (.reduced hkind hdone) hv)

end Host

end ArrayFusion
