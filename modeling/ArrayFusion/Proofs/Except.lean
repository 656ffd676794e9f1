/-
ArrayFusion/Proofs/Except.lean

Sequences of checks: what a successful one says about its parts, and when
going through a list succeeds.
-/
import ArrayFusion.Exec

namespace ArrayFusion

variable {α β γ : Type}

/-- Inversion of a successful sequence. -/
theorem except_bind_eq_ok {m : Except Error α} {f : α → Except Error β} {b : β} :
    (m >>= f) = .ok b ↔ ∃ a, m = .ok a ∧ f a = .ok b := by
  rcases m with e | a
  · simp [bind, Except.bind]
  · simp [bind, Except.bind]

/-- Inversion of a failing sequence. -/
theorem except_bind_eq_error {m : Except Error α} {f : α → Except Error β} {e : Error} :
    (m >>= f) = .error e ↔ m = .error e ∨ ∃ a, m = .ok a ∧ f a = .error e := by
  rcases m with e' | a
  · simp [bind, Except.bind]
  · simp [bind, Except.bind]

@[simp] theorem except_bind_ok (a : α) (f : α → Except Error β) :
    ((.ok a : Except Error α) >>= f) = f a := rfl

@[simp] theorem except_bind_error (e : Error) (f : α → Except Error β) :
    ((.error e : Except Error α) >>= f) = .error e := rfl

theorem except_map_eq_ok {m : Except Error α} {f : α → β} {b : β} :
    m.map f = .ok b ↔ ∃ a, m = .ok a ∧ f a = b := by
  rcases m with e | a
  · simp [Except.map]
  · simp [Except.map]

/-- Whether a computation fails with a given error can be found out. -/
instance decidableEqError (m : Except Error α) (e : Error) : Decidable (m = .error e) :=
  match m with
  | .ok _ => isFalse fun h => by cases h
  | .error e' => decidable_of_iff (e' = e) ⟨fun h => h ▸ rfl, fun h => by cases h; rfl⟩

/-- Whether a computation succeeds with a value of some property can be found
out. -/
instance decidableExistsOk (m : Except Error α) (p : α → Prop) [DecidablePred p] :
    Decidable (∃ a, m = .ok a ∧ p a) :=
  match m with
  | .error _ => isFalse fun ⟨_, h, _⟩ => by cases h
  | .ok a => decidable_of_iff (p a) ⟨fun h => ⟨a, rfl, h⟩, fun ⟨_, h, hp⟩ => by cases h; exact hp⟩

/-- A list is gone through successfully if each member is. -/
theorem mapM_eq_ok_map {xs : List α} {f : α → Except Error β} {g : α → β}
    (h : ∀ x ∈ xs, f x = .ok (g x)) : xs.mapM f = .ok (xs.map g) := by
  induction xs with
  | nil => rfl
  | cons x xs ih =>
    rw [List.mapM_cons, h x List.mem_cons_self, ih fun y hy => h y (List.mem_cons_of_mem x hy)]
    rfl

/-- Going through a list depends on what is done with its members alone. -/
theorem mapM_congr {xs : List α} {f g : α → Except Error β} (h : ∀ x ∈ xs, f x = g x) :
    xs.mapM f = xs.mapM g := by
  induction xs with
  | nil => rfl
  | cons x xs ih =>
    rw [List.mapM_cons, List.mapM_cons, h x List.mem_cons_self,
      ih fun y hy => h y (List.mem_cons_of_mem x hy)]

/-- Inversion of going through a nonempty list. -/
theorem mapM_cons_eq_ok {x : α} {xs : List α} {f : α → Except Error β} {ys : List β} :
    (x :: xs).mapM f = .ok ys ↔ ∃ y zs, f x = .ok y ∧ xs.mapM f = .ok zs ∧ ys = y :: zs := by
  rw [List.mapM_cons]
  constructor
  · intro h
    obtain ⟨y, hy, h⟩ := except_bind_eq_ok.mp h
    obtain ⟨zs, hzs, h⟩ := except_bind_eq_ok.mp h
    cases h
    exact ⟨y, zs, hy, hzs, rfl⟩
  · rintro ⟨y, zs, hy, hzs, rfl⟩
    rw [hy, hzs]
    rfl

/-- Going through a list succeeds if each member does. -/
theorem mapM_total {xs : List α} {f : α → Except Error β} (h : ∀ x ∈ xs, ∃ y, f x = .ok y) :
    ∃ ys, xs.mapM f = .ok ys := by
  induction xs with
  | nil => exact ⟨[], rfl⟩
  | cons x xs ih =>
    obtain ⟨y, hy⟩ := h x List.mem_cons_self
    obtain ⟨ys, hys⟩ := ih fun z hz => h z (List.mem_cons_of_mem x hz)
    exact ⟨y :: ys, mapM_cons_eq_ok.mpr ⟨y, ys, hy, hys, rfl⟩⟩

/-- Going through a list fails as one of its members does. -/
theorem mapM_eq_error {xs : List α} {f : α → Except Error β} {e : Error}
    (h : xs.mapM f = .error e) : ∃ x ∈ xs, f x = .error e := by
  induction xs with
  | nil => cases h
  | cons x xs ih =>
    rw [List.mapM_cons] at h
    rcases except_bind_eq_error.mp h with h | ⟨y, -, h⟩
    · exact ⟨x, List.mem_cons_self, h⟩
    · rcases except_bind_eq_error.mp h with h | ⟨ys, -, h⟩
      · obtain ⟨z, hz, hfail⟩ := ih h
        exact ⟨z, List.mem_cons_of_mem x hz, hfail⟩
      · cases h

/-- Checking every member of a list. -/
theorem forM_eq_ok {xs : List α} {f : α → Except Error Unit} :
    xs.forM f = .ok () ↔ ∀ x ∈ xs, f x = .ok () := by
  induction xs with
  | nil => simp [pure, Except.pure]
  | cons x xs ih =>
    show (f x >>= fun _ => xs.forM f) = _ ↔ _
    rw [except_bind_eq_ok, List.forall_mem_cons, ih]
    constructor
    · rintro ⟨⟨⟩, hx, hxs⟩
      exact ⟨hx, hxs⟩
    · rintro ⟨hx, hxs⟩
      exact ⟨⟨⟩, hx, hxs⟩

/-- Going through a list with a state that does not show, as long as it has an
invariant. -/
theorem exec_mapM_eq {σ : Type} {I : σ → Prop} {xs : List α} {f : α → Exec σ β}
    {g : α → Except Error β} (h : ∀ x ∈ xs, ∀ s, I s → ∃ t, f x s = (g x, t) ∧ I t) {s : σ}
    (hs : I s) : ∃ t, xs.mapM f s = (xs.mapM g, t) ∧ I t := by
  induction xs generalizing s with
  | nil => exact ⟨s, rfl, hs⟩
  | cons x xs ih =>
    obtain ⟨t, hx, ht⟩ := h x List.mem_cons_self s hs
    obtain ⟨u, hxs, hu⟩ := ih (fun y hy => h y (List.mem_cons_of_mem x hy)) ht
    rw [List.mapM_cons, List.mapM_cons, Exec.bind_apply, hx]
    rcases g x with e | y
    · exact ⟨t, rfl, ht⟩
    · refine ⟨u, ?_, hu⟩
      simp only [Exec.bind_apply, hxs]
      rcases xs.mapM g with e | ys
      · rfl
      · rfl

/-- It succeeds if each member does from every state with the invariant. -/
theorem exec_mapM_eq_ok_map {σ : Type} {I : σ → Prop} {xs : List α} {f : α → Exec σ β} {g : α → β}
    (h : ∀ x ∈ xs, ∀ s, I s → ∃ t, f x s = (.ok (g x), t) ∧ I t) {s : σ} (hs : I s) :
    ∃ t, xs.mapM f s = (.ok (xs.map g), t) ∧ I t := by
  have hmap : (xs.mapM fun x => (.ok (g x) : Except Error β)) = .ok (xs.map g) :=
    mapM_eq_ok_map fun _ _ => rfl
  rw [← hmap]
  exact exec_mapM_eq h hs

end ArrayFusion
