/-
ArrayFusion/Exec.lean

Computations on a state that may fail.  A failing computation keeps what it
did to the state before it failed, so that "a failure changes nothing" is
something to prove and not something the types give away.
-/
import ArrayFusion.Error

namespace ArrayFusion

/-- A computation on states of type `σ`: a value or an error, and the state
it leaves behind. -/
def Exec (σ α : Type) : Type :=
  σ → Except Error α × σ

namespace Exec

variable {σ α β : Type}

/-- Succeeds and leaves the state alone. -/
protected def pure (a : α) : Exec σ α :=
  fun s => (.ok a, s)

/-- Runs one computation after another; an error ends the run. -/
protected def bind (m : Exec σ α) (f : α → Exec σ β) : Exec σ β :=
  fun s =>
    match m s with
    | (.ok a, t) => f a t
    | (.error e, t) => (.error e, t)

instance : Monad (Exec σ) where
  pure := Exec.pure
  bind := Exec.bind

/-- The current state. -/
def get : Exec σ σ :=
  fun s => (.ok s, s)

/-- Replaces the state. -/
def set (s : σ) : Exec σ Unit :=
  fun _ => (.ok (), s)

/-- Fails and leaves the state alone. -/
def fail (e : Error) : Exec σ α :=
  fun s => (.error e, s)

/-- A check or calculation that does not touch the state. -/
def lift (r : Except Error α) : Exec σ α :=
  fun s => (r, s)

/-! ### Equations -/

@[simp] theorem pure_apply (a : α) (s : σ) : (pure a : Exec σ α) s = (.ok a, s) := rfl

@[simp] theorem get_apply (s : σ) : (get : Exec σ σ) s = (.ok s, s) := rfl

@[simp] theorem set_apply (t s : σ) : (set t : Exec σ Unit) s = (.ok (), t) := rfl

@[simp] theorem fail_apply (e : Error) (s : σ) : (fail e : Exec σ α) s = (.error e, s) := rfl

@[simp] theorem lift_apply (r : Except Error α) (s : σ) : (lift r : Exec σ α) s = (r, s) := rfl

theorem bind_apply (m : Exec σ α) (f : α → Exec σ β) (s : σ) :
    (m >>= f) s =
      match m s with
      | (.ok a, t) => f a t
      | (.error e, t) => (.error e, t) := rfl

theorem id_map_eq (m : Exec σ α) : id <$> m = m := by
  funext s
  show Exec.bind m (fun a => Exec.pure (id a)) s = m s
  unfold Exec.bind
  rcases m s with ⟨_ | a, t⟩ <;> rfl

theorem bind_bind {γ : Type} (m : Exec σ α) (f : α → Exec σ β) (g : β → Exec σ γ) :
    m >>= f >>= g = m >>= fun a => f a >>= g := by
  funext s
  simp only [bind_apply]
  rcases m s with ⟨_ | a, t⟩ <;> rfl

instance : LawfulMonad (Exec σ) :=
  LawfulMonad.mk' (Exec σ) id_map_eq (fun _ _ => rfl) bind_bind

/-- Inversion of a successful sequence. -/
theorem bind_eq_ok {m : Exec σ α} {f : α → Exec σ β} {s t : σ} {b : β} :
    (m >>= f) s = (.ok b, t) ↔ ∃ a u, m s = (.ok a, u) ∧ f a u = (.ok b, t) := by
  rw [bind_apply]
  rcases m s with ⟨_ | a, u⟩
  · simp
  · constructor
    · intro h
      exact ⟨a, u, rfl, h⟩
    · rintro ⟨a', u', h, hf⟩
      cases h
      exact hf

/-- Inversion of a failing sequence. -/
theorem bind_eq_error {m : Exec σ α} {f : α → Exec σ β} {s t : σ} {e : Error} :
    (m >>= f) s = (.error e, t) ↔
      m s = (.error e, t) ∨ ∃ a u, m s = (.ok a, u) ∧ f a u = (.error e, t) := by
  rw [bind_apply]
  rcases m s with ⟨_ | a, u⟩
  · simp
  · constructor
    · intro h
      exact .inr ⟨a, u, rfl, h⟩
    · rintro (h | ⟨a', u', h, hf⟩)
      · cases h
      · cases h
        exact hf

end Exec

end ArrayFusion
