/-
ArrayFusion/Proofs/Lockstep.lean

Two runs of one body side by side: one on real values, one that records.

Design.  The recording goes on where the real run has to stop, because it
does not know any shapes.  So the two runs agree in one of four ways
(`Agrees`): the recording gives up; the real run has failed, and what was
recorded by then accounts for the failure; both fail alike; or both go on.
What was recorded accounts for a failure from then on, whatever is recorded
later (`stays`).

Main result: if the operations agree, bodies do (`Simulates.run`).
-/
import ArrayFusion.Proofs.Body
import ArrayFusion.Proofs.Lists

namespace ArrayFusion

/-- How the states and values of two runs correspond.  A world, of type `Ω`,
says which values have been made so far. -/
structure Lockstep (Ω σ V τ W : Type) where
  le : Ω → Ω → Prop
  /-- States correspond. -/
  rel : Ω → σ → τ → Prop
  /-- Values correspond. -/
  val : Ω → V → W → Prop
  /-- The recording accounts for a failure of the real run. -/
  lost : τ → Error → Prop

variable {Ω σ V τ W α β γ δ : Type}

namespace Lockstep

variable (L : Lockstep Ω σ V τ W)

/-- How the ends of two computations agree. -/
inductive Agrees (w : Ω) (Q : Ω → α → β → Prop) :
    Except Error α × σ → Except Error β × τ → Prop
  | traced {e : Error} {m : Except Error α × σ} {t : τ} (trace : e.isTrace = true) :
      Agrees w Q m (.error e, t)
  | lost {e : Error} {s : σ} {n : Except Error β × τ} (lost : L.lost n.2 e) :
      Agrees w Q (.error e, s) n
  | failed {e : Error} {s : σ} {t : τ} {w' : Ω} (le : L.le w w') (rel : L.rel w' s t) :
      Agrees w Q (.error e, s) (.error e, t)
  | done {a : α} {b : β} {s : σ} {t : τ} {w' : Ω} (le : L.le w w') (rel : L.rel w' s t)
      (values : Q w' a b) : Agrees w Q (.ok a, s) (.ok b, t)

end Lockstep

/-- Results of two calculations that do not touch the state: the same
failure, or values that correspond. -/
inductive ExceptRel (Q : α → β → Prop) : Except Error α → Except Error β → Prop
  | error (e : Error) : ExceptRel Q (.error e) (.error e)
  | ok {a : α} {b : β} (h : Q a b) : ExceptRel Q (.ok a) (.ok b)

/-- Returned values of one form that correspond. -/
inductive Returned.Rel (Q : α → β → Prop) : Returned α → Returned β → Prop
  | none : Returned.Rel Q .none .none
  | single {a : α} {b : β} (h : Q a b) : Returned.Rel Q (.single a) (.single b)
  | tuple {as : List α} {bs : List β} (h : List.Forall₂ Q as bs) :
      Returned.Rel Q (.tuple as) (.tuple bs)

theorem Returned.Rel.toList {Q : α → β → Prop} {r : Returned α} {r' : Returned β}
    (h : Returned.Rel Q r r') : List.Forall₂ Q r.toList r'.toList := by
  cases h with
  | none => exact .nil
  | single h => exact .cons h .nil
  | tuple h => exact h

theorem Returned.Rel.arity {Q : α → β → Prop} {r : Returned α} {r' : Returned β}
    (h : Returned.Rel Q r r') : r.arity = r'.arity := by
  cases h with
  | none => rfl
  | single h => rfl
  | tuple h => rw [Returned.arity, Returned.arity, h.length_eq]

/-! ### Variables that correspond -/

/-- The same names with values that correspond. -/
def Variables.Rel (Q : V → W → Prop) (vars : Variables V) (vars' : Variables W) : Prop :=
  List.Forall₂ (fun p q => p.1 = q.1 ∧ Q p.2 q.2) vars vars'

namespace Variables

variable {Q : V → W → Prop} {vars : Variables V} {vars' : Variables W}

theorem Rel.fetch (h : vars.Rel Q vars') (x : String) :
    ExceptRel Q (vars.fetch x) (vars'.fetch x) := by
  unfold Variables.fetch
  induction h with
  | nil => exact .error _
  | @cons p q vars vars' hpq _ ih =>
    rw [List.lookup_cons, List.lookup_cons, hpq.1]
    cases x == q.1 with
    | true => exact .ok hpq.2
    | false => exact ih

end Variables

theorem ExceptRel.map {Q : α → β → Prop} {R : γ → δ → Prop} {m : Except Error α}
    {n : Except Error β} {f : α → γ} {g : β → δ} (h : ExceptRel Q m n)
    (hfg : ∀ a b, Q a b → R (f a) (g b)) :
    ExceptRel R (do return f (← m)) (do return g (← n)) := by
  cases h with
  | error e => exact .error e
  | ok hab => exact .ok (hfg _ _ hab)

theorem ExceptRel.mapM {Q : α → β → Prop} {xs : List γ} {f : γ → Except Error α}
    {g : γ → Except Error β} (h : ∀ x, ExceptRel Q (f x) (g x)) :
    ExceptRel (List.Forall₂ Q) (xs.mapM f) (xs.mapM g) := by
  induction xs with
  | nil => exact .ok .nil
  | cons x xs ih =>
    have hx := h x
    rw [List.mapM_cons, List.mapM_cons]
    generalize f x = a at hx
    generalize g x = b at hx
    cases hx with
    | error e => exact .error e
    | ok hab => exact ih.map fun as bs hs => .cons hab hs

/-- Two states that are carried through a list and stay related. -/
theorem ExceptRel.foldlM {xs : List γ} {f : α → γ → Except Error α} {g : β → γ → Except Error β}
    {Q : Nat → α → β → Prop}
    (step : ∀ (k : Nat) (x : γ) (a : α) (b : β), xs[k]? = some x → Q k a b →
      ExceptRel (Q (k + 1)) (f a x) (g b x)) {a : α} {b : β} (start : Q 0 a b) :
    ExceptRel (Q xs.length) (xs.foldlM f a) (xs.foldlM g b) := by
  induction xs generalizing Q a b with
  | nil => exact .ok start
  | cons x xs ih =>
    have hx := step 0 x a b rfl start
    rw [List.foldlM_cons, List.foldlM_cons]
    generalize f a x = m at hx
    generalize g b x = n at hx
    cases hx with
    | error e => exact .error e
    | ok hab => exact ih (fun k y => step (k + 1) y) hab

namespace Variables

variable {Q : V → W → Prop} {vars : Variables V} {vars' : Variables W}

theorem Rel.fetchAll (h : vars.Rel Q vars') (xs : List String) :
    ExceptRel (List.Forall₂ Q) (vars.fetchAll xs) (vars'.fetchAll xs) :=
  ExceptRel.mapM h.fetch

theorem Rel.fetchArgs (h : vars.Rel Q vars') (xs : List (Option String)) :
    ExceptRel (List.Forall₂ (Option.Rel Q)) (vars.fetchArgs xs) (vars'.fetchArgs xs) := by
  refine ExceptRel.mapM ?_
  intro x
  cases x with
  | none => exact .ok .none
  | some x => exact (h.fetch x).map fun _ _ hv => .some hv

theorem Rel.fetchReturned (h : vars.Rel Q vars') (r : Returned String) :
    ExceptRel (Returned.Rel Q) (vars.fetchReturned r) (vars'.fetchReturned r) := by
  cases r with
  | none => exact .ok .none
  | single x => exact (h.fetch x).map fun _ _ hv => .single hv
  | tuple xs => exact (h.fetchAll xs).map fun _ _ hv => .tuple hv

theorem Rel.bind (h : vars.Rel Q vars') (b : Binder) {values : List V} {values' : List W}
    (hv : List.Forall₂ Q values values') :
    Variables.Rel Q (b.bind values vars) (b.bind values' vars') := by
  cases b with
  | drop => exact h
  | one x =>
    cases hv with
    | nil => exact h
    | cons hab _ => exact .cons ⟨rfl, hab⟩ h
  | many xs =>
    refine List.rel_append (List.forall₂_reverse_iff.mpr ?_) h
    induction xs generalizing values values' with
    | nil => exact .nil
    | cons x xs ih =>
      cases hv with
      | nil => exact .nil
      | cons hab hrest => exact .cons ⟨rfl, hab⟩ (ih hrest)

theorem Rel.mono {R : V → W → Prop} (hQR : ∀ v w, Q v w → R v w) (h : vars.Rel Q vars') :
    vars.Rel R vars' :=
  List.Forall₂.imp (fun _ _ hpq => ⟨hpq.1, hQR _ _ hpq.2⟩) h

end Variables

/-- Statements that end alike. -/
inductive Flow.Rel (Q : V → W → Prop) : Flow V → Flow W → Prop
  | next {vars : Variables V} {vars' : Variables W} (h : vars.Rel Q vars') :
      Flow.Rel Q (.next vars) (.next vars')
  | done {r : Returned V} {r' : Returned W} (h : Returned.Rel Q r r') :
      Flow.Rel Q (.done r) (.done r')

theorem Flow.Rel.returned {Q : V → W → Prop} {flow : Flow V} {flow' : Flow W}
    (h : flow.Rel Q flow') : Returned.Rel Q flow.returned flow'.returned := by
  cases h with
  | next h => exact .none
  | done h => exact h

/-! ### What is asked of the operations -/

/-- The operations of two runs agree.  `I`, `M` and `P` are what the recording
keeps on its own. -/
structure Lockstep.Simulates (L : Lockstep Ω σ V τ W) (ops : ArrayOps σ V) (ops' : ArrayOps τ W)
    (I : τ → Prop) (M : τ → τ → Prop) (P : τ → W → Prop) : Prop where
  refl : ∀ w, L.le w w
  trans : ∀ {u v w}, L.le u v → L.le v w → L.le u w
  mono : ∀ {w w' v x}, L.le w w' → L.val w v x → L.val w' v x
  keeps : ops'.Preserves I M P
  inv : ∀ {w s t}, L.rel w s t → I t
  valid : ∀ {w s t v x}, L.rel w s t → L.val w v x → P t x
  stays : ∀ {t u e}, I t → M t u → L.lost t e → L.lost u e
  tag : ops.tag = ops'.tag
  dtype : ∀ {w v x}, L.val w v x → ops.dtype v = ops'.dtype x
  ndim : ∀ {w v x}, L.val w v x → ops.ndim v = ops'.ndim x
  kind : ∀ {w v x}, L.val w v x → ops.kind v = ops'.kind x
  scalar : ∀ {w s t} c, L.rel w s t → L.Agrees w L.val (ops.scalar c s) (ops'.scalar c t)
  ufunc : ∀ {w s t vs xs} f, L.rel w s t → List.Forall₂ (L.val w) vs xs →
    L.Agrees w (fun w => List.Forall₂ (L.val w)) (ops.ufunc f vs s) (ops'.ufunc f xs t)
  ufuncOut : ∀ {w s t vs xs us ys} f, L.rel w s t → List.Forall₂ (L.val w) vs xs →
    List.Forall₂ (L.val w) us ys →
    L.Agrees w (fun w => List.Forall₂ (L.val w)) (ops.ufuncOut f vs us s) (ops'.ufuncOut f xs ys t)
  reduce : ∀ {w s t v x} op axis, L.rel w s t → L.val w v x →
    L.Agrees w L.val (ops.reduce op v axis s) (ops'.reduce op x axis t)
  astype : ∀ {w s t v x} d, L.rel w s t → L.val w v x →
    L.Agrees w L.val (ops.astype v d s) (ops'.astype x d t)
  assign : ∀ {w s t v x u y} region, L.rel w s t → L.val w v x → L.val w u y →
    L.Agrees w (fun _ _ _ => True) (ops.assign v u region s) (ops'.assign x y region t)
  truth : ∀ {w s t v x}, L.rel w s t → L.val w v x →
    L.Agrees w (fun _ a b => a = b) (ops.truth v s) (ops'.truth x t)
  item : ∀ {w s t v x}, L.rel w s t → L.val w v x →
    L.Agrees w (fun _ a b => a = b) (ops.item v s) (ops'.item x t)

namespace Lockstep

variable {L : Lockstep Ω σ V τ W} {ops : ArrayOps σ V} {ops' : ArrayOps τ W} {I : τ → Prop}
  {M : τ → τ → Prop} {P : τ → W → Prop} {s : σ} {t : τ} {w : Ω}

/-! ### Sequences -/

theorem Simulates.pure (h : L.Simulates ops ops' I M P) {Q : Ω → α → β → Prop}
    (hrel : L.rel w s t) {a : α} {b : β} (hab : Q w a b) :
    L.Agrees w Q ((Pure.pure a : Exec σ α) s) ((Pure.pure b : Exec τ β) t) :=
  .done (h.refl w) hrel hab

theorem Simulates.bind (h : L.Simulates ops ops' I M P) {Q : Ω → α → β → Prop}
    {R : Ω → γ → δ → Prop} {m : Exec σ α} {n : Exec τ β} {f : α → Exec σ γ}
    {g : β → Exec τ δ} (hm : L.Agrees w Q (m s) (n t))
    (hlost : ∀ b u e, n t = (.ok b, u) → L.lost u e → L.lost (g b u).2 e)
    (hf : ∀ w' a b s' t', L.le w w' → L.rel w' s' t' → Q w' a b →
      L.Agrees w' R (f a s') (g b t')) :
    L.Agrees w R ((m >>= f) s) ((n >>= g) t) := by
  rw [Exec.bind_apply, Exec.bind_apply]
  generalize hms : m s = x at hm
  generalize hnt : n t = y at hm
  cases hm with
  | traced trace => exact .traced trace
  | @lost e _ _ hl =>
    apply Agrees.lost
    rcases y with ⟨e' | b, u⟩
    · exact hl
    · exact hlost b u e hnt hl
  | failed le rel => exact .failed le rel
  | done le rel values =>
    -- the worlds met after the first step are met after both
    rename_i a b s' t' w'
    have hnext := hf w' a b s' t' le rel values
    dsimp only
    generalize f a s' = x at hnext
    generalize g b t' = y at hnext
    cases hnext with
    | traced trace => exact .traced trace
    | lost lost => exact .lost lost
    | failed le' rel' => exact .failed (h.trans le le') rel'
    | done le' rel' values' => exact .done (h.trans le le') rel' values'

/-- A calculation first, which does not touch the states. -/
theorem Simulates.bindLift (h : L.Simulates ops ops' I M P) {Q : α → β → Prop}
    {R : Ω → γ → δ → Prop} {m : Except Error α} {n : Except Error β} {f : α → Exec σ γ}
    {g : β → Exec τ δ} (hrel : L.rel w s t) (hm : ExceptRel Q m n)
    (hf : ∀ a b, Q a b → L.Agrees w R (f a s) (g b t)) :
    L.Agrees w R ((Exec.lift m >>= f) s) ((Exec.lift n >>= g) t) := by
  cases hm with
  | error e => exact .failed (h.refl w) hrel
  | ok hab => exact hf _ _ hab

/-- Values computed last. -/
theorem Simulates.bindPure (h : L.Simulates ops ops' I M P) {Q : Ω → α → β → Prop}
    {R : Ω → γ → δ → Prop} {m : Exec σ α} {n : Exec τ β} {f : α → γ} {g : β → δ}
    (hm : L.Agrees w Q (m s) (n t))
    (hf : ∀ w' a b, L.le w w' → Q w' a b → R w' (f a) (g b)) :
    L.Agrees w R ((m >>= fun a => Pure.pure (f a)) s) ((n >>= fun b => Pure.pure (g b)) t) :=
  h.bind hm (fun _ _ _ _ hl => hl) fun w' a b _ _ hle hrel hab =>
    h.pure hrel (hf w' a b hle hab)

theorem Simulates.inplace (h : L.Simulates ops ops' I M P) (f : Ufunc) {v u : V} {x y : W}
    (hrel : L.rel w s t) (hv : L.val w v x) (hu : L.val w u y) :
    L.Agrees w (fun w => List.Forall₂ (L.val w)) (ops.inplace f v u s)
      (ops'.inplace f x y t) := by
  have hins : List.Forall₂ (L.val w) [v, u] [x, y] := .cons hv (.cons hu .nil)
  unfold ArrayOps.inplace
  rw [h.kind hv]
  cases ops'.kind x with
  | array =>
    exact h.bindPure (h.ufuncOut f hrel hins (.cons hv .nil)) fun w' _ _ hle _ =>
      .cons (h.mono hle hv) .nil
  | scalar => exact h.bindPure (h.ufunc f hrel hins) fun w' _ _ _ hus => List.forall₂_take 1 hus
  | absent => exact h.bindPure (h.ufunc f hrel hins) fun w' _ _ _ hus => List.forall₂_take 1 hus

/-! ### Bodies -/

/-- Arguments that correspond are present alike. -/
theorem isSome_eq {Q : V → W → Prop} {args : List (Option V)} {args' : List (Option W)}
    (h : List.Forall₂ (Option.Rel Q) args args') (i : Nat) :
    (args[i]?).join.isSome = (args'[i]?).join.isSome := by
  rcases e : args[i]? with - | o
  · rw [List.getElem?_eq_none (by rw [← h.length_eq]; exact List.getElem?_eq_none_iff.mp e)]
    rfl
  · obtain ⟨o', ho', hrel⟩ := forall₂_getElem? h e
    rw [ho']
    cases hrel <;> rfl

/-- A required argument is there on both sides, or the recording gives up. -/
theorem requiredArg_cases {Q : V → W → Prop} {args : List (Option V)} {args' : List (Option W)}
    (h : List.Forall₂ (Option.Rel Q) args args') (i : Nat) :
    (∃ e, requiredArg args' i = .error e ∧ e.isTrace = true) ∨
      ∃ v x, requiredArg args i = .ok v ∧ requiredArg args' i = .ok x ∧ Q v x := by
  rcases e : args'[i]? with - | - | x
  · exact .inl ⟨_, by rw [requiredArg, e], rfl⟩
  · exact .inl ⟨_, by rw [requiredArg, e], rfl⟩
  · obtain ⟨o, ho, hrel⟩ := forall₂_getElem?_right h e
    cases hrel with
    | @some v _ hval => exact .inr ⟨v, x, by rw [requiredArg, ho], by rw [requiredArg, e], hval⟩

theorem Simulates.validArgs (h : L.Simulates ops ops' I M P) (hrel : L.rel w s t)
    {args : List (Option V)} {args' : List (Option W)}
    (ha : List.Forall₂ (Option.Rel (L.val w)) args args') : ArgsAll (P t) args' := by
  intro x hx
  obtain ⟨k, hk⟩ := List.getElem?_of_mem hx
  obtain ⟨o, -, ho⟩ := forall₂_getElem?_right ha hk
  cases ho with
  | some hv => exact h.valid hrel hv

theorem Simulates.validVars (h : L.Simulates ops ops' I M P) (hrel : L.rel w s t)
    {vars : Variables V} {vars' : Variables W} (hv : vars.Rel (L.val w) vars') :
    vars'.All (P t) := by
  intro p hp
  obtain ⟨k, hk⟩ := List.getElem?_of_mem hp
  obtain ⟨q, -, -, hq⟩ := forall₂_getElem?_right hv hk
  exact h.valid hrel hq

theorem Simulates.monoArgs (h : L.Simulates ops ops' I M P) {w' : Ω} (hle : L.le w w')
    {args : List (Option V)} {args' : List (Option W)}
    (ha : List.Forall₂ (Option.Rel (L.val w)) args args') :
    List.Forall₂ (Option.Rel (L.val w')) args args' := by
  refine List.Forall₂.imp ?_ ha
  intro o o' ho
  cases ho with
  | none => exact .none
  | some hv => exact .some (h.mono hle hv)

theorem Simulates.monoVars (h : L.Simulates ops ops' I M P) {w' : Ω} (hle : L.le w w')
    {vars : Variables V} {vars' : Variables W} (hv : vars.Rel (L.val w) vars') :
    vars.Rel (L.val w') vars' :=
  hv.mono fun _ _ => h.mono hle

/-- Both runs take the same branch, or the recording gives up. -/
theorem Simulates.holds (h : L.Simulates ops ops' I M P) (hrel : L.rel w s t)
    {args : List (Option V)} {args' : List (Option W)}
    (ha : List.Forall₂ (Option.Rel (L.val w)) args args') {vars : Variables V}
    {vars' : Variables W} (hv : vars.Rel (L.val w) vars') (test : Test) :
    L.Agrees w (fun _ a b => a = b) (test.holds ops args vars s)
      (test.holds ops' args' vars' t) := by
  cases test with
  | present i => exact h.pure hrel (isSome_eq ha i)
  | backend tag => exact h.pure hrel (by rw [h.tag])
  | kind x k => exact h.bindLift hrel (hv.fetch x) fun _ _ hab => h.pure hrel (by rw [h.kind hab])
  | dtype x d => exact h.bindLift hrel (hv.fetch x) fun _ _ hab => h.pure hrel (by rw [h.dtype hab])
  | ndim x n => exact h.bindLift hrel (hv.fetch x) fun _ _ hab => h.pure hrel (by rw [h.ndim hab])
  | truth x => exact h.bindLift hrel (hv.fetch x) fun _ _ hab => h.truth hrel hab

/-- The last step of most statements: produced values are bound. -/
theorem Simulates.next (h : L.Simulates ops ops' I M P) {m : Exec σ (List V)}
    {n : Exec τ (List W)} {dest : Binder} {vars : Variables V} {vars' : Variables W}
    (hv : vars.Rel (L.val w) vars')
    (hm : L.Agrees w (fun w => List.Forall₂ (L.val w)) (m s) (n t)) :
    L.Agrees w (fun w => Flow.Rel (L.val w))
      ((do let values ← m; return Flow.next (dest.bind values vars) : Exec σ _) s)
      ((do let values ← n; return Flow.next (dest.bind values vars') : Exec τ _) t) :=
  h.bindPure hm fun _ _ _ hle hus => .next ((h.monoVars hle hv).bind dest hus)

/-- The same for a single value. -/
theorem Simulates.nextOne (h : L.Simulates ops ops' I M P) {m : Exec σ V} {n : Exec τ W}
    {dest : Binder} {vars : Variables V} {vars' : Variables W} (hv : vars.Rel (L.val w) vars')
    (hm : L.Agrees w L.val (m s) (n t)) :
    L.Agrees w (fun w => Flow.Rel (L.val w))
      ((do let v ← m; return Flow.next (dest.bind [v] vars) : Exec σ _) s)
      ((do let x ← n; return Flow.next (dest.bind [x] vars') : Exec τ _) t) :=
  h.bindPure hm fun _ _ _ hle hab => .next ((h.monoVars hle hv).bind dest (.cons hab .nil))

mutual

/-- Statements agree if operations do. -/
theorem Simulates.stmt (h : L.Simulates ops ops' I M P) {s : σ} {t : τ} {w : Ω}
    (hrel : L.rel w s t) {args : List (Option V)} {args' : List (Option W)}
    (ha : List.Forall₂ (Option.Rel (L.val w)) args args') {vars : Variables V}
    {vars' : Variables W} (hv : vars.Rel (L.val w) vars') :
    ∀ stmt : Stmt, L.Agrees w (fun w => Flow.Rel (L.val w)) (runStmt ops args vars stmt s)
      (runStmt ops' args' vars' stmt t)
  | .ret value => by
    rw [runStmt, runStmt]
    exact h.bindLift hrel (hv.fetchReturned value) fun _ _ hr => h.pure hrel (.done hr)
  | .branch test yes no => by
    rw [runStmt, runStmt]
    have hargs := h.validArgs hrel ha
    have hvars := h.validVars hrel hv
    refine h.bind (h.holds hrel ha hv test) ?_ ?_
    · -- what was lost in the test is still lost after the branch
      intro b u e hb hl
      have hkeeps : (test.holds ops' args' vars').Keeps I M (fun _ _ => True) t :=
        h.keeps.holds (h.inv hrel) hvars test
      obtain ⟨hI, hM, -⟩ := hkeeps
      rw [hb] at hI hM
      cases b with
      | true =>
        exact h.stays hI (h.keeps.block hI (hargs.mono h.keeps hM) (hvars.mono h.keeps hM) yes).2.1 hl
      | false =>
        exact h.stays hI (h.keeps.block hI (hargs.mono h.keeps hM) (hvars.mono h.keeps hM) no).2.1 hl
    · rintro w' a b s' t' hle hrel' rfl
      cases a with
      | true => exact h.block hrel' (h.monoArgs hle ha) (h.monoVars hle hv) yes
      | false => exact h.block hrel' (h.monoArgs hle ha) (h.monoVars hle hv) no
  | .arg dest index => by
    rw [runStmt, runStmt]
    rcases requiredArg_cases ha index with ⟨e, he, htrace⟩ | ⟨v, x, hreq, hreq', hval⟩
    · rw [he]
      exact .traced htrace
    · rw [hreq, hreq']
      exact h.pure hrel (.next (hv.bind dest (.cons hval .nil)))
  | .const dest value => by
    rw [runStmt, runStmt]
    exact h.nextOne hv (h.scalar value hrel)
  | .synonym dest x => by
    rw [runStmt, runStmt]
    exact h.bindLift hrel (hv.fetch x) fun _ _ hab =>
      h.pure hrel (.next (hv.bind dest (.cons hab .nil)))
  | .ufunc dest f inputs none => by
    rw [runStmt, runStmt]
    exact h.bindLift hrel (hv.fetchAll inputs) fun _ _ hab => h.next hv (h.ufunc f hrel hab)
  | .ufunc dest f inputs (some outs) => by
    rw [runStmt, runStmt]
    refine h.bindLift hrel (hv.fetchAll inputs) fun _ _ hins => ?_
    exact h.bindLift hrel (hv.fetchAll outs) fun _ _ hab => h.next hv (h.ufuncOut f hrel hins hab)
  | .inplace dest f target other => by
    rw [runStmt, runStmt]
    refine h.bindLift hrel (hv.fetch target) fun _ _ htgt => ?_
    exact h.bindLift hrel (hv.fetch other) fun _ _ hab => h.next hv (h.inplace f hrel htgt hab)
  | .reduce dest op x axis => by
    rw [runStmt, runStmt]
    exact h.bindLift hrel (hv.fetch x) fun _ _ hab => h.nextOne hv (h.reduce op axis hrel hab)
  | .astype dest dtype x => by
    rw [runStmt, runStmt]
    exact h.bindLift hrel (hv.fetch x) fun _ _ hab => h.nextOne hv (h.astype dtype hrel hab)
  | .assign target source region => by
    rw [runStmt, runStmt]
    refine h.bindLift hrel (hv.fetch target) fun _ _ htgt => ?_
    refine h.bindLift hrel (hv.fetch source) fun _ _ hsrc => ?_
    exact h.bindPure (h.assign region hrel htgt hsrc) fun _ _ _ hle _ =>
      .next (h.monoVars hle hv)
  | .item dest x => by
    rw [runStmt, runStmt]
    refine h.bindLift hrel (hv.fetch x) fun v y hab => ?_
    refine h.bind (h.item hrel hab) ?_ ?_
    · -- as for a test: binding the item finds nothing again
      intro c u e hc hl
      obtain ⟨hI, hM, -⟩ := h.keeps.item (h.inv hrel) (h.valid hrel hab)
      rw [hc] at hI hM
      exact h.stays hI
        (h.keeps.nextOne ((h.validVars hrel hv).mono h.keeps hM) (h.keeps.scalar c hI)).2.1 hl
    · rintro w' a b s' t' hle hrel' rfl
      exact h.nextOne (h.monoVars hle hv) (h.scalar a hrel')
  | .call dest callee names => by
    rw [runStmt, runStmt]
    refine h.bindLift hrel (hv.fetchArgs names) fun _ _ hargs => ?_
    exact h.bindPure (h.block hrel hargs .nil callee) fun _ _ _ hle hflow =>
      .next ((h.monoVars hle hv).bind dest hflow.returned.toList)
  | .raise reason => by
    rw [runStmt, runStmt]
    exact .traced rfl

/-- Blocks agree if operations do. -/
theorem Simulates.block (h : L.Simulates ops ops' I M P) {s : σ} {t : τ} {w : Ω}
    (hrel : L.rel w s t) {args : List (Option V)} {args' : List (Option W)}
    (ha : List.Forall₂ (Option.Rel (L.val w)) args args') {vars : Variables V}
    {vars' : Variables W} (hv : vars.Rel (L.val w) vars') :
    ∀ body : List Stmt, L.Agrees w (fun w => Flow.Rel (L.val w)) (runBlock ops args vars body s)
      (runBlock ops' args' vars' body t)
  | [] => by
    rw [runBlock, runBlock]
    exact h.pure hrel (.next hv)
  | stmt :: rest => by
    rw [runBlock, runBlock]
    have hargs := h.validArgs hrel ha
    refine h.bind (h.stmt hrel ha hv stmt) ?_ ?_
    · -- what was lost in the statement is still lost after the rest
      intro flow u e hflow hl
      obtain ⟨hI, hM, hall⟩ := h.keeps.stmt (h.inv hrel) hargs (h.validVars hrel hv) stmt
      rw [hflow] at hI hM hall
      cases flow with
      | next vars₂ =>
        exact h.stays hI (h.keeps.block hI (hargs.mono h.keeps hM) (hall _ rfl) rest).2.1 hl
      | done r => exact hl
    · rintro w' flow flow' s' t' hle hrel' hflow
      cases hflow with
      | next hv' => exact h.block hrel' (h.monoArgs hle ha) hv' rest
      | done hr => exact h.pure hrel' (.done hr)

end

/-- Functions agree if operations do. -/
theorem Simulates.run (h : L.Simulates ops ops' I M P) (fn : Function) (hrel : L.rel w s t)
    {args : List (Option V)} {args' : List (Option W)}
    (ha : List.Forall₂ (Option.Rel (L.val w)) args args') :
    L.Agrees w (fun w => Returned.Rel (L.val w)) (fn.run ops args s) (fn.run ops' args' t) :=
  h.bindPure (h.block hrel ha .nil fn.body) fun _ _ _ _ hflow => hflow.returned

end Lockstep

end ArrayFusion
