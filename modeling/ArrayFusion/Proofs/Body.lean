/-
ArrayFusion/Proofs/Body.lean

What every operation preserves, every body preserves.

Design.  `ArrayOps.Preserves` collects what is asked of the operations: an
invariant of states, an order of states in which they only go up, and a
property of values that stays true on the way up.  The two main results are
one induction along the statements of a body.
-/
import ArrayFusion.Body.Run
import ArrayFusion.Proofs.Except

namespace ArrayFusion

variable {σ V α β : Type}

/-! ### Computations that keep an invariant -/

/-- The computation ends in a state that satisfies the invariant and is above
the one it starts from; a result satisfies `Q` there. -/
def Exec.Keeps (I : σ → Prop) (L : σ → σ → Prop) (m : Exec σ α) (Q : σ → α → Prop) (s : σ) :
    Prop :=
  I (m s).2 ∧ L s (m s).2 ∧ ∀ a, (m s).1 = .ok a → Q (m s).2 a

/-- What is asked of the operations. -/
structure ArrayOps.Preserves (ops : ArrayOps σ V) (I : σ → Prop) (L : σ → σ → Prop)
    (P : σ → V → Prop) : Prop where
  refl : ∀ s, L s s
  trans : ∀ {s t u}, L s t → L t u → L s u
  mono : ∀ {s t v}, L s t → P s v → P t v
  scalar : ∀ {s} c, I s → (ops.scalar c).Keeps I L P s
  ufunc : ∀ {s f vs}, I s → (∀ v ∈ vs, P s v) →
    (ops.ufunc f vs).Keeps I L (fun t us => ∀ u ∈ us, P t u) s
  ufuncOut : ∀ {s f vs outs}, I s → (∀ v ∈ vs, P s v) → (∀ v ∈ outs, P s v) →
    (ops.ufuncOut f vs outs).Keeps I L (fun t us => ∀ u ∈ us, P t u) s
  reduce : ∀ {s op v axis}, I s → P s v → (ops.reduce op v axis).Keeps I L P s
  astype : ∀ {s v d}, I s → P s v → (ops.astype v d).Keeps I L P s
  assign : ∀ {s v w r}, I s → P s v → P s w → (ops.assign v w r).Keeps I L (fun _ _ => True) s
  truth : ∀ {s v}, I s → P s v → (ops.truth v).Keeps I L (fun _ _ => True) s
  item : ∀ {s v}, I s → P s v → (ops.item v).Keeps I L (fun _ _ => True) s

section

variable {ops : ArrayOps σ V} {I : σ → Prop} {L : σ → σ → Prop} {P : σ → V → Prop}

theorem ArrayOps.Preserves.lift (h : ops.Preserves I L P) {r : Except Error α}
    {Q : σ → α → Prop} {s : σ} (hs : I s) (hq : ∀ a, r = .ok a → Q s a) :
    (Exec.lift r : Exec σ α).Keeps I L Q s :=
  ⟨hs, h.refl s, hq⟩

theorem ArrayOps.Preserves.pure (h : ops.Preserves I L P) {a : α} {Q : σ → α → Prop} {s : σ}
    (hs : I s) (hq : Q s a) : (Pure.pure a : Exec σ α).Keeps I L Q s :=
  ⟨hs, h.refl s, fun _ ha => by cases ha; exact hq⟩

/-- One computation after another. -/
theorem ArrayOps.Preserves.bind (h : ops.Preserves I L P) {m : Exec σ α} {f : α → Exec σ β}
    {Q : σ → α → Prop} {R : σ → β → Prop} {s : σ} (hm : m.Keeps I L Q s)
    (hf : ∀ a t, L s t → I t → Q t a → (f a).Keeps I L R t) : (m >>= f).Keeps I L R s := by
  obtain ⟨hI, hL, hQ⟩ := hm
  unfold Exec.Keeps
  rw [Exec.bind_apply]
  rcases e : m s with ⟨err | a, t⟩
  · rw [e] at hI hL
    exact ⟨hI, hL, fun b hb => by cases hb⟩
  · rw [e] at hI hL hQ
    obtain ⟨hI', hL', hR⟩ := hf a t hL hI (hQ a rfl)
    exact ⟨hI', h.trans hL hL', hR⟩

theorem ArrayOps.Preserves.inplace (h : ops.Preserves I L P) {f : Ufunc} {v w : V} {s : σ}
    (hs : I s) (hv : P s v) (hw : P s w) :
    (ops.inplace f v w).Keeps I L (fun t us => ∀ u ∈ us, P t u) s := by
  have hins : ∀ u ∈ [v, w], P s u := by simp [hv, hw]
  unfold ArrayOps.inplace
  split
  · refine h.bind (h.ufuncOut hs hins (by simp [hv])) ?_
    intro us t hL ht _
    exact h.pure ht (by simpa using h.mono hL hv)
  · refine h.bind (h.ufunc hs hins) ?_
    intro us t _ ht hus
    exact h.pure ht fun u hu => hus u (List.mem_of_mem_take hu)

end

/-! ### Variables -/

/-- All variables satisfy a property. -/
def Variables.All (P : V → Prop) (vars : Variables V) : Prop :=
  ∀ p ∈ vars, P p.2

/-- All arguments that are present satisfy a property. -/
def ArgsAll (P : V → Prop) (args : List (Option V)) : Prop :=
  ∀ v, some v ∈ args → P v

/-- What a statement leaves behind satisfies a property. -/
def Flow.All (P : V → Prop) : Flow V → Prop
  | .next vars => vars.All P
  | .done r => ∀ v ∈ r.toList, P v

namespace Variables

variable {P : V → Prop} {vars : Variables V}

theorem All.fetch (h : vars.All P) {x : String} {v : V} (hv : vars.fetch x = .ok v) : P v := by
  unfold Variables.fetch at hv
  split at hv
  · next w hw =>
    cases hv
    obtain ⟨before, behind, hl, -⟩ := List.lookup_eq_some_iff.mp hw
    exact h (x, v) (by simp [hl])
  · cases hv

theorem All.fetchAll (h : vars.All P) {xs : List String} {vs : List V}
    (hv : vars.fetchAll xs = .ok vs) : ∀ v ∈ vs, P v := by
  unfold Variables.fetchAll at hv
  induction xs generalizing vs with
  | nil =>
    cases hv
    simp
  | cons x xs ih =>
    obtain ⟨v, rest, hx, hxs, rfl⟩ := mapM_cons_eq_ok.mp hv
    intro u hu
    rcases List.mem_cons.mp hu with rfl | hu
    · exact h.fetch hx
    · exact ih hxs u hu

theorem All.fetchArgs (h : vars.All P) {xs : List (Option String)} {args : List (Option V)}
    (hv : vars.fetchArgs xs = .ok args) : ArgsAll P args := by
  unfold Variables.fetchArgs at hv
  induction xs generalizing args with
  | nil =>
    cases hv
    intro v hv
    simp at hv
  | cons x xs ih =>
    obtain ⟨o, rest, hx, hxs, rfl⟩ := mapM_cons_eq_ok.mp hv
    intro v hv
    rcases List.mem_cons.mp hv with rfl | hv
    · cases x with
      | none => cases hx
      | some x =>
        obtain ⟨w, hw, heq⟩ := except_bind_eq_ok.mp hx
        cases heq
        exact h.fetch hw
    · exact ih hxs v hv

theorem All.fetchReturned (h : vars.All P) {r : Returned String} {value : Returned V}
    (hv : vars.fetchReturned r = .ok value) : ∀ v ∈ value.toList, P v := by
  cases r with
  | none =>
    cases hv
    simp [Returned.toList]
  | single x =>
    obtain ⟨w, hw, heq⟩ := except_bind_eq_ok.mp hv
    cases heq
    simpa [Returned.toList] using h.fetch hw
  | tuple xs =>
    obtain ⟨ws, hws, heq⟩ := except_bind_eq_ok.mp hv
    cases heq
    exact h.fetchAll hws

theorem All.bind (h : vars.All P) (b : Binder) {values : List V} (hv : ∀ v ∈ values, P v) :
    Variables.All P (b.bind values vars) := by
  intro p hp
  unfold Binder.bind at hp
  split at hp
  · exact h p hp
  · rcases List.mem_cons.mp hp with rfl | hp
    · exact hv _ List.mem_cons_self
    · exact h p hp
  · exact h p hp
  · rcases List.mem_append.mp hp with hp | hp
    · exact hv _ (List.of_mem_zip (List.mem_reverse.mp hp)).2
    · exact h p hp

end Variables

theorem ArgsAll.requiredArg {P : V → Prop} {args : List (Option V)} (h : ArgsAll P args) {i : Nat}
    {v : V} (hv : requiredArg args i = .ok v) : P v := by
  unfold ArrayFusion.requiredArg at hv
  split at hv
  · next w hw =>
    cases hv
    exact h v (List.mem_of_getElem? hw)
  · cases hv

theorem Flow.All.returned {P : V → Prop} {flow : Flow V} (h : flow.All P) :
    ∀ v ∈ flow.returned.toList, P v := by
  cases flow with
  | next vars =>
    intro v hv
    simp [Flow.returned, Returned.toList] at hv
  | done r => exact h

/-! ### Bodies -/

section

variable {ops : ArrayOps σ V} {I : σ → Prop} {L : σ → σ → Prop} {P : σ → V → Prop}

theorem ArrayOps.Preserves.holds (h : ops.Preserves I L P) {args : List (Option V)}
    {vars : Variables V} {s : σ} (hs : I s) (hvars : vars.All (P s)) (test : Test) :
    (test.holds ops args vars).Keeps I L (fun _ _ => True) s := by
  have hfetch : ∀ x, (Exec.lift (vars.fetch x) : Exec σ V).Keeps I L P s :=
    fun x => h.lift hs fun v hv => hvars.fetch hv
  cases test with
  | present i => exact h.pure hs trivial
  | backend tag => exact h.pure hs trivial
  | kind x k => exact h.bind (hfetch x) fun v t _ ht _ => h.pure ht trivial
  | dtype x d => exact h.bind (hfetch x) fun v t _ ht _ => h.pure ht trivial
  | ndim x n => exact h.bind (hfetch x) fun v t _ ht _ => h.pure ht trivial
  | truth x => exact h.bind (hfetch x) fun v t _ ht hv => h.truth ht hv

theorem Variables.All.mono (h : ops.Preserves I L P) {vars : Variables V} {s t : σ} (hL : L s t)
    (hv : vars.All (P s)) : vars.All (P t) :=
  fun p hp => h.mono hL (hv p hp)

theorem ArgsAll.mono (h : ops.Preserves I L P) {args : List (Option V)} {s t : σ} (hL : L s t)
    (hv : ArgsAll (P s) args) : ArgsAll (P t) args :=
  fun v hmem => h.mono hL (hv v hmem)

/-- The last step of most statements: produced values are bound. -/
theorem ArrayOps.Preserves.next (h : ops.Preserves I L P) {m : Exec σ (List V)} {dest : Binder}
    {vars : Variables V} {s : σ} (hvars : vars.All (P s))
    (hm : m.Keeps I L (fun t us => ∀ u ∈ us, P t u) s) :
    (do let values ← m; return Flow.next (dest.bind values vars)).Keeps I L
      (fun t flow => flow.All (P t)) s :=
  h.bind hm fun _ _ hL ht hus => h.pure ht ((hvars.mono h hL).bind dest hus)

/-- The same for a single value. -/
theorem ArrayOps.Preserves.nextOne (h : ops.Preserves I L P) {m : Exec σ V} {dest : Binder}
    {vars : Variables V} {s : σ} (hvars : vars.All (P s)) (hm : m.Keeps I L P s) :
    (do let v ← m; return Flow.next (dest.bind [v] vars)).Keeps I L
      (fun t flow => flow.All (P t)) s :=
  h.bind hm fun _ _ hL ht hv => h.pure ht ((hvars.mono h hL).bind dest (by simpa using hv))

mutual

/-- A statement keeps what the operations keep. -/
theorem ArrayOps.Preserves.stmt (h : ops.Preserves I L P) {args : List (Option V)}
    {vars : Variables V} {s : σ} (hs : I s) (hargs : ArgsAll (P s) args)
    (hvars : vars.All (P s)) :
    ∀ stmt : Stmt, (runStmt ops args vars stmt).Keeps I L (fun t flow => flow.All (P t)) s
  | .ret value => by
    rw [runStmt]
    refine h.bind (h.lift (Q := fun t r => ∀ v ∈ r.toList, P t v) hs
      fun r hr => hvars.fetchReturned hr) ?_
    exact fun r t _ ht hr => h.pure ht hr
  | .branch test yes no => by
    rw [runStmt]
    refine h.bind (h.holds hs hvars test) ?_
    intro b t hL ht _
    cases b with
    | true => exact h.block ht (hargs.mono h hL) (hvars.mono h hL) yes
    | false => exact h.block ht (hargs.mono h hL) (hvars.mono h hL) no
  | .arg dest index => by
    rw [runStmt]
    exact h.nextOne hvars (h.lift hs fun v hv => hargs.requiredArg hv)
  | .const dest value => by
    rw [runStmt]
    exact h.nextOne hvars (h.scalar value hs)
  | .synonym dest x => by
    rw [runStmt]
    exact h.nextOne hvars (h.lift hs fun v hv => hvars.fetch hv)
  | .ufunc dest f inputs none => by
    rw [runStmt]
    refine h.bind (h.lift (Q := fun t vs => ∀ v ∈ vs, P t v) hs fun vs hv => hvars.fetchAll hv) ?_
    exact fun vs t hL ht hvs => h.next (hvars.mono h hL) (h.ufunc ht hvs)
  | .ufunc dest f inputs (some outs) => by
    rw [runStmt]
    refine h.bind (h.lift (Q := fun t vs => ∀ v ∈ vs, P t v) hs fun vs hv => hvars.fetchAll hv) ?_
    intro vs t hL ht hvs
    refine h.bind (h.lift (Q := fun t us => ∀ u ∈ us, P t u) ht
      fun us hv => (hvars.mono h hL).fetchAll hv) ?_
    intro us u hL' hu hus
    exact h.next (hvars.mono h (h.trans hL hL'))
      (h.ufuncOut hu (fun v hv => h.mono hL' (hvs v hv)) hus)
  | .inplace dest f target other => by
    rw [runStmt]
    refine h.bind (h.lift hs fun v hv => hvars.fetch hv) ?_
    intro v t hL ht hv
    refine h.bind (h.lift ht fun w hw => (hvars.mono h hL).fetch hw) ?_
    exact fun w u hL' hu hw =>
      h.next (hvars.mono h (h.trans hL hL')) (h.inplace hu (h.mono hL' hv) hw)
  | .reduce dest op x axis => by
    rw [runStmt]
    refine h.bind (h.lift hs fun v hv => hvars.fetch hv) ?_
    exact fun v t hL ht hv => h.nextOne (hvars.mono h hL) (h.reduce ht hv)
  | .astype dest dtype x => by
    rw [runStmt]
    refine h.bind (h.lift hs fun v hv => hvars.fetch hv) ?_
    exact fun v t hL ht hv => h.nextOne (hvars.mono h hL) (h.astype ht hv)
  | .assign target source region => by
    rw [runStmt]
    refine h.bind (h.lift hs fun v hv => hvars.fetch hv) ?_
    intro v t hL ht hv
    refine h.bind (h.lift ht fun w hw => (hvars.mono h hL).fetch hw) ?_
    intro w u hL' hu hw
    refine h.bind (h.assign hu (h.mono hL' hv) hw) ?_
    exact fun _ x hL'' hx _ => h.pure hx (hvars.mono h (h.trans hL (h.trans hL' hL'')))
  | .item dest x => by
    rw [runStmt]
    refine h.bind (h.lift hs fun v hv => hvars.fetch hv) ?_
    intro v t hL ht hv
    refine h.bind (h.item ht hv) ?_
    exact fun c u hL' hu _ => h.nextOne (hvars.mono h (h.trans hL hL')) (h.scalar c hu)
  | .call dest callee names => by
    rw [runStmt]
    refine h.bind (h.lift (Q := fun t vs => ArgsAll (P t) vs) hs fun vs hv => hvars.fetchArgs hv) ?_
    intro vs t hL ht hvs
    refine h.bind (h.block ht hvs (fun p hp => by simp at hp) callee) ?_
    exact fun flow u hL' hu hflow =>
      h.pure hu ((hvars.mono h (h.trans hL hL')).bind dest hflow.returned)
  | .raise reason => by
    rw [runStmt]
    exact ⟨hs, h.refl s, fun a ha => by cases ha⟩

/-- A block keeps what the operations keep. -/
theorem ArrayOps.Preserves.block (h : ops.Preserves I L P) {args : List (Option V)}
    {vars : Variables V} {s : σ} (hs : I s) (hargs : ArgsAll (P s) args)
    (hvars : vars.All (P s)) :
    ∀ body : List Stmt, (runBlock ops args vars body).Keeps I L (fun t flow => flow.All (P t)) s
  | [] => by
    rw [runBlock]
    exact h.pure hs hvars
  | stmt :: rest => by
    rw [runBlock]
    refine h.bind (h.stmt hs hargs hvars stmt) ?_
    intro flow t hL ht hflow
    cases flow with
    | next vars' => exact h.block ht (hargs.mono h hL) hflow rest
    | done r => exact h.pure ht hflow

end

/-- A function keeps what the operations keep. -/
theorem ArrayOps.Preserves.run (h : ops.Preserves I L P) (fn : Function)
    {args : List (Option V)} {s : σ} (hs : I s) (hargs : ArgsAll (P s) args) :
    (fn.run ops args).Keeps I L (fun t r => ∀ v ∈ r.toList, P t v) s :=
  h.bind (h.block hs hargs (fun p hp => by simp at hp) fn.body) fun _ _ _ ht hflow =>
    h.pure ht hflow.returned

end

end ArrayFusion
