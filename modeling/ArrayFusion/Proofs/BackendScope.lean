/-
ArrayFusion/Proofs/BackendScope.lean

Scopes nest and unwind.

Design.  A run is described by a log that the program does not keep: actions
with the answers that they gave, scopes that begin and end, threads that start,
aborts that were stopped, each on its thread and in order of time (`log`).
The answers are those of `act`.  Scopes and threads are named by the entries
that begin them.  So the log says without a stack which scopes a thread still
has open, namely those it opened that no entry closes (`stillOpen`), and which
default was set last (`latestDefault`).

The log of a complete action is balanced: what it opens it closes, whether the
action returns or is aborted (`balanced_log`).  Hence it leaves the open scopes
of every thread as they were (`stillOpen_append`), and what the program keeps
in its stack and its default is at any time what the log tells (`Tells`).

An abort that is stopped loses the answers given since the actions began that
it ended.  All others come back (`given_eq_kept`).

Main result: every question is answered with the innermost scope still open on
its thread, or else with the default set last, and every scope ends with the
stack that it began with (`scopes_nest`).
-/
import ArrayFusion.BackendScope
import Mathlib.Data.List.Basic

namespace ArrayFusion

variable {β : Type}

/-! ### Logs -/

/-- Something that happened on a thread. -/
inductive ScopeEvent (β : Type)
  /-- An action without others in it was done, with the answer that it gave. -/
  | did (action : ScopeAction β) (answer : Option (ScopeAnswer β))
  /-- A scope began. -/
  | opened (b : β)
  /-- The scope that the given entry began has ended, by return or by abort. -/
  | closed (opening : Nat)
  /-- Another thread was started. -/
  | started
  /-- Guarded actions, which began with the given entry, were aborted, with the
  answer in the place of theirs. -/
  | caught (since : Nat) (answer : Option (ScopeAnswer β))

/-- An entry of a log. -/
structure ScopeEntry (β : Type) where
  /-- The entry that started the thread; none for the first thread. -/
  thread : Option Nat
  /-- The stack of the thread, before a scope begins and after one has ended. -/
  stack : List β
  event : ScopeEvent β

namespace ScopeEvent

/-- The answer of an action. -/
def answer? : ScopeEvent β → Option (ScopeAnswer β)
  | .did _ r => r
  | .caught _ r => r
  | _ => none

/-- A new default. -/
def default? : ScopeEvent β → Option β
  | .did (.setDefault b) _ => some b
  | _ => none

/-- The backend of a scope that begins. -/
def opened? : ScopeEvent β → Option β
  | .opened b => some b
  | _ => none

/-- The scope that has ended. -/
def closed? : ScopeEvent β → Option Nat
  | .closed i => some i
  | _ => none

/-- Where the actions began that were aborted. -/
def caught? : ScopeEvent β → Option Nat
  | .caught since _ => some since
  | _ => none

end ScopeEvent

namespace BackendScope

mutual

/-- What happens while an action runs on a thread, after `now` entries. -/
def log (thread : Option Nat) (now : Nat) (s : BackendScope β) :
    ScopeAction β → List (ScopeEntry β)
  | .current => [⟨thread, s.stack, .did .current (act s .current).1⟩]
  | .describe => [⟨thread, s.stack, .did .describe (act s .describe).1⟩]
  | .setDefault b => [⟨thread, s.stack, .did (.setDefault b) (act s (.setDefault b)).1⟩]
  | .abort => [⟨thread, s.stack, .did .abort (act s .abort).1⟩]
  | .within b actions =>
    -- the last entry stands also if the actions abort
    ⟨thread, s.stack, .opened b⟩ :: logAll thread (now + 1) (s.enter b) actions ++
      [⟨thread, (act s (.within b actions)).2.stack, .closed now⟩]
  | .guarded actions =>
    let inner := logAll thread now s actions
    match (actAll s actions).1 with
    | some _ => inner
    | none => inner ++ [⟨thread, s.stack, .caught now (act s (.guarded actions)).1⟩]
  | .thread actions =>
    ⟨thread, s.stack, .started⟩ :: logAll (some now) (now + 1) s.fork actions

/-- What happens while actions run in order until one of them aborts. -/
def logAll (thread : Option Nat) (now : Nat) (s : BackendScope β) :
    List (ScopeAction β) → List (ScopeEntry β)
  | [] => []
  | a :: rest =>
    let first := log thread now s a
    match act s a with
    | (none, _) => first
    | (some _, t) => first ++ logAll thread (now + first.length) t rest

end

/-- The scopes opened on a thread, in order, each with its entry; the entries
are counted from `start`. -/
def openings (thread : Option Nat) (start : Nat) (entries : List (ScopeEntry β)) :
    List (Nat × β) :=
  (entries.zipIdx start).filterMap fun p =>
    if p.1.thread = thread then p.1.event.opened?.map (p.2, ·) else none

/-- The scopes that have ended. -/
def closings (entries : List (ScopeEntry β)) : List Nat :=
  entries.filterMap (·.event.closed?)

/-- The scopes still open on a thread, innermost first. -/
def stillOpen (thread : Option Nat) (entries : List (ScopeEntry β)) : List (Nat × β) :=
  ((openings thread 0 entries).filter fun p => p.1 ∉ closings entries).reverse

/-- The default set last, or the given one. -/
def latestDefault (b : β) (entries : List (ScopeEntry β)) : β :=
  (entries.filterMap (·.event.default?)).getLast?.getD b

/-- The backend of the innermost scope still open on a thread, or else the
default set last. -/
def expected (b : β) (thread : Option Nat) (entries : List (ScopeEntry β)) : β :=
  ((stillOpen thread entries).head?.map (·.2)).getD (latestDefault b entries)

/-- Whether an abort that was stopped later passed over an entry; the entries
are counted from `start`. -/
def lost (start : Nat) (entries : List (ScopeEntry β)) (i : Nat) : Bool :=
  (entries.zipIdx start).any fun p => p.1.event.caught?.any (· ≤ i) && i < p.2

/-- The answers that no abort has lost, in order. -/
def kept (start : Nat) (entries : List (ScopeEntry β)) : List (ScopeAnswer β) :=
  (entries.zipIdx start).filterMap fun p =>
    if lost start entries p.2 then none else p.1.event.answer?

/-! ### Runs -/

theorem act_within (s : BackendScope β) (b : β) (actions : List (ScopeAction β)) :
    act s (.within b actions) = ((actAll (s.enter b) actions).1.map .answers,
      (actAll (s.enter b) actions).2.leave) := by
  rw [act]
  rcases actAll (s.enter b) actions with ⟨- | as, t⟩ <;> rfl

theorem act_guarded (s : BackendScope β) (actions : List (ScopeAction β)) :
    act s (.guarded actions) =
      (some ((actAll s actions).1.elim .aborted .answers), (actAll s actions).2) := by
  rw [act]
  rcases actAll s actions with ⟨- | as, t⟩ <;> rfl

theorem act_thread (s : BackendScope β) (actions : List (ScopeAction β)) :
    act s (.thread actions) =
      ((actAll s.fork actions).1.map .answers, s.join (actAll s.fork actions).2) := by
  rw [act]
  rcases actAll s.fork actions with ⟨- | as, t⟩ <;> rfl

/-- Guarded actions are logged as they are, and their abort behind them. -/
theorem log_guarded_cases (thread : Option Nat) (now : Nat) (s : BackendScope β)
    (actions : List (ScopeAction β)) :
    (∃ rs, act s (.guarded actions) = (some (.answers rs), (actAll s actions).2) ∧
      (actAll s actions).1 = some rs ∧
      log thread now s (.guarded actions) = logAll thread now s actions) ∨
    act s (.guarded actions) = (some .aborted, (actAll s actions).2) ∧
      log thread now s (.guarded actions) =
        logAll thread now s actions ++ [⟨thread, s.stack, .caught now (some .aborted)⟩] := by
  rw [log, act_guarded]
  rcases (actAll s actions).1 with - | rs
  · exact .inr ⟨rfl, rfl⟩
  · exact .inl ⟨rs, rfl, rfl, rfl⟩

/-- The first action aborts the rest, or the rest goes on from its state. -/
theorem actAll_cons_cases (s : BackendScope β) (a : ScopeAction β) (rest : List (ScopeAction β))
    (thread : Option Nat) (now : Nat) :
    (actAll s (a :: rest) = (none, (act s a).2) ∧
      logAll thread now s (a :: rest) = log thread now s a) ∨
    ∃ r, (act s a).1 = some r ∧
      actAll s (a :: rest) =
        ((actAll (act s a).2 rest).1.map (r :: ·), (actAll (act s a).2 rest).2) ∧
      logAll thread now s (a :: rest) = log thread now s a ++
        logAll thread (now + (log thread now s a).length) (act s a).2 rest := by
  rw [actAll, logAll]
  rcases act s a with ⟨- | r, t⟩
  · exact .inl ⟨rfl, rfl⟩
  · refine .inr ⟨r, rfl, ?_, rfl⟩
    dsimp only
    rcases actAll t rest with ⟨- | rs, u⟩ <;> rfl

mutual

/-- An action leaves the stack of its thread as it was, also if it aborts. -/
theorem stack_act (s : BackendScope β) : (a : ScopeAction β) → (act s a).2.stack = s.stack
  | .current | .describe | .setDefault _ | .abort => rfl
  | .within b actions => by
    rw [act_within]
    show (actAll (s.enter b) actions).2.stack.tail = s.stack
    rw [stack_actAll]
    rfl
  | .guarded actions => by
    rw [act_guarded]
    exact stack_actAll s actions
  | .thread actions => by
    rw [act_thread]
    rfl

theorem stack_actAll (s : BackendScope β) :
    (actions : List (ScopeAction β)) → (actAll s actions).2.stack = s.stack
  | [] => rfl
  | a :: rest => by
    rcases actAll_cons_cases s a rest none 0 with ⟨hrun, -⟩ | ⟨r, -, hrun, -⟩
    · rw [hrun]
      exact stack_act s a
    · rw [hrun]
      exact (stack_actAll _ rest).trans (stack_act s a)

end

/-! ### Appending logs -/

theorem openings_append (thread : Option Nat) (start : Nat) (old new : List (ScopeEntry β)) :
    openings thread start (old ++ new) =
      openings thread start old ++ openings thread (start + old.length) new := by
  rw [openings, List.zipIdx_append, List.filterMap_append]
  rfl

theorem openings_singleton (thread : Option Nat) (start : Nat) (e : ScopeEntry β) :
    openings thread start [e] =
      if e.thread = thread then (e.event.opened?.map (start, ·)).toList else [] := by
  split
  · next h => rcases hopened : e.event.opened? with - | b <;> simp [openings, h, hopened]
  · next h => simp [openings, h]

theorem closings_append (old new : List (ScopeEntry β)) :
    closings (old ++ new) = closings old ++ closings new :=
  List.filterMap_append

theorem latestDefault_append (b : β) (old new : List (ScopeEntry β)) :
    latestDefault b (old ++ new) = latestDefault (latestDefault b old) new := by
  simp only [latestDefault, List.filterMap_append, List.getLast?_append, Option.getD_or]

theorem mem_openings {thread : Option Nat} {start : Nat} {entries : List (ScopeEntry β)}
    {p : Nat × β} : p ∈ openings thread start entries ↔
      ∃ stack, (⟨thread, stack, .opened p.2⟩, p.1) ∈ entries.zipIdx start := by
  rw [openings, List.mem_filterMap]
  constructor
  · rintro ⟨⟨⟨thread', stack, event⟩, i⟩, hmem, hp⟩
    dsimp only at hp
    split at hp
    · next hthread =>
      obtain ⟨b, hopened, rfl⟩ := Option.map_eq_some_iff.1 hp
      cases event with
      | opened c =>
        cases hopened
        exact ⟨stack, hthread ▸ hmem⟩
      | _ => cases hopened
    · cases hp
  · rintro ⟨stack, hmem⟩
    exact ⟨_, hmem, if_pos rfl⟩

theorem mem_closings {entries : List (ScopeEntry β)} {i : Nat} :
    i ∈ closings entries ↔ ∃ thread stack, ⟨thread, stack, .closed i⟩ ∈ entries := by
  rw [closings, List.mem_filterMap]
  constructor
  · rintro ⟨⟨thread, stack, event⟩, hmem, hclosed⟩
    cases event with
    | closed k =>
      cases hclosed
      exact ⟨thread, stack, hmem⟩
    | _ => cases hclosed
  · rintro ⟨thread, stack, hmem⟩
    exact ⟨_, hmem, rfl⟩

/-! ### Balanced logs -/

/-- Logs counted from an entry in which every scope that begins ends, with the
stack that it began with, after the scopes inside it. -/
inductive Balanced : Nat → List (ScopeEntry β) → Prop
  | nil {n : Nat} : Balanced n []
  | plain {n : Nat} {e : ScopeEntry β} (hopened : e.event.opened? = none)
      (hclosed : e.event.closed? = none) : Balanced n [e]
  | append {n : Nat} {old new : List (ScopeEntry β)} (hold : Balanced n old)
      (hnew : Balanced (n + old.length) new) : Balanced n (old ++ new)
  | within {n : Nat} {thread : Option Nat} {stack : List β} {b : β}
      {inner : List (ScopeEntry β)} (hinner : Balanced (n + 1) inner) :
      Balanced n (⟨thread, stack, .opened b⟩ :: inner ++ [⟨thread, stack, .closed n⟩])

mutual

/-- The log of an action is balanced, also if the action aborts. -/
theorem balanced_log (thread : Option Nat) (now : Nat) (s : BackendScope β) :
    (a : ScopeAction β) → Balanced now (log thread now s a)
  | .current | .describe | .setDefault _ | .abort => .plain rfl rfl
  | .within b actions => by
    rw [log, stack_act]
    exact .within (balanced_logAll thread (now + 1) (s.enter b) actions)
  | .guarded actions => by
    have hinner := balanced_logAll thread now s actions
    rcases log_guarded_cases thread now s actions with ⟨rs, -, -, hlog⟩ | ⟨-, hlog⟩
    · rw [hlog]
      exact hinner
    · rw [hlog]
      exact .append hinner (.plain rfl rfl)
  | .thread actions => by
    rw [log]
    exact .append (.plain rfl rfl) (balanced_logAll (some now) (now + 1) s.fork actions)

theorem balanced_logAll (thread : Option Nat) (now : Nat) (s : BackendScope β) :
    (actions : List (ScopeAction β)) → Balanced now (logAll thread now s actions)
  | [] => .nil
  | a :: rest => by
    rcases actAll_cons_cases s a rest thread now with ⟨-, hlog⟩ | ⟨r, -, -, hlog⟩
    · rw [hlog]
      exact balanced_log thread now s a
    · rw [hlog]
      exact .append (balanced_log thread now s a) (balanced_logAll thread _ _ rest)

end

namespace Balanced

variable {n : Nat} {entries : List (ScopeEntry β)}

/-- A scope of a balanced log ends after it began, with the same stack. -/
theorem exists_closed (h : Balanced n entries) {k : Nat} {thread : Option Nat} {stack : List β}
    {b : β} (hk : (⟨thread, stack, .opened b⟩, k) ∈ entries.zipIdx n) :
    ∃ j, k < j ∧ (⟨thread, stack, .closed k⟩, j) ∈ entries.zipIdx n := by
  induction h with
  | nil => cases hk
  | plain hopened hclosed =>
    cases List.mem_singleton.1 hk
    cases hopened
  | append hold hnew ihold ihnew =>
    rw [List.zipIdx_append, List.mem_append] at hk
    simp only [List.zipIdx_append, List.mem_append]
    rcases hk with hk | hk
    · obtain ⟨j, hkj, hj⟩ := ihold hk
      exact ⟨j, hkj, .inl hj⟩
    · obtain ⟨j, hkj, hj⟩ := ihnew hk
      exact ⟨j, hkj, .inr hj⟩
  | @within n thread' stack' b' inner hinner ih =>
    simp only [List.cons_append, List.zipIdx_cons, List.zipIdx_append, List.mem_cons,
      List.mem_append, List.zipIdx_nil, List.not_mem_nil, or_false] at hk ⊢
    rcases hk with hk | hk | hk
    · cases hk
      exact ⟨k + 1 + inner.length, by omega, .inr (.inr rfl)⟩
    · obtain ⟨j, hkj, hj⟩ := ih hk
      exact ⟨j, hkj, .inr (.inl hj)⟩
    · cases hk

/-- A scope that a balanced log closes began in it, with the same stack. -/
theorem exists_opened (h : Balanced n entries) {k j : Nat} {thread : Option Nat} {stack : List β}
    (hj : (⟨thread, stack, .closed k⟩, j) ∈ entries.zipIdx n) :
    k < j ∧ ∃ b, (⟨thread, stack, .opened b⟩, k) ∈ entries.zipIdx n := by
  induction h with
  | nil => cases hj
  | plain hopened hclosed =>
    cases List.mem_singleton.1 hj
    cases hclosed
  | append hold hnew ihold ihnew =>
    rw [List.zipIdx_append, List.mem_append] at hj
    simp only [List.zipIdx_append, List.mem_append]
    rcases hj with hj | hj
    · obtain ⟨hkj, b, hk⟩ := ihold hj
      exact ⟨hkj, b, .inl hk⟩
    · obtain ⟨hkj, b, hk⟩ := ihnew hj
      exact ⟨hkj, b, .inr hk⟩
  | @within n thread' stack' b' inner hinner ih =>
    simp only [List.cons_append, List.zipIdx_cons, List.zipIdx_append, List.mem_cons,
      List.mem_append, List.zipIdx_nil, List.not_mem_nil, or_false] at hj ⊢
    rcases hj with hj | hj | hj
    · cases hj
    · obtain ⟨hkj, b, hk⟩ := ih hj
      exact ⟨hkj, b, .inr (.inl hk)⟩
    · cases hj
      exact ⟨by omega, b', .inl rfl⟩

/-- A balanced log closes only what it opens. -/
theorem bounds_of_mem_closings (h : Balanced n entries) {i : Nat} (hi : i ∈ closings entries) :
    n ≤ i ∧ i < n + entries.length := by
  obtain ⟨thread, stack, hmem⟩ := mem_closings.1 hi
  rw [← List.zipIdx_map_fst n entries, List.mem_map] at hmem
  obtain ⟨⟨e, j⟩, hj, rfl⟩ := hmem
  obtain ⟨-, b, hopened⟩ := h.exists_opened hj
  obtain ⟨hle, hlt, -⟩ := List.mem_zipIdx hopened
  exact ⟨hle, hlt⟩

/-- A balanced log closes what it opens. -/
theorem mem_closings_of_mem_openings (h : Balanced n entries) {thread : Option Nat} {p : Nat × β}
    (hp : p ∈ openings thread n entries) : p.1 ∈ closings entries := by
  obtain ⟨stack, hopened⟩ := mem_openings.1 hp
  obtain ⟨j, -, hclosed⟩ := h.exists_closed hopened
  exact mem_closings.2 ⟨thread, stack, List.fst_mem_of_mem_zipIdx hclosed⟩

end Balanced

/-- **A complete action leaves the open scopes of every thread as they were.** -/
theorem stillOpen_append {old new : List (ScopeEntry β)} (h : Balanced old.length new)
    (thread : Option Nat) : stillOpen thread (old ++ new) = stillOpen thread old := by
  rw [stillOpen, stillOpen, openings_append, closings_append, Nat.zero_add, List.filter_append]
  -- what is new is closed by now, and nothing old is closed by what is new
  have hnew : (openings thread old.length new).filter
      (fun p => p.1 ∉ closings old ++ closings new) = [] := by
    rw [List.filter_eq_nil_iff]
    intro p hp
    simp [h.mem_closings_of_mem_openings hp]
  have hold : (openings thread 0 old).filter (fun p => p.1 ∉ closings old ++ closings new) =
      (openings thread 0 old).filter (fun p => p.1 ∉ closings old) := by
    apply List.filter_congr
    intro p hp
    obtain ⟨stack, hopened⟩ := mem_openings.1 hp
    have hlt : p.1 < old.length := by simpa using (List.mem_zipIdx hopened).2.1
    have hfar : p.1 ∉ closings new := by
      intro hmem
      have hle := (h.bounds_of_mem_closings hmem).1
      omega
    simp [hfar]
  rw [hnew, hold, List.append_nil]

/-! ### What the log tells of a thread -/

mutual

/-- The default after an action is the one that its log sets last. -/
theorem default_act (thread : Option Nat) (now : Nat) (s : BackendScope β) :
    (a : ScopeAction β) → (act s a).2.default = latestDefault s.default (log thread now s a)
  | .current | .describe | .setDefault _ | .abort => rfl
  | .within b actions => by
    rw [act_within, log, List.cons_append, ← List.singleton_append, latestDefault_append,
      latestDefault_append]
    exact default_actAll thread (now + 1) (s.enter b) actions
  | .guarded actions => by
    have hinner := default_actAll thread now s actions
    rcases log_guarded_cases thread now s actions with ⟨rs, hrun, -, hlog⟩ | ⟨hrun, hlog⟩
    · rw [hrun, hlog]
      exact hinner
    · rw [hrun, hlog, latestDefault_append]
      exact hinner
  | .thread actions => by
    rw [act_thread, log, ← List.singleton_append, latestDefault_append]
    exact default_actAll (some now) (now + 1) s.fork actions

theorem default_actAll (thread : Option Nat) (now : Nat) (s : BackendScope β) :
    (actions : List (ScopeAction β)) →
      (actAll s actions).2.default = latestDefault s.default (logAll thread now s actions)
  | [] => rfl
  | a :: rest => by
    rcases actAll_cons_cases s a rest thread now with ⟨hrun, hlog⟩ | ⟨r, -, hrun, hlog⟩
    · rw [hrun, hlog]
      exact default_act thread now s a
    · rw [hrun, hlog, latestDefault_append, ← default_act thread now s a]
      exact default_actAll thread _ _ rest

end

mutual

/-- The threads of an action's log are its own one and those started meanwhile. -/
theorem thread_log (thread : Option Nat) (now : Nat) (s : BackendScope β) :
    (a : ScopeAction β) → ∀ e ∈ log thread now s a, ∀ i, e.thread = some i →
      thread = some i ∨ i < now + (log thread now s a).length
  | .current | .describe | .setDefault _ | .abort => by
    intro e he i hi
    rw [List.mem_singleton.1 he] at hi
    exact .inl hi
  | .within b actions => by
    intro e he i hi
    simp only [log, List.cons_append, List.mem_cons, List.mem_append, List.not_mem_nil,
      or_false] at he
    rcases he with rfl | he | rfl
    · exact .inl hi
    · refine (thread_logAll thread (now + 1) (s.enter b) actions e he i hi).imp_right ?_
      intro hlt
      simp only [log, List.cons_append, List.length_cons, List.length_append, List.length_nil]
      omega
    · exact .inl hi
  | .guarded actions => by
    have hinner := thread_logAll thread now s actions
    rcases log_guarded_cases thread now s actions with ⟨rs, -, -, hlog⟩ | ⟨-, hlog⟩
    · rw [hlog]
      exact hinner
    · rw [hlog]
      intro e he i hi
      rcases List.mem_append.1 he with he | he
      · refine (hinner e he i hi).imp_right ?_
        rw [List.length_append]
        intro hlt
        omega
      · rw [List.mem_singleton.1 he] at hi
        exact .inl hi
  | .thread actions => by
    intro e he i hi
    simp only [log, List.mem_cons] at he
    simp only [log, List.length_cons]
    rcases he with rfl | he
    · exact .inl hi
    · -- the new thread is named by the entry that starts it
      rcases thread_logAll (some now) (now + 1) s.fork actions e he i hi with hnow | hlt
      · right
        cases hnow
        omega
      · right
        omega

theorem thread_logAll (thread : Option Nat) (now : Nat) (s : BackendScope β) :
    (actions : List (ScopeAction β)) → ∀ e ∈ logAll thread now s actions, ∀ i,
      e.thread = some i → thread = some i ∨ i < now + (logAll thread now s actions).length
  | [] => nofun
  | a :: rest => by
    intro e he i hi
    rcases actAll_cons_cases s a rest thread now with ⟨-, hlog⟩ | ⟨r, -, -, hlog⟩
    · rw [hlog] at he ⊢
      exact thread_log thread now s a e he i hi
    · rw [hlog, List.mem_append] at he
      rw [hlog, List.length_append]
      rcases he with he | he
      · refine (thread_log thread now s a e he i hi).imp_right ?_
        intro hlt
        omega
      · refine (thread_logAll thread _ _ rest e he i hi).imp_right ?_
        intro hlt
        omega

end

/-- Threads are named by entries of the log, and so are scopes that have
ended. -/
structure Numbered (entries : List (ScopeEntry β)) : Prop where
  threads_lt : ∀ e ∈ entries, ∀ i, e.thread = some i → i < entries.length
  closings_lt : ∀ i ∈ closings entries, i < entries.length

theorem Numbered.append {old new : List (ScopeEntry β)} (h : Numbered old)
    (hthreads : ∀ e ∈ new, ∀ i, e.thread = some i → i < old.length + new.length)
    (hclosings : ∀ i ∈ closings new, i < old.length + new.length) : Numbered (old ++ new) where
  threads_lt e he i hi := by
    rw [List.length_append]
    rcases List.mem_append.1 he with he | he
    · exact Nat.lt_add_right _ (h.threads_lt e he i hi)
    · exact hthreads e he i hi
  closings_lt i hi := by
    rw [closings_append, List.mem_append] at hi
    rw [List.length_append]
    rcases hi with hi | hi
    · exact Nat.lt_add_right _ (h.closings_lt i hi)
    · exact hclosings i hi

/-- The scope that a thread has just opened is its innermost one. -/
theorem stillOpen_opened {entries : List (ScopeEntry β)} (h : Numbered entries)
    (thread : Option Nat) (stack : List β) (b : β) :
    stillOpen thread (entries ++ [⟨thread, stack, .opened b⟩]) =
      (entries.length, b) :: stillOpen thread entries := by
  have hnew : entries.length ∉ closings entries := by
    intro hmem
    exact Nat.lt_irrefl _ (h.closings_lt _ hmem)
  have hclosings : closings (entries ++ [⟨thread, stack, .opened b⟩]) = closings entries := by
    rw [closings_append]
    exact List.append_nil _
  rw [stillOpen, hclosings, openings_append, openings_singleton, if_pos rfl, Nat.zero_add,
    List.filter_append, List.reverse_append]
  simp [ScopeEvent.opened?, hnew, stillOpen]

/-- A thread that has just been started has no open scopes. -/
theorem stillOpen_started {entries : List (ScopeEntry β)} (h : Numbered entries)
    (thread : Option Nat) (stack : List β) :
    stillOpen (some entries.length) (entries ++ [⟨thread, stack, .started⟩]) = [] := by
  have hold : openings (some entries.length) 0 entries = [] := by
    rw [List.eq_nil_iff_forall_not_mem]
    intro p hp
    obtain ⟨stack, hopened⟩ := mem_openings.1 hp
    exact Nat.lt_irrefl _ (h.threads_lt _ (List.fst_mem_of_mem_zipIdx hopened) _ rfl)
  rw [stillOpen, openings_append, hold, openings_singleton]
  split <;> rfl

/-- The log so far tells the stack and the default that a thread sees. -/
structure Tells (b : β) (entries : List (ScopeEntry β)) (thread : Option Nat)
    (s : BackendScope β) : Prop where
  stack : s.stack = (stillOpen thread entries).map (·.2)
  default : s.default = latestDefault b entries
  thread_lt : ∀ i, thread = some i → i < entries.length
  numbered : Numbered entries

namespace Tells

variable {b : β} {entries : List (ScopeEntry β)} {thread : Option Nat} {s : BackendScope β}

theorem initial (b : β) : Tells b [] none (initial b) where
  stack := rfl
  default := rfl
  thread_lt := nofun
  numbered := ⟨nofun, nofun⟩

/-- The thread sees the backend that the log tells. -/
theorem current_eq (h : Tells b entries thread s) : s.current = expected b thread entries := by
  rw [current, expected, h.stack, h.default]
  rcases stillOpen thread entries with - | ⟨p, ps⟩ <;> rfl

/-- Names stay in range with one more entry of the thread that closes
nothing. -/
theorem numbered_snoc (h : Tells b entries thread s) (stack : List β) {event : ScopeEvent β}
    (hclosed : event.closed? = none) : Numbered (entries ++ [⟨thread, stack, event⟩]) := by
  apply h.numbered.append
  · intro e he i hi
    rw [List.mem_singleton.1 he] at hi
    exact Nat.lt_add_right _ (h.thread_lt i hi)
  · simp [closings, hclosed]

theorem enter (h : Tells b entries thread s) (c : β) :
    Tells b (entries ++ [⟨thread, s.stack, .opened c⟩]) thread (s.enter c) where
  stack := by
    rw [stillOpen_opened h.numbered, List.map_cons, ← h.stack]
    rfl
  default := by
    rw [latestDefault_append]
    exact h.default
  thread_lt i hi := by
    rw [List.length_append]
    exact Nat.lt_add_right _ (h.thread_lt i hi)
  numbered := h.numbered_snoc _ rfl

theorem fork (h : Tells b entries thread s) :
    Tells b (entries ++ [⟨thread, s.stack, .started⟩]) (some entries.length) s.fork where
  stack := by
    rw [stillOpen_started h.numbered]
    rfl
  default := by
    rw [latestDefault_append]
    exact h.default
  thread_lt i hi := by
    cases hi
    rw [List.length_append]
    exact Nat.lt_succ_self _
  numbered := h.numbered_snoc _ rfl

/-- The log of an action tells the state after it. -/
theorem act (h : Tells b entries thread s) (a : ScopeAction β) :
    Tells b (entries ++ log thread entries.length s a) thread (act s a).2 where
  stack := by
    rw [stillOpen_append (balanced_log thread _ s a), stack_act]
    exact h.stack
  default := by
    rw [latestDefault_append, ← h.default]
    exact default_act thread _ s a
  thread_lt i hi := by
    rw [List.length_append]
    exact Nat.lt_add_right _ (h.thread_lt i hi)
  numbered := by
    apply h.numbered.append
    · intro e he i hi
      rcases thread_log thread _ s a e he i hi with hthread | hlt
      · exact Nat.lt_add_right _ (h.thread_lt i hthread)
      · exact hlt
    · intro i hi
      exact ((balanced_log thread _ s a).bounds_of_mem_closings hi).2

end Tells

/-! ### Questions -/

/-- An action gave the answer that the log before it tells. -/
structure Truthful (b : β) (before : List (ScopeEntry β)) (e : ScopeEntry β) : Prop where
  current : ∀ r, e.event = .did .current r → r = some (.backend (expected b e.thread before))
  describe : ∀ r, e.event = .did .describe r →
    r = some (.description (expected b e.thread before))
  setDefault : ∀ c r, e.event = .did (.setDefault c) r →
    r = some (.replaced (latestDefault b before))

/-- Every action in `new` gave the answer that the log before it tells. -/
def Answered (b : β) (old new : List (ScopeEntry β)) : Prop :=
  ∀ before e after, new = before ++ e :: after → Truthful b (old ++ before) e

namespace Answered

variable {b : β} {old : List (ScopeEntry β)}

theorem nil : Answered b old [] := by
  intro before e after hnew
  simp at hnew

theorem singleton {e : ScopeEntry β} (h : Truthful b old e) : Answered b old [e] := by
  intro before e' after hnew
  rcases List.append_eq_singleton_iff.1 hnew.symm with ⟨rfl, he⟩ | ⟨-, he⟩
  · obtain ⟨rfl, -⟩ := List.cons.inj he
    rw [List.append_nil]
    exact h
  · cases he

theorem append {mid new : List (ScopeEntry β)} (hmid : Answered b old mid)
    (hnew : Answered b (old ++ mid) new) : Answered b old (mid ++ new) := by
  intro before e after heq
  rcases List.append_eq_append_iff.1 heq with ⟨before', rfl, hsplit⟩ | ⟨rest, hsplit, hrest⟩
  · rw [← List.append_assoc]
    exact hnew before' e after hsplit
  · -- the action is the first entry behind `mid`, or one of its own
    rcases rest with - | ⟨e', rest⟩
    · have := hnew [] e after hrest.symm
      rwa [List.append_nil, hsplit, List.append_nil] at this
    · obtain ⟨rfl, -⟩ := List.cons.inj hrest
      exact hmid before e rest hsplit

theorem cons {e : ScopeEntry β} {new : List (ScopeEntry β)} (h : Truthful b old e)
    (hnew : Answered b (old ++ [e]) new) : Answered b old (e :: new) :=
  (singleton h).append hnew

end Answered

mutual

theorem answered_log {b : β} {entries : List (ScopeEntry β)} {thread : Option Nat}
    {s : BackendScope β} (h : Tells b entries thread s) :
    (a : ScopeAction β) → Answered b entries (log thread entries.length s a)
  | .current => by
    rw [log, BackendScope.act, h.current_eq]
    exact .singleton ⟨fun r hr => by cases hr; rfl, nofun, nofun⟩
  | .describe => by
    rw [log, BackendScope.act, h.current_eq]
    exact .singleton ⟨nofun, fun r hr => by cases hr; rfl, nofun⟩
  | .setDefault c => by
    rw [log, BackendScope.act, h.default]
    exact .singleton ⟨nofun, nofun, fun d r hr => by cases hr; rfl⟩
  | .abort => .singleton ⟨nofun, nofun, nofun⟩
  | .within c actions => by
    -- the actions run after the entry that opens their scope
    have hinner := answered_logAll (h.enter c) actions
    rw [List.length_append] at hinner
    rw [log]
    exact .append (.cons ⟨nofun, nofun, nofun⟩ hinner) (.singleton ⟨nofun, nofun, nofun⟩)
  | .guarded actions => by
    have hinner := answered_logAll h actions
    rcases log_guarded_cases thread entries.length s actions with ⟨rs, -, -, hlog⟩ | ⟨-, hlog⟩
    · rw [hlog]
      exact hinner
    · rw [hlog]
      exact hinner.append (.singleton ⟨nofun, nofun, nofun⟩)
  | .thread actions => by
    have hinner := answered_logAll h.fork actions
    rw [List.length_append] at hinner
    rw [log]
    exact .cons ⟨nofun, nofun, nofun⟩ hinner

theorem answered_logAll {b : β} {entries : List (ScopeEntry β)} {thread : Option Nat}
    {s : BackendScope β} (h : Tells b entries thread s) :
    (actions : List (ScopeAction β)) → Answered b entries (logAll thread entries.length s actions)
  | [] => .nil
  | a :: rest => by
    rcases actAll_cons_cases s a rest thread entries.length with ⟨-, hlog⟩ | ⟨r, -, -, hlog⟩
    · rw [hlog]
      exact answered_log h a
    · have hrest := answered_logAll (h.act a) rest
      rw [List.length_append] at hrest
      rw [hlog]
      exact (answered_log h a).append hrest

end

/-! ### Answers that come back -/

mutual

/-- The answers in an answer, in order. -/
def given : ScopeAnswer β → List (ScopeAnswer β)
  | .backend b => [.backend b]
  | .description b => [.description b]
  | .replaced b => [.replaced b]
  | .answers as => givenAll as
  | .aborted => [.aborted]

def givenAll : List (ScopeAnswer β) → List (ScopeAnswer β)
  | [] => []
  | r :: rs => given r ++ givenAll rs

end

/-- No abort goes back behind the first entry. -/
def Confined (start : Nat) (entries : List (ScopeEntry β)) : Prop :=
  ∀ e ∈ entries, ∀ since, e.event.caught? = some since → start ≤ since

theorem Confined.mono {start start' : Nat} {entries : List (ScopeEntry β)}
    (h : Confined start' entries) (hle : start ≤ start') : Confined start entries :=
  fun e he since hs => Nat.le_trans hle (h e he since hs)

theorem confined_append {start : Nat} {old new : List (ScopeEntry β)} :
    Confined start (old ++ new) ↔ Confined start old ∧ Confined start new :=
  List.forall_mem_append

theorem confined_singleton {start : Nat} {e : ScopeEntry β} :
    Confined start [e] ↔ ∀ since, e.event.caught? = some since → start ≤ since :=
  List.forall_mem_singleton

theorem lost_eq_true {start : Nat} {entries : List (ScopeEntry β)} {i : Nat} :
    lost start entries i = true ↔ ∃ e j since, (e, j) ∈ entries.zipIdx start ∧
      e.event.caught? = some since ∧ since ≤ i ∧ i < j := by
  simp only [lost, List.any_eq_true, Bool.and_eq_true, decide_eq_true_eq, Option.any_eq_true,
    Prod.exists]
  constructor
  · rintro ⟨e, j, hmem, ⟨since, hs, hle⟩, hlt⟩
    exact ⟨e, j, since, hmem, hs, hle, hlt⟩
  · rintro ⟨e, j, since, hmem, hs, hle, hlt⟩
    exact ⟨e, j, hmem, ⟨since, hs, hle⟩, hlt⟩

/-- Of two logs behind each other, each loses what it would alone. -/
theorem kept_append {start : Nat} {old new : List (ScopeEntry β)}
    (h : Confined (start + old.length) new) :
    kept start (old ++ new) = kept start old ++ kept (start + old.length) new := by
  have hlost : ∀ i, lost start (old ++ new) i =
      (lost start old i || lost (start + old.length) new i) := by
    intro i
    rw [lost, List.zipIdx_append, List.any_append]
    rfl
  -- no abort in `new` goes back to `old`, and every abort in `old` is over by then
  rw [kept, List.zipIdx_append, List.filterMap_append]
  congr 1
  · apply List.filterMap_congr
    rintro ⟨e, i⟩ hmem
    have hlt : i < start + old.length := (List.mem_zipIdx hmem).2.1
    have hno : lost (start + old.length) new i = false := by
      rw [Bool.eq_false_iff]
      intro hl
      obtain ⟨e', j, since, he', hs, hle, -⟩ := lost_eq_true.1 hl
      exact absurd (h e' (List.fst_mem_of_mem_zipIdx he') since hs) (by omega)
    rw [hlost, hno, Bool.or_false]
  · apply List.filterMap_congr
    rintro ⟨e, i⟩ hmem
    have hle : start + old.length ≤ i := (List.mem_zipIdx hmem).1
    have hno : lost start old i = false := by
      rw [Bool.eq_false_iff]
      intro hl
      obtain ⟨e', j, since, he', -, -, hlt⟩ := lost_eq_true.1 hl
      have := (List.mem_zipIdx he').2.1
      omega
    rw [hlost, hno, Bool.false_or]

theorem kept_singleton (start : Nat) (e : ScopeEntry β) :
    kept start [e] = e.event.answer?.toList := by
  have hno : lost start [e] start = false := by
    rw [Bool.eq_false_iff]
    intro hl
    obtain ⟨e', j, since, hmem, -, -, hlt⟩ := lost_eq_true.1 hl
    cases List.mem_singleton.1 hmem
    omega
  rw [kept, List.zipIdx_singleton, List.filterMap_cons, List.filterMap_nil, hno]
  cases e.event.answer? <;> rfl

/-- An abort that is stopped loses all answers since the given entry. -/
theorem kept_caught (start : Nat) (entries : List (ScopeEntry β)) (thread : Option Nat)
    (stack : List β) (r : ScopeAnswer β) :
    kept start (entries ++ [⟨thread, stack, .caught start (some r)⟩]) = [r] := by
  have hall : ∀ i, start ≤ i → i < start + entries.length →
      lost start (entries ++ [⟨thread, stack, .caught start (some r)⟩]) i = true := by
    intro i hle hlt
    refine lost_eq_true.2 ⟨⟨thread, stack, .caught start (some r)⟩, start + entries.length, start,
      ?_, rfl, hle, hlt⟩
    rw [List.zipIdx_append]
    exact List.mem_append_right _ List.mem_cons_self
  have hlast : lost start (entries ++ [⟨thread, stack, .caught start (some r)⟩])
      (start + entries.length) = false := by
    rw [Bool.eq_false_iff]
    intro hl
    obtain ⟨e, j, since, hmem, -, -, hlt⟩ := lost_eq_true.1 hl
    have := (List.mem_zipIdx hmem).2.1
    rw [List.length_append, List.length_singleton] at this
    omega
  have hnone : (entries.zipIdx start).filterMap (fun p =>
      if lost start (entries ++ [⟨thread, stack, .caught start (some r)⟩]) p.2 then none
      else p.1.event.answer?) = [] := by
    rw [List.filterMap_eq_nil_iff]
    rintro ⟨e, i⟩ hmem
    obtain ⟨hle, hlt, -⟩ := List.mem_zipIdx hmem
    exact if_pos (hall i hle hlt)
  rw [kept, List.zipIdx_append, List.filterMap_append, hnone, List.nil_append,
    List.zipIdx_singleton, List.filterMap_cons, List.filterMap_nil, hlast]
  rfl

mutual

/-- The aborts that an action stops began with it or later. -/
theorem confined_log (thread : Option Nat) (now : Nat) (s : BackendScope β) :
    (a : ScopeAction β) → Confined now (log thread now s a)
  | .current | .describe | .setDefault _ | .abort => confined_singleton.2 nofun
  | .within b actions => by
    rw [log, List.cons_append, ← List.singleton_append, confined_append, confined_append]
    exact ⟨confined_singleton.2 nofun,
      (confined_logAll thread (now + 1) (s.enter b) actions).mono (Nat.le_succ now),
      confined_singleton.2 nofun⟩
  | .guarded actions => by
    have hinner := confined_logAll thread now s actions
    rcases log_guarded_cases thread now s actions with ⟨rs, -, -, hlog⟩ | ⟨-, hlog⟩
    · rw [hlog]
      exact hinner
    · rw [hlog, confined_append, confined_singleton]
      refine ⟨hinner, ?_⟩
      rintro since ⟨⟩
      exact Nat.le_refl now
  | .thread actions => by
    rw [log, ← List.singleton_append, confined_append]
    exact ⟨confined_singleton.2 nofun,
      (confined_logAll (some now) (now + 1) s.fork actions).mono (Nat.le_succ now)⟩

theorem confined_logAll (thread : Option Nat) (now : Nat) (s : BackendScope β) :
    (actions : List (ScopeAction β)) → Confined now (logAll thread now s actions)
  | [] => nofun
  | a :: rest => by
    rcases actAll_cons_cases s a rest thread now with ⟨-, hlog⟩ | ⟨r, -, -, hlog⟩
    · rw [hlog]
      exact confined_log thread now s a
    · rw [hlog, confined_append]
      exact ⟨confined_log thread now s a,
        (confined_logAll thread _ _ rest).mono (Nat.le_add_right now _)⟩

end

mutual

/-- The answers that an action gives back are those of its log that no abort
has lost. -/
theorem given_eq_kept (thread : Option Nat) (now : Nat) (s : BackendScope β) :
    (a : ScopeAction β) → ∀ r, (act s a).1 = some r → given r = kept now (log thread now s a)
  | .current | .describe | .setDefault _ => by
    rintro r ⟨⟩
    rw [log, kept_singleton]
    rfl
  | .abort => nofun
  | .within b actions => by
    intro r hr
    rw [act_within] at hr
    obtain ⟨rs, hrs, rfl⟩ := Option.map_eq_some_iff.1 hr
    have hconfined := confined_logAll thread (now + 1) (s.enter b) actions
    have hend : ∀ {n : Nat} {stack : List β}, Confined n [⟨thread, stack, .closed now⟩] :=
      confined_singleton.2 nofun
    rw [log, ← List.singleton_append, kept_append hend, kept_append hconfined, kept_singleton,
      kept_singleton]
    exact (givenAll_eq_kept thread (now + 1) (s.enter b) actions rs hrs).trans
      (List.append_nil _).symm
  | .guarded actions => by
    intro r hr
    rcases log_guarded_cases thread now s actions with ⟨rs, hrun, hrs, hlog⟩ | ⟨hrun, hlog⟩
    · rw [hrun] at hr
      cases hr
      rw [hlog]
      exact givenAll_eq_kept thread now s actions rs hrs
    · rw [hrun] at hr
      cases hr
      rw [hlog, kept_caught]
      rfl
  | .thread actions => by
    intro r hr
    rw [act_thread] at hr
    obtain ⟨rs, hrs, rfl⟩ := Option.map_eq_some_iff.1 hr
    have hconfined := confined_logAll (some now) (now + 1) s.fork actions
    rw [log, ← List.singleton_append, kept_append hconfined, kept_singleton]
    exact givenAll_eq_kept (some now) (now + 1) s.fork actions rs hrs

theorem givenAll_eq_kept (thread : Option Nat) (now : Nat) (s : BackendScope β) :
    (actions : List (ScopeAction β)) → ∀ rs, (actAll s actions).1 = some rs →
      givenAll rs = kept now (logAll thread now s actions)
  | [] => by
    rintro rs ⟨⟩
    rfl
  | a :: rest => by
    intro rs hrs
    rcases actAll_cons_cases s a rest thread now with ⟨hrun, -⟩ | ⟨r, hr, hrun, hlog⟩
    · rw [hrun] at hrs
      cases hrs
    · rw [hrun] at hrs
      obtain ⟨rs', hrs', rfl⟩ := Option.map_eq_some_iff.1 hrs
      rw [hlog, kept_append (confined_logAll thread _ _ rest), givenAll,
        given_eq_kept thread now s a r hr, givenAll_eq_kept thread _ _ rest rs' hrs']

end

/-! ### Main result -/

/-- **Scopes nest and unwind.**  Whatever a thread does after a start with
default `b`, every question is answered with the backend of the innermost scope
that is still open on the thread that asks, or else with the default set last.
Every scope that begins ends, also if an abort passes through it, and its
thread then has the stack that it had before.  The run leaves the default set
last and no open scopes, also if it is aborted; if it is not, the answers that
it gives back are those of the log that no abort has lost. -/
theorem scopes_nest (b : β) (actions : List (ScopeAction β)) :
    let entries := logAll none 0 (initial b) actions
    (∀ before e after, entries = before ++ e :: after → Truthful b before e) ∧
    (∀ (k : Nat) thread stack c, entries[k]? = some ⟨thread, stack, .opened c⟩ →
      ∃ j, k < j ∧ entries[j]? = some ⟨thread, stack, .closed k⟩) ∧
    (∀ (j : Nat) thread stack k, entries[j]? = some ⟨thread, stack, .closed k⟩ →
      k < j ∧ ∃ c, entries[k]? = some ⟨thread, stack, .opened c⟩) ∧
    (actAll (initial b) actions).2 = ⟨latestDefault b entries, []⟩ ∧
    ∀ rs, (actAll (initial b) actions).1 = some rs → givenAll rs = kept 0 entries := by
  intro entries
  have hbalanced : Balanced 0 entries := balanced_logAll none 0 (initial b) actions
  have hdefault := default_actAll none 0 (initial b) actions
  have hstack := stack_actAll (initial b) actions
  refine ⟨?_, ?_, ?_, ?_, ?_⟩
  · exact answered_logAll (Tells.initial b) actions
  · intro k thread stack c hk
    simp only [← List.mk_mem_zipIdx_iff_getElem?] at hk ⊢
    exact hbalanced.exists_closed hk
  · intro j thread stack k hj
    simp only [← List.mk_mem_zipIdx_iff_getElem?] at hj ⊢
    exact hbalanced.exists_opened hj
  · generalize (actAll (initial b) actions).2 = last at hdefault hstack ⊢
    obtain ⟨default, stack⟩ := last
    exact congrArg₂ BackendScope.mk hdefault hstack
  · exact givenAll_eq_kept none 0 (initial b) actions

-- an abort passes through two scopes; a default set inside a scope is seen by
-- another thread at once, and by the first one when its scope has ended
example : (actAll (initial 0) [.within 1 [.guarded [.within 2 [.within 3 [.current, .abort]]],
      .current, .setDefault 4, .thread [.current]], .current]).1 =
    some [.answers [.aborted, .backend 1, .replaced 0, .answers [.backend 4]], .backend 4] :=
  rfl

end BackendScope

end ArrayFusion
