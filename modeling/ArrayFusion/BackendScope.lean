/-
ArrayFusion/BackendScope.lean

Which backend is current.

A thread has a stack of open scopes, and all threads share one default.  The
current backend is that of the innermost open scope, or the default if none
is open.  A scope closes when its actions end, also when they are aborted.
-/
namespace ArrayFusion

variable {β : Type}

/-- The default backend, and the open scopes of one thread, innermost
first. -/
structure BackendScope (β : Type) where
  default : β
  stack : List β

/-- Something a thread does. -/
inductive ScopeAction (β : Type)
  /-- Asks for the current backend. -/
  | current
  /-- Asks for a description of the current backend. -/
  | describe
  /-- Replaces the default. -/
  | setDefault (b : β)
  /-- Runs actions in a scope. -/
  | within (b : β) (actions : List (ScopeAction β))
  /-- Runs actions and stops an abort of theirs. -/
  | guarded (actions : List (ScopeAction β))
  /-- Runs actions on a thread of their own. -/
  | thread (actions : List (ScopeAction β))
  | abort

/-- What an action answers. -/
inductive ScopeAnswer (β : Type)
  | backend (b : β)
  | description (b : β)
  /-- The default before it was replaced. -/
  | replaced (b : β)
  | answers (as : List (ScopeAnswer β))
  | aborted

namespace BackendScope

/-- The state of a thread before it does anything. -/
def initial (b : β) : BackendScope β := ⟨b, []⟩

/-- The current backend. -/
def current (s : BackendScope β) : β :=
  s.stack.headD s.default

/-- Opens a scope. -/
def enter (s : BackendScope β) (b : β) : BackendScope β :=
  { s with stack := b :: s.stack }

/-- Closes the innermost scope. -/
def leave (s : BackendScope β) : BackendScope β :=
  { s with stack := s.stack.tail }

/-- Closing a scope undoes opening it. -/
@[simp] theorem leave_enter (s : BackendScope β) (b : β) : (s.enter b).leave = s := rfl

@[simp] theorem current_enter (s : BackendScope β) (b : β) : (s.enter b).current = b := rfl

/-- A thread of its own starts without open scopes. -/
def fork (s : BackendScope β) : BackendScope β :=
  { s with stack := [] }

/-- The state after another thread ended: the default is shared. -/
def join (s t : BackendScope β) : BackendScope β :=
  { s with default := t.default }

mutual

/-- Runs one action; no answer if it aborts. -/
def act (s : BackendScope β) : ScopeAction β → Option (ScopeAnswer β) × BackendScope β
  | .current => (some (.backend s.current), s)
  | .describe => (some (.description s.current), s)
  | .setDefault b => (some (.replaced s.default), { s with default := b })
  | .within b actions =>
    match actAll (s.enter b) actions with
    | (some as, t) => (some (.answers as), t.leave)
    | (none, t) => (none, t.leave)
  | .guarded actions =>
    match actAll s actions with
    | (some as, t) => (some (.answers as), t)
    | (none, t) => (some .aborted, t)
  | .thread actions =>
    match actAll s.fork actions with
    | (some as, t) => (some (.answers as), s.join t)
    | (none, t) => (none, s.join t)
  | .abort => (none, s)

/-- Runs actions in order until one of them aborts. -/
def actAll (s : BackendScope β) :
    List (ScopeAction β) → Option (List (ScopeAnswer β)) × BackendScope β
  | [] => (some [], s)
  | a :: rest =>
    match act s a with
    | (none, t) => (none, t)
    | (some r, t) =>
      match actAll t rest with
      | (some rs, u) => (some (r :: rs), u)
      | (none, u) => (none, u)

end

end BackendScope

end ArrayFusion
