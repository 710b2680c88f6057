import Tslock.Core.LeaseProtocol
import Tslock.Executor.Reentrancy

/-! Any number of executors over the lock providers of one store. Call `i` of an executor goes with
call `i` of its provider, which is also the handle it was granted. -/
namespace Tslock.Deployment

open Function Foundation LeaseProtocol
open Executor (Calls Call CallEvent CallStep Awaited)

variable {σ Q ε τ : Type} {A : Q → Type}

/-- The calls of `executeWithLock` and those of the providers. -/
structure State (σ Q : Type) (A : Q → Type) (ε τ : Type) where
  calls : Calls
  locks : Service.State (LeaseProtocol.State σ τ) Q A ε Bool

inductive Event where
  | call (e : CallEvent)
  | lock (e : Service.Event)
deriving DecidableEq, Repr

abbrev State.handle (s : State σ Q A ε τ) (i : ℕ) : Option (LockCall (Phase τ) τ) :=
  s.locks.shared.locks i

section System

variable [LinearOrder τ]

/-- `lock()`, `unlock()` and `extendActiveLock()` start calls of the provider, which go on among all
others; an executor learns how one of its own settles. A task awaits its `extendActiveLock()`, and
`unlock()` of a handle whose failed extension has changed the record is left out: it could meet the
old deadline in a record of somebody else. -/
inductive Step (provider : ℕ → ℕ) (storage : Storage σ Q A τ) (code : Code Q A ε τ) :
    State σ Q A ε τ → Event → State σ Q A ε τ → Prop where
  | shortcut {s : State σ Q A ε τ} {calls : Calls} {i : ℕ} {parent : Option ℕ} {c : Call} :
      CallStep provider s.calls (.start i parent) calls → calls i = some c → c.phase = .running →
      Step provider storage code s (.call (.start i parent)) { s with calls }
  | asks {s : State σ Q A ε τ} {calls : Calls}
      {locks : Service.State (LeaseProtocol.State σ τ) Q A ε Bool} {i : ℕ} {parent : Option ℕ}
      {c : Call} {config : LockConfiguration τ} :
      CallStep provider s.calls (.start i parent) calls → calls i = some c → c.phase = .locking →
      (service storage code).Step s.locks (.started i) locks →
      locks.shared.locks i = some ⟨config, .locking false⟩ → config.name = c.name →
      Step provider storage code s (.call (.start i parent)) ⟨calls, locks⟩
  | internal {s : State σ Q A ε τ} {locks : Service.State (LeaseProtocol.State σ τ) Q A ε Bool} :
      (service storage code).Step s.locks .internal locks →
      Step provider storage code s (.lock .internal) { s with locks }
  | served {s : State σ Q A ε τ} {locks : Service.State (LeaseProtocol.State σ τ) Q A ε Bool}
      {i : ℕ} :
      (service storage code).Step s.locks (.served i) locks →
      Step provider storage code s (.lock (.served i)) { s with locks }
  | granted {s : State σ Q A ε τ} {calls : Calls}
      {locks : Service.State (LeaseProtocol.State σ τ) Q A ε Bool} {i : ℕ} :
      CallStep provider s.calls (.granted i) calls → s.locks.running i = some (.done true) →
      (service storage code).Step s.locks (.settled i) locks →
      Step provider storage code s (.call (.granted i)) ⟨calls, locks⟩
  | refused {s : State σ Q A ε τ} {calls : Calls}
      {locks : Service.State (LeaseProtocol.State σ τ) Q A ε Bool} {i : ℕ} :
      CallStep provider s.calls (.refused i) calls → s.locks.running i ≠ some (.done true) →
      (service storage code).Step s.locks (.settled i) locks →
      Step provider storage code s (.call (.refused i)) ⟨calls, locks⟩
  | asksExtension {s : State σ Q A ε τ} {locks : Service.State (LeaseProtocol.State σ τ) Q A ε Bool}
      {i : ℕ} {c : Call} {config : LockConfiguration τ} {most least now : τ} :
      s.calls i = some c → c.phase = .running → c.grantedBy.isSome = true →
      (service storage code).Step s.locks (.started i) locks →
      locks.shared.locks i = some ⟨config, .extending most least now false⟩ →
      Step provider storage code s (.lock (.started i)) { s with locks }
  | extensionSettled {s : State σ Q A ε τ}
      {locks : Service.State (LeaseProtocol.State σ τ) Q A ε Bool} {i : ℕ} {c : Call} :
      s.calls i = some c → c.phase = .running →
      (service storage code).Step s.locks (.settled i) locks →
      Step provider storage code s (.lock (.settled i)) { s with locks }
  | settledShortcut {s : State σ Q A ε τ} {calls : Calls} {i : ℕ} {c : Call} :
      CallStep provider s.calls (.settled i) calls → s.calls i = some c → c.grantedBy = none →
      Step provider storage code s (.call (.settled i)) { s with calls }
  | settled {s : State σ Q A ε τ} {calls : Calls}
      {locks : Service.State (LeaseProtocol.State σ τ) Q A ε Bool} {i : ℕ} {c : Call}
      {config : LockConfiguration τ} :
      CallStep provider s.calls (.settled i) calls → s.calls i = some c →
      c.grantedBy.isSome = true → (service storage code).Step s.locks (.started i) locks →
      locks.shared.locks i = some ⟨config, .unlocking false⟩ →
      Step provider storage code s (.call (.settled i)) ⟨calls, locks⟩
  | unlocked {s : State σ Q A ε τ} {calls : Calls}
      {locks : Service.State (LeaseProtocol.State σ τ) Q A ε Bool} {i : ℕ} :
      CallStep provider s.calls (.unlocked i) calls →
      (service storage code).Step s.locks (.settled i) locks →
      Step provider storage code s (.call (.unlocked i)) ⟨calls, locks⟩

/-- Every call that a task starts is awaited. -/
def AwaitedCalls (s : State σ Q A ε τ) : Event → Prop
  | .call e => Awaited s.calls e
  | .lock _ => True

def system (provider : ℕ → ℕ) (storage : Storage σ Q A τ) (code : Code Q A ε τ) :
    TransitionSystem (State σ Q A ε τ) Event where
  Initial s := (∀ i, s.calls i = none) ∧ (service storage code).system.Initial s.locks
  Step s e t := Step provider storage code s e t ∧ AwaitedCalls s e

variable {provider : ℕ → ℕ} {storage : Storage σ Q A τ} {code : Code Q A ε τ}
  {s t u : State σ Q A ε τ} {e : Event} {i j : ℕ} {c d : Call}

/-- What a step is to the providers. -/
theorem locks_step (h : Step provider storage code s e t) :
    t.locks = s.locks ∨ ∃ b, (service storage code).Step s.locks b t.locks := by
  cases h with
  | shortcut | settledShortcut => exact .inl rfl
  | asks _ _ _ h | internal h | served h | granted _ _ h | refused _ _ h | asksExtension _ _ _ h
  | extensionSettled _ _ h | settled _ _ _ h | unlocked _ h => exact .inr ⟨_, h⟩

/-- What a step is to the executors. -/
theorem calls_step (h : Step provider storage code s e t) :
    t.calls = s.calls ∧ (∃ b, e = .lock b) ∨
      ∃ b, e = .call b ∧ CallStep provider s.calls b t.calls := by
  cases h with
  | internal | served | asksExtension | extensionSettled => exact .inl ⟨rfl, _, rfl⟩
  | shortcut h | asks h | granted h | refused h | settledShortcut h | settled h | unlocked h =>
    exact .inr ⟨_, rfl, h⟩

theorem locks_abstraction : TransitionSystem.Abstraction (system provider storage code)
    (service storage code).system State.locks where
  initial _ h := h.2
  step _ _ _ _ h := locks_step h.1

theorem calls_abstraction : TransitionSystem.Abstraction (system provider storage code)
    ((Executor.callSystem provider).guarded Awaited) State.calls where
  initial _ h := h.1
  step s e t _ h := by
    obtain ⟨hstep, hawaited⟩ := h
    rcases calls_step hstep with ⟨hsame, -⟩ | ⟨b, rfl, hb⟩
    · exact .inl hsame
    · exact .inr ⟨b, hb, hawaited⟩

end System

end Tslock.Deployment
