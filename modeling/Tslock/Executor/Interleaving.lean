import Mathlib.Logic.Function.Basic
import Tslock.Core.LockAssert
import Tslock.Foundation.Runs

/-! Calls of `executeWithLock` that nest, overlap and outlive each other, over any number of
executors. A call is cut at its `await`s; the code of a task may start further calls at any time,
also after the task has settled. -/
namespace Tslock.Executor

open Function Foundation

/-- Where a call stands: it waits for `lock()`, never ran its task, runs it, waits for `unlock()`
or has returned. -/
inductive CallPhase where
  | locking
  | notExecuted
  | running
  | unlocking
  | finished
deriving DecidableEq, Repr

/-- A call of `executeWithLock`. `parent` is the call whose task context it was started in, `names`
the store it found there, and `grantedBy` the provider that granted its lock. -/
structure Call where
  executor : ℕ
  name : String
  parent : Option ℕ
  names : LockAssert.Store
  grantedBy : Option ℕ
  phase : CallPhase
deriving DecidableEq

/-- The store in the context of the task: a call that acquired a lock ran `runWithLock`. -/
def Call.context (c : Call) : LockAssert.Store :=
  if c.grantedBy.isSome then LockAssert.runWithLock c.names c.name else c.names

/-- The task body has been started. -/
def CallPhase.Started (p : CallPhase) : Prop := p = .running ∨ p = .unlocking ∨ p = .finished

/-- The call will not run its task any further. -/
def CallPhase.Settled (p : CallPhase) : Prop := p = .notExecuted ∨ p = .finished

abbrev Calls := ℕ → Option Call

/-- The store a call started by `parent` finds. -/
def inheritedNames (s : Calls) (parent : Option ℕ) : LockAssert.Store :=
  (parent.bind s).bind Call.context

inductive CallEvent where
  | start (i : ℕ) (parent : Option ℕ)
  | granted (i : ℕ)
  | refused (i : ℕ)
  | settled (i : ℕ)
  | unlocked (i : ℕ)
deriving DecidableEq, Repr

/-- `provider x` is the lock provider of executor `x`. The shortcut of a call whose name is
already on the stack starts the task at once; otherwise the task starts when the provider has
granted the lock. -/
inductive CallStep (provider : ℕ → ℕ) : Calls → CallEvent → Calls → Prop where
  | reentrant {s : Calls} {i x : ℕ} {name : String} {parent : Option ℕ} :
      s i = none → (∀ p, parent = some p → ∃ c, s p = some c ∧ c.phase.Started) →
      LockAssert.alreadyLockedBy (inheritedNames s parent) name = true →
      CallStep provider s (.start i parent) (update s i (some
        { executor := x, name, parent, names := inheritedNames s parent,
          grantedBy := none, phase := .running }))
  | asks {s : Calls} {i x : ℕ} {name : String} {parent : Option ℕ} :
      s i = none → (∀ p, parent = some p → ∃ c, s p = some c ∧ c.phase.Started) →
      LockAssert.alreadyLockedBy (inheritedNames s parent) name = false →
      CallStep provider s (.start i parent) (update s i (some
        { executor := x, name, parent, names := inheritedNames s parent,
          grantedBy := none, phase := .locking }))
  | granted {s : Calls} {i : ℕ} {c : Call} :
      s i = some c → c.phase = .locking →
      CallStep provider s (.granted i)
        (update s i (some { c with grantedBy := some (provider c.executor), phase := .running }))
  | refused {s : Calls} {i : ℕ} {c : Call} :
      s i = some c → c.phase = .locking →
      CallStep provider s (.refused i) (update s i (some { c with phase := .notExecuted }))
  | settledReentrant {s : Calls} {i : ℕ} {c : Call} :
      s i = some c → c.phase = .running → c.grantedBy = none →
      CallStep provider s (.settled i) (update s i (some { c with phase := .finished }))
  | settledLocked {s : Calls} {i : ℕ} {c : Call} :
      s i = some c → c.phase = .running → c.grantedBy.isSome = true →
      CallStep provider s (.settled i) (update s i (some { c with phase := .unlocking }))
  | unlocked {s : Calls} {i : ℕ} {c : Call} :
      s i = some c → c.phase = .unlocking →
      CallStep provider s (.unlocked i) (update s i (some { c with phase := .finished }))

def callSystem (provider : ℕ → ℕ) : TransitionSystem Calls CallEvent where
  Initial s := ∀ i, s i = none
  Step := CallStep provider

/-- A task settles after the calls started in its context, and starts none afterwards: every call
is awaited. -/
def Awaited (s : Calls) : CallEvent → Prop
  | .start _ parent => ∀ p, parent = some p → ∃ c, s p = some c ∧ c.phase = .running
  | .settled i => ∀ j c, s j = some c → c.parent = some i → c.phase.Settled
  | _ => True

/-- `q` is `i` or a call in whose task `i` was started, at any distance. -/
inductive Encloses (s : Calls) : ℕ → ℕ → Prop where
  | self {i : ℕ} {c : Call} : s i = some c → Encloses s i i
  | parent {q p i : ℕ} {c : Call} :
      s i = some c → c.parent = some p → Encloses s q p → Encloses s q i

/-- `d`, the call `q`, is around `i` and has been granted the lock `name`, which it has not
released yet. -/
structure HoldsAround (t : Calls) (i : ℕ) (name : String) (q : ℕ) (d : Call) : Prop where
  encloses : Encloses t q i
  call : t q = some d
  name : d.name = name
  granted : d.grantedBy.isSome = true
  unreleased : d.phase = .running ∨ d.phase = .unlocking

end Tslock.Executor
