import Mathlib.Algebra.Order.Ring.Int
import Tslock.Foundation.Runs
import Tslock.Sql.Statements

/-! Any number of `StorageBasedLockProvider`s over one table: each call of `lock`, `unlock` and
`extend` is split at its statements, and a statement is one atomic step. -/
namespace Tslock.Sql

open Function Foundation

/-- The names a provider has seen a record for. -/
abbrev LockRecordRegistry := String → Bool

namespace LockRecordRegistry

def lockRecordRecentlyCreated (r : LockRecordRegistry) (name : String) : Bool := r name

def addRecord (r : LockRecordRegistry) (name : String) : LockRecordRegistry := update r name true

def clearCache (r : LockRecordRegistry) (name : String) : LockRecordRegistry :=
  update r name false

end LockRecordRegistry

/-- Where a pending `lock()` call stands. `now` is the clock reading bound to the statement. -/
inductive LockPhase where
  | inserting (now : ℤ)
  | inserted (ok : Bool)
  | updating (now : ℤ)
  | updated (ok : Bool)
deriving DecidableEq, Repr

/-- No statement of the call has been granted so far. -/
def LockPhase.Ungranted : LockPhase → Prop
  | .inserting _ | .updating _ => True
  | .inserted ok | .updated ok => ok = false

structure LockCall where
  provider : ℕ
  config : LockConfiguration ℤ
  phase : LockPhase
deriving DecidableEq, Repr

/-- Where a `StorageLock` stands. `returning` has its record but `lock()` or `extend()` has not
returned it yet; `orphaned` never will be returned. -/
inductive HandlePhase where
  | returning
  | orphaned
  | valid
  | unlocking (now : ℤ)
  | extending (newConfig : LockConfiguration ℤ)
  | extendBound (newConfig : LockConfiguration ℤ) (now : ℤ)
  | unlocked
  | extended
deriving DecidableEq, Repr

structure StorageLock where
  provider : ℕ
  config : LockConfiguration ℤ
  phase : HandlePhase
deriving DecidableEq, Repr

/-- Neither unlocked nor successfully extended. -/
def StorageLock.Outstanding (l : StorageLock) : Prop := l.phase ≠ .unlocked ∧ l.phase ≠ .extended

instance (l : StorageLock) : Decidable l.Outstanding := inferInstanceAs (Decidable (_ ∧ _))

structure System where
  clock : ℤ
  table : Table ℤ
  registry : ℕ → LockRecordRegistry
  calls : ℕ → Option LockCall
  locks : ℕ → Option StorageLock

namespace System

def setCall (s : System) (i : ℕ) (call : Option LockCall) : System :=
  { s with calls := update s.calls i call }

def setLock (s : System) (i : ℕ) (lock : StorageLock) : System :=
  { s with locks := update s.locks i (some lock) }

def setRegistry (s : System) (p : ℕ) (r : LockRecordRegistry) : System :=
  { s with registry := update s.registry p r }

/-- A phase change of an existing handle. -/
def setPhase (s : System) (i : ℕ) (lock : StorageLock) (phase : HandlePhase) : System :=
  s.setLock i { lock with phase }

end System

/-- Who moves: the clock, the call or handle `i`, or a caller of `clearCache`. -/
inductive Party where
  | clock
  | call (i : ℕ)
  | cache (provider : ℕ)
deriving DecidableEq, Repr

variable (lockedByValue : ℕ → String)

/-- The parameters of the statement that call or handle `i` waits for. -/
def statementParams (provider : ℕ) (now : ℤ) (config : LockConfiguration ℤ)
    (previous : Option ℤ) : Params ℤ :=
  params (lockedByValue provider) now now config previous

/-- The call of `lock()` and the reply of each of its statements. A successful statement creates
the handle; a call may also fail before or after its statement ran. -/
inductive LockStep : System → ℕ → System → Prop where
  | called {s : System} {i p : ℕ} {config : LockConfiguration ℤ} :
      s.calls i = none → s.locks i = none → config.DurationsValid → config.createdAt ≤ s.clock →
      LockStep s i (s.setCall i (some ⟨p, config,
        if (s.registry p).lockRecordRecentlyCreated config.name
        then .updating s.clock else .inserting s.clock⟩))
  | insertGranted {s : System} {i p : ℕ} {config : LockConfiguration ℤ} {now : ℤ}
      {table : Table ℤ} {out : QueryOutcome} :
      s.calls i = some ⟨p, config, .inserting now⟩ →
      insertStatement (statementParams lockedByValue p now config none) s.table = (table, out) →
      out.succeeded = true →
      LockStep s i (({ s with table }.setLock i ⟨p, config, .returning⟩).setCall i
        (some ⟨p, config, .inserted true⟩))
  | insertRefused {s : System} {i p : ℕ} {config : LockConfiguration ℤ} {now : ℤ}
      {table : Table ℤ} {out : QueryOutcome} :
      s.calls i = some ⟨p, config, .inserting now⟩ →
      insertStatement (statementParams lockedByValue p now config none) s.table = (table, out) →
      out.succeeded = false →
      LockStep s i ({ s with table }.setCall i (some ⟨p, config, .inserted false⟩))
  | updateGranted {s : System} {i p : ℕ} {config : LockConfiguration ℤ} {now : ℤ}
      {table : Table ℤ} {out : QueryOutcome} :
      s.calls i = some ⟨p, config, .updating now⟩ →
      updateStatement (statementParams lockedByValue p now config none) s.table = (table, out) →
      out.succeeded = true →
      LockStep s i (({ s with table }.setLock i ⟨p, config, .returning⟩).setCall i
        (some ⟨p, config, .updated true⟩))
  | updateRefused {s : System} {i p : ℕ} {config : LockConfiguration ℤ} {now : ℤ}
      {table : Table ℤ} {out : QueryOutcome} :
      s.calls i = some ⟨p, config, .updating now⟩ →
      updateStatement (statementParams lockedByValue p now config none) s.table = (table, out) →
      out.succeeded = false →
      LockStep s i ({ s with table }.setCall i (some ⟨p, config, .updated false⟩))
  | insertedReturns {s : System} {i p : ℕ} {config : LockConfiguration ℤ} {lock : StorageLock} :
      s.calls i = some ⟨p, config, .inserted true⟩ → s.locks i = some lock →
      lock.phase = .returning →
      LockStep s i (((s.setPhase i lock .valid).setCall i none).setRegistry p
        ((s.registry p).addRecord config.name))
  | insertedFallsThrough {s : System} {i p : ℕ} {config : LockConfiguration ℤ} :
      s.calls i = some ⟨p, config, .inserted false⟩ →
      LockStep s i ((s.setCall i (some ⟨p, config, .updating s.clock⟩)).setRegistry p
        ((s.registry p).addRecord config.name))
  | updatedReturns {s : System} {i p : ℕ} {config : LockConfiguration ℤ} {lock : StorageLock} :
      s.calls i = some ⟨p, config, .updated true⟩ → s.locks i = some lock →
      lock.phase = .returning →
      LockStep s i ((s.setPhase i lock .valid).setCall i none)
  | updatedSkips {s : System} {i p : ℕ} {config : LockConfiguration ℤ} :
      s.calls i = some ⟨p, config, .updated false⟩ → LockStep s i (s.setCall i none)
  | insertThrows {s : System} {i p : ℕ} {config : LockConfiguration ℤ} {now : ℤ} :
      s.calls i = some ⟨p, config, .inserting now⟩ → LockStep s i (s.setCall i none)
  | updateThrows {s : System} {i p : ℕ} {config : LockConfiguration ℤ} {now : ℤ} :
      s.calls i = some ⟨p, config, .updating now⟩ →
      LockStep s i ((s.setCall i none).setRegistry p ((s.registry p).clearCache config.name))
  | insertReplyLost {s : System} {i p : ℕ} {config : LockConfiguration ℤ} {lock : StorageLock} :
      s.calls i = some ⟨p, config, .inserted true⟩ → s.locks i = some lock →
      lock.phase = .returning →
      LockStep s i ((s.setPhase i lock .orphaned).setCall i none)
  | updateReplyLost {s : System} {i p : ℕ} {config : LockConfiguration ℤ} {lock : StorageLock} :
      s.calls i = some ⟨p, config, .updated true⟩ → s.locks i = some lock →
      lock.phase = .returning →
      LockStep s i (((s.setPhase i lock .orphaned).setCall i none).setRegistry p
        ((s.registry p).clearCache config.name))

/-- `unlock()` and `extend()` of one handle: calls do not overlap and no response is lost, so a
call that fails did not reach the row and leaves the handle valid. -/
inductive HandleStep : System → ℕ → System → Prop where
  | unlockCalled {s : System} {i : ℕ} {lock : StorageLock} :
      s.locks i = some lock → lock.phase = .valid →
      HandleStep s i (s.setPhase i lock (.unlocking s.clock))
  | unlockRan {s : System} {i : ℕ} {lock : StorageLock} {now : ℤ} {table : Table ℤ}
      {out : QueryOutcome} :
      s.locks i = some lock → lock.phase = .unlocking now →
      unlockStatement (statementParams lockedByValue lock.provider now lock.config none) s.table =
        (table, out) →
      HandleStep s i ({ s with table }.setPhase i lock .unlocked)
  | unlockThrows {s : System} {i : ℕ} {lock : StorageLock} {now : ℤ} :
      s.locks i = some lock → lock.phase = .unlocking now →
      HandleStep s i (s.setPhase i lock .valid)
  | extendCalled {s : System} {i : ℕ} {lock : StorageLock} {most least : ℤ} :
      s.locks i = some lock → lock.phase = .valid → 0 ≤ least → least ≤ most →
      HandleStep s i (s.setPhase i lock
        (.extending (lock.config.successor most least s.clock)))
  | extendBinds {s : System} {i : ℕ} {lock : StorageLock} {newConfig : LockConfiguration ℤ} :
      s.locks i = some lock → lock.phase = .extending newConfig →
      HandleStep s i (s.setPhase i lock (.extendBound newConfig s.clock))
  | extendGranted {s : System} {i j : ℕ} {lock : StorageLock} {newConfig : LockConfiguration ℤ}
      {now : ℤ} {table : Table ℤ} {out : QueryOutcome} :
      s.locks i = some lock → lock.phase = .extendBound newConfig now →
      s.locks j = none → s.calls j = none →
      extendStatement (statementParams lockedByValue lock.provider now newConfig
        (some lock.config.lockAtMostUntil)) s.table = (table, out) →
      out.succeeded = true →
      HandleStep s i (({ s with table }.setPhase i lock .extended).setLock j
        ⟨lock.provider, newConfig, .returning⟩)
  | extendRefused {s : System} {i : ℕ} {lock : StorageLock} {newConfig : LockConfiguration ℤ}
      {now : ℤ} {table : Table ℤ} {out : QueryOutcome} :
      s.locks i = some lock → lock.phase = .extendBound newConfig now →
      extendStatement (statementParams lockedByValue lock.provider now newConfig
        (some lock.config.lockAtMostUntil)) s.table = (table, out) →
      out.succeeded = false →
      HandleStep s i ({ s with table }.setPhase i lock .valid)
  | extendThrows {s : System} {i : ℕ} {lock : StorageLock} {newConfig : LockConfiguration ℤ} :
      s.locks i = some lock →
      lock.phase = .extending newConfig ∨ (∃ now, lock.phase = .extendBound newConfig now) →
      HandleStep s i (s.setPhase i lock .valid)
  | extendReturns {s : System} {i : ℕ} {lock : StorageLock} :
      s.locks i = some lock → lock.phase = .returning → s.calls i = none →
      HandleStep s i (s.setPhase i lock .valid)

inductive Step : System → Party → System → Prop where
  | tick {s : System} {now : ℤ} : s.clock ≤ now → Step s .clock { s with clock := now }
  | lock {s t : System} {i : ℕ} : LockStep lockedByValue s i t → Step s (.call i) t
  | handle {s t : System} {i : ℕ} : HandleStep lockedByValue s i t → Step s (.call i) t
  | clearCache {s : System} {p : ℕ} {name : String} :
      Step s (.cache p) (s.setRegistry p ((s.registry p).clearCache name))

/-- Providers start with empty registries over a table that may hold rows of earlier runs. -/
def system : TransitionSystem System Party where
  Initial s := (∀ p name, s.registry p name = false) ∧ (∀ i, s.calls i = none) ∧
    ∀ i, s.locks i = none
  Step := Step lockedByValue

end Tslock.Sql
