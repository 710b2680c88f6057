import Mathlib.Algebra.Order.Floor.Ring
import Mathlib.Data.Rat.Floor
import Tslock.Core.LockTable
import Tslock.Foundation.Runs
import Tslock.Sql.Statements

/-! `ServerTimeStatementsSource.params`, and its statements run by handles at times the clock of the
database shows. -/
namespace Tslock.Sql.ServerTime

open Function Foundation

/-- A `Date` counts whole milliseconds. -/
def timestampFor (epochMillis : ℚ) : ℚ := if 0 ≤ epochMillis then ⌊epochMillis⌋ else ⌈epochMillis⌉

/-- What `params` binds, and `now` for the expression the statements have in its place. -/
def params (lockedByValue : String) (now : ℚ) (lockConfig : LockConfiguration ℚ)
    (previousLockAtMostUntil : Option ℚ) : Params ℚ where
  name := lockConfig.name
  lockUntil := timestampFor (lockConfig.createdAt + lockConfig.lockAtMostFor)
  now := now
  lockedBy := lockedByValue
  unlockTime := timestampFor (max (lockConfig.createdAt + lockConfig.lockAtLeastFor)
    lockConfig.createdAt)
  previousLockUntil := previousLockAtMostUntil.map timestampFor

/-- Where a handle stands; `root` is the `lock()` call whose acquisition it goes on with. -/
inductive Phase where
  | held (root : ℕ)
  | unlocked (root : ℕ)
  | extended (root : ℕ)
deriving DecidableEq, Repr

/-- `clock` is the one of the database. `tenant` is the handle whose deadline was stored last, and
`acquired` is when a `lock()` call has taken its row; no client sees them. -/
structure System where
  clock : ℚ
  table : Table ℚ
  tenant : String → ℕ
  acquired : ℕ → Option ℚ
  locks : LockTable Phase ℚ

namespace System

def setPhase (s : System) (i : ℕ) (l : Tslock.LockCall Phase ℚ) (phase : Phase) : System :=
  { s with locks := s.locks.setPhase i l phase }

/-- A `lock()` call has taken its row. -/
def acquire (s : System) (i : ℕ) (config : LockConfiguration ℚ) (table : Table ℚ) : System where
  clock := s.clock
  table := table
  tenant := update s.tenant config.name i
  acquired := update s.acquired i (some s.clock)
  locks := update s.locks i (some ⟨config, .held i⟩)

/-- A handle has been extended by a new one. -/
def extend (s : System) (i j : ℕ) (l : Tslock.LockCall Phase ℚ) (root : ℕ)
    (newConfig : LockConfiguration ℚ) (table : Table ℚ) : System where
  clock := s.clock
  table := table
  tenant := update s.tenant newConfig.name j
  acquired := s.acquired
  locks := update (s.locks.setPhase i l (.extended root)) j (some ⟨newConfig, .held root⟩)

end System

inductive Event where
  | tick
  | locked (i : ℕ) (config : LockConfiguration ℚ)
  | refused
  | unlocked (i : ℕ)
  | extended (i : ℕ) (newConfig : LockConfiguration ℚ)
deriving DecidableEq, Repr

/-- `lockedBy` is the `lockedByValue` of the provider of each call. What `createdAt` reads is any
clock. -/
inductive Step (lockedBy : ℕ → String) : System → Event → System → Prop where
  | tick {s : System} {now : ℚ} : s.clock ≤ now → Step lockedBy s .tick { s with clock := now }
  | inserted {s : System} {i : ℕ} {config : LockConfiguration ℚ} {table : Table ℚ}
      {out : QueryOutcome} :
      s.locks i = none → config.DurationsValid →
      insertStatement (params (lockedBy i) s.clock config none) s.table = (table, out) →
      out.succeeded = true →
      Step lockedBy s (.locked i config) (s.acquire i config table)
  | updated {s : System} {i : ℕ} {config : LockConfiguration ℚ} {table : Table ℚ}
      {out : QueryOutcome} :
      s.locks i = none → config.DurationsValid →
      updateStatement (params (lockedBy i) s.clock config none) s.table = (table, out) →
      out.succeeded = true →
      Step lockedBy s (.locked i config) (s.acquire i config table)
  | insertRefused {s : System} {i : ℕ} {config : LockConfiguration ℚ} {table : Table ℚ}
      {out : QueryOutcome} :
      insertStatement (params (lockedBy i) s.clock config none) s.table = (table, out) →
      out.succeeded = false → Step lockedBy s .refused { s with table }
  | updateRefused {s : System} {i : ℕ} {config : LockConfiguration ℚ} {table : Table ℚ}
      {out : QueryOutcome} :
      updateStatement (params (lockedBy i) s.clock config none) s.table = (table, out) →
      out.succeeded = false → Step lockedBy s .refused { s with table }
  | unlocked {s : System} {i root : ℕ} {l : Tslock.LockCall Phase ℚ} {table : Table ℚ}
      {out : QueryOutcome} :
      s.locks i = some l → l.phase = .held root →
      unlockStatement (params (lockedBy i) s.clock l.config none) s.table = (table, out) →
      Step lockedBy s (.unlocked i) ({ s with table }.setPhase i l (.unlocked root))
  | extended {s : System} {i j root : ℕ} {l : Tslock.LockCall Phase ℚ} {most least createdAt : ℚ}
      {table : Table ℚ} {out : QueryOutcome} :
      s.locks i = some l → l.phase = .held root → s.locks j = none → lockedBy j = lockedBy i →
      extendStatement (params (lockedBy i) s.clock (l.config.successor most least createdAt)
        (some l.config.lockAtMostUntil)) s.table = (table, out) →
      out.succeeded = true →
      Step lockedBy s (.extended i (l.config.successor most least createdAt))
        (s.extend i j l root (l.config.successor most least createdAt) table)
  | extendRefused {s : System} {i root : ℕ} {l : Tslock.LockCall Phase ℚ} {most least createdAt : ℚ}
      {table : Table ℚ} {out : QueryOutcome} :
      s.locks i = some l → l.phase = .held root →
      extendStatement (params (lockedBy i) s.clock (l.config.successor most least createdAt)
        (some l.config.lockAtMostUntil)) s.table = (table, out) →
      out.succeeded = false → Step lockedBy s .refused { s with table }

/-- A table that may hold rows of earlier runs. -/
def system (lockedBy : ℕ → String) : TransitionSystem System Event where
  Initial s := (∀ i, s.acquired i = none) ∧ ∀ i, s.locks i = none
  Step := Step lockedBy

/-- The stored deadline is `lockAtMostFor` after the time at which the row is taken: `createdAt` is
that time, where both are whole milliseconds. A lease of no length may also be over before. -/
def OnTime (config : LockConfiguration ℚ) (now : ℚ) : Prop :=
  timestampFor config.lockAtMostUntil = now + config.lockAtMostFor ∨
    config.lockAtMostFor = 0 ∧ timestampFor config.createdAt ≤ now

/-- A row is taken on time, and an extension has durations that `createLockConfig` would accept and
does not end the lease earlier. -/
def Accurate (s : System) : Event → Prop
  | .locked _ config => OnTime config s.clock
  | .extended i newConfig => newConfig.DurationsValid ∧ ∀ l, s.locks i = some l →
    timestampFor l.config.lockAtMostUntil ≤ timestampFor newConfig.lockAtMostUntil
  | .tick | .refused | .unlocked _ => True

end Tslock.Sql.ServerTime
