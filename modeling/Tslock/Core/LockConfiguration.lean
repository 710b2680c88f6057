import Mathlib.Algebra.Order.Group.Defs
import Mathlib.Algebra.Order.Monoid.Unbundled.Basic

/-! `lock-configuration.ts`: the configuration and its three deadlines, over any time type. -/
namespace Tslock

structure LockConfiguration (τ : Type*) where
  name : String
  lockAtMostFor : τ
  lockAtLeastFor : τ
  createdAt : τ
deriving DecidableEq, Repr

namespace LockConfiguration

variable {τ : Type*}

def lockAtMostUntil [Add τ] (config : LockConfiguration τ) : τ :=
  config.createdAt + config.lockAtMostFor

def lockAtLeastUntil [Add τ] (config : LockConfiguration τ) : τ :=
  config.createdAt + config.lockAtLeastFor

/-- `now` is the reading of `ClockProvider.now()`. -/
def unlockTime [Add τ] [Max τ] (now : τ) (config : LockConfiguration τ) : τ :=
  max now config.lockAtLeastUntil

/-- What `createLockConfig` checks of the two durations. -/
def DurationsValid [Zero τ] [LE τ] (config : LockConfiguration τ) : Prop :=
  0 ≤ config.lockAtLeastFor ∧ config.lockAtLeastFor ≤ config.lockAtMostFor

instance [Zero τ] [LE τ] [DecidableLE τ] (config : LockConfiguration τ) :
    Decidable config.DurationsValid :=
  inferInstanceAs (Decidable (_ ∧ _))

/-- The configuration `AbstractSimpleLock.extend` hands to `doExtend`. -/
def successor (config : LockConfiguration τ) (lockAtMostFor lockAtLeastFor now : τ) :
    LockConfiguration τ :=
  { name := config.name, lockAtMostFor, lockAtLeastFor, createdAt := now }

@[simp] theorem successor_name (config : LockConfiguration τ) (m l now : τ) :
    (config.successor m l now).name = config.name := rfl

@[simp] theorem lockAtMostUntil_successor [Add τ] (config : LockConfiguration τ) (m l now : τ) :
    (config.successor m l now).lockAtMostUntil = now + m := rfl

@[simp] theorem lockAtLeastUntil_successor [Add τ] (config : LockConfiguration τ) (m l now : τ) :
    (config.successor m l now).lockAtLeastUntil = now + l := rfl

end LockConfiguration

end Tslock
