import Mathlib.Algebra.Order.Ring.Rat
import Tslock.Core.LockConfiguration

/-! `KeepAliveLock` of `keep-alive-lock-provider.ts` over handles of any type. Its methods are cut
at their `await`; times and durations are exact rationals, because `lockAtMostFor / 2` need not be
whole. -/
namespace Tslock

def minLockAtMostFor : ℚ := 30000

structure KeepAliveLock (H : Type*) where
  active : Bool
  lost : Bool
  released : Bool
  remainingLockAtLeastFor : ℚ
  currentLockAtMostUntil : ℚ
  currentLock : H
  baseConfig : LockConfiguration ℚ
deriving DecidableEq

/-- What `onKeepAliveFailure` is called with. -/
inductive KeepAliveFailure where
  /-- `LockException('Keep-alive lock was lost')` -/
  | lost
  /-- the first of two rejections of `extend` -/
  | firstError
deriving DecidableEq, Repr

namespace KeepAliveLock

variable {H : Type*}

def create (initialLock : H) (baseConfig : LockConfiguration ℚ) : KeepAliveLock H where
  active := true
  lost := false
  released := false
  remainingLockAtLeastFor := baseConfig.lockAtLeastFor
  currentLockAtMostUntil := baseConfig.lockAtMostUntil
  currentLock := initialLock
  baseConfig := baseConfig

def deactivate (k : KeepAliveLock H) : KeepAliveLock H := { k with active := false }

def markLost (k : KeepAliveLock H) : KeepAliveLock H := { k with lost := true }.deactivate

/-- How far `extendForNextPeriod` gets before it awaits `extend`. -/
inductive Attempt (H : Type*) where
  | inactive
  | lost
  | call (extended : H) (lockAtMostFor next : ℚ)
deriving DecidableEq

def extendForNextPeriod (k : KeepAliveLock H) (now : ℚ) : Attempt H :=
  if k.active = false then .inactive
  else if k.currentLockAtMostUntil < now then .lost
  else .call k.currentLock k.baseConfig.lockAtMostFor (max 0 k.remainingLockAtLeastFor)

/-- The rest of `extendForNextPeriod` once `extend` has answered; `now` was read before the call.
The flag says whether `onKeepAliveFailure` is called. -/
def afterExtend [DecidableEq H] (k : KeepAliveLock H) (extended : H) (next now : ℚ) :
    Option H → KeepAliveLock H × Bool
  | none =>
    if k.released then (k, false)
    else if k.currentLock ≠ extended ∨ k.lost then (k, false)
    else (k.markLost, true)
  | some newLock =>
    if k.released then (k, false)
    else ({ k with
      lost := false
      currentLock := newLock
      currentLockAtMostUntil := now + k.baseConfig.lockAtMostFor
      remainingLockAtLeastFor := max 0 (next - k.baseConfig.lockAtMostFor / 2) }, false)

/-- `doUnlock` up to its `await`; the handle to unlock, unless the lock counts as lost. -/
def doUnlock (k : KeepAliveLock H) : KeepAliveLock H × Option H :=
  ({ k with released := true }.deactivate, if k.lost then none else some k.currentLock)

variable {k : KeepAliveLock H} {extended newLock : H} {next now : ℚ}

@[simp] theorem markLost_released : k.markLost.released = k.released := rfl

@[simp] theorem doUnlock_released : k.doUnlock.1.released = true := rfl

@[simp] theorem doUnlock_lost : k.doUnlock.1.lost = k.lost := rfl

theorem extendForNextPeriod_lost (h : k.extendForNextPeriod now = .lost) :
    k.active = true ∧ k.currentLockAtMostUntil < now := by
  unfold extendForNextPeriod at h
  split_ifs at h with ha hl
  exact ⟨by simpa using ha, hl⟩

theorem extendForNextPeriod_call {most : ℚ}
    (h : k.extendForNextPeriod now = .call extended most next) :
    k.active = true ∧ k.currentLock = extended ∧ now ≤ k.currentLockAtMostUntil := by
  unfold extendForNextPeriod at h
  split_ifs at h with ha hl
  cases h
  exact ⟨by simpa using ha, rfl, not_lt.mp hl⟩

theorem doUnlock_none (h : k.doUnlock.2 = none) : k.lost = true := by
  unfold doUnlock at h
  by_contra hl
  simp [hl] at h

theorem doUnlock_some {h : H} (hd : k.doUnlock.2 = some h) :
    k.lost = false ∧ k.currentLock = h := by
  unfold doUnlock at hd
  cases hl : k.lost <;> simp_all

variable [DecidableEq H]

@[simp] theorem afterExtend_released (r : Option H) :
    (k.afterExtend extended next now r).1.released = k.released := by
  cases r <;> simp only [afterExtend] <;> split_ifs <;> simp_all

theorem afterExtend_of_released (r : Option H) (h : k.released = true) :
    k.afterExtend extended next now r = (k, false) := by
  cases r <;> simp [afterExtend, h]

/-- A refused renewal changes nothing unless it is reported. -/
theorem afterExtend_none_cases (k : KeepAliveLock H) (extended : H) (next now : ℚ) :
    k.afterExtend extended next now none = (k, false) ∨
    (k.released = false ∧ k.currentLock = extended ∧ k.lost = false ∧
      k.afterExtend extended next now none = (k.markLost, true)) := by
  simp only [afterExtend]
  split_ifs <;> simp_all

theorem afterExtend_some (h : k.released = false) :
    (k.afterExtend extended next now (some newLock)).1.currentLock = newLock ∧
    (k.afterExtend extended next now (some newLock)).1.lost = false := by
  simp [afterExtend, h]

end KeepAliveLock

end Tslock
