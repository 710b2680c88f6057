import Mathlib.Algebra.Order.Field.Rat
import Mathlib.Data.Rat.Floor
import Mathlib.Tactic.Linarith
import Mathlib.Tactic.Ring
import Tslock.Core.KeepAliveLock

/-! How long a lock stays unavailable after `unlock()`, when it was renewed on schedule. A handle
is given by its configuration. -/
namespace Tslock.KeepAlive

/-- The period that the constructor hands to `setInterval`. -/
def renewalPeriod (baseConfig : LockConfiguration ℚ) : ℚ := ⌊baseConfig.lockAtMostFor / 2⌋

def tickTime (config : LockConfiguration ℚ) (k : ℕ) : ℚ :=
  config.createdAt + k * renewalPeriod config

/-- A renewal at `now` whose `extend` succeeds; every reading of the clock is `now`. -/
def renewAt (lock : KeepAliveLock (LockConfiguration ℚ)) (now : ℚ) :
    KeepAliveLock (LockConfiguration ℚ) :=
  match lock.extendForNextPeriod now with
  | .inactive => lock
  | .lost => lock.markLost
  | .call extended lockAtMostFor next =>
    (lock.afterExtend extended next now (some (extended.successor lockAtMostFor next now))).1

/-- The lock after its first `k` renewals. -/
def renewed (config : LockConfiguration ℚ) : ℕ → KeepAliveLock (LockConfiguration ℚ)
  | 0 => .create config config
  | k + 1 => renewAt (renewed config k) (tickTime config (k + 1))

/-- When the lock can be had again after an `unlock()` at `now`: the current handle writes its
`unlockTime`. -/
def availableAt (lock : KeepAliveLock (LockConfiguration ℚ)) (now : ℚ) : Option ℚ :=
  lock.doUnlock.2.map (·.unlockTime now)

/-- Where the minimum hold of the current handle ends after `k` renewals. The first renewal asks
for the whole of it again. -/
def holdUntil (config : LockConfiguration ℚ) : ℕ → ℚ
  | 0 => config.lockAtLeastUntil
  | k + 1 => max (tickTime config (k + 1)) (config.lockAtLeastUntil + renewalPeriod config)

/-- A lock after `k` renewals, all of which succeeded. -/
structure OnSchedule (config : LockConfiguration ℚ) (k : ℕ)
    (lock : KeepAliveLock (LockConfiguration ℚ)) : Prop where
  active : lock.active = true
  lost : lock.lost = false
  released : lock.released = false
  baseConfig : lock.baseConfig = config
  remaining : lock.remainingLockAtLeastFor =
    max 0 (config.lockAtLeastFor - k * renewalPeriod config)
  atMostUntil : lock.currentLockAtMostUntil = tickTime config k + config.lockAtMostFor
  hold : lock.currentLock.lockAtLeastUntil = holdUntil config k

variable {config : LockConfiguration ℚ} {lock : KeepAliveLock (LockConfiguration ℚ)} {k : ℕ}
  {u : ℚ}

theorem tickTime_succ : tickTime config (k + 1) = tickTime config k + renewalPeriod config := by
  unfold tickTime
  push_cast
  ring

theorem renewalPeriod_of_even {m : ℤ} (hm : config.lockAtMostFor = 2 * m) :
    renewalPeriod config = config.lockAtMostFor / 2 := by
  have hhalf : config.lockAtMostFor / 2 = m := by
    rw [hm]
    ring
  unfold renewalPeriod
  rw [hhalf, Int.floor_intCast]

/-- A renewal on schedule comes before the local deadline and asks for what remains. -/
theorem extendForNextPeriod_onSchedule (hl : OnSchedule config k lock)
    (hle : renewalPeriod config ≤ config.lockAtMostFor) :
    lock.extendForNextPeriod (tickTime config (k + 1)) =
      .call lock.currentLock config.lockAtMostFor lock.remainingLockAtLeastFor := by
  have hbefore : ¬ lock.currentLockAtMostUntil < tickTime config (k + 1) := by
    rw [hl.atMostUntil, tickTime_succ]
    linarith
  have hremaining : max 0 lock.remainingLockAtLeastFor = lock.remainingLockAtLeastFor := by
    rw [hl.remaining]
    exact max_eq_right (le_max_left _ _)
  simp only [KeepAliveLock.extendForNextPeriod, hl.active, hl.baseConfig, hremaining, hbefore]
  simp

/-- The hold of the successor: one period too long, as the remainder was not yet reduced. -/
theorem hold_successor :
    tickTime config (k + 1) + max 0 (config.lockAtLeastFor - k * renewalPeriod config) =
      holdUntil config (k + 1) := by
  have hsum : tickTime config (k + 1) + (config.lockAtLeastFor - k * renewalPeriod config) =
      config.lockAtLeastUntil + renewalPeriod config := by
    unfold tickTime LockConfiguration.lockAtLeastUntil
    push_cast
    ring
  unfold holdUntil
  rw [← max_add_add_left, add_zero, hsum]

theorem remaining_succ {p l : ℚ} (hp : 0 ≤ p) :
    max 0 (max 0 (l - k * p) - p) = max 0 (l - (k + 1 : ℕ) * p) := by
  have hnext : l - k * p - p = l - (k + 1 : ℕ) * p := by
    push_cast
    ring
  rcases le_total 0 (l - k * p) with hpos | hneg
  · rw [max_eq_right hpos, hnext]
  · rw [max_eq_left hneg, max_eq_left (by linarith), max_eq_left (by linarith)]

theorem renewAt_onSchedule (hl : OnSchedule config k lock) (hpos : 0 ≤ config.lockAtMostFor)
    (hperiod : renewalPeriod config = config.lockAtMostFor / 2) :
    OnSchedule config (k + 1) (renewAt lock (tickTime config (k + 1))) := by
  have hcall := extendForNextPeriod_onSchedule hl (by linarith)
  simp only [renewAt, hcall, KeepAliveLock.afterExtend, hl.released, Bool.false_eq_true, if_false]
  constructor
  · exact hl.active
  · rfl
  · rfl
  · exact hl.baseConfig
  · change max 0 (lock.remainingLockAtLeastFor - lock.baseConfig.lockAtMostFor / 2) = _
    rw [hl.remaining, hl.baseConfig, ← hperiod]
    exact remaining_succ (by linarith)
  · change tickTime config (k + 1) + lock.baseConfig.lockAtMostFor = _
    rw [hl.baseConfig]
  · rw [LockConfiguration.lockAtLeastUntil_successor, hl.remaining]
    exact hold_successor

theorem renewed_onSchedule (hvalid : config.DurationsValid)
    (hperiod : renewalPeriod config = config.lockAtMostFor / 2) (k : ℕ) :
    OnSchedule config k (renewed config k) := by
  induction k with
  | zero =>
    constructor
    case remaining => simpa [renewed, KeepAliveLock.create] using hvalid.1
    case atMostUntil => simp [renewed, KeepAliveLock.create, tickTime,
        LockConfiguration.lockAtMostUntil]
    all_goals rfl
  | succ k ih => exact renewAt_onSchedule ih (le_trans hvalid.1 hvalid.2) hperiod

/-- Every one of the renewals calls `extend`, on the handle that the one before it returned. -/
theorem renewed_extends (hvalid : config.DurationsValid)
    (hperiod : renewalPeriod config = config.lockAtMostFor / 2) (k : ℕ) :
    (renewed config k).extendForNextPeriod (tickTime config (k + 1)) =
      .call (renewed config k).currentLock config.lockAtMostFor
        (max 0 (config.lockAtLeastFor - k * renewalPeriod config)) := by
  have hl := renewed_onSchedule hvalid hperiod k
  have hpos := le_trans hvalid.1 hvalid.2
  rw [← hl.remaining]
  exact extendForNextPeriod_onSchedule hl (by linarith)

theorem availableAt_onSchedule (hl : OnSchedule config k lock) (u : ℚ) :
    availableAt lock u = some (max u (holdUntil config k)) := by
  have hunlocks : lock.doUnlock.2 = some lock.currentLock := by
    simp [KeepAliveLock.doUnlock, hl.lost]
  rw [availableAt, hunlocks, ← hl.hold]
  rfl

/-- After `k` renewals on schedule, `unlock()` makes the lock available when it would have been
without them, if and only if there was none or the minimum hold ended half of `lockAtMostFor`
ago. -/
theorem minimumHold_unchanged_iff (hvalid : config.DurationsValid)
    (hmin : minLockAtMostFor ≤ config.lockAtMostFor)
    (heven : ∃ m : ℤ, config.lockAtMostFor = 2 * m) (hafter : tickTime config k ≤ u) :
    availableAt (renewed config k) u = some (config.unlockTime u) ↔
      k = 0 ∨ config.createdAt + config.lockAtLeastFor + config.lockAtMostFor / 2 ≤ u := by
  obtain ⟨m, hm⟩ := heven
  have hperiod := renewalPeriod_of_even hm
  have hpos : 0 < renewalPeriod config := by
    unfold minLockAtMostFor at hmin
    linarith
  rw [availableAt_onSchedule (renewed_onSchedule hvalid hperiod k), Option.some_inj]
  change max u (holdUntil config k) = max u config.lockAtLeastUntil ↔ _
  cases k with
  | zero => simp [holdUntil]
  | succ k =>
    have hheld : max u (holdUntil config (k + 1)) =
        max u (config.lockAtLeastUntil + renewalPeriod config) := by
      unfold holdUntil
      rw [← max_assoc, max_eq_left hafter]
    have hcondition : config.createdAt + config.lockAtLeastFor + config.lockAtMostFor / 2 =
        config.lockAtLeastUntil + renewalPeriod config := by
      rw [hperiod]
      rfl
    rw [hheld, hcondition]
    constructor
    · intro hsame
      right
      by_contra hlate
      rw [max_eq_right (le_of_not_ge hlate)] at hsame
      rcases max_choice u config.lockAtLeastUntil with hu | hleast
      · exact hlate (le_of_eq (hsame.trans hu))
      · linarith
    · rintro (hzero | hover)
      · cases hzero
      · rw [max_eq_left hover, max_eq_left (by linarith)]

/-- A minimum hold that is over long before the first renewal. -/
def report : LockConfiguration ℚ :=
  { name := "report", lockAtMostFor := 30000, lockAtLeastFor := 1000, createdAt := 0 }

/-- One renewal, and the lock is held for a second after `unlock()`. -/
theorem report_held_again : report.DurationsValid ∧ minLockAtMostFor ≤ report.lockAtMostFor ∧
    report.lockAtMostFor = 2 * 15000 ∧ tickTime report 1 ≤ 15000 ∧ 15000 < tickTime report 2 ∧
    availableAt (renewed report 1) 15000 = some 16000 ∧ report.unlockTime 15000 = 15000 := by
  decide +kernel

/-- After the second renewal the minimum hold is over. -/
theorem report_available : availableAt (renewed report 2) 31000 = some (report.unlockTime 31000) :=
  (minimumHold_unchanged_iff (by decide +kernel) (by decide +kernel) ⟨15000, by decide +kernel⟩
    (by decide +kernel)).mpr (.inr (by decide +kernel))

end Tslock.KeepAlive
