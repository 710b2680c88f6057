import Mathlib.Tactic.NormNum
import Tslock.KeepAlive.Renewals

/-! What `unlock()` leaves behind while renewals are in flight. -/
namespace Tslock.KeepAlive

open Function Foundation

namespace System

/-- The stored deadline is no later than the minimum hold of a handle of the chain. -/
def WithinMinimumHold (s : System) : Prop := ∃ c ∈ s.chain, s.row.lockUntil ≤ c.lockAtLeastUntil

/-- The stored deadline is no later than `u` or the minimum hold of a handle of the chain. -/
def ReleasedBy (s : System) (u : ℚ) : Prop :=
  ∃ c ∈ s.chain, s.row.lockUntil ≤ max u c.lockAtLeastUntil

/-- What a resolved `unlock()` owes to a row that is still of this acquisition. -/
def Released (s : System) : Prop :=
  ∀ u k, s.unlocking = .resolved u ∨ s.unlocking = .skipped u → s.writer = .own k → s.ReleasedBy u

end System

variable (host : String)

/-- The row still carries the deadline of the current handle, which does not count as lost. -/
def CurrentCarried (s : System) : Prop :=
  s.keepAlive.lost = false ∧ ∃ c, s.chain[s.keepAlive.currentLock]? = some c ∧
    Sql.unlockMatches (unlockParams host c s.clock) s.row

/-- The time `unlock()` is to release the lock at, unless it has rejected. -/
def Unlocking.releaseTime : Unlocking → Option ℚ
  | .idle | .rejected => none
  | .pending _ u | .resolved u | .skipped u => some u

/-- `unlock()` finds the deadline of the current handle in a live row, and no extend that would
hold the lock beyond that time and the minimum holds takes effect afterwards. -/
def ReleaseGuard (s : System) : Event → Prop
  | .unlockCalled => s.LiveOwn → s.WithinMinimumHold ∨ CurrentCarried host s
  | .effect i => ∀ u ∈ s.unlocking.releaseTime, ∀ r call c, s.renewals i = .called r call →
      s.chain[call.extended]? = some c → Sql.extendMatches (call.params host c) s.row →
      ∃ c' ∈ s.chain ++ [call.newConfig],
        call.newConfig.lockAtMostUntil ≤ max u c'.lockAtLeastUntil
  | _ => True

/-- What holds of a row of this acquisition in each phase of `unlock()`. -/
def ReleaseDue (s : System) : Unlocking → Prop
  | .idle | .rejected => True
  | .pending j u => s.ReleasedBy u ∨
      ∃ c, s.chain[j]? = some c ∧ Sql.unlockMatches (unlockParams host c u) s.row
  | .resolved u | .skipped u => s.ReleasedBy u

structure ReleaseInvariant (s : System) : Prop where
  nonempty : ∃ c, c ∈ s.chain
  due : ∀ k, s.writer = .own k → ReleaseDue host s s.unlocking

variable {host} {s t : System} {e : Event} {i : ℕ} {config : LockConfiguration ℚ} {u : ℚ}

theorem releasedBy_of_withinMinimumHold (h : s.WithinMinimumHold) : s.ReleasedBy u := by
  obtain ⟨c, hc, hle⟩ := h
  exact ⟨c, hc, hle.trans (le_max_right _ _)⟩

theorem releaseDue_of_releasedBy {p : Unlocking} (h : ∀ u ∈ p.releaseTime, s.ReleasedBy u) :
    ReleaseDue host s p := by
  cases p with
  | idle => trivial
  | rejected => trivial
  | pending j u => exact .inl (h u rfl)
  | resolved u => exact h u rfl
  | skipped u => exact h u rfl

/-- When `unlock()` is called, the lease has ended, is short enough or is the current handle's. -/
theorem unlockCalled_cases {k : ℕ} (hg : ReleaseGuard host s .unlockCalled)
    (hi : ReleaseInvariant host s) (hk : s.writer = .own k) :
    s.ReleasedBy s.clock ∨ CurrentCarried host s := by
  by_cases hlive : s.LiveOwn
  · rcases hg hlive with hmin | hcarried
    · exact .inl (releasedBy_of_withinMinimumHold hmin)
    · exact .inr hcarried
  · obtain ⟨c, hc⟩ := hi.nonempty
    have hended : s.row.lockUntil ≤ s.clock := by
      by_contra hlt
      exact hlive ⟨⟨k, hk⟩, not_le.mp hlt⟩
    exact .inl ⟨c, hc, hended.trans (le_max_left _ _)⟩

/-- The phases of `unlock()` only look at the lease. -/
theorem releaseDue_congr (h : SameLease s t) (p : Unlocking) :
    ReleaseDue host t p ↔ ReleaseDue host s p := by
  cases p <;> simp [ReleaseDue, System.ReleasedBy, h.row, h.chain]

theorem releaseInvariant_of_sameLease (h : SameLease s t) (hi : ReleaseInvariant host s) :
    ReleaseInvariant host t := by
  refine ⟨by rw [h.chain]; exact hi.nonempty, ?_⟩
  intro k hk
  rw [h.unlocking]
  exact (releaseDue_congr h _).mpr (hi.due k (h.writer ▸ hk))

theorem lockUntil_rowAfterUnlock {row : Sql.Row ℚ}
    (hm : Sql.unlockMatches (unlockParams host config u) row) :
    (rowAfterUnlock host config u row).lockUntil = max u config.lockAtLeastUntil := by
  simp [rowAfterUnlock, hm, LockConfiguration.unlockTime]

/-- An extend that takes effect after `unlock()` was called is short enough by the guard. -/
theorem effect_releaseInvariant (hs : EffectStep host s i t) (hg : ReleaseGuard host s (.effect i))
    (hi : ReleaseInvariant host s) : ReleaseInvariant host t := by
  rcases effect_cases hs with hsame | ⟨r, call, c, hc, hget, hm, hrow, -, hchain, hu⟩
  · exact releaseInvariant_of_sameLease hsame hi
  refine ⟨⟨call.newConfig, by simp [hchain]⟩, ?_⟩
  intro k _
  rw [hu]
  apply releaseDue_of_releasedBy
  intro u hdue
  obtain ⟨c', hc', hle⟩ := hg u hdue r call c hc hget hm
  refine ⟨c', hchain ▸ hc', ?_⟩
  rw [hrow]
  exact hle

/-- The statement of `unlock` writes what is due, or the row was short enough before it. -/
theorem releasedBy_of_ran {h : Handle} {j : ℕ} (hget : s.handles[j]? = some h)
    (hdue : ReleaseDue host s (.pending j u)) :
    System.ReleasedBy { s with
      row := rowAfterUnlock host h.config u s.row, unlocking := .resolved u } u := by
  by_cases hm : Sql.unlockMatches (unlockParams host h.config u) s.row
  · have hmem : h.config ∈ s.chain := List.mem_of_getElem? (chain_getElem? hget)
    exact ⟨h.config, hmem, (lockUntil_rowAfterUnlock hm).le⟩
  · have hsame : rowAfterUnlock host h.config u s.row = s.row := by simp [rowAfterUnlock, hm]
    rcases hdue with ⟨c, hc, hle⟩ | ⟨c, hc, hcarried⟩
    · refine ⟨c, hc, ?_⟩
      rw [hsame]
      exact hle
    · -- the row carries the deadline of this very handle, so the statement matches it
      rw [chain_getElem? hget] at hc
      cases hc
      exact absurd hcarried hm

/-- The call leaves the row to the statement. -/
theorem unlock_releaseInvariant (hs : UnlockStep host s e t) (hg : ReleaseGuard host s e)
    (hi : ReleaseInvariant host s) : ReleaseInvariant host t := by
  cases hs with
  | skipped _ hskip =>
    refine ⟨hi.nonempty, ?_⟩
    intro k hk
    rcases unlockCalled_cases hg hi hk with hby | ⟨hkept, -⟩
    · exact hby
    · rw [KeepAliveLock.doUnlock_none hskip] at hkept
      cases hkept
  | called _ hcall =>
    refine ⟨hi.nonempty, ?_⟩
    intro k hk
    obtain ⟨-, rfl⟩ := KeepAliveLock.doUnlock_some hcall
    rcases unlockCalled_cases hg hi hk with hby | ⟨-, hcarried⟩
    · exact .inl hby
    · exact .inr hcarried
  | throws => exact ⟨hi.nonempty, fun _ _ => trivial⟩
  | fails => exact ⟨hi.nonempty, fun _ _ => trivial⟩
  | ran hp hget =>
    refine ⟨hi.nonempty, ?_⟩
    intro k hk
    exact releasedBy_of_ran hget (hp ▸ hi.due k hk)

theorem releaseInvariant_step (hs : Step host s e t) (hg : ReleaseGuard host s e)
    (hi : ReleaseInvariant host s) : ReleaseInvariant host t := by
  cases hs with
  | tick => exact releaseInvariant_of_sameLease (s := s) ⟨rfl, rfl, rfl, rfl⟩ hi
  | attempt h => exact releaseInvariant_of_sameLease (attempt_sameLease h) hi
  | failure h => exact releaseInvariant_of_sameLease (failure_sameLease h) hi
  | response h => exact releaseInvariant_of_sameLease (response_sameLease h) hi
  | effect h => exact effect_releaseInvariant h hg hi
  | unlock h => exact unlock_releaseInvariant h hg hi
  | other h =>
    refine ⟨by cases h <;> exact hi.nonempty, ?_⟩
    intro k hk
    cases h with
    | lock => cases hk
    | write hw =>
      rw [show s.writer = .own k from hk] at hw
      cases hw

/-- No renewal leaves a released lock held, in every run whose steps meet the guard. -/
theorem keepAlive_releases
    (hr : ((system host config).guarded (ReleaseGuard host)).Reachable s) : s.Released := by
  have hinv : ReleaseInvariant host s := by
    refine hr.invariant ?_ ?_
    · intro s₀ h₀
      refine ⟨⟨config, by simp [System.chain, h₀.handles]⟩, ?_⟩
      intro k _
      rw [h₀.unlocking]
      trivial
    · intro s a t _ hs hi
      exact releaseInvariant_step hs.1 hs.2 hi
  intro u k hu hk
  have hdue := hinv.due k hk
  rcases hu with hu | hu
  · rw [hu] at hdue
    exact hdue
  · rw [hu] at hdue
    exact hdue

/-- The one `unlock()` call is made while the lease is live and of this acquisition. -/
def UnlockedWhileLive (s : System) : Event → Prop
  | .unlockCalled => s.LiveOwn
  | _ => True

def nightly : LockConfiguration ℚ :=
  { name := "nightly", lockAtMostFor := 60000, lockAtLeastFor := 0, createdAt := 0 }

/-- The keep-alive lock of `nightly` right after its acquisition. -/
def nightlyStarted : System where
  clock := 0
  row := { lockUntil := 60000, lockedAt := 0, lockedBy := "web" }
  writer := .own 0
  handles := [⟨nightly, true⟩]
  keepAlive := .create 0 nightly
  renewals := fun _ => .ready false
  unlocking := .idle
  failures := []

theorem nightlyStarted_started : Started "web" nightly nightlyStarted where
  longEnough := by norm_num [minLockAtMostFor, nightly]
  durations := by norm_num [LockConfiguration.DurationsValid, nightly]
  createdAt := le_rfl
  rowUntil := by norm_num [nightlyStarted, nightly, LockConfiguration.lockAtMostUntil]
  rowHost := rfl
  writer := rfl
  handles := rfl
  keepAlive := rfl
  renewals := fun _ => rfl
  unlocking := rfl
  failures := rfl

/-- `nightly` half a period later, when the first renewal has called `extend`. -/
def nightlyRenewing : System :=
  { nightlyStarted with
    clock := 30000
    renewals := update nightlyStarted.renewals 0 (.called false
      { extended := 0, next := 0, now := 30000, boundAt := 30000,
        newConfig := nightly.successor 60000 0 30000 }) }

/-- The first renewal has taken effect in the store. -/
def nightlyRenewed : System :=
  { nightlyRenewing with
    row := { lockUntil := 90000, lockedAt := 0, lockedBy := "web" }
    writer := .own 1
    handles := [⟨nightly, true⟩, ⟨nightly.successor 60000 0 30000, true⟩]
    renewals := update nightlyRenewing.renewals 0 (.answered false
      { extended := 0, next := 0, now := 30000, boundAt := 30000,
        newConfig := nightly.successor 60000 0 30000 } (some 1)) }

theorem nightlyStarted_attempts :
    AttemptStep nightlyStarted 0 30000 nightlyRenewing := by
  have hcall : nightlyStarted.keepAlive.extendForNextPeriod 30000 = .call 0 60000 0 := by
    norm_num [nightlyStarted, KeepAliveLock.extendForNextPeriod, KeepAliveLock.create, nightly,
      LockConfiguration.lockAtMostUntil]
  exact .calls rfl (by norm_num [nightlyStarted]) le_rfl le_rfl le_rfl hcall rfl rfl

theorem nightlyRenewing_extends : EffectStep "web" nightlyRenewing 0 nightlyRenewed := by
  have hrow : (90000 : ℚ) = (nightly.successor 60000 0 30000).lockAtMostUntil := by norm_num
  have hmatch : Sql.extendMatches (ExtendCall.params "web"
      { extended := 0, next := 0, now := 30000, boundAt := 30000,
        newConfig := nightly.successor 60000 0 30000 } nightly) nightlyRenewing.row := by
    norm_num [Sql.extendMatches, ExtendCall.params, Sql.params, nightlyRenewing, nightlyStarted,
      nightly, LockConfiguration.lockAtMostUntil]
  unfold nightlyRenewed
  rw [hrow]
  exact .granted (h := ⟨nightly, true⟩) rfl rfl hmatch

/-- `unlock()` while the renewal waits for its response: the released row is held until 90000. -/
theorem nightly_held_after_unlock :
    ∃ s, ((system "web" nightly).guarded UnlockedWhileLive).Reachable s ∧ s.Settled ∧
      s.unlocking = .resolved 30000 ∧ s.writer = .own 1 ∧ s.row.lockUntil = 90000 ∧
      s.chain = [nightly, nightly.successor 60000 0 30000] := by
  have hmiss : rowAfterUnlock "web" nightly 30000 nightlyRenewed.row = nightlyRenewed.row := by
    norm_num [rowAfterUnlock, Sql.unlockMatches, unlockParams, Sql.params, nightlyRenewed, nightly,
      LockConfiguration.lockAtMostUntil]
  have hlive : nightlyRenewed.LiveOwn :=
    ⟨⟨1, rfl⟩, by norm_num [nightlyRenewed, nightlyRenewing]⟩
  refine ⟨_, ⟨nightlyStarted, _, nightlyStarted_started, .step
    ⟨.attempt nightlyStarted_attempts, trivial⟩ <| .step
    ⟨.effect nightlyRenewing_extends, trivial⟩ <| .step
    ⟨.unlock (.called rfl rfl rfl rfl), hlive⟩ <| .step
    ⟨.unlock (.ran rfl rfl), trivial⟩ <| .step
    ⟨.response (i := 0) (.extended rfl rfl), trivial⟩ .refl⟩, ?_, rfl, rfl, ?_, rfl⟩
  · intro i
    by_cases hi : i = 0
    · subst hi
      rfl
    · exact (update_of_ne hi _ _).trans ((update_of_ne hi _ _).trans (update_of_ne hi _ _))
  · simp only [System.setRenewal]
    exact (congrArg Sql.Row.lockUntil hmiss)

/-- A renewal in flight can outlive `unlock()`. -/
theorem renewal_outlives_unlock :
    ¬ ∀ (host : String) (config : LockConfiguration ℚ) (s : System),
      ((system host config).guarded UnlockedWhileLive).Reachable s → s.Settled → s.Released := by
  intro h
  obtain ⟨s, hr, hsettled, hu, hw, hrow, hchain⟩ := nightly_held_after_unlock
  obtain ⟨c, hc, hle⟩ := h "web" nightly s hr hsettled 30000 1 (.inl hu) hw
  rw [hchain] at hc
  rw [hrow] at hle
  rcases List.mem_pair.mp hc with rfl | rfl
  · norm_num [nightly, LockConfiguration.lockAtLeastUntil] at hle
  · norm_num at hle

/-- Once the response of the renewal has arrived, `unlock()` releases the row at 30000. -/
theorem keepAlive_releases_renewed :
    ∃ s : System, s.unlocking = .resolved 30000 ∧ s.writer = .own 1 ∧ s.Released := by
  have hmatch : Sql.unlockMatches
      (unlockParams "web" (nightly.successor 60000 0 30000) nightlyRenewed.clock)
      nightlyRenewed.row := by
    refine ⟨rfl, ?_⟩
    norm_num [unlockParams, Sql.params, nightlyRenewed]
  refine ⟨_, ?_, ?_, keepAlive_releases ⟨nightlyStarted, _, nightlyStarted_started, .step
    ⟨.attempt nightlyStarted_attempts, trivial⟩ <| .step
    ⟨.effect nightlyRenewing_extends, nofun⟩ <| .step
    ⟨.response (i := 0) (.extended rfl rfl), trivial⟩ <| .step
    ⟨.unlock (.called rfl rfl rfl rfl), fun _ => .inr ⟨rfl, _, rfl, hmatch⟩⟩ <| .step
    ⟨.unlock (.ran rfl rfl), trivial⟩ .refl⟩⟩
  · rfl
  · rfl

end Tslock.KeepAlive
