import Tslock.KeepAlive.Release

/-! When a keep-alive lock reports its loss, and what the stored row says at that moment. -/
namespace Tslock.KeepAlive

open Function Foundation

/-- The events that call `onKeepAliveFailure` with the loss of the lock. -/
inductive Reports (s : System) : Event → Prop where
  | deadline {i : ℕ} {c : ℚ} :
      s.keepAlive.active = true → s.keepAlive.currentLockAtMostUntil < c →
      Reports s (.attempt i c)
  | refused {i : ℕ} {r : Bool} {call : ExtendCall} :
      s.renewals i = .answered r call none → s.keepAlive.released = false →
      s.keepAlive.currentLock = call.extended → s.keepAlive.lost = false →
      Reports s (.response i)

/-- No extend has taken effect whose successor is not in use: unless somebody else has written the
row since, the current handle wrote it last. -/
def SuccessorInUse (s : System) : Prop := ∀ k, s.writer = .own k → k = s.keepAlive.currentLock

/-- The deadline of the current handle is not later than the local one: `now` of the renewal and
`createdAt` of the successor were the same reading. -/
def LocalDeadline (s : System) : Prop :=
  ∀ c, s.chain[s.keepAlive.currentLock]? = some c →
    c.lockAtMostUntil ≤ s.keepAlive.currentLockAtMostUntil

/-- What a loss is reported, and a store unlock skipped, by: the current handle and its deadline. -/
structure ReportGuard (s : System) (e : Event) : Prop where
  inUse : Reports s e ∨ (e = .unlockCalled ∧ s.keepAlive.lost = true) → SuccessorInUse s
  deadline : ∀ i c, e = .attempt i c → Reports s e → LocalDeadline s

/-- What is known of a renewal. A refused extend says that the row has expired, unless somebody
else has written it. -/
def RenewalSound (s : System) : Renewal → Prop
  | .ready _ | .rejected _ => True
  | .called _ call => call.boundAt ≤ s.clock
  | .answered _ _ (some j) => j < s.handles.length
  | .answered _ call none => call.extended < s.handles.length ∧
      (s.keepAlive.released = false → s.writer = .own call.extended → s.row.lockUntil ≤ s.clock)

variable (host : String)

structure ReportInvariant (s : System) : Prop where
  active : s.keepAlive.released = true → s.keepAlive.active = false
  released : s.keepAlive.released = true ↔ s.unlocking ≠ .idle
  current : s.keepAlive.currentLock < s.handles.length
  renewals : ∀ i, RenewalSound s (s.renewals i)
  row : s.keepAlive.released = false → ∀ k, s.writer = .own k →
    ∃ c, s.chain[k]? = some c ∧ s.row.lockedBy = host ∧ s.row.lockUntil = c.lockAtMostUntil
  lost : s.keepAlive.released = false → s.keepAlive.lost = true →
    s.writer = .own s.keepAlive.currentLock → s.row.lockUntil ≤ s.clock

/-- While `unlock()` has not been called, the row of a handle made before the step is as it was. -/
structure Later (s t : System) : Prop where
  clock : s.clock ≤ t.clock
  handles : s.handles.length ≤ t.handles.length
  released : t.keepAlive.released = false → s.keepAlive.released = false
  lease : t.keepAlive.released = false → ∀ k < s.handles.length, t.writer = .own k →
    s.writer = .own k ∧ t.row = s.row

variable {host} {s t : System} {e : Event} {i : ℕ} {config : LockConfiguration ℚ} {c : ℚ}

theorem renewalSound_later (h : Later s t) {r : Renewal} (hr : RenewalSound s r) :
    RenewalSound t r := by
  have hlen := h.handles
  cases r with
  | ready => trivial
  | rejected => trivial
  | called r call => exact le_trans hr h.clock
  | answered r call a =>
    cases a with
    | some j => exact lt_of_lt_of_le hr hlen
    | none =>
      refine ⟨lt_of_lt_of_le hr.1 hlen, ?_⟩
      intro hrel hw
      obtain ⟨hws, hrow⟩ := h.lease hrel _ hr.1 hw
      rw [hrow]
      exact (hr.2 (h.released hrel) hws).trans h.clock

/-- A step that sets one renewal needs to account for that one only. -/
theorem renewals_later (h : Later s t) {r : Renewal} (hs : ∀ j, RenewalSound s (s.renewals j))
    (ht : t.renewals = update s.renewals i r) (hr : RenewalSound t r) (j : ℕ) :
    RenewalSound t (t.renewals j) := by
  rw [ht, update_apply]
  split_ifs
  · exact hr
  · exact renewalSound_later h (hs j)

/-- The row of a lease that is not touched still carries the deadline of its writer. -/
theorem row_of_sameLease (h : SameLease s t)
    (hrel : t.keepAlive.released = false → s.keepAlive.released = false)
    (hi : ReportInvariant host s) (hr : t.keepAlive.released = false) (k : ℕ)
    (hk : t.writer = .own k) :
    ∃ c, t.chain[k]? = some c ∧ t.row.lockedBy = host ∧ t.row.lockUntil = c.lockAtMostUntil := by
  rw [h.chain, h.row]
  exact hi.row (hrel hr) k (h.writer ▸ hk)

/-- While the current handle is in step with the store, its local deadline passes after the stored
one. -/
theorem expired_of_deadline (hi : ReportInvariant host s) (hg : ReportGuard s (.attempt i c))
    (ha : s.keepAlive.active = true)
    (hc : s.keepAlive.currentLockAtMostUntil < c) (k : ℕ) (hk : s.writer = .own k) :
    s.row.lockUntil ≤ c := by
  have hreports : Reports s (.attempt i c) := .deadline ha hc
  obtain rfl := hg.inUse (.inl hreports) k hk
  have hrel : s.keepAlive.released = false := by
    by_contra hr
    simp [hi.active (by simpa using hr)] at ha
  obtain ⟨d, hd, -, hrow⟩ := hi.row hrel _ hk
  rw [hrow]
  exact (hg.deadline i c rfl hreports d hd).trans hc.le

/-- A refusal of the handle that wrote the row means that the row has expired. -/
theorem expired_of_refused {r : Bool} {call : ExtendCall} (hi : ReportInvariant host s)
    (hg : ReportGuard s (.response i)) (ha : s.renewals i = .answered r call none)
    (hrel : s.keepAlive.released = false) (hcur : s.keepAlive.currentLock = call.extended)
    (hl : s.keepAlive.lost = false) (k : ℕ) (hk : s.writer = .own k) :
    s.row.lockUntil ≤ s.clock := by
  obtain rfl := hg.inUse (.inl (.refused ha hrel hcur hl)) k hk
  have hsound := hi.renewals i
  rw [ha] at hsound
  exact hsound.2 hrel (hcur ▸ hk)

/-- A lock that counts as lost has expired. -/
theorem expired_of_lost (hi : ReportInvariant host s) (hg : ReportGuard s .unlockCalled)
    (hu : s.unlocking = .idle) (hl : s.keepAlive.lost = true) (k : ℕ) (hk : s.writer = .own k) :
    s.row.lockUntil ≤ s.clock := by
  obtain rfl := hg.inUse (.inr ⟨rfl, hl⟩) k hk
  have hrel : s.keepAlive.released = false := by
    by_contra hr
    exact hi.released.mp (by simpa using hr) hu
  exact hi.lost hrel hl hk

theorem attempt_later (hs : AttemptStep s i c t) : Later s t := by
  cases hs with
  | inactive _ hle => exact ⟨hle, le_rfl, id, fun _ _ _ hw => ⟨hw, rfl⟩⟩
  | lost _ hle => exact ⟨hle, le_rfl, id, fun _ _ _ hw => ⟨hw, rfl⟩⟩
  | calls _ h₁ h₂ h₃ h₄ =>
    exact ⟨h₁.trans (h₂.trans (h₃.trans h₄)), le_rfl, id, fun _ _ _ hw => ⟨hw, rfl⟩⟩
  | throws _ h₁ h₂ => exact ⟨h₁.trans h₂, le_rfl, id, fun _ _ _ hw => ⟨hw, rfl⟩⟩

theorem attempt_reportInvariant (hs : AttemptStep s i c t) (hg : ReportGuard s (.attempt i c))
    (hi : ReportInvariant host s) : ReportInvariant host t := by
  have hlater := attempt_later hs
  have hrow := row_of_sameLease (attempt_sameLease hs) hlater.released hi
  cases hs with
  | inactive =>
    exact ⟨hi.active, hi.released, hi.current, renewals_later hlater hi.renewals rfl trivial,
      hrow, fun hr hl hw => (hi.lost hr hl hw).trans hlater.clock⟩
  | lost _ _ hk =>
    obtain ⟨ha, hc⟩ := KeepAliveLock.extendForNextPeriod_lost hk
    have hexpired := expired_of_deadline hi hg ha hc
    exact ⟨fun _ => rfl, hi.released, hi.current, renewals_later hlater hi.renewals rfl trivial,
      hrow, fun _ _ hw => hexpired _ hw⟩
  | calls =>
    exact ⟨hi.active, hi.released, hi.current, renewals_later hlater hi.renewals rfl le_rfl,
      hrow, fun hr hl hw => (hi.lost hr hl hw).trans hlater.clock⟩
  | throws =>
    exact ⟨hi.active, hi.released, hi.current, renewals_later hlater hi.renewals rfl trivial,
      hrow, fun hr hl hw => (hi.lost hr hl hw).trans hlater.clock⟩

/-- A refusal by a row that this very handle wrote comes from its expiry. -/
theorem expired_of_not_extendMatches {call : ExtendCall} {h : Handle}
    (hi : ReportInvariant host s) (hh : s.handles[call.extended]? = some h)
    (hm : ¬ Sql.extendMatches (call.params host h.config) s.row) (hb : call.boundAt ≤ s.clock)
    (hrel : s.keepAlive.released = false) (hw : s.writer = .own call.extended) :
    s.row.lockUntil ≤ s.clock := by
  obtain ⟨c, hc, hhost, hrow⟩ := hi.row hrel _ hw
  rw [chain_getElem? hh] at hc
  cases hc
  by_contra hlt
  exact hm ⟨hhost, lt_of_le_of_lt hb (not_le.mp hlt), congrArg some hrow⟩

theorem effect_reportInvariant (hs : EffectStep host s i t) (hi : ReportInvariant host s) :
    ReportInvariant host t := by
  cases hs with
  | @granted r call h hc hh hm =>
    have hlater : Later s { s.setRenewal i (.answered r call (some s.handles.length)) with
        row := { s.row with lockUntil := call.newConfig.lockAtMostUntil }
        writer := .own s.handles.length
        handles := s.handles ++ [⟨call.newConfig, true⟩] } := by
      refine ⟨le_rfl, by simp, id, ?_⟩
      intro _ k hlt hk
      cases hk
      exact absurd hlt (lt_irrefl _)
    have hlen : s.handles.length < (s.handles ++ [(⟨call.newConfig, true⟩ : Handle)]).length := by
      simp
    refine ⟨hi.active, hi.released, hi.current.trans hlen,
      renewals_later hlater hi.renewals rfl hlen, ?_, ?_⟩
    · intro _ k hk
      cases hk
      exact ⟨call.newConfig, by simp [System.chain], hm.1, rfl⟩
    · intro _ _ hw
      have hcur : s.handles.length = s.keepAlive.currentLock := Writer.own.inj hw
      exact absurd hi.current (by omega)
  | @refused r call h hc hh hm =>
    have hlater : Later s (s.setRenewal i (.answered r call none)) :=
      ⟨le_rfl, le_rfl, id, fun _ _ _ hw => ⟨hw, rfl⟩⟩
    have hb := hi.renewals i
    rw [hc] at hb
    have hlt : call.extended < s.handles.length := (List.getElem?_eq_some_iff.mp hh).1
    have hexpired := expired_of_not_extendMatches hi hh hm hb
    exact ⟨hi.active, hi.released, hi.current,
      renewals_later hlater hi.renewals rfl ⟨hlt, hexpired⟩, hi.row, hi.lost⟩

theorem failure_reportInvariant (hs : FailureStep s e t) (hi : ReportInvariant host s) :
    ReportInvariant host t := by
  have hlater : ∀ {j : ℕ} {r : Bool}, Later s (s.setRenewal j (.rejected r)) :=
    ⟨le_rfl, le_rfl, id, fun _ _ _ hw => ⟨hw, rfl⟩⟩
  cases hs with
  | query => exact ⟨hi.active, hi.released, hi.current,
      renewals_later hlater hi.renewals rfl trivial, hi.row, hi.lost⟩
  | response => exact ⟨hi.active, hi.released, hi.current,
      renewals_later hlater hi.renewals rfl trivial, hi.row, hi.lost⟩

theorem response_later (hs : ResponseStep s i t) : Later s t := by
  cases hs with
  | extended _ hh =>
    exact ⟨le_rfl, by simp, fun h => by simpa using h, fun _ _ _ hw => ⟨hw, rfl⟩⟩
  | refused => exact ⟨le_rfl, le_rfl, fun h => by simpa using h, fun _ _ _ hw => ⟨hw, rfl⟩⟩
  | retried => exact ⟨le_rfl, le_rfl, id, fun _ _ _ hw => ⟨hw, rfl⟩⟩
  | gaveUp => exact ⟨le_rfl, le_rfl, id, fun _ _ _ hw => ⟨hw, rfl⟩⟩

theorem response_reportInvariant (hs : ResponseStep s i t) (hg : ReportGuard s (.response i))
    (hi : ReportInvariant host s) : ReportInvariant host t := by
  have hlater := response_later hs
  have hrow := row_of_sameLease (response_sameLease hs) hlater.released hi
  cases hs with
  | retried =>
    exact ⟨hi.active, hi.released, hi.current, renewals_later hlater hi.renewals rfl trivial,
      hrow, hi.lost⟩
  | gaveUp =>
    exact ⟨fun _ => rfl, hi.released, hi.current, renewals_later hlater hi.renewals rfl trivial,
      hrow, hi.lost⟩
  | @extended j r call h ha hh =>
    have hj : j < s.handles.length := by
      have hsound := hi.renewals i
      rw [ha] at hsound
      exact hsound
    have hrenewals := renewals_later hlater hi.renewals rfl trivial
    cases hrel : s.keepAlive.released with
    | true =>
      simp only [KeepAliveLock.afterExtend_of_released _ hrel] at hlater hrow hrenewals ⊢
      exact ⟨hi.active, hi.released, by simpa using hi.current, hrenewals, hrow, hi.lost⟩
    | false =>
      have hcur :
          (s.keepAlive.afterExtend call.extended call.next call.now (some j)).1.currentLock = j :=
        (KeepAliveLock.afterExtend_some hrel).1
      have hlost : (s.keepAlive.afterExtend call.extended call.next call.now (some j)).1.lost =
          false := (KeepAliveLock.afterExtend_some hrel).2
      refine ⟨?_, ?_, ?_, hrenewals, hrow, ?_⟩
      · simp [hrel]
      · rw [KeepAliveLock.afterExtend_released]
        exact hi.released
      · rw [hcur]
        simpa using hj
      · intro _ hl
        rw [hlost] at hl
        cases hl
  | @refused r call ha =>
    have hrenewals := renewals_later hlater hi.renewals rfl trivial
    rcases s.keepAlive.afterExtend_none_cases call.extended call.next call.now with
      heq | ⟨hrel, hcur, hl, heq⟩
    · simp only [heq] at hlater hrow hrenewals ⊢
      exact ⟨hi.active, hi.released, hi.current, hrenewals, hrow, hi.lost⟩
    · have hexpired := expired_of_refused hi hg ha hrel hcur hl
      simp only [heq] at hlater hrow hrenewals ⊢
      exact ⟨fun _ => rfl, hi.released, hi.current, hrenewals, hrow,
        fun _ _ hw => hexpired _ hw⟩

theorem unlock_later (hs : UnlockStep host s e t) (hi : ReportInvariant host s) : Later s t := by
  cases hs with
  | skipped => exact ⟨le_rfl, le_rfl, nofun, nofun⟩
  | called => exact ⟨le_rfl, le_rfl, nofun, nofun⟩
  | throws => exact ⟨le_rfl, le_rfl, nofun, nofun⟩
  | ran hp =>
    -- the statement runs after `unlock()` was called
    have hrel : s.keepAlive.released = true := hi.released.mpr (by simp [hp])
    refine ⟨le_rfl, le_rfl, id, fun hr => ?_⟩
    rw [show s.keepAlive.released = false from hr] at hrel
    cases hrel
  | fails => exact ⟨le_rfl, le_rfl, id, fun _ _ _ hw => ⟨hw, rfl⟩⟩

theorem unlock_reportInvariant (hs : UnlockStep host s e t) (hi : ReportInvariant host s) :
    ReportInvariant host t := by
  have hlater := unlock_later hs hi
  have hrenewals : ∀ j, RenewalSound t (s.renewals j) :=
    fun j => renewalSound_later hlater (hi.renewals j)
  cases hs with
  | skipped => exact ⟨fun _ => rfl, by simp, hi.current, hrenewals, nofun, nofun⟩
  | called => exact ⟨fun _ => rfl, by simp, hi.current, hrenewals, nofun, nofun⟩
  | throws => exact ⟨fun _ => rfl, by simp, hi.current, hrenewals, nofun, nofun⟩
  | ran hp =>
    have hrel : s.keepAlive.released = true := hi.released.mpr (by simp [hp])
    have hnot : ∀ {P : Prop}, s.keepAlive.released = false → P := by simp [hrel]
    exact ⟨hi.active, by simp [hrel], hi.current, hrenewals, hnot, hnot⟩
  | fails hp =>
    have hrel : s.keepAlive.released = true := hi.released.mpr (by simp [hp])
    exact ⟨hi.active, by simp [hrel], hi.current, hrenewals, hi.row, hi.lost⟩

theorem other_reportInvariant (hs : OtherStep s t) (hi : ReportInvariant host s) :
    ReportInvariant host t := by
  have hwriter : t.writer = .other := by
    cases hs with
    | lock => rfl
    | write hw => exact hw
  have hlater : Later s t := by
    cases hs with
    | lock => exact ⟨le_rfl, le_rfl, id, nofun⟩
    | write hw => exact ⟨le_rfl, le_rfl, id, fun _ k _ hk => by rw [hwriter] at hk; cases hk⟩
  have hrenewals : ∀ j, RenewalSound t (s.renewals j) :=
    fun j => renewalSound_later hlater (hi.renewals j)
  have hrow : ∀ k, t.writer ≠ .own k := by simp [hwriter]
  cases hs <;>
    exact ⟨hi.active, hi.released, hi.current, hrenewals, fun _ k hk => absurd hk (hrow k),
      fun _ _ hk => absurd hk (hrow _)⟩

theorem reportInvariant_step (hs : Step host s e t) (hg : ReportGuard s e)
    (hi : ReportInvariant host s) : ReportInvariant host t := by
  cases hs with
  | @tick now hle =>
    have hlater : Later s { s with clock := now } :=
      ⟨hle, le_rfl, id, fun _ _ _ hw => ⟨hw, rfl⟩⟩
    exact ⟨hi.active, hi.released, hi.current,
      fun j => renewalSound_later hlater (hi.renewals j), hi.row,
      fun hr hl hw => (hi.lost hr hl hw).trans hle⟩
  | attempt h => exact attempt_reportInvariant h hg hi
  | effect h => exact effect_reportInvariant h hi
  | failure h => exact failure_reportInvariant h hi
  | response h => exact response_reportInvariant h hg hi
  | unlock h => exact unlock_reportInvariant h hi
  | other h => exact other_reportInvariant h hi

theorem reportInvariant_started (h : Started host config s) : ReportInvariant host s where
  active hr := by simp [h.keepAlive, KeepAliveLock.create] at hr
  released := by simp [h.keepAlive, h.unlocking, KeepAliveLock.create]
  current := by simp [h.keepAlive, h.handles, KeepAliveLock.create]
  renewals i := by rw [h.renewals i]; trivial
  row _ k hk := by
    rw [h.writer] at hk
    cases hk
    exact ⟨config, by simp [System.chain, h.handles], h.rowHost, h.rowUntil⟩
  lost _ hl := by simp [h.keepAlive, KeepAliveLock.create] at hl

theorem reportInvariant_reachable
    (hr : ((system host config).guarded ReportGuard).Reachable s) : ReportInvariant host s :=
  hr.invariant (fun _ h₀ => reportInvariant_started h₀)
    fun _ _ _ _ hs hi => reportInvariant_step hs.1 hs.2 hi

/-- What one step says about a loss: whenever it reports one, marks one or skips the store unlock
because of one, the stored record is no live lease of this acquisition. -/
structure TruthfulStep (s : System) (e : Event) (t : System) : Prop where
  reported : t.failures = s.failures ++ [.lost] → ¬ t.LiveOwn
  marked : s.keepAlive.lost = false → t.keepAlive.lost = true → ¬ t.LiveOwn
  skipped : e = .unlockCalled → (∃ u, t.unlocking = .skipped u) → ¬ t.LiveOwn

theorem not_liveOwn (h : ∀ k, s.writer = .own k → s.row.lockUntil ≤ s.clock) : ¬ s.LiveOwn := by
  rintro ⟨⟨k, hk⟩, hlt⟩
  exact absurd (h k hk) (not_le.mpr hlt)

theorem truthful_of_not_liveOwn (h : ¬ t.LiveOwn) : TruthfulStep s e t :=
  ⟨fun _ => h, fun _ _ => h, fun _ _ => h⟩

/-- A step that reports no loss. -/
theorem truthful_of_quiet (hf : t.failures ≠ s.failures ++ [.lost])
    (hl : t.keepAlive.lost = true → s.keepAlive.lost = true) (he : e ≠ .unlockCalled) :
    TruthfulStep s e t := by
  refine ⟨fun h => absurd h hf, fun hs ht => ?_, fun h => absurd h he⟩
  rw [hl ht] at hs
  cases hs

theorem attempt_truthful (hs : AttemptStep s i c t) (hg : ReportGuard s (.attempt i c))
    (hi : ReportInvariant host s) : TruthfulStep s (.attempt i c) t := by
  cases hs with
  | lost _ _ hk =>
    obtain ⟨ha, hc⟩ := KeepAliveLock.extendForNextPeriod_lost hk
    have hexpired := expired_of_deadline hi hg ha hc
    exact truthful_of_not_liveOwn (not_liveOwn hexpired)
  | inactive => exact truthful_of_quiet (by simp [System.setRenewal]) id (by simp)
  | calls => exact truthful_of_quiet (by simp [System.setRenewal]) id (by simp)
  | throws => exact truthful_of_quiet (by simp [System.setRenewal]) id (by simp)

theorem effect_truthful (hs : EffectStep host s i t) : TruthfulStep s (.effect i) t := by
  cases hs with
  | granted => exact truthful_of_quiet (by simp [System.setRenewal]) id (by simp)
  | refused => exact truthful_of_quiet (by simp [System.setRenewal]) id (by simp)

theorem failure_truthful (hs : FailureStep s e t) : TruthfulStep s e t := by
  cases hs with
  | query => exact truthful_of_quiet (by simp [System.setRenewal]) id (by simp)
  | response => exact truthful_of_quiet (by simp [System.setRenewal]) id (by simp)

theorem response_truthful (hs : ResponseStep s i t) (hg : ReportGuard s (.response i))
    (hi : ReportInvariant host s) : TruthfulStep s (.response i) t := by
  cases hs with
  | retried => exact truthful_of_quiet (by simp [System.setRenewal]) id (by simp)
  | gaveUp => exact truthful_of_quiet (by simp) id (by simp)
  | @extended j r call =>
    refine truthful_of_quiet (by simp [System.setRenewal]) ?_ (by simp)
    cases hrel : s.keepAlive.released with
    | true =>
      rw [KeepAliveLock.afterExtend_of_released _ hrel]
      exact id
    | false =>
      intro hl
      rw [(KeepAliveLock.afterExtend_some hrel).2] at hl
      cases hl
  | @refused r call ha =>
    rcases s.keepAlive.afterExtend_none_cases call.extended call.next call.now with
      heq | ⟨hrel, hcur, hl, heq⟩
    · simp only [heq]
      exact truthful_of_quiet (by simp) id (by simp)
    · have hexpired := expired_of_refused hi hg ha hrel hcur hl
      exact truthful_of_not_liveOwn (not_liveOwn hexpired)

theorem unlock_truthful (hs : UnlockStep host s e t) (hg : ReportGuard s e)
    (hi : ReportInvariant host s) : TruthfulStep s e t := by
  cases hs with
  | skipped hu hskip =>
    have hexpired := expired_of_lost hi hg hu (KeepAliveLock.doUnlock_none hskip)
    exact truthful_of_not_liveOwn (not_liveOwn hexpired)
  | called => exact ⟨by simp, fun hl ht => by simp_all, by simp⟩
  | throws => exact ⟨by simp, fun hl ht => by simp_all, by simp⟩
  | ran => exact truthful_of_quiet (by simp) id (by simp)
  | fails => exact truthful_of_quiet (by simp) id (by simp)

/-- In every run in which a loss is reported, and a store unlock skipped, only while the successor
of the last effective extend is in use, every step is truthful. -/
theorem loss_reports_truthful (hr : ((system host config).guarded ReportGuard).Reachable s)
    (hs : ((system host config).guarded ReportGuard).Step s e t) : TruthfulStep s e t := by
  obtain ⟨hstep, hg⟩ := hs
  have hi := reportInvariant_reachable hr
  cases hstep with
  | tick => exact truthful_of_quiet (by simp) id (by simp)
  | attempt h => exact attempt_truthful h hg hi
  | effect h => exact effect_truthful h
  | failure h => exact failure_truthful h
  | response h => exact response_truthful h hg hi
  | unlock h => exact unlock_truthful h hg hi
  | other h =>
    cases h with
    | lock => exact truthful_of_quiet (by simp) id (by simp)
    | write => exact truthful_of_quiet (by simp) id (by simp)

/-- The first tick finds the local deadline passed; the row has expired as well. -/
theorem loss_reports_truthful_expired :
    ∃ t : System, t.failures = [.lost] ∧ TruthfulStep nightlyStarted (.attempt 0 60001) t := by
  have hlost : nightlyStarted.keepAlive.extendForNextPeriod 60001 = .lost := by
    norm_num [nightlyStarted, KeepAliveLock.extendForNextPeriod, KeepAliveLock.create, nightly,
      LockConfiguration.lockAtMostUntil]
  have hg : ReportGuard nightlyStarted (.attempt 0 60001) := by
    refine ⟨?_, ?_⟩
    · rintro _ k ⟨rfl⟩
      rfl
    · rintro i c ⟨rfl⟩ _ d ⟨rfl⟩
      exact le_rfl
  refine ⟨_, ?_, loss_reports_truthful (.initial nightlyStarted_started)
    ⟨.attempt (.lost (r := false) rfl (by norm_num [nightlyStarted]) hlost), hg⟩⟩
  rfl

/-- The second tick of `nightly` calls `extend` before the response of the first arrived. -/
theorem nightly_lost_while_live :
    ∃ s t : System, (system "web" nightly).Reachable s ∧
      (system "web" nightly).Step s (.response 1) t ∧ t.failures = s.failures ++ [.lost] ∧
      t.clock = 60000 ∧ t.row.lockUntil = 90000 ∧ t.writer = .own 1 := by
  have hcall : nightlyRenewed.keepAlive.extendForNextPeriod 60000 = .call 0 60000 0 := by
    norm_num [nightlyRenewed, nightlyRenewing, nightlyStarted, KeepAliveLock.extendForNextPeriod,
      KeepAliveLock.create, nightly, LockConfiguration.lockAtMostUntil]
  have hle : nightlyRenewed.clock ≤ 60000 := by norm_num [nightlyRenewed, nightlyRenewing]
  have hmiss : ¬ Sql.extendMatches (ExtendCall.params "web"
      { extended := 0, next := 0, now := 60000, boundAt := 60000,
        newConfig := nightly.successor 60000 0 60000 } nightly) nightlyRenewed.row := by
    norm_num [Sql.extendMatches, ExtendCall.params, Sql.params, nightlyRenewed, nightly,
      LockConfiguration.lockAtMostUntil]
  refine ⟨_, _, ⟨nightlyStarted, _, nightlyStarted_started, .step
    (.attempt nightlyStarted_attempts) <| .step
    (.effect nightlyRenewing_extends) <| .step
    (.attempt (i := 1) (.calls (r := false) rfl hle le_rfl le_rfl le_rfl hcall rfl rfl)) <| .step
    (.effect (i := 1) (.refused (r := false) rfl rfl hmiss)) .refl⟩,
    .response (.refused rfl), ?_, rfl, rfl, rfl⟩
  rfl

/-- A loss can be reported while the lease of this very acquisition is live. -/
theorem loss_report_of_live_lease :
    ¬ ∀ (host : String) (config : LockConfiguration ℚ) (s : System) (e : Event) (t : System),
      (system host config).Reachable s → (system host config).Step s e t →
      TruthfulStep s e t := by
  intro h
  obtain ⟨s, t, hr, hs, hf, hclock, hrow, hw⟩ := nightly_lost_while_live
  refine (h "web" nightly s _ t hr hs).reported hf ⟨⟨1, hw⟩, ?_⟩
  rw [hclock, hrow]
  norm_num

end Tslock.KeepAlive
