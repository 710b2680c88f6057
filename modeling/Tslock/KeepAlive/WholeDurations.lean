import Mathlib.Data.Int.NatAbs
import Mathlib.Tactic.Linarith
import Tslock.Core.KeepAliveLock
import Tslock.Foundation.Runs
import Tslock.Redis.RedisLockProvider

/-! The durations that a `KeepAliveLock` passes to the `RedisLock` it renews, and the times to live
that the handle makes of them. Renewals may overlap and settle in any way; all readings of the clock
are whole. -/
namespace Tslock.KeepAlive.OverRedis

open Function Foundation

/-- An `extend` call of a renewal that has not settled. `now` was read before the call. -/
structure Call where
  extended : ℕ
  next : ℚ
  now : ℤ
  newConfig : LockConfiguration ℚ
deriving DecidableEq

/-- `handles` are the configurations of the `RedisLock`s made so far. -/
structure State where
  keepAlive : KeepAliveLock ℕ
  handles : List (LockConfiguration ℚ)
  calls : ℕ → Option Call

/-- `expireMs` and `keepLockFor` are what the handle sends along with `PEXPIRE`. -/
inductive Event where
  | extendCalled (lockAtMostFor lockAtLeastFor expireMs : ℚ)
  | settles
  | lost
  | gaveUp
  | unlockCalled (keepLockFor : ℚ)
  | unlockSkips
deriving DecidableEq

/-- The readings `c₁`, `c₂`, `c₃` and `c₄` are those of the deadline test, of `now`, of the
successor's `createdAt` and of `doExtend`. -/
inductive Step : State → Event → State → Prop where
  | extendCalled {s : State} {i extended : ℕ} {c₁ c₂ c₃ c₄ : ℤ} {most next : ℚ}
      {handle : LockConfiguration ℚ} :
      s.calls i = none → s.keepAlive.extendForNextPeriod c₁ = .call extended most next →
      s.handles[extended]? = some handle →
      Step s
        (.extendCalled most next (max 0 ((handle.successor most next c₃).lockAtMostUntil - c₄)))
        { s with calls := update s.calls i (some
          { extended, next, now := c₂, newConfig := handle.successor most next c₃ }) }
  | granted {s : State} {i : ℕ} {call : Call} :
      s.calls i = some call →
      Step s .settles
        { keepAlive := (s.keepAlive.afterExtend call.extended call.next call.now
            (some s.handles.length)).1
          handles := s.handles ++ [call.newConfig]
          calls := update s.calls i none }
  | refused {s : State} {i : ℕ} {call : Call} :
      s.calls i = some call →
      Step s .settles
        { s with
          keepAlive := (s.keepAlive.afterExtend call.extended call.next call.now none).1
          calls := update s.calls i none }
  | rejects {s : State} {i : ℕ} {call : Call} :
      s.calls i = some call →
      Step s .settles { s with calls := update s.calls i none }
  | lost {s : State} {c₁ : ℤ} :
      s.keepAlive.extendForNextPeriod c₁ = .lost →
      Step s .lost { s with keepAlive := s.keepAlive.markLost }
  | gaveUp {s : State} : Step s .gaveUp { s with keepAlive := s.keepAlive.deactivate }
  | unlockCalled {s : State} {current : ℕ} {c : ℤ} {handle : LockConfiguration ℚ} :
      s.keepAlive.doUnlock.2 = some current → s.handles[current]? = some handle →
      Step s (.unlockCalled (handle.lockAtLeastUntil - c))
        { s with keepAlive := s.keepAlive.doUnlock.1 }
  | unlockSkips {s : State} :
      s.keepAlive.doUnlock.2 = none →
      Step s .unlockSkips { s with keepAlive := s.keepAlive.doUnlock.1 }

/-- A configuration in whole milliseconds. -/
def wholeConfig (config : LockConfiguration ℤ) : LockConfiguration ℚ where
  name := config.name
  lockAtMostFor := config.lockAtMostFor
  lockAtLeastFor := config.lockAtLeastFor
  createdAt := config.createdAt

/-- `KeepAliveLockProvider.lock` has just been granted `config`. -/
def start (config : LockConfiguration ℤ) : State where
  keepAlive := .create 0 (wholeConfig config)
  handles := [wholeConfig config]
  calls _ := none

def system (config : LockConfiguration ℤ) : TransitionSystem State Event where
  Initial s := s = start config
  Step := Step

/-- What `PEXPIRE` asks of its argument. -/
def Whole (ms : ℚ) : Prop := ∃ n : ℤ, ms = n

/-- `extend` gets whole durations in order, and `PEXPIRE` whole times to live. -/
def Event.Usable : Event → Prop
  | .extendCalled lockAtMostFor lockAtLeastFor expireMs =>
    Whole lockAtMostFor ∧ Whole lockAtLeastFor ∧ 0 ≤ lockAtLeastFor ∧
      lockAtLeastFor ≤ lockAtMostFor ∧ Whole expireMs
  | .unlockCalled keepLockFor => Whole keepLockFor
  | _ => True

section Whole
variable {a b : ℚ}

theorem whole_intCast (n : ℤ) : Whole n := ⟨n, rfl⟩

theorem Whole.add (ha : Whole a) (hb : Whole b) : Whole (a + b) := by
  obtain ⟨m, rfl⟩ := ha
  obtain ⟨n, rfl⟩ := hb
  exact ⟨m + n, by push_cast; rfl⟩

theorem Whole.sub (ha : Whole a) (hb : Whole b) : Whole (a - b) := by
  obtain ⟨m, rfl⟩ := ha
  obtain ⟨n, rfl⟩ := hb
  exact ⟨m - n, by push_cast; rfl⟩

theorem Whole.max (ha : Whole a) (hb : Whole b) : Whole (max a b) := by
  rcases max_choice a b with h | h
  · rwa [h]
  · rwa [h]

/-- The script that keeps a key is answered for whole times to live only. -/
theorem whole_iff_answered (ms : ℚ) : Whole ms ↔
    ∀ (now : ℚ) (key value : String) (keys : Redis.Keys),
      (Redis.expireIfEquals now key value ms keys).2 ≠ none := by
  constructor
  · rintro ⟨n, rfl⟩ now key value keys
    unfold Redis.expireIfEquals
    split_ifs with hvalue hwhole
    · simp at hwhole
    · simp
    · simp
    · simp
  · intro h
    by_contra hfraction
    have hden : ms.den ≠ 1 := by
      intro hone
      exact hfraction ⟨ms.num, (Rat.coe_int_num_of_den_eq_one hone).symm⟩
    apply h 0 "" "" fun _ => some ⟨"", 0⟩
    simp [Redis.expireIfEquals, hden]

end Whole

/-- Half of `lockAtMostFor` is whole, or the first renewal uses up the minimum hold. -/
def HalvesWhole (config : LockConfiguration ℤ) : Prop :=
  2 ∣ config.lockAtMostFor ∨ 2 * config.lockAtLeastFor ≤ config.lockAtMostFor

/-- What can remain of the minimum hold. -/
structure Remainder (config : LockConfiguration ℤ) (rest : ℚ) : Prop where
  whole : Whole rest
  nonneg : 0 ≤ rest
  le : rest ≤ config.lockAtLeastFor

structure WholeHandle (handle : LockConfiguration ℚ) : Prop where
  createdAt : Whole handle.createdAt
  most : Whole handle.lockAtMostFor
  least : Whole handle.lockAtLeastFor

structure WellFormed (config : LockConfiguration ℤ) (s : State) : Prop where
  baseConfig : s.keepAlive.baseConfig = wholeConfig config
  remaining : Remainder config s.keepAlive.remainingLockAtLeastFor
  handles : ∀ handle ∈ s.handles, WholeHandle handle
  calls : ∀ i call, s.calls i = some call → Remainder config call.next ∧ WholeHandle call.newConfig

section WellFormed
variable {config : LockConfiguration ℤ} {s t : State} {e : Event} {rest most next now : ℚ}
  {lock lock' : KeepAliveLock ℕ} {extended i : ℕ} {call : Call} {handle : LockConfiguration ℚ}

/-- The remainder loses half of `lockAtMostFor`, all at once or in whole milliseconds. -/
theorem Remainder.reduced (hvalid : config.DurationsValid) (hc : HalvesWhole config)
    (hr : Remainder config rest) :
    Remainder config (max 0 (rest - (wholeConfig config).lockAtMostFor / 2)) := by
  have hle := hr.le
  have hleast : (0 : ℚ) ≤ config.lockAtLeastFor := hr.nonneg.trans hle
  have hpos : (config.lockAtLeastFor : ℚ) ≤ config.lockAtMostFor := by exact_mod_cast hvalid.2
  simp only [wholeConfig]
  rcases hc with ⟨m, hm⟩ | hshort
  · have hhalf : (config.lockAtMostFor : ℚ) / 2 = m := by simp [hm]
    constructor
    · rw [hhalf]
      exact (whole_intCast 0).max (hr.whole.sub (whole_intCast m))
    · exact le_max_left _ _
    · exact max_le hleast (by linarith)
  · have hshort' : 2 * (config.lockAtLeastFor : ℚ) ≤ config.lockAtMostFor := by
      exact_mod_cast hshort
    rw [max_eq_left (by linarith)]
    exact ⟨whole_intCast 0, le_refl 0, hleast⟩

theorem extendForNextPeriod_eq (h : lock.extendForNextPeriod now = .call extended most next) :
    most = lock.baseConfig.lockAtMostFor ∧ next = max 0 lock.remainingLockAtLeastFor := by
  unfold KeepAliveLock.extendForNextPeriod at h
  split_ifs at h
  cases h
  exact ⟨rfl, rfl⟩

/-- What an answer leaves of the remainder. -/
theorem afterExtend_remaining (lock : KeepAliveLock ℕ) (extended : ℕ) (next now : ℚ)
    (answer : Option ℕ) :
    (lock.afterExtend extended next now answer).1.baseConfig = lock.baseConfig ∧
      ((lock.afterExtend extended next now answer).1.remainingLockAtLeastFor =
          lock.remainingLockAtLeastFor ∨
        (lock.afterExtend extended next now answer).1.remainingLockAtLeastFor =
          max 0 (next - lock.baseConfig.lockAtMostFor / 2)) := by
  cases answer with
  | none =>
    simp only [KeepAliveLock.afterExtend]
    split_ifs
    · exact ⟨rfl, .inl rfl⟩
    · exact ⟨rfl, .inl rfl⟩
    · exact ⟨rfl, .inl rfl⟩
  | some newLock =>
    simp only [KeepAliveLock.afterExtend]
    split_ifs
    · exact ⟨rfl, .inl rfl⟩
    · exact ⟨rfl, .inr rfl⟩

theorem wellFormed_start (hvalid : config.DurationsValid) : WellFormed config (start config) where
  baseConfig := rfl
  remaining := ⟨whole_intCast _, Int.cast_nonneg hvalid.1, le_refl _⟩
  handles := by
    intro handle hh
    rw [List.mem_singleton.mp hh]
    exact ⟨whole_intCast _, whole_intCast _, whole_intCast _⟩
  calls i call h := by cases h

/-- The arguments of a call, and the handle it would make. -/
theorem call_whole (hs : WellFormed config s)
    (hcall : s.keepAlive.extendForNextPeriod now = .call extended most next) (c : ℤ) :
    most = config.lockAtMostFor ∧ Remainder config next ∧
      WholeHandle (handle.successor most next c) := by
  obtain ⟨rfl, rfl⟩ := extendForNextPeriod_eq hcall
  have hmost : s.keepAlive.baseConfig.lockAtMostFor = config.lockAtMostFor := by
    rw [hs.baseConfig]
    rfl
  rw [max_eq_right hs.remaining.nonneg, hmost]
  exact ⟨rfl, hs.remaining, whole_intCast c, whole_intCast _, hs.remaining.whole⟩

theorem calls_update (hs : WellFormed config s) {x : Option Call}
    (hx : ∀ b ∈ x, Remainder config b.next ∧ WholeHandle b.newConfig) (j : ℕ) (b : Call)
    (hb : update s.calls i x j = some b) : Remainder config b.next ∧ WholeHandle b.newConfig := by
  by_cases hj : j = i
  · subst hj
    rw [update_self] at hb
    exact hx b hb
  · rw [update_of_ne hj] at hb
    exact hs.calls j b hb

theorem calls_settled (hs : WellFormed config s) (j : ℕ) (b : Call)
    (hb : update s.calls i none j = some b) :
    Remainder config b.next ∧ WholeHandle b.newConfig :=
  calls_update hs (fun _ h => by cases h) j b hb

theorem remaining_answered (hvalid : config.DurationsValid) (hc : HalvesWhole config)
    (hs : WellFormed config s) (hcall : s.calls i = some call) (answer : Option ℕ) :
    (s.keepAlive.afterExtend call.extended call.next call.now answer).1.baseConfig =
        wholeConfig config ∧
      Remainder config
        (s.keepAlive.afterExtend call.extended call.next call.now
          answer).1.remainingLockAtLeastFor := by
  obtain ⟨hbase, hrest⟩ :=
    afterExtend_remaining s.keepAlive call.extended call.next call.now answer
  refine ⟨hbase.trans hs.baseConfig, ?_⟩
  rcases hrest with hsame | hreduced
  · rw [hsame]
    exact hs.remaining
  · rw [hreduced, hs.baseConfig]
    exact (hs.calls i call hcall).1.reduced hvalid hc

theorem wellFormed_step (hvalid : config.DurationsValid) (hc : HalvesWhole config)
    (hs : WellFormed config s) (h : Step s e t) : WellFormed config t := by
  cases h with
  | extendCalled _ hcall _ =>
    refine ⟨hs.baseConfig, hs.remaining, hs.handles, calls_update hs ?_⟩
    intro b hb
    cases hb
    obtain ⟨-, hnext, hnew⟩ := call_whole hs hcall _
    exact ⟨hnext, hnew⟩
  | granted hcall =>
    obtain ⟨hbase, hrest⟩ := remaining_answered hvalid hc hs hcall (some s.handles.length)
    refine ⟨hbase, hrest, ?_, calls_settled hs⟩
    intro handle hh
    rcases List.mem_append.mp hh with hold | hnew
    · exact hs.handles handle hold
    · rw [List.mem_singleton.mp hnew]
      exact (hs.calls _ _ hcall).2
  | refused hcall =>
    obtain ⟨hbase, hrest⟩ := remaining_answered hvalid hc hs hcall none
    exact ⟨hbase, hrest, hs.handles, calls_settled hs⟩
  | rejects => exact ⟨hs.baseConfig, hs.remaining, hs.handles, calls_settled hs⟩
  | lost | gaveUp | unlockCalled | unlockSkips =>
    exact ⟨hs.baseConfig, hs.remaining, hs.handles, hs.calls⟩

theorem wellFormed_reachable (hvalid : config.DurationsValid) (hc : HalvesWhole config)
    (h : (system config).Reachable s) : WellFormed config s := by
  refine h.invariant ?_ ?_
  · rintro s rfl
    exact wellFormed_start hvalid
  · exact fun s e t _ hstep hs => wellFormed_step hvalid hc hs hstep

theorem usable_of_wellFormed (hvalid : config.DurationsValid) (hs : WellFormed config s)
    (h : Step s e t) : e.Usable := by
  cases h with
  | @extendCalled _ _ _ _ c₃ c₄ _ _ handle _ hcall hh =>
    obtain ⟨rfl, hnext, hnew⟩ := @call_whole _ _ _ _ _ _ handle hs hcall c₃
    have hle : (config.lockAtLeastFor : ℚ) ≤ config.lockAtMostFor := by exact_mod_cast hvalid.2
    have hexpire := (whole_intCast 0).max
      ((hnew.createdAt.add hnew.most).sub (whole_intCast c₄))
    refine ⟨whole_intCast _, hnext.whole, hnext.nonneg, hnext.le.trans hle, ?_⟩
    exact_mod_cast hexpire
  | @unlockCalled _ c handle _ hh =>
    have hhandle := hs.handles handle (List.mem_of_getElem? hh)
    exact (hhandle.createdAt.add hhandle.least).sub (whole_intCast c)
  | _ => trivial

end WellFormed

section Renewals
variable {config : LockConfiguration ℤ}

/-- When the timer fires, with the floor of half of `lockAtMostFor` for its period. -/
def tickTime (config : LockConfiguration ℤ) (k : ℕ) : ℤ :=
  config.createdAt + k * (config.lockAtMostFor / 2)

theorem tickTime_le (h : 0 ≤ config.lockAtMostFor) (k : ℕ) :
    (tickTime config (k + 1) : ℚ) ≤ tickTime config k + config.lockAtMostFor := by
  have hle : tickTime config (k + 1) ≤ tickTime config k + config.lockAtMostFor := by
    simp only [tickTime]
    push_cast
    linarith [Int.ediv_le_self 2 h]
  exact_mod_cast hle

/-- A renewal that comes before the deadline asks for what remains. -/
theorem extendForNextPeriod_call {lock : KeepAliveLock ℕ} {now : ℚ} (hactive : lock.active = true)
    (hbefore : now ≤ lock.currentLockAtMostUntil) (hrest : 0 ≤ lock.remainingLockAtLeastFor) :
    lock.extendForNextPeriod now =
      .call lock.currentLock lock.baseConfig.lockAtMostFor lock.remainingLockAtLeastFor := by
  rw [KeepAliveLock.extendForNextPeriod, if_neg (by simp [hactive]), if_neg hbefore.not_gt,
    max_eq_right hrest]

/-- The call of the first renewal. -/
def firstCall (config : LockConfiguration ℤ) : Call where
  extended := 0
  next := config.lockAtLeastFor
  now := tickTime config 1
  newConfig := (wholeConfig config).successor config.lockAtMostFor config.lockAtLeastFor
    (tickTime config 1)

/-- The lock in its first renewal, and after it. -/
def renewing (config : LockConfiguration ℤ) : State :=
  { start config with calls := update (fun _ => none) 0 (some (firstCall config)) }

def renewedOnce (config : LockConfiguration ℤ) : State where
  keepAlive := ((start config).keepAlive.afterExtend 0 config.lockAtLeastFor (tickTime config 1)
    (some 1)).1
  handles := [wholeConfig config, (firstCall config).newConfig]
  calls _ := none

theorem first_step (hvalid : config.DurationsValid) :
    Step (start config)
      (.extendCalled config.lockAtMostFor config.lockAtLeastFor
        (max 0 ((firstCall config).newConfig.lockAtMostUntil - tickTime config 1)))
      (renewing config) := by
  have hbefore := tickTime_le (le_trans hvalid.1 hvalid.2) 0
  have htick : tickTime config 0 = config.createdAt := by simp [tickTime]
  rw [htick] at hbefore
  have hcall : (start config).keepAlive.extendForNextPeriod (tickTime config 1) =
      .call 0 config.lockAtMostFor config.lockAtLeastFor :=
    extendForNextPeriod_call rfl hbefore (Int.cast_nonneg hvalid.1)
  exact .extendCalled rfl hcall rfl

theorem renewedOnce_reachable (hvalid : config.DurationsValid) :
    (system config).Reachable (renewedOnce config) := by
  have hcalled : (renewing config).calls 0 = some (firstCall config) := rfl
  have hsettled : update (renewing config).calls 0 none = fun _ => none := by
    rw [renewing, update_idem, update_eq_self_iff]
  have hstep := Step.granted hcalled
  rw [hsettled] at hstep
  exact ((TransitionSystem.Reachable.initial rfl).step (first_step hvalid)).step hstep

/-- The second renewal asks for what the first one left. -/
theorem renewedOnce_call (hvalid : config.DurationsValid) :
    ∃ expireMs t, Step (renewedOnce config)
      (.extendCalled config.lockAtMostFor
        (max 0 (config.lockAtLeastFor - config.lockAtMostFor / 2)) expireMs) t := by
  have hpos := le_trans hvalid.1 hvalid.2
  have hcall : (renewedOnce config).keepAlive.extendForNextPeriod (tickTime config 2) =
      .call 1 config.lockAtMostFor (max 0 (config.lockAtLeastFor - config.lockAtMostFor / 2)) :=
    extendForNextPeriod_call rfl (tickTime_le hpos 1) (le_max_left _ _)
  exact ⟨_, _, @Step.extendCalled _ 0 _ _ (tickTime config 2) (tickTime config 2)
    (tickTime config 2) _ _ _ rfl hcall rfl⟩

/-- If half a period and the minimum hold do not fit together, the second renewal shows it. -/
theorem halvesWhole_of_usable (hvalid : config.DurationsValid)
    (h : ∀ s e t, (system config).Reachable s → Step s e t → e.Usable) : HalvesWhole config := by
  by_contra hnot
  obtain ⟨hodd, hlong⟩ := not_or.mp hnot
  obtain ⟨expireMs, t, hstep⟩ := renewedOnce_call hvalid
  obtain ⟨-, ⟨n, hn⟩, -⟩ := h _ _ _ (renewedOnce_reachable hvalid) hstep
  have hlong' : (config.lockAtMostFor : ℚ) < 2 * config.lockAtLeastFor := by
    exact_mod_cast not_le.mp hlong
  rw [max_eq_right (by linarith)] at hn
  apply hodd
  refine ⟨config.lockAtLeastFor - n, ?_⟩
  have heven : (config.lockAtMostFor : ℚ) = 2 * (config.lockAtLeastFor - n) := by linarith
  exact_mod_cast heven

/-- In every run each call has whole durations in order and each `PEXPIRE` a whole time to live, as
its script needs to be answered, if and only if half of `lockAtMostFor` is whole or at least as long
as the minimum hold. -/
theorem renewals_whole_iff (hvalid : config.DurationsValid) :
    ((∀ s e t, (system config).Reachable s → Step s e t → e.Usable) ↔ HalvesWhole config) ∧
      ∀ ms, Whole ms ↔ ∀ (now : ℚ) (key value : String) (keys : Redis.Keys),
        (Redis.expireIfEquals now key value ms keys).2 ≠ none := by
  refine ⟨⟨halvesWhole_of_usable hvalid, ?_⟩, whole_iff_answered⟩
  intro hc s e t hr hstep
  exact usable_of_wellFormed hvalid (wellFormed_reachable hvalid hc hr) hstep

end Renewals

/-- A minute, half of which is whole. -/
def nightly : LockConfiguration ℤ :=
  { name := "nightly", lockAtMostFor := 60000, lockAtLeastFor := 45000, createdAt := 0 }

theorem nightly_usable :
    (Event.extendCalled (60000 : ℤ) (45000 : ℤ)
      (max 0 ((firstCall nightly).newConfig.lockAtMostUntil - tickTime nightly 1))).Usable := by
  have hvalid : nightly.DurationsValid := by decide
  exact (renewals_whole_iff hvalid).1.mpr (.inl (by decide)) _ _ _
    (TransitionSystem.Reachable.initial rfl) (first_step hvalid)

/-- Half a minute and a millisecond, all of it to be held. -/
def report : LockConfiguration ℤ :=
  { name := "report", lockAtMostFor := 30001, lockAtLeastFor := 30001, createdAt := 0 }

/-- The second renewal asks for half a millisecond, and a script that gets one is not answered. -/
theorem report_fraction : report.DurationsValid ∧ minLockAtMostFor ≤ report.lockAtMostFor ∧
    (∃ s e t, (system report).Reachable s ∧ Step s e t ∧ ¬ e.Usable) ∧
    (Redis.expireIfEquals 30002 "key" "value" (30000 + 30001 / 2 - 30002)
      fun _ => some ⟨"value", 60001⟩).2 = none := by
  have hvalid : report.DurationsValid := by decide
  obtain ⟨expireMs, t, hstep⟩ := renewedOnce_call hvalid
  refine ⟨hvalid, by decide +kernel, ⟨_, _, _, renewedOnce_reachable hvalid, hstep, ?_⟩,
    by decide +kernel⟩
  rintro ⟨-, ⟨n, hn⟩, -⟩
  have hvalue : max (0 : ℚ) (report.lockAtLeastFor - report.lockAtMostFor / 2) = 30001 / 2 := by
    decide +kernel
  rw [hvalue] at hn
  have hodd : (30001 : ℚ) = 2 * n := by linarith
  have hodd' : (30001 : ℤ) = 2 * n := by exact_mod_cast hodd
  omega

end Tslock.KeepAlive.OverRedis
