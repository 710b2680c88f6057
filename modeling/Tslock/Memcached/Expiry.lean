import Tslock.Core.CreateLockConfig
import Tslock.Memcached.MemcachedLockProvider

/-! How long a key that `lock` added or `doUnlock` replaced is kept by the server. -/
namespace Tslock.Memcached

open Function Foundation JsNumber

variable {ms deadline : JsNumber} {clock q : ℚ} {key : String}

section Seconds

theorem divNat_finite (q : ℚ) (n : ℕ) : (JsNumber.finite q).divNat n = ofRat (q / n) := rfl

theorem unixTime_expiry {seconds : JsNumber} (h : .finite maxRelativeSeconds < seconds) :
    expiry clock seconds = unixTime seconds := by
  cases seconds with
  | finite x =>
    have hlt : ¬ x ≤ maxRelativeSeconds := fun hle =>
      not_lt_of_le (finite_le.mpr hle) h
    rw [expiry, if_neg hlt]
  | nan => rfl
  | negInf => rfl
  | posInf => rfl

/-- From thirty days on, the time to live is read as a Unix time. -/
theorem expiry_of_not_under (h : ¬ UnderThirtyDays ms) :
    expiry clock (toTtlSeconds ms) = unixTime (toTtlSeconds ms) := by
  unfold UnderThirtyDays at h
  unfold toTtlSeconds
  cases hdiv : ms.divNat 1000 with
  | nan => rfl
  | negInf =>
    rw [hdiv] at h
    exact absurd rfl h
  | posInf => rfl
  | finite x =>
    rw [hdiv] at h
    have hx : (2592000 : ℚ) ≤ x := finite_le.mp (le_of_not_lt (by simp) (by simp) h)
    have hfloor : (2592000 : ℤ) ≤ ⌊x⌋ := Int.le_floor.mpr (by exact_mod_cast hx)
    have hnext : ((2592001 : ℤ) : ℚ) ≤ ⌊x⌋ + 1 := by exact_mod_cast (by omega : 2592001 ≤ ⌊x⌋ + 1)
    have hle := ofRat_mono hnext
    rw [ofRat_intCast (by norm_num)] at hle
    exact unixTime_expiry (lt_of_lt_of_le (by decide +kernel) hle)

/-- Below thirty days it is a whole number of seconds longer than the duration. -/
theorem expiry_of_under (clock : ℚ) (hq : 0 ≤ q) (h : UnderThirtyDays (.finite q)) : ∃ k : ℤ,
    0 ≤ k ∧ k ≤ 2592000 ∧ q < (1000 * k : ℤ) ∧
      expiry clock (toTtlSeconds (.finite q)) = .finite (clock + (1000 * k : ℤ)) := by
  have hlow : JsNumber.finite ((0 : ℤ) : ℚ) ≤ ofRat (q / 1000) := by
    rw [← ofRat_intCast (by norm_num)]
    refine ofRat_mono ?_
    positivity
  have hdiv : (JsNumber.finite q).divNat 1000 = ofRat (q / 1000) := by
    rw [divNat_finite]
    norm_num
  unfold UnderThirtyDays at h
  unfold toTtlSeconds
  rw [hdiv] at h ⊢
  cases hx : ofRat (q / 1000) with
  | nan => exact absurd hx ofRat_ne_nan
  | negInf => simp [hx, LE.le, ble] at hlow
  | posInf => simp [hx, LT.lt, blt] at h
  | finite x =>
    rw [hx] at h hlow
    have hpos : (0 : ℤ) ≤ ⌊x⌋ := Int.floor_nonneg.mpr (by simpa using hlow)
    have hbelow : x < maxRelativeSeconds := by
      by_contra hle
      exact not_lt_of_le (finite_le.mpr (not_lt.mp hle)) h
    have hfloor : ⌊x⌋ < 2592000 := Int.floor_lt.mpr (by exact_mod_cast hbelow)
    have hbound : |⌊x⌋ + 1| < 2 ^ 53 := by
      rw [abs_of_nonneg (by omega)]
      omega
    refine ⟨⌊x⌋ + 1, by omega, by omega, ?_, ?_⟩
    · have hceil : ofRat (q / 1000) < .finite ((⌊x⌋ + 1 : ℤ) : ℚ) := by
        rw [hx]
        refine lt_of_not_le (by simp) (by simp) fun hle => ?_
        have := Int.lt_floor_add_one x
        have := finite_le.mp hle
        push_cast at this
        linarith
      have hreal := lt_of_ofRat_lt hbound hceil
      push_cast at hreal ⊢
      linarith
    · have hsum : (JsNumber.finite x).floor + .finite 1 = .finite ((⌊x⌋ + 1 : ℤ) : ℚ) := by
        rw [← ofRat_intCast hbound]
        push_cast
        rfl
      have hsmall : ((⌊x⌋ + 1 : ℤ) : ℚ) ≤ maxRelativeSeconds := by
        unfold maxRelativeSeconds
        exact_mod_cast (by omega : ⌊x⌋ + 1 ≤ 2592000)
      rw [hsum, expiry, if_pos hsmall]
      push_cast
      rfl

end Seconds

namespace Server

variable {s t : Server} {e : Event} {es : List Event} {entry : Entry} {c : Command} {answer : Bool}

/-- A command is refused, stores a value, or drops a key. -/
theorem execute_cases (h : s.execute c = (answer, t)) :
    t = s ∨ (∃ k v x, c = .add k v x ∧ s.entries k = none ∧ t = s.store k v x) ∨
      (∃ k v x, c = .replace k v x ∧ t = s.store k v x) ∨ (∃ k, c = .delete k ∧ t = s.drop k) := by
  cases c with
  | add k v x =>
    simp only [execute] at h
    split at h
    case h_1 habsent => exact .inr (.inl ⟨k, v, x, rfl, habsent, (Prod.mk.inj h).2.symm⟩)
    case h_2 => exact .inl (Prod.mk.inj h).2.symm
  | replace k v x =>
    simp only [execute] at h
    split at h
    case h_1 => exact .inl (Prod.mk.inj h).2.symm
    case h_2 => exact .inr (.inr (.inl ⟨k, v, x, rfl, (Prod.mk.inj h).2.symm⟩))
  | delete k =>
    simp only [execute] at h
    split at h
    case h_1 => exact .inl (Prod.mk.inj h).2.symm
    case h_2 => exact .inr (.inr (.inr ⟨k, rfl, (Prod.mk.inj h).2.symm⟩))

theorem clock_step (h : Step s e t) : s.clock ≤ t.clock := by
  cases h with
  | command hc =>
    rcases execute_cases hc with rfl | ⟨k, v, x, -, -, rfl⟩ | ⟨k, v, x, -, rfl⟩ | ⟨k, -, rfl⟩ <;>
      exact le_refl _
  | tick hle => exact hle
  | expired => exact le_refl _

/-- A stored entry outlasts each step but a release and its expiry. -/
theorem entry_step (h : Step s e t) (hkey : s.entries key = some entry)
    (hrelease : ¬ Releases key e) :
    t.entries key = some entry ∨ entry.expiry ≤ .finite t.clock := by
  cases h with
  | command hc =>
    left
    rcases execute_cases hc with rfl | ⟨k, v, x, rfl, habsent, rfl⟩ | ⟨k, v, x, rfl, rfl⟩ |
      ⟨k, rfl, rfl⟩
    · exact hkey
    · have hne : key ≠ k := by
        rintro rfl
        simp [hkey] at habsent
      exact (update_of_ne hne _ _).trans hkey
    · exact (update_of_ne (Ne.symm hrelease) _ _).trans hkey
    · exact (update_of_ne (Ne.symm hrelease) _ _).trans hkey
  | tick => exact .inl hkey
  | @expired k entry' hk hexpiry =>
    by_cases hne : key = k
    · subst hne
      obtain rfl := Option.some.inj (hkey.symm.trans hk)
      exact .inr hexpiry
    · exact .inl ((update_of_ne hne _ _).trans hkey)

theorem clock_run (h : system.Run s es t) : s.clock ≤ t.clock := by
  induction h with
  | refl => exact le_refl _
  | step hs _ ih => exact (clock_step hs).trans ih

theorem entry_run (h : system.Run s es t) (hkey : s.entries key = some entry)
    (hrelease : ∀ e ∈ es, ¬ Releases key e) :
    t.entries key = some entry ∨ entry.expiry ≤ .finite t.clock := by
  induction h with
  | refl => exact .inl hkey
  | step hs hr ih =>
    rcases entry_step hs hkey (hrelease _ (by simp)) with hkept | hexpired
    · exact ih hkept fun e he => hrelease e (by simp [he])
    · exact .inr (JsNumber.le_trans hexpired (finite_le.mpr (clock_run hr)))

/-- Before its expiry comes, a key can only be released; after it, the server may drop it. -/
theorem kept_iff (hkey : s.entries key = some entry) :
    Kept key deadline s ↔ ¬ .finite s.clock < deadline ∨ ¬ entry.expiry < deadline := by
  constructor
  · intro hkept
    by_contra hboth
    obtain ⟨hnow, hexpiry⟩ := not_or.mp hboth
    rw [not_not] at hnow hexpiry
    obtain ⟨later, hlater, hdue, hbefore⟩ : ∃ later, s.clock ≤ later ∧
        entry.expiry ≤ .finite later ∧ .finite later < deadline := by
      cases hx : entry.expiry with
      | nan => simp [hx, LT.lt, blt] at hexpiry
      | negInf => exact ⟨s.clock, le_refl _, rfl, hnow⟩
      | posInf => cases deadline <;> simp [hx, LT.lt, blt] at hexpiry
      | finite x =>
        rw [hx] at hexpiry
        refine ⟨max s.clock x, le_sup_left, finite_le.mpr (le_sup_right), ?_⟩
        rcases max_choice s.clock x with hmax | hmax
        · rwa [hmax]
        · rwa [hmax]
    have hrun : system.Run s [.tick, .expired key] ({ s with clock := later }.drop key) :=
      .step (.tick hlater) (.single (.expired hkey hdue))
    have hgone := (hkept _ _ hrun (by simp [Releases]) hbefore).2
    simp [drop, hkey] at hgone
  · intro h es t hr hrelease hbefore
    refine ⟨by simp [hkey], ?_⟩
    rcases entry_run hr hkey hrelease with hentry | hexpired
    · rw [hentry, hkey]
    · exfalso
      rcases h with hnow | hexpiry
      · exact hnow (lt_of_le_of_lt (finite_le.mpr (clock_run hr)) hbefore)
      · exact hexpiry (lt_of_le_of_lt hexpired hbefore)

/-- An accepted `add` or `replace` stores its value, with the expiry of the moment. -/
theorem stored_of_command {k v : String} {x : JsNumber} (hc : c = .add k v x ∨ c = .replace k v x)
    (h : Step s (.command c true) t) :
    t.clock = s.clock ∧ t.entries k = some ⟨v, expiry s.clock x⟩ := by
  cases h with
  | command h =>
    rcases hc with rfl | rfl
    · simp only [execute] at h
      split at h
      case h_1 =>
        obtain rfl := (Prod.mk.inj h).2
        exact ⟨rfl, update_self _ _ _⟩
      case h_2 => simp at h
    · simp only [execute] at h
      split at h
      case h_1 => simp at h
      case h_2 =>
        obtain rfl := (Prod.mk.inj h).2
        exact ⟨rfl, update_self _ _ _⟩

end Server

section Provider

variable {name hostname : String} {most least : DurationInput} {createdAt now : ClockReading}
  {config : LockConfiguration JsNumber} {lock : MemcachedLock} {s t : Server}

/-- Enough for a key to be there up to its deadline: its time to live is read as seconds, or it
names a Unix time that is not before the deadline, or the deadline has come already. -/
def Outlives (ms deadline : JsNumber) (clock : ℚ) : Prop :=
  UnderThirtyDays ms ∨ ¬ unixTime (toTtlSeconds ms) < deadline ∨ ¬ .finite clock < deadline

theorem kept_iff_outlives {value : String} (hclock : t.clock = clock)
    (hstored : t.entries key = some ⟨value, expiry clock (toTtlSeconds ms)⟩)
    (hcovered : UnderThirtyDays ms → ¬ expiry clock (toTtlSeconds ms) < deadline) :
    Server.Kept key deadline t ↔ Outlives ms deadline clock := by
  rw [Server.kept_iff hstored, hclock]
  by_cases hunder : UnderThirtyDays ms
  · exact iff_of_true (.inr (hcovered hunder)) (.inl hunder)
  · rw [expiry_of_not_under hunder]
    simp only [Outlives, hunder, false_or]
    exact or_comm

theorem finite_of_under (hms : ¬ ms < 0 ∨ ¬ ms ≤ .finite 0) (h : UnderThirtyDays ms) :
    ∃ q, 0 ≤ q ∧ ms = .finite q := by
  cases ms with
  | nan => exact absurd h (not_nan_lt _)
  | negInf =>
    rcases hms with hms | hms
    · exact absurd rfl hms
    · exact absurd rfl hms
  | posInf => exact absurd h (not_lt_of_le (le_posInf (by simp)))
  | finite q =>
    refine ⟨q, ?_, rfl⟩
    rcases hms with hms | hms
    · exact finite_le.mp (le_of_not_lt (by simp) (b := .finite 0) (by simp) hms)
    · exact (not_le.mp fun hle => hms (finite_le.mpr hle)).le

/-- The deadline is rounded, but not past a whole number of milliseconds. -/
theorem lock_covered (h : createLockConfig name most least createdAt.toNumber = .ok config)
    (hcreated : createdAt.ms ≤ now.ms) (hnow : now.ms ≤ clock)
    (hunder : UnderThirtyDays config.lockAtMostFor) :
    ¬ expiry clock (toTtlSeconds config.lockAtMostFor) < config.lockAtMostUntil := by
  have haccepted := accepted_of_createLockConfig h
  obtain ⟨q, hq, hmost⟩ := finite_of_under (.inl haccepted.most_nonneg) hunder
  rw [hmost] at hunder ⊢
  obtain ⟨k, hk, hmax, hlt, hexpiry⟩ := expiry_of_under clock hq hunder
  have hbound : |createdAt.ms + 1000 * k| < 2 ^ 53 := by
    have := abs_le.mp createdAt.abs_ms_le
    exact abs_lt.mpr ⟨by omega, by omega⟩
  have huntil : config.lockAtMostUntil ≤ .finite ((createdAt.ms + 1000 * k : ℤ) : ℚ) := by
    rw [LockConfiguration.lockAtMostUntil, haccepted.createdAt_eq, hmost]
    refine ofRat_le_intCast hbound ?_
    push_cast at hlt ⊢
    linarith
  have hlast : ((createdAt.ms + 1000 * k : ℤ) : ℚ) ≤ clock + (1000 * k : ℤ) := by
    have : (createdAt.ms : ℚ) ≤ now.ms := by exact_mod_cast hcreated
    push_cast
    linarith
  rw [hexpiry]
  exact not_lt_of_le (JsNumber.le_trans huntil (finite_le.mpr hlast))

theorem unlock_covered (hnow : now.ms ≤ clock) (hkeep : ¬ lock.keepLockFor now ≤ .finite 0)
    (hunder : UnderThirtyDays (lock.keepLockFor now)) :
    ¬ expiry clock (toTtlSeconds (lock.keepLockFor now)) < lock.config.lockAtLeastUntil := by
  obtain ⟨q, hq, hms⟩ := finite_of_under (.inr hkeep) hunder
  rw [hms] at hunder ⊢
  obtain ⟨k, hk, hmax, hlt, hexpiry⟩ := expiry_of_under clock hq hunder
  obtain ⟨d, hd, hdiff⟩ : ∃ d, lock.config.lockAtLeastUntil = .finite d ∧
      ofRat (d + -now.ms) = .finite q := by
    unfold MemcachedLock.keepLockFor at hms
    cases hd : lock.config.lockAtLeastUntil with
    | finite d =>
      rw [hd] at hms
      exact ⟨d, rfl, hms⟩
    | nan | negInf | posInf =>
      rw [hd] at hms
      cases hms
  have hless : d + -now.ms < (1000 * k : ℤ) := by
    refine lt_of_ofRat_lt (abs_lt.mpr ⟨by omega, by omega⟩) ?_
    rw [hdiff]
    exact lt_of_not_le (by simp) (by simp) fun hle => not_le.mpr hlt (finite_le.mp hle)
  rw [hexpiry, hd]
  exact not_lt_of_le (finite_le.mpr (by linarith))

/-- The key that `lock` added, and the key that `doUnlock` replaced, stay up to their deadlines
exactly when the time to live they were given outlives it. -/
theorem keys_kept_iff (s t : Server)
    (h : createLockConfig name most least createdAt.toNumber = .ok config)
    (hcreated : createdAt.ms ≤ now.ms) (hnow : now.ms ≤ s.clock) :
    (∀ provider : MemcachedLockProvider, ∀ hostname,
      s.Step (.command (provider.lockCommand config now hostname) true) t →
      (t.Kept (provider.key config.name) config.lockAtMostUntil ↔
        Outlives config.lockAtMostFor config.lockAtMostUntil s.clock)) ∧
    ∀ lock : MemcachedLock, ∀ current key value expires, lock.config = config →
      lock.unlockCommand current now = some (.replace key value expires) →
      s.Step (.command (.replace key value expires) true) t →
      (t.Kept key config.lockAtLeastUntil ↔
        Outlives (lock.keepLockFor now) config.lockAtLeastUntil s.clock) := by
  constructor
  · intro provider hostname hstep
    obtain ⟨hclock, hstored⟩ := Server.stored_of_command (.inl rfl) hstep
    exact kept_iff_outlives hclock hstored (lock_covered h hcreated hnow)
  · rintro lock current key value expires rfl hcommand hstep
    obtain ⟨hclock, hstored⟩ := Server.stored_of_command (.inr rfl) hstep
    unfold MemcachedLock.unlockCommand at hcommand
    split_ifs at hcommand with hcurrent hkeep
    · simp at hcommand
    · obtain ⟨rfl, rfl, rfl⟩ := Command.replace.inj (Option.some.inj hcommand)
      exact kept_iff_outlives hclock hstored (unlock_covered hnow hkeep)

end Provider

section Archive

/-- January 1, 2024. -/
def newYear : ClockReading := ⟨1704067200000, by decide⟩

def provider : MemcachedLockProvider := .create none

def report : LockConfiguration JsNumber :=
  ⟨"report", .finite 60000, .finite 30000, newYear.toNumber⟩

theorem report_created : createLockConfig "report" (.string "1m") (.string "30s")
    newYear.toNumber = .ok report := by decide +kernel

def empty : Server := ⟨1704067200000, fun _ => none⟩

def adding (config : LockConfiguration JsNumber) (hostname : String) : Server.Event :=
  .command (provider.lockCommand config newYear hostname) true

def added (config : LockConfiguration JsNumber) : Server :=
  (empty.execute (provider.lockCommand config newYear "a")).2

theorem added_step (config : LockConfiguration JsNumber) :
    empty.Step (adding config "a") (added config) := .command rfl

def reportLock : MemcachedLock := provider.handle report newYear "a"

/-- `unlock()` at once leaves half a minute of minimum hold. -/
def keeping : Command :=
  .replace reportLock.key reportLock.value (toTtlSeconds (reportLock.keepLockFor newYear))

def replaced : Server := ((added report).execute keeping).2

/-- Both keys of a lock of a minute outlive their deadlines. -/
theorem report_kept :
    (added report).Kept (provider.key "report") report.lockAtMostUntil ∧
      replaced.Kept (provider.key "report") report.lockAtLeastUntil := by
  have hcommand : reportLock.unlockCommand (some reportLock.value) newYear = some keeping := by
    decide +kernel
  have hreplaced : (added report).Step (.command keeping true) replaced := .command rfl
  obtain ⟨hadded, -⟩ := keys_kept_iff empty (added report) report_created (le_refl newYear.ms)
    (le_refl (1704067200000 : ℚ))
  obtain ⟨-, hkept⟩ := keys_kept_iff (added report) replaced report_created (le_refl newYear.ms)
    (le_refl (1704067200000 : ℚ))
  constructor
  · refine (hadded provider "a" (added_step report)).mpr (.inl ?_)
    change JsNumber.divNat (.finite 60000) 1000 < .finite 2592000
    decide +kernel
  · refine (hkept reportLock _ _ _ _ rfl hcommand hreplaced).mpr (.inl ?_)
    change (reportLock.keepLockFor newYear).divNat 1000 < .finite 2592000
    decide +kernel

def archive : LockConfiguration JsNumber :=
  ⟨"archive", .finite 2592000000, .finite 0, newYear.toNumber⟩

theorem archive_stored : (added archive).entries (provider.key "archive") =
    some ⟨(provider.handle archive newYear "a").value, .finite 2592001000⟩ := by decide +kernel

/-- The time to live of a lock of thirty days is a second in 1970. The key is gone at once, and a
second `lock()` adds it again a month before the first lease ends. -/
theorem thirty_days_dropped :
    createLockConfig "archive" (.string "30d") (.number (.finite 0)) newYear.toNumber =
      .ok archive ∧
    empty.Step (adding archive "a") (added archive) ∧
    (added archive).Step (.expired (provider.key "archive"))
      ((added archive).drop (provider.key "archive")) ∧
    ((added archive).drop (provider.key "archive")).Step (adding archive "b")
      (((added archive).drop (provider.key "archive")).execute
        (provider.lockCommand archive newYear "b")).2 ∧
    ¬ (added archive).Kept (provider.key "archive") archive.lockAtMostUntil := by
  have hbefore : JsNumber.finite (added archive).clock < archive.lockAtMostUntil := by
    decide +kernel
  have hexpired : (added archive).Step (.expired (provider.key "archive"))
      ((added archive).drop (provider.key "archive")) :=
    .expired archive_stored (by decide +kernel)
  refine ⟨by decide +kernel, added_step archive, hexpired, .command rfl, fun hkept => ?_⟩
  have hgone := (hkept _ _ (.single hexpired) (by simp [Server.Releases]) hbefore).2
  simp [archive_stored, Server.drop] at hgone

end Archive

end Tslock.Memcached
