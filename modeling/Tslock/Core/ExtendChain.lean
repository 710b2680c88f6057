import Tslock.Core.CreateLockConfig

/-! The configurations a handle passes through: `createLockConfig`, then any number of
`AbstractSimpleLock.extend` and `LockExtender.extendActiveLock` calls that yield a successor. -/
namespace Tslock

open Foundation

/-- A call that extends, with the clock reading of the new configuration. -/
inductive ExtendCall where
  | extend (lockAtMostFor lockAtLeastFor : JsNumber) (now : ℚ)
  | extendActiveLock (lockAtMostFor lockAtLeastFor : DurationInput) (now : ℚ)

namespace ExtendCall

/-- The two numbers that reach `AbstractSimpleLock.extend`. -/
def durations : ExtendCall → Except DurationError (JsNumber × JsNumber)
  | .extend most least _ => .ok (most, least)
  | .extendActiveLock most least _ =>
    match parseDuration most, parseDuration least with
    | .error e, _ => .error e
    | .ok _, .error e => .error e
    | .ok most, .ok least => .ok (most, least)

def now : ExtendCall → ℚ
  | .extend _ _ now | .extendActiveLock _ _ now => now

/-- Both durations are at least 0. -/
def NonNegative (call : ExtendCall) : Prop :=
  ∀ most least, call.durations = .ok (most, least) → 0 ≤ most ∧ 0 ≤ least

/-- The minimum hold is not longer than the new lease. -/
def Fits (call : ExtendCall) : Prop :=
  ∀ most least, call.durations = .ok (most, least) → least ≤ most

end ExtendCall

/-- The configurations of the first handle and of each successor. -/
def extendChain (config : LockConfiguration JsNumber) :
    List ExtendCall → Except DurationError (List (LockConfiguration JsNumber))
  | [] => .ok [config]
  | call :: calls =>
    match call.durations with
    | .error e => .error e
    | .ok (most, least) =>
      (extendChain (config.successor most least (.finite call.now)) calls).map (config :: ·)

namespace LockConfiguration

/-- Each way to release writes a deadline of at most the later of now and the end of the lease:
`unlockTime`, or the bare `lockAtLeastUntil` of the in-memory lock. -/
def ReleaseBounded (config : LockConfiguration JsNumber) : Prop :=
  ∀ now : ℚ, config.unlockTime (.finite now) ≤ max (.finite now) config.lockAtMostUntil ∧
    config.lockAtLeastUntil ≤ max (.finite now) config.lockAtMostUntil

end LockConfiguration

section Chain
variable {config : LockConfiguration JsNumber} {calls : List ExtendCall}
  {chain : List (LockConfiguration JsNumber)}

open JsNumber

theorem le_ne_nan {a b : JsNumber} (h : a ≤ b) : a ≠ nan ∧ b ≠ nan := by
  constructor
  · rintro rfl
    cases h
  · rintro rfl
    cases a <;> cases h

theorem releaseBounded_of_valid (hv : config.DurationsValid)
    (hc : config.createdAt.isFinite = true) : config.ReleaseBounded := by
  intro now
  have hle : config.lockAtLeastUntil ≤ config.lockAtMostUntil :=
    JsNumber.add_le_add_left hc hv.2
  obtain ⟨hleast, hmost⟩ := le_ne_nan hle
  have hnow : JsNumber.finite now ≠ nan := by simp
  have hbound := JsNumber.le_trans hle (JsNumber.le_max_right hnow hmost)
  exact ⟨JsNumber.max_le (JsNumber.le_max_left hnow hmost) hbound, hbound⟩

/-- The configurations of a chain are valid when the first is and every extension fits. -/
theorem chain_valid_iff (hc : config.createdAt.isFinite = true)
    (hchain : extendChain config calls = .ok chain) (hnonneg : ∀ call ∈ calls, call.NonNegative) :
    (∀ c ∈ chain, c.DurationsValid ∧ c.ReleaseBounded) ↔
      config.DurationsValid ∧ ∀ call ∈ calls, call.Fits := by
  induction calls generalizing config chain with
  | nil =>
    obtain rfl := Except.ok.inj hchain
    simp only [List.mem_singleton, forall_eq, List.not_mem_nil, false_implies, implies_true,
      and_true]
    exact ⟨And.left, fun hv => ⟨hv, releaseBounded_of_valid hv hc⟩⟩
  | cons call calls ih =>
    unfold extendChain at hchain
    split at hchain
    · simp at hchain
    case h_2 most least hdurations =>
      obtain ⟨rest, hrest, rfl⟩ : ∃ rest, extendChain
          (config.successor most least (.finite call.now)) calls = .ok rest ∧
          config :: rest = chain := by
        cases hr : extendChain (config.successor most least (.finite call.now)) calls with
        | error e => simp [hr, Except.map] at hchain
        | ok rest => exact ⟨rest, rfl, by simpa [hr, Except.map] using hchain⟩
      have hiff := @ih (config.successor most least (.finite call.now)) rest rfl hrest
        fun c hc => hnonneg c (by simp [hc])
      have hsucc : (config.successor most least (.finite call.now)).DurationsValid ↔ call.Fits := by
        constructor
        · rintro ⟨-, hle⟩ m l hml
          obtain ⟨rfl, rfl⟩ := Prod.mk.inj (Except.ok.inj (hdurations.symm.trans hml))
          exact hle
        · intro hfits
          exact ⟨(hnonneg call (by simp) most least hdurations).2, hfits most least hdurations⟩
      rw [hsucc] at hiff
      constructor
      · intro hall
        obtain ⟨hfits, hcalls⟩ := hiff.mp fun c hc => hall c (by simp [hc])
        exact ⟨(hall config (by simp)).1, by simpa using ⟨hfits, hcalls⟩⟩
      · rintro ⟨hv, hcalls⟩ c hmem
        rcases List.mem_cons.mp hmem with rfl | hmem
        · exact ⟨hv, releaseBounded_of_valid hv hc⟩
        · exact hiff.mpr ⟨hcalls call (by simp), fun c' hc' => hcalls c' (by simp [hc'])⟩ c hmem

/-- `createLockConfig` compares, so that it lets `NaN` pass and nothing else. -/
theorem created_valid_iff {name : String} {most least : DurationInput} {now : JsNumber}
    (h : Accepted name most least now config) :
    config.DurationsValid ↔ config.lockAtMostFor ≠ nan ∧ config.lockAtLeastFor ≠ nan := by
  constructor
  · rintro ⟨-, hle⟩
    exact (le_ne_nan hle).symm
  · rintro ⟨hm, hl⟩
    have hzero : (0 : JsNumber) ≠ nan := by
      change JsNumber.finite 0 ≠ nan
      simp
    exact ⟨le_of_not_lt hl hzero h.least_nonneg, le_of_not_lt hm hl h.fits⟩

/-- Every configuration of a chain is well formed, and its release bounded by its lease, exactly
when `createLockConfig` was given no `NaN` and every extension fits. -/
theorem chain_wellFormed_iff {name : String} {most least : DurationInput} {now : ℚ}
    (h : createLockConfig name most least (.finite now) = .ok config)
    (hchain : extendChain config calls = .ok chain) (hnonneg : ∀ call ∈ calls, call.NonNegative) :
    (∀ c ∈ chain, c.DurationsValid ∧ c.ReleaseBounded) ↔
      (parseDuration most ≠ .ok nan ∧ parseDuration least ≠ .ok nan) ∧
        ∀ call ∈ calls, call.Fits := by
  have haccepted := accepted_of_createLockConfig h
  have hc : config.createdAt.isFinite = true := by
    rw [haccepted.createdAt_eq]
    rfl
  rw [chain_valid_iff hc hchain hnonneg, created_valid_iff haccepted, haccepted.most,
    haccepted.least]
  simp

end Chain

section Prolonged

def reportConfig : LockConfiguration JsNumber := ⟨"report", .finite 60000, .finite 1000, .finite 0⟩

theorem reportConfig_created :
    createLockConfig "report" (.number (.finite 60000)) (.number (.finite 1000)) (.finite 0) =
      .ok reportConfig := by decide +kernel

/-- One renewal by the handle, one through `LockExtender`. -/
def renewals : List ExtendCall :=
  [.extend (.finite 30000) (.finite 500) 10,
    .extendActiveLock (.number (.finite 90000)) (.number (.finite 0)) 20]

def renewed : List (LockConfiguration JsNumber) :=
  [reportConfig, ⟨"report", .finite 30000, .finite 500, .finite 10⟩,
    ⟨"report", .finite 90000, .finite 0, .finite 20⟩]

theorem renewed_wellFormed : renewed.Forall fun c => c.DurationsValid ∧ c.ReleaseBounded := by
  have hdurations : ∀ call ∈ renewals, ∃ most least, call.durations = .ok (most, least) ∧
      0 ≤ most ∧ 0 ≤ least ∧ least ≤ most := by
    intro call hc
    rcases List.mem_cons.mp hc with rfl | hc
    · exact ⟨_, _, rfl, by decide +kernel, by decide +kernel, by decide +kernel⟩
    · obtain rfl := List.mem_singleton.mp hc
      exact ⟨.finite 90000, .finite 0, by decide +kernel, by decide +kernel, by decide +kernel,
        by decide +kernel⟩
  have hchain : extendChain reportConfig renewals = .ok renewed := by decide +kernel
  refine List.forall_iff_forall_mem.mpr
    ((chain_wellFormed_iff reportConfig_created hchain ?_).mpr ⟨by decide +kernel, ?_⟩)
  · intro call hc most least h
    obtain ⟨m, l, hml, hm, hl, -⟩ := hdurations call hc
    obtain ⟨rfl, rfl⟩ := Prod.mk.inj (Except.ok.inj (hml.symm.trans h))
    exact ⟨hm, hl⟩
  · intro call hc most least h
    obtain ⟨m, l, hml, -, -, hle⟩ := hdurations call hc
    obtain ⟨rfl, rfl⟩ := Prod.mk.inj (Except.ok.inj (hml.symm.trans h))
    exact hle

/-- A minute of minimum hold on a lease of a second. -/
def prolonging : LockConfiguration JsNumber := reportConfig.successor (.finite 1000) (.finite 60000)
  (.finite 10)

theorem prolonging_until : prolonging.lockAtLeastUntil = .finite 60010 ∧
    prolonging.lockAtMostUntil = .finite 1010 := by
  have hleast : JsNumber.ofRat ((60010 : ℤ) : ℚ) = .finite ((60010 : ℤ) : ℚ) :=
    JsNumber.ofRat_intCast (by norm_num)
  have hmost : JsNumber.ofRat ((1010 : ℤ) : ℚ) = .finite ((1010 : ℤ) : ℚ) :=
    JsNumber.ofRat_intCast (by norm_num)
  constructor
  · change JsNumber.ofRat (10 + 60000) = _
    norm_num at hleast ⊢
    exact hleast
  · change JsNumber.ofRat (10 + 1000) = _
    norm_num at hmost ⊢
    exact hmost

/-- The extension is accepted, and a release of its handle writes past the lease it ends. -/
theorem extension_prolongs :
    createLockConfig "report" (.number (.finite 60000)) (.number (.finite 1000)) (.finite 0) =
      .ok reportConfig ∧
    extendChain reportConfig [.extend (.finite 1000) (.finite 60000) 10] =
      .ok [reportConfig, prolonging] ∧
    ¬ prolonging.DurationsValid ∧
    max (.finite 20) prolonging.lockAtMostUntil < prolonging.unlockTime (.finite 20) := by
  refine ⟨reportConfig_created, by decide +kernel, by decide +kernel, ?_⟩
  rw [LockConfiguration.unlockTime, prolonging_until.1, prolonging_until.2]
  decide +kernel

end Prolonged

end Tslock
