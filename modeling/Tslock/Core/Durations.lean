import Tslock.Core.ClockProvider
import Tslock.Core.CreateLockConfig
import Tslock.Foundation.JsDoubles

/-! Which durations `parseDuration` lets through, and the configurations made of them. -/
namespace Tslock

open Foundation JsNumber

namespace DurationInput

/-- The numbers of the input are numbers of the language. -/
def OfDoubles : DurationInput → Prop
  | .number n => n.IsDouble
  | .string _ => True
  | .object hours minutes seconds millis =>
    ∀ field ∈ [hours, minutes, seconds, millis], ∀ n ∈ field, n.IsDouble

/-- No field is `NaN` or `Infinity`, and no product and no sum of the milliseconds overflows. -/
def Bounded : DurationInput → Prop
  | .number _ => True
  | .string s => ∀ value unit, matchDuration (trim s.toList) = some (value, unit) →
    Scales unit value
  | .object hours minutes seconds millis =>
    (Scales 3600000 (hours.getD 0) ∧ Scales 60000 (minutes.getD 0) ∧
      Scales 1000 (seconds.getD 0) ∧ millis.getD 0 < posInf) ∧
    Adds (hours.getD 0 * .finite 3600000) (minutes.getD 0 * .finite 60000) ∧
    Adds (hours.getD 0 * .finite 3600000 + minutes.getD 0 * .finite 60000)
      (seconds.getD 0 * .finite 1000) ∧
    Adds (hours.getD 0 * .finite 3600000 + minutes.getD 0 * .finite 60000 +
      seconds.getD 0 * .finite 1000) (millis.getD 0)

/-- `parseDuration` throws, or returns a finite number that is at least 0. -/
def ParsesWell (input : DurationInput) : Prop :=
  ∀ d, parseDuration input = .ok d → d.isFinite = true ∧ 0 ≤ d

end DurationInput

/-- The durations are finite and in order, and each deadline computed from them is finite and not
earlier than `createdAt`. -/
structure LockConfiguration.Sound (config : LockConfiguration JsNumber) : Prop where
  most_finite : config.lockAtMostFor.isFinite = true
  least_finite : config.lockAtLeastFor.isFinite = true
  least_nonneg : 0 ≤ config.lockAtLeastFor
  ordered : config.lockAtLeastFor ≤ config.lockAtMostFor
  atMostUntil : config.lockAtMostUntil.isFinite = true ∧ config.createdAt ≤ config.lockAtMostUntil
  atLeastUntil : config.lockAtLeastUntil.isFinite = true ∧
    config.createdAt ≤ config.lockAtLeastUntil
  unlockTime : ∀ now : ClockReading, (config.unlockTime now.toNumber).isFinite = true ∧
    config.createdAt ≤ config.unlockTime now.toNumber

section Parse
variable {input : DurationInput} {text : List Char} {value : JsNumber} {unit : ℕ}

/-- A match has a unit and, its digits having no sign, a value that is not negative. -/
theorem matchDuration_some (h : matchDuration text = some (value, unit)) :
    text ≠ [] ∧ 0 < unit ∧ 0 ≤ value := by
  unfold matchDuration at h
  dsimp only at h
  split_ifs at h with hdigits
  obtain ⟨multiplier, hunit, heq⟩ := Option.map_eq_some_iff.mp h
  obtain ⟨rfl, rfl⟩ := Prod.mk.inj heq
  refine ⟨?_, ?_, ofRat_nonneg (by positivity)⟩
  · rintro rfl
    exact hdigits rfl
  · unfold unitMultiplier at hunit
    split_ifs at hunit <;> (cases hunit; decide)

theorem parsesWell_string (s : String) :
    (DurationInput.string s).ParsesWell ↔ (DurationInput.string s).Bounded := by
  constructor
  · intro h value unit hmatch
    obtain ⟨htext, hunit, -⟩ := matchDuration_some hmatch
    have hparse : parseDuration (.string s) = .ok (value * .finite unit) := by
      simp only [parseDuration, if_neg htext, hmatch]
    exact (mul_lt_posInf_iff hunit).mp (lt_posInf_of_isFinite (h _ hparse).1)
  · intro h d hd
    simp only [parseDuration] at hd
    split_ifs at hd
    cases hmatch : matchDuration (trim s.toList) with
    | none => simp [hmatch] at hd
    | some p =>
      obtain ⟨value, unit⟩ := p
      simp only [hmatch, Except.ok.injEq] at hd
      obtain ⟨-, hunit, hvalue⟩ := matchDuration_some hmatch
      have hnonneg := mul_nonneg hvalue hunit
      rw [← hd]
      exact finite_of_lt_posInf ((mul_lt_posInf_iff hunit).mpr (h value unit hmatch))
        (not_lt_of_le hnonneg)

theorem scaled_lt_posInf_iff (a : JsNumber) (n : ℕ) [n.AtLeastTwo] :
    a * .finite (OfNat.ofNat n : ℚ) < posInf ↔ Scales (OfNat.ofNat n) a := by
  have hpos : 0 < (OfNat.ofNat n : ℕ) := Nat.pos_of_neZero n
  have h := @mul_lt_posInf_iff a (OfNat.ofNat n) hpos
  rwa [Nat.cast_ofNat] at h

/-- The sum overflows if and only if one of its terms or partial sums does. -/
theorem total_lt_posInf_iff (hours minutes seconds millis : Option JsNumber) :
    hours.getD 0 * .finite 3600000 + minutes.getD 0 * .finite 60000 +
      seconds.getD 0 * .finite 1000 + millis.getD 0 < posInf ↔
    (DurationInput.object hours minutes seconds millis).Bounded := by
  rw [add_lt_posInf_iff, add_lt_posInf_iff, add_lt_posInf_iff, scaled_lt_posInf_iff,
    scaled_lt_posInf_iff, scaled_lt_posInf_iff]
  simp only [DurationInput.Bounded]
  tauto

theorem parsesWell_object (hours minutes seconds millis : Option JsNumber) :
    (DurationInput.object hours minutes seconds millis).ParsesWell ↔
      (DurationInput.object hours minutes seconds millis).Bounded := by
  rw [← total_lt_posInf_iff]
  simp only [DurationInput.ParsesWell, parseDuration]
  split_ifs with hneg
  · simp [lt_posInf_of_neg hneg]
  · constructor
    · intro h
      exact lt_posInf_of_isFinite (h _ rfl).1
    · intro h d hd
      cases hd
      exact finite_of_lt_posInf h hneg

theorem parsesWell_iff (input : DurationInput) : input.ParsesWell ↔ input.Bounded := by
  cases input with
  | number n =>
    refine iff_of_true ?_ trivial
    intro d hd
    simp only [parseDuration] at hd
    split_ifs at hd with hbad
    cases hd
    obtain ⟨hfinite, hneg⟩ := not_or.mp hbad
    have hfin : n.isFinite = true := by simpa using hfinite
    exact finite_of_lt_posInf (lt_posInf_of_isFinite hfin) hneg
  | string s => exact parsesWell_string s
  | object hours minutes seconds millis => exact parsesWell_object hours minutes seconds millis

end Parse

section Config
variable {name : String} {input most least : DurationInput} {now : ClockReading} {d : JsNumber}
  {config : LockConfiguration JsNumber}

theorem parseDuration_isDouble (h : input.OfDoubles) (hd : parseDuration input = .ok d) :
    d.IsDouble := by
  cases input with
  | number n =>
    simp only [parseDuration] at hd
    split_ifs at hd
    cases hd
    exact h
  | string s =>
    simp only [parseDuration] at hd
    split_ifs at hd
    cases hmatch : matchDuration (trim s.toList) with
    | none => simp [hmatch] at hd
    | some p =>
      simp only [hmatch, Except.ok.injEq] at hd
      exact hd ▸ isDouble_mul _ _
  | object hours minutes seconds millis =>
    simp only [parseDuration] at hd
    split_ifs at hd
    cases hd
    exact isDouble_add _ _

/-- A duration added to a clock reading does not overflow. -/
theorem isFinite_reading_add (hd : d.IsDouble) (hfin : d.isFinite = true) (h0 : 0 ≤ d)
    (now : ClockReading) :
    (now.toNumber + d).isFinite = true ∧ now.toNumber ≤ now.toNumber + d := by
  obtain ⟨q, rfl⟩ := isFinite_iff.mp hfin
  have hsmall : |now.ms| < 2 ^ 53 := lt_of_le_of_lt now.abs_ms_le (by norm_num)
  exact isFinite_intCast_add hsmall (hd q rfl) (finite_le.mp h0)

/-- An accepted configuration is sound if and only if both of its inputs are bounded. -/
theorem sound_iff_bounded (hmost : most.OfDoubles) (hleast : least.OfDoubles)
    (h : createLockConfig name most least now.toNumber = .ok config) :
    config.Sound ↔ most.Bounded ∧ least.Bounded := by
  have hacc := accepted_of_createLockConfig h
  have hmost_double := parseDuration_isDouble hmost hacc.most
  have hleast_double := parseDuration_isDouble hleast hacc.least
  constructor
  · intro hsound
    have hmost_nonneg := le_trans hsound.least_nonneg hsound.ordered
    refine ⟨(parsesWell_iff most).mp ?_, (parsesWell_iff least).mp ?_⟩
    · intro d hd
      cases hacc.most.symm.trans hd
      exact ⟨hsound.most_finite, hmost_nonneg⟩
    · intro d hd
      cases hacc.least.symm.trans hd
      exact ⟨hsound.least_finite, hsound.least_nonneg⟩
  · rintro ⟨hm, hl⟩
    obtain ⟨hmfin, hm0⟩ := (parsesWell_iff most).mpr hm _ hacc.most
    obtain ⟨hlfin, hl0⟩ := (parsesWell_iff least).mpr hl _ hacc.least
    have hmostUntil := isFinite_reading_add hmost_double hmfin hm0 now
    have hleastUntil := isFinite_reading_add hleast_double hlfin hl0 now
    rw [← hacc.createdAt_eq] at hmostUntil hleastUntil
    exact
      { most_finite := hmfin
        least_finite := hlfin
        least_nonneg := hl0
        ordered := le_of_not_lt (ne_nan_of_isFinite hmfin) (ne_nan_of_isFinite hlfin) hacc.fits
        atMostUntil := hmostUntil
        atLeastUntil := hleastUntil
        unlockTime := fun later =>
          ⟨isFinite_max rfl hleastUntil.1, le_trans hleastUntil.2
            (le_max_right nofun (ne_nan_of_isFinite hleastUntil.1))⟩ }

end Config

/-- `parseDuration` throws or returns a finite number that is at least 0, if and only if its input
is bounded; a configuration that `createLockConfig` returns is sound if and only if both inputs
are. -/
theorem durations_validated_iff {name : String} {most least : DurationInput} {now : ClockReading}
    {config : LockConfiguration JsNumber} (hmost : most.OfDoubles) (hleast : least.OfDoubles)
    (h : createLockConfig name most least now.toNumber = .ok config) :
    (∀ input : DurationInput, input.ParsesWell ↔ input.Bounded) ∧
      (config.Sound ↔ most.Bounded ∧ least.Bounded) :=
  ⟨parsesWell_iff, sound_iff_bounded hmost hleast h⟩

theorem bounded_of_ok {input : DurationInput} {q : ℚ}
    (h : parseDuration input = .ok (.finite q)) (h0 : 0 ≤ q) : input.Bounded := by
  apply (parsesWell_iff input).mp
  intro d hd
  cases h.symm.trans hd
  exact ⟨rfl, finite_le.mpr h0⟩

/-- Half a minute, with a minimum hold of a second and a half. -/
theorem report_sound :
    LockConfiguration.Sound
      ⟨"report", .finite 30000, .finite 1500, ClockReading.epoch.toNumber⟩ := by
  have haccepted :
      createLockConfig "report" (.string "30s") (.string "1500") ClockReading.epoch.toNumber =
      .ok ⟨"report", .finite 30000, .finite 1500, ClockReading.epoch.toNumber⟩ := by decide +kernel
  have hmost : (DurationInput.string "30s").Bounded :=
    bounded_of_ok (q := 30000) (by decide +kernel) (by norm_num)
  have hleast : (DurationInput.string "1500").Bounded :=
    bounded_of_ok (q := 1500) (by decide +kernel) (by norm_num)
  have hdoubles : ∀ s, (DurationInput.string s).OfDoubles := fun _ => trivial
  exact (durations_validated_iff (hdoubles _) (hdoubles _) haccepted).2.mpr ⟨hmost, hleast⟩

/-- The durations with `NaN` for their hours. -/
def nanHours : DurationInput := .object (some .nan) none none none

/-- They are accepted, and make a configuration without deadlines. -/
theorem nanHours_accepted : parseDuration nanHours = .ok .nan ∧ ¬ nanHours.ParsesWell ∧
    createLockConfig "report" nanHours nanHours ClockReading.epoch.toNumber =
      .ok ⟨"report", .nan, .nan, ClockReading.epoch.toNumber⟩ ∧
    ¬ LockConfiguration.Sound ⟨"report", .nan, .nan, ClockReading.epoch.toNumber⟩ := by
  have hparse : parseDuration nanHours = .ok .nan := by decide +kernel
  refine ⟨hparse, ?_, by decide +kernel, ?_⟩
  · intro h
    cases (h _ hparse).1
  · intro h
    cases h.most_finite

end Tslock
