import Tslock.Core.CreateLockConfig
import Tslock.Documents.StorageAccessor

/-! A lock and the document it wrote: when `unlock` and `extend` recognise it. -/
namespace Tslock.Documents

open Foundation

/-- A whole number of milliseconds. -/
def WholeMillis (epochMillis : JsNumber) : Prop := ∃ n : ℤ, epochMillis = .finite n

namespace DocumentAccessor

variable {V : Type*}

/-- The document is as a granted call of this accessor left it, for the configuration of that call:
an insert, an update, or an extend at the end of a chain of them. -/
inductive Holding (accessor : DocumentAccessor V) :
    LockConfiguration JsNumber → Document V → Prop where
  | inserted {config : LockConfiguration JsNumber} {now : ClockReading} {doc : Document V} :
      accessor.insertRecord config now none = ⟨some doc, .returned true⟩ →
      Holding accessor config doc
  | updated {config : LockConfiguration JsNumber} {now later : ClockReading}
      {old doc : Document V} :
      accessor.updateRecord config now later (some old) = ⟨some doc, .returned true⟩ →
      Holding accessor config doc
  | extended {config newConfig : LockConfiguration JsNumber} {now : ClockReading}
      {doc doc' : Document V} :
      Holding accessor config doc →
      accessor.extend newConfig (some config.lockAtMostUntil) now (some doc) =
        ⟨some doc', .returned true⟩ →
      Holding accessor newConfig doc'

variable (accessor : DocumentAccessor V) (config newConfig : LockConfiguration JsNumber)
  (doc : Document V) (now : ClockReading)

/-- A field value that keeps a number to the millisecond. -/
def Holds (v : V) (epochMillis : JsNumber) : Prop :=
  accessor.toFieldValue epochMillis = .ok v ∧
    ∃ (q : ℚ) (n : ℤ), epochMillis = .finite q ∧ accessor.toMillis v = .finite n ∧
      |(n : ℚ) - q| < 1

def Holdable (epochMillis : JsNumber) : Prop := ∃ v, accessor.Holds v epochMillis

/-- `unlock` sets the stored deadline to the unlock time. -/
def Releases : Prop :=
  ∃ v, accessor.Holds v (config.unlockTime now.toNumber) ∧
    accessor.unlock config now (some doc) = ⟨some { doc with lockUntil := v }, .done⟩

/-- `extend` returns true, and the document has the deadline of the new configuration. -/
def Prolongs : Prop :=
  ∃ v, accessor.toFieldValue newConfig.lockAtMostUntil = .ok v ∧
    accessor.extend newConfig (some config.lockAtMostUntil) now (some doc) =
      ⟨some { doc with lockUntil := v }, .returned true⟩

/-- Exactly when a lock with a representable deadline recognises its own document. -/
structure KnowsOwnRecord : Prop where
  unlock : ∀ config doc now, accessor.Holding config doc →
    (JsDate.ofNumber config.lockAtMostUntil).isSome →
    (accessor.Releases config doc now ↔
      WholeMillis config.lockAtMostUntil ∧ accessor.Holdable (config.unlockTime now.toNumber))
  extend : ∀ config newConfig doc now, accessor.Holding config doc →
    (JsDate.ofNumber config.lockAtMostUntil).isSome → now.toNumber < config.lockAtMostUntil →
    (accessor.Prolongs config newConfig doc now ↔
      WholeMillis config.lockAtMostUntil ∧
        ∃ v, accessor.toFieldValue newConfig.lockAtMostUntil = .ok v)

variable {accessor config newConfig doc now} {d : JsNumber}
  {reply : AccessorReply}

theorem writeData_ok (h : accessor.writeData config now = ⟨some doc, .returned true⟩) :
    doc.lockedBy = accessor.lockedByValue ∧
      accessor.toFieldValue config.lockAtMostUntil = .ok doc.lockUntil := by
  unfold writeData toData at h
  cases hmost : accessor.toFieldValue config.lockAtMostUntil with
  | error e => simp [hmost, Outcome.leaving] at h
  | ok lockUntil =>
    cases hnow : accessor.toFieldValue now.toNumber with
    | error e => simp [hmost, hnow, Outcome.leaving] at h
    | ok lockedAt =>
      simp only [hmost, hnow, Outcome.mk.injEq, Option.some.injEq, and_true] at h
      subst h
      exact ⟨rfl, rfl⟩

theorem setLockUntil_ok {doc' : Document V}
    (h : accessor.setLockUntil doc d reply = ⟨some doc', reply⟩) :
    doc'.lockedBy = doc.lockedBy ∧ accessor.toFieldValue d = .ok doc'.lockUntil := by
  cases hv : accessor.toFieldValue d with
  | error e => simp [setLockUntil, hv, Outcome.leaving] at h
  | ok v =>
    simp only [setLockUntil, hv, Outcome.mk.injEq, Option.some.injEq, and_true] at h
    subst h
    exact ⟨rfl, rfl⟩

/-- An extend that returns true has passed its checks. -/
theorem extend_granted {previous : JsNumber} {doc' : Document V}
    (h : accessor.extend newConfig (some previous) now (some doc) = ⟨some doc', .returned true⟩) :
    doc.lockedBy = accessor.lockedByValue ∧
      accessor.setLockUntil doc newConfig.lockAtMostUntil (.returned true) =
        ⟨some doc', .returned true⟩ := by
  unfold extend at h
  dsimp only at h
  split_ifs at h with hby hcurrent
  · simp [Outcome.leaving] at h
  · simp [Outcome.leaving] at h
  · exact ⟨not_not.mp hby, h⟩

/-- The document has the lock's value and the encoding of its deadline. -/
theorem Holding.written (h : accessor.Holding config doc) :
    doc.lockedBy = accessor.lockedByValue ∧
      accessor.toFieldValue config.lockAtMostUntil = .ok doc.lockUntil := by
  induction h with
  | inserted hinsert => exact writeData_ok hinsert
  | updated hupdate =>
    unfold updateRecord at hupdate
    dsimp only at hupdate
    split_ifs at hupdate
    · simp [Outcome.leaving] at hupdate
    · exact writeData_ok hupdate
  | extended _ hextend ih =>
    obtain ⟨hby, hset⟩ := extend_granted hextend
    obtain ⟨hkept, hvalue⟩ := setLockUntil_ok hset
    exact ⟨hkept.trans hby, hvalue⟩

/-- What is read back is the deadline if and only if the deadline is whole. -/
theorem recognised_iff (h : accessor.Holding config doc)
    (hdate : (JsDate.ofNumber config.lockAtMostUntil).isSome) :
    (accessor.toMillis doc.lockUntil).strictEquals config.lockAtMostUntil = true ↔
      WholeMillis config.lockAtMostUntil := by
  have hvalue := h.written.2
  generalize config.lockAtMostUntil = d at *
  cases d with
  | finite q =>
    obtain ⟨n, hn, hnear⟩ := accessor.near q doc.lockUntil hdate hvalue
    simp only [hn, JsNumber.strictEquals, decide_eq_true_eq]
    constructor
    · rintro ⟨-, heq⟩
      exact ⟨n, heq.symm⟩
    · rintro ⟨m, hm⟩
      cases hm
      have hlt : |n - m| < 1 := by exact_mod_cast hnear
      rw [sub_eq_zero.mp (Int.abs_lt_one_iff.mp hlt)]
      exact ⟨nofun, rfl⟩
  | _ => cases hdate

theorem unlock_own (h : accessor.Holding config doc) :
    accessor.unlock config now (some doc) =
      if (accessor.toMillis doc.lockUntil).strictEquals config.lockAtMostUntil then
        accessor.setLockUntil doc (config.unlockTime now.toNumber) .done
      else .leaving .done := by
  rw [unlock, if_neg (not_not.mpr h.written.1), ite_not]

theorem releases_iff (h : accessor.Holding config doc)
    (hdate : (JsDate.ofNumber config.lockAtMostUntil).isSome) :
    accessor.Releases config doc now ↔
      WholeMillis config.lockAtMostUntil ∧ accessor.Holdable (config.unlockTime now.toNumber) := by
  rw [← recognised_iff h hdate, Releases, unlock_own h]
  constructor
  · rintro ⟨v, hholds, hunlock⟩
    refine ⟨?_, v, hholds⟩
    by_contra hne
    simp [if_neg hne, Outcome.leaving] at hunlock
  · rintro ⟨heq, v, hholds⟩
    refine ⟨v, hholds, ?_⟩
    rw [if_pos heq, setLockUntil, hholds.1]

/-- Before the deadline nothing but the comparison can refuse an extend. -/
theorem extend_own (h : accessor.Holding config doc)
    (hnow : now.toNumber < config.lockAtMostUntil) :
    accessor.extend newConfig (some config.lockAtMostUntil) now (some doc) =
      if (accessor.toMillis doc.lockUntil).strictEquals config.lockAtMostUntil then
        accessor.setLockUntil doc newConfig.lockAtMostUntil (.returned true)
      else .leaving (.returned false) := by
  rw [extend, if_neg (not_not.mpr h.written.1)]
  by_cases heq : (accessor.toMillis doc.lockUntil).strictEquals config.lockAtMostUntil = true
  · have hsame : accessor.toMillis doc.lockUntil = config.lockAtMostUntil := by
      simp only [JsNumber.strictEquals, decide_eq_true_eq] at heq
      exact heq.2
    have hlate : ¬ accessor.toMillis doc.lockUntil ≤ now.toNumber := by
      rw [hsame]
      exact fun hle => JsNumber.not_lt_of_le hle hnow
    rw [if_pos heq, if_neg (not_or.mpr ⟨not_not.mpr heq, hlate⟩)]
  · rw [if_neg heq, if_pos (.inl heq)]

theorem prolongs_iff (h : accessor.Holding config doc)
    (hdate : (JsDate.ofNumber config.lockAtMostUntil).isSome)
    (hnow : now.toNumber < config.lockAtMostUntil) :
    accessor.Prolongs config newConfig doc now ↔
      WholeMillis config.lockAtMostUntil ∧
        ∃ v, accessor.toFieldValue newConfig.lockAtMostUntil = .ok v := by
  rw [← recognised_iff h hdate, Prolongs, extend_own h hnow]
  constructor
  · rintro ⟨v, hv, hextend⟩
    refine ⟨?_, v, hv⟩
    by_contra hne
    simp [if_neg hne, Outcome.leaving] at hextend
  · rintro ⟨heq, v, hv⟩
    refine ⟨v, hv, ?_⟩
    rw [if_pos heq, setLockUntil, hv]

/-- With a part of a millisecond in the deadline `unlock` leaves the document, at every reading, and
`extend` returns false. -/
theorem unknown_of_fraction (h : accessor.Holding config doc)
    (hdate : (JsDate.ofNumber config.lockAtMostUntil).isSome)
    (hpart : ¬ WholeMillis config.lockAtMostUntil) :
    accessor.unlock config now (some doc) = .leaving .done ∧
      (now.toNumber < config.lockAtMostUntil →
        accessor.extend newConfig (some config.lockAtMostUntil) now (some doc) =
          .leaving (.returned false)) := by
  have hne := mt (recognised_iff h hdate).mp hpart
  refine ⟨?_, fun hnow => ?_⟩
  · rw [unlock_own h, if_neg hne]
  · rw [extend_own h hnow, if_neg hne]

theorem knowsOwnRecord (accessor : DocumentAccessor V) : accessor.KnowsOwnRecord where
  unlock _ _ _ h hdate := releases_iff h hdate
  extend _ _ _ _ h hdate hnow := prolongs_iff h hdate hnow

end DocumentAccessor

section Holdable

variable {T : Type*} {timestamps : TimestampClass T} {useDate : Bool} {lockedByValue : String}
  {d : JsNumber} {name : String} {most least : DurationInput} {createdAt : ClockReading}
  {config : LockConfiguration JsNumber}

/-- A text holds what a `Date` holds. -/
theorem holdable_text_iff {V : Type*} {accessor : DocumentAccessor (String ⊕ V)}
    (hwrite : accessor.toFieldValue d = (isoText d).map .inl)
    (hread : ∀ text, accessor.toMillis (.inl text) = parseText text) :
    accessor.Holdable d ↔ (JsDate.ofNumber d).isSome := by
  constructor
  · rintro ⟨v, hv, -⟩
    obtain ⟨text, htext, -⟩ := map_ok (hwrite.symm.trans hv)
    exact isoText_iff.mp ⟨text, htext⟩
  · intro h
    obtain ⟨text, htext⟩ := isoText_iff.mpr h
    cases d with
    | finite q =>
      obtain ⟨n, hn, hnear⟩ := isoText_near htext
      refine ⟨.inl text, ?_, q, n, rfl, (hread text).trans hn, hnear⟩
      rw [hwrite, htext]
      rfl
    | _ => cases h

theorem firestore_holdable_iff :
    (firestoreStorageAccessor timestamps false lockedByValue).Holdable d ↔
      (JsDate.ofNumber d).isSome :=
  holdable_text_iff rfl fun _ => rfl

theorem datastore_holdable_iff :
    (datastoreStorageAccessor useDate lockedByValue).Holdable d ↔ (JsDate.ofNumber d).isSome := by
  cases useDate with
  | false => exact holdable_text_iff rfl fun _ => rfl
  | true =>
    constructor
    · rintro ⟨v, hv, q, n, -, hn, -⟩
      cases hv
      by_contra hnone
      rw [Option.not_isSome_iff_eq_none] at hnone
      simp [datastoreStorageAccessor, hnone] at hn
    · intro h
      obtain ⟨t, ht⟩ := Option.isSome_iff_exists.mp h
      cases d with
      | finite q =>
        refine ⟨_, rfl, q, t, rfl, ?_, ofNumber_near ht⟩
        simp [datastoreStorageAccessor, ht]
      | _ => cases h

/-- The unlock time of an accepted configuration is a date, like its deadline, unless
`lockAtLeastFor` is not a number. -/
theorem unlockTime_isDate_iff
    (h : createLockConfig name most least createdAt.toNumber = .ok config)
    (hdate : (JsDate.ofNumber config.lockAtMostUntil).isSome) (now : ClockReading) :
    (JsDate.ofNumber (config.unlockTime now.toNumber)).isSome ↔ config.lockAtLeastFor ≠ .nan := by
  have hacc := accepted_of_createLockConfig h
  obtain ⟨-, hdeadline⟩ := isDate_iff.mp hdate
  have hreading : ∀ now : ClockReading, .finite (-8640000000000000) ≤ now.toNumber ∧
      now.toNumber ≤ .finite 8640000000000000 := by
    intro now
    rw [ClockReading.toNumber, JsNumber.finite_le, JsNumber.finite_le]
    exact_mod_cast now.inRange
  rw [isDate_iff]
  constructor
  · rintro ⟨hlow, -⟩ hnan
    have hunlock : config.unlockTime now.toNumber = .nan := by
      rw [LockConfiguration.unlockTime, LockConfiguration.lockAtLeastUntil, hnan,
        JsNumber.add_nan, JsNumber.max_nan]
    rw [hunlock] at hlow
    cases hlow
  · intro hleast
    have hfin : config.createdAt.isFinite = true := by rw [hacc.createdAt_eq]; rfl
    have hmost : config.lockAtMostFor ≠ .nan := by
      intro hnan
      rw [LockConfiguration.lockAtMostUntil, hnan, JsNumber.add_nan] at hdeadline
      cases hdeadline
    have hle : config.lockAtLeastFor ≤ config.lockAtMostFor :=
      JsNumber.le_of_not_lt hmost hleast hacc.fits
    have hhigh : config.lockAtLeastUntil ≤ .finite 8640000000000000 :=
      JsNumber.le_trans (JsNumber.add_le_add_left hfin hle) hdeadline
    have hnumber : config.lockAtLeastUntil ≠ .nan := by
      intro hnan
      rw [hnan] at hhigh
      cases hhigh
    constructor
    · exact JsNumber.le_trans (hreading now).1 (JsNumber.le_max_left nofun hnumber)
    · exact JsNumber.max_le (hreading now).2 hhigh

end Holdable

/-- The accessors of both stores, in both modes: a deadline that is not whole makes `unlock` leave
the document and `extend` return false. With texts and dates a configuration that is accepted has an
unlock time to write, unless its `lockAtLeastFor` is not a number. -/
theorem own_record_known_iff {T : Type*} (timestamps : TimestampClass T)
    (useTimestamps useDate : Bool) (lockedByValue : String) :
    (firestoreStorageAccessor timestamps useTimestamps lockedByValue).KnowsOwnRecord ∧
      (datastoreStorageAccessor useDate lockedByValue).KnowsOwnRecord ∧
      ∀ name most least (createdAt now : ClockReading) config,
        createLockConfig name most least createdAt.toNumber = .ok config →
        (JsDate.ofNumber config.lockAtMostUntil).isSome →
        ((firestoreStorageAccessor timestamps false lockedByValue).Holdable
            (config.unlockTime now.toNumber) ↔ config.lockAtLeastFor ≠ .nan) ∧
          ((datastoreStorageAccessor useDate lockedByValue).Holdable
            (config.unlockTime now.toNumber) ↔ config.lockAtLeastFor ≠ .nan) := by
  refine ⟨DocumentAccessor.knowsOwnRecord _, DocumentAccessor.knowsOwnRecord _, ?_⟩
  intro name most least createdAt now config h hdate
  have hunlock := unlockTime_isDate_iff h hdate now
  exact ⟨firestore_holdable_iff.trans hunlock, datastore_holdable_iff.trans hunlock⟩

def wholeMinute : LockConfiguration JsNumber :=
  ⟨"report", .finite 60000, .finite 0, ClockReading.epoch.toNumber⟩

theorem wholeMinute_known :
    ∃ doc, (datastoreStorageAccessor false "host").insertRecord wholeMinute .epoch none =
        ⟨some doc, .returned true⟩ ∧
      (datastoreStorageAccessor false "host").Releases wholeMinute doc .epoch ∧
      (datastoreStorageAccessor false "host").Prolongs wholeMinute wholeMinute doc .epoch := by
  obtain ⟨-, hknown, haccepted⟩ := own_record_known_iff (secondsAndNanos true) false false "host"
  have hcreated : createLockConfig "report" (.number (.finite 60000)) (.number (.finite 0))
      ClockReading.epoch.toNumber = .ok wholeMinute := by decide +kernel
  have hdate : (JsDate.ofNumber wholeMinute.lockAtMostUntil).isSome := by decide +kernel
  have hwhole : WholeMillis wholeMinute.lockAtMostUntil := ⟨60000, by decide +kernel⟩
  have hinsert : (datastoreStorageAccessor false "host").insertRecord wholeMinute .epoch none =
      ⟨some ⟨.inl "1970-01-01T00:01:00.000Z", .inl "1970-01-01T00:00:00.000Z", "host"⟩,
        .returned true⟩ := by decide +kernel
  have hunlock := (haccepted _ _ _ _ .epoch _ hcreated hdate).2.mpr nofun
  refine ⟨_, hinsert, ?_, ?_⟩
  · exact (hknown.unlock _ _ _ (.inserted hinsert) hdate).mpr ⟨hwhole, hunlock⟩
  · refine (hknown.extend _ _ _ _ (.inserted hinsert) hdate (by decide +kernel)).mpr ⟨hwhole, ?_⟩
    exact ⟨.inl "1970-01-01T00:01:00.000Z", by decide +kernel⟩

/-- A minute and half a millisecond. -/
def minuteAndHalf : LockConfiguration JsNumber :=
  ⟨"report", .finite (120001 / 2), .finite 0, ClockReading.epoch.toNumber⟩

/-- A fresh lock is neither released nor prolonged by its own configuration. -/
def LeftBehind {V : Type*} (accessor : DocumentAccessor V) (config : LockConfiguration JsNumber) :
    Prop :=
  ∃ doc, accessor.insertRecord config .epoch none = ⟨some doc, .returned true⟩ ∧
    accessor.unlock config .epoch (some doc) = .leaving .done ∧
    accessor.extend config (some config.lockAtMostUntil) .epoch (some doc) =
      .leaving (.returned false)

theorem minuteAndHalf_deadline : minuteAndHalf.lockAtMostUntil = .finite (120001 / 2) := by
  decide +kernel

theorem not_wholeMillis_minuteAndHalf : ¬ WholeMillis minuteAndHalf.lockAtMostUntil := by
  rintro ⟨n, hn⟩
  rw [minuteAndHalf_deadline] at hn
  have hq : (120001 / 2 : ℚ) = n := JsNumber.finite.inj hn
  have htwice : (120001 : ℚ) = 2 * n := by linarith
  norm_cast at htwice
  omega

theorem minuteAndHalf_leftBehind {V : Type*} {accessor : DocumentAccessor V} (doc : Document V)
    (h : accessor.insertRecord minuteAndHalf .epoch none = ⟨some doc, .returned true⟩) :
    LeftBehind accessor minuteAndHalf := by
  obtain ⟨hunlock, hextend⟩ := DocumentAccessor.unknown_of_fraction (.inserted h)
    (by decide +kernel) not_wholeMillis_minuteAndHalf
  exact ⟨doc, h, hunlock, hextend (by decide +kernel)⟩

/-- In every mode of both stores the lock is held until the minute is over. -/
theorem minuteAndHalf_unknown :
    createLockConfig "report" (.number (.finite (120001 / 2))) (.number (.finite 0))
      ClockReading.epoch.toNumber = .ok minuteAndHalf ∧
    LeftBehind (firestoreStorageAccessor (secondsAndNanos true) false "host") minuteAndHalf ∧
    LeftBehind (firestoreStorageAccessor (secondsAndNanos true) true "host") minuteAndHalf ∧
    LeftBehind (firestoreStorageAccessor (secondsAndNanos false) true "host") minuteAndHalf ∧
    LeftBehind (datastoreStorageAccessor false "host") minuteAndHalf ∧
    LeftBehind (datastoreStorageAccessor true "host") minuteAndHalf := by
  refine ⟨by decide +kernel, ?_, ?_, ?_, ?_, ?_⟩
  · exact minuteAndHalf_leftBehind
      ⟨.inl "1970-01-01T00:01:00.000Z", .inl "1970-01-01T00:00:00.000Z", "host"⟩
      (by decide +kernel)
  · exact minuteAndHalf_leftBehind ⟨.inr (60, 500000), .inr (0, 0), "host"⟩
      (by decide +kernel)
  · exact minuteAndHalf_leftBehind ⟨.inr (60, 500000), .inr (0, 0), "host"⟩
      (by decide +kernel)
  · exact minuteAndHalf_leftBehind
      ⟨.inl "1970-01-01T00:01:00.000Z", .inl "1970-01-01T00:00:00.000Z", "host"⟩
      (by decide +kernel)
  · exact minuteAndHalf_leftBehind ⟨.inr (some 60000), .inr (some 0), "host"⟩
      (by decide +kernel)

end Tslock.Documents
