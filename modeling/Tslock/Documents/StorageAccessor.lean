import Tslock.Core.StorageAccessor
import Tslock.Foundation.JsArithmetic
import Tslock.IsoStores.LockRecord

/-! `firestore-storage-accessor.ts` and `datastore-storage-accessor.ts`: documents with their times
as texts or in the native type of the store. -/
namespace Tslock.Documents

open Foundation

/-- A number is written by `toFieldValue` and read back by `toMillis`, which both keep to the
millisecond what a `Date` can hold. -/
structure DocumentAccessor (V : Type*) where
  lockedByValue : String
  toFieldValue : JsNumber → Except String V
  toMillis : V → JsNumber
  near : ∀ q v, (JsDate.ofNumber (.finite q)).isSome → toFieldValue (.finite q) = .ok v →
    ∃ n : ℤ, toMillis v = .finite n ∧ |(n : ℚ) - q| < 1

structure Document (V : Type*) where
  lockUntil : V
  lockedAt : V
  lockedBy : String
deriving DecidableEq

/-- What a transaction writes, if it writes, and what the call returns. -/
structure Outcome (V : Type*) where
  write : Option (Document V)
  reply : AccessorReply
deriving DecidableEq

/-- Nothing is written. -/
def Outcome.leaving {V : Type*} (reply : AccessorReply) : Outcome V := ⟨none, reply⟩

namespace DocumentAccessor

variable {V : Type*} (accessor : DocumentAccessor V) (config : LockConfiguration JsNumber)

/-- `now` is the clock reading for `lockedAt`. -/
def toData (now : ClockReading) : Except String (Document V) :=
  match accessor.toFieldValue config.lockAtMostUntil, accessor.toFieldValue now.toNumber with
  | .error e, _ | .ok _, .error e => .error e
  | .ok lockUntil, .ok lockedAt => .ok ⟨lockUntil, lockedAt, accessor.lockedByValue⟩

/-- `create` or `update` with all the data, or `upsert`. -/
def writeData (now : ClockReading) : Outcome V :=
  match accessor.toData config now with
  | .error e => .leaving (.threw e)
  | .ok doc => ⟨some doc, .returned true⟩

def insertRecord (now : ClockReading) : Option (Document V) → Outcome V
  | some _ => .leaving (.returned false)
  | none => accessor.writeData config now

/-- `now` is compared with the deadline, `later` is written. -/
def updateRecord (now later : ClockReading) : Option (Document V) → Outcome V
  | none => .leaving (.threw ("Lock record not found: " ++ config.name))
  | some doc =>
    if now.toNumber < accessor.toMillis doc.lockUntil then .leaving (.returned false)
    else accessor.writeData config later

/-- `update` with one field, or `upsert` with the other fields as they are. -/
def setLockUntil (doc : Document V) (epochMillis : JsNumber) (reply : AccessorReply) : Outcome V :=
  match accessor.toFieldValue epochMillis with
  | .error e => .leaving (.threw e)
  | .ok lockUntil => ⟨some { doc with lockUntil }, reply⟩

def unlock (now : ClockReading) : Option (Document V) → Outcome V
  | none => .leaving .done
  | some doc =>
    if doc.lockedBy ≠ accessor.lockedByValue then .leaving .done
    else if ¬ (accessor.toMillis doc.lockUntil).strictEquals config.lockAtMostUntil then
      .leaving .done
    else accessor.setLockUntil doc (config.unlockTime now.toNumber) .done

def extend (previousLockAtMostUntil : Option JsNumber) (now : ClockReading) :
    Option (Document V) → Outcome V
  | none => .leaving (.returned false)
  | some doc =>
    match previousLockAtMostUntil with
    | none => .leaving (.returned false)
    | some previous =>
      if doc.lockedBy ≠ accessor.lockedByValue then .leaving (.returned false)
      else if ¬ (accessor.toMillis doc.lockUntil).strictEquals previous ∨
          accessor.toMillis doc.lockUntil ≤ now.toNumber then .leaving (.returned false)
      else accessor.setLockUntil doc config.lockAtMostUntil (.returned true)

end DocumentAccessor

/-- A date drops the fraction of a millisecond. -/
theorem ofNumber_near {q : ℚ} {t : ℤ} (h : JsDate.ofNumber (.finite q) = some t) :
    |(t : ℚ) - q| < 1 := by
  simp only [JsDate.ofNumber] at h
  split_ifs at h with hrange hq
  · obtain rfl := Option.some.inj h
    rw [abs_lt]
    constructor
    · linarith [Int.lt_floor_add_one q]
    · linarith [Int.floor_le q]
  · obtain rfl := Option.some.inj h
    rw [abs_lt]
    constructor
    · linarith [Int.le_ceil q]
    · linarith [Int.ceil_lt_add_one q]

theorem isDate_iff {d : JsNumber} : (JsDate.ofNumber d).isSome ↔
    .finite (-8640000000000000) ≤ d ∧ d ≤ .finite 8640000000000000 := by
  cases d with
  | finite q =>
    rw [JsNumber.finite_le, JsNumber.finite_le, JsDate.ofNumber]
    split_ifs with h <;> simp [h]
  | _ => decide

theorem inRange_of_ofNumber {d : JsNumber} {t : ℤ} (h : JsDate.ofNumber d = some t) :
    JsDate.InRange t := by
  obtain ⟨hlow, hhigh⟩ := isDate_iff.mp (Option.isSome_iff_exists.mpr ⟨t, h⟩)
  cases d with
  | finite q =>
    have hnear := abs_lt.mp (ofNumber_near h)
    rw [JsNumber.finite_le] at hlow hhigh
    have hlow' : (-8640000000000001 : ℚ) < t := by linarith
    have hhigh' : (t : ℚ) < 8640000000000001 := by linarith
    norm_cast at hlow' hhigh'
    exact ⟨Int.add_one_le_of_lt hlow', Int.le_of_lt_add_one hhigh'⟩
  | _ => cases h

/-- `Utils.toIsoString` with the message of its `RangeError`. -/
def isoText (epochMillis : JsNumber) : Except String String :=
  match IsoStores.toIsoString epochMillis with
  | none => .error "Invalid time value"
  | some text => .ok text

/-- `Date.parse(value)` -/
def parseText (value : String) : JsNumber :=
  match JsDate.parse value with
  | none => .nan
  | some t => .finite t

theorem isoText_iff {d : JsNumber} :
    (∃ text, isoText d = .ok text) ↔ (JsDate.ofNumber d).isSome := by
  cases ht : JsDate.ofNumber d with
  | none => simp [isoText, IsoStores.toIsoString, ht]
  | some t =>
    refine iff_of_true ?_ rfl
    simp [isoText, IsoStores.toIsoString, ht, JsDate.toIsoString, inRange_of_ofNumber ht]

theorem isoText_near {q : ℚ} {text : String} (h : isoText (.finite q) = .ok text) :
    ∃ n : ℤ, parseText text = .finite n ∧ |(n : ℚ) - q| < 1 := by
  cases hiso : IsoStores.toIsoString (.finite q) with
  | none => simp [isoText, hiso] at h
  | some written =>
    simp only [isoText, hiso, Except.ok.injEq] at h
    subst h
    obtain ⟨t, ht, htext⟩ := Option.bind_eq_some_iff.mp hiso
    refine ⟨t, ?_, ofNumber_near ht⟩
    rw [parseText, JsDate.parse_toIsoString htext]

theorem map_ok {α β : Type*} {x : Except String α} {f : α → β} {b : β} (h : x.map f = .ok b) :
    ∃ a, x = .ok a ∧ f a = b := by
  cases x with
  | error e => cases h
  | ok a => exact ⟨a, rfl, Except.ok.inj h⟩

/-- The class `Timestamp` of the client, of which a document gives back what it was given. It keeps
numbers to the millisecond. -/
structure TimestampClass (T : Type*) where
  fromMillis : JsNumber → Except String T
  toMillis : T → JsNumber
  near : ∀ q t, fromMillis (.finite q) = .ok t →
    ∃ n : ℤ, toMillis t = .finite n ∧ |(n : ℚ) - q| < 1

/-- `Timestamp` with whole seconds and nanoseconds, in the years 1 to 9999. Its `toMillis` rounds to
the nearest millisecond, or down. -/
def secondsAndNanos (nearest : Bool) : TimestampClass (ℤ × ℤ) where
  fromMillis
    | .finite q =>
      if -62135596800 ≤ ⌊q / 1000⌋ ∧ ⌊q / 1000⌋ ≤ 253402300799 then
        .ok (⌊q / 1000⌋, ⌊(q - 1000 * ⌊q / 1000⌋) * 1000000⌋)
      else .error "Value for argument \"seconds\" must be within its range"
    | _ => .error "Value for argument \"seconds\" is not a valid integer"
  toMillis t := .finite (1000 * t.1 + ⌊(t.2 : ℚ) / 1000000 + if nearest then 1 / 2 else 0⌋ : ℤ)
  near q t h := by
    dsimp only at h
    split_ifs at h
    cases h
    refine ⟨_, rfl, ?_⟩
    dsimp only
    generalize ⌊q / 1000⌋ = s
    have hlow := Int.floor_le ((q - 1000 * s) * 1000000)
    have hhigh := Int.lt_floor_add_one ((q - 1000 * s) * 1000000)
    generalize ⌊(q - 1000 * s) * 1000000⌋ = nanos at *
    have hround := Int.floor_le ((nanos : ℚ) / 1000000 + if nearest then 1 / 2 else 0)
    have hround' := Int.lt_floor_add_one ((nanos : ℚ) / 1000000 + if nearest then 1 / 2 else 0)
    generalize ⌊(nanos : ℚ) / 1000000 + if nearest then 1 / 2 else 0⌋ = millis at *
    -- whole nanoseconds before the next millisecond leave room for the fraction that was cut off
    have hnanos : (nanos : ℚ) + 1 ≤ (millis + 1) * 1000000 := by
      have hlt : (nanos : ℚ) < (millis + 1) * 1000000 := by
        cases nearest <;> simp at hround' <;> linarith
      exact_mod_cast hlt
    rw [abs_lt]
    push_cast
    cases nearest <;> simp at hround <;> constructor <;> linarith

/-- A field is a text or a `Timestamp`, whatever the mode in which it is read. -/
def firestoreStorageAccessor {T : Type*} (timestamps : TimestampClass T) (useTimestamps : Bool)
    (lockedByValue : String) : DocumentAccessor (String ⊕ T) where
  lockedByValue
  toFieldValue epochMillis :=
    if useTimestamps then (timestamps.fromMillis epochMillis).map .inr
    else (isoText epochMillis).map .inl
  toMillis
    | .inl text => parseText text
    | .inr t => timestamps.toMillis t
  near q v _ h := by
    split_ifs at h
    · obtain ⟨t, ht, rfl⟩ := map_ok h
      exact timestamps.near q t ht
    · obtain ⟨text, htext, rfl⟩ := map_ok h
      exact isoText_near htext

/-- A field is a text or a `Date`, which stands here for its time value. -/
def datastoreStorageAccessor (useDate : Bool) (lockedByValue : String) :
    DocumentAccessor (String ⊕ Option ℤ) where
  lockedByValue
  toFieldValue epochMillis :=
    if useDate then .ok (.inr (JsDate.ofNumber epochMillis))
    else (isoText epochMillis).map .inl
  toMillis
    | .inl text => parseText text
    | .inr none => .nan
    | .inr (some t) => .finite t
  near q v hdate h := by
    split_ifs at h
    · obtain ⟨t, ht⟩ := Option.isSome_iff_exists.mp hdate
      rw [ht] at h
      cases h
      exact ⟨t, rfl, ofNumber_near ht⟩
    · obtain ⟨text, htext, rfl⟩ := map_ok h
      exact isoText_near htext

end Tslock.Documents
