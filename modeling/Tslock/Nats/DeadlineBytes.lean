import Tslock.Core.ClockProvider
import Tslock.Core.CreateLockConfig
import Tslock.Foundation.JsDoubles
import Tslock.Nats.NatsLockProvider

/-! `long-utils.ts` on any number of the language, and the deadlines that survive it. -/
namespace Tslock.Nats

open Foundation

/-- `BigInt(value)`; it throws a `RangeError` for a number that is not whole. -/
def bigInt : JsNumber → Option ℤ
  | .finite q => if q.den = 1 then some q.num else none
  | _ => none

/-- `longToBytes`; nothing stands for a `RangeError`. -/
def numberToBytes (epochMillis : JsNumber) : Option Buffer :=
  (bigInt epochMillis).bind longToBytes

/-- `bytesToLong`; `Number(value)` rounds. -/
def bytesToNumber (buf : Buffer) : JsNumber := .ofRat (bytesToLong buf)

/-- What `lock()` asks for after its `get`. The value is encoded before the `get`. -/
inductive LockRequest where
  | threw
  | skipped
  | create (value : Buffer)
  | update (value : Buffer) (revision : ℕ)
deriving DecidableEq

/-- What `doUnlock()` asks for after its `get`. -/
inductive UnlockRequest where
  | threw
  | nothing
  | overwrite (value : Buffer) (revision : ℕ)
  | delete (revision : ℕ)
deriving DecidableEq

variable (config : LockConfiguration JsNumber) (now : ClockReading)

def lockRequest (entry : Option (ℕ × KvEntry)) : LockRequest :=
  match numberToBytes config.lockAtMostUntil with
  | none => .threw
  | some value =>
    match entry with
    | none => .create value
    | some (revision, entry) =>
      if isDeletedEntry entry then .create value
      else if now.toNumber < bytesToNumber entry.value then .skipped
      else .update value revision

def unlockRequest (entry : Option (ℕ × KvEntry)) : UnlockRequest :=
  match entry with
  | none => .nothing
  | some (revision, entry) =>
    if isDeletedEntry entry then .nothing
    else if bytesToNumber entry.value ≠ config.lockAtMostUntil then .nothing
    else if now.toNumber < config.lockAtLeastUntil then
      match numberToBytes config.lockAtLeastUntil with
      | none => .threw
      | some value => .overwrite value revision
    else .delete revision

/-- The value `lock()` writes, if it writes one. -/
def LockRequest.value? : LockRequest → Option Buffer
  | .create value | .update value _ => some value
  | .threw | .skipped => none

/-- `longToBytes` does not throw, and `bytesToLong` gives the number back. -/
def RoundTrips (epochMillis : JsNumber) : Prop :=
  ∃ buf, numberToBytes epochMillis = some buf ∧ bytesToNumber buf = epochMillis

/-- A whole number in the range of the signed words of 64 bits. -/
def Encodable (epochMillis : JsNumber) : Prop :=
  ∃ n : ℤ, epochMillis = .finite n ∧ -9223372036854775808 ≤ n ∧ n < 9223372036854775808

/-- Both deadlines are kept, `lock()` does not fail in the encoder, and `unlock()` takes every entry
with a value that `lock()` wrote for its own. -/
structure Lossless : Prop where
  most : RoundTrips config.lockAtMostUntil
  least : RoundTrips config.lockAtLeastUntil
  lock : ∀ now entry, lockRequest config now entry ≠ .threw
  unlock : ∀ now entry value, (lockRequest config now entry).value? = some value →
    ∀ later revision entry', isDeletedEntry entry' = false → entry'.value = value →
      unlockRequest config later (some (revision, entry')) ≠ .nothing

variable {config now} {n : ℤ} {d : JsNumber} {value : Buffer} {entry : Option (ℕ × KvEntry)}

theorem bigInt_intCast (n : ℤ) : bigInt (.finite n) = some n := by
  simp [bigInt]

theorem bigInt_some (h : bigInt d = some n) : d = .finite n := by
  cases d with
  | finite q =>
    simp only [bigInt] at h
    split_ifs at h with hden
    rw [← Option.some.inj h, Rat.coe_int_num_of_den_eq_one hden]
  | _ => cases h

/-- On whole numbers the encoder is the one of the words. -/
theorem numberToBytes_intCast (n : ℤ) : numberToBytes (.finite n) = longToBytes n := by
  rw [numberToBytes, bigInt_intCast, Option.bind_some]

theorem numberToBytes_some (h : numberToBytes d = some value) :
    ∃ n : ℤ, d = .finite n ∧ longToBytes n = some value := by
  obtain ⟨n, hn, hvalue⟩ := Option.bind_eq_some_iff.mp h
  exact ⟨n, bigInt_some hn, hvalue⟩

/-- What is written of a double is read back. -/
theorem bytesToNumber_of_some (hd : d.IsDouble) (h : numberToBytes d = some value) :
    bytesToNumber value = d := by
  obtain ⟨n, rfl, hvalue⟩ := numberToBytes_some h
  rw [bytesToNumber, bytesToLong_longToBytes hvalue]
  exact hd n rfl

theorem encodable_iff : Encodable d ↔ ∃ value, numberToBytes d = some value := by
  constructor
  · rintro ⟨n, rfl, hrange⟩
    exact ⟨_, (numberToBytes_intCast n).trans (if_pos hrange)⟩
  · rintro ⟨value, h⟩
    obtain ⟨n, rfl, hvalue⟩ := numberToBytes_some h
    unfold longToBytes at hvalue
    split_ifs at hvalue with hrange
    exact ⟨n, rfl, hrange⟩

theorem roundTrips_iff (hd : d.IsDouble) : RoundTrips d ↔ Encodable d := by
  rw [encodable_iff]
  constructor
  · rintro ⟨value, h, -⟩
    exact ⟨value, h⟩
  · rintro ⟨value, h⟩
    exact ⟨value, h, bytesToNumber_of_some hd h⟩

theorem lockRequest_ne_threw (h : Encodable config.lockAtMostUntil) :
    lockRequest config now entry ≠ .threw := by
  obtain ⟨value, hvalue⟩ := encodable_iff.mp h
  rw [lockRequest, hvalue]
  cases entry with
  | none => simp
  | some x =>
    dsimp only
    split_ifs <;> simp

theorem lockRequest_value (h : (lockRequest config now entry).value? = some value) :
    numberToBytes config.lockAtMostUntil = some value := by
  cases hvalue : numberToBytes config.lockAtMostUntil with
  | none => simp [lockRequest, hvalue, LockRequest.value?] at h
  | some v =>
    rw [lockRequest, hvalue] at h
    cases entry with
    | none => exact h
    | some x =>
      dsimp only at h
      split_ifs at h <;> first | exact h | cases h

/-- An entry that `lock()` wrote is recognised, whatever the configuration. -/
theorem unlockRequest_ne_nothing (h : (lockRequest config now entry).value? = some value)
    {later : ClockReading} {revision : ℕ} {entry' : KvEntry} (hlive : isDeletedEntry entry' = false)
    (hvalue : entry'.value = value) :
    unlockRequest config later (some (revision, entry')) ≠ .nothing := by
  have hown : bytesToNumber entry'.value = config.lockAtMostUntil := by
    rw [hvalue]
    exact bytesToNumber_of_some (JsNumber.isDouble_add _ _) (lockRequest_value h)
  simp only [unlockRequest, hlive, Bool.false_eq_true, if_false, hown, ne_eq, not_true_eq_false]
  split_ifs
  · cases numberToBytes config.lockAtLeastUntil <;> simp
  · simp

/-- The encoding loses nothing if and only if both deadlines are whole numbers of 64 bits. -/
theorem lossless_iff (config : LockConfiguration JsNumber) :
    Lossless config ↔ Encodable config.lockAtMostUntil ∧ Encodable config.lockAtLeastUntil := by
  have hmost : config.lockAtMostUntil.IsDouble := JsNumber.isDouble_add _ _
  have hleast : config.lockAtLeastUntil.IsDouble := JsNumber.isDouble_add _ _
  constructor
  · intro h
    exact ⟨(roundTrips_iff hmost).mp h.most, (roundTrips_iff hleast).mp h.least⟩
  · rintro ⟨hm, hl⟩
    constructor
    · exact (roundTrips_iff hmost).mpr hm
    · exact (roundTrips_iff hleast).mpr hl
    · exact fun _ _ => lockRequest_ne_threw hm
    · exact fun _ _ _ h _ _ _ hlive hvalue => unlockRequest_ne_nothing h hlive hvalue

/-- A millisecond and a half, and more than 64 bits of them. -/
theorem lock_throws :
    createLockConfig "report" (.number (.finite (3 / 2))) (.number (.finite 0))
        ClockReading.epoch.toNumber =
      .ok ⟨"report", .finite (3 / 2), .finite 0, ClockReading.epoch.toNumber⟩ ∧
    lockRequest ⟨"report", .finite (3 / 2), .finite 0, ClockReading.epoch.toNumber⟩ .epoch none =
      .threw ∧
    createLockConfig "report" (.string "106751991168d") (.number (.finite 0))
        ClockReading.epoch.toNumber =
      .ok ⟨"report", .finite 9223372036915200000, .finite 0, ClockReading.epoch.toNumber⟩ ∧
    lockRequest ⟨"report", .finite 9223372036915200000, .finite 0, ClockReading.epoch.toNumber⟩
      .epoch none = .threw := by
  decide +kernel

end Tslock.Nats
