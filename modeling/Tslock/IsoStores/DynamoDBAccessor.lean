import Mathlib.Data.String.Basic
import Tslock.IsoStores.LockRecord

/-! `dynamodb-accessor.ts`: each call is one conditional `UpdateItem`. -/
namespace Tslock.IsoStores.DynamoDBAccessor

open Foundation

variable (hostname : String) (now : ClockReading) (config : LockConfiguration JsNumber)

/-- `lockUntil <= :lockedAt OR attribute_not_exists(lockUntil)` -/
def lockCondition (lockedAt : String) : Option LockRecord → Prop
  | none => True
  | some item => item.lockUntil ≤ lockedAt

/-- `lockedBy = :lockedBy AND lockUntil = :expectedLockUntil AND lockUntil > :now` -/
def extendCondition (lockedBy expectedLockUntil now : String) : Option LockRecord → Prop
  | none => False
  | some item =>
    item.lockedBy = lockedBy ∧ item.lockUntil = expectedLockUntil ∧ now < item.lockUntil

/-- `lockedBy = :lockedBy AND lockUntil = :expectedLockUntil` -/
def unlockCondition (lockedBy expectedLockUntil : String) : Option LockRecord → Prop
  | none => False
  | some item => item.lockedBy = lockedBy ∧ item.lockUntil = expectedLockUntil

instance (lockedAt : String) : DecidablePred (lockCondition lockedAt)
  | none => inferInstanceAs (Decidable True)
  | some item => inferInstanceAs (Decidable (item.lockUntil ≤ lockedAt))

instance (lockedBy expectedLockUntil now : String) :
    DecidablePred (extendCondition lockedBy expectedLockUntil now)
  | none => inferInstanceAs (Decidable False)
  | some _ => inferInstanceAs (Decidable (_ ∧ _ ∧ _))

instance (lockedBy expectedLockUntil : String) :
    DecidablePred (unlockCondition lockedBy expectedLockUntil)
  | none => inferInstanceAs (Decidable False)
  | some _ => inferInstanceAs (Decidable (_ ∧ _))

/-- `SET lockUntil = …` on an item that exists. -/
def setLockUntil (lockUntil : String) (item : Option LockRecord) : Option LockRecord :=
  item.map fun record => { record with lockUntil }

def lock (item : Option LockRecord) : Option LockRecord × Reply :=
  match toIsoString config.lockAtMostUntil with
  | none => (item, .threw)
  | some isoLockAtMostUntil =>
    if lockCondition now.toIsoString item then
      (some ⟨isoLockAtMostUntil, now.toIsoString, hostname⟩, .handle config)
    else (item, .undefined)

def extend (previousLockAtMostUntil : Option JsNumber) (item : Option LockRecord) :
    Option LockRecord × Reply :=
  match previousLockAtMostUntil with
  | none => (item, .undefined)
  | some previousLockAtMostUntil =>
    match toIsoString config.lockAtMostUntil, toIsoString previousLockAtMostUntil with
    | some isoNewLockAtMostUntil, some expectedLockUntil =>
      if extendCondition hostname expectedLockUntil now.toIsoString item then
        (setLockUntil isoNewLockAtMostUntil item, .handle config)
      else (item, .undefined)
    | _, _ => (item, .threw)

/-- A failed condition is not reported. -/
def unlock (item : Option LockRecord) : Option LockRecord × Reply :=
  match toIsoString (config.unlockTime now.toNumber), toIsoString config.lockAtMostUntil with
  | some isoUnlock, some expectedLockUntil =>
    if unlockCondition hostname expectedLockUntil item then (setLockUntil isoUnlock item, .void)
    else (item, .void)
  | _, _ => (item, .threw)

def serve : Accessor := fun call =>
  match call.method with
  | .lock => lock call.hostname call.now call.config
  | .extend previousLockAtMostUntil =>
    extend call.hostname call.now call.config previousLockAtMostUntil
  | .unlock => unlock call.hostname call.now call.config

end Tslock.IsoStores.DynamoDBAccessor
