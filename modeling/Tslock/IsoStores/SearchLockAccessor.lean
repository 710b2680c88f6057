import Mathlib.Data.String.Basic
import Tslock.IsoStores.LockRecord

/-! `search-lock-accessor.ts` and `scripts.ts`: each call is one scripted update of a document. -/
namespace Tslock.IsoStores.SearchLockAccessor

open Foundation

variable (hostname : String) (now : ClockReading) (config : LockConfiguration JsNumber)

/-- The condition of `LOCK_SCRIPT`. -/
def lockMatches (now : String) (source : LockRecord) : Prop := source.lockUntil ≤ now

/-- The condition of `UNLOCK_SCRIPT`. -/
def unlockMatches (lockedBy expectedLockUntil : String) (source : LockRecord) : Prop :=
  source.lockedBy = lockedBy ∧ source.lockUntil = expectedLockUntil

/-- The condition of `EXTEND_SCRIPT`. -/
def extendMatches (lockedBy expectedLockUntil now : String) (source : LockRecord) : Prop :=
  source.lockedBy = lockedBy ∧ source.lockUntil = expectedLockUntil ∧ now < source.lockUntil

instance (now : String) : DecidablePred (lockMatches now) :=
  fun source => inferInstanceAs (Decidable (source.lockUntil ≤ now))

instance (lockedBy expectedLockUntil : String) :
    DecidablePred (unlockMatches lockedBy expectedLockUntil) :=
  fun _ => inferInstanceAs (Decidable (_ ∧ _))

instance (lockedBy expectedLockUntil now : String) :
    DecidablePred (extendMatches lockedBy expectedLockUntil now) :=
  fun _ => inferInstanceAs (Decidable (_ ∧ _ ∧ _))

inductive UpdateResult where
  | created
  | updated
  | noop
  | notFound
deriving DecidableEq

/-- An update by script, with the document to create where there is none. -/
def update (matched : LockRecord → Prop) [DecidablePred matched] (set : LockRecord → LockRecord)
    (upsert : Option LockRecord) : Option LockRecord → Option LockRecord × UpdateResult
  | none =>
    match upsert with
    | some document => (some document, .created)
    | none => (none, .notFound)
  | some source => if matched source then (some (set source), .updated) else (some source, .noop)

/-- What `lock` and `extend` make of the result; only `extend` can miss its document. -/
def replyOf (config : LockConfiguration JsNumber) : UpdateResult → Reply
  | .noop | .notFound => .undefined
  | .created | .updated => .handle config

def lock (document : Option LockRecord) : Option LockRecord × Reply :=
  match toIsoString config.lockAtMostUntil with
  | none => (document, .threw)
  | some isoLockUntil =>
    let record : LockRecord := ⟨isoLockUntil, now.toIsoString, hostname⟩
    let updated := update (lockMatches now.toIsoString) (fun _ => record) (some record) document
    (updated.1, replyOf config updated.2)

def extend (previousLockAtMostUntil : Option JsNumber) (document : Option LockRecord) :
    Option LockRecord × Reply :=
  match previousLockAtMostUntil with
  | none => (document, .undefined)
  | some previousLockAtMostUntil =>
    match toIsoString config.lockAtMostUntil, toIsoString previousLockAtMostUntil with
    | some isoNewLockUntil, some expectedLockUntil =>
      let updated := update (extendMatches hostname expectedLockUntil now.toIsoString)
        (fun source => { source with lockUntil := isoNewLockUntil }) none document
      (updated.1, replyOf config updated.2)
    | _, _ => (document, .threw)

def unlock (document : Option LockRecord) : Option LockRecord × Reply :=
  match toIsoString (config.unlockTime now.toNumber), toIsoString config.lockAtMostUntil with
  | some isoUnlock, some expectedLockUntil =>
    ((update (unlockMatches hostname expectedLockUntil)
      (fun source => { source with lockUntil := isoUnlock }) none document).1, .void)
  | _, _ => (document, .threw)

def serve : Accessor := fun call =>
  match call.method with
  | .lock => lock call.hostname call.now call.config
  | .extend previousLockAtMostUntil =>
    extend call.hostname call.now call.config previousLockAtMostUntil
  | .unlock => unlock call.hostname call.now call.config

end Tslock.IsoStores.SearchLockAccessor
