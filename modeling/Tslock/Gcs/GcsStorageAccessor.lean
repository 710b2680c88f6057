import Mathlib.Data.Prod.Lex
import Tslock.Core.RecordStore

/-! `gcs-storage-accessor.ts` and `GcsLockProvider`: a lock record in the metadata of an object.
Each method checks that the object exists or reads its metadata, and writes under the condition that
neither generation nor metageneration has changed since. -/
namespace Tslock.Gcs

open Function Foundation LeaseProtocol RecordStore

/-- The generation of an object and its metageneration within that. -/
abbrev Version := ℕ ×ₗ ℕ

/-- The entries of the metadata that the accessor writes or reads. -/
structure Metadata where
  lockUntil : Option String
  lockedAt : Option String
  lockedBy : Option String
  lockName : Option String
deriving DecidableEq, Repr

/-- `setMetadata` keeps the entries it is not given. -/
def Metadata.set (changes : Metadata) : Option Metadata → Metadata
  | none => changes
  | some old =>
    { lockUntil := changes.lockUntil.or old.lockUntil
      lockedAt := changes.lockedAt.or old.lockedAt
      lockedBy := changes.lockedBy.or old.lockedBy
      lockName := changes.lockName.or old.lockName }

def isNotFound : Thrown → Bool
  | .service e => e.code = some 404
  | _ => false

def isPreconditionFailed : Thrown → Bool
  | .service e => e.code = some 412
  | _ => false

/-- The metadata of a new lock record. -/
def buildMetadata (hostname : String) (config : LockConfiguration ℤ) : Except Thrown Metadata := do
  let lockUntil ← toIsoString config.lockAtMostUntil
  let lockedAt ← toIsoString config.createdAt
  return { lockUntil, lockedAt, lockedBy := hostname, lockName := config.name }

def lockedAtOr (current : Metadata) (createdAt : ℤ) : Except Thrown String :=
  match current.lockedAt with
  | some lockedAt => .ok lockedAt
  | none => toIsoString createdAt

/-- The changes of an `unlock()`. What the object lacks is taken from the call. -/
def unlockedMetadata (hostname : String) (config : LockConfiguration ℤ) (now : ℤ)
    (current : Metadata) : Except Thrown Metadata := do
  let lockUntil ← toIsoString (config.unlockTime now)
  let lockedAt ← lockedAtOr current config.createdAt
  return { lockUntil, lockedAt, lockedBy := current.lockedBy.getD hostname
           lockName := current.lockName.getD config.name }

/-- The changes of an `extend()`; an entry that is `undefined` is left as it is. -/
def extendedMetadata (config : LockConfiguration ℤ) (current : Metadata) :
    Except Thrown Metadata := do
  let lockUntil ← toIsoString config.lockAtMostUntil
  return { current with lockUntil }

section Accessor

variable (reader : JsDate.Reader) (objectPrefix hostname : String)

def parseLockUntil (metadata : Metadata) : Except Thrown ℤ :=
  match metadata.lockUntil with
  | none | some "" => .error (.lockException "Corrupted lock record: missing lockUntil")
  | some raw =>
    match reader.parse raw with
    | none =>
      .error (.lockException ("Corrupted lock record: unparseable lockUntil '" ++ raw ++ "'"))
    | some ms => .ok ms

def objectKey (name : String) : String := objectPrefix ++ name

def getWithMetadata (name : String) : Method Version Metadata ℤ (Option (Version × Metadata)) :=
  Program.ifPresent isNotFound (get (objectKey objectPrefix name))

def insertRecord (config : LockConfiguration ℤ) : Method Version Metadata ℤ Bool := do
  let isThere ← find (objectKey objectPrefix config.name)
  if isThere then return false
  else Program.succeeds isPreconditionFailed do
    let metadata ← lift (buildMetadata hostname config)
    put (objectKey objectPrefix config.name) .absent fun _ => metadata

def updateRecord (config : LockConfiguration ℤ) : Method Version Metadata ℤ Bool := do
  let current ← getWithMetadata objectPrefix config.name
  match current with
  | none => throw (.lockException ("Lock record not found: " ++ config.name))
  | some (version, metadata) =>
    let lockUntil ← lift (parseLockUntil reader metadata)
    let now ← now
    if now < lockUntil then return false
    else Program.succeeds isPreconditionFailed do
      let metadata ← lift (buildMetadata hostname config)
      put (objectKey objectPrefix config.name) (.tagged version) fun _ => metadata

def unlock (config : LockConfiguration ℤ) : Method Version Metadata ℤ Unit := do
  let current ← getWithMetadata objectPrefix config.name
  match current with
  | none => return ()
  | some (version, metadata) =>
    if metadata.lockedBy ≠ some hostname then return ()
    else
      let deadline ← lift (toIsoString config.lockAtMostUntil)
      if metadata.lockUntil ≠ some deadline then return ()
      else Program.ignoring isPreconditionFailed do
        let now ← now
        let changes ← lift (unlockedMetadata hostname config now metadata)
        put (objectKey objectPrefix config.name) (.tagged version) changes.set

/-- An absent `previousLockAtMostUntil` matches whatever the object carries. -/
def deadlineMatches (metadata : Metadata) : Option ℤ → Except Thrown Bool
  | none => return true
  | some previous => do
    let deadline ← toIsoString previous
    return metadata.lockUntil = some deadline

def extend (config : LockConfiguration ℤ) (previousLockAtMostUntil : Option ℤ) :
    Method Version Metadata ℤ Bool := do
  let current ← getWithMetadata objectPrefix config.name
  match current with
  | none => return false
  | some (version, metadata) =>
    let lockUntil ← lift (parseLockUntil reader metadata)
    if metadata.lockedBy ≠ some hostname then return false
    else
      let now ← now
      if lockUntil ≤ now then return false
      else
        let isMatch ← lift (deadlineMatches metadata previousLockAtMostUntil)
        if !isMatch then return false
        else Program.succeeds isPreconditionFailed do
          let changes ← lift (extendedMetadata config metadata)
          put (objectKey objectPrefix config.name) (.tagged version) changes.set

def accessor : StorageAccessor Version Metadata ℤ where
  insertRecord := insertRecord objectPrefix hostname
  updateRecord := updateRecord reader objectPrefix hostname
  unlock := unlock objectPrefix hostname
  extend := extend reader objectPrefix hostname

end Accessor

end Tslock.Gcs
