import Tslock.Core.LockConfiguration
import Tslock.Foundation.JsonString
import Tslock.Foundation.OptimisticStore

/-! `s3-storage-accessor.ts`: a lock record in the metadata of an object whose body repeats it.
Each method is what it does with the answer to its HEAD and one reading of the clock. -/
namespace Tslock.S3

open Foundation

abbrev Metadata := List (String × String)

structure LockRecord where
  lockUntil : String
  lockedAt : String
  lockedBy : String
deriving DecidableEq, Repr

structure S3Object where
  body : String
  metadata : Metadata
deriving DecidableEq, Repr

structure HeadResult (ε : Type) where
  etag : ε
  metadata : Metadata

/-- What the accessor throws by itself, and `toISOString` for a date out of range. -/
inductive AccessorError where
  | lockException (message : String)
  | rangeError
deriving DecidableEq, Repr

/-- How a method settles. -/
inductive Reply where
  | bool (b : Bool)
  | void
  | threw (error : AccessorError)
deriving DecidableEq, Repr

/-- `toLowerCase` of the keys, which are ASCII. -/
def toLowerCase (s : String) : String := String.ofList (s.toList.map Char.toLower)

/-- The store: the ETag is a function of the body and tells bodies apart, and the keys of the
metadata come back as they were sent or in lower case. -/
structure ObjectStore (ε : Type) where
  etag : String → ε
  keyCase : String → String
  etag_injective : Function.Injective etag
  keyCase_eq : ∀ key, keyCase key = key ∨ keyCase key = toLowerCase key

/-- `toISOString` throws on some dates, `Date.parse` gives `NaN` for some texts. -/
structure DateFormat (τ : Type) where
  toIsoString : τ → Option String
  parse : String → Option τ

inductive Operation (τ : Type) where
  | insertRecord (config : LockConfiguration τ)
  | updateRecord (config : LockConfiguration τ)
  | unlock (config : LockConfiguration τ)
  | extend (config : LockConfiguration τ) (previousLockAtMostUntil : Option τ)

/-- A call of a method of an accessor, known by its hostname. -/
structure Request (τ : Type) where
  hostname : String
  operation : Operation τ

def getMetadataValue (metadata : Metadata) (key : String) : Option String :=
  (metadata.lookup key).or (metadata.lookup (toLowerCase key))

def lockRecordBody (record : LockRecord) : String :=
  Json.stringify [("lockUntil", record.lockUntil), ("lockedAt", record.lockedAt),
    ("lockedBy", record.lockedBy)]

theorem lockRecordBody_injective : Function.Injective lockRecordBody := by
  rintro ⟨u, a, b⟩ ⟨u', a', b'⟩ h
  have hfields := Json.stringify_injective h
  simp only [List.cons.injEq, Prod.mk.injEq, true_and, and_true] at hfields
  obtain ⟨rfl, rfl, rfl⟩ := hfields
  rfl

section Methods

variable {τ ε : Type} (store : ObjectStore ε) (date : DateFormat τ)

/-- The object a PUT of the record leaves. -/
def ObjectStore.putObject (record : LockRecord) : S3Object where
  body := lockRecordBody record
  metadata := [(store.keyCase "lockUntil", record.lockUntil),
    (store.keyCase "lockedAt", record.lockedAt), (store.keyCase "lockedBy", record.lockedBy)]

def ObjectStore.headObject (object : S3Object) : HeadResult ε where
  etag := store.etag object.body
  metadata := object.metadata

def toIsoString (epochMillis : τ) : Except AccessorError String :=
  match date.toIsoString epochMillis with
  | some text => .ok text
  | none => .error .rangeError

def parseLockUntil (metadata : Metadata) : Except AccessorError τ :=
  match getMetadataValue metadata "lockUntil" with
  | none | some "" => .error (.lockException "Corrupted lock record: missing lockUntil")
  | some raw =>
    match date.parse raw with
    | none =>
      .error (.lockException ("Corrupted lock record: unparseable lockUntil '" ++ raw ++ "'"))
    | some ms => .ok ms

variable [Add τ]

def buildMetadata (hostname : String) (config : LockConfiguration τ) :
    Except AccessorError LockRecord := do
  let lockUntil ← toIsoString date config.lockAtMostUntil
  let lockedAt ← toIsoString date config.createdAt
  return { lockUntil, lockedAt, lockedBy := hostname }

/-- The record with a new deadline. What the object lacks is taken from the call. -/
def renewedMetadata (hostname : String) (config : LockConfiguration τ) (head : Metadata)
    (deadline : τ) : Except AccessorError LockRecord := do
  let lockUntil ← toIsoString date deadline
  let lockedAt ← match getMetadataValue head "lockedAt" with
    | some lockedAt => pure lockedAt
    | none => toIsoString date config.createdAt
  return { lockUntil, lockedAt, lockedBy := (getMetadataValue head "lockedBy").getD hostname }

abbrev Decision (ε : Type) := Plan S3Object ε Reply

def insertRecord (hostname : String) (config : LockConfiguration τ) :
    Option (HeadResult ε) → Except AccessorError (Decision ε)
  | some _ => return .finish (.bool false)
  | none => do
    let metadata ← buildMetadata date hostname config
    return .write .absent (store.putObject metadata)

def updateRecord [LT τ] [DecidableLT τ] (hostname : String) (now : τ)
    (config : LockConfiguration τ) : Option (HeadResult ε) → Except AccessorError (Decision ε)
  | none => throw (.lockException ("Lock record not found: " ++ config.name))
  | some head => do
    let lockUntil ← parseLockUntil date head.metadata
    if now < lockUntil then
      return .finish (.bool false)
    else
      let metadata ← buildMetadata date hostname config
      return .write (.tagged head.etag) (store.putObject metadata)

def unlock [Max τ] (hostname : String) (now : τ) (config : LockConfiguration τ) :
    Option (HeadResult ε) → Except AccessorError (Decision ε)
  | none => return .finish .void
  | some head =>
    if getMetadataValue head.metadata "lockedBy" ≠ some hostname then
      return .finish .void
    else do
      let deadline ← toIsoString date config.lockAtMostUntil
      if getMetadataValue head.metadata "lockUntil" ≠ some deadline then
        return .finish .void
      else
        let metadata ← renewedMetadata date hostname config head.metadata (config.unlockTime now)
        return .write (.tagged head.etag) (store.putObject metadata)

/-- An absent `previousLockAtMostUntil` matches whatever the object carries. -/
def deadlineMatches (head : Metadata) : Option τ → Except AccessorError Bool
  | none => return true
  | some previous => do
    let deadline ← toIsoString date previous
    return getMetadataValue head "lockUntil" = some deadline

def extend [LE τ] [DecidableLE τ] (hostname : String) (now : τ) (config : LockConfiguration τ)
    (previousLockAtMostUntil : Option τ) : Option (HeadResult ε) → Except AccessorError (Decision ε)
  | none => return .finish (.bool false)
  | some head => do
    let lockUntil ← parseLockUntil date head.metadata
    if getMetadataValue head.metadata "lockedBy" ≠ some hostname then
      return .finish (.bool false)
    else if lockUntil ≤ now then
      return .finish (.bool false)
    else if ← deadlineMatches date head.metadata previousLockAtMostUntil then
      let metadata ← renewedMetadata date hostname config head.metadata config.lockAtMostUntil
      return .write (.tagged head.etag) (store.putObject metadata)
    else
      return .finish (.bool false)

variable [LT τ] [LE τ] [Max τ] [DecidableLT τ] [DecidableLE τ]

def perform (now : τ) (request : Request τ) (head : Option (HeadResult ε)) :
    Except AccessorError (Decision ε) :=
  match request.operation with
  | .insertRecord config => insertRecord store date request.hostname config head
  | .updateRecord config => updateRecord store date request.hostname now config head
  | .unlock config => unlock store date request.hostname now config head
  | .extend config previous => extend store date request.hostname now config previous head

/-- The accessors as clients of the store. -/
def accessor : Client S3Object ε (HeadResult ε) (Request τ) τ Reply where
  tag object := store.etag object.body
  view := store.headObject
  plan request now head :=
    match perform store date now request head with
    | .ok plan => plan
    | .error error => .finish (.threw error)
  applied request := match request.operation with
    | .unlock _ => .void
    | _ => .bool true
  refused request := match request.operation with
    | .unlock _ => .void
    | _ => .bool false

end Methods

end Tslock.S3
