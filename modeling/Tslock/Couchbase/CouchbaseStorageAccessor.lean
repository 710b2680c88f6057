import Mathlib.Algebra.Order.Ring.Rat
import Tslock.Core.RecordStore

/-! `couchbase-storage-accessor.ts`: lock documents with configurable field names, replaced under
the CAS value they were read with. Any number of such providers share a collection. -/
namespace Tslock.Couchbase

open Function Foundation LeaseProtocol RecordStore

/-- What a field of a document may hold. -/
inductive Value where
  | number (n : ℚ)
  | text (s : String)
  | other
deriving DecidableEq, Repr

/-- A document by its fields; one without value is `undefined`. -/
abbrev Document := String → Option Value

/-- `ResolvedOptions`, with columns that do not overwrite the deadline. -/
structure ResolvedOptions where
  documentIdPrefix : String
  nameCol : String
  lockUntilCol : String
  lockedAtCol : String
  lockedByCol : String
  lockedByValue : String
  lockedAt_ne : lockedAtCol ≠ lockUntilCol
  lockedBy_ne : lockedByCol ≠ lockUntilCol

abbrev maxDocumentIdLength : ℕ := 250

def buildDocumentId (documentIdPrefix name : String) : Except Thrown String :=
  let id := documentIdPrefix ++ name
  if maxDocumentIdLength < id.utf8ByteSize then
    .error (.lockException ("Document ID too long (" ++ toString id.utf8ByteSize ++ " > " ++
      toString maxDocumentIdLength ++ " bytes)"))
  else .ok id

def isDocumentExists : Thrown → Bool
  | .service e => e.errorClass = "DocumentExistsError"
  | _ => false

def isCasMismatch : Thrown → Bool
  | .service e => e.errorClass = "CasMismatchError"
  | _ => false

def isDocumentNotFound : Thrown → Bool
  | .service e => e.errorClass = "DocumentNotFoundError"
  | _ => false

section Accessor

variable (toNumber : String → Option ℚ) (opts : ResolvedOptions)

/-- `value > now`, where JavaScript makes a number of a text and finds `undefined` not greater. -/
def exceeds (value : Option Value) (now : ℚ) : Bool :=
  match value with
  | some (.number n) => now < n
  | some (.text s) => (toNumber s).any fun n => now < n
  | some .other | none => false

/-- The document of a lock; of equal field names the last one counts. -/
def lockDocument (config : LockConfiguration ℚ) (now : ℚ) : Document :=
  update (update (update (update (fun _ => none)
    opts.nameCol (some (.text config.name)))
    opts.lockUntilCol (some (.number config.lockAtMostUntil)))
    opts.lockedAtCol (some (.number now)))
    opts.lockedByCol (some (.text opts.lockedByValue))

/-- `{ ...existing, [lockUntilCol]: deadline }` -/
def withLockUntil (existing : Document) (deadline : ℚ) : Document :=
  update existing opts.lockUntilCol (some (.number deadline))

def docId (name : String) : Except Thrown String := buildDocumentId opts.documentIdPrefix name

def insertRecord (config : LockConfiguration ℚ) : Method ℕ Document ℚ Bool :=
  Program.succeeds isDocumentExists do
    let id ← lift (docId opts config.name)
    let now ← now
    put id .absent fun _ => lockDocument opts config now

def updateRecord (config : LockConfiguration ℚ) : Method ℕ Document ℚ Bool := do
  let id ← lift (docId opts config.name)
  let (cas, existing) ← get id
  let current ← now
  if exceeds toNumber (existing opts.lockUntilCol) current then return false
  else Program.succeeds isCasMismatch do
    let now ← now
    put id (.tagged cas) fun _ => lockDocument opts config now

/-- `get`, with a missing document as `none`. -/
def getIfPresent (name : String) : Method ℕ Document ℚ (Option (ℕ × Document)) :=
  Program.ifPresent isDocumentNotFound do
    let id ← lift (docId opts name)
    get id

def unlock (config : LockConfiguration ℚ) : Method ℕ Document ℚ Unit := do
  let found ← getIfPresent opts config.name
  match found with
  | none => return ()
  | some (cas, existing) =>
    if existing opts.lockedByCol ≠ some (.text opts.lockedByValue) then return ()
    else if existing opts.lockUntilCol ≠ some (.number config.lockAtMostUntil) then return ()
    else Program.ignoring isCasMismatch do
      let id ← lift (docId opts config.name)
      let now ← now
      put id (.tagged cas) fun _ => withLockUntil opts existing (config.unlockTime now)

def extend (config : LockConfiguration ℚ) :
    Option ℚ → Method ℕ Document ℚ Bool
  | none => return false
  | some previousLockAtMostUntil => do
    let found ← getIfPresent opts config.name
    match found with
    | none => return false
    | some (cas, existing) =>
      if existing opts.lockedByCol ≠ some (.text opts.lockedByValue) then return false
      else if existing opts.lockUntilCol ≠ some (.number previousLockAtMostUntil) then return false
      else
        let now ← now
        if previousLockAtMostUntil ≤ now then return false
        else Program.succeeds isCasMismatch do
          let id ← lift (docId opts config.name)
          put id (.tagged cas) fun _ => withLockUntil opts existing config.lockAtMostUntil

def accessor : StorageAccessor ℕ Document ℚ where
  insertRecord := insertRecord opts
  updateRecord := updateRecord toNumber opts
  unlock := unlock opts
  extend := extend opts

end Accessor

end Tslock.Couchbase
