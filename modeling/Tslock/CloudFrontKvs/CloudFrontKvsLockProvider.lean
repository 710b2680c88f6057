import Tslock.CloudFrontKvs.LockRecord
import Tslock.Core.LockTable

/-! `CloudFrontKvsLockProvider`: `lock`, `unlock` and `extend` as loops of describe, get and put
requests against one store, whose ETag changes with each write of any key. -/
namespace Tslock.CloudFrontKvs

open Function Foundation

/-- What the client looks at in an error. -/
structure ServiceError where
  name : Option String
  httpStatusCode : Option ℤ
deriving DecidableEq, Repr

def isConflict (e : ServiceError) : Bool :=
  e.name = some "ConflictException" || e.name = some "Conflict" || e.httpStatusCode = some 409

def isNotFound (e : ServiceError) : Bool :=
  e.name = some "ResourceNotFoundException" || e.name = some "NotFound" ||
    e.httpStatusCode = some 404

structure Provider where
  hostname : String
  maxEtagRetries : ℕ
  maxEtagRetries_pos : 0 < maxEtagRetries

/-- The providers of one store: which call belongs to which, and which keys others write. -/
structure Setup where
  json : Json.Reader
  keyPrefix : String
  provider : ℕ → Provider
  unrelated : String → Bool

def Setup.key (setup : Setup) (name : String) : String := setup.keyPrefix ++ name

/-- `length` of a string counts UTF-16 code units. -/
def utf16Length (s : String) : ℕ := (s.toList.map fun c => if c.toNat < 0x10000 then 1 else 2).sum

def Setup.storageKey (setup : Setup) (name : String) : Except String String :=
  if 512 < (setup.key name).utf8ByteSize then
    .error ("Lock storage key exceeds CloudFront KVS 512-byte limit: " ++
      toString (utf16Length (setup.key name)) ++ " chars")
  else if utf16Length (setup.key name) < 1 then .error "Lock storage key must be non-empty"
  else .ok (setup.key name)

/-- The outcome of `getRecord`, `none` where it throws. -/
def getRecord (json : Json.Reader) :
    Except ServiceError (Option String) → Option (Option CloudFrontKvsLockRecord)
  | .ok none => some none
  | .ok (some value) => (decodeLockRecord json value).toOption.map some
  | .error e => if isNotFound e then some none else none

/-- What one pass of a loop decides after it has examined the record. -/
inductive Decision where
  | finish
  | fail
  | put (record : CloudFrontKvsLockRecord)
deriving DecidableEq, Repr

def Decision.ofBuild : Option CloudFrontKvsLockRecord → Decision
  | none => .fail
  | some record => .put record

/-- `Date.parse(existing.lockedAt) || config.createdAt`. -/
def lockedAtOr (existing : CloudFrontKvsLockRecord) (createdAt : ℤ) : ℤ :=
  match JsDate.parse existing.lockedAt with
  | none | some 0 => createdAt
  | some lockedAt => lockedAt

def lockAttempt (hostname : String) (config : LockConfiguration ℤ) (now : ℤ)
    (existing : Option CloudFrontKvsLockRecord) : Decision :=
  if ∃ lockUntil ∈ existing.bind parseLockUntilMs, now < lockUntil then .finish
  else .ofBuild (buildLockRecord config.lockAtMostUntil config.createdAt hostname)

def unlockAttempt (hostname : String) (config : LockConfiguration ℤ) (now : ℤ) :
    Option CloudFrontKvsLockRecord → Decision
  | none => .finish
  | some existing =>
    if existing.lockedBy ≠ hostname then .finish
    else match JsDate.toIsoString config.lockAtMostUntil with
      | none => .fail
      | some isoLockUntil =>
        if existing.lockUntil ≠ isoLockUntil then .finish
        else .ofBuild (buildLockRecord (config.unlockTime now)
          (lockedAtOr existing config.createdAt) existing.lockedBy)

def extendAttempt (hostname : String) (config : LockConfiguration ℤ)
    (previousLockAtMostUntil : Option ℤ) (now : ℤ) : Option CloudFrontKvsLockRecord → Decision
  | none => .finish
  | some existing =>
    if existing.lockedBy ≠ hostname then .finish
    else if ∃ lockUntil ∈ parseLockUntilMs existing, lockUntil ≤ now then .finish
    else
      let record := Decision.ofBuild (buildLockRecord config.lockAtMostUntil
        (lockedAtOr existing config.createdAt) hostname)
      match previousLockAtMostUntil with
      | none => record
      | some previous =>
        match JsDate.toIsoString previous with
        | none => .fail
        | some isoLockUntil => if existing.lockUntil ≠ isoLockUntil then .finish else record

/-- `createdAt` is the clock reading of `extend()`. -/
inductive Operation where
  | lock
  | unlock
  | extend (lockAtMostFor lockAtLeastFor createdAt : ℤ)
deriving DecidableEq, Repr

namespace Operation

/-- What the operation decides; `config` is the configuration of the call or of the handle. -/
def attempt (hostname : String) (config : LockConfiguration ℤ) (now : ℤ)
    (existing : Option CloudFrontKvsLockRecord) : Operation → Decision
  | .lock => lockAttempt hostname config now existing
  | .unlock => unlockAttempt hostname config now existing
  | .extend lockAtMostFor lockAtLeastFor createdAt =>
    extendAttempt hostname (config.successor lockAtMostFor lockAtLeastFor createdAt)
      (some config.lockAtMostUntil) now existing

/-- The operation is one of a handle. -/
def OnHandle : Operation → Prop
  | .lock => False
  | .unlock | .extend .. => True

instance : DecidablePred OnHandle := fun op =>
  match op with
  | .lock => .isFalse not_false
  | .unlock | .extend .. => .isTrue trivial

end Operation

/-- Where a `lock()` call or its handle stands: in the given pass of the loop of an operation, or
between operations. -/
inductive Phase where
  | describing (op : Operation) (attempt : ℕ)
  | reading (op : Operation) (attempt : ℕ) (etag : String)
  | examining (op : Operation) (attempt : ℕ) (etag : String)
      (existing : Option CloudFrontKvsLockRecord)
  | putting (op : Operation) (attempt : ℕ) (etag : String)
      (existing : Option CloudFrontKvsLockRecord) (record : CloudFrontKvsLockRecord)
  | skipped
  | rejected
  | held
  | unlocked
  | extended
deriving DecidableEq, Repr

/-- The operation a call is in. -/
def Phase.operation : Phase → Option Operation
  | .describing op _ | .reading op _ _ | .examining op .. | .putting op .. => some op
  | .skipped | .rejected | .held | .unlocked | .extended => none

/-- There is a handle, neither unlocked nor extended. -/
def Phase.Outstanding (phase : Phase) : Prop := phase = .held ∨ ∃ op ∈ phase.operation, op.OnHandle

instance : DecidablePred Phase.Outstanding := fun _ => inferInstanceAs (Decidable (_ ∨ _))

namespace Operation

/-- The operation returns without a write: `lock()` and `extend()` with `undefined`. -/
def finished : Operation → Phase
  | .lock => .skipped
  | .unlock => .unlocked
  | .extend .. => .held

/-- The operation rejects; a handle stays valid. -/
def failed : Operation → Phase
  | .lock => .rejected
  | .unlock | .extend .. => .held

/-- The operation returns after its write. -/
def written : Operation → Phase
  | .lock => .held
  | .unlock => .unlocked
  | .extend .. => .extended

end Operation

def Decision.phase (op : Operation) (attempt : ℕ) (etag : String)
    (existing : Option CloudFrontKvsLockRecord) : Decision → Phase
  | .finish => op.finished
  | .fail => op.failed
  | .put record => .putting op attempt etag existing record

/-- `etags` are those the store had before, `writer` the call that has written a key last; no client
sees either. -/
structure System where
  clock : ℤ
  store : String → Option String
  writer : String → ℕ
  etag : String
  etags : List String
  locks : LockTable Phase ℤ

namespace System

def setPhase (s : System) (i : ℕ) (l : LockCall Phase ℤ) (phase : Phase) : System :=
  { s with locks := s.locks.setPhase i l phase }

/-- Each write gives the store a new ETag. -/
def write (s : System) (key : String) (value : Option String) (writer : ℕ) (etag : String) :
    System :=
  { s with
    store := update s.store key value
    writer := update s.writer key writer
    etag
    etags := s.etag :: s.etags }

/-- An ETag the store has never had. -/
def Fresh (s : System) (etag : String) : Prop := etag ∉ s.etag :: s.etags

end System

/-- What `GetKey` answers. -/
def Answers (stored : Option String) : Except ServiceError (Option String) → Prop
  | .ok value => value = stored
  | .error e => stored = none ∧ e.name = some "ResourceNotFoundException"

inductive Event where
  | tick
  | called (i : ℕ)
  | described (i : ℕ)
  | got (i : ℕ)
  | evaluated (i : ℕ)
  | put (i : ℕ)
  | conflict (i : ℕ)
  | exhausted (i : ℕ)
  | failed (i : ℕ)
  | foreign (key : String)
deriving DecidableEq, Repr

/-- A request that fails otherwise, and an exception of the client, change nothing. The handle a
successful `extend()` returns is a call of the same provider. -/
inductive Step (setup : Setup) : System → Event → System → Prop where
  | tick {s : System} {now : ℤ} : s.clock ≤ now → Step setup s .tick { s with clock := now }
  | lockCalled {s : System} {i : ℕ} {config : LockConfiguration ℤ} :
      s.locks i = none → config.createdAt ≤ s.clock →
      setup.unrelated (setup.key config.name) = false →
      Step setup s (.called i) { s with
        locks := update s.locks i (some ⟨config, .describing .lock 0⟩) }
  | unlockCalled {s : System} {i : ℕ} {l : LockCall Phase ℤ} :
      s.locks i = some l → l.phase = .held →
      Step setup s (.called i) (s.setPhase i l (.describing .unlock 0))
  | extendCalled {s : System} {i : ℕ} {l : LockCall Phase ℤ} {most least : ℤ} :
      s.locks i = some l → l.phase = .held →
      Step setup s (.called i)
        (s.setPhase i l (.describing (.extend most least s.clock) 0))
  | described {s : System} {i : ℕ} {l : LockCall Phase ℤ} {op : Operation} {n : ℕ} :
      s.locks i = some l → l.phase = .describing op n → s.etag ≠ "" →
      Step setup s (.described i) (s.setPhase i l (.reading op n s.etag))
  | got {s : System} {i : ℕ} {l : LockCall Phase ℤ} {op : Operation} {n : ℕ} {etag key : String}
      {answer : Except ServiceError (Option String)} {existing : Option CloudFrontKvsLockRecord} :
      s.locks i = some l → l.phase = .reading op n etag →
      setup.storageKey l.config.name = .ok key → Answers (s.store key) answer →
      getRecord setup.json answer = some existing →
      Step setup s (.got i) (s.setPhase i l (.examining op n etag existing))
  | evaluated {s : System} {i : ℕ} {l : LockCall Phase ℤ} {op : Operation} {n : ℕ} {etag : String}
      {existing : Option CloudFrontKvsLockRecord} :
      s.locks i = some l → l.phase = .examining op n etag existing →
      Step setup s (.evaluated i) (s.setPhase i l
        ((op.attempt (setup.provider i).hostname l.config s.clock existing).phase op n etag
          existing))
  | put {s : System} {i : ℕ} {l : LockCall Phase ℤ} {op : Operation} {n : ℕ} {key etag : String}
      {existing : Option CloudFrontKvsLockRecord} {record : CloudFrontKvsLockRecord} :
      s.locks i = some l → l.phase = .putting op n s.etag existing record →
      (∀ most least createdAt, op ≠ .extend most least createdAt) →
      setup.storageKey l.config.name = .ok key → s.Fresh etag →
      Step setup s (.put i)
        ((s.write key (some (encodeLockRecord record)) i etag).setPhase i l op.written)
  | putExtended {s : System} {i j : ℕ} {l : LockCall Phase ℤ} {most least createdAt : ℤ} {n : ℕ}
      {key etag : String} {existing : Option CloudFrontKvsLockRecord}
      {record : CloudFrontKvsLockRecord} :
      s.locks i = some l →
      l.phase = .putting (.extend most least createdAt) n s.etag existing record →
      setup.storageKey l.config.name = .ok key → s.Fresh etag →
      s.locks j = none → setup.provider j = setup.provider i →
      Step setup s (.put i) { s.write key (some (encodeLockRecord record)) j etag with
        locks := update (s.locks.setPhase i l .extended) j
          (some ⟨l.config.successor most least createdAt, .held⟩) }
  | conflict {s : System} {i : ℕ} {l : LockCall Phase ℤ} {op : Operation} {n : ℕ} {etag : String}
      {existing : Option CloudFrontKvsLockRecord} {record : CloudFrontKvsLockRecord}
      {e : ServiceError} :
      s.locks i = some l → l.phase = .putting op n etag existing record → etag ≠ s.etag →
      isConflict e = true → n + 1 < (setup.provider i).maxEtagRetries →
      Step setup s (.conflict i) (s.setPhase i l (.describing op (n + 1)))
  | exhausted {s : System} {i : ℕ} {l : LockCall Phase ℤ} {op : Operation} {n : ℕ} {etag : String}
      {existing : Option CloudFrontKvsLockRecord} {record : CloudFrontKvsLockRecord}
      {e : ServiceError} :
      s.locks i = some l → l.phase = .putting op n etag existing record → etag ≠ s.etag →
      isConflict e = true → (setup.provider i).maxEtagRetries ≤ n + 1 →
      Step setup s (.exhausted i) (s.setPhase i l op.finished)
  | failed {s : System} {i : ℕ} {l : LockCall Phase ℤ} {op : Operation} :
      s.locks i = some l → l.phase.operation = some op →
      Step setup s (.failed i) (s.setPhase i l op.failed)
  | foreign {s : System} {key etag : String} {value : Option String} {writer : ℕ} :
      setup.unrelated key = true → s.Fresh etag →
      Step setup s (.foreign key) (s.write key value writer etag)

/-- The store has no record of a lock yet. -/
def system (setup : Setup) : TransitionSystem System Event where
  Initial s := (∀ name, setup.unrelated (setup.key name) = false →
    s.store (setup.key name) = none) ∧ s.etags = [] ∧ ∀ i, s.locks i = none
  Step := Step setup

end Tslock.CloudFrontKvs
