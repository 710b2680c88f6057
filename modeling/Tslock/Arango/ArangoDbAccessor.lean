import Tslock.Core.RecordStore

/-! `arangodb-accessor.ts` and `ArangoDbLockProvider`: `lock` reads and writes in a transaction with
an exclusive collection, `unlock` and `extend` write under the revision they have read. -/
namespace Tslock.Arango

open Function Foundation LeaseProtocol
open RecordStore (ServiceError Thrown Versioned toIsoString)

structure LockDocument where
  lockUntil : String
  lockedAt : String
  lockedBy : String
deriving DecidableEq, Repr

/-- A transaction that has the collection to itself, with what it has written so far. -/
structure Transaction where
  client : ℕ
  writes : String → Option LockDocument

/-- The collection and the transaction that is open on it. -/
structure Collection where
  documents : String → Option (Versioned ℕ LockDocument)
  transaction : Option Transaction

/-- What a transaction reads. -/
def Collection.seen (s : Collection) (txn : Transaction) (key : String) : Option LockDocument :=
  (txn.writes key).or ((s.documents key).map Versioned.value)

/-- The calls of the client. Those named after `txn.step` run inside the transaction. -/
inductive Command where
  | beginTransaction
  | stepDocument (key : String)
  | stepSave (key : String) (document : LockDocument)
  | stepUpdate (key : String) (patch : LockDocument → LockDocument)
  | commit
  | abort
  | document (key : String)
  | update (key : String) (ifMatch : ℕ) (patch : LockDocument → LockDocument)

abbrev Value : Command → Type
  | .stepDocument _ => LockDocument
  | .document _ => ℕ × LockDocument
  | _ => Unit

inductive Request where
  | now
  | call (command : Command)

abbrev Answer : Request → Type
  | .now => ℤ
  | .call command => Except ServiceError (Value command)

abbrev Method (α : Type) := Program Request Answer Thrown α

/-- A transaction begins and others write when none is open. Each command may fail, before or after
its effect. -/
inductive Serve (i : ℕ) (now : ℤ) (s : Collection) :
    (q : Request) → Answer q → Bool → Collection → Prop where
  | now : Serve i now s .now now false s
  | fails {command : Command} {e : ServiceError} : Serve i now s (.call command) (.error e) false s
  | begun {reply : Except ServiceError Unit} :
      s.transaction = none →
      Serve i now s (.call .beginTransaction) reply false
        { s with transaction := some ⟨i, fun _ => none⟩ }
  | stepRead {txn : Transaction} {key : String} {document : LockDocument} :
      s.transaction = some txn → txn.client = i → s.seen txn key = some document →
      Serve i now s (.call (.stepDocument key)) (.ok document) false s
  | stepSaved {txn : Transaction} {key : String} {document : LockDocument}
      {reply : Except ServiceError Unit} :
      s.transaction = some txn → txn.client = i → s.seen txn key = none →
      Serve i now s (.call (.stepSave key document)) reply false
        { s with transaction := some { txn with writes := update txn.writes key (some document) } }
  | stepUpdated {txn : Transaction} {key : String} {document : LockDocument}
      {patch : LockDocument → LockDocument} {reply : Except ServiceError Unit} :
      s.transaction = some txn → txn.client = i → s.seen txn key = some document →
      Serve i now s (.call (.stepUpdate key patch)) reply false
        { s with
          transaction := some { txn with writes := update txn.writes key (some (patch document)) } }
  | committed {txn : Transaction} {version : String → ℕ} {reply : Except ServiceError Unit} :
      s.transaction = some txn → txn.client = i →
      (∀ key x, s.documents key = some x → x.version < version key) →
      Serve i now s (.call .commit) reply true
        { documents := fun key =>
            ((txn.writes key).map fun document => ⟨version key, document, i⟩).or (s.documents key)
          transaction := none }
  | aborted {txn : Transaction} {reply : Except ServiceError Unit} :
      s.transaction = some txn → txn.client = i →
      Serve i now s (.call .abort) reply false { s with transaction := none }
  | read {key : String} {x : Versioned ℕ LockDocument} :
      s.documents key = some x →
      Serve i now s (.call (.document key)) (.ok (x.version, x.value)) false s
  | updated {key : String} {ifMatch : ℕ} {x : Versioned ℕ LockDocument}
      {patch : LockDocument → LockDocument} {version : ℕ} {reply : Except ServiceError Unit} :
      s.transaction = none → s.documents key = some x → x.version = ifMatch →
      x.version < version →
      Serve i now s (.call (.update key ifMatch patch)) reply true
        { s with documents := update s.documents key (some ⟨version, patch x.value, i⟩) }

def isDocumentNotFoundError : Thrown → Bool
  | .service e => e.code = some 1202
  | _ => false

def isConflictError : Thrown → Bool
  | .service e => e.code = some 1200
  | _ => false

section Accessor

def lift {α : Type} (r : Except Thrown α) : Method α := Program.ofExcept r

def now : Method ℤ := Program.ask Request.now

def call (command : Command) : Method (Value command) := do
  let answer ← (Program.ask (Request.call command) : Method (Except ServiceError (Value command)))
  lift (answer.mapError Thrown.service)

variable (reader : JsDate.Reader) (hostname : String)

def lockDocument (config : LockConfiguration ℤ) (now : ℤ) : Except Thrown LockDocument := do
  let lockUntil ← toIsoString config.lockAtMostUntil
  let lockedAt ← toIsoString now
  return { lockUntil, lockedAt, lockedBy := hostname }

/-- A missing document is `null`; after any other error the transaction is given up. -/
def existingDocument (documentId : String) : Method (Option LockDocument) :=
  tryCatch (do return some (← call (.stepDocument documentId))) fun e =>
    if isDocumentNotFoundError e then return none
    else do
      call .abort
      throw e

/-- `lockUntilMillis <= now`, where a text that is no date makes `NaN`. -/
def isOver (lockUntil : String) (now : ℤ) : Bool :=
  (reader.parse lockUntil).any fun lockUntilMillis => lockUntilMillis ≤ now

def takeIfFree (config : LockConfiguration ℤ) (now : ℤ) : Option LockDocument → Method Bool
  | none => do
    let document ← lift (lockDocument hostname config now)
    call (.stepSave config.name document)
    call .commit
    return true
  | some existing =>
    if isOver reader existing.lockUntil now then do
      let document ← lift (lockDocument hostname config now)
      call (.stepUpdate config.name fun _ => document)
      call .commit
      return true
    else do
      call .abort
      return false

/-- `true` stands for the `DelegatingSimpleLock` it returns. -/
def lock (config : LockConfiguration ℤ) : Method Bool := do
  let now ← now
  call .beginTransaction
  tryCatch (do takeIfFree reader hostname config now (← existingDocument config.name)) fun e => do
    tryCatch (call .abort) fun _ => return ()
    throw e

/-- Read outside of a transaction, with the revision of the document. -/
def storedDocument (documentId : String) : Method (Option (ℕ × LockDocument)) :=
  Program.ifPresent isDocumentNotFoundError (call (.document documentId))

def extend (config : LockConfiguration ℤ) : Option ℤ → Method Bool
  | none => return false
  | some previousLockAtMostUntil => do
    let now ← now
    let stored ← storedDocument config.name
    match stored with
    | none => return false
    | some (rev, existing) =>
      if existing.lockedBy ≠ hostname then return false
      else
        let expected ← lift (toIsoString previousLockAtMostUntil)
        if existing.lockUntil ≠ expected then return false
        else if isOver reader existing.lockUntil now then return false
        else Program.succeeds isConflictError do
          let lockUntil ← lift (toIsoString config.lockAtMostUntil)
          call (.update config.name rev fun document => { document with lockUntil })

def unlock (config : LockConfiguration ℤ) : Method Unit := do
  let stored ← storedDocument config.name
  match stored with
  | none => return ()
  | some (rev, existing) =>
    if existing.lockedBy ≠ hostname then return ()
    else
      let expected ← lift (toIsoString config.lockAtMostUntil)
      if existing.lockUntil ≠ expected then return ()
      else Program.ignoring (fun e => isDocumentNotFoundError e || isConflictError e) do
        let now ← now
        let lockUntil ← lift (toIsoString (config.unlockTime now))
        call (.update config.name rev fun document => { document with lockUntil })

end Accessor

end Tslock.Arango
