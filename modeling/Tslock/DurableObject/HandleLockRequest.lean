import Tslock.DurableObject.Protocol
import Tslock.Foundation.JsArithmetic
import Tslock.Foundation.JsonString

/-! `handleTslockLockRequest`: the checks on a request, and the operation with each of its accesses
to the storage. -/
namespace Tslock.DurableObject

open Function Foundation

structure HttpRequest where
  method : String
  body : String
deriving DecidableEq, Repr

inductive ResponseBody where
  | error (text : String)
  | result (result : LockOpResult)
deriving DecidableEq, Repr

structure HttpResponse where
  status : ℕ
  body : ResponseBody
deriving DecidableEq, Repr

inductive Access where
  | get (key : String)
  | put (key : String) (record : DoLockRecord)
deriving DecidableEq

def Access.key : Access → String
  | .get key | .put key _ => key

/-- The storage, and the accesses to it so far. -/
structure Session where
  storage : DoLockStorage
  accesses : List Access

abbrev StorageM := StateM Session

def storageGet (key : String) : StorageM (Option DoLockRecord) := fun session =>
  (session.storage key, { session with accesses := session.accesses ++ [.get key] })

def storagePut (key : String) (record : DoLockRecord) : StorageM Unit := fun session =>
  ((), { storage := update session.storage key (some record)
         accesses := session.accesses ++ [.put key record] })

/-- `applyLockOp` with its `get` and `put`. -/
def performLockOp (body : LockOp) (now : JsNumber) : StorageM LockOpResult :=
  let key := storageKeyForLock body.name
  match body.op with
  | .lock =>
    if body.token.length = 0 then pure (.refused .notOwner)
    else do
      let existing ← storageGet key
      if ∃ r, existing = some r ∧ now < r.lockUntil then pure (.refused .held)
      else
        match acquiredRecord body now with
        | none => pure (.ok false false none)
        | some record => do
          storagePut key record
          pure (.ok true false (some body.token))
  | .unlock => do
    match ← storageGet key with
    | none => pure (.ok false false none)
    | some r =>
      if owns r body.token then do
        storagePut key (releasedRecord r now)
        pure (.ok false false none)
      else pure (.ok false false none)
  | .extend => do
    match ← storageGet key with
    | none => pure (.refused .missing)
    | some r =>
      if ¬ owns r body.token then pure (.refused .notOwner)
      else if r.lockUntil ≤ now then pure (.refused .expired)
      else
        match extendedRecord r body now with
        | none => pure (.ok false false none)
        | some record => do
          storagePut key record
          pure (.ok false true none)

def opKind (text : String) : Option OpKind :=
  if text = "lock" then some .lock
  else if text = "unlock" then some .unlock
  else if text = "extend" then some .extend
  else none

/-- An object with `op` and `name`; neither is a property of an array. -/
def hasOpAndName : JsonValue → Bool
  | .object fields => (fields.lookup "op").isSome && (fields.lookup "name").isSome
  | _ => false

/-- The checks on the types of the fields, on the token and on the kind of the operation. -/
def readLockOp : JsonValue → Option LockOp
  | .object fields =>
    match fields.lookup "name", fields.lookup "lockAtMostFor", fields.lookup "lockAtLeastFor",
      fields.lookup "createdAt", fields.lookup "lockedBy", fields.lookup "token",
      fields.lookup "op" with
    | some (.string name), some (.number lockAtMostFor), some (.number lockAtLeastFor),
        some (.number createdAt), some (.string lockedBy), some (.string token),
        some (.string op) =>
      if token.length = 0 then none
      else (opKind op).map fun op =>
        { op, name, lockAtMostFor, lockAtLeastFor, createdAt, lockedBy, token }
    | _, _, _, _, _, _, _ => none
  | _ => none

/-- `parseJson` is what `request.json()` makes of the body, nothing where it throws. -/
def handleTslockLockRequest (parseJson : String → Option JsonValue) (request : HttpRequest)
    (now : JsNumber) : StorageM HttpResponse :=
  if request.method ≠ "POST" then pure ⟨405, .error "method not allowed"⟩
  else
    match parseJson request.body with
    | none => pure ⟨400, .error "invalid json"⟩
    | some body =>
      if hasOpAndName body = false then pure ⟨400, .error "invalid body"⟩
      else
        match readLockOp body with
        | none => pure ⟨400, .error "invalid body"⟩
        | some op =>
          if durationsAreValid op.lockAtMostFor op.lockAtLeastFor = false then
            pure ⟨400, .error "invalid body"⟩
          else do
            let result ← performLockOp op now
            pure ⟨200, .result result⟩

/-- What follows the `get`: the record is stored, if there is one, before the reply. -/
def settle (key : String) (result : Option DoLockRecord × LockOpResult) : StorageM LockOpResult :=
  match result.1 with
  | none => pure result.2
  | some record => do
    storagePut key record
    pure result.2

/-- Each access of an operation, in order. -/
def accessesOf (s : DoLockStorage) (body : LockOp) (now : JsNumber) : List Access :=
  let key := storageKeyForLock body.name
  if body.op = .lock ∧ body.token.length = 0 then []
  else .get key :: ((applyToRecord (s key) body now).1.map (Access.put key)).toList

section Run
variable {body : LockOp} {now : JsNumber} {key : String}

/-- A lock without a token does not look at the storage. -/
theorem performLockOp_noToken (hop : body.op = .lock) (htoken : body.token.length = 0) :
    performLockOp body now = pure (.refused .notOwner) := by
  simp only [performLockOp, hop, htoken, if_true]

/-- Any other operation reads its record and settles what `applyToRecord` says. -/
theorem performLockOp_eq (h : ¬ (body.op = .lock ∧ body.token.length = 0)) :
    performLockOp body now = storageGet (storageKeyForLock body.name) >>= fun existing =>
      settle (storageKeyForLock body.name) (applyToRecord existing body now) := by
  unfold performLockOp applyToRecord
  cases hop : body.op with
  | lock =>
    have htoken : ¬ body.token.length = 0 := fun hzero => h ⟨hop, hzero⟩
    simp only [htoken, if_false]
    congr 1
    funext existing
    split_ifs
    · rfl
    · cases acquiredRecord body now <;> rfl
  | unlock =>
    dsimp only
    congr 1
    funext existing
    cases existing with
    | none => rfl
    | some r =>
      dsimp only
      split_ifs <;> rfl
  | extend =>
    dsimp only
    congr 1
    funext existing
    cases existing with
    | none => rfl
    | some r =>
      dsimp only
      split_ifs
      · rfl
      · cases extendedRecord r body now <;> rfl
      · rfl

theorem settle_run (s : DoLockStorage) (log : List Access)
    (result : Option DoLockRecord × LockOpResult) : (settle key result).run ⟨s, log⟩ =
      (result.2, ⟨result.1.elim s fun record => update s key (some record),
        log ++ (result.1.map (Access.put key)).toList⟩) := by
  obtain ⟨written, reply⟩ := result
  cases written with
  | none =>
    rw [Option.map_none, Option.toList_none, List.append_nil]
    rfl
  | some record => rfl

/-- The accesses are those of `applyLockOp`, and so are the storage and the reply. -/
theorem performLockOp_run (s : DoLockStorage) (log : List Access) (body : LockOp)
    (now : JsNumber) : (performLockOp body now).run ⟨s, log⟩ =
      ((applyLockOp s body now).2,
        ⟨(applyLockOp s body now).1, log ++ accessesOf s body now⟩) := by
  by_cases h : body.op = .lock ∧ body.token.length = 0
  · have happly : applyLockOp s body now = (s, .refused .notOwner) := by
      simp [applyLockOp, applyToRecord, h.1, h.2]
    rw [performLockOp_noToken h.1 h.2, happly, accessesOf, if_pos h, List.append_nil]
    rfl
  · have hrun : (performLockOp body now).run ⟨s, log⟩ =
        (settle (storageKeyForLock body.name)
          (applyToRecord (s (storageKeyForLock body.name)) body now)).run
            ⟨s, log ++ [.get (storageKeyForLock body.name)]⟩ := by
      rw [performLockOp_eq h]
      rfl
    rw [hrun, settle_run, accessesOf, if_neg h, applyLockOp]
    cases (applyToRecord (s (storageKeyForLock body.name)) body now).1 <;> simp

end Run

end Tslock.DurableObject
