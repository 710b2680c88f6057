import Mathlib.Logic.Function.Basic
import Tslock.Foundation.JsNumber

/-! `applyLockOp` of the Durable Object lock server, over the numbers of the language. Each
operation reads the record of its name and may store a new one. -/
namespace Tslock.DurableObject

open Function Foundation

structure DoLockRecord where
  lockUntil : JsNumber
  lockedAt : JsNumber
  lockedBy : String
  token : Option String
  lockAtLeastUntil : Option JsNumber
deriving DecidableEq

inductive OpKind where
  | lock
  | unlock
  | extend
deriving DecidableEq, Repr

structure LockOp where
  op : OpKind
  name : String
  lockAtMostFor : JsNumber
  lockAtLeastFor : JsNumber
  createdAt : JsNumber
  lockedBy : String
  token : String
deriving DecidableEq

inductive Reason where
  | held
  | notOwner
  | expired
  | missing
deriving DecidableEq, Repr

/-- An absent `acquired` or `extended` reads as `false`. -/
inductive LockOpResult where
  | ok (acquired extended : Bool) (token : Option String)
  | refused (reason : Reason)
deriving DecidableEq, Repr

namespace LockOpResult

def acquired : LockOpResult → Bool
  | ok a _ _ => a
  | refused _ => false

def extended : LockOpResult → Bool
  | ok _ e _ => e
  | refused _ => false

end LockOpResult

abbrev DoLockStorage := String → Option DoLockRecord

def storageKeyForLock (name : String) : String := "lock:" ++ name

def durationsAreValid (lockAtMostFor lockAtLeastFor : JsNumber) : Bool :=
  lockAtMostFor.isFinite && lockAtLeastFor.isFinite && decide (JsNumber.finite 0 ≤ lockAtMostFor) &&
    decide (JsNumber.finite 0 ≤ lockAtLeastFor) && decide (lockAtLeastFor ≤ lockAtMostFor)

/-- What the request handler checks of a body of the right shape. -/
def LockOp.isValid (body : LockOp) : Bool :=
  body.token.length ≠ 0 && durationsAreValid body.lockAtMostFor body.lockAtLeastFor

def storedLeastUntil (existing : DoLockRecord) (now : JsNumber) : JsNumber :=
  match existing.lockAtLeastUntil with
  | some stored => if stored.isFinite then stored else now
  | none => now

def strictFutureDeadline (now duration : JsNumber) : Option JsNumber :=
  if (now + duration).isFinite = false ∨ now + duration ≤ now then none else some (now + duration)

/-- The stored token is a string that equals the one of the request, which is not empty. -/
def owns (existing : DoLockRecord) (token : String) : Prop :=
  0 < token.length ∧ existing.token = some token

instance (existing : DoLockRecord) (token : String) : Decidable (owns existing token) :=
  inferInstanceAs (Decidable (_ ∧ _))

/-- The record a free lock gets, unless a deadline is not representable. -/
def acquiredRecord (body : LockOp) (now : JsNumber) : Option DoLockRecord :=
  match strictFutureDeadline now body.lockAtMostFor with
  | none => none
  | some lockUntil =>
    if (now + body.lockAtLeastFor).isFinite = false then none
    else some
      { lockUntil, lockAtLeastUntil := some (now + body.lockAtLeastFor), lockedAt := now,
        lockedBy := body.lockedBy, token := some body.token }

def releasedRecord (existing : DoLockRecord) (now : JsNumber) : DoLockRecord where
  lockUntil := max now (storedLeastUntil existing now)
  lockedAt := existing.lockedAt
  lockedBy := existing.lockedBy
  token := existing.token
  lockAtLeastUntil := existing.lockAtLeastUntil.filter JsNumber.isFinite

/-- `Math.max(storedLeastUntil(existing, now), now, now + body.lockAtLeastFor)` -/
def extendedLeastUntil (existing : DoLockRecord) (body : LockOp) (now : JsNumber) : JsNumber :=
  max (max (storedLeastUntil existing now) now) (now + body.lockAtLeastFor)

/-- The record an extension stores, unless a deadline is not representable. -/
def extendedRecord (existing : DoLockRecord) (body : LockOp) (now : JsNumber) :
    Option DoLockRecord :=
  match strictFutureDeadline now body.lockAtMostFor with
  | none => none
  | some lockUntil =>
    if (extendedLeastUntil existing body now).isFinite = false then none
    else some
      { lockUntil, lockAtLeastUntil := some (extendedLeastUntil existing body now),
        lockedAt := existing.lockedAt, lockedBy := existing.lockedBy, token := existing.token }

/-- The record to store, if any, and the reply. -/
def applyToRecord (existing : Option DoLockRecord) (body : LockOp) (now : JsNumber) :
    Option DoLockRecord × LockOpResult :=
  match body.op with
  | .lock =>
    if body.token.length = 0 then (none, .refused .notOwner)
    else if ∃ r, existing = some r ∧ now < r.lockUntil then (none, .refused .held)
    else
      match acquiredRecord body now with
      | none => (none, .ok false false none)
      | some record => (some record, .ok true false (some body.token))
  | .unlock =>
    match existing with
    | none => (none, .ok false false none)
    | some r =>
      if owns r body.token then (some (releasedRecord r now), .ok false false none)
      else (none, .ok false false none)
  | .extend =>
    match existing with
    | none => (none, .refused .missing)
    | some r =>
      if ¬ owns r body.token then (none, .refused .notOwner)
      else if r.lockUntil ≤ now then (none, .refused .expired)
      else
        match extendedRecord r body now with
        | none => (none, .ok false false none)
        | some record => (some record, .ok false true none)

def applyLockOp (storage : DoLockStorage) (body : LockOp) (now : JsNumber) :
    DoLockStorage × LockOpResult :=
  let result := applyToRecord (storage (storageKeyForLock body.name)) body now
  match result.1 with
  | none => (storage, result.2)
  | some record => (update storage (storageKeyForLock body.name) (some record), result.2)

def recordOf (s : DoLockStorage) (name : String) : Option DoLockRecord :=
  s (storageKeyForLock name)

/-- The record an operation finds. -/
def found (s : DoLockStorage) (body : LockOp) : Option DoLockRecord := recordOf s body.name

/-- The record an operation leaves. -/
def storing (s : DoLockStorage) (body : LockOp) (record : DoLockRecord) : DoLockStorage :=
  update s (storageKeyForLock body.name) (some record)

/-- What one operation does to the storage, and its reply. -/
inductive OpStep (s : DoLockStorage) (body : LockOp) (now : JsNumber) :
    DoLockStorage → LockOpResult → Prop where
  | unchanged {reply : LockOpResult} :
      reply.acquired = false → reply.extended = false →
      (body.op = .unlock → ∀ r, found s body = some r → ¬ owns r body.token) →
      (body.op = .extend → ∀ r, found s body = some r → owns r body.token →
        r.lockUntil ≤ now ∨ extendedRecord r body now = none) →
      OpStep s body now s reply
  | acquired {record : DoLockRecord} :
      body.op = .lock → (∀ r, found s body = some r → ¬ now < r.lockUntil) →
      acquiredRecord body now = some record →
      OpStep s body now (storing s body record) (.ok true false (some body.token))
  | released {r : DoLockRecord} :
      body.op = .unlock → found s body = some r → owns r body.token →
      OpStep s body now (storing s body (releasedRecord r now)) (.ok false false none)
  | extended {r record : DoLockRecord} :
      body.op = .extend → found s body = some r → owns r body.token → ¬ r.lockUntil ≤ now →
      extendedRecord r body now = some record →
      OpStep s body now (storing s body record) (.ok false true none)

variable {s : DoLockStorage} {body : LockOp} {now : JsNumber} {r record : DoLockRecord}
  {name : String}

theorem storageKeyForLock_inj {a b : String} :
    storageKeyForLock a = storageKeyForLock b ↔ a = b := by
  simp [storageKeyForLock]

@[simp] theorem recordOf_storing_self :
    recordOf (storing s body record) body.name = some record := by
  simp [recordOf, storing]

theorem recordOf_storing_of_ne (h : name ≠ body.name) :
    recordOf (storing s body record) name = recordOf s name := by
  have hkey : storageKeyForLock name ≠ storageKeyForLock body.name := by
    simpa [storageKeyForLock_inj] using h
  exact update_of_ne hkey _ _

theorem storedLeastUntil_cases (r : DoLockRecord) (now : JsNumber) :
    storedLeastUntil r now = now ∨
      ∃ l, r.lockAtLeastUntil = some l ∧ l.isFinite = true ∧ storedLeastUntil r now = l := by
  unfold storedLeastUntil
  cases hl : r.lockAtLeastUntil with
  | none => exact .inl rfl
  | some l =>
    dsimp only
    split_ifs with hfin
    · exact .inr ⟨l, rfl, hfin, rfl⟩
    · exact .inl rfl

theorem storedLeastUntil_of_some {l : JsNumber} (hl : r.lockAtLeastUntil = some l)
    (hfin : l.isFinite = true) : storedLeastUntil r now = l := by
  simp [storedLeastUntil, hl, hfin]

theorem storedLeastUntil_ne_nan (h : now ≠ .nan) : storedLeastUntil r now ≠ .nan := by
  rcases storedLeastUntil_cases r now with heq | ⟨l, -, hfin, heq⟩
  · rwa [heq]
  · rw [heq]
    exact JsNumber.ne_nan_of_isFinite hfin

theorem strictFutureDeadline_some {duration d : JsNumber}
    (h : strictFutureDeadline now duration = some d) :
    d = now + duration ∧ d.isFinite = true ∧ ¬ d ≤ now := by
  unfold strictFutureDeadline at h
  split_ifs at h with hbad
  cases h
  obtain ⟨hfin, hle⟩ := not_or.mp hbad
  exact ⟨rfl, by simpa using hfin, hle⟩

theorem acquiredRecord_some (h : acquiredRecord body now = some record) :
    strictFutureDeadline now body.lockAtMostFor = some record.lockUntil ∧
    record.lockAtLeastUntil = some (now + body.lockAtLeastFor) ∧
    (now + body.lockAtLeastFor).isFinite = true ∧ record.token = some body.token := by
  unfold acquiredRecord at h
  cases hd : strictFutureDeadline now body.lockAtMostFor with
  | none => simp [hd] at h
  | some d =>
    simp only [hd] at h
    split_ifs at h with hfin
    cases h
    exact ⟨rfl, rfl, by simpa using hfin, rfl⟩

theorem extendedRecord_some (h : extendedRecord r body now = some record) :
    strictFutureDeadline now body.lockAtMostFor = some record.lockUntil ∧
    record.lockAtLeastUntil = some (extendedLeastUntil r body now) ∧
    (extendedLeastUntil r body now).isFinite = true ∧ record.token = r.token := by
  unfold extendedRecord at h
  cases hd : strictFutureDeadline now body.lockAtMostFor with
  | none => simp [hd] at h
  | some d =>
    simp only [hd] at h
    split_ifs at h with hfin
    cases h
    exact ⟨rfl, rfl, by simpa using hfin, rfl⟩

/-- Every branch of `applyLockOp` is one of the four steps. -/
theorem applyLockOp_opStep (s : DoLockStorage) (body : LockOp) (now : JsNumber) :
    OpStep s body now (applyLockOp s body now).1 (applyLockOp s body now).2 := by
  unfold applyLockOp applyToRecord
  cases hop : body.op with
  | lock =>
    have hunlock : body.op = .unlock → ∀ r, found s body = some r → ¬ owns r body.token := by
      simp [hop]
    have hextend : body.op = .extend → ∀ r, found s body = some r → owns r body.token →
        r.lockUntil ≤ now ∨ extendedRecord r body now = none := by simp [hop]
    dsimp only
    split_ifs with htoken hheld
    · exact .unchanged rfl rfl hunlock hextend
    · exact .unchanged rfl rfl hunlock hextend
    · cases hrec : acquiredRecord body now with
      | none => exact .unchanged rfl rfl hunlock hextend
      | some record =>
        exact .acquired hop (fun r hr hlt => hheld ⟨r, hr, hlt⟩) hrec
  | unlock =>
    have hextend : body.op = .extend → ∀ r, found s body = some r → owns r body.token →
        r.lockUntil ≤ now ∨ extendedRecord r body now = none := by simp [hop]
    cases hr : s (storageKeyForLock body.name) with
    | none => exact .unchanged rfl rfl (by simp [found, recordOf, hr]) hextend
    | some r =>
      dsimp only
      split_ifs with howns
      · exact .released hop hr howns
      · refine .unchanged rfl rfl ?_ hextend
        intro _ r' hr'
        rw [found, recordOf, hr] at hr'
        cases hr'
        exact howns
  | extend =>
    have hunlock : body.op = .unlock → ∀ r, found s body = some r → ¬ owns r body.token := by
      simp [hop]
    cases hr : s (storageKeyForLock body.name) with
    | none => exact .unchanged rfl rfl hunlock (by simp [found, recordOf, hr])
    | some r =>
      have hsame : ∀ r', found s body = some r' → r' = r := by
        intro r' hr'
        rw [found, recordOf, hr] at hr'
        exact (Option.some.inj hr').symm
      dsimp only
      split_ifs with howns hexpired
      · exact .unchanged rfl rfl hunlock fun _ r' hr' _ => .inl (hsame r' hr' ▸ hexpired)
      · cases hrec : extendedRecord r body now with
        | none => exact .unchanged rfl rfl hunlock fun _ r' hr' _ => .inr (hsame r' hr' ▸ hrec)
        | some record => exact .extended hop hr howns hexpired hrec
      · exact .unchanged rfl rfl hunlock fun _ r' hr' ho => absurd (hsame r' hr' ▸ ho) howns

/-- One request of a run: an operation and the reading of the object's clock. -/
abbrev Request := LockOp × JsNumber

def serverStep (s : DoLockStorage) (a : Request) : DoLockStorage := (applyLockOp s a.1 a.2).1

def serverReply (s : DoLockStorage) (a : Request) : LockOpResult := (applyLockOp s a.1 a.2).2

def emptyStorage : DoLockStorage := fun _ => none

def run (s : DoLockStorage) (requests : List Request) : DoLockStorage := requests.foldl serverStep s

theorem serverStep_opStep (s : DoLockStorage) (a : Request) :
    OpStep s a.1 a.2 (serverStep s a) (serverReply s a) :=
  applyLockOp_opStep s a.1 a.2

end Tslock.DurableObject
