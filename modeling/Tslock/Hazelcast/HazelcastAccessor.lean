import Tslock.Core.LockTable
import Tslock.Foundation.JsDate

/-! `HazelcastAccessor.lock` and `unlock` over a map whose keys can be locked, each call split at
its requests. -/
namespace Tslock.Hazelcast

open Function Foundation

structure HazelcastLockRecord where
  lockUntil : String
  lockedAt : String
  lockedBy : String
deriving DecidableEq, Repr

def sameAcquisition (existing : Option HazelcastLockRecord) (expected : HazelcastLockRecord) :
    Bool :=
  match existing with
  | none => false
  | some existing =>
    existing.lockedBy = expected.lockedBy ∧ existing.lockedAt = expected.lockedAt ∧
      existing.lockUntil = expected.lockUntil

/-- An entry of the map; it is evicted when its time to live is over. `writer` is the call whose
request put it; no client sees it. -/
structure Entry where
  record : HazelcastLockRecord
  expires : ℤ
  writer : ℕ
deriving DecidableEq, Repr

/-- The lock of a key is owned by a client, which may take it again. `last` is the call that has
taken it last; no client sees it. -/
structure EntryLock where
  client : ℕ
  lockCount : ℕ
  leaseEnd : ℤ
  last : ℕ
deriving DecidableEq, Repr

/-- Which client each call is made by, the host and the lease time of each client. -/
structure Setup where
  client : ℕ → ℕ
  hostname : ℕ → String
  lockLeaseTimeMs : ℕ → ℤ

/-- How a call leaves its critical section. -/
inductive Outcome where
  | skipped
  | rejected
  | held (record : HazelcastLockRecord)
  | unlocked
deriving DecidableEq, Repr

/-- Where a `lock()` call or its handle stands. `now` is the clock reading at the start of the call;
what an unlock puts is `none` where it removes the record. -/
inductive Phase where
  | locking (now : ℤ)
  | reading (now : ℤ)
  | putting (record : HazelcastLockRecord)
  | unlockLocking (expected : HazelcastLockRecord) (now : ℤ)
  | unlockReading (expected : HazelcastLockRecord) (now : ℤ)
  | unlockPutting (expected : HazelcastLockRecord) (rest : Option HazelcastLockRecord)
  | leaving (outcome : Outcome)
  | settled (outcome : Outcome)
deriving DecidableEq, Repr

/-- The record of a handle whose unlock has not taken effect. -/
def Phase.record : Phase → Option HazelcastLockRecord
  | .leaving (.held record) | .settled (.held record) | .unlockLocking record _
  | .unlockReading record _ | .unlockPutting record _ => some record
  | .locking _ | .reading _ | .putting _ => none
  | .leaving .skipped | .leaving .rejected | .leaving .unlocked => none
  | .settled .skipped | .settled .rejected | .settled .unlocked => none

def Phase.Outstanding (phase : Phase) : Prop := phase.record ≠ none

instance : DecidablePred Phase.Outstanding := fun _ => inferInstanceAs (Decidable (_ ≠ _))

/-- `lock()` after `store.get`. A date that cannot be parsed is not over, and `toISOString` throws
for an instant that is not a date. -/
def lockAfterGet (hostname : String) (config : LockConfiguration ℤ) (now : ℤ)
    (existing : Option HazelcastLockRecord) : Phase :=
  if ∀ record ∈ existing, ∃ lockUntil ∈ JsDate.parse record.lockUntil, lockUntil ≤ now then
    match JsDate.toIsoString config.lockAtMostUntil, JsDate.toIsoString now with
    | some lockUntil, some lockedAt => .putting ⟨lockUntil, lockedAt, hostname⟩
    | _, _ => .leaving .rejected
  else .leaving .skipped

/-- `unlock()` after `store.get`; an `unlock()` that rejects leaves the handle valid. -/
def unlockAfterGet (config : LockConfiguration ℤ) (expected : HazelcastLockRecord) (now : ℤ)
    (existing : Option HazelcastLockRecord) : Phase :=
  if !sameAcquisition existing expected then .leaving .unlocked
  else if now ≥ config.lockAtLeastUntil then .unlockPutting expected none
  else match JsDate.toIsoString config.lockAtLeastUntil with
    | some lockUntil =>
      .unlockPutting expected (some ⟨lockUntil, expected.lockedAt, expected.lockedBy⟩)
    | none => .leaving (.held expected)

/-- The lease time a call asks for with `store.lock`. -/
def Setup.leaseTime (setup : Setup) (i : ℕ) (config : LockConfiguration ℤ) : Phase → ℤ
  | .locking now => config.lockAtMostUntil - now
  | _ => setup.lockLeaseTimeMs (setup.client i)

/-- The call waits for `store.lock`. -/
def Phase.AwaitsLock : Phase → Prop
  | .locking _ | .unlockLocking .. => True
  | .reading _ | .putting _ | .unlockReading .. | .unlockPutting .. | .leaving _ | .settled _ =>
    False

/-- The phase after `store.lock`. -/
def afterLock : Phase → Phase
  | .locking now => .reading now
  | .unlockLocking expected now => .unlockReading expected now
  | phase => phase

/-- The phase after a request that failed: what was locked is unlocked. -/
def afterError : Phase → Phase
  | .locking _ => .settled .rejected
  | .reading _ | .putting _ => .leaving .rejected
  | .unlockLocking expected _ => .settled (.held expected)
  | .unlockReading expected _ | .unlockPutting expected _ => .leaving (.held expected)
  | .leaving outcome => .settled outcome
  | .settled outcome => .settled outcome

structure System where
  clock : ℤ
  entryLock : String → Option EntryLock
  entry : String → Option Entry
  locks : LockTable Phase ℤ

namespace System

def setPhase (s : System) (i : ℕ) (l : LockCall Phase ℤ) (phase : Phase) : System :=
  { s with locks := s.locks.setPhase i l phase }

/-- No other client holds the lock of the key. -/
def Admits (s : System) (key : String) (client : ℕ) : Prop :=
  ∀ guard ∈ s.entryLock key, guard.client = client

/-- `IMap.lock`: the count grows, the lease begins anew. -/
def lock (s : System) (key : String) (client : ℕ) (leaseTime : ℤ) (i : ℕ) : System :=
  { s with
    entryLock := update s.entryLock key
      (some ⟨client, ((s.entryLock key).elim 0 EntryLock.lockCount) + 1, s.clock + leaseTime, i⟩) }

/-- `IMap.unlock`: the last unlock frees the key; of a lock the client does not hold it throws. -/
def unlock (s : System) (key : String) (client : ℕ) : System :=
  { s with
    entryLock := update s.entryLock key ((s.entryLock key).bind fun guard =>
      if guard.client ≠ client then some guard
      else if guard.lockCount ≤ 1 then none
      else some { guard with lockCount := guard.lockCount - 1 }) }

def put (s : System) (key : String) (entry : Option Entry) : System :=
  { s with entry := update s.entry key entry }

def record (s : System) (key : String) : Option HazelcastLockRecord := (s.entry key).map (·.record)

end System

inductive Event where
  | tick
  | called (i : ℕ)
  | locked (i : ℕ)
  | got (i : ℕ)
  | put (i : ℕ)
  | unlocked (i : ℕ)
  | failed (i : ℕ)
  | leaseEnded (key : String)
  | evicted (key : String)
deriving DecidableEq, Repr

/-- Another client waits in `lock`, `put` and `remove` while the key is locked. -/
inductive Step (setup : Setup) : System → Event → System → Prop where
  | tick {s : System} {now : ℤ} : s.clock ≤ now → Step setup s .tick { s with clock := now }
  | lockCalled {s : System} {i : ℕ} {config : LockConfiguration ℤ} :
      s.locks i = none → config.createdAt ≤ s.clock →
      Step setup s (.called i) { s with
        locks := update s.locks i (some ⟨config, .locking s.clock⟩) }
  | unlockCalled {s : System} {i : ℕ} {l : LockCall Phase ℤ} {record : HazelcastLockRecord} :
      s.locks i = some l → l.phase = .settled (.held record) →
      Step setup s (.called i) (s.setPhase i l (.unlockLocking record s.clock))
  | locked {s : System} {i : ℕ} {l : LockCall Phase ℤ} :
      s.locks i = some l → l.phase.AwaitsLock →
      s.Admits l.config.name (setup.client i) →
      Step setup s (.locked i) ((s.lock l.config.name (setup.client i)
        (setup.leaseTime i l.config l.phase) i).setPhase i l (afterLock l.phase))
  | lockGot {s : System} {i : ℕ} {l : LockCall Phase ℤ} {now : ℤ} :
      s.locks i = some l → l.phase = .reading now →
      Step setup s (.got i) (s.setPhase i l (lockAfterGet (setup.hostname (setup.client i)) l.config
        now (s.record l.config.name)))
  | unlockGot {s : System} {i : ℕ} {l : LockCall Phase ℤ} {expected : HazelcastLockRecord}
      {now : ℤ} :
      s.locks i = some l → l.phase = .unlockReading expected now →
      Step setup s (.got i) (s.setPhase i l
        (unlockAfterGet l.config expected now (s.record l.config.name)))
  | lockPut {s : System} {i : ℕ} {l : LockCall Phase ℤ} {record : HazelcastLockRecord} :
      s.locks i = some l → l.phase = .putting record →
      s.Admits l.config.name (setup.client i) →
      Step setup s (.put i) ((s.put l.config.name
        (some ⟨record, s.clock + l.config.lockAtMostFor, i⟩)).setPhase i l
          (.leaving (.held record)))
  | unlockPut {s : System} {i : ℕ} {l : LockCall Phase ℤ} {expected : HazelcastLockRecord}
      {rest : Option HazelcastLockRecord} :
      s.locks i = some l → l.phase = .unlockPutting expected rest →
      s.Admits l.config.name (setup.client i) →
      Step setup s (.put i) ((s.put l.config.name (rest.map fun record =>
        ⟨record, s.clock + l.config.lockAtLeastFor, i⟩)).setPhase i l (.leaving .unlocked))
  | unlocked {s : System} {i : ℕ} {l : LockCall Phase ℤ} {outcome : Outcome} :
      s.locks i = some l → l.phase = .leaving outcome →
      Step setup s (.unlocked i)
        ((s.unlock l.config.name (setup.client i)).setPhase i l (.settled outcome))
  | failed {s : System} {i : ℕ} {l : LockCall Phase ℤ} :
      s.locks i = some l → Step setup s (.failed i) (s.setPhase i l (afterError l.phase))
  | leaseEnded {s : System} {key : String} {guard : EntryLock} :
      s.entryLock key = some guard → guard.leaseEnd ≤ s.clock →
      Step setup s (.leaseEnded key) { s with entryLock := update s.entryLock key none }
  | evicted {s : System} {key : String} {entry : Entry} :
      s.entry key = some entry → entry.expires ≤ s.clock →
      Step setup s (.evicted key) (s.put key none)

def system (setup : Setup) : TransitionSystem System Event where
  Initial s := (∀ key, s.entryLock key = none) ∧ (∀ key, s.entry key = none) ∧
    ∀ i, s.locks i = none
  Step := Step setup

/-- Each put and remove is made while the key is locked and the call that makes it was the last to
lock it, and writes no record that is the one of another handle not yet unlocked. -/
def Undisturbed (s : System) : Event → Prop
  | .put i => ∀ l, s.locks i = some l →
    (∃ guard, s.entryLock l.config.name = some guard ∧ guard.last = i) ∧
    ∀ record, (l.phase = .putting record ∨
        ∃ expected, l.phase = .unlockPutting expected (some record)) →
      ∀ j a, j ≠ i → s.locks j = some a → a.config.name = l.config.name →
        a.phase.record ≠ some record
  | .tick | .called _ | .locked _ | .got _ | .unlocked _ | .failed _ | .leaseEnded _
  | .evicted _ => True

end Tslock.Hazelcast
