import Mathlib.Data.List.Infix
import Tslock.Core.LockConfiguration
import Tslock.Foundation.RevisionLog
import Tslock.Foundation.Runs

/-! `NatsLockProvider.lock` and `NatsLock.doUnlock` over a JetStream key-value bucket, each call
split at its requests. -/
namespace Tslock.Nats

open Function Foundation

/-- The eight bytes of a buffer, read as one big-endian word. -/
abbrev Buffer := BitVec 64

/-- `writeBigInt64BE` throws a `RangeError` for a number that does not fit. -/
def longToBytes (epochMillis : ℤ) : Option Buffer :=
  if -9223372036854775808 ≤ epochMillis ∧ epochMillis < 9223372036854775808 then
    some (BitVec.ofInt 64 epochMillis)
  else none

def bytesToLong (buf : Buffer) : ℤ := buf.toInt

inductive Operation where
  | put
  | del
  | purge
deriving DecidableEq, Repr

/-- An entry of the bucket. `writer` is the acquisition whose request wrote it; no client sees
it. -/
structure KvEntry where
  operation : Option Operation
  value : Buffer
  writer : ℕ
deriving DecidableEq, Repr

def isDeletedEntry (entry : KvEntry) : Bool :=
  entry.operation ≠ none ∧ entry.operation ≠ some .put

inductive ErrorCode where
  | number (n : ℤ)
  | text (s : String)
deriving DecidableEq, Repr

/-- What the client looks at in an error. -/
structure NatsError where
  code : Option ErrorCode
  message : Option String
  apiErrCode : Option ℤ
deriving DecidableEq, Repr

def NatsError.includes (e : NatsError) (text : String) : Prop :=
  ∃ m ∈ e.message, text.toList <:+: m.toList

instance (e : NatsError) (text : String) : Decidable (e.includes text) :=
  match h : e.message with
  | none => .isFalse (by simp [NatsError.includes, h])
  | some m => decidable_of_iff (text.toList <:+: m.toList) (by simp [NatsError.includes, h])

def isNatsConflictError (e : NatsError) : Bool :=
  if e.code = some (.number 10071) ∨ e.apiErrCode = some 10071 then true
  else e.includes "stream name already in use" ∨ e.includes "wrong last sequence"

/-- How the server reports a condition that failed. -/
def NatsError.Conflict (e : NatsError) : Prop :=
  e.code = some (.number 10071) ∨ e.apiErrCode = some 10071

/-- The keys of a bucket share one revision counter. -/
structure Bucket where
  revision : ℕ
  log : String → RevisionLog KvEntry
  bounded : ∀ name, ∀ x ∈ (log name).entries, x.1 ≤ revision

namespace Bucket

def empty : Bucket := ⟨0, fun _ => .empty, fun _ _ h => by cases h⟩

/-- The next revision goes to the new entry of the key. -/
def put (b : Bucket) (name : String) (entry : KvEntry) : Bucket where
  revision := b.revision + 1
  log := update b.log name ((b.log name).push (b.revision + 1, entry) fun x hx =>
    Nat.lt_succ_of_le (b.bounded name x hx))
  bounded := by
    intro n x hx
    by_cases hn : n = name
    · subst hn
      rw [update_self, RevisionLog.mem_push] at hx
      rcases hx with rfl | hx
      · exact le_refl _
      · exact Nat.le_succ_of_le (b.bounded n x hx)
    · rw [update_of_ne hn] at hx
      exact Nat.le_succ_of_le (b.bounded n x hx)

/-- What `create` asks for. -/
def Creatable (b : Bucket) (name : String) : Prop :=
  ∀ x ∈ (b.log name).latest, isDeletedEntry x.2 = true

/-- What `update` and `delete` ask for. -/
def LatestIs (b : Bucket) (name : String) (revision : ℕ) : Prop :=
  (b.log name).latest.map Prod.fst = some revision

end Bucket

/-- Where a `lock()` call or its handle stands. `now` is the clock reading of the call, `entry` the
answer of its `get`. -/
inductive Phase where
  | reading (now : ℤ)
  | creating (now : ℤ)
  | updating (now : ℤ) (entry : ℕ × KvEntry)
  | skipped
  | rejected
  | held
  | unlockReading
  | overwriting (now : ℤ) (entry : ℕ × KvEntry)
  | deleting (now : ℤ) (entry : ℕ × KvEntry)
  | unlocked
deriving DecidableEq, Repr

/-- There is a handle, and it is not unlocked. -/
def Phase.Outstanding : Phase → Prop
  | .held | .unlockReading | .overwriting .. | .deleting .. => True
  | .reading _ | .creating _ | .updating .. | .skipped | .rejected | .unlocked => False

instance : DecidablePred Phase.Outstanding := fun phase =>
  match phase with
  | .held | .unlockReading | .overwriting .. | .deleting .. => .isTrue trivial
  | .reading _ | .creating _ | .updating .. | .skipped | .rejected | .unlocked => .isFalse not_false

structure NatsLock where
  config : LockConfiguration ℤ
  phase : Phase
deriving DecidableEq, Repr

/-- `lock()` after `kv.get`. -/
def lockAfterGet (now : ℤ) : Option (ℕ × KvEntry) → Phase
  | none => .creating now
  | some entry =>
    if isDeletedEntry entry.2 then .creating now
    else if bytesToLong entry.2.value > now then .skipped
    else .updating now entry

/-- `doUnlock()` after `kv.get`. -/
def unlockAfterGet (config : LockConfiguration ℤ) (now : ℤ) : Option (ℕ × KvEntry) → Phase
  | none => .unlocked
  | some entry =>
    if isDeletedEntry entry.2 then .unlocked
    else if bytesToLong entry.2.value ≠ config.lockAtMostUntil then .unlocked
    else if config.lockAtLeastUntil > now then .overwriting now entry
    else .deleting now entry

/-- `lock()` after an error of its write. -/
def lockAfterError (e : NatsError) : Phase := if isNatsConflictError e then .skipped else .rejected

/-- `unlock()` after an error of its write; one that rejects leaves the handle valid. -/
def unlockAfterError (e : NatsError) : Phase := if isNatsConflictError e then .unlocked else .held

structure System where
  clock : ℤ
  bucket : Bucket
  locks : ℕ → Option NatsLock

namespace System

def setLock (s : System) (i : ℕ) (l : NatsLock) : System :=
  { s with locks := update s.locks i (some l) }

def setPhase (s : System) (i : ℕ) (l : NatsLock) (phase : Phase) : System :=
  s.setLock i { l with phase }

end System

/-- The write a call waits for: what it asks of the key and what it would store. -/
inductive Pending (i : ℕ) (config : LockConfiguration ℤ) :
    Phase → (Bucket → Prop) → KvEntry → Prop where
  | create {now : ℤ} {value : Buffer} :
      longToBytes config.lockAtMostUntil = some value →
      Pending i config (.creating now) (·.Creatable config.name) ⟨some .put, value, i⟩
  | update {now : ℤ} {entry : ℕ × KvEntry} {value : Buffer} :
      longToBytes config.lockAtMostUntil = some value →
      Pending i config (.updating now entry) (·.LatestIs config.name entry.1)
        ⟨some .put, value, i⟩
  | overwrite {now : ℤ} {entry : ℕ × KvEntry} {value : Buffer} :
      longToBytes config.lockAtLeastUntil = some value →
      Pending i config (.overwriting now entry) (·.LatestIs config.name entry.1)
        ⟨some .put, value, i⟩
  | delete {now : ℤ} {entry : ℕ × KvEntry} :
      Pending i config (.deleting now entry) (·.LatestIs config.name entry.1)
        ⟨some .del, 0, i⟩

/-- The phase after a write that was applied. -/
def afterWrite : Phase → Phase
  | .creating _ | .updating .. => .held
  | .overwriting .. | .deleting .. => .unlocked
  | phase => phase

/-- The phase after a write that was answered with an error. -/
def afterError (e : NatsError) : Phase → Phase
  | .creating _ | .updating .. => lockAfterError e
  | .overwriting .. | .deleting .. => unlockAfterError e
  | phase => phase

inductive Event where
  | tick
  | called (i : ℕ)
  | got (i : ℕ)
  | applied (i : ℕ)
  | conflict (i : ℕ)
  | failed (i : ℕ)
deriving DecidableEq, Repr

/-- `get` may answer with any entry the key has had, or none. A failed condition is reported as a
conflict; any other request that fails does so before it reaches the server. -/
inductive Step : System → Event → System → Prop where
  | tick {s : System} {now : ℤ} : s.clock ≤ now → Step s .tick { s with clock := now }
  | lockCalled {s : System} {i : ℕ} {config : LockConfiguration ℤ} {value : Buffer} :
      s.locks i = none → config.createdAt ≤ s.clock →
      longToBytes config.lockAtMostUntil = some value →
      Step s (.called i) (s.setLock i ⟨config, .reading s.clock⟩)
  | lockGot {s : System} {i : ℕ} {l : NatsLock} {now : ℤ} {seen : Option (ℕ × KvEntry)} :
      s.locks i = some l → l.phase = .reading now →
      (∀ x ∈ seen, x ∈ (s.bucket.log l.config.name).entries) →
      Step s (.got i) (s.setPhase i l (lockAfterGet now seen))
  | unlockCalled {s : System} {i : ℕ} {l : NatsLock} :
      s.locks i = some l → l.phase = .held → Step s (.called i) (s.setPhase i l .unlockReading)
  | unlockGot {s : System} {i : ℕ} {l : NatsLock} {seen : Option (ℕ × KvEntry)} :
      s.locks i = some l → l.phase = .unlockReading →
      (∀ x ∈ seen, x ∈ (s.bucket.log l.config.name).entries) →
      Step s (.got i) (s.setPhase i l (unlockAfterGet l.config s.clock seen))
  | applied {s : System} {i : ℕ} {l : NatsLock} {asked : Bucket → Prop} {entry : KvEntry} :
      s.locks i = some l → Pending i l.config l.phase asked entry → asked s.bucket →
      Step s (.applied i) ({ s with bucket := s.bucket.put l.config.name entry }.setPhase i l
        (afterWrite l.phase))
  | conflict {s : System} {i : ℕ} {l : NatsLock} {asked : Bucket → Prop} {entry : KvEntry}
      {e : NatsError} :
      s.locks i = some l → Pending i l.config l.phase asked entry → ¬ asked s.bucket →
      e.Conflict → Step s (.conflict i) (s.setPhase i l (afterError e l.phase))
  | lockFails {s : System} {i : ℕ} {l : NatsLock} :
      s.locks i = some l → ¬ l.phase.Outstanding → l.phase ≠ .skipped → l.phase ≠ .unlocked →
      Step s (.failed i) (s.setPhase i l .rejected)
  | unlockFails {s : System} {i : ℕ} {l : NatsLock} :
      s.locks i = some l → l.phase.Outstanding → Step s (.failed i) (s.setPhase i l .held)

def system : TransitionSystem System Event where
  Initial s := s.bucket = .empty ∧ ∀ i, s.locks i = none
  Step := Step

theorem bytesToLong_longToBytes {n : ℤ} {value : Buffer} (h : longToBytes n = some value) :
    bytesToLong value = n := by
  unfold longToBytes at h
  split_ifs at h with hfits
  rw [← Option.some.inj h, bytesToLong, BitVec.toInt_ofInt]
  exact Int.bmod_eq_of_le (by omega) (by omega)

end Tslock.Nats
