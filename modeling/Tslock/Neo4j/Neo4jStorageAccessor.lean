import Mathlib.Algebra.Order.Ring.Rat
import Tslock.Core.LockTable
import Tslock.Foundation.Runs

/-! The transactions of `Neo4jStorageAccessor` under READ COMMITTED isolation, each split at its
statements and its commit. -/
namespace Tslock.Neo4j

open Function Foundation

/-- A lock node. `writer` is the call that has written it last; no client sees it. -/
structure Neo4jNode where
  lockUntil : ℚ
  lockedAt : ℚ
  lockedBy : String
  writer : ℕ
deriving DecidableEq, Repr

/-- The statements of the form MATCH, WHERE, SET, with what the calls bind to them. -/
inductive Cypher where
  | update (now lockedAt : ℚ)
  | unlock (unlockTime : ℚ)
  | extend (newConfig : LockConfiguration ℚ) (now : ℚ)
deriving DecidableEq, Repr

namespace Cypher

/-- What WHERE asks of the node. -/
def Matches (lockedBy : String) (config : LockConfiguration ℚ) (node : Neo4jNode) : Cypher → Prop
  | .update now _ => node.lockUntil ≤ now
  | .unlock _ => node.lockedBy = lockedBy ∧ node.lockUntil = config.lockAtMostUntil
  | .extend _ now => node.lockedBy = lockedBy ∧ node.lockUntil = config.lockAtMostUntil ∧
    now < node.lockUntil

instance (lockedBy : String) (config : LockConfiguration ℚ) (node : Neo4jNode) (c : Cypher) :
    Decidable (c.Matches lockedBy config node) := by
  cases c <;> unfold Matches <;> infer_instance

/-- What SET writes to the node. -/
def set (lockedBy : String) (config : LockConfiguration ℚ) (writer : ℕ) (node : Neo4jNode) :
    Cypher → Neo4jNode
  | .update _ lockedAt => ⟨config.lockAtMostUntil, lockedAt, lockedBy, writer⟩
  | .unlock unlockTime => { node with lockUntil := unlockTime, writer }
  | .extend newConfig _ => { node with lockUntil := newConfig.lockAtMostUntil, writer }

end Cypher

inductive Operation where
  | insertRecord
  | updateRecord
  | unlock
  | extend (newConfig : LockConfiguration ℚ)
deriving DecidableEq, Repr

/-- Where a call of `insertRecord` or `updateRecord` or its handle stands. `opening` waits for a
transaction; from `created` and `wrote` on the transaction holds its write lock. -/
inductive Phase where
  | opening (operation : Operation)
  | creating (lockedAt : ℚ)
  | created (lockedAt : ℚ)
  | probing (now : ℚ)
  | matching (cypher : Cypher)
  | setting (cypher : Cypher)
  | wrote (cypher : Cypher)
  | held
  | refused
  | rejected
  | unlocked
  | extended
deriving DecidableEq, Repr

def Cypher.operation : Cypher → Operation
  | .update .. => .updateRecord
  | .unlock _ => .unlock
  | .extend newConfig _ => .extend newConfig

/-- The operation under way. -/
def Phase.operation : Phase → Option Operation
  | .opening operation => some operation
  | .creating _ | .created _ => some .insertRecord
  | .probing _ => some .updateRecord
  | .matching cypher | .setting cypher | .wrote cypher => some cypher.operation
  | .held | .refused | .rejected | .unlocked | .extended => none

/-- A handle whose unlock or extension has not been committed. -/
def Operation.Outstanding : Operation → Prop
  | .insertRecord | .updateRecord => False
  | .unlock | .extend _ => True

def Phase.Outstanding (phase : Phase) : Prop :=
  phase = .held ∨ ∃ operation ∈ phase.operation, operation.Outstanding

instance : DecidablePred Operation.Outstanding := fun operation => by
  cases operation <;> unfold Operation.Outstanding <;> infer_instance

instance : DecidablePred Phase.Outstanding := fun phase => by
  unfold Phase.Outstanding
  infer_instance

/-- The function that `executeWrite` runs begins. -/
def Operation.begin (config : LockConfiguration ℚ) (now : ℚ) : Operation → Phase
  | .insertRecord => .creating now
  | .updateRecord => .probing now
  | .unlock => .matching (.unlock (config.unlockTime now))
  | .extend newConfig => .matching (.extend newConfig now)

/-- An operation that throws leaves a handle valid. -/
def Operation.onError : Operation → Phase
  | .insertRecord | .updateRecord => .rejected
  | .unlock | .extend _ => .held

/-- The constraint rejects a second node of the name. -/
def afterCreate (lockedAt : ℚ) : Option Neo4jNode → Phase
  | none => .created lockedAt
  | some _ => .refused

/-- `updateRecord` after the probe. -/
def afterProbe (now lockedAt : ℚ) : Option Neo4jNode → Phase
  | none => .rejected
  | some node => if node.lockUntil ≤ now then .matching (.update now lockedAt) else .refused

/-- A statement that has not found its node: `updateRecord` throws, `unlock` has nothing to do and
`extend` returns false. -/
def Cypher.unmatched : Cypher → Phase
  | .update .. => .rejected
  | .unlock _ => .unlocked
  | .extend .. => .held

/-- MATCH and WHERE read what has been committed. -/
def afterMatch (lockedBy : String) (config : LockConfiguration ℚ) (cypher : Cypher)
    (node : Option Neo4jNode) : Phase :=
  if ∃ found ∈ node, cypher.Matches lockedBy config found then .setting cypher
  else cypher.unmatched

structure System where
  clock : ℚ
  node : String → Option Neo4jNode
  locks : LockTable Phase ℚ

namespace System

def setPhase (s : System) (i : ℕ) (l : LockCall Phase ℚ) (phase : Phase) : System :=
  { s with locks := s.locks.setPhase i l phase }

def write (s : System) (name : String) (node : Neo4jNode) : System :=
  { s with node := update s.node name (some node) }

/-- A transaction that has created a node of the name holds the lock of the constraint. -/
def EntryLocked (s : System) (name : String) : Prop :=
  ∃ i l lockedAt, s.locks i = some l ∧ l.config.name = name ∧ l.phase = .created lockedAt

/-- A transaction that has written the node holds its write lock. -/
def WriteLocked (s : System) (name : String) : Prop :=
  ∃ i l cypher, s.locks i = some l ∧ l.config.name = name ∧ l.phase = .wrote cypher

end System

inductive Event where
  | tick
  | called (i : ℕ) (operation : Operation)
  | began (i : ℕ) (now : ℚ)
  | created (i : ℕ)
  | probed (i : ℕ) (now : ℚ)
  | matched (i : ℕ)
  | set (i : ℕ)
  | committed (i : ℕ)
  | retried (i : ℕ)
  | failed (i : ℕ)
deriving DecidableEq, Repr

/-- `lockedBy` is the `lockedByValue` of the accessor of each call. Readings of its clock stand in
the labels. -/
inductive Step (lockedBy : ℕ → String) : System → Event → System → Prop where
  | tick {s : System} {now : ℚ} : s.clock ≤ now → Step lockedBy s .tick { s with clock := now }
  | lockCalled {s : System} {i : ℕ} {config : LockConfiguration ℚ} {operation : Operation} :
      s.locks i = none → operation = .insertRecord ∨ operation = .updateRecord →
      Step lockedBy s (.called i operation) { s with
        locks := update s.locks i (some ⟨config, .opening operation⟩) }
  | handleCalled {s : System} {i : ℕ} {l : LockCall Phase ℚ} {operation : Operation} :
      s.locks i = some l → l.phase = .held →
      operation = .unlock ∨ (∃ most least createdAt : ℚ,
        operation = .extend (l.config.successor most least createdAt)) →
      Step lockedBy s (.called i operation) (s.setPhase i l (.opening operation))
  | began {s : System} {i : ℕ} {l : LockCall Phase ℚ} {operation : Operation} {now : ℚ} :
      s.locks i = some l → l.phase = .opening operation →
      Step lockedBy s (.began i now) (s.setPhase i l (operation.begin l.config now))
  | created {s : System} {i : ℕ} {l : LockCall Phase ℚ} {lockedAt : ℚ} :
      s.locks i = some l → l.phase = .creating lockedAt → ¬ s.EntryLocked l.config.name →
      Step lockedBy s (.created i) (s.setPhase i l (afterCreate lockedAt (s.node l.config.name)))
  | probed {s : System} {i : ℕ} {l : LockCall Phase ℚ} {now lockedAt : ℚ} :
      s.locks i = some l → l.phase = .probing now →
      Step lockedBy s (.probed i lockedAt)
        (s.setPhase i l (afterProbe now lockedAt (s.node l.config.name)))
  | matched {s : System} {i : ℕ} {l : LockCall Phase ℚ} {cypher : Cypher} :
      s.locks i = some l → l.phase = .matching cypher →
      Step lockedBy s (.matched i)
        (s.setPhase i l (afterMatch (lockedBy i) l.config cypher (s.node l.config.name)))
  | set {s : System} {i : ℕ} {l : LockCall Phase ℚ} {cypher : Cypher} :
      s.locks i = some l → l.phase = .setting cypher → ¬ s.WriteLocked l.config.name →
      Step lockedBy s (.set i) (s.setPhase i l (.wrote cypher))
  | insertCommitted {s : System} {i : ℕ} {l : LockCall Phase ℚ} {lockedAt : ℚ} :
      s.locks i = some l → l.phase = .created lockedAt →
      Step lockedBy s (.committed i) ((s.write l.config.name
        ⟨l.config.lockAtMostUntil, lockedAt, lockedBy i, i⟩).setPhase i l .held)
  | updateCommitted {s : System} {i : ℕ} {l : LockCall Phase ℚ} {node : Neo4jNode}
      {now lockedAt : ℚ} :
      s.locks i = some l → l.phase = .wrote (.update now lockedAt) →
      s.node l.config.name = some node →
      Step lockedBy s (.committed i) ((s.write l.config.name
        ((Cypher.update now lockedAt).set (lockedBy i) l.config i node)).setPhase i l .held)
  | unlockCommitted {s : System} {i : ℕ} {l : LockCall Phase ℚ} {node : Neo4jNode}
      {unlockTime : ℚ} :
      s.locks i = some l → l.phase = .wrote (.unlock unlockTime) →
      s.node l.config.name = some node →
      Step lockedBy s (.committed i) ((s.write l.config.name
        ((Cypher.unlock unlockTime).set (lockedBy i) l.config i node)).setPhase i l .unlocked)
  | extendCommitted {s : System} {i j : ℕ} {l : LockCall Phase ℚ} {node : Neo4jNode}
      {newConfig : LockConfiguration ℚ} {now : ℚ} :
      s.locks i = some l → l.phase = .wrote (.extend newConfig now) →
      s.node l.config.name = some node → s.locks j = none → lockedBy j = lockedBy i →
      Step lockedBy s (.committed i) { s.write l.config.name
          ((Cypher.extend newConfig now).set (lockedBy i) l.config j node) with
        locks := update (s.locks.setPhase i l .extended) j (some ⟨newConfig, .held⟩) }
  | retried {s : System} {i : ℕ} {l : LockCall Phase ℚ} {operation : Operation} :
      s.locks i = some l → l.phase.operation = some operation →
      Step lockedBy s (.retried i) (s.setPhase i l (.opening operation))
  | failed {s : System} {i : ℕ} {l : LockCall Phase ℚ} {operation : Operation} :
      s.locks i = some l → l.phase.operation = some operation →
      Step lockedBy s (.failed i) (s.setPhase i l operation.onError)

/-- A database that may hold nodes of earlier runs. -/
def system (lockedBy : ℕ → String) : TransitionSystem System Event where
  Initial s := ∀ i, s.locks i = none
  Step := Step lockedBy

/-- When SET takes the write lock, WHERE still holds of what has been committed. -/
def Rechecked (lockedBy : ℕ → String) (s : System) : Event → Prop
  | .set i => ∀ l cypher, s.locks i = some l → l.phase = .setting cypher →
    ∃ node, s.node l.config.name = some node ∧ cypher.Matches (lockedBy i) l.config node
  | .tick | .called .. | .began .. | .created _ | .probed .. | .matched _ | .committed _
  | .retried _ | .failed _ => True

/-- The clocks of the accessors show the one time. -/
def OnTime (s : System) : Event → Prop
  | .began _ now | .probed _ now => now = s.clock
  | .tick | .called .. | .created _ | .matched _ | .set _ | .committed _ | .retried _
  | .failed _ => True

end Tslock.Neo4j
