import Tslock.Core.LockTable
import Tslock.Foundation.JsDate
import Tslock.Foundation.RevisionLog

/-! `ZooKeeperAccessor.lock` and `unlock` over the nodes below one base path, each call split at its
requests. -/
namespace Tslock.ZooKeeper

open Function Foundation

/-- What the client looks at in an error; only an `Error` has a message. -/
structure ZooKeeperError where
  code : Option ℤ
  message : Option String
deriving DecidableEq, Repr

/-- `\s` of a regular expression. -/
def isSpace (c : Char) : Bool :=
  c ∈ [' ', '\t', '\n', '\r', '\x0b', '\x0c', '\u00a0', '\u1680', '\u2028', '\u2029', '\u202f',
    '\u205f', '\u3000', '\ufeff'] ∨ ('\u2000' ≤ c ∧ c ≤ '\u200a')

def matchesResultCode (e : ZooKeeperError) (code : ℤ) : Bool :=
  if e.code = some code then true
  else match e.message with
    | none => false
    | some message => message.toList.takeWhile (!isSpace ·) = (toString code).toList

def isNoNodeException (e : ZooKeeperError) : Bool := matchesResultCode e (-101)

def isBadVersionException (e : ZooKeeperError) : Bool := matchesResultCode e (-103)

def isNodeExistsException (e : ZooKeeperError) : Bool := matchesResultCode e (-110)

/-- The error carries this result code and no other. -/
def ZooKeeperError.Reports (e : ZooKeeperError) (code : ℤ) : Prop :=
  ∀ other, matchesResultCode e other = true ↔ other = code

/-- The data of a node. `writer` is the call whose request wrote it; no client sees it. -/
structure NodeData where
  data : String
  writer : ℕ
deriving DecidableEq, Repr

/-- What a `lock()` call works with; it belongs to an accessor. -/
structure LockRequest where
  accessor : ℕ
  now : ℤ
  isoLockAtMostUntil : String
deriving DecidableEq, Repr

/-- Where a `lock()` call or its handle stands. A node that was read comes with its version. -/
inductive Phase where
  | reading (r : LockRequest)
  | setting (r : LockRequest) (node : ℕ × NodeData)
  | ensuring (r : LockRequest)
  | creating (r : LockRequest)
  | skipped
  | rejected
  | held
  | unlockReading (expected isoUnlock : String)
  | unlockSetting (isoUnlock : String) (node : ℕ × NodeData)
  | unlocked
deriving DecidableEq, Repr

/-- There is a handle, and it is not unlocked. -/
def Phase.Outstanding : Phase → Prop
  | .held | .unlockReading .. | .unlockSetting .. => True
  | .reading _ | .setting .. | .ensuring _ | .creating _ | .skipped | .rejected | .unlocked => False

instance : DecidablePred Phase.Outstanding := fun phase =>
  match phase with
  | .held | .unlockReading .. | .unlockSetting .. => .isTrue trivial
  | .reading _ | .setting .. | .ensuring _ | .creating _ | .skipped | .rejected | .unlocked =>
    .isFalse not_false

/-- The name of the node above the one of a lock; there is none if it is the base path. -/
def parent (name : String) : Option String :=
  if '/' ∈ name.toList then
    some (String.ofList ((name.toList.reverse.dropWhile (· ≠ '/')).drop 1).reverse)
  else none

/-- The requests that write a node. -/
inductive Request where
  | set (version : ℕ)
  | create
deriving DecidableEq, Repr

/-- The result code with which the server refuses a request, if it does. A node is created only
below one that is there. -/
def Request.refusal (parentThere : Bool) (latest : Option (ℕ × NodeData)) : Request → Option ℤ
  | .set version =>
    match latest with
    | none => some (-101)
    | some node => if node.1 = version then none else some (-103)
  | .create =>
    if !parentThere then some (-101) else match latest with
      | none => none
      | some _ => some (-110)

/-- The write a call waits for. -/
def Phase.write (i : ℕ) : Phase → Option (Request × NodeData)
  | .setting r node => some (.set node.1, ⟨r.isoLockAtMostUntil, i⟩)
  | .creating r => some (.create, ⟨r.isoLockAtMostUntil, i⟩)
  | .unlockSetting isoUnlock node => some (.set node.1, ⟨isoUnlock, i⟩)
  | .reading _ | .ensuring _ | .skipped | .rejected | .held | .unlockReading .. | .unlocked => none

/-- `lock()` after `client.get`; a date that cannot be parsed is not later than `now`. -/
def lockAfterGet (r : LockRequest) (node : ℕ × NodeData) : Phase :=
  match JsDate.parse node.2.data with
  | some existingLockUntil => if existingLockUntil > r.now then .skipped else .setting r node
  | none => .setting r node

/-- `ensureBasePath()` has nothing to do once it has succeeded. -/
def ensureBasePath (basePathEnsured : Bool) (r : LockRequest) : Phase :=
  if basePathEnsured then .creating r else .ensuring r

/-- The outer `catch` of `lock()`. -/
def lockAfterError (basePathEnsured : Bool) (r : LockRequest) (e : ZooKeeperError) : Phase :=
  if isNoNodeException e then ensureBasePath basePathEnsured r
  else if isBadVersionException e then .skipped
  else .rejected

/-- The inner `catch` of `lock()`. -/
def lockAfterCreateError (e : ZooKeeperError) : Phase :=
  if isNodeExistsException e then .skipped else .rejected

/-- `unlock()` after `client.get`. -/
def unlockAfterGet (expected isoUnlock : String) (node : ℕ × NodeData) : Phase :=
  if node.2.data ≠ expected then .unlocked else .unlockSetting isoUnlock node

/-- The `catch` of `unlock()`; a handle whose `unlock()` rejects stays valid. -/
def unlockAfterError (e : ZooKeeperError) : Phase :=
  if isNoNodeException e || isBadVersionException e then .unlocked else .held

structure System where
  clock : ℤ
  basePath : Bool
  node : String → RevisionLog NodeData
  basePathEnsured : ℕ → Bool
  locks : LockTable Phase ℤ

/-- The phase after a request that was answered with an error. -/
def afterError (basePathEnsured : ℕ → Bool) (e : ZooKeeperError) : Phase → Phase
  | .reading r | .setting r _ => lockAfterError (basePathEnsured r.accessor) r e
  | .creating _ => lockAfterCreateError e
  | .unlockReading .. | .unlockSetting .. => unlockAfterError e
  | .ensuring _ => .rejected
  | .skipped => .skipped
  | .rejected => .rejected
  | .held => .held
  | .unlocked => .unlocked

/-- The phase after a write that was applied. -/
def afterWrite : Phase → Phase
  | .setting .. | .creating _ => .held
  | .unlockSetting .. => .unlocked
  | phase => phase

/-- The call waits for the answer of `client.get`. -/
def Phase.Reading : Phase → Prop
  | .reading _ | .unlockReading .. => True
  | .setting .. | .ensuring _ | .creating _ | .skipped | .rejected | .held | .unlockSetting ..
  | .unlocked => False

namespace System

def setPhase (s : System) (i : ℕ) (l : LockCall Phase ℤ) (phase : Phase) : System :=
  { s with locks := s.locks.setPhase i l phase }

def latest (s : System) (name : String) : Option (ℕ × NodeData) := (s.node name).latest

/-- A name with a slash has its node below that of another name. -/
def parentThere (s : System) (name : String) : Bool :=
  match parent name with
  | none => s.basePath
  | some above => (s.latest above).isSome

/-- A node has version 0 when it is created and one more after each set. -/
def write (s : System) (name : String) (data : NodeData) : System :=
  { s with node := update s.node name ((s.node name).append data) }

end System

inductive Event where
  | tick
  | called (i : ℕ)
  | got (i : ℕ)
  | ensured (i : ℕ)
  | applied (i : ℕ)
  | refused (i : ℕ) (code : ℤ)
  | failed (i : ℕ)
deriving DecidableEq, Repr

/-- `get` may answer with any version the node has had, or know of none. A request that fails
otherwise, as one with a path that is no path does, fails before it reaches the server. -/
inductive Step : System → Event → System → Prop where
  | tick {s : System} {now : ℤ} : s.clock ≤ now → Step s .tick { s with clock := now }
  | lockCalled {s : System} {i accessor : ℕ} {config : LockConfiguration ℤ} {iso : String} :
      s.locks i = none → config.createdAt ≤ s.clock →
      JsDate.toIsoString config.lockAtMostUntil = some iso →
      Step s (.called i) { s with
        locks := update s.locks i (some ⟨config, .reading ⟨accessor, s.clock, iso⟩⟩) }
  | lockGot {s : System} {i : ℕ} {l : LockCall Phase ℤ} {r : LockRequest} {x : ℕ × NodeData} :
      s.locks i = some l → l.phase = .reading r → x ∈ (s.node l.config.name).entries →
      Step s (.got i) (s.setPhase i l (lockAfterGet r x))
  | unlockCalled {s : System} {i : ℕ} {l : LockCall Phase ℤ} {expected isoUnlock : String} :
      s.locks i = some l → l.phase = .held →
      JsDate.toIsoString l.config.lockAtMostUntil = some expected →
      JsDate.toIsoString (l.config.unlockTime s.clock) = some isoUnlock →
      Step s (.called i) (s.setPhase i l (.unlockReading expected isoUnlock))
  | unlockGot {s : System} {i : ℕ} {l : LockCall Phase ℤ} {expected isoUnlock : String}
      {x : ℕ × NodeData} :
      s.locks i = some l → l.phase = .unlockReading expected isoUnlock →
      x ∈ (s.node l.config.name).entries →
      Step s (.got i) (s.setPhase i l (unlockAfterGet expected isoUnlock x))
  | gotNoNode {s : System} {i : ℕ} {l : LockCall Phase ℤ} {e : ZooKeeperError} :
      s.locks i = some l → l.phase.Reading → e.Reports (-101) →
      Step s (.refused i (-101)) (s.setPhase i l (afterError s.basePathEnsured e l.phase))
  | ensured {s : System} {i : ℕ} {l : LockCall Phase ℤ} {r : LockRequest} :
      s.locks i = some l → l.phase = .ensuring r →
      Step s (.ensured i) ({ s with
        basePath := true
        basePathEnsured := update s.basePathEnsured r.accessor true }.setPhase i l (.creating r))
  | applied {s : System} {i : ℕ} {l : LockCall Phase ℤ} {q : Request} {x : NodeData} :
      s.locks i = some l → l.phase.write i = some (q, x) →
      q.refusal (s.parentThere l.config.name) (s.latest l.config.name) = none →
      Step s (.applied i) ((s.write l.config.name x).setPhase i l (afterWrite l.phase))
  | refused {s : System} {i : ℕ} {l : LockCall Phase ℤ} {q : Request} {x : NodeData} {code : ℤ}
      {e : ZooKeeperError} :
      s.locks i = some l → l.phase.write i = some (q, x) →
      q.refusal (s.parentThere l.config.name) (s.latest l.config.name) = some code →
      e.Reports code →
      Step s (.refused i code) (s.setPhase i l (afterError s.basePathEnsured e l.phase))
  | lockFails {s : System} {i : ℕ} {l : LockCall Phase ℤ} :
      s.locks i = some l → ¬ l.phase.Outstanding → l.phase ≠ .skipped → l.phase ≠ .unlocked →
      Step s (.failed i) (s.setPhase i l .rejected)
  | unlockFails {s : System} {i : ℕ} {l : LockCall Phase ℤ} :
      s.locks i = some l → l.phase.Outstanding → Step s (.failed i) (s.setPhase i l .held)

/-- Neither a node nor the base path is there. -/
def system : TransitionSystem System Event where
  Initial s := s.basePath = false ∧ (∀ name, s.node name = .empty) ∧
    (∀ accessor, s.basePathEnsured accessor = false) ∧ ∀ i, s.locks i = none
  Step := Step

end Tslock.ZooKeeper
