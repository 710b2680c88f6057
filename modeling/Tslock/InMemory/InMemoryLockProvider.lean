import Mathlib.Data.Nat.Notation
import Mathlib.Logic.Function.Basic
import Mathlib.Order.Lattice
import Tslock.Core.LockConfiguration

/-! `InMemoryLockProvider` and `InMemoryLock`, and the lease store they stand for. Both serve the
same calls; a call runs without an `await` between its reads and its writes. -/
namespace Tslock.InMemory

open Function

variable {τ : Type*}

inductive Call (τ : Type*) where
  | advance (time : τ)
  | lock (config : LockConfiguration τ)
  | unlock (handle : ℕ)
  | extend (handle : ℕ) (lockAtMostFor lockAtLeastFor : τ)
  | isLocked (name : String)
deriving DecidableEq, Repr

/-- What `createLockConfig` checks, also of the durations of an extension. -/
def Call.DurationsValid [Zero τ] [LE τ] : Call τ → Prop
  | .lock config => config.DurationsValid
  | .extend _ lockAtMostFor lockAtLeastFor =>
    0 ≤ lockAtLeastFor ∧ lockAtLeastFor ≤ lockAtMostFor
  | _ => True

inductive Reply where
  | done
  | handle (i : ℕ)
  | undefined
  | returned (b : Bool)
  | threw (message : String)
deriving DecidableEq, Repr

structure Handle (τ : Type*) where
  config : LockConfiguration τ
  valid : Bool
deriving DecidableEq, Repr

/-- The clock and the handles returned so far. -/
structure Session (τ : Type*) where
  clock : τ
  handles : ℕ → Option (Handle τ)
  next : ℕ

namespace Session

def start (clock : τ) : Session τ := ⟨clock, fun _ => none, 0⟩

/-- Time does not go back. -/
def advance [Max τ] (s : Session τ) (time : τ) : Session τ := { s with clock := max s.clock time }

/-- `new InMemoryLock(this, config)` -/
def newHandle (s : Session τ) (config : LockConfiguration τ) : Session τ :=
  { s with handles := update s.handles s.next (some ⟨config, true⟩), next := s.next + 1 }

/-- `this.valid = false` -/
def invalidate (s : Session τ) (i : ℕ) : Session τ :=
  { s with handles := update s.handles i ((s.handles i).map fun h => { h with valid := false }) }

/-- `checkValidity`; there is no such call on a handle that was never returned. -/
def checkValidity (s : Session τ) (i : ℕ) : Except Reply (LockConfiguration τ) :=
  match s.handles i with
  | none => .error .undefined
  | some h =>
    if h.valid then .ok h.config
    else .error (.threw "Lock has already been released or extended")

end Session

/-- The name a call is about. -/
def Call.name? (s : Session τ) : Call τ → Option String
  | .advance _ => none
  | .lock config => some config.name
  | .unlock i | .extend i _ _ => (s.handles i).map fun h => h.config.name
  | .isLocked name => some name

/-- A provider in its session. -/
structure InMemoryLockProvider (τ : Type*) where
  session : Session τ
  locks : String → Option τ

namespace InMemoryLockProvider

variable [LinearOrder τ]

def create (clock : τ) : InMemoryLockProvider τ := ⟨.start clock, fun _ => none⟩

def set (p : InMemoryLockProvider τ) (name : String) (deadline : τ) : InMemoryLockProvider τ :=
  { p with locks := update p.locks name (some deadline) }

/-- An expired entry is deleted by the way. -/
def isLocked (p : InMemoryLockProvider τ) (name : String) : InMemoryLockProvider τ × Bool :=
  match p.locks name with
  | none => (p, false)
  | some deadline =>
    if deadline ≤ p.session.clock then ({ p with locks := update p.locks name none }, false)
    else (p, true)

def lock [Add τ] (p : InMemoryLockProvider τ) (config : LockConfiguration τ) :
    InMemoryLockProvider τ × Reply :=
  match p.isLocked config.name with
  | (p, true) => (p, .undefined)
  | (p, false) =>
    ({ p.set config.name config.lockAtMostUntil with session := p.session.newHandle config },
      .handle p.session.next)

/-- `InMemoryLock.doUnlock` -/
def doUnlock [Add τ] (p : InMemoryLockProvider τ) (config : LockConfiguration τ) :
    InMemoryLockProvider τ :=
  if p.locks config.name = some config.lockAtMostUntil then
    p.set config.name config.lockAtLeastUntil
  else p

/-- `InMemoryLock.doExtend` -/
def doExtend [Add τ] (p : InMemoryLockProvider τ) (config newConfig : LockConfiguration τ) :
    InMemoryLockProvider τ × Bool :=
  if p.locks config.name = some config.lockAtMostUntil ∧ p.session.clock < config.lockAtMostUntil
  then (p.set config.name newConfig.lockAtMostUntil, true)
  else (p, false)

def serve [Add τ] (p : InMemoryLockProvider τ) : Call τ → InMemoryLockProvider τ × Reply
  | .advance time => ({ p with session := p.session.advance time }, .done)
  | .lock config => p.lock config
  | .unlock i =>
    match p.session.checkValidity i with
    | .error reply => (p, reply)
    | .ok config => ({ p.doUnlock config with session := p.session.invalidate i }, .done)
  | .extend i lockAtMostFor lockAtLeastFor =>
    match p.session.checkValidity i with
    | .error reply => (p, reply)
    | .ok config =>
      let newConfig := config.successor lockAtMostFor lockAtLeastFor p.session.clock
      match p.doExtend config newConfig with
      | (p, true) =>
        ({ p with session := (p.session.invalidate i).newHandle newConfig },
          .handle p.session.next)
      | (p, false) => (p, .undefined)
  | .isLocked name =>
    match p.isLocked name with
    | (p, b) => (p, .returned b)

end InMemoryLockProvider

/-- The store the provider stands for: each name has an optional owner and an end time. -/
structure LeaseSpec (τ : Type*) where
  session : Session τ
  owner : String → Option ℕ
  endTime : String → Option τ

namespace LeaseSpec

variable [LinearOrder τ]

def create (clock : τ) : LeaseSpec τ := ⟨.start clock, fun _ => none, fun _ => none⟩

/-- The end time is later than now. -/
def Leased (a : LeaseSpec τ) (name : String) : Prop :=
  ∃ t, a.endTime name = some t ∧ a.session.clock < t

instance (a : LeaseSpec τ) (name : String) : Decidable (a.Leased name) :=
  match h : a.endTime name with
  | none => isFalse (by simp [Leased, h])
  | some t => decidable_of_iff (a.session.clock < t) (by simp [Leased, h])

def assign (a : LeaseSpec τ) (name : String) (owner : Option ℕ) (t : τ) : LeaseSpec τ :=
  { a with owner := update a.owner name owner, endTime := update a.endTime name (some t) }

def serve [Add τ] (a : LeaseSpec τ) : Call τ → LeaseSpec τ × Reply
  | .advance time => ({ a with session := a.session.advance time }, .done)
  | .lock config =>
    if a.Leased config.name then (a, .undefined)
    else
      ({ a.assign config.name (some a.session.next) config.lockAtMostUntil with
          session := a.session.newHandle config },
        .handle a.session.next)
  | .unlock i =>
    match a.session.checkValidity i with
    | .error reply => (a, reply)
    | .ok config =>
      ({ (if a.owner config.name = some i then
            a.assign config.name none config.lockAtLeastUntil else a) with
          session := a.session.invalidate i }, .done)
  | .extend i lockAtMostFor lockAtLeastFor =>
    match a.session.checkValidity i with
    | .error reply => (a, reply)
    | .ok config =>
      let newConfig := config.successor lockAtMostFor lockAtLeastFor a.session.clock
      if a.owner config.name = some i ∧ a.Leased config.name then
        ({ a.assign config.name (some a.session.next) newConfig.lockAtMostUntil with
            session := (a.session.invalidate i).newHandle newConfig },
          .handle a.session.next)
      else (a, .undefined)
  | .isLocked name => (a, .returned (decide (a.Leased name)))

end LeaseSpec

/-- The replies to a sequence of calls. -/
def replies {σ : Type*} (serve : σ → Call τ → σ × Reply) : σ → List (Call τ) → List Reply
  | _, [] => []
  | s, call :: calls => (serve s call).2 :: replies serve (serve s call).1 calls

end Tslock.InMemory
