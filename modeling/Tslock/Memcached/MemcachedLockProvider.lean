import Mathlib.Logic.Function.Basic
import Tslock.Core.ClockProvider
import Tslock.Core.LockConfiguration
import Tslock.Foundation.JsArithmetic
import Tslock.Foundation.Runs

/-! `MemcachedLockProvider.lock` and `MemcachedLock.doUnlock` over a server that expires keys. -/
namespace Tslock.Memcached

open Function Foundation

/-- `Utils.toTtlSeconds` -/
def toTtlSeconds (ms : JsNumber) : JsNumber := (ms.divNat 1000).floor + .finite 1

inductive Command where
  | add (key value : String) (expires : JsNumber)
  | replace (key value : String) (expires : JsNumber)
  | delete (key : String)
deriving DecidableEq

structure MemcachedLock where
  key : String
  value : String
  config : LockConfiguration JsNumber
deriving DecidableEq

structure MemcachedLockProvider where
  env : String

namespace MemcachedLockProvider

/-- `options?.env ?? ENV_DEFAULT` -/
def create (env : Option String) : MemcachedLockProvider := ⟨env.getD "default"⟩

variable (provider : MemcachedLockProvider) (config : LockConfiguration JsNumber)
  (now : ClockReading) (hostname : String)

def key (name : String) : String := "shedlock:" ++ provider.env ++ ":" ++ name

/-- The handle `lock()` would return. -/
def handle : MemcachedLock where
  key := provider.key config.name
  value := "ADDED:" ++ now.toIsoString ++ "@" ++ hostname
  config := config

/-- The request `lock()` awaits. -/
def lockCommand : Command :=
  .add (provider.handle config now hostname).key (provider.handle config now hostname).value
    (toTtlSeconds config.lockAtMostFor)

/-- The rest of `lock()`, on the answer to its request. -/
def lockResult (added : Bool) : Option MemcachedLock :=
  if added then some (provider.handle config now hostname) else none

end MemcachedLockProvider

namespace MemcachedLock

variable (lock : MemcachedLock)

def keepLockFor (now : ClockReading) : JsNumber := lock.config.lockAtLeastUntil - now.toNumber

/-- The second request of `doUnlock`, after its `get`; none where another value is stored. -/
def unlockCommand (current : Option String) (now : ClockReading) : Option Command :=
  if current = some lock.value then
    if lock.keepLockFor now ≤ .finite 0 then some (.delete lock.key)
    else some (.replace lock.key lock.value (toTtlSeconds (lock.keepLockFor now)))
  else none

/-- The rest of `doUnlock`, on the answer to its second request. -/
def unlockResult (result : Bool) : Except String Unit :=
  if result then .ok () else .error ("Can not unlock " ++ lock.config.name ++ " from memcached")

end MemcachedLock

structure Entry where
  value : String
  expiry : JsNumber
deriving DecidableEq

/-- The largest number of seconds that is not taken for a Unix time. -/
def maxRelativeSeconds : ℚ := 2592000

/-- In milliseconds, the instant that a number of seconds names as a Unix time. -/
def unixTime : JsNumber → JsNumber
  | .finite seconds => .finite (1000 * seconds)
  | seconds => seconds

/-- When a value stored now expires. An infinite time never comes, and neither does `NaN`. -/
def expiry (clock : ℚ) : JsNumber → JsNumber
  | .finite seconds =>
    if seconds ≤ maxRelativeSeconds then .finite (clock + 1000 * seconds)
    else unixTime (.finite seconds)
  | seconds => unixTime seconds

structure Server where
  clock : ℚ
  entries : String → Option Entry

namespace Server

def store (s : Server) (key value : String) (expires : JsNumber) : Server :=
  { s with entries := update s.entries key (some ⟨value, expiry s.clock expires⟩) }

def drop (s : Server) (key : String) : Server := { s with entries := update s.entries key none }

/-- The answer to a command, and the server after it. -/
def execute (s : Server) : Command → Bool × Server
  | .add key value expires =>
    match s.entries key with
    | none => (true, s.store key value expires)
    | some _ => (false, s)
  | .replace key value expires =>
    match s.entries key with
    | none => (false, s)
    | some _ => (true, s.store key value expires)
  | .delete key =>
    match s.entries key with
    | none => (false, s)
    | some _ => (true, s.drop key)

inductive Event where
  | command (c : Command) (answer : Bool)
  | tick
  | expired (key : String)
deriving DecidableEq

/-- Commands come from any clients. A key is dropped only once its expiry has come. -/
inductive Step : Server → Event → Server → Prop where
  | command {s t : Server} {c : Command} {answer : Bool} :
      s.execute c = (answer, t) → Step s (.command c answer) t
  | tick {s : Server} {clock : ℚ} : s.clock ≤ clock → Step s .tick { s with clock }
  | expired {s : Server} {key : String} {entry : Entry} :
      s.entries key = some entry → entry.expiry ≤ .finite s.clock →
      Step s (.expired key) (s.drop key)

def system : TransitionSystem Server Event where
  Initial s := ∀ key, s.entries key = none
  Step := Step

/-- The command may end the hold of a key: `doUnlock` sends these. -/
def Releases (key : String) : Event → Prop
  | .command (.replace k _ _) _ | .command (.delete k) _ => k = key
  | .command (.add _ _ _) _ | .tick | .expired _ => False

/-- Unless unlocked, the key stays as it is at every time before the deadline. -/
def Kept (key : String) (deadline : JsNumber) (s : Server) : Prop :=
  ∀ es t, system.Run s es t → (∀ e ∈ es, ¬ Releases key e) → .finite t.clock < deadline →
    (s.entries key).isSome ∧ t.entries key = s.entries key

end Server

/-- The time to live is read as seconds from now. -/
def UnderThirtyDays (ms : JsNumber) : Prop := ms.divNat 1000 < .finite maxRelativeSeconds

example : toTtlSeconds (.finite 60000) = .finite 61 := by decide +kernel

end Tslock.Memcached
