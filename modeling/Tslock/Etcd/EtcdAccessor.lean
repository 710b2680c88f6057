import Tslock.Core.LockTable
import Tslock.Core.Utils
import Tslock.Foundation.LeaseStore

/-! `EtcdAccessor.lock` and `unlock` over a store with leases, each call split at its requests. -/
namespace Tslock.Etcd

open Function Foundation

/-- A lease: which call it was granted to, for which lock, and when its time to live is over. -/
structure LeaseGrant where
  owner : ℕ
  name : String
  ttlEnd : ℚ
deriving DecidableEq, Repr

/-- The environment of the accessors, and the host each call is made on. -/
structure Setup where
  env : String
  hostname : ℕ → String

def Setup.key (setup : Setup) (name : String) : String := "shedlock:" ++ setup.env ++ ":" ++ name

/-- `toISOString` throws for an instant that is not a date. -/
def addedValue (hostname : String) (now : ℚ) : Option String :=
  (Utils.toIsoString now).map fun iso => "ADDED:" ++ iso ++ "@" ++ hostname

/-- Where `unlock()` stands on a handle: between calls, or before the request named. -/
inductive UnlockStage where
  | valid
  | granting (value : String) (ttlSeconds : ℤ)
  | committing (value : String) (newLease : ℕ)
  | failing (newLease : ℕ)
  | dropping (newLease : ℕ)
  | revoking
deriving DecidableEq, Repr

/-- Where a `lock()` call or its handle stands. A handle has `released` its key once a transaction
of `unlock()` has succeeded. -/
inductive Phase where
  | granting (value : String)
  | committing (value : String) (lease : ℕ)
  | losing (lease : ℕ)
  | failing (lease : ℕ)
  | skipped
  | rejected
  | handle (lease : ℕ) (released : Bool) (stage : UnlockStage)
  | unlocked
deriving DecidableEq, Repr

/-- There is a handle, and no `unlock()` has taken effect. -/
def Phase.Outstanding : Phase → Prop
  | .handle _ released _ => released = false
  | .granting _ | .committing .. | .losing _ | .failing _ | .skipped | .rejected | .unlocked =>
    False

instance : DecidablePred Phase.Outstanding := fun phase =>
  match phase with
  | .handle _ released _ => inferInstanceAs (Decidable (released = false))
  | .granting _ | .committing .. | .losing _ | .failing _ | .skipped | .rejected | .unlocked =>
    .isFalse not_false

/-- What `unlock()` decides before its first request, `none` where it throws. -/
def unlockStage (hostname : String) (config : LockConfiguration ℚ) (now : ℚ) :
    Option UnlockStage :=
  if config.lockAtLeastFor ≤ 0 then some .revoking
  else
    let remainingMs := config.createdAt + config.lockAtLeastFor - now
    if remainingMs ≤ 0 then some .revoking
    else (addedValue hostname now).map fun value =>
      .granting value (Utils.toTtlSeconds remainingMs)

/-- The lease a call waits to be revoked. -/
def Phase.revokes : Phase → Option ℕ
  | .losing lease | .failing lease => some lease
  | .handle _ _ (.failing newLease) | .handle _ _ (.dropping newLease) => some newLease
  | .handle lease _ .revoking => some lease
  | .handle _ _ .valid | .handle _ _ (.granting ..) | .handle _ _ (.committing ..) => none
  | .granting _ | .committing .. | .skipped | .rejected | .unlocked => none

/-- The phase after `lease.revoke()`. -/
def afterRevoke : Phase → Phase
  | .losing _ => .skipped
  | .failing _ => .rejected
  | .handle lease released (.dropping _) => .handle lease released .revoking
  | .handle _ _ .revoking => .unlocked
  | .handle lease released _ => .handle lease released .valid
  | phase => phase

/-- The phase after a request that failed; a handle whose `unlock()` rejects stays valid. -/
def afterError : Phase → Phase
  | .granting _ | .failing _ => .rejected
  | .committing _ lease | .losing lease => .failing lease
  | .handle lease released (.committing _ newLease) => .handle lease released (.failing newLease)
  | .handle lease released _ => .handle lease released .valid
  | phase => phase

structure System where
  clock : ℚ
  store : LeaseStore String String LeaseGrant
  locks : LockTable Phase ℚ

def System.setPhase (s : System) (i : ℕ) (l : LockCall Phase ℚ) (phase : Phase) : System :=
  { s with locks := s.locks.setPhase i l phase }

inductive Event where
  | tick
  | called (i : ℕ)
  | granted (i : ℕ)
  | committed (i : ℕ) (succeeded : Bool)
  | revoked (i : ℕ)
  | failed (i : ℕ)
  | expired (lease : ℕ)
deriving DecidableEq, Repr

/-- The time to live of a lease starts no earlier than its grant. A request fails where it is about
a lease that has ended, or before it reaches the server. -/
inductive Step (setup : Setup) : System → Event → System → Prop where
  | tick {s : System} {now : ℚ} : s.clock ≤ now → Step setup s .tick { s with clock := now }
  | lockCalled {s : System} {i : ℕ} {config : LockConfiguration ℚ} {value : String} :
      s.locks i = none → config.createdAt ≤ s.clock →
      addedValue (setup.hostname i) s.clock = some value →
      Step setup s (.called i) { s with
        locks := update s.locks i (some ⟨config, .granting value⟩) }
  | lockGranted {s : System} {i lease : ℕ} {l : LockCall Phase ℚ} {value : String} {ttlEnd : ℚ} :
      s.locks i = some l → l.phase = .granting value → s.store.granted lease = none →
      s.clock + 1000 * Utils.toTtlSeconds l.config.lockAtMostFor ≤ ttlEnd →
      Step setup s (.granted i)
        ({ s with store := s.store.grant lease ⟨i, l.config.name, ttlEnd⟩ }.setPhase i l
          (.committing value lease))
  | lockCommitted {s : System} {i lease : ℕ} {l : LockCall Phase ℚ} {value : String}
      (hlive : s.store.live lease = true) :
      s.locks i = some l → l.phase = .committing value lease →
      s.store.kv (setup.key l.config.name) = none →
      Step setup s (.committed i true)
        ({ s with store := s.store.put (setup.key l.config.name) value lease hlive }.setPhase i l
          (.handle lease false .valid))
  | lockLost {s : System} {i lease : ℕ} {l : LockCall Phase ℚ} {value : String} :
      s.locks i = some l → l.phase = .committing value lease →
      s.store.kv (setup.key l.config.name) ≠ none →
      Step setup s (.committed i false) (s.setPhase i l (.losing lease))
  | unlockCalled {s : System} {i lease : ℕ} {l : LockCall Phase ℚ} {released : Bool}
      {stage : UnlockStage} :
      s.locks i = some l → l.phase = .handle lease released .valid →
      unlockStage (setup.hostname i) l.config s.clock = some stage →
      Step setup s (.called i) (s.setPhase i l (.handle lease released stage))
  | unlockGranted {s : System} {i lease newLease : ℕ} {l : LockCall Phase ℚ} {released : Bool}
      {value : String} {ttlSeconds : ℤ} {ttlEnd : ℚ} :
      s.locks i = some l → l.phase = .handle lease released (.granting value ttlSeconds) →
      s.store.granted newLease = none → s.clock + 1000 * ttlSeconds ≤ ttlEnd →
      Step setup s (.granted i)
        ({ s with store := s.store.grant newLease ⟨i, l.config.name, ttlEnd⟩ }.setPhase i l
          (.handle lease released (.committing value newLease)))
  | unlockCommitted {s : System} {i lease newLease : ℕ} {l : LockCall Phase ℚ} {released : Bool}
      {value : String} (hlive : s.store.live newLease = true) :
      s.locks i = some l → l.phase = .handle lease released (.committing value newLease) →
      s.store.Attached (setup.key l.config.name) lease →
      Step setup s (.committed i true)
        ({ s with store := s.store.put (setup.key l.config.name) value newLease hlive }.setPhase i l
          (.handle lease true .revoking))
  | unlockLost {s : System} {i lease newLease : ℕ} {l : LockCall Phase ℚ} {released : Bool}
      {value : String} :
      s.locks i = some l → l.phase = .handle lease released (.committing value newLease) →
      ¬ s.store.Attached (setup.key l.config.name) lease →
      Step setup s (.committed i false)
        (s.setPhase i l (.handle lease released (.dropping newLease)))
  | revoked {s : System} {i lease : ℕ} {l : LockCall Phase ℚ} :
      s.locks i = some l → l.phase.revokes = some lease → s.store.live lease = true →
      Step setup s (.revoked i)
        ({ s with store := s.store.revoke lease }.setPhase i l (afterRevoke l.phase))
  | failed {s : System} {i : ℕ} {l : LockCall Phase ℚ} :
      s.locks i = some l → Step setup s (.failed i) (s.setPhase i l (afterError l.phase))
  | expired {s : System} {lease : ℕ} {grant : LeaseGrant} :
      s.store.live lease = true → s.store.granted lease = some grant → grant.ttlEnd ≤ s.clock →
      Step setup s (.expired lease) { s with store := s.store.revoke lease }

def system (setup : Setup) : TransitionSystem System Event where
  Initial s := s.store = .empty ∧ ∀ i, s.locks i = none
  Step := Step setup

end Tslock.Etcd
