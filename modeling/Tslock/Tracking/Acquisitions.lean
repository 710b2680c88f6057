import Tslock.Core.KeepAliveLock
import Tslock.Foundation.Runs
import Tslock.Tracking.TrackingLockProvider

/-! Any number of `executeWithLock` calls on a `KeepAliveLockProvider` over one
`TrackingLockProviderWrapper`, whose delegate answers as it likes. The continuations of the two
wrappers after one `extend` are separate steps. -/
namespace Tslock.Tracking

open Function Foundation

/-- What a renewal passes to `extend`, and its reading of `now`. -/
structure ExtendCall where
  extended : ℕ
  lockAtMostFor : ℚ
  next : ℚ
  now : ℚ
deriving DecidableEq

/-- Where a renewal tick stands; `retried` holds in its second attempt. In `called` the delegate
has not answered yet, in `answered` the tracking wrapper has returned. -/
inductive Renewal where
  | ready (retried : Bool)
  | called (retried : Bool) (call : ExtendCall)
  | answered (retried : Bool) (call : ExtendCall) (answer : Option ℕ)
  | rejected (retried : Bool)
deriving DecidableEq

inductive Phase where
  | running
  | unlocking
  | settled
deriving DecidableEq, Repr

/-- A call whose lock was granted, from the creation of its `KeepAliveLock` on. -/
structure Execution where
  keepAlive : KeepAliveLock ℕ
  phase : Phase
  renewals : ℕ → Renewal

/-- A call of `executeWithLock`. In `granted` the tracking wrapper has its handle. -/
inductive Acquisition where
  | locking (config : LockConfiguration ℚ)
  | notExecuted
  | granted (config : LockConfiguration ℚ) (handle : ℕ)
  | executing (x : Execution)

structure System where
  tracking : TrackingLockProviderWrapper
  acquisitions : ℕ → Option Acquisition

inductive Action where
  | called
  | granted
  | refused
  | built
  | attempt (j : ℕ)
  | extendGranted (j : ℕ)
  | extendRefused (j : ℕ)
  | extendRejected (j : ℕ)
  | response (j : ℕ)
  | taskSettled
  | unlocked
deriving DecidableEq, Repr

structure Event where
  acquisition : ℕ
  action : Action
deriving DecidableEq, Repr

namespace Execution

def setRenewal (x : Execution) (j : ℕ) (r : Renewal) : Execution :=
  { x with renewals := update x.renewals j r }

/-- No renewal is under way. -/
def Quiet (x : Execution) : Prop := ∀ j, x.renewals j = .ready false

end Execution

namespace Acquisition

/-- The lock is granted and `unlock()` has not been called. -/
def Holding : Acquisition → Prop
  | .granted _ _ => True
  | .executing x => x.phase = .running
  | _ => False

/-- The call has settled and none of its renewals is under way. -/
def Over : Acquisition → Prop
  | .notExecuted => True
  | .executing x => x.phase = .settled ∧ x.Quiet
  | _ => False

end Acquisition

def System.setAcquisition (s : System) (i : ℕ) (a : Acquisition) : System :=
  { s with acquisitions := update s.acquisitions i (some a) }

/-- The renewals of one call and its `unlock()`. -/
inductive ExecutionStep : TrackingLockProviderWrapper → Execution → Action →
    TrackingLockProviderWrapper → Execution → Prop where
  | inactive {w : TrackingLockProviderWrapper} {x : Execution} {j : ℕ} {r : Bool} {c : ℚ} :
      x.renewals j = .ready r → x.keepAlive.extendForNextPeriod c = .inactive →
      ExecutionStep w x (.attempt j) w (x.setRenewal j (.ready false))
  | lost {w : TrackingLockProviderWrapper} {x : Execution} {j : ℕ} {r : Bool} {c : ℚ} :
      x.renewals j = .ready r → x.keepAlive.extendForNextPeriod c = .lost →
      ExecutionStep w x (.attempt j) w
        { x.setRenewal j (.ready false) with keepAlive := x.keepAlive.markLost }
  | calls {w : TrackingLockProviderWrapper} {x : Execution} {j extended : ℕ} {r : Bool}
      {c now most next : ℚ} :
      x.renewals j = .ready r → x.keepAlive.extendForNextPeriod c = .call extended most next →
      ExecutionStep w x (.attempt j) w (x.setRenewal j (.called r ⟨extended, most, next, now⟩))
  | extendGranted {w : TrackingLockProviderWrapper} {x : Execution} {j : ℕ} {r : Bool}
      {call : ExtendCall} {now : ℚ} :
      x.renewals j = .called r call →
      ExecutionStep w x (.extendGranted j)
        (w.extended call.extended call.lockAtMostFor call.next now)
        (x.setRenewal j (.answered r call (some w.handles.length)))
  | extendRefused {w : TrackingLockProviderWrapper} {x : Execution} {j : ℕ} {r : Bool}
      {call : ExtendCall} :
      x.renewals j = .called r call →
      ExecutionStep w x (.extendRefused j) w (x.setRenewal j (.answered r call none))
  | extendRejected {w : TrackingLockProviderWrapper} {x : Execution} {j : ℕ} {r : Bool}
      {call : ExtendCall} :
      x.renewals j = .called r call →
      ExecutionStep w x (.extendRejected j) w (x.setRenewal j (.rejected r))
  | answered {w : TrackingLockProviderWrapper} {x : Execution} {j : ℕ} {r : Bool}
      {call : ExtendCall} {answer : Option ℕ} :
      x.renewals j = .answered r call answer →
      ExecutionStep w x (.response j) w { x.setRenewal j (.ready false) with
        keepAlive := (x.keepAlive.afterExtend call.extended call.next call.now answer).1 }
  | retried {w : TrackingLockProviderWrapper} {x : Execution} {j : ℕ} :
      x.renewals j = .rejected false →
      ExecutionStep w x (.response j) w (x.setRenewal j (.ready true))
  | gaveUp {w : TrackingLockProviderWrapper} {x : Execution} {j : ℕ} :
      x.renewals j = .rejected true →
      ExecutionStep w x (.response j) w
        { x.setRenewal j (.ready false) with keepAlive := x.keepAlive.deactivate }
  | unlocks {w : TrackingLockProviderWrapper} {x : Execution} {h : ℕ} :
      x.phase = .running → x.keepAlive.doUnlock.2 = some h →
      ExecutionStep w x .taskSettled (w.unlock h)
        { x with keepAlive := x.keepAlive.doUnlock.1, phase := .unlocking }
  | skips {w : TrackingLockProviderWrapper} {x : Execution} :
      x.phase = .running → x.keepAlive.doUnlock.2 = none →
      ExecutionStep w x .taskSettled w
        { x with keepAlive := x.keepAlive.doUnlock.1, phase := .unlocking }
  | settles {w : TrackingLockProviderWrapper} {x : Execution} :
      x.phase = .unlocking → ExecutionStep w x .unlocked w { x with phase := .settled }

inductive Step : System → Event → System → Prop where
  | called {s : System} {i : ℕ} {config : LockConfiguration ℚ} :
      s.acquisitions i = none →
      Step s ⟨i, .called⟩ (s.setAcquisition i
        (if config.lockAtMostFor < minLockAtMostFor then .notExecuted else .locking config))
  | refused {s : System} {i : ℕ} {config : LockConfiguration ℚ} :
      s.acquisitions i = some (.locking config) →
      Step s ⟨i, .refused⟩ (s.setAcquisition i .notExecuted)
  | granted {s : System} {i : ℕ} {config : LockConfiguration ℚ} {now : ℚ} :
      s.acquisitions i = some (.locking config) →
      Step s ⟨i, .granted⟩ ({ s with tracking := s.tracking.lock i config now }.setAcquisition i
        (.granted config s.tracking.handles.length))
  | built {s : System} {i h : ℕ} {config : LockConfiguration ℚ} :
      s.acquisitions i = some (.granted config h) →
      Step s ⟨i, .built⟩ (s.setAcquisition i
        (.executing ⟨.create h config, .running, fun _ => .ready false⟩))
  | executing {s : System} {i : ℕ} {x y : Execution} {a : Action}
      {w : TrackingLockProviderWrapper} :
      s.acquisitions i = some (.executing x) → ExecutionStep s.tracking x a w y →
      Step s ⟨i, a⟩ ({ s with tracking := w }.setAcquisition i (.executing y))

def system : TransitionSystem System Event where
  Initial s := s.tracking = .empty ∧ ∀ i, s.acquisitions i = none
  Step := Step

variable {s t : System} {e : Event} {i j : ℕ}

@[simp] theorem setAcquisition_tracking {a : Acquisition} :
    (s.setAcquisition i a).tracking = s.tracking := rfl

@[grind =] theorem setAcquisition_acquisitions {a : Acquisition} :
    (s.setAcquisition i a).acquisitions j = if j = i then some a else s.acquisitions j :=
  update_apply _ _ _ _

@[grind =] theorem setRenewal_renewals_apply {x : Execution} {r : Renewal} :
    (x.setRenewal i r).renewals j = if j = i then r else x.renewals j :=
  update_apply _ _ _ _

/-- The wrapper stays well formed, whatever the renewals do. -/
theorem wellFormed_step (hs : s.tracking.WellFormed) (h : Step s e t) : t.tracking.WellFormed := by
  cases h with
  | called | refused | built => exact hs
  | granted => exact TrackingLockProviderWrapper.wellFormed_track hs rfl
  | executing _ hx =>
    cases hx with
    | extendGranted => exact TrackingLockProviderWrapper.wellFormed_extended hs
    | unlocks => exact TrackingLockProviderWrapper.wellFormed_unlock hs
    | inactive | lost | calls | extendRefused | extendRejected | answered | retried | gaveUp
    | skips | settles => exact hs

theorem wellFormed_reachable (h : system.Reachable s) : s.tracking.WellFormed :=
  h.invariant (fun _ hi => hi.1 ▸ TrackingLockProviderWrapper.wellFormed_empty)
    fun _ _ _ _ hstep hs => wellFormed_step hs hstep

end Tslock.Tracking
