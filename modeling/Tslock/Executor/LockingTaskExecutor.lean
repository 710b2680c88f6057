import Mathlib.Algebra.Order.Ring.Rat
import Tslock.Core.LockAssert
import Tslock.Core.LockConfiguration

/-! `DefaultLockingTaskExecutor` and `LockExtender` for awaited calls. A task is a tree of what it
awaits; an asynchronous function is a state transformer that returns or throws. Durations handed
to listeners are left out. -/
namespace Tslock.Executor

/-- What reaches a caller: an exception of `LockExtender` or any other error. -/
inductive Thrown (ε : Type) where
  | noActiveLock
  | lockCanNotBeExtended
  | other (e : ε)

/-- `TaskResult.result` and `TaskResult.notExecuted`. -/
inductive TaskResult (V : Type) where
  | result (value : V)
  | notExecuted

namespace TaskResult

variable {V : Type}

def wasExecuted : TaskResult V → Bool
  | .result _ => true
  | .notExecuted => false

def getResult : TaskResult V → Option V
  | .result value => some value
  | .notExecuted => none

end TaskResult

/-- The methods of a `LockingTaskExecutorListener`. -/
inductive Notification (ε : Type) where
  | onLockAttempt (config : LockConfiguration ℚ)
  | onLockNotAcquired (config : LockConfiguration ℚ)
  | onLockAcquired (config : LockConfiguration ℚ)
  | onTaskStarted (config : LockConfiguration ℚ)
  | onTaskFinished (config : LockConfiguration ℚ)
  | onUnlockError (config : LockConfiguration ℚ) (error : Thrown ε)

/-- The code behind the executors: lock providers, handles and listeners, with a state of their
own. `D` is the type of durations that `parseDuration` reads. -/
structure Environment (σ H D ε : Type) where
  lock : ℕ → LockConfiguration ℚ → σ → Except (Thrown ε) (Option H) × σ
  unlock : H → σ → Except (Thrown ε) Unit × σ
  extend : H → ℚ → ℚ → σ → Except (Thrown ε) (Option H) × σ
  notify : ℕ → Notification ε → σ → Except (Thrown ε) Unit × σ
  parseDuration : D → Except (Thrown ε) ℚ

/-- What happens to the lock of one frame. -/
inductive FrameEvent (H : Type) where
  | acquired (lock : H)
  | extended (newLock : H)
  | settled
  | unlocked (lock : H)
deriving DecidableEq

inductive Event (H ε : Type) where
  | notified (executor : ℕ) (n : Notification ε)
  | lockCalled (executor : ℕ) (config : LockConfiguration ℚ)
  | extendCalled (lock : H) (lockAtMostFor lockAtLeastFor : ℚ)
  | frame (id : ℕ) (event : FrameEvent H)

/-- The frames that `LockExtender.runWithLock` has allocated, each under its index, and the
history of the run. -/
structure World (σ H ε : Type) where
  state : σ
  frames : List (List H)
  history : List (Event H ε)

/-- The two stores of an asynchronous context; that of `LockExtender` is an index. -/
structure AsyncContext where
  names : LockAssert.Store
  frame : Option ℕ
deriving DecidableEq

variable {σ H D ε V : Type} (env : Environment σ H D ε)

namespace World

def record (w : World σ H ε) (e : Event H ε) : World σ H ε :=
  { w with history := w.history ++ [e] }

/-- `safeEmit`: what the listener throws is dropped. -/
def safeEmit (w : World σ H ε) (executor : ℕ) (n : Notification ε) : World σ H ε :=
  { w.record (.notified executor n) with state := (env.notify executor n w.state).2 }

end World

namespace LockExtender

def activeLock (ctx : AsyncContext) (w : World σ H ε) : Option H :=
  (ctx.frame.bind fun id => w.frames[id]?).bind (·.head?)

/-- The context and the world inside the callback of `runWithLock`: a new stack with `lock` on
top of the entries of the current one. -/
def runWithLock (lock : H) (ctx : AsyncContext) (w : World σ H ε) : AsyncContext × World σ H ε :=
  let current := (ctx.frame.bind fun id => w.frames[id]?).getD []
  ({ ctx with frame := some w.frames.length },
    { w with frames := w.frames ++ [lock :: current] }.record
      (.frame w.frames.length (.acquired lock)))

def extendActiveLock (lockAtMostFor lockAtLeastFor : D) (ctx : AsyncContext) (w : World σ H ε) :
    Except (Thrown ε) Unit × World σ H ε :=
  match ctx.frame with
  | none => (.error .noActiveLock, w)
  | some id =>
    match w.frames[id]? with
    | none | some [] => (.error .noActiveLock, w)
    | some (current :: rest) =>
      match env.parseDuration lockAtMostFor with
      | .error e => (.error e, w)
      | .ok most =>
        match env.parseDuration lockAtLeastFor with
        | .error e => (.error e, w)
        | .ok least =>
          let reply := env.extend current most least w.state
          let w := { w.record (.extendCalled current most least) with state := reply.2 }
          match reply.1 with
          | .error e => (.error e, w)
          | .ok none => (.error .lockCanNotBeExtended, w)
          | .ok (some newLock) =>
            (.ok (), { w with frames := w.frames.set id (newLock :: rest) }.record
              (.frame id (.extended newLock)))

end LockExtender

/-- An asynchronous function, started in a context and awaited. -/
abbrev Async (σ H ε α : Type) :=
  AsyncContext → World σ H ε → Except (Thrown ε) α × World σ H ε

def executeTask (executor : ℕ) (task : Async σ H ε V) (config : LockConfiguration ℚ) :
    Async σ H ε V := fun ctx w =>
  let w := w.safeEmit env executor (.onTaskStarted config)
  let (result, w) := task ctx w
  (result, w.safeEmit env executor (.onTaskFinished config))

/-- The `finally` block of `run`: a failing `unlock()` reaches the listener only. -/
def unlockActive (executor : ℕ) (config : LockConfiguration ℚ) (id : ℕ) (lock : H)
    (ctx : AsyncContext) (w : World σ H ε) : World σ H ε :=
  let active := (LockExtender.activeLock ctx w).getD lock
  let reply := env.unlock active w.state
  let w := { w.record (.frame id (.unlocked active)) with state := reply.2 }
  match reply.1 with
  | .ok () => w
  | .error e => w.safeEmit env executor (.onUnlockError config e)

def runUnderLock (executor : ℕ) (task : Async σ H ε V) (config : LockConfiguration ℚ) (lock : H) :
    Async σ H ε (TaskResult V) := fun ctx w =>
  let id := w.frames.length
  let (ctx, w) := LockExtender.runWithLock lock
    { ctx with names := LockAssert.runWithLock ctx.names config.name } w
  let (result, w) := executeTask env executor task config ctx w
  let w := unlockActive env executor config id lock ctx (w.record (.frame id .settled))
  (result.map .result, w)

def executeWithLock (executor : ℕ) (task : Async σ H ε V) (config : LockConfiguration ℚ) :
    Async σ H ε (TaskResult V) := fun ctx w =>
  if LockAssert.alreadyLockedBy ctx.names config.name then
    let (result, w) := executeTask env executor task config ctx w
    (result.map .result, w)
  else
    let w := w.safeEmit env executor (.onLockAttempt config)
    let reply := env.lock executor config w.state
    let w := { w.record (.lockCalled executor config) with state := reply.2 }
    match reply.1 with
    | .error e => (.error e, w)
    | .ok none => (.ok .notExecuted, w.safeEmit env executor (.onLockNotAcquired config))
    | .ok (some lock) =>
      runUnderLock env executor task config lock ctx
        (w.safeEmit env executor (.onLockAcquired config))

/-- A task: what it awaits, in order, and how it goes on after each result or error. Throwing
before the first `await` and rejecting are both `done`. -/
inductive Task (D ε V : Type) where
  | done (outcome : Except (Thrown ε) V)
  | extendActiveLock (lockAtMostFor lockAtLeastFor : D)
      (next : Except (Thrown ε) Unit → Task D ε V)
  | executeWithLock (executor : ℕ) (task : Task D ε V) (config : LockConfiguration ℚ)
      (next : Except (Thrown ε) (TaskResult V) → Task D ε V)

def Task.run : Task D ε V → Async σ H ε V
  | .done outcome => fun _ w => (outcome, w)
  | .extendActiveLock most least next => fun ctx w =>
    let (result, w) := LockExtender.extendActiveLock env most least ctx w
    (next result).run ctx w
  | .executeWithLock executor task config next => fun ctx w =>
    let (result, w) := Executor.executeWithLock env executor task.run config ctx w
    (next result).run ctx w

end Tslock.Executor
