import Tslock.Executor.LockingTaskExecutor

/-! Every acquisition is released once, on the last handle of its own frame. -/
namespace Tslock.Executor

variable {σ H D ε V α : Type}

/-- What the call that an event stands for does to the state of the environment. -/
def Event.effect (env : Environment σ H D ε) : Event H ε → σ → σ
  | .notified executor n, x => (env.notify executor n x).2
  | .lockCalled executor config, x => (env.lock executor config x).2
  | .extendCalled lock most least, x => (env.extend lock most least x).2
  | .frame _ (.unlocked lock), x => (env.unlock lock x).2
  | .frame .., x => x

/-- The calls of a history, each made once and in order, and no others. -/
def replay (env : Environment σ H D ε) (events : List (Event H ε)) (x : σ) : σ :=
  events.foldl (fun x e => e.effect env x) x

def Event.ofFrame (id : ℕ) : Event H ε → Option (FrameEvent H)
  | .frame i e => if i = id then some e else none
  | _ => none

/-- What happened to the lock of one frame, in order. -/
def frameEvents (id : ℕ) (events : List (Event H ε)) : List (FrameEvent H) :=
  events.filterMap (Event.ofFrame id)

/-- The handle in use after some extensions. -/
def lastSuccessor (lock : H) (extensions : List H) : H := extensions.getLast?.getD lock

/-- The whole life of a frame: acquired, extended, and unlocked once after its task settled. -/
def Lifecycle (lock : H) (events : List (FrameEvent H)) : Prop :=
  ∃ extensions, events = .acquired lock :: extensions.map .extended ++
    [.settled, .unlocked (lastSuccessor lock extensions)]

/-- The frame of the context has been allocated. -/
def AsyncContext.Valid (ctx : AsyncContext) (w : World σ H ε) : Prop :=
  ∀ id, ctx.frame = some id → id < w.frames.length

/-- What an awaited function adds to the history and does to the frames. The environment has seen
the calls of the history and no others. -/
structure Disciplined (env : Environment σ H D ε) (ctx : AsyncContext) (w w' : World σ H ε)
    (new : List (Event H ε)) : Prop where
  history : w'.history = w.history ++ new
  state : w'.state = replay env new w.state
  grows : w.frames.length ≤ w'.frames.length
  own : ∀ id, ctx.frame = some id → ∃ extensions,
    frameEvents id new = extensions.map .extended ∧
    ∀ lock rest, w.frames[id]? = some (lock :: rest) →
      w'.frames[id]? = some (lastSuccessor lock extensions :: rest)
  outer : ∀ id < w.frames.length, ctx.frame ≠ some id →
    w'.frames[id]? = w.frames[id]? ∧ frameEvents id new = []
  inner : ∀ id, w.frames.length ≤ id → id < w'.frames.length →
    ∃ lock, Lifecycle lock (frameEvents id new)
  beyond : ∀ id, w'.frames.length ≤ id → frameEvents id new = []

/-- `f` is disciplined in every valid context. -/
def Async.Disciplined (env : Environment σ H D ε) (f : Async σ H ε α) : Prop :=
  ∀ ctx w, ctx.Valid w → ∃ new, Executor.Disciplined env ctx w (f ctx w).2 new

variable {env : Environment σ H D ε} {ctx : AsyncContext} {w w₁ w₂ : World σ H ε}
  {new new₁ new₂ : List (Event H ε)} {e : Event H ε} {executor : ℕ}
  {config : LockConfiguration ℚ} {lock : H} {id : ℕ}

@[simp] theorem frameEvents_nil : frameEvents id ([] : List (Event H ε)) = [] := rfl

@[simp] theorem frameEvents_append :
    frameEvents id (new₁ ++ new₂) = frameEvents id new₁ ++ frameEvents id new₂ := by
  simp [frameEvents]

theorem frameEvents_cons_frame (event : FrameEvent H) :
    frameEvents id (.frame id event :: new) = event :: frameEvents id new := by
  simp [frameEvents, Event.ofFrame]

theorem frameEvents_cons_other (h : e.ofFrame id = none) :
    frameEvents id (e :: new) = frameEvents id new := by
  simp [frameEvents, h]

theorem lastSuccessor_append (extensions extensions' : List H) :
    lastSuccessor lock (extensions ++ extensions') =
      lastSuccessor (lastSuccessor lock extensions) extensions' := by
  unfold lastSuccessor
  rw [List.getLast?_append]
  cases extensions'.getLast? <;> rfl

@[simp] theorem replay_nil {x : σ} : replay env [] x = x := rfl

@[simp] theorem replay_cons {x : σ} : replay env (e :: new) x = replay env new (e.effect env x) :=
  rfl

@[simp] theorem replay_append {x : σ} :
    replay env (new₁ ++ new₂) x = replay env new₂ (replay env new₁ x) :=
  List.foldl_append

theorem AsyncContext.Valid.mono (hv : ctx.Valid w) (h : w.frames.length ≤ w₁.frames.length) :
    ctx.Valid w₁ :=
  fun id hid => lt_of_lt_of_le (hv id hid) h

theorem disciplined_of_eq (hf : w₁.frames = w.frames) (hh : w₁.history = w.history)
    (hs : w₁.state = w.state) : Disciplined env ctx w w₁ [] where
  history := by rw [hh, List.append_nil]
  state := hs
  grows := hf ▸ le_rfl
  own _ _ := ⟨[], rfl, fun _ _ h => hf ▸ h⟩
  outer _ _ _ := ⟨by rw [hf], rfl⟩
  inner id h h' := by
    rw [hf] at h'
    exact absurd (lt_of_le_of_lt h h') (lt_irrefl _)
  beyond _ _ := rfl

/-- One awaited function after the other, in the same context. -/
theorem Disciplined.trans (hv : ctx.Valid w) (h₁ : Disciplined env ctx w w₁ new₁)
    (h₂ : Disciplined env ctx w₁ w₂ new₂) : Disciplined env ctx w w₂ (new₁ ++ new₂) where
  history := by rw [h₂.history, h₁.history, List.append_assoc]
  state := by rw [h₂.state, h₁.state, replay_append]
  grows := h₁.grows.trans h₂.grows
  own id hid := by
    obtain ⟨x₁, hx₁, hf₁⟩ := h₁.own id hid
    obtain ⟨x₂, hx₂, hf₂⟩ := h₂.own id hid
    refine ⟨x₁ ++ x₂, by simp [hx₁, hx₂], ?_⟩
    intro lock rest hl
    rw [lastSuccessor_append]
    exact hf₂ _ _ (hf₁ lock rest hl)
  outer id hlt hne := by
    obtain ⟨hf₁, he₁⟩ := h₁.outer id hlt hne
    obtain ⟨hf₂, he₂⟩ := h₂.outer id (lt_of_lt_of_le hlt h₁.grows) hne
    exact ⟨hf₂.trans hf₁, by simp [he₁, he₂]⟩
  inner id hle hlt := by
    have hne : ctx.frame ≠ some id := fun h => absurd (hv id h) (not_lt.mpr hle)
    rcases lt_or_ge id w₁.frames.length with h | h
    · obtain ⟨lock, hl⟩ := h₁.inner id hle h
      refine ⟨lock, ?_⟩
      rw [frameEvents_append, (h₂.outer id h hne).2, List.append_nil]
      exact hl
    · obtain ⟨lock, hl⟩ := h₂.inner id h hlt
      refine ⟨lock, ?_⟩
      rw [frameEvents_append, h₁.beyond id h, List.nil_append]
      exact hl
  beyond id hle := by
    rw [frameEvents_append, h₁.beyond id (h₂.grows.trans hle), h₂.beyond id hle]
    rfl

/-- A step that keeps the frames and records an event that is about none of them. -/
theorem disciplined_silent (hf : w₁.frames = w.frames) (hh : w₁.history = w.history ++ [e])
    (hs : w₁.state = e.effect env w.state) (he : ∀ id, e.ofFrame id = none) :
    Disciplined env ctx w w₁ [e] where
  history := hh
  state := hs
  grows := hf ▸ le_rfl
  own id _ := ⟨[], by simp [frameEvents, he], fun _ _ h => hf ▸ h⟩
  outer id _ _ := ⟨by rw [hf], by simp [frameEvents, he]⟩
  inner id h h' := by
    rw [hf] at h'
    exact absurd (lt_of_le_of_lt h h') (lt_irrefl _)
  beyond id _ := by simp [frameEvents, he]

theorem disciplined_safeEmit (env : Environment σ H D ε) (ctx : AsyncContext) (w : World σ H ε)
    (executor : ℕ) (n : Notification ε) :
    Disciplined env ctx w (w.safeEmit env executor n) [.notified executor n] :=
  disciplined_silent rfl rfl rfl fun _ => rfl

/-- A successful extension replaces the top of its own frame. -/
theorem disciplined_extended {current newLock : H} {rest : List H} (hid : ctx.frame = some id)
    (hget : w.frames[id]? = some (current :: rest))
    (hf : w₁.frames = w.frames.set id (newLock :: rest))
    (hh : w₁.history = w.history ++ [.frame id (.extended newLock)])
    (hs : w₁.state = w.state) : Disciplined env ctx w w₁ [.frame id (.extended newLock)] := by
  have hlt : id < w.frames.length := (List.getElem?_eq_some_iff.mp hget).1
  have hnone : ∀ i, i ≠ id →
      frameEvents i [(.frame id (.extended newLock) : Event H ε)] = [] := by
    intro i hi
    simp [frameEvents, Event.ofFrame, Ne.symm hi]
  refine ⟨hh, hs, by simp [hf], ?_, ?_, ?_, ?_⟩
  · intro i hi
    obtain rfl : id = i := Option.some.inj (hid.symm.trans hi)
    refine ⟨[newLock], by simp [frameEvents_cons_frame], ?_⟩
    intro lock rest' hl
    rw [hget] at hl
    cases hl
    simp [hf, hlt, lastSuccessor]
  · intro i _ hne
    have hi : i ≠ id := by
      rintro rfl
      exact hne hid
    exact ⟨by rw [hf, List.getElem?_set_ne hi.symm], hnone i hi⟩
  · intro i hle hlt'
    rw [hf, List.length_set] at hlt'
    exact absurd (lt_of_le_of_lt hle hlt') (lt_irrefl _)
  · intro i hle
    rw [hf, List.length_set] at hle
    exact hnone i (by omega)

theorem extendActiveLock_disciplined (env : Environment σ H D ε) (most least : D) :
    Async.Disciplined env (LockExtender.extendActiveLock env most least) := by
  intro ctx w hv
  unfold LockExtender.extendActiveLock
  split
  · exact ⟨[], disciplined_of_eq rfl rfl rfl⟩
  rename_i id hid
  split
  · exact ⟨[], disciplined_of_eq rfl rfl rfl⟩
  · exact ⟨[], disciplined_of_eq rfl rfl rfl⟩
  rename_i current rest hget
  split
  · exact ⟨[], disciplined_of_eq rfl rfl rfl⟩
  rename_i mostFor _
  split
  · exact ⟨[], disciplined_of_eq rfl rfl rfl⟩
  rename_i leastFor _
  let called : World σ H ε := { w.record (.extendCalled current mostFor leastFor) with
    state := (env.extend current mostFor leastFor w.state).2 }
  have hcalled : Disciplined env ctx w called [.extendCalled current mostFor leastFor] :=
    disciplined_silent rfl rfl rfl fun _ => rfl
  dsimp only
  split
  · exact ⟨_, hcalled⟩
  · exact ⟨_, hcalled⟩
  · exact ⟨_, hcalled.trans hv (disciplined_extended hid hget rfl rfl rfl)⟩

/-- The listener calls around a task belong to no frame. -/
theorem executeTask_disciplined (env : Environment σ H D ε) (executor : ℕ)
    (config : LockConfiguration ℚ) {task : Async σ H ε V} (ht : task.Disciplined env) :
    Async.Disciplined env (executeTask env executor task config) := by
  intro ctx w hv
  have hstart := disciplined_safeEmit env ctx w executor (.onTaskStarted config)
  have hv₁ := hv.mono hstart.grows
  obtain ⟨new, hnew⟩ := ht ctx _ hv₁
  exact ⟨_, hstart.trans hv (hnew.trans hv₁ (disciplined_safeEmit _ _ _ _ _))⟩

/-- The `finally` block calls `unlock()` of the active handle; only the listener hears of a
failure. -/
theorem unlockActive_spec (env : Environment σ H D ε) (executor : ℕ)
    (config : LockConfiguration ℚ) (id : ℕ) (lock' : H)
    (ha : LockExtender.activeLock ctx w = some lock) :
    ∃ tail, (unlockActive env executor config id lock' ctx w).history =
        w.history ++ .frame id (.unlocked lock) :: tail ∧
      (unlockActive env executor config id lock' ctx w).state =
        replay env tail (env.unlock lock w.state).2 ∧
      (unlockActive env executor config id lock' ctx w).frames = w.frames ∧
      ∀ i, frameEvents i tail = [] := by
  unfold unlockActive
  simp only [ha, Option.getD_some]
  split
  · exact ⟨[], rfl, rfl, rfl, fun _ => rfl⟩
  · exact ⟨[_], List.append_assoc _ _ _, rfl, rfl, fun _ => rfl⟩

/-- The events of a call that acquired a lock, around those of its task. -/
def acquiredEvents (id : ℕ) (lock last : H) (new tail : List (Event H ε)) : List (Event H ε) :=
  .frame id (.acquired lock) :: new ++ .frame id .settled :: .frame id (.unlocked last) :: tail

theorem frameEvents_acquiredEvents_self {last : H} {tail : List (Event H ε)}
    (ht : frameEvents id tail = []) :
    frameEvents id (acquiredEvents id lock last new tail) =
      .acquired lock :: frameEvents id new ++ [.settled, .unlocked last] := by
  simp [acquiredEvents, frameEvents_cons_frame, ht]

theorem frameEvents_acquiredEvents_of_ne {i : ℕ} {last : H} {tail : List (Event H ε)}
    (ht : frameEvents i tail = []) (hi : i ≠ id) :
    frameEvents i (acquiredEvents id lock last new tail) = frameEvents i new := by
  have hnone : ∀ e : FrameEvent H, (Event.frame id e : Event H ε).ofFrame i = none := by
    intro e
    simp [Event.ofFrame, Ne.symm hi]
  simp [acquiredEvents, frameEvents_cons_other (hnone _), ht]

/-- Around a disciplined task in a frame of its own: allocation before it, release after it. -/
theorem disciplined_acquired {c : AsyncContext} {w₀ : World σ H ε} {rest extensions : List H}
    {tail : List (Event H ε)} (hv : ctx.Valid w)
    (hf₀ : w₀.frames = w.frames ++ [lock :: rest]) (hs₀ : w₀.state = w.state)
    (hh₀ : w₀.history = w.history ++ [.frame w.frames.length (.acquired lock)])
    (hc : c.frame = some w.frames.length) (h : Disciplined env c w₀ w₁ new)
    (hx : frameEvents w.frames.length new = extensions.map .extended)
    (hf₂ : w₂.frames = w₁.frames)
    (hs₂ : w₂.state = replay env tail (env.unlock (lastSuccessor lock extensions) w₁.state).2)
    (hh₂ : w₂.history = w₁.history ++ .frame w.frames.length .settled ::
      .frame w.frames.length (.unlocked (lastSuccessor lock extensions)) :: tail)
    (ht : ∀ i, frameEvents i tail = []) :
    Disciplined env ctx w w₂ (acquiredEvents w.frames.length lock (lastSuccessor lock extensions)
      new tail) ∧ ∀ i < w.frames.length, w₂.frames[i]? = w.frames[i]? := by
  have hlen₀ : w₀.frames.length = w.frames.length + 1 := by simp [hf₀]
  have hgrows : w.frames.length < w₁.frames.length := by
    have := h.grows
    omega
  have houter : ∀ i < w.frames.length, w₂.frames[i]? = w.frames[i]? ∧
      frameEvents i (acquiredEvents w.frames.length lock (lastSuccessor lock extensions)
        new tail) = [] := by
    intro i hi
    have hne : c.frame ≠ some i := by
      rw [hc]
      simp [Nat.ne_of_gt hi]
    obtain ⟨hf₁, he⟩ := h.outer i (by omega) hne
    refine ⟨?_, ?_⟩
    · rw [hf₂, hf₁, hf₀, List.getElem?_append_left hi]
    · rw [frameEvents_acquiredEvents_of_ne (ht i) (Nat.ne_of_lt hi), he]
  refine ⟨⟨?_, ?_, ?_, ?_, fun i hi _ => houter i hi, ?_, ?_⟩, fun i hi => (houter i hi).1⟩
  · rw [hh₂, h.history, hh₀]
    simp [acquiredEvents]
  · rw [hs₂, h.state, hs₀]
    simp [acquiredEvents, Event.effect]
  · rw [hf₂]
    omega
  · intro i hi
    obtain ⟨hf, he⟩ := houter i (hv i hi)
    exact ⟨[], he, fun lock rest hl => hf.trans hl⟩
  · intro i hle hlt
    rw [hf₂] at hlt
    by_cases hi : i = w.frames.length
    · subst hi
      exact ⟨lock, extensions, by rw [frameEvents_acquiredEvents_self (ht _), hx]⟩
    · obtain ⟨l, hl⟩ := h.inner i (by omega) hlt
      refine ⟨l, ?_⟩
      rw [frameEvents_acquiredEvents_of_ne (ht i) hi]
      exact hl
  · intro i hle
    rw [hf₂] at hle
    rw [frameEvents_acquiredEvents_of_ne (ht i) (by omega)]
    exact h.beyond i hle

/-- The context and the world a task starts in once `lock` is granted. -/
def enter (config : LockConfiguration ℚ) (lock : H) (ctx : AsyncContext) (w : World σ H ε) :
    AsyncContext × World σ H ε :=
  LockExtender.runWithLock lock
    { ctx with names := LockAssert.runWithLock ctx.names config.name } w

/-- A frame of its own: whatever the task does, its lock goes through one whole life, and the
frames around it are not touched. -/
theorem runUnderLock_released (env : Environment σ H D ε) (executor : ℕ)
    (config : LockConfiguration ℚ) (lock : H) {task : Async σ H ε V} (ht : task.Disciplined env)
    (hv : ctx.Valid w) :
    ∃ new, Disciplined env ctx w (runUnderLock env executor task config lock ctx w).2 new ∧
      Lifecycle lock (frameEvents w.frames.length new) ∧
      ∀ id < w.frames.length,
        (runUnderLock env executor task config lock ctx w).2.frames[id]? = w.frames[id]? := by
  have hframe : (enter config lock ctx w).1.frame = some w.frames.length := rfl
  have hlen : (enter config lock ctx w).2.frames.length = w.frames.length + 1 := by
    simp [enter, LockExtender.runWithLock, World.record]
  have hvalid : (enter config lock ctx w).1.Valid (enter config lock ctx w).2 := by
    intro i hi
    obtain rfl : w.frames.length = i := Option.some.inj (hframe.symm.trans hi)
    omega
  obtain ⟨new, h⟩ := executeTask_disciplined env executor config ht _ _ hvalid
  obtain ⟨extensions, hx, htop⟩ := h.own _ hframe
  have hentered : (enter config lock ctx w).2.frames[w.frames.length]? =
      some (lock :: ((ctx.frame.bind fun id => w.frames[id]?).getD [])) := by
    simp [enter, LockExtender.runWithLock, World.record]
  have hactive : LockExtender.activeLock (enter config lock ctx w).1
      ((executeTask env executor task config (enter config lock ctx w).1
        (enter config lock ctx w).2).2.record (.frame w.frames.length .settled)) =
      some (lastSuccessor lock extensions) := by
    have htop' := htop _ _ hentered
    simp only [LockExtender.activeLock, hframe, Option.bind_some, World.record, htop']
    rfl
  obtain ⟨tail, hhist, hstate, hframes, htail⟩ :=
    unlockActive_spec env executor config w.frames.length lock hactive
  have hentry : (enter config lock ctx w).2.state = w.state := rfl
  obtain ⟨hd, houter⟩ := disciplined_acquired hv rfl hentry rfl hframe h hx hframes hstate
    (hhist.trans (by simp [World.record])) htail
  refine ⟨_, hd, ⟨extensions, ?_⟩, houter⟩
  rw [frameEvents_acquiredEvents_self (htail _), hx]

/-- The world once the provider has answered. -/
def asked (env : Environment σ H D ε) (executor : ℕ) (config : LockConfiguration ℚ)
    (w : World σ H ε) : World σ H ε :=
  let w := w.safeEmit env executor (.onLockAttempt config)
  { w.record (.lockCalled executor config) with state := (env.lock executor config w.state).2 }

/-- What the provider answers. -/
def reply (env : Environment σ H D ε) (executor : ℕ) (config : LockConfiguration ℚ)
    (w : World σ H ε) : Except (Thrown ε) (Option H) :=
  (env.lock executor config (w.safeEmit env executor (.onLockAttempt config)).state).1

/-- The outcomes of `executeWithLock`: the result, the world afterwards and what was added to the
history. A task that runs decides the result alone. -/
inductive CallOutcome (env : Environment σ H D ε) (executor : ℕ) (task : Async σ H ε V)
    (config : LockConfiguration ℚ) (ctx : AsyncContext) (w : World σ H ε) :
    Except (Thrown ε) (TaskResult V) → World σ H ε → List (Event H ε) → Prop where
  | reentrant {w' : World σ H ε} {inner : List (Event H ε)} :
      LockAssert.alreadyLockedBy ctx.names config.name = true →
      (task ctx (w.safeEmit env executor (.onTaskStarted config))).2.history =
        (w.safeEmit env executor (.onTaskStarted config)).history ++ inner →
      CallOutcome env executor task config ctx w
        ((task ctx (w.safeEmit env executor (.onTaskStarted config))).1.map .result) w'
        (.notified executor (.onTaskStarted config) ::
          (inner ++ [.notified executor (.onTaskFinished config)]))
  | failed {w' : World σ H ε} {e : Thrown ε} :
      LockAssert.alreadyLockedBy ctx.names config.name = false →
      reply env executor config w = .error e →
      CallOutcome env executor task config ctx w (.error e) w'
        [.notified executor (.onLockAttempt config), .lockCalled executor config]
  | skipped {w' : World σ H ε} :
      LockAssert.alreadyLockedBy ctx.names config.name = false →
      reply env executor config w = .ok none →
      CallOutcome env executor task config ctx w (.ok .notExecuted) w'
        [.notified executor (.onLockAttempt config), .lockCalled executor config,
          .notified executor (.onLockNotAcquired config)]
  | acquired {w' c v : _} {lock : H} {new : List (Event H ε)} :
      LockAssert.alreadyLockedBy ctx.names config.name = false →
      reply env executor config w = .ok (some lock) →
      (c, v) = enter config lock ctx
        ((asked env executor config w).safeEmit env executor (.onLockAcquired config)) →
      Lifecycle lock (frameEvents w.frames.length new) →
      (∀ id < w.frames.length, w'.frames[id]? = w.frames[id]?) →
      CallOutcome env executor task config ctx w
        ((task c (v.safeEmit env executor (.onTaskStarted config))).1.map .result) w' new

theorem executeWithLock_outcome (env : Environment σ H D ε) (executor : ℕ)
    (config : LockConfiguration ℚ) {task : Async σ H ε V} (ht : task.Disciplined env)
    (hv : ctx.Valid w) :
    ∃ new, Disciplined env ctx w (executeWithLock env executor task config ctx w).2 new ∧
      CallOutcome env executor task config ctx w
        (executeWithLock env executor task config ctx w).1
        (executeWithLock env executor task config ctx w).2 new := by
  have hattempt := disciplined_safeEmit env ctx w executor (.onLockAttempt config)
  have hasked : Disciplined env ctx w (asked env executor config w)
      [.notified executor (.onLockAttempt config), .lockCalled executor config] :=
    hattempt.trans hv (disciplined_silent rfl rfl rfl fun _ => rfl)
  have hv' : ctx.Valid (asked env executor config w) := hv.mono hasked.grows
  cases hnames : LockAssert.alreadyLockedBy ctx.names config.name with
  | true =>
    have hstart := disciplined_safeEmit env ctx w executor (.onTaskStarted config)
    obtain ⟨inner, hinner⟩ := ht ctx _ (hv.mono hstart.grows)
    have hfinish := disciplined_safeEmit env ctx
      (task ctx (w.safeEmit env executor (.onTaskStarted config))).2 executor
      (.onTaskFinished config)
    have hall := hstart.trans hv (hinner.trans (hv.mono hstart.grows) hfinish)
    unfold executeWithLock
    rw [if_pos hnames]
    exact ⟨_, hall, .reentrant hnames hinner.history⟩
  | false =>
    unfold executeWithLock
    rw [if_neg (by simp [hnames])]
    cases hreply : reply env executor config w with
    | error e =>
      have hlock := hreply
      unfold reply at hlock
      simp only [World.record, hlock]
      exact ⟨_, hasked, .failed hnames hreply⟩
    | ok granted =>
      have hlock := hreply
      unfold reply at hlock
      simp only [World.record, hlock]
      cases granted with
      | none =>
        exact ⟨_, hasked.trans hv (disciplined_safeEmit _ _ _ _ _), .skipped hnames hreply⟩
      | some lock =>
        have hgranted := hasked.trans hv
          (disciplined_safeEmit env ctx (asked env executor config w) executor
            (.onLockAcquired config))
        obtain ⟨new, hnew, hlife, hsame⟩ :=
          runUnderLock_released env executor config lock ht (hv.mono hgranted.grows)
        refine ⟨_, hgranted.trans hv hnew, .acquired hnames hreply rfl ?_ hsame⟩
        rw [frameEvents_append]
        exact hlife

/-- Every task is disciplined: induction on what it awaits. -/
theorem Task.run_disciplined (t : Task D ε V) : Async.Disciplined env (t.run env) := by
  induction t with
  | done outcome => exact fun ctx w _ => ⟨[], disciplined_of_eq rfl rfl rfl⟩
  | extendActiveLock most least next ih =>
    intro ctx w hv
    obtain ⟨new, hnew⟩ := extendActiveLock_disciplined env most least ctx w hv
    obtain ⟨rest, hrest⟩ := ih _ ctx _ (hv.mono hnew.grows)
    exact ⟨_, hnew.trans hv hrest⟩
  | executeWithLock executor task config next iht ih =>
    intro ctx w hv
    obtain ⟨new, hnew, -⟩ := executeWithLock_outcome env executor config iht hv
    obtain ⟨rest, hrest⟩ := ih _ ctx _ (hv.mono hnew.grows)
    exact ⟨_, hnew.trans hv hrest⟩

/-- Each call of a tree of awaited calls releases what it acquires exactly once, on the right
handle, and passes its task's outcome on. -/
theorem executeWithLock_releases (env : Environment σ H D ε) (executor : ℕ) (t : Task D ε V)
    (config : LockConfiguration ℚ) (ctx : AsyncContext) (w : World σ H ε) (hv : ctx.Valid w) :
    ∃ new, Disciplined env ctx w (executeWithLock env executor (t.run env) config ctx w).2 new ∧
      CallOutcome env executor (t.run env) config ctx w
        (executeWithLock env executor (t.run env) config ctx w).1
        (executeWithLock env executor (t.run env) config ctx w).2 new :=
  executeWithLock_outcome env executor config t.run_disciplined hv

/-- Every call succeeds with a fresh handle; every listener throws. The second component lists the
handles whose `unlock()` was called. -/
def freshHandles : Environment (ℕ × List ℕ) ℕ Unit Unit where
  lock _ _ x := (.ok (some x.1), (x.1 + 1, x.2))
  unlock h x := (.ok (), (x.1, x.2 ++ [h]))
  extend _ _ _ x := (.ok (some x.1), (x.1 + 1, x.2))
  notify _ _ x := (.error (.other ()), x)
  parseDuration _ := .ok 1000

def outerConfig : LockConfiguration ℚ :=
  { name := "outer", lockAtMostFor := 1000, lockAtLeastFor := 0, createdAt := 0 }

/-- Extends its lock around a call under another lock that extends as well and fails. -/
def nestedTask : Task Unit Unit ℕ :=
  .extendActiveLock () () fun _ =>
    .executeWithLock 1 (.extendActiveLock () () fun _ => .done (.error (.other ())))
      { outerConfig with name := "inner" } fun _ => .extendActiveLock () () fun _ => .done (.ok 7)

/-- Both frames are released once, each on its own last handle. -/
theorem nestedTask_releases :
    ∃ new, Disciplined freshHandles ⟨none, none⟩ ⟨(0, []), [], []⟩ (executeWithLock freshHandles 0
        (nestedTask.run freshHandles) outerConfig ⟨none, none⟩ ⟨(0, []), [], []⟩).2 new ∧
      frameEvents 0 new = [.acquired 0, .extended 1, .extended 4, .settled, .unlocked 4] ∧
      frameEvents 1 new = [.acquired 2, .extended 3, .settled, .unlocked 3] ∧
      replay freshHandles new (0, []) = (5, [3, 4]) := by
  obtain ⟨new, hd, -⟩ := executeWithLock_releases freshHandles 0 nestedTask outerConfig
    ⟨none, none⟩ ⟨(0, []), [], []⟩ nofun
  have hnew : new = (executeWithLock freshHandles 0 (nestedTask.run freshHandles) outerConfig
      ⟨none, none⟩ ⟨(0, []), [], []⟩).2.history := by simpa using hd.history.symm
  refine ⟨new, hd, ?_, ?_, ?_⟩
  · rw [hnew]
    rfl
  · rw [hnew]
    rfl
  · exact hd.state.symm

end Tslock.Executor
