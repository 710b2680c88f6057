import Tslock.Executor.Interleaving

/-! Under which locks a task body is started. -/
namespace Tslock.Executor

open Function Foundation

variable {provider : ℕ → ℕ} {s t : Calls} {e : CallEvent} {i p q : ℕ} {c d : Call} {name : String}
  {parent : Option ℕ}

/-- What stays of a call from one state to the next. -/
structure Call.Continues (c d : Call) : Prop where
  executor : d.executor = c.executor
  name : d.name = c.name
  parent : d.parent = c.parent
  names : d.names = c.names
  granted : c.grantedBy.isSome = true → d.grantedBy.isSome = true

/-- A step adds one call or moves one on. -/
theorem callStep_cases (hs : CallStep provider s e t) :
    ∃ i c, t = update s i (some c) ∧
      ((s i = none ∧ c.names = inheritedNames s c.parent ∧ c.grantedBy = none) ∨
        ∃ b, s i = some b ∧ b.Continues c ∧
          (c.grantedBy = b.grantedBy ∨ c.grantedBy = some (provider c.executor))) := by
  cases hs with
  | reentrant hn => exact ⟨_, _, rfl, .inl ⟨hn, rfl, rfl⟩⟩
  | asks hn => exact ⟨_, _, rfl, .inl ⟨hn, rfl, rfl⟩⟩
  | granted hc => exact ⟨_, _, rfl, .inr ⟨_, hc, ⟨rfl, rfl, rfl, rfl, fun _ => rfl⟩, .inr rfl⟩⟩
  | refused hc => exact ⟨_, _, rfl, .inr ⟨_, hc, ⟨rfl, rfl, rfl, rfl, id⟩, .inl rfl⟩⟩
  | settledReentrant hc => exact ⟨_, _, rfl, .inr ⟨_, hc, ⟨rfl, rfl, rfl, rfl, id⟩, .inl rfl⟩⟩
  | settledLocked hc => exact ⟨_, _, rfl, .inr ⟨_, hc, ⟨rfl, rfl, rfl, rfl, id⟩, .inl rfl⟩⟩
  | unlocked hc => exact ⟨_, _, rfl, .inr ⟨_, hc, ⟨rfl, rfl, rfl, rfl, id⟩, .inl rfl⟩⟩

/-- No call gets lost. -/
theorem call_continues (hs : CallStep provider s e t) (hc : s i = some c) :
    ∃ d, t i = some d ∧ c.Continues d := by
  obtain ⟨j, b, rfl, hb⟩ := callStep_cases hs
  by_cases hij : i = j
  · subst hij
    rcases hb with ⟨hn, -⟩ | ⟨b₀, hb₀, hcont, -⟩
    · rw [hn] at hc
      cases hc
    · rw [hb₀] at hc
      cases hc
      exact ⟨b, update_self _ _ _, hcont⟩
  · exact ⟨c, by rw [update_of_ne hij, hc], rfl, rfl, rfl, rfl, id⟩

theorem encloses_step (hs : CallStep provider s e t) (h : Encloses s q i) : Encloses t q i := by
  induction h with
  | self hc =>
    obtain ⟨d, hd, -⟩ := call_continues hs hc
    exact .self hd
  | parent hc hp _ ih =>
    obtain ⟨d, hd, hcont⟩ := call_continues hs hc
    exact .parent hd (hcont.parent.trans hp) ih

/-- `d`, the call `q`, is around `i` and was granted the lock `name` by the provider of its own
executor, whether or not it has released it. -/
structure GrantsAround (provider : ℕ → ℕ) (s : Calls) (i : ℕ) (name : String) (q : ℕ) (d : Call) :
    Prop where
  encloses : Encloses s q i
  call : s q = some d
  name : d.name = name
  granted : d.grantedBy = some (provider d.executor)

def GrantedAround (provider : ℕ → ℕ) (s : Calls) (i : ℕ) (name : String) : Prop :=
  ∃ q d, GrantsAround provider s i name q d

/-- Each name on a stack was pushed by an enclosing call that had been granted the lock. -/
structure Inherited (provider : ℕ → ℕ) (s : Calls) : Prop where
  granted : ∀ i c, s i = some c → c.grantedBy.isSome = true →
    c.grantedBy = some (provider c.executor)
  names : ∀ i c, s i = some c → ∀ name, LockAssert.alreadyLockedBy c.names name = true →
    ∃ p, c.parent = some p ∧ GrantedAround provider s p name

/-- The stack a call finds is that of its parent's task. -/
theorem grantedAround_of_inheritedNames (hi : Inherited provider s)
    (h : LockAssert.alreadyLockedBy (inheritedNames s parent) name = true) :
    ∃ p, parent = some p ∧ GrantedAround provider s p name := by
  cases parent with
  | none => simp [inheritedNames, LockAssert.alreadyLockedBy] at h
  | some p =>
    refine ⟨p, rfl, ?_⟩
    cases hc : s p with
    | none => simp [inheritedNames, hc, LockAssert.alreadyLockedBy] at h
    | some c =>
      have hstack : LockAssert.alreadyLockedBy c.context name = true := by
        simpa [inheritedNames, hc] using h
      have houter : LockAssert.alreadyLockedBy c.names name = true →
          GrantedAround provider s p name := by
        intro hn
        obtain ⟨p', hp', q, d, hd⟩ := hi.names p c hc name hn
        exact ⟨q, d, .parent hc hp' hd.encloses, hd.call, hd.name, hd.granted⟩
      unfold Call.context at hstack
      split_ifs at hstack with hg
      · rcases LockAssert.alreadyLockedBy_runWithLock.mp hstack with rfl | hn
        · exact ⟨p, c, .self hc, hc, rfl, hi.granted p c hc hg⟩
        · exact houter hn
      · exact houter hstack

theorem grantsAround_step (hs : CallStep provider s e t) (ht : ∀ i c, t i = some c →
    c.grantedBy.isSome = true → c.grantedBy = some (provider c.executor))
    (h : GrantsAround provider s i name q d) :
    ∃ d', d.Continues d' ∧ GrantsAround provider t i name q d' := by
  obtain ⟨hq, hd, hn, hg⟩ := h
  obtain ⟨d', hd', hcont⟩ := call_continues hs hd
  have hg' := ht q d' hd' (hcont.granted (by simp [hg]))
  exact ⟨d', hcont, encloses_step hs hq, hd', hcont.name.trans hn, hg'⟩

theorem granted_step (hs : CallStep provider s e t) (hi : Inherited provider s) (i : ℕ) (c : Call)
    (hc : t i = some c) (hg : c.grantedBy.isSome = true) :
    c.grantedBy = some (provider c.executor) := by
  obtain ⟨j, b, rfl, hb⟩ := callStep_cases hs
  by_cases hij : i = j
  · subst hij
    rw [update_self] at hc
    cases hc
    rcases hb with ⟨-, -, hnone⟩ | ⟨b₀, hb₀, hcont, hsame | hnew⟩
    · simp [hnone] at hg
    · rw [hsame, hcont.executor]
      exact hi.granted i b₀ hb₀ (hsame ▸ hg)
    · exact hnew
  · rw [update_of_ne hij] at hc
    exact hi.granted i c hc hg

theorem inherited_step (hs : CallStep provider s e t) (hi : Inherited provider s) :
    Inherited provider t := by
  have ht := granted_step hs hi
  refine ⟨ht, ?_⟩
  intro i c hc name hn
  have hlift : (∃ p, c.parent = some p ∧ GrantedAround provider s p name) →
      ∃ p, c.parent = some p ∧ GrantedAround provider t p name :=
    fun ⟨p, hp, q, d, hg⟩ =>
      let ⟨d', _, hg'⟩ := grantsAround_step hs ht hg
      ⟨p, hp, q, d', hg'⟩
  apply hlift
  obtain ⟨j, b, rfl, hb⟩ := callStep_cases hs
  by_cases hij : i = j
  · subst hij
    rw [update_self] at hc
    cases hc
    rcases hb with ⟨-, hnames, -⟩ | ⟨b₀, hb₀, hcont, -⟩
    · exact grantedAround_of_inheritedNames hi (hnames ▸ hn)
    · rw [hcont.parent]
      exact hi.names i b₀ hb₀ name (hcont.names ▸ hn)
  · rw [update_of_ne hij] at hc
    exact hi.names i c hc name hn

theorem inherited_reachable (h : (callSystem provider).Reachable s) : Inherited provider s := by
  refine h.invariant ?_ (fun _ _ _ _ hs hi => inherited_step hs hi)
  intro s₀ h₀
  exact ⟨fun i c hc => by simp [h₀ i] at hc, fun i c hc => by simp [h₀ i] at hc⟩

/-- A call whose task may still run was started by a task that is running. -/
def ParentsRunning (s : Calls) : Prop :=
  ∀ i c p, s i = some c → c.parent = some p → ¬ c.phase.Settled →
    ∃ d, s p = some d ∧ d.phase = .running

theorem parentsRunning_step (hs : CallStep provider s e t) (hg : Awaited s e)
    (hi : ParentsRunning s) : ParentsRunning t := by
  intro i c p hc hp hsettled
  cases hs with
  | reentrant hn _ hl => grind [update_apply, Awaited, ParentsRunning]
  | asks hn _ hl => grind [update_apply, Awaited, ParentsRunning]
  | granted hb hphase => grind [update_apply, CallPhase.Settled, ParentsRunning]
  | refused hb hphase => grind [update_apply, CallPhase.Settled, ParentsRunning]
  | settledReentrant hb hphase => grind [update_apply, Awaited, CallPhase.Settled, ParentsRunning]
  | settledLocked hb hphase => grind [update_apply, Awaited, CallPhase.Settled, ParentsRunning]
  | unlocked hb hphase => grind [update_apply, Awaited, CallPhase.Settled, ParentsRunning]

theorem parentsRunning_reachable (h : ((callSystem provider).guarded Awaited).Reachable s) :
    ParentsRunning s := by
  refine h.invariant ?_ (fun _ _ _ _ hs hi => parentsRunning_step hs.1 hs.2 hi)
  intro s₀ h₀ i c p hc
  simp [h₀ i] at hc

/-- All tasks around a running one are running. -/
theorem running_of_encloses (hi : ParentsRunning s) (h : Encloses s q i)
    (hrun : ∃ c, s i = some c ∧ c.phase = .running) : ∃ d, s q = some d ∧ d.phase = .running := by
  induction h with
  | self => exact hrun
  | parent hc hp _ ih =>
    obtain ⟨c, hc', hphase⟩ := hrun
    rw [hc] at hc'
    cases hc'
    exact ih (hi _ _ _ hc hp (by simp [CallPhase.Settled, hphase]))

/-- Call 0 of executor 0 runs its task under `nightly`. -/
def nightlyCall (provider : ℕ → ℕ) (phase : CallPhase) : Call :=
  { executor := 0, name := "nightly", parent := none, names := none,
    grantedBy := some (provider 0), phase }

/-- A call of executor `x` for `nightly`, started in the task of call 0. -/
def nestedCall (x : ℕ) : Call :=
  { executor := x, name := "nightly", parent := some 0, names := some ["nightly"],
    grantedBy := none, phase := .running }

def nightlyHeld (provider : ℕ → ℕ) : Calls :=
  update (fun _ => none) 0 (some (nightlyCall provider .running))

theorem nightlyHeld_reachable :
    ((callSystem provider).guarded Awaited).Reachable (nightlyHeld provider) := by
  let asked : Call := ⟨0, "nightly", none, none, none, .locking⟩
  have hasks : CallStep provider (fun _ => none) (.start 0 none)
      (update (fun _ => none) 0 (some asked)) := .asks rfl nofun rfl
  have hgranted : CallStep provider (update (fun _ => none) 0 (some asked)) (.granted 0)
      (update (update (fun _ => none) 0 (some asked)) 0
        (some (nightlyCall provider .running))) := .granted (c := asked) rfl rfl
  rw [update_idem] at hgranted
  exact ⟨_, _, fun _ => rfl, .step ⟨hasks, nofun⟩ (.step ⟨hgranted, trivial⟩ .refl)⟩

/-- The task of call 0 has settled and its `unlock()` is under way. -/
def nightlyUnlocking (provider : ℕ → ℕ) : Calls :=
  update (fun _ => none) 0 (some (nightlyCall provider .unlocking))

theorem nightlyUnlocking_reachable :
    (callSystem provider).Reachable (nightlyUnlocking provider) := by
  have hs : CallStep provider (nightlyHeld provider) (.settled 0)
      (update (nightlyHeld provider) 0 (some (nightlyCall provider .unlocking))) :=
    .settledLocked (c := nightlyCall provider .running) rfl rfl rfl
  rw [nightlyHeld, update_idem] at hs
  exact nightlyHeld_reachable.of_guarded.step hs

end Tslock.Executor
