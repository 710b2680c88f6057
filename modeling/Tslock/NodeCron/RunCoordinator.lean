import Mathlib.Algebra.Order.Ring.Int
import Mathlib.Data.Nat.Notation
import Tslock.Core.LockConfiguration
import Tslock.Foundation.Runs

/-! `createTslockRunCoordinator` of `node-cron-lock.ts`: the runs of all keys, interleaved at every
`await` of `shouldRun` and `onComplete`. -/
namespace Tslock.NodeCron

open Function Foundation

variable {τ : Type*}

/-- Where a run stands, from its `shouldRun` to the end of its `onComplete`; the index is that of
the run whose lock `onComplete` called `unlock` on. -/
inductive RunPhase where
  | locking
  | skipped
  | granted
  | admitted
  | completing (unlocked : ℕ)
  | completed (unlocked : Option ℕ)
deriving DecidableEq, Repr

structure CronRun (τ : Type*) where
  config : LockConfiguration τ
  phase : RunPhase
deriving DecidableEq, Repr

namespace CronRun

/-- The provider has granted the run its lock. -/
def Holder (r : CronRun τ) : Prop := r.phase ≠ .locking ∧ r.phase ≠ .skipped

/-- `shouldRun` has returned true and `onComplete` has not ended. -/
def Open (r : CronRun τ) : Prop := r.phase = .admitted ∨ ∃ j, r.phase = .completing j

/-- It has a lock and its `onComplete` has not ended. -/
def Uncompleted (r : CronRun τ) : Prop := r.phase = .granted ∨ r.Open

/-- The run whose lock `onComplete` has called `unlock` on. -/
def unlocked (r : CronRun τ) : Option ℕ :=
  match r.phase with
  | .completing j => some j
  | .completed u => u
  | _ => none

/-- `onComplete` has ended. -/
def Completed (r : CronRun τ) : Prop := ∃ u, r.phase = .completed u

end CronRun

/-- The coordinator with its map, the runs and what the provider knows of their locks. -/
structure Coordinator (τ : Type*) where
  clock : τ
  locks : String → Option ℕ
  runs : ℕ → Option (CronRun τ)
  released : ℕ → Bool

namespace Coordinator

def setRun (s : Coordinator τ) (i : ℕ) (r : CronRun τ) : Coordinator τ :=
  { s with runs := update s.runs i (some r) }

/-- `locks.set(lockName, lock)` -/
def setLock (s : Coordinator τ) (lockName : String) (i : ℕ) : Coordinator τ :=
  { s with locks := update s.locks lockName (some i) }

/-- `locks.delete(lockName)` -/
def deleteLock (s : Coordinator τ) (lockName : String) : Coordinator τ :=
  { s with locks := update s.locks lockName none }

@[simp] theorem setRun_runs_self (s : Coordinator τ) (i : ℕ) (r : CronRun τ) :
    (s.setRun i r).runs i = some r := update_self ..

theorem setRun_runs_of_ne (s : Coordinator τ) {i k : ℕ} (r : CronRun τ) (h : k ≠ i) :
    (s.setRun i r).runs k = s.runs k := update_of_ne h ..

theorem setRun_cases {s : Coordinator τ} {i k : ℕ} {r r' : CronRun τ}
    (h : (s.setRun i r).runs k = some r') :
    k = i ∧ r' = r ∨ k ≠ i ∧ s.runs k = some r' := by
  by_cases hki : k = i
  · subst hki
    exact .inl ⟨rfl, (Option.some.inj ((setRun_runs_self s k r).symm.trans h)).symm⟩
  · exact .inr ⟨hki, (setRun_runs_of_ne s r hki).symm.trans h⟩

/-- Each earlier lease of the name has ended or was unlocked. -/
def Free [Add τ] [LE τ] (s : Coordinator τ) (lockName : String) : Prop :=
  ∀ j r, s.runs j = some r → r.Holder → r.config.name = lockName →
    s.released j = true ∨ r.config.lockAtMostUntil ≤ s.clock

end Coordinator

inductive Event where
  | tick
  | shouldRun (i : ℕ)
  | granted (i : ℕ)
  | refused (i : ℕ)
  | resumes (i : ℕ)
  | onComplete (i : ℕ)
  | unlocks (i : ℕ)
  | settled (i : ℕ)
deriving DecidableEq, Repr

/-- `createLockConfig(lockName, ttlMs, lockAtLeastFor)` -/
def cronConfig (keyPrefix : String) (lockAtLeastFor : τ) (key : String) (ttlMs now : τ) :
    LockConfiguration τ :=
  { name := keyPrefix ++ key, lockAtMostFor := ttlMs, lockAtLeastFor, createdAt := now }

/-- Run `i` makes each of its calls once. A refusal may be a rejection of `lock()`; the store may
see an unlock at any time before the call settles, or not at all. -/
inductive Step [Add τ] [Zero τ] [LE τ] (keyPrefix : String) (lockAtLeastFor : τ) :
    Coordinator τ → Event → Coordinator τ → Prop where
  | tick {s : Coordinator τ} {now : τ} : s.clock ≤ now →
      Step keyPrefix lockAtLeastFor s .tick { s with clock := now }
  | shouldRun {s : Coordinator τ} {i : ℕ} {key : String} {ttlMs : τ} :
      s.runs i = none → (cronConfig keyPrefix lockAtLeastFor key ttlMs s.clock).DurationsValid →
      Step keyPrefix lockAtLeastFor s (.shouldRun i)
        (s.setRun i ⟨cronConfig keyPrefix lockAtLeastFor key ttlMs s.clock, .locking⟩)
  | granted {s : Coordinator τ} {i : ℕ} {config : LockConfiguration τ} :
      s.runs i = some ⟨config, .locking⟩ → s.Free config.name →
      Step keyPrefix lockAtLeastFor s (.granted i) (s.setRun i ⟨config, .granted⟩)
  | refused {s : Coordinator τ} {i : ℕ} {config : LockConfiguration τ} :
      s.runs i = some ⟨config, .locking⟩ →
      Step keyPrefix lockAtLeastFor s (.refused i) (s.setRun i ⟨config, .skipped⟩)
  | resumes {s : Coordinator τ} {i : ℕ} {config : LockConfiguration τ} :
      s.runs i = some ⟨config, .granted⟩ →
      Step keyPrefix lockAtLeastFor s (.resumes i)
        ((s.setRun i ⟨config, .admitted⟩).setLock config.name i)
  | onCompleteFinds {s : Coordinator τ} {i j : ℕ} {config : LockConfiguration τ} :
      s.runs i = some ⟨config, .admitted⟩ → s.locks config.name = some j →
      Step keyPrefix lockAtLeastFor s (.onComplete i)
        (s.setRun i ⟨config, .completing j⟩)
  | onCompleteMisses {s : Coordinator τ} {i : ℕ} {config : LockConfiguration τ} :
      s.runs i = some ⟨config, .admitted⟩ → s.locks config.name = none →
      Step keyPrefix lockAtLeastFor s (.onComplete i)
        (s.setRun i ⟨config, .completed none⟩)
  | unlocks {s : Coordinator τ} {i j : ℕ} {config : LockConfiguration τ} :
      s.runs i = some ⟨config, .completing j⟩ →
      Step keyPrefix lockAtLeastFor s (.unlocks i)
        { s with released := update s.released j true }
  | settled {s : Coordinator τ} {i j : ℕ} {config : LockConfiguration τ} :
      s.runs i = some ⟨config, .completing j⟩ →
      Step keyPrefix lockAtLeastFor s (.settled i)
        ((s.setRun i ⟨config, .completed (some j)⟩).deleteLock config.name)

def system [Add τ] [Zero τ] [LE τ] (keyPrefix : String) (lockAtLeastFor : τ) :
    TransitionSystem (Coordinator τ) Event where
  Initial s := (∀ n, s.locks n = none) ∧ (∀ i, s.runs i = none) ∧ ∀ i, s.released i = false
  Step := Step keyPrefix lockAtLeastFor

/-- `locks.set` finds no entry of the name: no earlier run of the key is still to complete. -/
def NoEntry (s : Coordinator τ) : Event → Prop
  | .resumes i => ∀ r, s.runs i = some r → s.locks r.config.name = none
  | _ => True

/-- `onComplete` of one run never unlocks the lock of another that has not completed, and the lock
of a completed run was unlocked by its own `onComplete`. -/
structure Paired (s : Coordinator τ) : Prop where
  own : ∀ i r j, s.runs i = some r → r.unlocked = some j → j ≠ i →
    ∀ r', s.runs j = some r' → ¬ r'.Uncompleted
  unlocked : ∀ i r, s.runs i = some r → r.Completed → r.unlocked = some i

/-- The map holds exactly the open runs, each of which unlocks its own lock. -/
structure MapMatches (s : Coordinator τ) : Prop where
  entry : ∀ n k, s.locks n = some k → ∃ r, s.runs k = some r ∧ r.config.name = n ∧ r.Open
  mapped : ∀ i r, s.runs i = some r → r.Open → s.locks r.config.name = some i
  own : ∀ i r j, s.runs i = some r → r.unlocked = some j → j = i
  unlocked : ∀ i r, s.runs i = some r → r.Completed → r.unlocked = some i

theorem MapMatches.paired {s : Coordinator τ} (h : MapMatches s) : Paired s where
  own i r j hi hj hne := absurd (h.own i r j hi hj) hne
  unlocked := h.unlocked

open Coordinator (setRun_runs_self setRun_runs_of_ne setRun_cases)

/-- A run before its admission is not in the map. -/
theorem MapMatches.setRun {s : Coordinator τ} {i : ℕ} {r : CronRun τ} (h : MapMatches s)
    (hold : ∀ r, s.runs i = some r → ¬ r.Open) (hopen : ¬ r.Open) (hnone : r.unlocked = none)
    (hcompleted : ¬ r.Completed) : MapMatches (s.setRun i r) where
  entry n k hn := by
    obtain ⟨r', hk, hname, hr'⟩ := h.entry n k hn
    have hki : k ≠ i := by
      rintro rfl
      exact hold r' hk hr'
    exact ⟨r', (setRun_runs_of_ne s r hki).trans hk, hname, hr'⟩
  mapped k r' hk hr' := by
    rcases setRun_cases hk with ⟨rfl, rfl⟩ | ⟨-, hk⟩
    · exact absurd hr' hopen
    · exact h.mapped k r' hk hr'
  own k r' j hk hj := by
    rcases setRun_cases hk with ⟨rfl, rfl⟩ | ⟨-, hk⟩
    · simp [hnone] at hj
    · exact h.own k r' j hk hj
  unlocked k r' hk hp := by
    rcases setRun_cases hk with ⟨rfl, rfl⟩ | ⟨-, hk⟩
    · exact absurd hp hcompleted
    · exact h.unlocked k r' hk hp

variable {s : Coordinator τ} {i : ℕ} {config : LockConfiguration τ}

/-- The entry of another name is untouched, and so is its run. -/
theorem MapMatches.entry_of_ne (h : MapMatches s) {phase : RunPhase} {run : CronRun τ} {n : String}
    {k : ℕ} (hi : s.runs i = some ⟨config, phase⟩) (hname : n ≠ config.name)
    (hn : s.locks n = some k) :
    ∃ r, (s.setRun i run).runs k = some r ∧ r.config.name = n ∧ r.Open := by
  obtain ⟨r, hk, hrname, hr⟩ := h.entry n k hn
  have hki : k ≠ i := by
    rintro rfl
    obtain rfl := Option.some.inj (hi.symm.trans hk)
    exact hname hrname.symm
  exact ⟨r, (setRun_runs_of_ne s _ hki).trans hk, hrname, hr⟩

/-- An admitted run takes the free entry of its name. -/
theorem MapMatches.admitted (h : MapMatches s) (hi : s.runs i = some ⟨config, .granted⟩)
    (hfree : s.locks config.name = none) :
    MapMatches ((s.setRun i ⟨config, .admitted⟩).setLock config.name i) where
  entry n k hn := by
    by_cases hname : n = config.name
    · subst hname
      obtain rfl : i = k := by simpa [Coordinator.setLock] using hn
      exact ⟨_, setRun_runs_self s i _, rfl, .inl rfl⟩
    · have hold : s.locks n = some k := by
        simpa [Coordinator.setLock, Coordinator.setRun, hname] using hn
      exact h.entry_of_ne hi hname hold
  mapped k r hk hr := by
    rcases setRun_cases hk with ⟨rfl, rfl⟩ | ⟨-, hk⟩
    · simp [Coordinator.setLock]
    · have hold := h.mapped k r hk hr
      have hname : r.config.name ≠ config.name := by
        intro hname
        simp [hname, hfree] at hold
      simpa [Coordinator.setLock, Coordinator.setRun, hname] using hold
  own k r j hk hj := by
    rcases setRun_cases hk with ⟨rfl, rfl⟩ | ⟨-, hk⟩
    · simp [CronRun.unlocked] at hj
    · exact h.own k r j hk hj
  unlocked k r hk hp := by
    rcases setRun_cases hk with ⟨rfl, rfl⟩ | ⟨-, hk⟩
    · simp [CronRun.Completed] at hp
    · exact h.unlocked k r hk hp

/-- A run that unlocks its own lock does no harm to the others. -/
theorem MapMatches.unlocks_own (h : MapMatches s) {run r : CronRun τ} {k : ℕ}
    (hrun : run.unlocked = some i) (hk : (s.setRun i run).runs k = some r) :
    (∀ j, r.unlocked = some j → j = k) ∧ (r.Completed → r.unlocked = some k) := by
  rcases setRun_cases hk with ⟨rfl, rfl⟩ | ⟨-, hk⟩
  · refine ⟨fun j hj => ?_, fun _ => hrun⟩
    exact Option.some.inj (hj.symm.trans hrun)
  · exact ⟨fun j hj => h.own k r j hk hj, fun hp => h.unlocked k r hk hp⟩

/-- A completing run leaves its entry in place until the unlock settles. -/
theorem MapMatches.completing (h : MapMatches s)
    (hi : s.runs i = some ⟨config, .admitted⟩) :
    MapMatches (s.setRun i ⟨config, .completing i⟩) where
  entry n k hn := by
    obtain ⟨r, hk, hname, hr⟩ := h.entry n k hn
    by_cases hki : k = i
    · subst hki
      obtain rfl := Option.some.inj (hi.symm.trans hk)
      exact ⟨_, setRun_runs_self s k _, hname, .inr ⟨k, rfl⟩⟩
    · exact ⟨r, (setRun_runs_of_ne s _ hki).trans hk, hname, hr⟩
  mapped k r hk hr := by
    rcases setRun_cases hk with ⟨rfl, rfl⟩ | ⟨-, hk⟩
    · exact h.mapped k ⟨config, .admitted⟩ hi (.inl rfl)
    · exact h.mapped k r hk hr
  own _ _ j hk hj := (h.unlocks_own rfl hk).1 j hj
  unlocked _ _ hk hp := (h.unlocks_own rfl hk).2 hp

/-- The entry a settled unlock deletes is the run's own. -/
theorem MapMatches.completed (h : MapMatches s)
    (hi : s.runs i = some ⟨config, .completing i⟩) :
    MapMatches ((s.setRun i ⟨config, .completed (some i)⟩).deleteLock config.name) where
  entry n k hn := by
    have hname : n ≠ config.name := by
      rintro rfl
      simp [Coordinator.deleteLock] at hn
    have hold : s.locks n = some k := by
      simpa [Coordinator.deleteLock, Coordinator.setRun, hname] using hn
    exact h.entry_of_ne hi hname hold
  mapped k r hk hr := by
    rcases setRun_cases hk with ⟨rfl, rfl⟩ | ⟨hki, hk⟩
    · simp [CronRun.Open] at hr
    · have hold := h.mapped k r hk hr
      have hname : r.config.name ≠ config.name := by
        intro hname
        have hself := h.mapped i _ hi (.inr ⟨i, rfl⟩)
        exact hki (Option.some.inj ((hname ▸ hold).symm.trans hself))
      simpa [Coordinator.deleteLock, Coordinator.setRun, hname] using hold
  own _ _ j hk hj := (h.unlocks_own rfl hk).1 j hj
  unlocked _ _ hk hp := (h.unlocks_own rfl hk).2 hp

section Steps
variable [Add τ] [Zero τ] [LE τ] {keyPrefix : String} {lockAtLeastFor : τ} {t : Coordinator τ}
  {e : Event}

theorem mapMatches_step (h : Step keyPrefix lockAtLeastFor s e t) (hg : NoEntry s e)
    (hm : MapMatches s) : MapMatches t := by
  cases h with
  | tick => exact ⟨hm.entry, hm.mapped, hm.own, hm.unlocked⟩
  | shouldRun hi => apply hm.setRun <;> simp [hi, CronRun.Open, CronRun.unlocked, CronRun.Completed]
  | granted hi => apply hm.setRun <;> simp [hi, CronRun.Open, CronRun.unlocked, CronRun.Completed]
  | refused hi => apply hm.setRun <;> simp [hi, CronRun.Open, CronRun.unlocked, CronRun.Completed]
  | resumes hi => exact hm.admitted hi (hg _ hi)
  | @onCompleteFinds i j config hi hl =>
    have hself := hm.mapped i _ hi (.inl rfl)
    obtain rfl : i = j := Option.some.inj (hself.symm.trans hl)
    exact hm.completing hi
  | @onCompleteMisses i config hi hl =>
    have hself := hm.mapped i _ hi (.inl rfl)
    simp [hl] at hself
  | unlocks hi => exact ⟨hm.entry, hm.mapped, hm.own, hm.unlocked⟩
  | @settled i j config hi =>
    obtain rfl : j = i := hm.own i _ j hi rfl
    exact hm.completed hi

theorem mapMatches_reachable (h : ((system keyPrefix lockAtLeastFor).guarded NoEntry).Reachable s) :
    MapMatches s := by
  refine h.invariant ?_ (fun s e t _ hs hm => mapMatches_step hs.1 hs.2 hm)
  rintro s ⟨hlocks, hruns, -⟩
  constructor <;> simp [hlocks, hruns]

/-- The earlier run finds the later run's lock. -/
theorem completes_other {k : ℕ} {config' : LockConfiguration τ} (hik : i ≠ k)
    (hi : s.runs i = some ⟨config, .granted⟩) (hk : s.runs k = some ⟨config', .admitted⟩)
    (hname : config'.name = config.name) :
    ∃ es t, (system keyPrefix lockAtLeastFor).Run s es t ∧ ¬ Paired t := by
  let u := (s.setRun i ⟨config, .admitted⟩).setLock config.name i
  have hku : u.runs k = some ⟨config', .admitted⟩ :=
    (setRun_runs_of_ne s _ hik.symm).trans hk
  have hentry : u.locks config'.name = some i := by
    rw [hname]
    exact update_self ..
  refine ⟨_, _, .step (.resumes hi) (.single (.onCompleteFinds hku hentry)), fun hpaired => ?_⟩
  have hiu : (u.setRun k ⟨config', .completing i⟩).runs i = some ⟨config, .admitted⟩ :=
    (setRun_runs_of_ne u _ hik).trans (setRun_runs_self s i _)
  exact hpaired.own k _ i (setRun_runs_self u k _) rfl hik _ hiu (.inr (.inl rfl))

/-- The earlier run's pending delete takes the later run's entry. -/
theorem loses_entry {k : ℕ} {config' : LockConfiguration τ} (hik : i ≠ k)
    (hi : s.runs i = some ⟨config, .granted⟩) (hk : s.runs k = some ⟨config', .completing k⟩)
    (hname : config'.name = config.name) :
    ∃ es t, (system keyPrefix lockAtLeastFor).Run s es t ∧ ¬ Paired t := by
  let u := (s.setRun i ⟨config, .admitted⟩).setLock config.name i
  let v := (u.setRun k ⟨config', .completed (some k)⟩).deleteLock config'.name
  have hku : u.runs k = some ⟨config', .completing k⟩ :=
    (setRun_runs_of_ne s _ hik.symm).trans hk
  have hiv : v.runs i = some ⟨config, .admitted⟩ :=
    (setRun_runs_of_ne u _ hik).trans (setRun_runs_self s i _)
  have hgone : v.locks config.name = none := by
    rw [← hname]
    exact update_self ..
  refine ⟨_, _, .step (.resumes hi) (.step (.settled hku) (.single (.onCompleteMisses hiv hgone))),
    fun hpaired => ?_⟩
  have hnone := hpaired.unlocked i _ (setRun_runs_self v i _) ⟨none, rfl⟩
  simp [CronRun.unlocked] at hnone

/-- A run that takes the entry of another that has not completed can end unpaired. -/
theorem unpaired_of_entry (hm : MapMatches s) {k : ℕ}
    (hi : s.runs i = some ⟨config, .granted⟩) (hk : s.locks config.name = some k) :
    ∃ es t, (system keyPrefix lockAtLeastFor).Run s es t ∧ ¬ Paired t := by
  obtain ⟨⟨config', phase⟩, hrun, hname, hopen⟩ := hm.entry _ k hk
  have hik : i ≠ k := by
    rintro rfl
    obtain ⟨rfl, rfl⟩ := CronRun.mk.inj (Option.some.inj (hi.symm.trans hrun))
    simp [CronRun.Open] at hopen
  rcases hopen with rfl | ⟨j, rfl⟩
  · exact completes_other hik hi hrun hname
  · obtain rfl : j = k := hm.own k _ j hrun rfl
    exact loses_entry hik hi hrun hname

end Steps

/-- Runs that register only over a free entry are paired with their own locks; where one finds an
entry, the runs can go on to a state that is not paired. -/
theorem paired_of_noEntry [Add τ] [Zero τ] [LE τ] (keyPrefix : String) (lockAtLeastFor : τ) :
    ∀ s, ((system keyPrefix lockAtLeastFor).guarded NoEntry).Reachable s →
      Paired s ∧
      ∀ i config k, s.runs i = some ⟨config, .granted⟩ → s.locks config.name = some k →
        ∃ es t, (system keyPrefix lockAtLeastFor).Run s es t ∧ ¬ Paired t := by
  intro s h
  have hm := mapMatches_reachable h
  exact ⟨hm.paired, fun i config k hi hk => unpaired_of_entry hm hi hk⟩

section Overlap

def jobConfig (createdAt : ℤ) : LockConfiguration ℤ := cronConfig "" 0 "job" 10 createdAt

def start : Coordinator ℤ where
  clock := 0
  locks _ := none
  runs _ := none
  released _ := false

def firstCalled : Coordinator ℤ := start.setRun 0 ⟨jobConfig 0, .locking⟩

def firstGranted : Coordinator ℤ := firstCalled.setRun 0 ⟨jobConfig 0, .granted⟩

def firstAdmitted : Coordinator ℤ :=
  (firstGranted.setRun 0 ⟨jobConfig 0, .admitted⟩).setLock "job" 0

/-- The first run outlasts its ten milliseconds. -/
def secondCalled : Coordinator ℤ :=
  { firstAdmitted with clock := 10 }.setRun 1 ⟨jobConfig 10, .locking⟩

def secondGranted : Coordinator ℤ := secondCalled.setRun 1 ⟨jobConfig 10, .granted⟩

def secondAdmitted : Coordinator ℤ :=
  (secondGranted.setRun 1 ⟨jobConfig 10, .admitted⟩).setLock "job" 1

/-- The first run completes while the second still works. -/
def crossed : Coordinator ℤ := secondAdmitted.setRun 0 ⟨jobConfig 0, .completing 1⟩

theorem firstAdmitted_reachable :
    ((system "" (0 : ℤ)).guarded NoEntry).Reachable firstAdmitted := by
  have hstart : ((system "" (0 : ℤ)).guarded NoEntry).Reachable start :=
    .initial ⟨fun _ => rfl, fun _ => rfl, fun _ => rfl⟩
  have hcalled : (system "" (0 : ℤ)).Step start (.shouldRun 0) firstCalled :=
    .shouldRun rfl (by decide)
  have hfree : firstCalled.Free "job" := by
    intro j r hj hr
    rcases Coordinator.setRun_cases hj with ⟨rfl, rfl⟩ | ⟨-, hj⟩
    · exact absurd rfl hr.1
    · simp [start] at hj
  have hgranted : (system "" (0 : ℤ)).Step firstCalled (.granted 0) firstGranted :=
    .granted rfl hfree
  have hresumed : (system "" (0 : ℤ)).Step firstGranted (.resumes 0) firstAdmitted := .resumes rfl
  exact ((hstart.step ⟨hcalled, trivial⟩).step ⟨hgranted, trivial⟩).step
    ⟨hresumed, fun _ _ => rfl⟩

theorem firstAdmitted_paired : Paired firstAdmitted :=
  (paired_of_noEntry "" (0 : ℤ) firstAdmitted firstAdmitted_reachable).1

theorem secondAdmitted_reachable : (system "" (0 : ℤ)).Reachable secondAdmitted := by
  have hlater : (system "" (0 : ℤ)).Step firstAdmitted .tick { firstAdmitted with clock := 10 } :=
    .tick (by decide)
  have hcalled : (system "" (0 : ℤ)).Step { firstAdmitted with clock := 10 } (.shouldRun 1)
      secondCalled := .shouldRun rfl (by decide)
  have hfree : secondCalled.Free "job" := by
    intro j r hj hr _
    right
    rcases Coordinator.setRun_cases hj with ⟨rfl, rfl⟩ | ⟨-, hj⟩
    · exact absurd rfl hr.1
    · rcases Coordinator.setRun_cases hj with ⟨rfl, rfl⟩ | ⟨hj0, hj⟩
      · decide
      · simp [firstGranted, firstCalled, start, Coordinator.setRun, hj0] at hj
  have hgranted : (system "" (0 : ℤ)).Step secondCalled (.granted 1) secondGranted :=
    .granted rfl hfree
  have hresumed : (system "" (0 : ℤ)).Step secondGranted (.resumes 1) secondAdmitted :=
    .resumes rfl
  have hfirst := firstAdmitted_reachable.of_guarded
  exact (((hfirst.step hlater).step hcalled).step hgranted).step hresumed

/-- The first run's `onComplete` unlocks the second run's lock. -/
theorem overlapping_runs_crossed : (system "" (0 : ℤ)).Reachable crossed ∧
    crossed.runs 0 = some ⟨jobConfig 0, .completing 1⟩ ∧
    crossed.runs 1 = some ⟨jobConfig 10, .admitted⟩ ∧ ¬ Paired crossed := by
  have hcompletes : (system "" (0 : ℤ)).Step secondAdmitted (.onComplete 0) crossed :=
    .onCompleteFinds rfl rfl
  refine ⟨secondAdmitted_reachable.step hcompletes, rfl, rfl, fun h => ?_⟩
  exact h.own 0 _ 1 rfl rfl (by decide) _ rfl (.inr (.inl rfl))

end Overlap

end Tslock.NodeCron
