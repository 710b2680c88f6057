import Mathlib.Data.Nat.Notation
import Mathlib.Logic.Function.Basic
import Tslock.Core.LockConfiguration
import Tslock.Foundation.Runs

/-! `AbstractSimpleLock` under overlapping calls. A call runs up to its `await`, then `doUnlock` or
`doExtend` settles and the rest of it runs. -/
namespace Tslock

open Function Foundation

variable {τ : Type*}

def invalidMessage : String := "Lock has already been released or extended"

/-- Where a call of `unlock()` or `extend()` stands. `refused` is a throw of `checkValidity`. -/
inductive CallPhase (τ : Type*) where
  | unstarted
  | refused (message : String)
  | unlocking
  | extending (newConfig : LockConfiguration τ)
  | unlocked
  | extended (newConfig : LockConfiguration τ)
  | notExtended
  | rejected
deriving DecidableEq, Repr

namespace CallPhase

/-- Awaits `doUnlock` or `doExtend`. -/
def UnderWay (p : CallPhase τ) : Prop := p = .unlocking ∨ ∃ c, p = .extending c

/-- `unlock()` resolved, or `extend()` resolved with a successor. -/
def Succeeded (p : CallPhase τ) : Prop := p = .unlocked ∨ ∃ c, p = .extended c

/-- Still to come, or thrown before `doUnlock` and `doExtend`. -/
def Barred (p : CallPhase τ) : Prop := p = .unstarted ∨ p = .refused invalidMessage

theorem UnderWay.not_succeeded {p : CallPhase τ} (h : p.UnderWay) : ¬ p.Succeeded := by
  rintro (rfl | ⟨c, rfl⟩) <;> simp [UnderWay] at h

theorem not_succeeded_unstarted : ¬ (CallPhase.unstarted : CallPhase τ).Succeeded := by
  simp [Succeeded]

theorem Succeeded.ne_ended {p : CallPhase τ} (h : p.Succeeded) :
    ¬ (p = .notExtended ∨ p = .rejected) := by
  rcases h with rfl | ⟨c, rfl⟩ <;> simp

/-- The successor handle the call has yielded. -/
def successor? : CallPhase τ → Option (LockConfiguration τ)
  | .extended newConfig => some newConfig
  | _ => none

end CallPhase

/-- A handle and all the calls ever made on it. -/
structure AbstractSimpleLock (τ : Type*) where
  config : LockConfiguration τ
  valid : Bool
  calls : ℕ → CallPhase τ

namespace AbstractSimpleLock

def create (config : LockConfiguration τ) : AbstractSimpleLock τ where
  config := config
  valid := true
  calls _ := .unstarted

def checkValidity (s : AbstractSimpleLock τ) : Except String Unit :=
  if s.valid then .ok () else .error invalidMessage

def setCall (s : AbstractSimpleLock τ) (i : ℕ) (p : CallPhase τ) : AbstractSimpleLock τ :=
  { s with calls := update s.calls i p }

/-- `this.valid = false` -/
def invalidate (s : AbstractSimpleLock τ) : AbstractSimpleLock τ := { s with valid := false }

inductive Event (τ : Type*) where
  | unlockCalled (i : ℕ)
  | extendCalled (i : ℕ) (lockAtMostFor lockAtLeastFor now : τ)
  | settled (i : ℕ)
deriving DecidableEq, Repr

inductive Step : AbstractSimpleLock τ → Event τ → AbstractSimpleLock τ → Prop where
  | unlockCalled {s : AbstractSimpleLock τ} {i : ℕ} :
      s.calls i = .unstarted → s.checkValidity = .ok () →
      Step s (.unlockCalled i) (s.setCall i .unlocking)
  | unlockRefused {s : AbstractSimpleLock τ} {i : ℕ} {message : String} :
      s.calls i = .unstarted → s.checkValidity = .error message →
      Step s (.unlockCalled i) (s.setCall i (.refused message))
  | extendCalled {s : AbstractSimpleLock τ} {i : ℕ} {most least now : τ} :
      s.calls i = .unstarted → s.checkValidity = .ok () →
      Step s (.extendCalled i most least now)
        (s.setCall i (.extending (s.config.successor most least now)))
  | extendRefused {s : AbstractSimpleLock τ} {i : ℕ} {most least now : τ} {message : String} :
      s.calls i = .unstarted → s.checkValidity = .error message →
      Step s (.extendCalled i most least now) (s.setCall i (.refused message))
  | unlockResolves {s : AbstractSimpleLock τ} {i : ℕ} :
      s.calls i = .unlocking → Step s (.settled i) (s.setCall i .unlocked).invalidate
  | extendYields {s : AbstractSimpleLock τ} {i : ℕ} {newConfig : LockConfiguration τ} :
      s.calls i = .extending newConfig →
      Step s (.settled i) (s.setCall i (.extended newConfig)).invalidate
  | extendYieldsNothing {s : AbstractSimpleLock τ} {i : ℕ} {newConfig : LockConfiguration τ} :
      s.calls i = .extending newConfig → Step s (.settled i) (s.setCall i .notExtended)
  | rejects {s : AbstractSimpleLock τ} {i : ℕ} :
      (s.calls i).UnderWay → Step s (.settled i) (s.setCall i .rejected)

/-- One handle, with `doUnlock` and `doExtend` free to settle in any way and order. -/
def system (τ : Type*) : TransitionSystem (AbstractSimpleLock τ) (Event τ) where
  Initial s := ∃ config, s = create config
  Step := Step

/-- The call is made while no other call passes its `await`. -/
def Alone (s : AbstractSimpleLock τ) : Event τ → Prop
  | .unlockCalled _ | .extendCalled _ _ _ _ => s.valid = true → ∀ j, ¬ (s.calls j).UnderWay
  | .settled _ => True

/-- A call made now reaches `doUnlock` or `doExtend`. -/
def Usable (s : AbstractSimpleLock τ) : Prop :=
  ∀ i, s.calls i = .unstarted → Step s (.unlockCalled i) (s.setCall i .unlocking) ∧
    ∀ most least now, Step s (.extendCalled i most least now)
      (s.setCall i (.extending (s.config.successor most least now)))

variable {s t : AbstractSimpleLock τ} {e : Event τ} {es : List (Event τ)} {i j : ℕ}

theorem checkValidity_ok (h : s.checkValidity = .ok ()) : s.valid = true := by
  cases hv : s.valid with
  | true => rfl
  | false => simp [checkValidity, hv] at h

theorem checkValidity_error {message : String} (h : s.checkValidity = .error message) :
    s.valid = false ∧ message = invalidMessage := by
  cases hv : s.valid with
  | true => simp [checkValidity, hv] at h
  | false =>
    have : invalidMessage = message := by simpa [checkValidity, hv] using h
    exact ⟨rfl, this.symm⟩

/-- What a step can do: a call passes the check, is refused, succeeds, or ends without success. -/
theorem step_cases (h : Step s e t) : ∃ i p, t.calls = update s.calls i p ∧
    ((s.calls i = .unstarted ∧ p.UnderWay ∧ s.valid = true ∧ t.valid = true ∧
        (Alone s e → ∀ j, ¬ (s.calls j).UnderWay)) ∨
      (s.calls i = .unstarted ∧ p = .refused invalidMessage ∧ s.valid = false ∧ t.valid = false) ∨
      ((s.calls i).UnderWay ∧ p.Succeeded ∧ t.valid = false) ∨
      ((s.calls i).UnderWay ∧ (p = .notExtended ∨ p = .rejected) ∧ t.valid = s.valid)) := by
  cases h with
  | unlockCalled hi hc =>
    have hv := checkValidity_ok hc
    exact ⟨_, _, rfl, .inl ⟨hi, .inl rfl, hv, hv, fun ha => ha hv⟩⟩
  | unlockRefused hi hc =>
    obtain ⟨hv, rfl⟩ := checkValidity_error hc
    exact ⟨_, _, rfl, .inr (.inl ⟨hi, rfl, hv, hv⟩)⟩
  | extendCalled hi hc =>
    have hv := checkValidity_ok hc
    exact ⟨_, _, rfl, .inl ⟨hi, .inr ⟨_, rfl⟩, hv, hv, fun ha => ha hv⟩⟩
  | extendRefused hi hc =>
    obtain ⟨hv, rfl⟩ := checkValidity_error hc
    exact ⟨_, _, rfl, .inr (.inl ⟨hi, rfl, hv, hv⟩)⟩
  | unlockResolves hi =>
    exact ⟨_, _, rfl, .inr (.inr (.inl ⟨.inl hi, .inl rfl, rfl⟩))⟩
  | extendYields hi =>
    exact ⟨_, _, rfl, .inr (.inr (.inl ⟨.inr ⟨_, hi⟩, .inr ⟨_, rfl⟩, rfl⟩))⟩
  | extendYieldsNothing hi =>
    exact ⟨_, _, rfl, .inr (.inr (.inr ⟨.inr ⟨_, hi⟩, .inl rfl, rfl⟩))⟩
  | rejects hi =>
    exact ⟨_, _, rfl, .inr (.inr (.inr ⟨hi, .inr rfl, rfl⟩))⟩

/-- A success is never undone. -/
theorem succeeded_step (h : Step s e t) (hj : (s.calls j).Succeeded) : (t.calls j).Succeeded := by
  obtain ⟨i, p, hcalls, hcase⟩ := step_cases h
  by_cases hji : j = i
  · subst hji
    rcases hcase with ⟨hi, -⟩ | ⟨hi, -⟩ | ⟨hi, -⟩ | ⟨hi, -⟩
    · rw [hi] at hj
      exact absurd hj CallPhase.not_succeeded_unstarted
    · rw [hi] at hj
      exact absurd hj CallPhase.not_succeeded_unstarted
    · exact absurd hj hi.not_succeeded
    · exact absurd hj hi.not_succeeded
  · simpa [hcalls, hji] using hj

/-- The flag is down exactly when a call has succeeded. -/
def FlagTells (s : AbstractSimpleLock τ) : Prop :=
  s.valid = false ↔ ∃ i, (s.calls i).Succeeded

theorem flagTells_step (h : Step s e t) (hf : FlagTells s) : FlagTells t := by
  constructor
  · intro ht
    obtain ⟨i, p, hcalls, hcase⟩ := step_cases h
    rcases hcase with ⟨-, -, -, hv⟩ | ⟨-, -, hv, -⟩ | ⟨-, hp, -⟩ | ⟨-, -, hv⟩
    · simp [hv] at ht
    · obtain ⟨k, hk⟩ := hf.mp hv
      exact ⟨k, succeeded_step h hk⟩
    · exact ⟨i, by simpa [hcalls] using hp⟩
    · obtain ⟨k, hk⟩ := hf.mp (hv.symm.trans ht)
      exact ⟨k, succeeded_step h hk⟩
  · rintro ⟨k, hk⟩
    obtain ⟨i, p, hcalls, hcase⟩ := step_cases h
    by_cases hki : k = i
    · subst hki
      rcases hcase with ⟨-, hp, -⟩ | ⟨-, rfl, -⟩ | ⟨-, -, hv⟩ | ⟨-, hp, -⟩
      · exact absurd (by simpa [hcalls] using hk) hp.not_succeeded
      · simp [hcalls, CallPhase.Succeeded] at hk
      · exact hv
      · exact absurd hp (CallPhase.Succeeded.ne_ended (by simpa [hcalls] using hk))
    · have hs : s.valid = false := hf.mpr ⟨k, by simpa [hcalls, hki] using hk⟩
      rcases hcase with ⟨-, -, hv, -⟩ | ⟨-, -, -, hv⟩ | ⟨-, -, hv⟩ | ⟨-, -, hv⟩
      · simp [hs] at hv
      · exact hv
      · exact hv
      · exact hv.trans hs

theorem flagTells_reachable (h : (system τ).Reachable s) : FlagTells s := by
  refine h.invariant ?_ (fun s e t _ hs hf => flagTells_step hs hf)
  rintro s ⟨config, rfl⟩
  simp [FlagTells, create, CallPhase.Succeeded]

/-- At most one call is under way or has succeeded. -/
def Exclusive (s : AbstractSimpleLock τ) : Prop :=
  ∀ i j, (s.calls i).UnderWay ∨ (s.calls i).Succeeded →
    (s.calls j).UnderWay ∨ (s.calls j).Succeeded → i = j

theorem exclusive_step (h : Step s e t) (ha : Alone s e) (hf : FlagTells s) (hx : Exclusive s) :
    Exclusive t := by
  obtain ⟨k, p, hcalls, hcase⟩ := step_cases h
  -- whoever is engaged after the step was so before, or is a call that began alone
  have hback : ∀ i, i ≠ k → (t.calls i).UnderWay ∨ (t.calls i).Succeeded →
      (s.calls i).UnderWay ∨ (s.calls i).Succeeded := by
    intro i hik hi
    simpa [hcalls, hik] using hi
  have hothers : (t.calls k).UnderWay ∨ (t.calls k).Succeeded →
      ∀ i, i ≠ k → ¬ ((s.calls i).UnderWay ∨ (s.calls i).Succeeded) := by
    intro hk i hik hi
    rcases hcase with ⟨-, -, hv, -, halone⟩ | ⟨-, rfl, -⟩ | ⟨hu, -⟩ | ⟨hu, -⟩
    · rcases hi with hi | hi
      · exact halone ha i hi
      · have hdown := hf.mpr ⟨i, hi⟩
        simp [hv] at hdown
    · simp [hcalls, CallPhase.UnderWay, CallPhase.Succeeded] at hk
    · exact hik (hx i k hi (.inl hu))
    · exact hik (hx i k hi (.inl hu))
  intro i j hi hj
  by_cases hik : i = k
  · by_cases hjk : j = k
    · exact hik.trans hjk.symm
    · exact absurd (hback j hjk hj) (hothers (hik ▸ hi) j hjk)
  · by_cases hjk : j = k
    · exact absurd (hback i hik hi) (hothers (hjk ▸ hj) i hik)
    · exact hx i j (hback i hik hi) (hback j hjk hj)

theorem exclusive_reachable (h : ((system τ).guarded Alone).Reachable s) : Exclusive s := by
  refine h.invariant ?_ ?_
  · rintro s ⟨config, rfl⟩ i j hi
    simp [create, CallPhase.UnderWay, CallPhase.Succeeded] at hi
  · rintro s e t hr ⟨hs, ha⟩ hx
    exact exclusive_step hs ha (flagTells_reachable hr.of_guarded) hx

theorem barred_step (h : Step s e t) (hs : s.valid = false) (hj : (s.calls j).Barred) :
    t.valid = false ∧ (t.calls j).Barred := by
  obtain ⟨i, p, hcalls, hcase⟩ := step_cases h
  have hkeep : j ≠ i → (t.calls j).Barred := by
    intro hji
    simpa [hcalls, hji] using hj
  have hidle : (s.calls i).UnderWay → (t.calls j).Barred := by
    intro hu
    apply hkeep
    rintro rfl
    rcases hj with hj | hj <;> simp [hj, CallPhase.UnderWay] at hu
  rcases hcase with ⟨-, -, hv, -⟩ | ⟨-, rfl, -, hv⟩ | ⟨hu, -, hv⟩ | ⟨hu, -, hv⟩
  · simp [hs] at hv
  · refine ⟨hv, ?_⟩
    by_cases hji : j = i
    · subst hji
      right
      simp [hcalls]
    · exact hkeep hji
  · exact ⟨hv, hidle hu⟩
  · exact ⟨hv.trans hs, hidle hu⟩

/-- After a success the calls still to come are refused. -/
theorem barred_run (h : (system τ).Run s es t) (hs : s.valid = false) (hj : (s.calls j).Barred) :
    (t.calls j).Barred := by
  induction h with
  | refl => exact hj
  | step hstep _ ih =>
    obtain ⟨hu, hbarred⟩ := barred_step hstep hs hj
    exact ih hu hbarred

theorem usable_of_valid (h : s.valid = true) : Usable s := by
  have hc : s.checkValidity = .ok () := by simp [checkValidity, h]
  intro i hi
  exact ⟨.unlockCalled hi hc, fun most least now => .extendCalled hi hc⟩

/-- A call under way may succeed, whatever the flag says. -/
theorem succeeds (h : (s.calls i).UnderWay) : ∃ t p, Step s (.settled i) t ∧
    t.calls = update s.calls i p ∧ p.Succeeded := by
  rcases h with hi | ⟨newConfig, hi⟩
  · exact ⟨_, _, .unlockResolves hi, rfl, .inl rfl⟩
  · exact ⟨_, _, .extendYields hi, rfl, .inr ⟨_, rfl⟩⟩

/-- Two calls that overlap can both succeed. -/
theorem both_succeed (hij : i ≠ j) (hi : (s.calls i).UnderWay) (hj : (s.calls j).UnderWay) :
    ∃ t, (system τ).Run s [.settled i, .settled j] t ∧ (t.calls i).Succeeded ∧
      (t.calls j).Succeeded := by
  obtain ⟨u, p, hu, hcalls, hp⟩ := succeeds hi
  have hju : (u.calls j).UnderWay := by simpa [hcalls, hij.symm] using hj
  obtain ⟨t, q, ht, hcalls', hq⟩ := succeeds hju
  have hiu : (u.calls i).Succeeded := by simpa [hcalls] using hp
  exact ⟨t, .step hu (.single ht), succeeded_step ht hiu, by simpa [hcalls'] using hq⟩

theorem successor_succeeded (h : (s.calls i).successor?.isSome = true) :
    (s.calls i).Succeeded := by
  cases hp : s.calls i <;> simp [hp, CallPhase.successor?] at h
  exact .inr ⟨_, rfl⟩

/-- Calls that pass the check alone make the handle one-shot. The refusal after a success and the
use before one need no condition; two calls under way can always both succeed. -/
theorem one_shot_of_alone (τ : Type*) :
    (∀ s : AbstractSimpleLock τ, ((system τ).guarded Alone).Reachable s →
      (∀ i j, (s.calls i).Succeeded → (s.calls j).Succeeded → i = j) ∧
      (∀ i j, (s.calls i).successor?.isSome = true → (s.calls j).successor?.isSome = true →
        i = j) ∧
      (∀ es t, (system τ).Run s es t → (∃ i, (s.calls i).Succeeded) →
        ∀ j, s.calls j = .unstarted → (t.calls j).Barred) ∧
      ((∀ i, ¬ (s.calls i).Succeeded) → Usable s)) ∧
    ∀ s : AbstractSimpleLock τ, (system τ).Reachable s → ∀ i j, i ≠ j →
      (s.calls i).UnderWay → (s.calls j).UnderWay →
      ∃ es t, (system τ).Run s es t ∧ (t.calls i).Succeeded ∧ (t.calls j).Succeeded := by
  constructor
  · intro s h
    have hone : ∀ i j, (s.calls i).Succeeded → (s.calls j).Succeeded → i = j :=
      fun i j hi hj => exclusive_reachable h i j (.inr hi) (.inr hj)
    have hflag := flagTells_reachable h.of_guarded
    refine ⟨hone, ?_, ?_, ?_⟩
    · intro i j hi hj
      exact hone i j (successor_succeeded hi) (successor_succeeded hj)
    · intro es t hrun hsucc j hj
      exact barred_run hrun (hflag.mpr hsucc) (.inl hj)
    · intro hnone
      apply usable_of_valid
      by_contra hv
      obtain ⟨i, hi⟩ := hflag.mp (by simpa using hv)
      exact hnone i hi
  · intro s _ i j hij hi hj
    obtain ⟨t, hrun, hsucc⟩ := both_succeed hij hi hj
    exact ⟨_, t, hrun, hsucc⟩

section Overlap

def minuteLock : LockConfiguration ℕ := ⟨"report", 60000, 0, 0⟩

def oneExtend : AbstractSimpleLock ℕ :=
  (create minuteLock).setCall 0 (.extending (minuteLock.successor 60000 0 1))

/-- The second `extend()` is made while the first awaits `doExtend`. -/
def twoExtends : AbstractSimpleLock ℕ :=
  oneExtend.setCall 1 (.extending (minuteLock.successor 60000 0 1))

theorem twoExtends_reachable : (system ℕ).Reachable twoExtends := by
  have hcreate : (system ℕ).Reachable (create minuteLock) := .initial ⟨minuteLock, rfl⟩
  have hfirst : (system ℕ).Step (create minuteLock) (.extendCalled 0 60000 0 1) oneExtend :=
    .extendCalled rfl rfl
  have hsecond : (system ℕ).Step oneExtend (.extendCalled 1 60000 0 1) twoExtends :=
    .extendCalled rfl rfl
  exact (hcreate.step hfirst).step hsecond

/-- Both calls end with a successor. -/
theorem overlapping_extends_both_yield : ∃ s : AbstractSimpleLock ℕ, (system ℕ).Reachable s ∧
    (s.calls 0).Succeeded ∧ (s.calls 1).Succeeded ∧
    (s.calls 0).successor?.isSome = true ∧ (s.calls 1).successor?.isSome = true := by
  let newConfig := minuteLock.successor 60000 0 1
  have hfirst : (system ℕ).Step twoExtends (.settled 0)
      (twoExtends.setCall 0 (.extended newConfig)).invalidate := .extendYields rfl
  have hsecond : (system ℕ).Step (twoExtends.setCall 0 (.extended newConfig)).invalidate
      (.settled 1)
      ((twoExtends.setCall 0 (.extended newConfig)).invalidate.setCall 1
        (.extended newConfig)).invalidate := .extendYields rfl
  exact ⟨_, (twoExtends_reachable.step hfirst).step hsecond, .inr ⟨newConfig, rfl⟩,
    .inr ⟨newConfig, rfl⟩, rfl, rfl⟩

end Overlap

end AbstractSimpleLock

end Tslock
