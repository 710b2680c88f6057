import Tslock.Documents.Transactions
import Tslock.Executor.Deployment

/-! Under a correct provider no two executions of a name run while their locks last. -/
namespace Tslock.Deployment

open Function Foundation LeaseProtocol
open Executor (Calls Call CallStep Encloses HoldsAround Awaited)

section Stacks

variable {provider : ℕ → ℕ} {s t : Calls} {e : Executor.CallEvent} {i : ℕ} {c : Call}

/-- A task that runs without a lock of its own has its name on the stack it found. -/
def Shortcuts (s : Calls) : Prop :=
  ∀ i c, s i = some c → c.phase = .running → c.grantedBy = none →
    LockAssert.alreadyLockedBy c.names c.name = true

theorem shortcuts_update (h : Shortcuts s)
    (hc : c.phase = .running → c.grantedBy = none →
      LockAssert.alreadyLockedBy c.names c.name = true) :
    Shortcuts (update s i (some c)) := by
  intro j d hd hphase hnone
  by_cases hj : j = i
  · subst hj
    rw [update_self] at hd
    cases hd
    exact hc hphase hnone
  · rw [update_of_ne hj] at hd
    exact h j d hd hphase hnone

theorem shortcuts_step (hs : CallStep provider s e t) (h : Shortcuts s) : Shortcuts t := by
  cases hs with
  | reentrant _ _ hname => exact shortcuts_update h fun _ _ => hname
  | asks | refused | settledReentrant | settledLocked | unlocked => exact shortcuts_update h nofun
  | granted => exact shortcuts_update h fun _ => nofun

theorem shortcuts_reachable (h : (Executor.callSystem provider).Reachable s) : Shortcuts s := by
  refine h.invariant ?_ fun _ _ _ _ hs hi => shortcuts_step hs hi
  intro s₀ h₀ i c hc
  rw [h₀ i] at hc
  cases hc

/-- Around each running task there is a running call with a lock of its name. -/
theorem holdsAround_of_running (h : ((Executor.callSystem provider).guarded Awaited).Reachable s)
    (hc : s i = some c) (hrun : c.phase = .running) :
    ∃ p d, HoldsAround s i c.name p d ∧ d.phase = .running := by
  cases hg : c.grantedBy with
  | some x =>
    exact ⟨i, c, ⟨.self hc, hc, rfl, Option.isSome_iff_exists.mpr ⟨x, hg⟩, .inl hrun⟩, hrun⟩
  | none =>
    have hname := shortcuts_reachable h.of_guarded i c hc hrun hg
    obtain ⟨p, hparent, q, d, hq, hd, hdname, hgrant⟩ :=
      (Executor.inherited_reachable h.of_guarded).names i c hc _ hname
    have hencloses : Encloses s q i := .parent hc hparent hq
    obtain ⟨d', hd', hphase⟩ :=
      Executor.running_of_encloses (Executor.parentsRunning_reachable h) hencloses ⟨c, hc, hrun⟩
    obtain rfl := Option.some.inj (hd.symm.trans hd')
    exact ⟨q, d, ⟨hencloses, hd, hdname, Option.isSome_iff_exists.mpr ⟨_, hgrant⟩, .inl hphase⟩,
      hphase⟩

end Stacks

variable {σ Q ε τ : Type} {A : Q → Type}

section Entries

variable {a b : LockCall (Phase τ) τ} {r : Except ε Bool}

/-- What the provider is at for a call of an executor. A running task has the handle, or an
extension of it failed after its effect. -/
def Suits : Executor.CallPhase → Phase τ → Prop
  | .locking, .locking _ => True
  | .running, .held | .running, .extending .. | .running, .ended => True
  | .unlocking, .unlocking _ => True
  | .notExecuted, _ | .finished, _ => True
  | _, _ => False

/-- The entry goes on in the same operation. -/
structure Follows (a b : LockCall (Phase τ) τ) : Prop where
  name : b.config.name = a.config.name
  suits : ∀ p, Suits p a.phase → Suits p b.phase

theorem Follows.refl : Follows a a := ⟨rfl, fun _ h => h⟩

theorem follows_written : Follows a (written a) := by
  obtain ⟨config, phase⟩ := a
  refine ⟨?_, fun p => ?_⟩
  · cases phase <;> rfl
  · cases phase <;> cases p <;> exact id

theorem name_settled : (settled a r).config.name = a.config.name := by
  obtain ⟨config, phase⟩ := a
  unfold settled
  split <;> rfl

/-- An extension that settles leaves a handle, or an end. -/
theorem running_settled (h : Suits .running a.phase) : Suits .running (settled a r).phase := by
  obtain ⟨config, phase⟩ := a
  cases phase with
  | held | ended => exact h
  | locking | unlocking => exact h.elim
  | extending most least now renewed =>
    rcases r with e | (_ | _)
    · cases renewed <;> trivial
    · cases renewed <;> trivial
    · trivial

end Entries

section Services

variable [LinearOrder τ] {storage : Storage σ Q A τ} {code : Code Q A ε τ} {i j : ℕ}
  {s t : Service.State (LeaseProtocol.State σ τ) Q A ε Bool} {a : LockCall (Phase τ) τ}
  {e : Service.Event}

/-- A step in which no call starts or settles. -/
theorem entry_quiet (h : (service storage code).Step s e t)
    (he : e = .internal ∨ ∃ j, e = .served j) (ha : s.shared.locks i = some a) :
    ∃ b, t.shared.locks i = some b ∧ Follows a b := by
  cases h with
  | internal h =>
    rcases h with ⟨now, -, rfl⟩ | ⟨store, -, rfl⟩
    · exact ⟨a, ha, .refl⟩
    · exact ⟨a, ha, .refl⟩
  | started | settled => rcases he with he | ⟨j, he⟩ <;> cases he
  | @served j _ _ _ _ _ h =>
    cases h with
    | quiet => exact ⟨a, ha, .refl⟩
    | @wrote _ _ _ _ _ b _ hb =>
      by_cases hij : i = j
      · subst hij
        obtain rfl := Option.some.inj (ha.symm.trans hb)
        exact ⟨_, update_self _ _ _, follows_written⟩
      · exact ⟨a, (update_of_ne hij _ _).trans ha, .refl⟩

/-- A call that starts or settles leaves the others alone. -/
theorem entry_other (h : (service storage code).Step s e t)
    (he : e = .started i ∨ e = .settled i) (hj : j ≠ i) :
    t.shared.locks j = s.shared.locks j := by
  rcases he with rfl | rfl
  · cases h with
    | started _ h =>
      cases h with
      | lock | unlock | extend => exact update_of_ne hj _ _
  · cases h with
    | settled _ _ h =>
      obtain ⟨a, -, rfl⟩ := h
      exact update_of_ne hj _ _

theorem entry_settled (h : (service storage code).Step s (.settled i) t)
    (ha : s.shared.locks i = some a) :
    ∃ p r, s.running i = some p ∧ p.outcome = some r ∧ t.shared.locks i = some (settled a r) := by
  cases h with
  | settled hp hr h =>
    obtain ⟨b, hb, rfl⟩ := h
    obtain rfl := Option.some.inj (ha.symm.trans hb)
    exact ⟨_, _, hp, hr, update_self _ _ _⟩

theorem entry_started (h : (service storage code).Step s (.started i) t)
    (ha : s.shared.locks i = some a) :
    ∃ b, t.shared.locks i = some b ∧ b.config.name = a.config.name := by
  cases h with
  | started _ h =>
    cases h with
    | lock hnone =>
      rw [hnone] at ha
      cases ha
    | unlock hb | extend hb =>
      obtain rfl := Option.some.inj (ha.symm.trans hb)
      exact ⟨_, update_self _ _ _, rfl⟩

end Services

section Handles

variable {provider : ℕ → ℕ} {storage : Storage σ Q A τ} {code : Code Q A ε τ}
  {s t : State σ Q A ε τ} {e : Event} {i : ℕ} {c : Call}

/-- The handle of a call. -/
def Linked (s : State σ Q A ε τ) (i : ℕ) (c : Call) : Prop :=
  c.phase = .locking ∨ c.grantedBy.isSome = true →
    ∃ a, s.handle i = some a ∧ a.config.name = c.name ∧ Suits c.phase a.phase

/-- Every call that waits for its lock or was granted one has its handle. -/
def AllLinked (s : State σ Q A ε τ) : Prop := ∀ i c, s.calls i = some c → Linked s i c

theorem Linked.follows (h : Linked s i c)
    (hnext : ∀ a, s.handle i = some a → ∃ b, t.handle i = some b ∧ Follows a b) :
    Linked t i c := by
  intro hc
  obtain ⟨a, ha, hname, hsuits⟩ := h hc
  obtain ⟨b, hb, hfollows⟩ := hnext a ha
  exact ⟨b, hb, hfollows.name.trans hname, hfollows.suits _ hsuits⟩

/-- A step of one call, which leaves the handles of the others alone. -/
theorem AllLinked.update (h : AllLinked s) (hcalls : t.calls = update s.calls i (some c))
    (hothers : ∀ j, j ≠ i → t.handle j = s.handle j) (hself : Linked t i c) : AllLinked t := by
  intro j d hd
  rw [hcalls] at hd
  by_cases hj : j = i
  · subst hj
    rw [update_self] at hd
    cases hd
    exact hself
  · rw [update_of_ne hj] at hd
    exact (h j d hd).follows fun a ha => ⟨a, (hothers j hj).trans ha, .refl⟩

/-- A step of one handle, under the call that has it. -/
theorem AllLinked.handle (h : AllLinked s) (hcalls : t.calls = s.calls)
    (hothers : ∀ j, j ≠ i → t.handle j = s.handle j)
    (hself : ∀ c, s.calls i = some c → Linked t i c) : AllLinked t := by
  intro j d hd
  rw [hcalls] at hd
  by_cases hj : j = i
  · subst hj
    exact hself d hd
  · exact (h j d hd).follows fun a ha => ⟨a, (hothers j hj).trans ha, .refl⟩

variable [LinearOrder τ]

theorem linked_step (hs : Step provider storage code s e t) (h : AllLinked s) : AllLinked t := by
  cases hs with
  | @shortcut calls i parent c hcall hc hrun =>
    cases hcall with
    | reentrant =>
      exact h.update rfl (fun _ _ => rfl) nofun
    | asks =>
      rw [update_self] at hc
      cases hc
      cases hrun
  | @asks calls locks i parent c config hcall hc hphase hstart hentry hname =>
    cases hcall with
    | reentrant =>
      rw [update_self] at hc
      cases hc
      cases hphase
    | asks =>
      rw [update_self] at hc
      cases hc
      refine h.update rfl (fun j hj => entry_other hstart (.inl rfl) hj) ?_
      exact fun _ => ⟨_, hentry, hname, trivial⟩
  | internal hstep =>
    exact fun j d hd => (h j d hd).follows fun a ha => entry_quiet hstep (.inl rfl) ha
  | served hstep =>
    exact fun j d hd => (h j d hd).follows fun a ha => entry_quiet hstep (.inr ⟨_, rfl⟩) ha
  | @granted _ _ i hcall htrue hsettle =>
    cases hcall with
    | granted hc hphase =>
      refine h.update rfl (fun j hj => entry_other hsettle (.inr rfl) hj) fun _ => ?_
      obtain ⟨⟨config, phase⟩, ha, hname, hsuits⟩ := h i _ hc (.inl hphase)
      obtain ⟨p, r, hp, hr, ht⟩ := entry_settled hsettle ha
      obtain rfl := Option.some.inj (htrue.symm.trans hp)
      obtain rfl := Option.some.inj hr
      rw [hphase] at hsuits
      refine ⟨_, ht, name_settled.trans hname, ?_⟩
      cases phase with
      | locking => trivial
      | held | unlocking | extending | ended => exact hsuits.elim
  | @refused _ _ i hcall _ hsettle =>
    cases hcall with
    | refused hc hphase =>
      refine h.update rfl (fun j hj => entry_other hsettle (.inr rfl) hj) fun _ => ?_
      obtain ⟨a, ha, hname, -⟩ := h i _ hc (.inl hphase)
      obtain ⟨-, r, -, -, ht⟩ := entry_settled hsettle ha
      exact ⟨_, ht, name_settled.trans hname, trivial⟩
  | @asksExtension _ i c config most least now hc hphase hgranted hstart hentry =>
    refine h.handle rfl (fun j hj => entry_other hstart (.inl rfl) hj) fun d hd _ => ?_
    obtain rfl := Option.some.inj (hc.symm.trans hd)
    obtain ⟨a, ha, hname, -⟩ := h i c hc (.inr hgranted)
    obtain ⟨b, hb, hsame⟩ := entry_started hstart ha
    obtain rfl := Option.some.inj (hentry.symm.trans hb)
    refine ⟨_, hentry, hsame.trans hname, ?_⟩
    rw [hphase]
    trivial
  | @extensionSettled _ i c hc hphase hsettle =>
    refine h.handle rfl (fun j hj => entry_other hsettle (.inr rfl) hj) fun d hd hlinked => ?_
    obtain rfl := Option.some.inj (hc.symm.trans hd)
    obtain ⟨a, ha, hname, hsuits⟩ := h i c hc hlinked
    obtain ⟨-, r, -, -, ht⟩ := entry_settled hsettle ha
    refine ⟨_, ht, name_settled.trans hname, ?_⟩
    rw [hphase] at hsuits ⊢
    exact running_settled hsuits
  | @settledShortcut _ i c hcall hc hnone =>
    cases hcall with
    | settledReentrant hb _ hgranted =>
      refine h.update rfl (fun _ _ => rfl) ?_
      rintro (hphase | hsome)
      · cases hphase
      · rw [hgranted] at hsome
        cases hsome
    | settledLocked hb _ hgranted =>
      obtain rfl := Option.some.inj (hc.symm.trans hb)
      rw [hnone] at hgranted
      cases hgranted
  | @settled _ _ i c config hcall hc hgranted hstart hentry =>
    cases hcall with
    | settledReentrant hb _ hnone =>
      obtain rfl := Option.some.inj (hc.symm.trans hb)
      rw [hnone] at hgranted
      cases hgranted
    | settledLocked hb =>
      refine h.update rfl (fun j hj => entry_other hstart (.inl rfl) hj) fun _ => ?_
      obtain rfl := Option.some.inj (hc.symm.trans hb)
      obtain ⟨a, ha, hname, -⟩ := h i c hc (.inr hgranted)
      obtain ⟨b, hb, hsame⟩ := entry_started hstart ha
      obtain rfl := Option.some.inj (hentry.symm.trans hb)
      exact ⟨_, hentry, hsame.trans hname, trivial⟩
  | @unlocked _ _ i hcall hsettle =>
    cases hcall with
    | @unlocked _ c hc hphase =>
      refine h.update rfl (fun j hj => entry_other hsettle (.inr rfl) hj) fun hlinked => ?_
      rcases hlinked with hlocking | hgranted
      · cases hlocking
      · obtain ⟨a, ha, hname, -⟩ := h i c hc (.inr hgranted)
        obtain ⟨-, r, -, -, ht⟩ := entry_settled hsettle ha
        exact ⟨_, ht, name_settled.trans hname, trivial⟩

theorem linked_reachable (h : (system provider storage code).Reachable s) : AllLinked s := by
  refine h.invariant ?_ fun _ _ _ _ hs hi => linked_step hs.1 hi
  intro s₀ h₀ i c hc
  rw [h₀.1 i] at hc
  cases hc

end Handles

section Executions

variable [LinearOrder τ] {provider : ℕ → ℕ} {storage : Storage σ Q A τ}
  {code : Code Q A ε τ} {s t u : State σ Q A ε τ} {e : Event} {es : List Event} {i j : ℕ}
  {c d : Call}

/-- Call `i` runs its task under the lock of call `p`, which is `i` or a call around it. -/
structure RunsUnder (s : State σ Q A ε τ) (i : ℕ) (name : String) (p : ℕ)
    (a : LockCall (Phase τ) τ) : Prop where
  around : ∃ d, HoldsAround s.calls i name p d
  handle : s.handle p = some a
  name : a.config.name = name
  suits : Suits .running a.phase

theorem runsUnder_of_running (h : (system provider storage code).Reachable s)
    (hc : s.calls i = some c) (hrun : c.phase = .running) :
    ∃ p a, RunsUnder s i c.name p a := by
  obtain ⟨p, d, haround, hphase⟩ :=
    holdsAround_of_running (calls_abstraction.reachable h) hc hrun
  obtain ⟨a, ha, hname, hsuits⟩ := linked_reachable h p d haround.call (.inr haround.granted)
  rw [hphase] at hsuits
  exact ⟨p, a, ⟨d, haround⟩, ha, hname.trans haround.name, hsuits⟩

variable [Add τ]

/-- Two tasks of one name that run under locks which last run under the same lock. -/
theorem executions_exclude (hcode : Correct storage code)
    (h : (system provider storage code).Reachable s) (hi : s.calls i = some c)
    (hj : s.calls j = some d) (hc : c.phase = .running) (hd : d.phase = .running)
    (hname : c.name = d.name) :
    ∃ p q a b, RunsUnder s i c.name p a ∧ RunsUnder s j d.name q b ∧
      (Live s.locks p a → Live s.locks q b → p = q) := by
  obtain ⟨p, a, ha⟩ := runsUnder_of_running h hi hc
  obtain ⟨q, b, hb⟩ := runsUnder_of_running h hj hd
  refine ⟨p, q, a, b, ha, hb, fun hlive hlive' => ?_⟩
  have hprotocol := hcode.protocol (locks_abstraction.reachable h)
  exact hprotocol.unique p q a b hlive hlive' (ha.name.trans (hname.trans hb.name.symm))

/-- From a state on, no task of a name runs under a lock that lasts, and none under a lock granted
since. -/
def Waits (s t : State σ Q A ε τ) (name : String) : Prop :=
  ∀ i c, t.calls i = some c → c.phase = .running → c.name = name →
    ∃ p a, RunsUnder t i name p a ∧ ¬ Live t.locks p a ∧
      (a.phase.Outstanding → ∃ b, s.handle p = some b ∧ b.phase.Outstanding ∧ b.config.name = name)

/-- The next execution of a name waits until the minimum hold of the last one is over. -/
theorem next_execution_waits (hcode : Correct storage code)
    (h : (system provider storage code).Reachable s)
    (hs : (system provider storage code).Step s e t) {a : LockCall (Phase τ) τ} {deadline : τ}
    (hw : Wrote storage i a deadline s.locks.shared t.locks.shared)
    (ha : a.phase = .unlocking false) (hr : (system provider storage code).Run t es u)
    (hmin : u.locks.shared.clock < a.config.lockAtLeastUntil) : Waits t u a.config.name := by
  intro j d hj hd hname
  have ht := h.step hs
  obtain ⟨p, b, hb⟩ := runsUnder_of_running (ht.run hr) hj hd
  rw [hname] at hb
  obtain ⟨bs, hrun⟩ := locks_abstraction.run ht hr
  have hk := Service.kept_reachable hcode.keeps (locks_abstraction.reachable ht)
  refine ⟨p, b, hb, fun hlive => ?_, fun ho => ?_⟩
  · exact not_live_before_minimum hcode hk hw ha hrun hmin hlive hb.name
  · exact minimumHold hcode hk hw ha hrun hmin hb.handle ho hb.name

end Executions

section Nightly

open Documents (Document nightlyProviders emptyCollection nightlyCollection nightlyDocument nightly)
open RecordStore (Request Answer)

abbrev NightlyValue := String ⊕ ℤ × ℤ

abbrev NightlyState := State (RecordStore.Store ℕ (Document NightlyValue))
  (Request ℕ (Document NightlyValue) ℤ) (Answer ℕ (Document NightlyValue) ℤ) RecordStore.Thrown ℤ

/-- Executors on two hosts over one collection. -/
abbrev nightlySystem :=
  system (fun _ => 0) (RecordStore.storage nightlyProviders.setup) nightlyProviders.code

def nightlyCalls (grantedBy : Option ℕ) (phase : Executor.CallPhase) : Calls :=
  update (fun _ => none) 0 (some ⟨0, "nightly", none, none, grantedBy, phase⟩)

/-- The transaction of an accessor method. -/
abbrev nightlyTransaction
    (run : ClockReading → ClockReading → Option (Document NightlyValue) →
      Documents.Outcome NightlyValue)
    (first second : ℤ) (document : Option (Document NightlyValue)) :
    RecordStore.Transacted (Document NightlyValue) :=
  match Documents.reading first, Documents.reading second with
  | some now, some later => ⟨(run now later document).write, (run now later document).reply⟩
  | _, _ => ⟨none, .done⟩

abbrev createNightly := nightlyTransaction fun now _ =>
  (nightlyProviders.accessor 0).insertRecord (Documents.whole nightly) now

abbrev unlockNightly := nightlyTransaction fun now _ =>
  (nightlyProviders.accessor 0).unlock (Documents.whole nightly) now

/-- A run to the first execution of `nightly`. -/
theorem nightly_running : ∃ entries running registry,
    nightlySystem.Reachable ⟨nightlyCalls (some 0) .running,
      ⟨0, ⟨registry, nightlyCollection.records⟩, entries⟩, running⟩ ∧
    running 0 = none ∧ entries 0 = some ⟨nightly, .held⟩ := by
  have h₀ : nightlySystem.Reachable
      ⟨fun _ => none, ⟨0, emptyCollection, fun _ => none⟩, fun _ => none⟩ :=
    .initial ⟨fun _ => rfl, ⟨fun _ _ => rfl, fun _ => rfl⟩, fun _ => rfl⟩
  have hadmits : Documents.Admits 0 nightly := by decide
  have hcall : CallStep (fun _ => 0) (fun _ => none) (.start 0 none)
      (nightlyCalls none .locking) := .asks rfl nofun rfl
  have hasked := h₀.step ⟨.asks hcall rfl rfl (.started rfl (.lock rfl hadmits)) rfl rfl, nofun⟩
  have hunknown := hasked.step ⟨.served (.served (update_self _ _ _)
    (.quiet .lockRecordRecentlyCreated)), trivial⟩
  have hcreate : RecordStore.Serve nightlyProviders.setup 0 0 emptyCollection
      (.transact "nightly" createNightly) (.ok (.returned true)) true nightlyCollection :=
    .transacted (le_refl 0) (le_refl 0) (by decide +kernel) nofun
  have hwritten := hunknown.step
    ⟨.served (.served (update_self _ _ _) (.wrote hcreate rfl)), trivial⟩
  have hknown := hwritten.step ⟨.served (.served (update_self _ _ _) (.quiet .addRecord)), trivial⟩
  have hgrant : CallStep (fun _ => 0) (nightlyCalls none .locking) (.granted 0)
      (nightlyCalls (some 0) .running) := by
    have h := @CallStep.granted (fun _ => 0) (nightlyCalls none .locking) 0 _ rfl rfl
    rwa [nightlyCalls, update_idem] at h
  have hgranted := hknown.step ⟨.granted hgrant rfl
    (.settled (p := .done true) (r := .ok true) rfl rfl ⟨_, rfl, rfl⟩), trivial⟩
  exact ⟨_, _, _, hgranted, rfl, rfl⟩

/-- A call in the task of the first execution. -/
def nestedCall : Call := ⟨1, "nightly", some 0, some ["nightly"], none, .running⟩

/-- The task of the first execution and one that it has started run under one lock. -/
theorem nightly_executions_exclude :
    ∃ (s : NightlyState) (p q : ℕ) (a b : LockCall (Phase ℤ) ℤ),
      s.calls 1 = some nestedCall ∧ RunsUnder s 0 "nightly" p a ∧ RunsUnder s 1 "nightly" q b ∧
        (Live s.locks p a → Live s.locks q b → p = q) := by
  obtain ⟨entries, running, registry, h, -⟩ := nightly_running
  have hnested : CallStep (fun _ => 0) (nightlyCalls (some 0) .running) (.start 1 (some 0))
      (update (nightlyCalls (some 0) .running) 1 (some nestedCall)) := by
    refine .reentrant rfl ?_ rfl
    rintro p ⟨rfl⟩
    exact ⟨_, rfl, .inl rfl⟩
  have hstarted := h.step ⟨.shortcut hnested (update_self _ _ _) rfl, by
    rintro p ⟨rfl⟩
    exact ⟨_, rfl, rfl⟩⟩
  obtain ⟨p, q, a, b, ha, hb, hsame⟩ := executions_exclude
    (Documents.accessor_meets nightlyProviders).correct hstarted (i := 0) (j := 1) rfl rfl rfl rfl
    rfl
  exact ⟨_, p, q, a, b, rfl, ha, hb, hsame⟩

theorem nightly_unlocking : ∃ entries running registry next,
    nightlySystem.Reachable ⟨nightlyCalls (some 0) .unlocking,
      ⟨0, ⟨registry, nightlyCollection.records⟩, entries⟩, running⟩ ∧
    entries 0 = some ⟨nightly, .unlocking false⟩ ∧
    running 0 = some (.await (.transact "nightly" unlockNightly) next) := by
  obtain ⟨entries, running, registry, h, hrunning, hheld⟩ := nightly_running
  have hadmits : Documents.Admits 0 nightly := by decide
  have hsettled : CallStep (fun _ => 0) (nightlyCalls (some 0) .running) (.settled 0)
      (nightlyCalls (some 0) .unlocking) := by
    have h := @CallStep.settledLocked (fun _ => 0) (nightlyCalls (some 0) .running) 0 _ rfl rfl rfl
    rwa [nightlyCalls, update_idem] at h
  have hawaited : ∀ j c, nightlyCalls (some 0) .running j = some c → c.parent = some 0 →
      c.phase.Settled := by
    intro j c hc hparent
    rcases eq_or_ne j 0 with rfl | hj
    · cases hc
      cases hparent
    · rw [nightlyCalls, update_of_ne hj] at hc
      cases hc
  have hunlocking := h.step ⟨.settled hsettled rfl rfl (.started hrunning (.unlock hheld hadmits))
    rfl, hawaited⟩
  exact ⟨_, _, _, _, hunlocking, rfl, rfl⟩

def releasedDocument : Document NightlyValue := { nightlyDocument with lockUntil := .inr (5, 0) }

/-- After the first execution the next one waits. -/
theorem nightly_next_execution_waits : ∃ t u : NightlyState, Waits t u "nightly" := by
  obtain ⟨entries, running, registry, next, h, hentry, hrunning⟩ := nightly_unlocking
  have hwrite : (unlockNightly 0 0 (some nightlyDocument)).write = some releasedDocument := by
    decide +kernel
  have hupdate : (RecordStore.storage nightlyProviders.setup).Serve 0 0
      ⟨registry, nightlyCollection.records⟩ (.transact "nightly" unlockNightly) (.ok .done) true
      ⟨registry, update nightlyCollection.records "nightly" (some ⟨2, releasedDocument, 0⟩)⟩ :=
    .transacted (le_refl 0) (le_refl 0) hwrite (by rintro x ⟨⟩; decide)
  have hcarried : nightlyProviders.setup.lockUntil nightlyDocument = some 60000 := by
    decide +kernel
  have hreleased : nightlyProviders.setup.lockUntil releasedDocument = some 5000 := by
    decide +kernel
  have hcell : RecordStore.cell nightlyProviders.setup
      ⟨registry, nightlyCollection.records⟩ "nightly" = some (0, 60000) := by
    have hwritten : (⟨registry, nightlyCollection.records⟩ : RecordStore.Store ℕ _).records
        (nightlyProviders.setup.key "nightly") = some ⟨1, nightlyDocument, 0⟩ := rfl
    rw [RecordStore.cell_of hwritten, hcarried]
    rfl
  have hserve : Serve (RecordStore.storage nightlyProviders.setup) 0
      ⟨0, ⟨registry, nightlyCollection.records⟩, entries⟩ _ _ _ := .wrote hupdate hentry
  exact ⟨_, _, next_execution_waits (Documents.accessor_meets nightlyProviders).correct h
    ⟨.served (.served hrunning hserve), trivial⟩
    ⟨hentry, ⟨rfl, ⟨0, hcell⟩, le_refl _⟩, RecordStore.cell_write hreleased, rfl, rfl⟩
    rfl .refl (show (0 : ℤ) < nightly.lockAtLeastUntil by decide)⟩

end Nightly

end Tslock.Deployment
