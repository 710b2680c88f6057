import Tslock.Tracking.Acquisitions

/-! What stays in the tracking wrapper once a call of `executeWithLock` is over. -/
namespace Tslock.Tracking

open Function Foundation TrackingLockProviderWrapper

/-- An `extend` is granted on a handle that is still tracked, and `unlock()` finds the lease not
lost and its current handle tracked. -/
def Tracked (s : System) (e : Event) : Prop :=
  ∀ x, s.acquisitions e.acquisition = some (.executing x) →
    match e.action with
    | .extendGranted j => ∀ r call, x.renewals j = .called r call →
        call.extended ∈ s.tracking.activeLocks
    | .taskSettled => x.keepAlive.lost = false ∧
        x.keepAlive.currentLock ∈ s.tracking.activeLocks
    | _ => True

/-- The handles a call knows descend from its own lock. -/
structure Execution.OwnedBy (x : Execution) (w : TrackingLockProviderWrapper) (i : ℕ) : Prop where
  current : w.owner x.keepAlive.currentLock = some i
  called : ∀ j r call, x.renewals j = .called r call → w.owner call.extended = some i
  answered : ∀ j r call h, x.renewals j = .answered r call (some h) → w.owner h = some i

def Acquisition.OwnedBy (w : TrackingLockProviderWrapper) (i : ℕ) : Acquisition → Prop
  | .granted _ h => w.owner h = some i
  | .executing x => x.OwnedBy w i
  | _ => True

/-- One active handle while the lock is held, none before and after. -/
structure Acquisition.Contributes (a : Acquisition) (active : List ℕ) : Prop where
  held : a.Holding → ∃ h, active = [h]
  free : ¬ a.Holding → active = []

variable {s t : System} {e : Event} {w w' : TrackingLockProviderWrapper} {x y : Execution}
  {a : Action} {i j h : ℕ} {most least now : ℚ}

section Owners

theorem lt_of_owner (hh : w.owner h = some i) : h < w.handles.length := by
  obtain ⟨lock, hlock, -⟩ := Option.map_eq_some_iff.mp hh
  exact (List.getElem?_eq_some_iff.mp hlock).1

theorem owner_track_mono {lock : TrackingSimpleLock} (hh : w.owner h = some i) :
    (w.track lock).owner h = some i :=
  (owner_track (lt_of_owner hh)).trans hh

theorem owner_extended_mono {g : ℕ} (hh : w.owner h = some i) :
    (w.extended g most least now).owner h = some i := by
  unfold extended
  split
  · exact hh
  · exact owner_track_mono hh

theorem owner_extended_new (hh : w.owner h = some i) :
    (w.extended h most least now).owner w.handles.length = some i := by
  obtain ⟨lock, hlock, hi⟩ := Option.map_eq_some_iff.mp hh
  unfold extended
  rw [hlock]
  exact owner_track_new.trans (congrArg some hi)

/-- No step moves a handle to another call. -/
theorem execution_owner_mono (hx : ExecutionStep w x a w' y) (hh : w.owner h = some i) :
    w'.owner h = some i := by
  cases hx with
  | extendGranted => exact owner_extended_mono hh
  | unlocks => exact owner_unlock.trans hh
  | inactive | lost | calls | extendRefused | extendRejected | answered | retried | gaveUp | skips
  | settles => exact hh

theorem Execution.OwnedBy.mono (hx : x.OwnedBy w i)
    (hw : ∀ h, w.owner h = some i → w'.owner h = some i) : x.OwnedBy w' i where
  current := hw _ hx.current
  called j r call hj := hw _ (hx.called j r call hj)
  answered j r call h hj := hw _ (hx.answered j r call h hj)

theorem Acquisition.OwnedBy.mono {b : Acquisition} (hb : b.OwnedBy w i)
    (hw : ∀ h, w.owner h = some i → w'.owner h = some i) : b.OwnedBy w' i := by
  cases b with
  | locking | notExecuted => trivial
  | granted config h => exact hw h hb
  | executing x => exact Execution.OwnedBy.mono hb hw

/-- Only a response to `extend` gives the keep-alive lock another handle. -/
theorem afterExtend_currentLock (k : KeepAliveLock ℕ) (extended : ℕ) (next now : ℚ)
    (answer : Option ℕ) :
    (k.afterExtend extended next now answer).1.currentLock = k.currentLock ∨
      answer = some (k.afterExtend extended next now answer).1.currentLock := by
  cases answer with
  | none =>
    rcases k.afterExtend_none_cases extended next now with heq | ⟨-, -, -, heq⟩
    · exact .inl (by rw [heq])
    · exact .inl (by rw [heq]; rfl)
  | some newLock =>
    cases hr : k.released with
    | true => exact .inl (by rw [KeepAliveLock.afterExtend_of_released _ hr])
    | false => exact .inr (by rw [(KeepAliveLock.afterExtend_some hr).1])

theorem execution_ownedBy (hx : ExecutionStep w x a w' y) (ho : x.OwnedBy w i) :
    y.OwnedBy w' i := by
  have hmono := ho.mono fun h hh => execution_owner_mono hx hh
  cases hx with
  | inactive | lost | extendRefused | extendRejected | retried | gaveUp | unlocks | skips |
    settles =>
    refine ⟨hmono.current, ?_, ?_⟩
    · intro k r call hk
      exact hmono.called k r call (by grind)
    · intro k r call h hk
      exact hmono.answered k r call h (by grind)
  | @calls k₀ extended r₀ c now most next _ hcall =>
    obtain ⟨-, rfl, -⟩ := KeepAliveLock.extendForNextPeriod_call hcall
    refine ⟨ho.current, ?_, ?_⟩
    · intro k r call hk
      rcases eq_or_ne k k₀ with rfl | hne
      · rw [setRenewal_renewals_apply, if_pos rfl] at hk
        cases hk
        exact ho.current
      · exact ho.called k r call (by grind)
    · intro k r call h hk
      exact ho.answered k r call h (by grind)
  | @extendGranted k₀ r₀ call₀ now hj =>
    refine ⟨hmono.current, ?_, ?_⟩
    · intro k r call hk
      exact hmono.called k r call (by grind)
    · intro k r call h hk
      rcases eq_or_ne k k₀ with rfl | hne
      · rw [setRenewal_renewals_apply, if_pos rfl] at hk
        cases hk
        exact owner_extended_new (ho.called k r₀ call₀ hj)
      · exact hmono.answered k r call h (by grind)
  | @answered k₀ r₀ call₀ answer hj =>
    refine ⟨?_, ?_, ?_⟩
    · rcases afterExtend_currentLock x.keepAlive call₀.extended call₀.next call₀.now answer with
        heq | hanswer
      · exact (congrArg w.owner heq).trans ho.current
      · exact ho.answered k₀ r₀ call₀ _ (hj.trans (by rw [← hanswer]))
    · intro k r call hk
      exact ho.called k r call (by grind)
    · intro k r call h hk
      exact ho.answered k r call h (by grind)

end Owners

section Active

theorem mem_activeOf {g : ℕ} : g ∈ w.activeOf i ↔ g ∈ w.activeLocks ∧ w.owner g = some i := by
  simp [activeOf]

/-- Dropping a handle is felt by its own call only. -/
theorem activeOf_filter_ne (hh : w.owner h = some i) (hne : j ≠ i) :
    ((w.activeOf j).filter fun g => decide (g ≠ h)) = w.activeOf j := by
  refine List.filter_eq_self.mpr fun g hg => decide_eq_true ?_
  rintro rfl
  rw [(mem_activeOf.mp hg).2, Option.some.injEq] at hh
  exact hne hh

theorem activeOf_filter_of_not_mem (hh : h ∉ w.activeLocks) :
    ((w.activeOf j).filter fun g => decide (g ≠ h)) = w.activeOf j :=
  List.filter_eq_self.mpr fun _ hg =>
    decide_eq_true (ne_of_mem_of_not_mem (mem_activeOf.mp hg).1 hh)

theorem activeOf_extended (hw : w.WellFormed) (hh : w.owner h = some i) :
    (w.extended h most least now).activeOf j =
      ((w.activeOf j).filter fun g => decide (g ≠ h)) ++
        if i = j then [w.handles.length] else [] := by
  obtain ⟨lock, hlock, rfl⟩ := Option.map_eq_some_iff.mp hh
  unfold extended
  rw [hlock]
  dsimp only
  rw [activeOf_track (wellFormed_untrack hw), activeOf_untrack]
  rfl

theorem activeOf_unlock (hw : w.WellFormed) :
    (w.unlock h).activeOf j = (w.activeOf j).filter fun g => decide (g ≠ h) := by
  by_cases hh : h ∈ w.activeLocks
  · obtain ⟨lock, hlock, hunlocked⟩ := hw.live h hh
    have hset : (w.unlock h).activeLocks = JsSet.delete w.activeLocks h := by
      unfold unlock
      rw [hlock]
      simp [hunlocked, untrack]
    unfold activeOf
    simp only [hset, owner_unlock]
    exact List.filter_comm _ _ _
  · have hset : (w.unlock h).activeLocks = w.activeLocks := by
      have hdelete : JsSet.delete w.activeLocks h = w.activeLocks :=
        List.filter_eq_self.mpr fun g hg => decide_eq_true (ne_of_mem_of_not_mem hg hh)
      unfold unlock
      split
      · rfl
      · split_ifs
        · rfl
        · exact hdelete
    rw [activeOf_filter_of_not_mem hh]
    unfold activeOf
    simp only [hset, owner_unlock]

variable (hw : w.WellFormed) (ho : x.OwnedBy w i)
include hw ho

/-- The steps of a call are not felt by the others. -/
theorem execution_activeOf_of_ne (hx : ExecutionStep w x a w' y) (hne : j ≠ i) :
    w'.activeOf j = w.activeOf j := by
  cases hx with
  | extendGranted hj =>
    have hown := ho.called _ _ _ hj
    rw [activeOf_extended hw hown, activeOf_filter_ne hown hne, if_neg hne.symm, List.append_nil]
  | unlocks _ hlock =>
    obtain ⟨-, rfl⟩ := KeepAliveLock.doUnlock_some hlock
    rw [activeOf_unlock hw, activeOf_filter_ne ho.current hne]
  | inactive | lost | calls | extendRefused | extendRejected | answered | retried | gaveUp | skips
  | settles => rfl

/-- A tracked extension replaces the one active handle, a tracked `unlock()` removes it. -/
theorem execution_contributes (hx : ExecutionStep w x a w' y)
    (hc : (Acquisition.executing x).Contributes (w.activeOf i))
    (hextend : ∀ k r call, a = .extendGranted k → x.renewals k = .called r call →
      call.extended ∈ w.activeLocks)
    (hunlock : a = .taskSettled → x.keepAlive.lost = false ∧
      x.keepAlive.currentLock ∈ w.activeLocks) :
    (Acquisition.executing y).Contributes (w'.activeOf i) := by
  cases hx with
  | @extendGranted k r call now hk =>
    have hown := ho.called k r call hk
    have hmem : call.extended ∈ w.activeOf i := mem_activeOf.mpr ⟨hextend k r call rfl hk, hown⟩
    have hheld : (Acquisition.executing x).Holding := by
      by_contra hfree
      rw [hc.free hfree] at hmem
      cases hmem
    obtain ⟨g, hg⟩ := hc.held hheld
    rw [hg, List.mem_singleton] at hmem
    refine ⟨fun _ => ⟨w.handles.length, ?_⟩, fun hfree => absurd hheld hfree⟩
    rw [activeOf_extended hw hown, hg, if_pos rfl, ← hmem]
    simp
  | unlocks hrun hlock =>
    obtain ⟨-, rfl⟩ := KeepAliveLock.doUnlock_some hlock
    obtain ⟨-, hactive⟩ := hunlock rfl
    obtain ⟨g, hg⟩ := hc.held hrun
    have hmem := mem_activeOf.mpr ⟨hactive, ho.current⟩
    rw [hg, List.mem_singleton] at hmem
    refine ⟨nofun, fun _ => ?_⟩
    rw [activeOf_unlock hw, hg, ← hmem]
    simp
  | skips _ hlock =>
    have hlost := KeepAliveLock.doUnlock_none hlock
    rw [(hunlock rfl).1] at hlost
    cases hlost
  | settles hunlocking =>
    refine ⟨nofun, fun _ => hc.free ?_⟩
    intro hrun
    exact absurd (hrun.symm.trans hunlocking) nofun
  | inactive | lost | calls | extendRefused | extendRejected | answered | retried | gaveUp =>
    exact ⟨hc.held, hc.free⟩

end Active

def Owned (s : System) : Prop :=
  ∀ i b, s.acquisitions i = some b → b.OwnedBy s.tracking i

/-- The new state of one call knows its own handles if the old ones of the others still do. -/
theorem owned_set {b : Acquisition} (hs : Owned s)
    (hmono : ∀ k h, s.tracking.owner h = some k → w.owner h = some k) (hb : b.OwnedBy w i) :
    Owned ({ s with tracking := w }.setAcquisition i b) := by
  intro k b' hb'
  rw [setAcquisition_acquisitions] at hb'
  split_ifs at hb' with hk
  · obtain rfl := Option.some.inj hb'
    exact hk ▸ hb
  · exact (hs k b' hb').mono (hmono k)

theorem owned_step (hs : Owned s) (h : Step s e t) : Owned t := by
  cases h with
  | called =>
    refine owned_set hs (fun _ _ hh => hh) ?_
    split_ifs <;> trivial
  | refused => exact owned_set hs (fun _ _ hh => hh) trivial
  | granted => exact owned_set hs (fun _ _ => owner_track_mono) owner_track_new
  | built hi => exact owned_set hs (fun _ _ hh => hh) ⟨hs _ _ hi, nofun, nofun⟩
  | executing hi hx =>
    exact owned_set hs (fun _ _ => execution_owner_mono hx) (execution_ownedBy hx (hs _ _ hi))

theorem owned_reachable (h : system.Reachable s) : Owned s := by
  refine h.invariant ?_ fun _ _ _ _ hstep hs => owned_step hs hstep
  intro s hi i b hb
  rw [hi.2 i] at hb
  cases hb

/-- Each call contributes what it should. -/
structure Accounted (s : System) : Prop where
  contributes : ∀ i b, s.acquisitions i = some b → b.Contributes (s.tracking.activeOf i)
  absent : ∀ i, s.acquisitions i = none → s.tracking.activeOf i = []

theorem accounted_set {b : Acquisition} (hs : Accounted s)
    (hothers : ∀ k, k ≠ i → w.activeOf k = s.tracking.activeOf k)
    (hc : b.Contributes (w.activeOf i)) :
    Accounted ({ s with tracking := w }.setAcquisition i b) where
  contributes k b' hb' := by
    rw [setAcquisition_acquisitions] at hb'
    split_ifs at hb' with hk
    · obtain rfl := Option.some.inj hb'
      exact hk ▸ hc
    · rw [setAcquisition_tracking, hothers k hk]
      exact hs.contributes k b' hb'
  absent k hk := by
    rw [setAcquisition_acquisitions] at hk
    split_ifs at hk with hne
    rw [setAcquisition_tracking, hothers k hne]
    exact hs.absent k hk

theorem accounted_step (hr : system.Reachable s) (hs : Accounted s) (h : Step s e t)
    (hg : Tracked s e) : Accounted t := by
  have hw := wellFormed_reachable hr
  have same : ∀ {i : ℕ} {b : Acquisition}, b.Contributes (s.tracking.activeOf i) →
      Accounted (s.setAcquisition i b) := fun hc => accounted_set hs (fun _ _ => rfl) hc
  cases h with
  | called hi =>
    split_ifs
    · exact same ⟨nofun, fun _ => hs.absent _ hi⟩
    · exact same ⟨nofun, fun _ => hs.absent _ hi⟩
  | refused hi => exact same ⟨nofun, fun _ => (hs.contributes _ _ hi).free nofun⟩
  | @granted i config now hi =>
    have hnone := (hs.contributes i _ hi).free nofun
    refine accounted_set hs ?_ ⟨fun _ => ⟨s.tracking.handles.length, ?_⟩,
      fun hfree => absurd trivial hfree⟩
    · intro k hk
      rw [lock, activeOf_track hw, if_neg hk.symm, List.append_nil]
    · rw [lock, activeOf_track hw, hnone, if_pos rfl, List.nil_append]
  | built hi =>
    exact same ⟨fun _ => (hs.contributes _ _ hi).held trivial, fun hfree => absurd rfl hfree⟩
  | @executing i x y a w hi hx =>
    have ho : x.OwnedBy s.tracking i := owned_reachable hr i _ hi
    have hguard := hg x hi
    refine accounted_set hs (fun k hk => execution_activeOf_of_ne hw ho hx hk)
      (execution_contributes hw ho hx (hs.contributes i _ hi) ?_ ?_)
    · rintro k r call rfl hk
      exact hguard r call hk
    · rintro rfl
      exact hguard

theorem accounted_reachable (h : (system.guarded Tracked).Reachable s) : Accounted s := by
  refine h.invariant ?_ fun _ _ _ hr hstep hs =>
    accounted_step hr.of_guarded hs hstep.1 hstep.2
  rintro s ⟨htracking, hnone⟩
  refine ⟨fun i b hb => ?_, fun i _ => ?_⟩
  · rw [hnone i] at hb
    cases hb
  · rw [htracking]
    rfl

/-- A call that is over has released its lock or never had one. -/
theorem Acquisition.Over.not_holding {b : Acquisition} (h : b.Over) : ¬ b.Holding := by
  cases b with
  | locking | notExecuted => exact not_false
  | granted => exact h.elim
  | executing x =>
    intro hrun
    exact absurd (hrun.symm.trans h.1) nofun

theorem mem_snapshot {record : ActiveLockRecord} {takenAt : ℚ} :
    record ∈ (LockHealth.snapshot w takenAt).activeLocks ↔ ∃ h, (h, record) ∈ w.records := by
  simp [LockHealth.snapshot, getActiveLockRecords]

/-- As long as renewals and `unlock()` meet tracked handles and no loss, lock tracking has at most
one active lock and one record of each call, none of a call that is over, and a snapshot reports
calls only that can still release their lock. -/
theorem tracking_phantom_free (h : (system.guarded Tracked).Reachable s) :
    JsMap.keys s.tracking.records = s.tracking.activeLocks ∧
    (∀ i, (s.tracking.activeOf i).length ≤ 1 ∧ (s.tracking.recordsOf i).length ≤ 1) ∧
    (∀ i b, s.acquisitions i = some b → b.Over →
      s.tracking.activeOf i = [] ∧ s.tracking.recordsOf i = []) ∧
    (∀ takenAt, ∀ record ∈ (LockHealth.snapshot s.tracking takenAt).activeLocks,
      ∃ i b h, s.acquisitions i = some b ∧ ¬ b.Over ∧ (h, record) ∈ s.tracking.recordsOf i) := by
  have hs := accounted_reachable h
  have hw := wellFormed_reachable h.of_guarded
  have hlength : ∀ i, (s.tracking.recordsOf i).length = (s.tracking.activeOf i).length :=
    fun i => by rw [← map_recordsOf hw, List.length_map]
  have hle : ∀ i, (s.tracking.activeOf i).length ≤ 1 := by
    intro i
    rcases hi : s.acquisitions i with _ | b
    · simp [hs.absent i hi]
    · by_cases hb : b.Holding
      · obtain ⟨g, hg⟩ := (hs.contributes i b hi).held hb
        simp [hg]
      · simp [(hs.contributes i b hi).free hb]
  refine ⟨hw.keys, fun i => ⟨hle i, hlength i ▸ hle i⟩, ?_, ?_⟩
  · intro i b hi hover
    have hnone := (hs.contributes i b hi).free hover.not_holding
    refine ⟨hnone, List.length_eq_zero_iff.mp ?_⟩
    rw [hlength, hnone, List.length_nil]
  · intro takenAt record hrecord
    obtain ⟨g, hg⟩ := mem_snapshot.mp hrecord
    have hactive : g ∈ s.tracking.activeLocks := by
      rw [← hw.keys]
      exact List.mem_map_of_mem hg
    obtain ⟨lock, hlock, -⟩ := hw.live g hactive
    have howner : s.tracking.owner g = some lock.acquisition := by simp [owner, hlock]
    have hmem : g ∈ s.tracking.activeOf lock.acquisition := mem_activeOf.mpr ⟨hactive, howner⟩
    have hrecords : (g, record) ∈ s.tracking.recordsOf lock.acquisition := by
      simp [recordsOf, hg, howner]
    rcases hi : s.acquisitions lock.acquisition with _ | b
    · rw [hs.absent _ hi] at hmem
      cases hmem
    · refine ⟨lock.acquisition, b, g, hi, fun hover => ?_, hrecords⟩
      rw [(hs.contributes _ b hi).free hover.not_holding] at hmem
      cases hmem

section Leaks

/-- More of call `i` is tracked than its own handle. -/
def Leaks (s : System) (i : ℕ) : Prop :=
  ∃ x, s.acquisitions i = some (.executing x) ∧ 1 ≤ (s.tracking.activeOf i).length ∧
    (x.phase = .running → 2 ≤ (s.tracking.activeOf i).length)

/-- A handle is tracked once, so that dropping it takes at most one away. -/
theorem length_activeOf_le (hw : w.WellFormed) :
    (w.activeOf i).length ≤ ((w.activeOf i).filter fun g => decide (g ≠ h)).length + 1 := by
  have hnodup : (w.activeOf i).Nodup := hw.nodup.filter _
  have herase : ((w.activeOf i).filter fun g => decide (g ≠ h)) = (w.activeOf i).erase h := by
    rw [hnodup.erase_eq_filter]
    congr 1
    funext g
    simp [bne, beq_eq_decide]
  rw [herase]
  by_cases hmem : h ∈ w.activeOf i
  · rw [List.length_erase_of_mem hmem]
    omega
  · rw [List.erase_of_not_mem hmem]
    omega

/-- No step of the call itself ends a leak. -/
theorem execution_leaks (hw : w.WellFormed) (ho : x.OwnedBy w i) (hx : ExecutionStep w x a w' y)
    (hleak : 1 ≤ (w.activeOf i).length ∧ (x.phase = .running → 2 ≤ (w.activeOf i).length)) :
    1 ≤ (w'.activeOf i).length ∧ (y.phase = .running → 2 ≤ (w'.activeOf i).length) := by
  cases hx with
  | @extendGranted k r call now hk =>
    have hle := length_activeOf_le (h := call.extended) (i := i) hw
    have hlength : (w.activeOf i).length ≤
        ((w.extended call.extended call.lockAtMostFor call.next now).activeOf i).length := by
      rw [activeOf_extended hw (ho.called k r call hk), if_pos rfl, List.length_append]
      exact hle
    exact ⟨hleak.1.trans hlength, fun hrun => (hleak.2 hrun).trans hlength⟩
  | @unlocks h hrun _ =>
    have hle := length_activeOf_le (h := h) (i := i) hw
    have htwo := hleak.2 hrun
    refine ⟨?_, nofun⟩
    rw [activeOf_unlock hw]
    omega
  | settles => exact ⟨hleak.1, nofun⟩
  | skips => exact ⟨hleak.1, nofun⟩
  | inactive | lost | calls | extendRefused | extendRejected | answered | retried | gaveUp =>
    exact hleak

theorem leaks_step (hr : system.Reachable s) (hs : Leaks s i) (h : Step s e t) : Leaks t i := by
  have hw := wellFormed_reachable hr
  obtain ⟨x, hi, hleak⟩ := hs
  -- a call that is not executing is another one
  have hother : ∀ {k : ℕ}, s.acquisitions k ≠ some (.executing x) → i ≠ k := by
    rintro k hk rfl
    exact hk hi
  cases h with
  | @called k config hk | @refused k config hk | @built k g config hk =>
    have hne : i ≠ k := hother (by rw [hk]; nofun)
    exact ⟨x, by rw [setAcquisition_acquisitions, if_neg hne, hi], hleak⟩
  | @granted k config now hk =>
    have hne : i ≠ k := hother (by rw [hk]; nofun)
    refine ⟨x, by rw [setAcquisition_acquisitions, if_neg hne, hi], ?_⟩
    rw [setAcquisition_tracking, lock, activeOf_track hw, if_neg hne.symm, List.append_nil]
    exact hleak
  | @executing k x' y a w hk hx =>
    have ho : x'.OwnedBy s.tracking k := owned_reachable hr k _ hk
    rcases eq_or_ne i k with rfl | hne
    · obtain rfl : x' = x := by simpa [hi, eq_comm] using hk
      exact ⟨y, by rw [setAcquisition_acquisitions, if_pos rfl], execution_leaks hw ho hx hleak⟩
    · refine ⟨x, by rw [setAcquisition_acquisitions, if_neg hne, hi], ?_⟩
      rw [setAcquisition_tracking, execution_activeOf_of_ne hw ho hx hne]
      exact hleak

/-- The first step outside the condition leaks. -/
theorem leaks_of_untracked (hr : (system.guarded Tracked).Reachable s) (h : Step s e t)
    (hg : ¬ Tracked s e) : Leaks t e.acquisition := by
  have hs := accounted_reachable hr
  have hw := wellFormed_reachable hr.of_guarded
  cases h with
  | called hk | refused hk | built hk | granted hk => exact absurd (fun _ _ => trivial) hg
  | @executing k x y a w hk hx =>
    have ho : x.OwnedBy s.tracking k := owned_reachable hr.of_guarded k _ hk
    have hc := hs.contributes k _ hk
    refine ⟨y, by rw [setAcquisition_acquisitions, if_pos rfl], ?_⟩
    rw [setAcquisition_tracking]
    cases hx with
    | @extendGranted j r call now hj =>
      have huntracked : call.extended ∉ s.tracking.activeLocks := by
        intro hmem
        refine hg fun x' hx' r' call' hj' => ?_
        obtain rfl : x = x' := by simpa [hk] using hx'
        cases hj.symm.trans hj'
        exact hmem
      have hlength : ((s.tracking.extended call.extended call.lockAtMostFor call.next
          now).activeOf k).length = (s.tracking.activeOf k).length + 1 := by
        rw [activeOf_extended hw (ho.called j r call hj), activeOf_filter_of_not_mem huntracked,
          if_pos rfl, List.length_append, List.length_singleton]
      rw [hlength]
      refine ⟨by omega, fun hrun => ?_⟩
      obtain ⟨g, hactive⟩ := hc.held hrun
      rw [hactive, List.length_singleton]
    | @unlocks h hrun hlock =>
      obtain ⟨hlost, rfl⟩ := KeepAliveLock.doUnlock_some hlock
      have huntracked : x.keepAlive.currentLock ∉ s.tracking.activeLocks := by
        intro hmem
        refine hg fun x' hx' => ?_
        obtain rfl : x = x' := by simpa [hk] using hx'
        exact ⟨hlost, hmem⟩
      obtain ⟨g, hactive⟩ := hc.held hrun
      refine ⟨?_, nofun⟩
      rw [activeOf_unlock hw, activeOf_filter_of_not_mem huntracked, hactive,
        List.length_singleton]
    | skips hrun hlock =>
      obtain ⟨g, hactive⟩ := hc.held hrun
      exact ⟨by rw [hactive]; rfl, nofun⟩
    | inactive | lost | calls | extendRefused | extendRejected | answered | retried | gaveUp
    | settles => exact absurd (fun _ _ => trivial) hg

/-- Once a step has been outside the condition, the call has two active locks while it runs its
task and at least one for ever after. -/
theorem untracked_step_leaks (hr : (system.guarded Tracked).Reachable s) (h : Step s e t)
    (hg : ¬ Tracked s e) {u : System} {as : List Event} (hrun : system.Run t as u) :
    Leaks u e.acquisition := by
  have hleak := leaks_of_untracked hr h hg
  have hreach : system.Reachable t := hr.of_guarded.step h
  clear hg h
  induction hrun with
  | refl => exact hleak
  | step hstep _ ih => exact ih (leaks_step hreach hleak hstep) (hreach.step hstep)

end Leaks

section Nightly

/-- One call that has just built its `KeepAliveLock`. -/
def heldSince (config : LockConfiguration ℚ) (now : ℚ) : System where
  tracking := empty.lock 0 config now
  acquisitions := update (fun _ => none) 0
    (some (.executing ⟨.create 0 config, .running, fun _ => .ready false⟩))

theorem heldSince_reachable (config : LockConfiguration ℚ)
    (h : minLockAtMostFor ≤ config.lockAtMostFor) (now : ℚ) :
    (system.guarded Tracked).Reachable (heldSince config now) := by
  have hinit : (system.guarded Tracked).Reachable ⟨empty, fun _ => none⟩ :=
    .initial ⟨rfl, fun _ => rfl⟩
  have hcalled := hinit.step ⟨@Step.called _ 0 config rfl, fun _ _ => trivial⟩
  rw [if_neg (not_lt.mpr h)] at hcalled
  have hgranted := hcalled.step ⟨@Step.granted _ 0 config now rfl, fun _ _ => trivial⟩
  have hbuilt := hgranted.step ⟨@Step.built _ 0 _ config rfl, fun _ _ => trivial⟩
  simp only [System.setAcquisition, update_idem] at hbuilt
  exact hbuilt

def nightlyConfig : LockConfiguration ℚ where
  name := "nightly"
  lockAtMostFor := 60000
  lockAtLeastFor := 0
  createdAt := 0

def nightlyCall : ExtendCall := ⟨0, 60000, 0, 30000⟩

/-- The call while its first renewal waits for the delegate. -/
def nightlyRenewing : System :=
  (heldSince nightlyConfig 0).setAcquisition 0
    (.executing ((⟨.create 0 nightlyConfig, .running, fun _ => .ready false⟩ :
      Execution).setRenewal 0 (.called false nightlyCall)))

theorem nightlyRenewing_reachable : (system.guarded Tracked).Reachable nightlyRenewing := by
  have hheld := heldSince_reachable nightlyConfig (by decide +kernel) 0
  have hcall : (KeepAliveLock.create 0 nightlyConfig).extendForNextPeriod 30000 =
      .call 0 60000 0 := by decide +kernel
  exact hheld.step ⟨.executing rfl (.calls rfl hcall), fun _ _ => trivial⟩

/-- A refused renewal: the lease counts as lost, `unlock()` is skipped, and the record stays. -/
theorem lost_lock_stays_tracked : ∃ s b, system.Reachable s ∧ s.acquisitions 0 = some b ∧ b.Over ∧
    s.tracking.activeOf 0 = [0] ∧
    (LockHealth.snapshot s.tracking 120000).activeLocks =
      [⟨"nightly", 60000, 0, 0, 0⟩] := by
  have hrenewing := nightlyRenewing_reachable.of_guarded
  have hrefused := hrenewing.step (.executing (i := 0) rfl (.extendRefused (j := 0) rfl))
  have hlost := hrefused.step (.executing (i := 0) rfl (.answered (j := 0) rfl))
  have hskipped := hlost.step (.executing (i := 0) rfl (.skips rfl rfl))
  have hsettled := hskipped.step (.executing (i := 0) rfl (.settles rfl))
  refine ⟨_, _, hsettled, rfl, ⟨rfl, ?_⟩, rfl, ?_⟩
  · intro j
    simp [Execution.setRenewal]
  · decide +kernel

/-- A granted renewal whose successor is unlocked leaves nothing. -/
theorem renewed_lock_untracked : ∃ s b, (system.guarded Tracked).Reachable s ∧
    s.acquisitions 0 = some b ∧ b.Over ∧
    s.tracking.activeOf 0 = [] ∧ s.tracking.recordsOf 0 = [] := by
  have htracked : Tracked nightlyRenewing ⟨0, .extendGranted 0⟩ := by
    intro x hx r call hj
    cases hx
    cases hj
    decide
  have hgranted := nightlyRenewing_reachable.step
    ⟨.executing (i := 0) rfl (@ExecutionStep.extendGranted _ _ 0 false nightlyCall 30000 rfl),
      htracked⟩
  have hadopted := hgranted.step
    ⟨.executing (i := 0) rfl (.answered (j := 0) rfl), fun _ _ => trivial⟩
  have hunlocked := hadopted.step ⟨.executing (i := 0) rfl (.unlocks rfl rfl), by
    intro x hx
    cases hx
    exact ⟨rfl, by decide⟩⟩
  have hsettled := hunlocked.step
    ⟨.executing (i := 0) rfl (.settles rfl), fun _ _ => trivial⟩
  have hover : ∀ {s}, (system.guarded Tracked).Reachable s →
      (∃ b, s.acquisitions 0 = some b ∧ b.Over) → ∃ s b, (system.guarded Tracked).Reachable s ∧
        s.acquisitions 0 = some b ∧ b.Over ∧
        s.tracking.activeOf 0 = [] ∧ s.tracking.recordsOf 0 = [] := by
    rintro s hs ⟨b, hb, hover⟩
    obtain ⟨-, -, hphantom, -⟩ := tracking_phantom_free hs
    exact ⟨s, b, hs, hb, hover, hphantom 0 b hb hover⟩
  exact hover hsettled ⟨_, rfl, rfl, fun j => by simp [Execution.setRenewal]⟩

end Nightly

end Tslock.Tracking
