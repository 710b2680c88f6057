import Tslock.DurableObject.Release

/-! The minimum hold of a granted lock under extensions and unlocks. -/
namespace Tslock.DurableObject

open Function Foundation

/-- The storage, and the end of the minimum hold that the last grant of a name promised. -/
structure Promised where
  storage : DoLockStorage
  holdUntil : String → Option JsNumber

def promisedStep (s : Promised) (a : Request) : Promised where
  storage := serverStep s.storage a
  holdUntil :=
    if (serverReply s.storage a).acquired then
      update s.holdUntil a.1.name (some (a.2 + a.1.lockAtLeastFor))
    else s.holdUntil

def promisedStart : Promised := ⟨emptyStorage, fun _ => none⟩

/-- No record can expire before its minimum hold ends. -/
def MinimumCovered (s : DoLockStorage) : Prop :=
  ∀ name r l, recordOf s name = some r → r.lockAtLeastUntil = some l → l ≤ r.lockUntil

/-- The request is not granted a lock within its promised hold, and leaves no record that could
expire within its minimum hold. -/
def KeepsMinimum (s : Promised) (a : Request) : Prop :=
  ((serverReply s.storage a).acquired = true →
    ∀ h, s.holdUntil a.1.name = some h → ¬ a.2 < h) ∧
  MinimumCovered (serverStep s.storage a)

/-- An extension of a live record of its own asks for a deadline that covers the stored minimum
hold. -/
def CoversMinimum (s : Promised) (a : Request) : Prop :=
  a.1.op = .extend → ∀ r, found s.storage a.1 = some r → owns r a.1.token →
    r.lockUntil ≤ a.2 ∨ Unextendable r a.1 a.2 ∨
      storedLeastUntil r a.2 ≤ a.2 + a.1.lockAtMostFor

/-- A request that passed validation and read the clock. -/
structure Accepted (a : Request) : Prop where
  valid : a.1.isValid = true
  timed : Timed a

/-- What is known of the records as long as extensions cover their minimum. -/
structure PromisesKept (s : Promised) : Prop where
  comparable : Comparable s.storage
  covered : MinimumCovered s.storage
  hold : ∀ name h, s.holdUntil name = some h →
    ∃ r l, recordOf s.storage name = some r ∧ r.lockAtLeastUntil = some l ∧ h ≤ l

variable {s : Promised} {a : Request} {r record : DoLockRecord} {body : LockOp} {now : JsNumber}
  {name : String} {requests : List Request}

theorem lockAtLeastFor_le_of_isValid (h : body.isValid = true) :
    body.lockAtLeastFor ≤ body.lockAtMostFor := by
  simp only [LockOp.isValid, durationsAreValid, Bool.and_eq_true, decide_eq_true_eq] at h
  exact h.2.2

theorem minimumCovered_storing {s : DoLockStorage} (hs : MinimumCovered s)
    (hr : ∀ l, record.lockAtLeastUntil = some l → l ≤ record.lockUntil) :
    MinimumCovered (storing s body record) := by
  intro name r l hrec hl
  by_cases hn : name = body.name
  · subst hn
    rw [recordOf_storing_self] at hrec
    cases hrec
    exact hr l hl
  · rw [recordOf_storing_of_ne hn] at hrec
    exact hs name r l hrec hl

/-- A granted lock covers its minimum hold, because the durations are valid. -/
theorem acquiredRecord_covered (hv : body.isValid = true)
    (h : acquiredRecord body now = some record) (l : JsNumber)
    (hl : record.lockAtLeastUntil = some l) : l ≤ record.lockUntil := by
  obtain ⟨hd, hleast, hfin, -⟩ := acquiredRecord_some h
  rw [hleast] at hl
  cases hl
  rw [(strictFutureDeadline_some hd).1]
  exact JsNumber.add_le_add_left (JsNumber.isFinite_of_add hfin).1
    (lockAtLeastFor_le_of_isValid hv)

theorem releasedRecord_covered (hnow : now ≠ .nan) (l : JsNumber)
    (hl : (releasedRecord r now).lockAtLeastUntil = some l) :
    l ≤ (releasedRecord r now).lockUntil := by
  obtain ⟨hstored, hfin⟩ := Option.filter_eq_some_iff.mp hl
  change l ≤ max now (storedLeastUntil r now)
  rw [storedLeastUntil_of_some hstored hfin]
  exact JsNumber.le_max_right hnow (JsNumber.ne_nan_of_isFinite hfin)

/-- An extension covers the minimum hold it stores if its deadline covers the one it found. -/
theorem extendedRecord_covered_iff (hv : body.isValid = true) (hnow : now ≠ .nan)
    (h : extendedRecord r body now = some record) :
    (∀ l, record.lockAtLeastUntil = some l → l ≤ record.lockUntil) ↔
      storedLeastUntil r now ≤ now + body.lockAtMostFor := by
  obtain ⟨hd, hleast, hfin, -⟩ := extendedRecord_some h
  obtain ⟨heq, hdfin, hfuture⟩ := strictFutureDeadline_some hd
  rw [heq] at hdfin hfuture ⊢
  have hdnan := JsNumber.ne_nan_of_isFinite hdfin
  constructor
  · intro hcov
    obtain ⟨hinner, hnew⟩ := JsNumber.ne_nan_of_max (JsNumber.ne_nan_of_isFinite hfin)
    obtain ⟨hstored, -⟩ := JsNumber.ne_nan_of_max hinner
    exact JsNumber.le_trans (JsNumber.le_max_left hstored hnow)
      (JsNumber.le_trans (JsNumber.le_max_left hinner hnew) (hcov _ hleast))
  · intro hcov l hl
    rw [hleast] at hl
    cases hl
    have hle := JsNumber.le_of_lt (JsNumber.lt_of_not_le hdnan hnow hfuture)
    have hadd := JsNumber.add_le_add_left (JsNumber.isFinite_of_add hdfin).1
      (lockAtLeastFor_le_of_isValid hv)
    exact JsNumber.max_le (JsNumber.max_le hcov hle) hadd

/-- A grant comes after the promised hold, because the record it replaces has expired. -/
theorem not_lt_of_acquired (hs : PromisesKept s)
    (hfree : ∀ r, found s.storage a.1 = some r → ¬ a.2 < r.lockUntil) (h : JsNumber)
    (hh : s.holdUntil a.1.name = some h) : ¬ a.2 < h := by
  obtain ⟨r, l, hr, hl, hle⟩ := hs.hold _ h hh
  intro hlt
  exact hfree r hr (JsNumber.lt_of_lt_of_le (JsNumber.lt_of_lt_of_le hlt hle)
    (hs.covered _ r l hr hl))

theorem keepsMinimum_iff (ha : Accepted a) (hs : PromisesKept s) :
    KeepsMinimum s a ↔ CoversMinimum s a := by
  have h := serverStep_opStep s.storage a
  unfold KeepsMinimum CoversMinimum
  generalize serverStep s.storage a = t at h ⊢
  generalize serverReply s.storage a = reply at h ⊢
  cases h with
  | unchanged hacq _ _ hextend =>
    refine ⟨fun _ hop r hr ho => ?_, fun _ => ⟨by simp [hacq], hs.covered⟩⟩
    rcases hextend hop r hr ho with hexpired | hnone
    · exact .inl hexpired
    · exact .inr (.inl (extendedRecord_eq_none_iff.mp hnone))
  | acquired hop hfree hrec =>
    refine ⟨by simp [hop], fun _ => ⟨fun _ => not_lt_of_acquired hs hfree, ?_⟩⟩
    exact minimumCovered_storing hs.covered (acquiredRecord_covered ha.valid hrec)
  | released hop hr howns =>
    refine ⟨by simp [hop], fun _ => ⟨by simp [LockOpResult.acquired], ?_⟩⟩
    exact minimumCovered_storing hs.covered (releasedRecord_covered ha.timed)
  | @extended r record hop hr howns hlive hrec =>
    have hiff := extendedRecord_covered_iff ha.valid ha.timed hrec
    constructor
    · rintro ⟨-, hcov⟩ _ r' hr' _
      rw [hr] at hr'
      cases hr'
      exact .inr (.inr (hiff.mp fun l hl => hcov _ record l recordOf_storing_self hl))
    · intro hcov
      refine ⟨by simp [LockOpResult.acquired], minimumCovered_storing hs.covered (hiff.mpr ?_)⟩
      rcases hcov hop r hr howns with hexpired | hnone | hle
      · exact absurd hexpired hlive
      · rw [← extendedRecord_eq_none_iff, hrec] at hnone
        cases hnone
      · exact hle

/-- A stored record keeps the promise if its minimum hold is not below that of the one before. -/
theorem hold_storing (hs : PromisesKept s)
    (hrec : ∀ r l, found s.storage a.1 = some r → r.lockAtLeastUntil = some l →
      ∃ l', record.lockAtLeastUntil = some l' ∧ l ≤ l') (name : String) (h : JsNumber)
    (hh : s.holdUntil name = some h) :
    ∃ r l, recordOf (storing s.storage a.1 record) name = some r ∧
      r.lockAtLeastUntil = some l ∧ h ≤ l := by
  obtain ⟨r, l, hr, hl, hle⟩ := hs.hold name h hh
  by_cases hn : name = a.1.name
  · subst hn
    obtain ⟨l', hl', hle'⟩ := hrec r l hr hl
    exact ⟨record, l', recordOf_storing_self, hl', JsNumber.le_trans hle hle'⟩
  · exact ⟨r, l, (recordOf_storing_of_ne hn).trans hr, hl, hle⟩

theorem hold_step (hs : PromisesKept s) (name : String) (h : JsNumber)
    (hh : (promisedStep s a).holdUntil name = some h) :
    ∃ r l, recordOf (promisedStep s a).storage name = some r ∧
      r.lockAtLeastUntil = some l ∧ h ≤ l := by
  have hstep := serverStep_opStep s.storage a
  unfold promisedStep at hh ⊢
  generalize serverStep s.storage a = t at hstep hh ⊢
  generalize serverReply s.storage a = reply at hstep hh ⊢
  cases hstep with
  | unchanged hacq => exact hs.hold name h (by simpa [hacq] using hh)
  | acquired hop hfree hrec =>
    obtain ⟨-, hleast, hfin, -⟩ := acquiredRecord_some hrec
    have hacq : (LockOpResult.ok true false (some a.1.token)).acquired = true := rfl
    rw [if_pos hacq] at hh
    change update s.holdUntil a.1.name (some (a.2 + a.1.lockAtLeastFor)) name = some h at hh
    by_cases hn : name = a.1.name
    · subst hn
      rw [update_self] at hh
      cases hh
      exact ⟨_, _, recordOf_storing_self, hleast,
        JsNumber.le_refl_of_ne_nan (JsNumber.ne_nan_of_isFinite hfin)⟩
    · rw [update_of_ne hn] at hh
      obtain ⟨r, l, hr, hl, hle⟩ := hs.hold name h hh
      exact ⟨r, l, (recordOf_storing_of_ne hn).trans hr, hl, hle⟩
  | released hop hr howns =>
    refine hold_storing hs ?_ name h (by simpa [LockOpResult.acquired] using hh)
    intro r' l hr' hl
    rw [hr] at hr'
    cases hr'
    have hfin := (hs.comparable _ _ hr).2 l hl
    exact ⟨l, by simp [releasedRecord, hl, hfin],
      JsNumber.le_refl_of_ne_nan (JsNumber.ne_nan_of_isFinite hfin)⟩
  | extended hop hr howns hlive hrec =>
    obtain ⟨-, hleast, hlfin, -⟩ := extendedRecord_some hrec
    refine hold_storing hs ?_ name h (by simpa [LockOpResult.acquired] using hh)
    intro r' l hr' hl
    rw [hr] at hr'
    cases hr'
    exact ⟨_, hleast, le_extendedLeastUntil hl ((hs.comparable _ _ hr).2 l hl) hlfin⟩

theorem promisesKept_step (ha : Accepted a) (hc : CoversMinimum s a) (hs : PromisesKept s) :
    PromisesKept (promisedStep s a) where
  comparable := comparable_step ha.timed hs.comparable
  covered := ((keepsMinimum_iff ha hs).mpr hc).2
  hold := hold_step hs

theorem promisesKept_start : PromisesKept promisedStart where
  comparable := comparable_empty
  covered := by
    intro name r l hr
    cases hr
  hold := by
    intro name h hh
    cases hh

/-- The minimum hold is kept exactly as long as extensions ask for deadlines that cover it. -/
theorem minimum_hold_iff (hr : ∀ a ∈ requests, Accepted a) :
    Along promisedStep KeepsMinimum promisedStart requests ↔
      Along promisedStep CoversMinimum promisedStart requests :=
  along_congr (A := Accepted) (fun _ _ hs ha => keepsMinimum_iff ha hs)
    (fun _ _ hs ha hc => promisesKept_step ha hc hs) promisesKept_start hr

/-- An extension by one millisecond, and another token right after it. -/
def shortExtension : List Request :=
  [jobRequest .lock "first" 60000 5000 0, jobRequest .extend "first" 1 0 1000,
    jobRequest .lock "second" 60000 0 1001]

theorem accepted_jobRequest {op : OpKind} {token : String} {most least now : ℚ}
    (h : (jobRequest op token most least now).1.isValid = true) :
    Accepted (jobRequest op token most least now) :=
  ⟨h, by simp [Timed, jobRequest]⟩

theorem shortExtension_accepted : ∀ a ∈ shortExtension, Accepted a := by
  intro a ha
  simp only [shortExtension, List.mem_cons, List.not_mem_nil, or_false] at ha
  rcases ha with rfl | rfl | rfl
  · exact accepted_jobRequest (by decide +kernel)
  · exact accepted_jobRequest (by decide +kernel)
  · exact accepted_jobRequest (by decide +kernel)

/-- The second token is granted the lock at 1001, within the minimum hold until 5000. -/
theorem granted_within_minimum :
    (∀ a ∈ shortExtension, Accepted a) ∧
    ¬ Along promisedStep (fun s a => (serverReply s.storage a).acquired = true →
      ∀ h, s.holdUntil a.1.name = some h → ¬ a.2 < h) promisedStart shortExtension := by
  refine ⟨shortExtension_accepted, ?_⟩
  rintro ⟨-, -, h, -⟩
  refine h (by decide +kernel) (.finite 5000) (by decide +kernel) (by decide +kernel)

/-- A grant and an extension that covers the minimum hold. -/
theorem minimum_hold_covered :
    Along promisedStep KeepsMinimum promisedStart
      [jobRequest .lock "first" 60000 5000 0, jobRequest .extend "first" 60000 0 1000] := by
  have hr : ∀ a ∈ [jobRequest .lock "first" 60000 5000 0,
      jobRequest .extend "first" 60000 0 1000], Accepted a := by
    intro a ha
    rcases List.mem_pair.mp ha with rfl | rfl
    · exact accepted_jobRequest (by decide +kernel)
    · exact accepted_jobRequest (by decide +kernel)
  refine (minimum_hold_iff hr).mpr ⟨nofun, ?_, trivial⟩
  intro _ r hfound _
  have hgrant : found (promisedStep promisedStart (jobRequest .lock "first" 60000 5000 0)).storage
      (jobRequest .extend "first" 60000 0 1000).1 = some firstGrant := by decide +kernel
  rw [hgrant] at hfound
  cases hfound
  exact .inr (.inr (by decide +kernel))

end Tslock.DurableObject
