import Tslock.DurableObject.Protocol
import Tslock.Foundation.Machines

/-! Who owns a lock of the Durable Object server, over every sequence of requests. -/
namespace Tslock.DurableObject

open Function Foundation

/-- What one request may do, given the storage it finds. -/
structure OwnershipStep (s : DoLockStorage) (a : Request) : Prop where
  granted : (serverReply s a).acquired = true →
    a.1.op = .lock ∧ ∀ r, found s a.1 = some r → r.lockUntil ≤ a.2
  carried : (serverReply s a).acquired = true ∨ (serverReply s a).extended = true →
    ∃ r, recordOf (serverStep s a) a.1.name = some r ∧ r.token = some a.1.token ∧
      r.lockUntil.isFinite = true ∧ a.2 < r.lockUntil
  foreign : a.1.op ≠ .lock → ∀ r, found s a.1 = some r → r.token ≠ some a.1.token →
    serverStep s a = s
  expired : a.1.op = .extend → ∀ r, found s a.1 = some r → r.lockUntil ≤ a.2 →
    serverStep s a = s
  minimum : a.1.op = .extend → ∀ r l, found s a.1 = some r → r.lockAtLeastUntil = some l →
    ∃ r' l', recordOf (serverStep s a) a.1.name = some r' ∧ r'.lockAtLeastUntil = some l' ∧ l ≤ l'
  frame : ∀ name ≠ a.1.name, recordOf (serverStep s a) name = recordOf s name

/-- Stored deadlines can be compared, and stored minimum holds are finite. -/
def Comparable (s : DoLockStorage) : Prop :=
  ∀ name r, recordOf s name = some r → r.lockUntil ≠ .nan ∧
    ∀ l, r.lockAtLeastUntil = some l → l.isFinite = true

/-- A request read the clock as a number. -/
def Timed (a : Request) : Prop := a.2 ≠ .nan

variable {s : DoLockStorage} {a : Request} {r record : DoLockRecord} {body : LockOp}
  {now : JsNumber} {name token : String} {requests : List Request}

theorem comparable_storing (hs : Comparable s) (hu : record.lockUntil ≠ .nan)
    (hl : ∀ l, record.lockAtLeastUntil = some l → l.isFinite = true) :
    Comparable (storing s body record) := by
  intro name r hr
  by_cases hn : name = body.name
  · subst hn
    rw [recordOf_storing_self] at hr
    cases hr
    exact ⟨hu, hl⟩
  · rw [recordOf_storing_of_ne hn] at hr
    exact hs name r hr

theorem comparable_step (ha : Timed a) (hs : Comparable s) : Comparable (serverStep s a) := by
  have h := serverStep_opStep s a
  generalize serverStep s a = t at h ⊢
  generalize serverReply s a = reply at h
  cases h with
  | unchanged => exact hs
  | acquired _ _ hrec =>
    obtain ⟨hd, hl, hfin, -⟩ := acquiredRecord_some hrec
    refine comparable_storing hs (JsNumber.ne_nan_of_isFinite (strictFutureDeadline_some hd).2.1) ?_
    intro l hl'
    rw [hl] at hl'
    cases hl'
    exact hfin
  | @released r _ hr _ =>
    refine comparable_storing hs ?_ ?_
    · exact JsNumber.max_ne_nan ha (storedLeastUntil_ne_nan ha)
    · intro l hl
      exact (Option.filter_eq_some_iff.mp hl).2
  | extended _ _ _ _ hrec =>
    obtain ⟨hd, hl, hfin, -⟩ := extendedRecord_some hrec
    refine comparable_storing hs (JsNumber.ne_nan_of_isFinite (strictFutureDeadline_some hd).2.1) ?_
    intro l hl'
    rw [hl] at hl'
    cases hl'
    exact hfin

theorem frame_storing : ∀ name ≠ body.name,
    recordOf (storing s body record) name = recordOf s name :=
  fun _ hn => recordOf_storing_of_ne hn

/-- An extension keeps or raises the minimum hold. -/
theorem le_extendedLeastUntil {l : JsNumber} (hl : r.lockAtLeastUntil = some l)
    (hfin : l.isFinite = true) (hext : (extendedLeastUntil r body now).isFinite = true) :
    l ≤ extendedLeastUntil r body now := by
  unfold extendedLeastUntil at hext ⊢
  rw [storedLeastUntil_of_some hl hfin] at hext ⊢
  obtain ⟨hinner, hnew⟩ := JsNumber.ne_nan_of_max (JsNumber.ne_nan_of_isFinite hext)
  obtain ⟨hln, hnow⟩ := JsNumber.ne_nan_of_max hinner
  exact JsNumber.le_trans (JsNumber.le_max_left hln hnow) (JsNumber.le_max_left hinner hnew)

theorem ownershipStep_of_comparable (ha : Timed a) (hs : Comparable s) : OwnershipStep s a := by
  have h := serverStep_opStep s a
  generalize ht : serverStep s a = t at h
  generalize hrep : serverReply s a = reply at h
  have hkept : ∀ r l, found s a.1 = some r → r.lockAtLeastUntil = some l → l ≤ l := by
    intro r l hr hl
    exact JsNumber.le_refl_of_ne_nan (JsNumber.ne_nan_of_isFinite ((hs _ r hr).2 l hl))
  cases h with
  | unchanged hacq hext =>
    refine ⟨by simp [hrep, hacq], by simp [hrep, hacq, hext], fun _ _ _ _ => ht,
      fun _ _ _ _ => ht, ?_, fun _ _ => by rw [ht]⟩
    intro _ r l hr hl
    exact ⟨r, l, by rw [ht]; exact hr, hl, hkept r l hr hl⟩
  | acquired hop hfree hrec =>
    obtain ⟨hd, -, -, htoken⟩ := acquiredRecord_some hrec
    obtain ⟨-, hfin, hfuture⟩ := strictFutureDeadline_some hd
    refine ⟨?_, ?_, fun h => absurd hop h, by simp [hop], by simp [hop], ?_⟩
    · intro _
      refine ⟨hop, fun r hr => ?_⟩
      exact JsNumber.le_of_not_lt ha (hs _ r hr).1 (hfree r hr)
    · intro _
      rw [ht]
      exact ⟨_, recordOf_storing_self, htoken, hfin,
        JsNumber.lt_of_not_le (JsNumber.ne_nan_of_isFinite hfin) ha hfuture⟩
    · rw [ht]
      exact frame_storing
  | released hop hr howns =>
    refine ⟨by simp [hrep, LockOpResult.acquired],
      by simp [hrep, LockOpResult.acquired, LockOpResult.extended], ?_, by simp [hop],
      by simp [hop], ?_⟩
    · intro _ r' hr' hne
      rw [hr] at hr'
      cases hr'
      exact absurd howns.2 hne
    · rw [ht]
      exact frame_storing
  | @extended r record hop hr howns hlive hrec =>
    obtain ⟨hd, hl, hlfin, htoken⟩ := extendedRecord_some hrec
    obtain ⟨-, hfin, hfuture⟩ := strictFutureDeadline_some hd
    have hsame : ∀ r', found s a.1 = some r' → r' = r := by
      intro r' hr'
      rw [hr] at hr'
      exact (Option.some.inj hr').symm
    refine ⟨by simp [hrep, LockOpResult.acquired], ?_, ?_, ?_, ?_, ?_⟩
    · intro _
      rw [ht]
      exact ⟨_, recordOf_storing_self, htoken.trans howns.2, hfin,
        JsNumber.lt_of_not_le (JsNumber.ne_nan_of_isFinite hfin) ha hfuture⟩
    · intro _ r' hr' hne
      rw [hsame r' hr'] at hne
      exact absurd howns.2 hne
    · intro _ r' hr' hexpired
      rw [hsame r' hr'] at hexpired
      exact absurd hexpired hlive
    · intro _ r' l hr' hl'
      rw [hsame r' hr'] at hl'
      refine ⟨record, _, by rw [ht]; exact recordOf_storing_self, hl, ?_⟩
      exact le_extendedLeastUntil hl' ((hs _ r hr).2 l hl') hlfin
    · rw [ht]
      exact frame_storing

/-- The record of `name` has not expired when the request arrives. -/
def Unexpired (name : String) (s : DoLockStorage) (a : Request) : Prop :=
  ∀ r, recordOf s name = some r → ¬ r.lockUntil ≤ a.2

/-- The record of `name` carries `token`, and the request is not granted the lock. -/
def HeldBy (name token : String) (s : DoLockStorage) (a : Request) : Prop :=
  (∃ r, recordOf s name = some r ∧ r.token = some token) ∧
    (a.1.name = name → (serverReply s a).acquired = false)

theorem not_acquired_of_unexpired (h : OwnershipStep s a) (hr : found s a.1 = some r)
    (hu : ¬ r.lockUntil ≤ a.2) : (serverReply s a).acquired = false := by
  by_contra hacq
  exact hu ((h.granted (by simpa using hacq)).2 r hr)

/-- The token of an unexpired record stays. -/
theorem token_kept (h : OwnershipStep s a) (hr : recordOf s name = some r)
    (htoken : r.token = some token) (hu : ¬ r.lockUntil ≤ a.2) :
    ∃ r', recordOf (serverStep s a) name = some r' ∧ r'.token = some token := by
  by_cases hn : name = a.1.name
  · subst hn
    have hnot := not_acquired_of_unexpired h hr hu
    have hstep := serverStep_opStep s a
    generalize serverStep s a = t at hstep ⊢
    generalize serverReply s a = reply at hstep hnot
    cases hstep with
    | unchanged => exact ⟨r, hr, htoken⟩
    | acquired => cases hnot
    | released _ hr' _ =>
      rw [found, hr] at hr'
      cases hr'
      exact ⟨_, recordOf_storing_self, htoken⟩
    | extended _ hr' _ _ hrec =>
      rw [found, hr] at hr'
      cases hr'
      exact ⟨_, recordOf_storing_self, (extendedRecord_some hrec).2.2.2.trans htoken⟩
  · exact ⟨r, (h.frame name hn).trans hr, htoken⟩

/-- Until its record expires, a granted token is the only one that owns the lock. -/
theorem held_until_expiry (hs : Comparable s) (hr : recordOf s name = some r)
    (htoken : r.token = some token) (hnow : ∀ a ∈ requests, Timed a)
    (h : Along serverStep (Unexpired name) s requests) :
    Along serverStep (HeldBy name token) s requests := by
  refine Along.imp (I := fun s => Comparable s ∧ ∃ r, recordOf s name = some r ∧
    r.token = some token) (A := Timed) ?_ ?_ ⟨hs, r, hr, htoken⟩ hnow h
  · rintro s a ⟨hs, r, hr, htoken⟩ ha hu
    refine ⟨⟨r, hr, htoken⟩, ?_⟩
    rintro rfl
    exact not_acquired_of_unexpired (ownershipStep_of_comparable ha hs) hr (hu r hr)
  · rintro s a ⟨hs, r, hr, htoken⟩ ha hu
    exact ⟨comparable_step ha hs,
      token_kept (ownershipStep_of_comparable ha hs) hr htoken (hu r hr)⟩

/-- The replies to a run of requests. -/
def replies : DoLockStorage → List Request → List LockOpResult
  | _, [] => []
  | s, a :: rest => serverReply s a :: replies (serverStep s a) rest

/-- The two requests differ in `createdAt` at most. -/
def SameButCreatedAt (a b : Request) : Prop :=
  { a.1 with createdAt := b.1.createdAt } = b.1 ∧ a.2 = b.2

theorem applyLockOp_sameButCreatedAt {b : Request} (h : SameButCreatedAt a b) :
    applyLockOp s a.1 a.2 = applyLockOp s b.1 b.2 := by
  obtain ⟨h₁, h₂⟩ := h
  rw [← h₁, ← h₂]
  rfl

theorem run_sameButCreatedAt {requests' : List Request}
    (h : List.Forall₂ SameButCreatedAt requests requests') :
    replies s requests = replies s requests' ∧ run s requests = run s requests' := by
  induction h generalizing s with
  | nil => exact ⟨rfl, rfl⟩
  | @cons a b as bs hab _ ih =>
    have hstep : serverStep s a = serverStep s b :=
      congrArg Prod.fst (applyLockOp_sameButCreatedAt hab)
    have hreply : serverReply s a = serverReply s b :=
      congrArg Prod.snd (applyLockOp_sameButCreatedAt hab)
    obtain ⟨hreplies, hrun⟩ := ih (s := serverStep s a)
    refine ⟨?_, ?_⟩
    · simp only [replies]
      rw [hreply, hreplies, hstep]
    · change run (serverStep s a) as = run (serverStep s b) bs
      rw [hrun, hstep]

theorem comparable_empty : Comparable emptyStorage := by
  intro name r hr
  cases hr

/-- Ownership and mutual exclusion of the lock server, over every run from an empty storage. -/
theorem durableObject_ownership (hnow : ∀ a ∈ requests, Timed a) :
    Along serverStep OwnershipStep emptyStorage requests ∧
    (∀ before after name token r, requests = before ++ after →
      recordOf (run emptyStorage before) name = some r → r.token = some token →
      Along serverStep (Unexpired name) (run emptyStorage before) after →
      Along serverStep (HeldBy name token) (run emptyStorage before) after) ∧
    ∀ requests', List.Forall₂ SameButCreatedAt requests requests' →
      replies emptyStorage requests = replies emptyStorage requests' ∧
      run emptyStorage requests = run emptyStorage requests' := by
  refine ⟨?_, ?_, fun _ h => run_sameButCreatedAt h⟩
  · exact along_of_invariant (A := Timed) (fun s a hs ha => ownershipStep_of_comparable ha hs)
      (fun s a hs ha => comparable_step ha hs) comparable_empty hnow
  · rintro before after name token r rfl hr htoken hu
    have hreached : Comparable (run emptyStorage before) :=
      foldl_invariant (A := Timed) (fun s a hs ha => comparable_step ha hs) comparable_empty
        fun a ha => hnow a (List.mem_append_left _ ha)
    exact held_until_expiry hreached hr htoken
      (fun a ha => hnow a (List.mem_append_right _ ha)) hu

/-- A request for `job` with `createdAt` at zero. -/
def jobRequest (op : OpKind) (token : String) (lockAtMostFor lockAtLeastFor now : ℚ) : Request :=
  ({ op, name := "job", lockAtMostFor := .finite lockAtMostFor,
     lockAtLeastFor := .finite lockAtLeastFor, createdAt := .finite 0, lockedBy := "web", token },
    .finite now)

def firstGrant : DoLockRecord where
  lockUntil := .finite 60000
  lockedAt := .finite 0
  lockedBy := "web"
  token := some "first"
  lockAtLeastUntil := some (.finite 5000)

theorem firstGrant_stored :
    recordOf (run emptyStorage [jobRequest .lock "first" 60000 5000 0]) "job" =
      some firstGrant := by
  decide +kernel

/-- A second token asks half-way through the lease of the first. -/
theorem firstGrant_held : Along serverStep (HeldBy "job" "first")
    (run emptyStorage [jobRequest .lock "first" 60000 5000 0])
    [jobRequest .lock "second" 60000 5000 30000] := by
  have hnow : ∀ a ∈ [jobRequest .lock "first" 60000 5000 0,
      jobRequest .lock "second" 60000 5000 30000], Timed a := by
    simp [Timed, jobRequest]
  refine (durableObject_ownership hnow).2.1 _ _ "job" "first" firstGrant rfl firstGrant_stored rfl
    ⟨?_, trivial⟩
  intro r hr
  rw [firstGrant_stored] at hr
  cases hr
  decide +kernel

end Tslock.DurableObject
