import Tslock.DurableObject.Ownership

/-! What requests with the token of a released acquisition can still do. -/
namespace Tslock.DurableObject

open Function Foundation

/-- The storage, whether the acquisition in the record of a name has been unlocked, and the tokens
with which records of the name have been unlocked. -/
structure Tracked where
  storage : DoLockStorage
  released : String → Bool
  unlockedWith : String → String → Bool

/-- The request is an unlock of a record that its token owns. -/
def unlocksOwn (s : DoLockStorage) (a : Request) : Bool :=
  a.1.op = .unlock && (found s a.1).any fun r => decide (owns r a.1.token)

def trackedStep (s : Tracked) (a : Request) : Tracked where
  storage := serverStep s.storage a
  released :=
    if (serverReply s.storage a).acquired then update s.released a.1.name false
    else if unlocksOwn s.storage a then update s.released a.1.name true
    else s.released
  unlockedWith :=
    if unlocksOwn s.storage a then
      update s.unlockedWith a.1.name (update (s.unlockedWith a.1.name) a.1.token true)
    else s.unlockedWith

/-- Nothing has been stored, released or unlocked. -/
def trackedStart : Tracked := ⟨emptyStorage, fun _ => false, fun _ _ => false⟩

/-- A request whose token has unlocked before is no extension, and does not move the deadline of
an unlocked acquisition to a later time. -/
def StaysReleased (s : Tracked) (a : Request) : Prop :=
  s.unlockedWith a.1.name a.1.token = true →
    (serverReply s.storage a).extended = false ∧
    (s.released a.1.name = true → (serverReply s.storage a).acquired = false →
      ∀ r r', found s.storage a.1 = some r →
        recordOf (serverStep s.storage a) a.1.name = some r' → ¬ r.lockUntil < r'.lockUntil)

/-- No deadline of an extension is representable. -/
def Unextendable (r : DoLockRecord) (body : LockOp) (now : JsNumber) : Prop :=
  strictFutureDeadline now body.lockAtMostFor = none ∨
    (extendedLeastUntil r body now).isFinite = false

/-- A request whose token has unlocked before arrives too late for an extension of its record, and
not later than the deadline for another unlock of it. -/
def ArrivesHarmless (s : Tracked) (a : Request) : Prop :=
  s.unlockedWith a.1.name a.1.token = true →
    (a.1.op = .extend → ∀ r, found s.storage a.1 = some r → owns r a.1.token →
      r.lockUntil ≤ a.2 ∨ Unextendable r a.1 a.2) ∧
    (a.1.op = .unlock → s.released a.1.name = true → ∀ r, found s.storage a.1 = some r →
      owns r a.1.token → ¬ r.lockUntil < a.2)

/-- The owner of an unlocked record has unlocked it, down to its minimum hold. -/
def ReleasedRecords (s : Tracked) : Prop :=
  ∀ name r, s.released name = true → recordOf s.storage name = some r →
    (∀ token, r.token = some token → s.unlockedWith name token = true) ∧
    ∀ l, r.lockAtLeastUntil = some l → l.isFinite = true → ¬ r.lockUntil < l

variable {s : Tracked} {a : Request} {r : DoLockRecord} {now : JsNumber} {name token : String}
  {requests : List Request}

theorem unlocksOwn_eq_true_iff {s : DoLockStorage} : unlocksOwn s a = true ↔
    a.1.op = .unlock ∧ ∃ r, found s a.1 = some r ∧ owns r a.1.token := by
  simp [unlocksOwn, Option.any_eq_true]

theorem extendedRecord_eq_none_iff {body : LockOp} :
    extendedRecord r body now = none ↔ Unextendable r body now := by
  unfold extendedRecord Unextendable
  cases hd : strictFutureDeadline now body.lockAtMostFor with
  | none => simp
  | some d => simp

/-- Another unlock moves the deadline only if it arrives after it. -/
theorem lockUntil_lt_releasedRecord (h : ∀ l, r.lockAtLeastUntil = some l → l.isFinite = true →
    ¬ r.lockUntil < l) :
    r.lockUntil < (releasedRecord r now).lockUntil ↔ r.lockUntil < now := by
  change r.lockUntil < max now (storedLeastUntil r now) ↔ _
  by_cases hnow : now = .nan
  · rw [hnow, JsNumber.nan_max]
  · rcases JsNumber.max_cases hnow (storedLeastUntil_ne_nan hnow) with ⟨hlt, heq⟩ | ⟨-, heq⟩
    · rw [heq]
      rcases storedLeastUntil_cases r now with hsame | ⟨l, hl, hfin, hstored⟩
      · rw [hsame]
      · rw [hstored] at hlt ⊢
        have hnot := h l hl hfin
        exact ⟨fun hc => absurd hc hnot,
          fun hc => absurd (JsNumber.lt_of_lt_of_le hc (JsNumber.le_of_lt hlt)) hnot⟩
    · rw [heq]

/-- An unlocked record is held until its minimum hold ends. -/
theorem not_releasedRecord_lt {l : JsNumber}
    (hl : (releasedRecord r now).lockAtLeastUntil = some l) :
    ¬ (releasedRecord r now).lockUntil < l := by
  obtain ⟨hstored, hfin⟩ := Option.filter_eq_some_iff.mp hl
  change ¬ max now (storedLeastUntil r now) < l
  rw [storedLeastUntil_of_some hstored hfin]
  by_cases hnow : now = .nan
  · rw [hnow, JsNumber.nan_max]
    exact JsNumber.not_nan_lt _
  · exact JsNumber.not_lt_of_le (JsNumber.le_max_right hnow (JsNumber.ne_nan_of_isFinite hfin))

theorem staysReleased_iff (hs : ReleasedRecords s) : StaysReleased s a ↔ ArrivesHarmless s a := by
  have h := serverStep_opStep s.storage a
  unfold StaysReleased ArrivesHarmless
  generalize serverStep s.storage a = t at h ⊢
  generalize serverReply s.storage a = reply at h ⊢
  refine imp_congr_right fun hunlocked => ?_
  cases h with
  | unchanged hacq hext hunlock hextend =>
    constructor
    · intro _
      refine ⟨?_, fun hop _ r hr ho => absurd ho (hunlock hop r hr)⟩
      intro hop r hr ho
      exact (hextend hop r hr ho).imp_right extendedRecord_eq_none_iff.mp
    · intro _
      refine ⟨hext, ?_⟩
      intro _ _ r r' hr hr'
      rw [found, hr'] at hr
      cases hr
      exact JsNumber.not_lt_self _
  | acquired hop =>
    refine ⟨fun _ => ⟨by simp [hop], by simp [hop]⟩, fun _ => ⟨rfl, fun _ hacq => ?_⟩⟩
    cases hacq
  | @released r hop hr howns =>
    constructor
    · rintro ⟨-, hmoved⟩
      refine ⟨by simp [hop], ?_⟩
      intro _ hreleased r' hr' _
      rw [hr] at hr'
      cases hr'
      have hnot := hmoved hreleased rfl r _ hr recordOf_storing_self
      rwa [lockUntil_lt_releasedRecord (hs _ r hreleased hr).2] at hnot
    · rintro ⟨-, hlate⟩
      refine ⟨rfl, ?_⟩
      intro hreleased _ r₀ r' hr₀ hr'
      rw [hr] at hr₀
      cases hr₀
      rw [recordOf_storing_self] at hr'
      cases hr'
      rw [lockUntil_lt_releasedRecord (hs _ r hreleased hr).2]
      exact hlate hop hreleased r hr howns
  | @extended r record hop hr howns hlive hrec =>
    constructor
    · rintro ⟨hext, -⟩
      cases hext
    · rintro ⟨hlate, -⟩
      rcases hlate hop r hr howns with hexpired | hnone
      · exact absurd hexpired hlive
      · rw [← extendedRecord_eq_none_iff, hrec] at hnone
        cases hnone

/-- What is known of the other names is kept: their records stay, and no token is forgotten. -/
theorem releasedRecords_of_other {t : Tracked} (hs : ReleasedRecords s)
    (hrel : ∀ name ≠ a.1.name, t.released name = s.released name)
    (hrec : ∀ name ≠ a.1.name, recordOf t.storage name = recordOf s.storage name)
    (htok : ∀ name token, s.unlockedWith name token = true → t.unlockedWith name token = true)
    (hown : ∀ r, t.released a.1.name = true → recordOf t.storage a.1.name = some r →
      (∀ token, r.token = some token → t.unlockedWith a.1.name token = true) ∧
      ∀ l, r.lockAtLeastUntil = some l → l.isFinite = true → ¬ r.lockUntil < l) :
    ReleasedRecords t := by
  intro name r hreleased hr
  by_cases hn : name = a.1.name
  · subst hn
    exact hown r hreleased hr
  · rw [hrel name hn] at hreleased
    rw [hrec name hn] at hr
    obtain ⟨htoken, hleast⟩ := hs name r hreleased hr
    exact ⟨fun token h => htok name token (htoken token h), hleast⟩

theorem releasedRecords_step (ha : ArrivesHarmless s a) (hs : ReleasedRecords s) :
    ReleasedRecords (trackedStep s a) := by
  have h := serverStep_opStep s.storage a
  unfold trackedStep
  have hfalse : a.1.op ≠ .unlock → unlocksOwn s.storage a = false := by
    intro hop
    simp [unlocksOwn, hop]
  generalize serverStep s.storage a = t at h ⊢
  generalize serverReply s.storage a = reply at h ⊢
  cases h with
  | unchanged hacq hext hunlock hextend =>
    have hnone : unlocksOwn s.storage a = false := by
      by_contra htrue
      obtain ⟨hop, r, hr, howns⟩ := unlocksOwn_eq_true_iff.mp (by simpa using htrue)
      exact hunlock hop r hr howns
    simpa [hacq, hnone] using hs
  | acquired hop =>
    have hnone := hfalse (by simp [hop])
    simp only [hnone, LockOpResult.acquired, if_true, Bool.false_eq_true, if_false]
    exact releasedRecords_of_other (a := a) hs (fun name hn => update_of_ne hn _ _) frame_storing
      (fun _ _ h => h) (fun r hreleased _ => by simp at hreleased)
  | @released r hop hr howns =>
    have htrue : unlocksOwn s.storage a = true := unlocksOwn_eq_true_iff.mpr ⟨hop, r, hr, howns⟩
    simp only [htrue, LockOpResult.acquired, if_true, Bool.false_eq_true, if_false]
    refine releasedRecords_of_other (a := a) hs (fun name hn => update_of_ne hn _ _) frame_storing
      ?_ ?_
    · intro name token htoken
      dsimp only
      by_cases hn : name = a.1.name
      · subst hn
        rw [update_self, update_apply]
        split_ifs
        · rfl
        · exact htoken
      · rw [update_of_ne hn]
        exact htoken
    · intro r' _ hr'
      rw [recordOf_storing_self] at hr'
      cases hr'
      refine ⟨?_, fun l hl _ => not_releasedRecord_lt hl⟩
      intro token htoken
      have hsame : token = a.1.token := Option.some.inj (htoken.symm.trans howns.2)
      dsimp only
      rw [hsame, update_self, update_self]
  | @extended r record hop hr howns hlive hrec =>
    have hnone := hfalse (by simp [hop])
    simp only [hnone, LockOpResult.acquired, Bool.false_eq_true, if_false]
    refine releasedRecords_of_other (a := a) hs (fun _ _ => rfl) frame_storing (fun _ _ h => h) ?_
    -- an unlocked record would have been unlocked with this token, which arrives too late
    intro r' hreleased _
    have hunlocked := (hs _ r hreleased hr).1 a.1.token howns.2
    rcases (ha hunlocked).1 hop r hr howns with hexpired | hnone'
    · exact absurd hexpired hlive
    · rw [← extendedRecord_eq_none_iff, hrec] at hnone'
      cases hnone'

theorem releasedRecords_start : ReleasedRecords trackedStart := by
  intro name r hreleased
  cases hreleased

/-- A released lock stays released exactly as long as no request with its token arrives in time
for an extension or late for another unlock. -/
theorem released_stays_released_iff (requests : List Request) :
    Along trackedStep StaysReleased trackedStart requests ↔
      Along trackedStep ArrivesHarmless trackedStart requests :=
  along_congr (A := fun _ => True) (fun _ _ hs _ => staysReleased_iff hs)
    (fun _ _ hs _ ha => releasedRecords_step ha hs) releasedRecords_start fun _ _ => trivial

/-- An unlock one second into the minimum hold, and an extension that arrives after it. -/
def extendAfterUnlock : List Request :=
  [jobRequest .lock "first" 60000 5000 0, jobRequest .unlock "first" 60000 5000 1000,
    jobRequest .extend "first" 60000 5000 2000]

/-- The extension is granted, and the released lock is held until 62000. -/
theorem extended_after_unlock :
    ¬ Along trackedStep StaysReleased trackedStart extendAfterUnlock := by
  rintro ⟨-, -, h, -⟩
  obtain ⟨hext, -⟩ := h (by decide +kernel)
  revert hext
  decide +kernel

end Tslock.DurableObject
