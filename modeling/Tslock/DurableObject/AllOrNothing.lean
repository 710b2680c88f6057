import Tslock.DurableObject.HandleLockRequest

/-! What each reply of the request handler says about the storage. -/
namespace Tslock.DurableObject

open Function Foundation

/-- An operation with a valid body, run on the storage `s`. -/
structure Answered (body : LockOp) (now : ℚ) (s t : DoLockStorage) (log : List Access)
    (result : LockOpResult) : Prop where
  /-- no access to the record of another name -/
  own : ∀ name, name ≠ body.name → ∀ access ∈ log, access.key ≠ storageKeyForLock name
  frame : ∀ name, name ≠ body.name → recordOf t name = recordOf s name
  acquired : body.op = .lock →
    (result.acquired = true ↔ ∃ key record, Access.put key record ∈ log)
  extended : body.op = .extend →
    (result.extended = true ↔ ∃ key record, Access.put key record ∈ log)
  unwritten : (∀ key record, Access.put key record ∉ log) → t = s
  written : body.op ≠ .unlock → ∀ key record, Access.put key record ∈ log →
    recordOf t body.name = some record ∧ record.token = some body.token ∧
    record.lockUntil.isFinite = true ∧ .finite now < record.lockUntil ∧
    ∃ least, record.lockAtLeastUntil = some least ∧ least.isFinite = true
  released : body.op = .unlock → ∀ key record, Access.put key record ∈ log →
    recordOf t body.name = some record ∧ body.token ≠ "" ∧
    ∃ old, recordOf s body.name = some old ∧ old.token = some body.token ∧
      record.lockedAt = old.lockedAt ∧ record.lockedBy = old.lockedBy ∧
      record.token = old.token ∧
      (∀ least, old.lockAtLeastUntil = some least → least.isFinite = true →
        record.lockAtLeastUntil = some least) ∧
      record.lockUntil.isFinite = true ∧ .finite now ≤ record.lockUntil

section Record
variable {body : LockOp} {now : ℚ} {existing : Option DoLockRecord} {old record : DoLockRecord}

/-- Whether an operation stores a record, and which. -/
theorem applyToRecord_cases (existing : Option DoLockRecord) (body : LockOp) (now : JsNumber) :
    (∃ reply, applyToRecord existing body now = (none, reply) ∧ reply.acquired = false ∧
      reply.extended = false) ∨
    (body.op = .lock ∧ ∃ record, acquiredRecord body now = some record ∧
      applyToRecord existing body now = (some record, .ok true false (some body.token))) ∨
    (body.op = .unlock ∧ ∃ old, existing = some old ∧ owns old body.token ∧
      applyToRecord existing body now = (some (releasedRecord old now), .ok false false none)) ∨
    (body.op = .extend ∧ ∃ old record, existing = some old ∧ owns old body.token ∧
      extendedRecord old body now = some record ∧
      applyToRecord existing body now = (some record, .ok false true none)) := by
  unfold applyToRecord
  cases hop : body.op with
  | lock =>
    dsimp only
    split_ifs with htoken hheld
    · exact .inl ⟨_, rfl, rfl, rfl⟩
    · exact .inl ⟨_, rfl, rfl, rfl⟩
    · cases hrec : acquiredRecord body now with
      | none => exact .inl ⟨_, rfl, rfl, rfl⟩
      | some record => exact .inr (.inl ⟨rfl, record, rfl, rfl⟩)
  | unlock =>
    cases existing with
    | none => exact .inl ⟨_, rfl, rfl, rfl⟩
    | some old =>
      dsimp only
      split_ifs with howns
      · exact .inr (.inr (.inl ⟨rfl, old, rfl, howns, rfl⟩))
      · exact .inl ⟨_, rfl, rfl, rfl⟩
  | extend =>
    cases existing with
    | none => exact .inl ⟨_, rfl, rfl, rfl⟩
    | some old =>
      dsimp only
      split_ifs with howns hexpired
      · exact .inl ⟨_, rfl, rfl, rfl⟩
      · cases hrec : extendedRecord old body now with
        | none => exact .inl ⟨_, rfl, rfl, rfl⟩
        | some record => exact .inr (.inr (.inr ⟨rfl, old, record, rfl, howns, hrec, rfl⟩))
      · exact .inl ⟨_, rfl, rfl, rfl⟩

theorem strictFutureDeadline_later {duration d : JsNumber}
    (h : strictFutureDeadline (.finite now) duration = some d) :
    d.isFinite = true ∧ .finite now < d := by
  obtain ⟨-, hfin, hlate⟩ := strictFutureDeadline_some h
  exact ⟨hfin, JsNumber.lt_of_not_le (JsNumber.ne_nan_of_isFinite hfin) nofun hlate⟩

theorem storedLeastUntil_isFinite (old : DoLockRecord) :
    (storedLeastUntil old (.finite now)).isFinite = true := by
  rcases storedLeastUntil_cases old (.finite now) with h | ⟨least, -, hfin, h⟩
  · rw [h]
    rfl
  · rwa [h]

/-- The record that `lock` stores. -/
theorem acquiredRecord_granted (h : acquiredRecord body (.finite now) = some record) :
    record.token = some body.token ∧ record.lockUntil.isFinite = true ∧
      .finite now < record.lockUntil ∧
      ∃ least, record.lockAtLeastUntil = some least ∧ least.isFinite = true := by
  obtain ⟨hdeadline, hleast, hfin, htoken⟩ := acquiredRecord_some h
  obtain ⟨hmost, hlater⟩ := strictFutureDeadline_later hdeadline
  exact ⟨htoken, hmost, hlater, _, hleast, hfin⟩

/-- The record that `extend` stores. -/
theorem extendedRecord_granted (howns : owns old body.token)
    (h : extendedRecord old body (.finite now) = some record) :
    record.token = some body.token ∧ record.lockUntil.isFinite = true ∧
      .finite now < record.lockUntil ∧
      ∃ least, record.lockAtLeastUntil = some least ∧ least.isFinite = true := by
  obtain ⟨hdeadline, hleast, hfin, htoken⟩ := extendedRecord_some h
  obtain ⟨hmost, hlater⟩ := strictFutureDeadline_later hdeadline
  exact ⟨htoken.trans howns.2, hmost, hlater, _, hleast, hfin⟩

theorem releasedRecord_lockUntil (old : DoLockRecord) (now : ℚ) :
    (releasedRecord old (.finite now)).lockUntil.isFinite = true ∧
      .finite now ≤ (releasedRecord old (.finite now)).lockUntil := by
  have hfin : (storedLeastUntil old (.finite now)).isFinite = true := storedLeastUntil_isFinite old
  exact ⟨JsNumber.isFinite_max rfl hfin,
    JsNumber.le_max_left nofun (JsNumber.ne_nan_of_isFinite hfin)⟩

end Record

section Answer
variable {s : DoLockStorage} {body : LockOp} {now : JsNumber} {key : String}
  {record : DoLockRecord}

theorem key_of_access {access : Access} (h : access ∈ accessesOf s body now) :
    access.key = storageKeyForLock body.name := by
  unfold accessesOf at h
  split_ifs at h
  · cases h
  · rcases List.mem_cons.mp h with rfl | hput
    · rfl
    · obtain ⟨record, -, rfl⟩ := Option.map_eq_some_iff.mp (Option.mem_toList.mp hput)
      rfl

/-- What is put is the record that `applyToRecord` hands back. -/
theorem put_mem_iff : Access.put key record ∈ accessesOf s body now ↔
    key = storageKeyForLock body.name ∧
      (applyToRecord (recordOf s body.name) body now).1 = some record := by
  have hrecord : recordOf s body.name = s (storageKeyForLock body.name) := rfl
  rw [hrecord, accessesOf]
  split_ifs with hnone
  · have hrefused : applyToRecord (s (storageKeyForLock body.name)) body now =
        (none, .refused .notOwner) := by
      simp [applyToRecord, hnone.1, hnone.2]
    simp [hrefused]
  · generalize (applyToRecord (s (storageKeyForLock body.name)) body now).1 = written
    cases written with
    | none => simp
    | some old => simp [eq_comm, and_comm]

theorem exists_put_iff : (∃ key record, Access.put key record ∈ accessesOf s body now) ↔
    ∃ record, (applyToRecord (recordOf s body.name) body now).1 = some record := by
  simp only [put_mem_iff]
  constructor
  · rintro ⟨-, record, -, h⟩
    exact ⟨record, h⟩
  · rintro ⟨record, h⟩
    exact ⟨_, record, rfl, h⟩

theorem applyLockOp_eq (s : DoLockStorage) (body : LockOp) (now : JsNumber) :
    applyLockOp s body now =
      ((applyToRecord (recordOf s body.name) body now).1.elim s (storing s body),
        (applyToRecord (recordOf s body.name) body now).2) := by
  unfold applyLockOp recordOf
  generalize applyToRecord (s (storageKeyForLock body.name)) body now = result
  obtain ⟨written, reply⟩ := result
  cases written <;> rfl

theorem answered_applyLockOp (s : DoLockStorage) (body : LockOp) (now : ℚ) :
    Answered body now s (applyLockOp s body (.finite now)).1
      (accessesOf s body (.finite now)) (applyLockOp s body (.finite now)).2 := by
  rw [applyLockOp_eq]
  have hcases := applyToRecord_cases (recordOf s body.name) body (.finite now)
  constructor
  case own =>
    intro name hname access haccess
    rw [key_of_access haccess, ne_eq, storageKeyForLock_inj]
    exact hname.symm
  case frame =>
    intro name hname
    cases (applyToRecord (recordOf s body.name) body (.finite now)).1 with
    | none => rfl
    | some record => exact recordOf_storing_of_ne hname
  case unwritten =>
    intro hnone
    cases hwritten : (applyToRecord (recordOf s body.name) body (.finite now)).1 with
    | none => rfl
    | some record => exact absurd (put_mem_iff.mpr ⟨rfl, hwritten⟩) (hnone _ _)
  case acquired =>
    intro hop
    rw [exists_put_iff]
    rcases hcases with ⟨reply, h, hacquired, -⟩ | ⟨-, record, -, h⟩ | ⟨hop', -⟩ | ⟨hop', -⟩
    · simp [h, hacquired]
    · simp [h, LockOpResult.acquired]
    · simp [hop] at hop'
    · simp [hop] at hop'
  case extended =>
    intro hop
    rw [exists_put_iff]
    rcases hcases with ⟨reply, h, -, hextended⟩ | ⟨hop', -⟩ | ⟨hop', -⟩ |
      ⟨-, old, record, -, -, -, h⟩
    · simp [h, hextended]
    · simp [hop] at hop'
    · simp [hop] at hop'
    · simp [h, LockOpResult.extended]
  case written =>
    intro hop key record hput
    obtain ⟨-, hwritten⟩ := put_mem_iff.mp hput
    rw [hwritten]
    refine ⟨recordOf_storing_self, ?_⟩
    rcases hcases with ⟨reply, h, -⟩ | ⟨-, record', hrec, h⟩ | ⟨hop', -⟩ |
      ⟨-, old, record', -, howns, hrec, h⟩
    · simp [h] at hwritten
    · rw [h] at hwritten
      cases hwritten
      exact acquiredRecord_granted hrec
    · exact absurd hop' hop
    · rw [h] at hwritten
      cases hwritten
      exact extendedRecord_granted howns hrec
  case released =>
    intro hop key record hput
    obtain ⟨-, hwritten⟩ := put_mem_iff.mp hput
    rw [hwritten]
    refine ⟨recordOf_storing_self, ?_⟩
    rcases hcases with ⟨reply, h, -⟩ | ⟨hop', -⟩ | ⟨-, old, hold, howns, h⟩ | ⟨hop', -⟩
    · simp [h] at hwritten
    · simp [hop] at hop'
    · rw [h] at hwritten
      cases hwritten
      obtain ⟨hfin, hlater⟩ := releasedRecord_lockUntil old now
      refine ⟨?_, old, hold, howns.2, rfl, rfl, rfl, ?_, hfin, hlater⟩
      · rintro hempty
        simp [hempty, owns] at howns
      · intro least hleast hfinite
        simp [releasedRecord, hleast, hfinite]
    · simp [hop] at hop'

end Answer

/-- A reply other than 200 comes without an access to the storage; a reply of 200 is the one of an
operation with a valid body. -/
structure AllOrNothing (parseJson : String → Option JsonValue) (request : HttpRequest) (now : ℚ)
    (s t : DoLockStorage) (log : List Access) (response : HttpResponse) : Prop where
  rejected : response.status ≠ 200 → t = s ∧ log = []
  served : response.status = 200 → ∃ json body result,
    parseJson request.body = some json ∧ readLockOp json = some body ∧
    response.body = .result result ∧ Answered body now s t log result

/-- A request is turned down without a look at the storage, or its operation is performed. -/
theorem handler_cases (parseJson : String → Option JsonValue) (request : HttpRequest)
    (now : JsNumber) :
    (∃ status text, status ≠ 200 ∧
      handleTslockLockRequest parseJson request now = pure ⟨status, .error text⟩) ∨
    (∃ json body, parseJson request.body = some json ∧ readLockOp json = some body ∧
      handleTslockLockRequest parseJson request now =
        performLockOp body now >>= fun result => pure ⟨200, .result result⟩) := by
  unfold handleTslockLockRequest
  split_ifs
  · exact .inl ⟨_, _, by decide, rfl⟩
  · cases hjson : parseJson request.body with
    | none => exact .inl ⟨_, _, by decide, rfl⟩
    | some json =>
      dsimp only
      split_ifs
      · exact .inl ⟨_, _, by decide, rfl⟩
      · cases hbody : readLockOp json with
        | none => exact .inl ⟨_, _, by decide, rfl⟩
        | some body =>
          dsimp only
          split_ifs
          · exact .inl ⟨_, _, by decide, rfl⟩
          · exact .inr ⟨json, body, rfl, hbody, rfl⟩

/-- Every request, whatever its method and its body, on every storage. -/
theorem handler_all_or_nothing (parseJson : String → Option JsonValue) (request : HttpRequest)
    (now : ℚ) (s : DoLockStorage) :
    AllOrNothing parseJson request now s
      ((handleTslockLockRequest parseJson request (.finite now)).run ⟨s, []⟩).2.storage
      ((handleTslockLockRequest parseJson request (.finite now)).run ⟨s, []⟩).2.accesses
      ((handleTslockLockRequest parseJson request (.finite now)).run ⟨s, []⟩).1 := by
  rcases handler_cases parseJson request (.finite now) with
    ⟨status, text, hstatus, h⟩ | ⟨json, body, hjson, hbody, h⟩
  · rw [h]
    exact ⟨fun _ => ⟨rfl, rfl⟩, fun hok => absurd hok hstatus⟩
  · have hrun : (handleTslockLockRequest parseJson request (.finite now)).run ⟨s, []⟩ =
        (⟨200, .result (applyLockOp s body (.finite now)).2⟩,
          ⟨(applyLockOp s body (.finite now)).1, accessesOf s body (.finite now)⟩) := by
      rw [h, StateT.run_bind, performLockOp_run]
      rfl
    rw [hrun]
    exact ⟨fun hno => absurd rfl hno,
      fun _ => ⟨json, body, _, hjson, hbody, rfl, answered_applyLockOp s body now⟩⟩

end Tslock.DurableObject
