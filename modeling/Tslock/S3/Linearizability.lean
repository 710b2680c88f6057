import Tslock.S3.StorageAccessor

/-! Any number of accessor calls on one object: each successful PUT is one atomic operation on the
lock record. -/
namespace Tslock.S3

open Foundation

variable {τ ε : Type} {store : ObjectStore ε} {date : DateFormat τ}

/-- Whatever the store does to the keys, each field is found again. -/
theorem getMetadataValue_putObject (store : ObjectStore ε) (record : LockRecord) :
    getMetadataValue (store.putObject record).metadata "lockUntil" = some record.lockUntil ∧
    getMetadataValue (store.putObject record).metadata "lockedAt" = some record.lockedAt ∧
    getMetadataValue (store.putObject record).metadata "lockedBy" = some record.lockedBy := by
  have hu : toLowerCase "lockUntil" = "lockuntil" := by decide
  have ha : toLowerCase "lockedAt" = "lockedat" := by decide
  have hb : toLowerCase "lockedBy" = "lockedby" := by decide
  unfold getMetadataValue ObjectStore.putObject
  rcases store.keyCase_eq "lockUntil" with h₁ | h₁ <;>
    rcases store.keyCase_eq "lockedAt" with h₂ | h₂ <;>
    rcases store.keyCase_eq "lockedBy" with h₃ | h₃ <;>
    simp [h₁, h₂, h₃, hu, ha, hb, List.lookup_cons]

/-- The record as the accessors read it. -/
def lockFields (metadata : Metadata) : Option LockRecord := do
  let lockUntil ← getMetadataValue metadata "lockUntil"
  let lockedAt ← getMetadataValue metadata "lockedAt"
  let lockedBy ← getMetadataValue metadata "lockedBy"
  return { lockUntil, lockedAt, lockedBy }

def lockRecord (stored : Option S3Object) : Option LockRecord :=
  stored.bind fun object => lockFields object.metadata

/-- The body repeats the record of the metadata. -/
def Agrees (object : S3Object) : Prop :=
  ∃ record, lockFields object.metadata = some record ∧ object.body = lockRecordBody record

def Written (store : ObjectStore ε) (object : S3Object) : Prop :=
  ∃ record, object = store.putObject record

theorem lockFields_putObject (record : LockRecord) :
    lockFields (store.putObject record).metadata = some record := by
  obtain ⟨hu, ha, hb⟩ := getMetadataValue_putObject store record
  simp [lockFields, hu, ha, hb]

theorem Written.agrees {object : S3Object} (h : Written store object) : Agrees object := by
  obtain ⟨record, rfl⟩ := h
  exact ⟨record, lockFields_putObject record, rfl⟩

/-- The four operations on the record of one lock, each with its condition. -/
inductive LockOperation [Add τ] [LT τ] [LE τ] [Max τ] (date : DateFormat τ) (now : τ)
    (hostname : String) : Operation τ → Option LockRecord → LockRecord → Prop where
  | inserted {config : LockConfiguration τ} {lockUntil lockedAt : String} :
      date.toIsoString config.lockAtMostUntil = some lockUntil →
      date.toIsoString config.createdAt = some lockedAt →
      LockOperation date now hostname (.insertRecord config) none ⟨lockUntil, lockedAt, hostname⟩
  | updated {config : LockConfiguration τ} {old : LockRecord} {deadline : τ}
      {lockUntil lockedAt : String} :
      date.parse old.lockUntil = some deadline → ¬ now < deadline →
      date.toIsoString config.lockAtMostUntil = some lockUntil →
      date.toIsoString config.createdAt = some lockedAt →
      LockOperation date now hostname (.updateRecord config) (some old)
        ⟨lockUntil, lockedAt, hostname⟩
  | unlocked {config : LockConfiguration τ} {old : LockRecord} {lockUntil : String} :
      old.lockedBy = hostname → date.toIsoString config.lockAtMostUntil = some old.lockUntil →
      date.toIsoString (config.unlockTime now) = some lockUntil →
      LockOperation date now hostname (.unlock config) (some old) { old with lockUntil }
  | extended {config : LockConfiguration τ} {previous : Option τ} {old : LockRecord}
      {deadline : τ} {lockUntil : String} :
      date.parse old.lockUntil = some deadline → old.lockedBy = hostname → ¬ deadline ≤ now →
      (∀ p ∈ previous, date.toIsoString p = some old.lockUntil) →
      date.toIsoString config.lockAtMostUntil = some lockUntil →
      LockOperation date now hostname (.extend config previous) (some old) { old with lockUntil }

section Writes

variable {hostname : String} {now : τ} {config : LockConfiguration τ} {old record : LockRecord}
  {c : Condition ε} {v : S3Object} {head : Option (HeadResult ε)} {plan : Decision ε}

theorem toIsoString_ok {t : τ} {text : String} :
    toIsoString date t = .ok text ↔ date.toIsoString t = some text := by
  unfold toIsoString
  split <;> simp_all

/-- From `x >>= f` with a result: the results of both. -/
theorem bind_ok {α β : Type} {x : Except AccessorError α} {f : α → Except AccessorError β} {b : β}
    (h : x >>= f = .ok b) : ∃ a, x = .ok a ∧ f a = .ok b := by
  cases x with
  | error e => cases h
  | ok a => exact ⟨a, rfl, h⟩

theorem parseLockUntil_ok {deadline : τ}
    (h : parseLockUntil date (store.putObject old).metadata = .ok deadline) :
    date.parse old.lockUntil = some deadline := by
  unfold parseLockUntil at h
  rw [(getMetadataValue_putObject store old).1] at h
  split at h
  · cases h
  · cases h
  · next hraw =>
    obtain rfl := Option.some.inj hraw
    split at h
    · cases h
    · next hms =>
      rw [hms, Except.ok.inj h]

theorem deadlineMatches_ok {metadata : Metadata} {previous : Option τ}
    (h : deadlineMatches date metadata previous = .ok true) :
    ∀ p ∈ previous, date.toIsoString p = getMetadataValue metadata "lockUntil" := by
  cases previous with
  | none => exact nofun
  | some p =>
    obtain ⟨deadline, hdeadline, hmatch⟩ := bind_ok h
    intro q hq
    obtain rfl := Option.mem_some.mp hq
    rw [toIsoString_ok.mp hdeadline]
    exact (of_decide_eq_true (Except.ok.inj hmatch)).symm

theorem renewedMetadata_ok {deadline : τ}
    (h : renewedMetadata date hostname config (store.putObject old).metadata deadline =
      .ok record) :
    ∃ lockUntil, date.toIsoString deadline = some lockUntil ∧ record = { old with lockUntil } := by
  obtain ⟨-, ha, hb⟩ := getMetadataValue_putObject store old
  unfold renewedMetadata toIsoString at h
  cases hu : date.toIsoString deadline with
  | none => simp [hu, bind, Except.bind] at h
  | some lockUntil =>
    simp only [hu, ha, hb, bind, Except.bind, pure, Except.pure, Except.ok.injEq,
      Option.getD_some] at h
    exact ⟨lockUntil, rfl, h.symm⟩

variable [Add τ]

theorem buildMetadata_ok (h : buildMetadata date hostname config = .ok record) :
    date.toIsoString config.lockAtMostUntil = some record.lockUntil ∧
    date.toIsoString config.createdAt = some record.lockedAt ∧ record.lockedBy = hostname := by
  unfold buildMetadata toIsoString at h
  cases hu : date.toIsoString config.lockAtMostUntil with
  | none => simp [hu, bind, Except.bind] at h
  | some lockUntil =>
    cases ha : date.toIsoString config.createdAt with
    | none => simp [hu, ha, bind, Except.bind] at h
    | some lockedAt =>
      simp only [hu, ha, bind, Except.bind, pure, Except.pure, Except.ok.injEq] at h
      subst h
      exact ⟨rfl, rfl, rfl⟩

theorem insertRecord_ok (h : insertRecord store date hostname config head = .ok plan) :
    plan = .finish (.bool false) ∨
    head = none ∧ ∃ record, buildMetadata date hostname config = .ok record ∧
      plan = .write .absent (store.putObject record) := by
  cases head with
  | some object =>
    cases h
    exact .inl rfl
  | none =>
    obtain ⟨record, hrecord, hwrite⟩ := bind_ok h
    cases hwrite
    exact .inr ⟨rfl, record, hrecord, rfl⟩

theorem updateRecord_ok [LT τ] [DecidableLT τ]
    (h : updateRecord store date hostname now config head = .ok plan) :
    plan = .finish (.bool false) ∨
    ∃ object deadline record, head = some object ∧
      parseLockUntil date object.metadata = .ok deadline ∧ ¬ now < deadline ∧
      buildMetadata date hostname config = .ok record ∧
      plan = .write (.tagged object.etag) (store.putObject record) := by
  cases head with
  | none => cases h
  | some object =>
    obtain ⟨deadline, hdeadline, h⟩ := bind_ok h
    split at h
    · cases h
      exact .inl rfl
    · next hnow =>
      obtain ⟨record, hrecord, hwrite⟩ := bind_ok h
      cases hwrite
      exact .inr ⟨object, deadline, record, rfl, hdeadline, hnow, hrecord, rfl⟩

theorem unlock_ok [Max τ] (h : unlock store date hostname now config head = .ok plan) :
    plan = .finish .void ∨
    ∃ object deadline record, head = some object ∧
      getMetadataValue object.metadata "lockedBy" = some hostname ∧
      toIsoString date config.lockAtMostUntil = .ok deadline ∧
      getMetadataValue object.metadata "lockUntil" = some deadline ∧
      renewedMetadata date hostname config object.metadata (config.unlockTime now) = .ok record ∧
      plan = .write (.tagged object.etag) (store.putObject record) := by
  cases head with
  | none =>
    cases h
    exact .inl rfl
  | some object =>
    rw [unlock] at h
    split at h
    · cases h
      exact .inl rfl
    · next hby =>
      obtain ⟨deadline, hdeadline, h⟩ := bind_ok h
      split at h
      · cases h
        exact .inl rfl
      · next huntil =>
        obtain ⟨record, hrecord, hwrite⟩ := bind_ok h
        cases hwrite
        exact .inr ⟨object, deadline, record, rfl, not_not.mp hby, hdeadline, not_not.mp huntil,
          hrecord, rfl⟩

theorem extend_ok [LE τ] [DecidableLE τ] {previous : Option τ}
    (h : extend store date hostname now config previous head = .ok plan) :
    plan = .finish (.bool false) ∨
    ∃ object deadline record, head = some object ∧
      parseLockUntil date object.metadata = .ok deadline ∧
      getMetadataValue object.metadata "lockedBy" = some hostname ∧ ¬ deadline ≤ now ∧
      deadlineMatches date object.metadata previous = .ok true ∧
      renewedMetadata date hostname config object.metadata config.lockAtMostUntil = .ok record ∧
      plan = .write (.tagged object.etag) (store.putObject record) := by
  cases head with
  | none =>
    cases h
    exact .inl rfl
  | some object =>
    obtain ⟨deadline, hdeadline, h⟩ := bind_ok h
    split at h
    · cases h
      exact .inl rfl
    · next hby =>
      split at h
      · cases h
        exact .inl rfl
      · next hnow =>
        obtain ⟨b, hb, h⟩ := bind_ok h
        cases b with
        | false =>
          cases h
          exact .inl rfl
        | true =>
          obtain ⟨record, hrecord, hwrite⟩ := bind_ok h
          cases hwrite
          exact .inr ⟨object, deadline, record, rfl, hdeadline, not_not.mp hby, hnow, hb,
            hrecord, rfl⟩

variable [LT τ] [LE τ] [Max τ] [DecidableLT τ] [DecidableLE τ]

theorem plan_cases {request : Request τ} (h : (accessor store date).plan request now head = plan) :
    perform store date now request head = .ok plan ∨ ∃ error, plan = .finish (.threw error) := by
  unfold accessor at h
  dsimp only at h
  split at h
  · next hplan => exact .inl (hplan.trans (congrArg _ h))
  · exact .inr ⟨_, h.symm⟩

/-- Only a successful PUT is answered with `true`. -/
theorem plan_finish {request : Request τ} {r : Reply}
    (h : (accessor store date).plan request now head = .finish r) : r ≠ .bool true := by
  rintro rfl
  obtain ⟨hostname, operation⟩ := request
  rcases plan_cases h with hperform | ⟨error, herror⟩
  · cases operation with
    | insertRecord config =>
      rcases insertRecord_ok hperform with hplan | ⟨_, _, _, hplan⟩ <;> cases hplan
    | updateRecord config =>
      rcases updateRecord_ok hperform with hplan | ⟨_, _, _, _, _, _, _, hplan⟩ <;> cases hplan
    | unlock config =>
      rcases unlock_ok hperform with hplan | ⟨_, _, _, _, _, _, _, _, hplan⟩ <;> cases hplan
    | extend config previous =>
      rcases extend_ok hperform with hplan | ⟨_, _, _, _, _, _, _, _, _, hplan⟩ <;> cases hplan
  · cases herror

/-- A write that was planned on what an accessor wrote is conditional on that object, and would
be an operation on its record. -/
theorem perform_write {request : Request τ} {seen : Option S3Object}
    (hseen : ∀ x ∈ seen, Written store x)
    (h : (accessor store date).plan request now (seen.map (accessor store date).view) =
      .write c v) :
    c = .unchanged (accessor store date).tag seen ∧ ∃ record, v = store.putObject record ∧
      LockOperation date now request.hostname request.operation (lockRecord seen) record := by
  obtain ⟨hostname, operation⟩ := request
  have hperform : perform store date now ⟨hostname, operation⟩ _ = .ok (.write c v) :=
    (plan_cases h).resolve_right nofun
  have hsome : ∀ object, seen.map store.headObject = some object →
      ∃ old, seen = some (store.putObject old) ∧
        object = store.headObject (store.putObject old) := by
    intro object hobject
    obtain ⟨x, rfl, rfl⟩ := Option.map_eq_some_iff.mp hobject
    obtain ⟨old, rfl⟩ := hseen x rfl
    exact ⟨old, rfl, rfl⟩
  cases operation with
  | insertRecord config =>
    obtain ⟨hhead, record, hrecord, hwrite⟩ := (insertRecord_ok hperform).resolve_left nofun
    cases hwrite
    obtain rfl := Option.map_eq_none_iff.mp hhead
    obtain ⟨huntil, hat, rfl⟩ := buildMetadata_ok hrecord
    exact ⟨rfl, record, rfl, .inserted huntil hat⟩
  | updateRecord config =>
    obtain ⟨object, deadline, record, hhead, hdeadline, hnow, hrecord, hwrite⟩ :=
      (updateRecord_ok hperform).resolve_left nofun
    cases hwrite
    obtain ⟨old, rfl, rfl⟩ := hsome object hhead
    obtain ⟨huntil, hat, rfl⟩ := buildMetadata_ok hrecord
    refine ⟨rfl, record, rfl, ?_⟩
    rw [lockRecord, Option.bind_some, lockFields_putObject]
    exact .updated (parseLockUntil_ok hdeadline) hnow huntil hat
  | unlock config =>
    obtain ⟨object, deadline, record, hhead, hby, hdeadline, huntil, hrecord, hwrite⟩ :=
      (unlock_ok hperform).resolve_left nofun
    cases hwrite
    obtain ⟨old, rfl, rfl⟩ := hsome object hhead
    obtain ⟨lockUntil, hnew, rfl⟩ := renewedMetadata_ok hrecord
    obtain ⟨hu, -, hb⟩ := getMetadataValue_putObject store old
    obtain rfl := Option.some.inj (hu.symm.trans huntil)
    refine ⟨rfl, _, rfl, ?_⟩
    rw [lockRecord, Option.bind_some, lockFields_putObject]
    exact .unlocked (Option.some.inj (hb.symm.trans hby)) (toIsoString_ok.mp hdeadline) hnew
  | extend config previous =>
    obtain ⟨object, deadline, record, hhead, hdeadline, hby, hnow, hprevious, hrecord, hwrite⟩ :=
      (extend_ok hperform).resolve_left nofun
    cases hwrite
    obtain ⟨old, rfl, rfl⟩ := hsome object hhead
    obtain ⟨lockUntil, hnew, rfl⟩ := renewedMetadata_ok hrecord
    obtain ⟨hu, -, hb⟩ := getMetadataValue_putObject store old
    refine ⟨rfl, _, rfl, ?_⟩
    rw [lockRecord, Option.bind_some, lockFields_putObject]
    exact .extended (parseLockUntil_ok hdeadline) (Option.some.inj (hb.symm.trans hby)) hnow
      (fun p hp => (deadlineMatches_ok hprevious p hp).trans hu) hnew

theorem accessor_sound : (accessor store date).Sound (Written store) where
  write request now seen c v hseen h := by
    obtain ⟨hc, record, rfl, -⟩ := perform_write hseen h
    exact ⟨hc, record, rfl⟩
  tag_injective := by
    rintro _ _ ⟨record, rfl⟩ ⟨record', rfl⟩ h
    rw [lockRecordBody_injective (store.etag_injective h)]

end Writes

section Runs

variable [Add τ] [LT τ] [LE τ] [Max τ] [DecidableLT τ] [DecidableLE τ]

/-- The accessors' calls on one object, absent at first or written by an accessor. -/
abbrev accessors (store : ObjectStore ε) (date : DateFormat τ) :
    TransitionSystem (Client.State S3Object ε (Request τ) τ Reply) (Client.Event (Request τ) τ) :=
  (accessor store date).system (Written store)

/-- Lock records that change by one operation at a time, each labelled with its call. -/
def lockRecords (date : DateFormat τ) :
    TransitionSystem (Option LockRecord) (ℕ × Request τ × τ) where
  Initial _ := True
  Step stored a stored' := ∃ record, stored' = some record ∧
    LockOperation date a.2.2 a.2.1.hostname a.2.1.operation stored record

theorem lockRecords_step {stored : Option S3Object} {i : ℕ} {request : Request τ} {now : τ}
    {c : Condition ε} {v : S3Object} (hstored : ∀ x ∈ stored, Written store x)
    (h : (accessor store date).plan request now (stored.map (accessor store date).view) =
      .write c v) :
    (lockRecords date).Step (lockRecord stored) (i, request, now) (lockRecord (some v)) := by
  obtain ⟨-, record, rfl, hoperation⟩ := perform_write hstored h
  exact ⟨record, lockFields_putObject record, hoperation⟩

/-- Every run of the accessors' calls on one object is a run of single operations on its record,
one for each successful PUT, at that PUT and on the object the call has inspected. The steps of
a call that returns `false`, or from `unlock` without a PUT, change nothing, and the body always
repeats the metadata. -/
theorem s3_linearizable {s₀ s t u : Client.State S3Object ε (Request τ) τ Reply}
    {as bs : List (Client.Event (Request τ) τ)} {e : Client.Event (Request τ) τ}
    (h₀ : (accessors store date).Initial s₀) (has : (accessors store date).Run s₀ as s)
    (hs : (accessors store date).Step s e t) (hbs : (accessors store date).Run t bs u) :
    (∀ object ∈ u.stored, Agrees object) ∧
    (lockRecords date).Run (lockRecord s₀.stored)
      ((as ++ e :: bs).filterMap Client.Event.effect) (lockRecord u.stored) ∧
    (((as ++ e :: bs).filterMap Client.Event.effect).map Prod.fst).Nodup ∧
    (∀ i call, u.calls i = some call → call.reply? (accessor store date) = some (.bool true) →
      ∃ now, (i, call.request, now) ∈ (as ++ e :: bs).filterMap Client.Event.effect) ∧
    (∀ i request now, e.effect = some (i, request, now) →
      (∃ c v, s.calls i = some ⟨request, .writing s.stored now c v⟩) ∧
      (lockRecords date).Step (lockRecord s.stored) (i, request, now) (lockRecord t.stored)) ∧
    (∀ call, u.calls e.call = some call →
      call.reply? (accessor store date) = some (.bool false) ∨ call.phase = .returned .void →
      t.stored = s.stored) := by
  have hrun : (accessors store date).Run s₀ (as ++ e :: bs) u := has.append (.step hs hbs)
  have hcoherent : s₀.Coherent (accessor store date) (Written store) := .initial h₀
  have hmid := Client.coherent_run accessor_sound hcoherent has
  have hend := Client.coherent_run accessor_sound hcoherent hrun
  refine ⟨fun object hobject => (hend.stored object hobject).agrees, ?_,
    Client.effects_nodup hrun, ?_, ?_, ?_⟩
  · exact Client.run_serial (fun stored i request now c v => lockRecords_step) accessor_sound
      hcoherent hrun
  · rintro i ⟨request, phase⟩ hcall htrue
    cases phase with
    | applied => exact Client.effect_of_applied hrun (h₀.2 i) hcall
    | returned r =>
      obtain rfl := Option.some.inj htrue
      refine absurd rfl
        (Client.returned_run (R := (· ≠ .bool true)) ?_ ?_ hrun ?_ i request _ hcall)
      · intro request now head r hfinish
        exact plan_finish hfinish
      · rintro ⟨hostname, _ | _ | _ | _⟩ <;> exact nofun
      · intro i request r hi
        rw [h₀.2 i] at hi
        cases hi
    | called | inspected | writing | failed => cases htrue
  · intro i request now heff
    obtain ⟨c, v, hwriting, hplan, ht⟩ := hs.effect_serial accessor_sound hmid heff
    rw [ht]
    exact ⟨⟨c, v, hwriting⟩, lockRecords_step hmid.stored hplan⟩
  · rintro ⟨request, phase⟩ hcall (hfalse | hvoid)
    · cases phase with
      | returned r => exact Client.unchanged_of_returned hs hbs hcall rfl
      | applied =>
        obtain ⟨hostname, _ | _ | _ | _⟩ := request <;> cases hfalse
      | called | inspected | writing | failed => cases hfalse
    · exact Client.unchanged_of_returned hs hbs hcall hvoid

end Runs

section Nightly

/-- An object store that keeps the whole body for its tag and lower-cases the keys. -/
def bodyStore : ObjectStore String where
  etag := id
  keyCase := toLowerCase
  etag_injective := Function.injective_id
  keyCase_eq _ := .inr rfl

/-- The dates of the first two minutes of 1970. -/
def firstMinutes : DateFormat ℤ where
  toIsoString t :=
    if t = 0 then some "1970-01-01T00:00:00.000Z"
    else if t = 60000 then some "1970-01-01T00:01:00.000Z" else none
  parse text :=
    if text = "1970-01-01T00:00:00.000Z" then some 0
    else if text = "1970-01-01T00:01:00.000Z" then some 60000 else none

/-- The insert of a host for `nightly`. -/
def nightlyInsert (hostname : String) : Request ℤ :=
  ⟨hostname, .insertRecord
    { name := "nightly", lockAtMostFor := 60000, lockAtLeastFor := 0, createdAt := 0 }⟩

def nightlyRecord (hostname : String) : LockRecord where
  lockUntil := "1970-01-01T00:01:00.000Z"
  lockedAt := "1970-01-01T00:00:00.000Z"
  lockedBy := hostname

def nightlyAbsent : Client.State S3Object String (Request ℤ) ℤ Reply := ⟨none, fun _ => none⟩

/-- Both hosts have found no object. -/
def nightlyInspected : Client.State S3Object String (Request ℤ) ℤ Reply :=
  (((nightlyAbsent.setCall 0 ⟨nightlyInsert "host-a", .called⟩).setCall
    1 ⟨nightlyInsert "host-b", .called⟩).setCall
    0 ⟨nightlyInsert "host-a", .inspected none⟩).setCall
    1 ⟨nightlyInsert "host-b", .inspected none⟩

/-- Both have sent their PUT, and that of the second host has been applied. -/
def nightlyApplied : Client.State S3Object String (Request ℤ) ℤ Reply :=
  (((nightlyInspected.setCall 0 ⟨nightlyInsert "host-a",
      .writing none 0 .absent (bodyStore.putObject (nightlyRecord "host-a"))⟩).setCall
    1 ⟨nightlyInsert "host-b",
      .writing none 0 .absent (bodyStore.putObject (nightlyRecord "host-b"))⟩).put
    (bodyStore.putObject (nightlyRecord "host-b"))).setCall 1 ⟨nightlyInsert "host-b", .applied⟩

theorem nightlyApplied_run : (accessors bodyStore firstMinutes).Run nightlyAbsent
    [⟨0, .called⟩, ⟨1, .called⟩, ⟨0, .inspected⟩, ⟨1, .inspected⟩, ⟨0, .decided⟩, ⟨1, .decided⟩,
      ⟨1, .applied (nightlyInsert "host-b") 0⟩] nightlyApplied :=
  .step (.called rfl) <| .step (.called rfl) <| .step (.inspected rfl) <| .step (.inspected rfl) <|
    .step (.sent rfl rfl) <| .step (.sent rfl rfl) <| .single (.applied rfl rfl)

/-- Two inserts that overlap between HEAD and PUT: one takes place, the other one is refused. -/
theorem nightlyInsert_linearized :
    (lockRecords firstMinutes).Run none [(1, nightlyInsert "host-b", 0)]
      (some (nightlyRecord "host-b")) ∧
    ∃ t, (accessors bodyStore firstMinutes).Step nightlyApplied ⟨0, .refused⟩ t ∧
      t.stored = nightlyApplied.stored := by
  have h₀ : (accessors bodyStore firstMinutes).Initial nightlyAbsent := ⟨nofun, fun _ => rfl⟩
  have hrefused : (accessors bodyStore firstMinutes).Step nightlyApplied ⟨0, .refused⟩
      (nightlyApplied.setCall 0 ⟨nightlyInsert "host-a", .returned (.bool false)⟩) :=
    .refused (c := .absent) (v := bodyStore.putObject (nightlyRecord "host-a")) rfl
  obtain ⟨-, hrun, -, -, -, hsame⟩ := s3_linearizable h₀ nightlyApplied_run hrefused .refl
  exact ⟨hrun, _, hrefused, hsame _ rfl (.inl rfl)⟩

end Nightly

end Tslock.S3
