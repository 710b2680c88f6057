import Tslock.Core.RecordStore
import Tslock.IsoStores.Deadlines

/-! Any number of DynamoDB, Elasticsearch or OpenSearch providers on one table or index, each method
one conditional update whose conditions compare texts. -/
namespace Tslock.TextStores

open Function Foundation LeaseProtocol RecordStore
open IsoStores (LockRecord)

namespace DynamoDBLockProvider

open IsoStores.DynamoDBAccessor (lockCondition extendCondition unlockCondition setLockUntil)

/-- An item after `UpdateItem`, if its condition holds. -/
def conditional (condition : Option LockRecord → Prop) [DecidablePred condition]
    (set : Option LockRecord → Option LockRecord) (item : Option LockRecord) :
    Transacted LockRecord :=
  if condition item then ⟨set item, .returned true⟩ else ⟨none, .returned false⟩

/-- `false` stands for a `ConditionalCheckFailedException`. -/
def updateItem (name : String) (condition : Option LockRecord → Prop) [DecidablePred condition]
    (set : Option LockRecord → Option LockRecord) : Method ℕ LockRecord ℤ Bool := do
  return (← transact name fun _ _ => conditional condition set).granted

variable (hostname : String) (config : LockConfiguration ℤ)

def lock : Method ℕ LockRecord ℤ Bool := do
  let now ← now
  let isoNow ← lift (toIsoString now)
  let isoLockAtMostUntil ← lift (toIsoString config.lockAtMostUntil)
  updateItem config.name (lockCondition isoNow) fun _ =>
    some ⟨isoLockAtMostUntil, isoNow, hostname⟩

def extend : Option ℤ → Method ℕ LockRecord ℤ Bool
  | none => return false
  | some previousLockAtMostUntil => do
    let now ← now
    let isoNow ← lift (toIsoString now)
    let isoNewLockAtMostUntil ← lift (toIsoString config.lockAtMostUntil)
    let expectedLockUntil ← lift (toIsoString previousLockAtMostUntil)
    updateItem config.name (extendCondition hostname expectedLockUntil isoNow)
      (setLockUntil isoNewLockAtMostUntil)

/-- A failed condition is not reported. -/
def unlock : Method ℕ LockRecord ℤ Unit := do
  let now ← now
  let isoUnlock ← lift (toIsoString (config.unlockTime now))
  let expectedLockUntil ← lift (toIsoString config.lockAtMostUntil)
  let _ ← updateItem config.name (unlockCondition hostname expectedLockUntil)
    (setLockUntil isoUnlock)
  return ()

end DynamoDBLockProvider

namespace SearchLockProvider

open IsoStores.SearchLockAccessor (lockMatches extendMatches unlockMatches UpdateResult)

def isConflictError : Thrown → Bool
  | .service e => e.code = some 409
  | _ => false

def isNotFoundError : Thrown → Bool
  | .service e => e.code = some 404
  | _ => false

/-- The document after an update by script, if it was changed. -/
def transacted : Option LockRecord × UpdateResult → Transacted LockRecord
  | (document, .created) | (document, .updated) => ⟨document, .returned true⟩
  | (_, .noop) | (_, .notFound) => ⟨none, .returned false⟩

def scripted (matched : LockRecord → Prop) [DecidablePred matched] (set : LockRecord → LockRecord)
    (upsert document : Option LockRecord) : Transacted LockRecord :=
  transacted (IsoStores.SearchLockAccessor.update matched set upsert document)

/-- `false` stands for `noop` and for a document that is not found. -/
def update (id : String) (matched : LockRecord → Prop) [DecidablePred matched]
    (set : LockRecord → LockRecord) (upsert : Option LockRecord) : Method ℕ LockRecord ℤ Bool := do
  return (← transact id fun _ _ => scripted matched set upsert).granted

variable (hostname : String) (config : LockConfiguration ℤ)

def lock : Method ℕ LockRecord ℤ Bool := do
  let now ← now
  let isoNow ← lift (toIsoString now)
  let isoLockUntil ← lift (toIsoString config.lockAtMostUntil)
  tryCatch (update config.name (lockMatches isoNow)
    (fun _ => ⟨isoLockUntil, isoNow, hostname⟩) (some ⟨isoLockUntil, isoNow, hostname⟩))
    fun e => if isConflictError e then return false else throw e

def extend : Option ℤ → Method ℕ LockRecord ℤ Bool
  | none => return false
  | some previousLockAtMostUntil => do
    let now ← now
    let isoNow ← lift (toIsoString now)
    let isoNewLockUntil ← lift (toIsoString config.lockAtMostUntil)
    let expectedLockUntil ← lift (toIsoString previousLockAtMostUntil)
    tryCatch (update config.name (extendMatches hostname expectedLockUntil isoNow)
      (fun source => { source with lockUntil := isoNewLockUntil }) none)
      fun e => if isConflictError e || isNotFoundError e then return false else throw e

def unlock : Method ℕ LockRecord ℤ Unit := do
  let now ← now
  let isoUnlock ← lift (toIsoString (config.unlockTime now))
  let expectedLockUntil ← lift (toIsoString config.lockAtMostUntil)
  tryCatch (do
    let _ ← update config.name (unlockMatches hostname expectedLockUntil)
      (fun source => { source with lockUntil := isoUnlock }) none
    return ()) fun e => if isNotFoundError e then return () else throw e

end SearchLockProvider

section Texts

/-- The instant of a text that `toISOString` writes for a date before the year 10000. Any other text
is no deadline to the comparisons of these stores. -/
def instant (text : String) : Option ℤ :=
  (JsDate.parse text).filter fun t =>
    JsDate.toIsoString t = some text ∧ t < JsDate.yearTenThousand

variable {t now : ℤ} {text isoNow : String}

theorem instant_iff :
    instant text = some t ↔ JsDate.toIsoString t = some text ∧ t < JsDate.yearTenThousand := by
  constructor
  · intro h
    obtain ⟨-, hwritten⟩ := Option.filter_eq_some_iff.mp h
    exact of_decide_eq_true hwritten
  · intro h
    exact Option.filter_eq_some_iff.mpr ⟨JsDate.parse_toIsoString h.1, decide_eq_true h⟩

/-- The readings of a clock in the years 1970 to 9999. -/
def InYears (now : ℤ) : Prop := 0 ≤ now ∧ now < JsDate.yearTenThousand

/-- For such a reading the texts compare as the instants, except that later years come first. -/
theorem text_le_iff (ht : JsDate.toIsoString t = some text) (hnow : InYears now)
    (hiso : JsDate.toIsoString now = some isoNow) :
    text ≤ isoNow ↔ t ≤ now ∨ JsDate.yearTenThousand ≤ t := by
  have hrange : JsDate.InRange now := by
    obtain ⟨hlow, hhigh⟩ := hnow
    unfold JsDate.yearTenThousand at hhigh
    constructor
    · omega
    · omega
  have hsame := (ClockReading.toIsoString_eq ⟨now, hrange⟩).symm.trans hiso
  rw [← Option.some.inj hsame]
  exact IsoStores.text_le_iff (IsoStores.toList_of_toIsoString ht) hnow

end Texts

/-- Which hosts the calls of a table or an index come from. -/
abbrev Hosts := ℕ → String

def setup : Setup LockRecord ℤ where
  Reads := InYears
  provider _ := 0
  key name := name
  key_injective := injective_id
  lockUntil record := instant record.lockUntil

/-- Deadlines before the year 10000. -/
def Admits (_ : ℤ) (config : LockConfiguration ℤ) : Prop :=
  config.DurationsValid ∧ config.lockAtMostUntil < JsDate.yearTenThousand

def dynamoCode (hosts : Hosts) :
    Code (Request ℕ LockRecord ℤ) (Answer ℕ LockRecord ℤ) Thrown ℤ where
  Admits
  lock i := DynamoDBLockProvider.lock (hosts i)
  unlock i := DynamoDBLockProvider.unlock (hosts i)
  extend i config newConfig :=
    DynamoDBLockProvider.extend (hosts i) newConfig (some config.lockAtMostUntil)

def searchCode (hosts : Hosts) :
    Code (Request ℕ LockRecord ℤ) (Answer ℕ LockRecord ℤ) Thrown ℤ where
  Admits
  lock i := SearchLockProvider.lock (hosts i)
  unlock i := SearchLockProvider.unlock (hosts i)
  extend i config newConfig :=
    SearchLockProvider.extend (hosts i) newConfig (some config.lockAtMostUntil)

section Contract

variable {code : Code (Request ℕ LockRecord ℤ) (Answer ℕ LockRecord ℤ) Thrown ℤ} {i : ℕ} {now : ℤ}
  {s : State (Store ℕ LockRecord) ℤ} {a : LockCall (Phase ℤ) ℤ} {config : LockConfiguration ℤ}
  {isoNow text expected : String} {record : LockRecord}

theorem instant_of_ok {t : ℤ} (h : toIsoString t = .ok text) (ht : t < JsDate.yearTenThousand) :
    instant text = some t := instant_iff.mpr ⟨toIsoString_ok h, ht⟩

/-- A record that the condition of `lock` lets pass is over. -/
theorem over_of_text_le (hnow : InYears now) (hiso : toIsoString now = .ok isoNow)
    (hle : record.lockUntil ≤ isoNow) {t : ℤ} (ht : instant record.lockUntil = some t) :
    t ≤ now := by
  obtain ⟨htext, hyear⟩ := instant_iff.mp ht
  rcases (text_le_iff htext hnow (toIsoString_ok hiso)).mp hle with hover | hlate
  · exact hover
  · omega

/-- The deadline of a handle that is in the future as a text is one before the year 10000. -/
theorem instant_of_lt {t : ℤ} (hnow : InYears now) (hiso : toIsoString now = .ok isoNow)
    (h : toIsoString t = .ok text) (hlt : isoNow < text) : instant text = some t := by
  refine instant_of_ok h (not_le.mp fun hlate => ?_)
  exact absurd ((text_le_iff (toIsoString_ok h) hnow (toIsoString_ok hiso)).mpr (.inr hlate))
    (not_le.mpr hlt)

theorem unlockTime_lt (ha : Admits 0 config) {n : ℤ} (hn : InYears n) :
    config.unlockTime n < JsDate.yearTenThousand := by
  obtain ⟨⟨-, hle⟩, hyear⟩ := ha
  refine max_lt hn.2 ?_
  unfold LockConfiguration.lockAtMostUntil at hyear
  unfold LockConfiguration.lockAtLeastUntil
  omega

/-- An update that takes what is over and writes a deadline. -/
theorem meets_taking {run : Option LockRecord → Transacted LockRecord} {n : ℤ}
    (hinv : Tenancy.Exclusive (s.register (storage setup)))
    (hs : s.locks i = some ⟨config, .locking false⟩) (hnow : InYears n) (hclock : n ≤ s.clock)
    (hiso : toIsoString n = .ok isoNow)
    (hdeadline : instant text = some config.lockAtMostUntil)
    (hwrite : ∀ item d, (run item).write = some d →
      (∀ old, item = some old → old.lockUntil ≤ isoNow) ∧ d.lockUntil = text)
    (hgranted : ∀ item, (run item).write = none → (run item).reply.granted = false) :
    Meets setup code i (AfterWrite i ⟨config, .locking false⟩)
      (do return (← transact config.name fun _ _ => run).granted) s := by
  refine meets_granted hinv (meets_transact hs ?_ fun _ _ => hgranted)
  intro t _ _ d ht _ _ hd
  obtain ⟨hfree, hvalue⟩ := hwrite _ d hd
  refine ⟨config.lockAtMostUntil, ?_, ?_, le_refl _⟩
  · change instant d.lockUntil = _
    rw [hvalue, hdeadline]
  · intro x hx
    obtain ⟨y, hy, hx⟩ := Option.bind_eq_some_iff.mp hx
    obtain ⟨deadline, hinstant, rfl⟩ := Option.map_eq_some_iff.mp hx
    have hle := hfree y.value (congrArg (Option.map Versioned.value) hy)
    exact le_trans (over_of_text_le hnow hiso hle hinstant) (le_trans hclock ht.clock)

/-- An update that replaces the deadline of a handle. -/
theorem meets_replacing {run : Option LockRecord → Transacted LockRecord} {carried deadline : ℤ}
    (hinv : Tenancy.Exclusive (s.register (storage setup))) (hs : s.locks i = some a)
    (hdeadline : instant text = some deadline)
    (hwrite : ∀ item d, (run item).write = some d →
      (∃ old, item = some old ∧ instant old.lockUntil = some carried) ∧ d.lockUntil = text)
    (hgranted : ∀ item, (run item).write = none → (run item).reply.granted = false)
    (hallowed : ∀ clock w, Allows clock a (some (w, carried)) deadline) :
    Meets setup code i (AfterWrite i a)
      (do return (← transact a.config.name fun _ _ => run).granted) s := by
  refine meets_granted hinv (meets_transact hs ?_ fun _ _ => hgranted)
  intro t _ _ d _ _ _ hd
  obtain ⟨⟨old, hold, hcarried⟩, hvalue⟩ := hwrite _ d hd
  refine ⟨deadline, ?_, ?_⟩
  · change instant d.lockUntil = _
    rw [hvalue, hdeadline]
  · obtain ⟨y, hy, rfl⟩ := Option.map_eq_some_iff.mp hold
    rw [cell_of hy]
    change Allows t.clock a ((instant y.value.lockUntil).map (y.writer, ·)) deadline
    rw [hcarried]
    exact hallowed t.clock y.writer

theorem meets_now_bind {β : Type} {f : ℤ → Method ℕ LockRecord ℤ β}
    {post : Except Thrown β → State (Store ℕ LockRecord) ℤ → Prop}
    (hinv : Tenancy.Exclusive (s.register (storage setup))) (hs : s.locks i = some a)
    (hstays : ∀ e t, t.locks i = some a → post (.error e) t)
    (h : ∀ n t, Tenancy.Exclusive (t.register (storage setup)) → t.locks i = some a →
      n ≤ t.clock → InYears n → Meets setup code i post (f n) t) :
    Meets setup code i post (RecordStore.now >>= f) s := by
  refine Service.Meets.bind coherent hinv (meets_now hs) ?_ fun e t ht => hstays e t ht.1.call
  rintro n t ht ⟨hresumes, hreads⟩
  obtain ⟨hclock, hyears⟩ := hreads n rfl
  exact h n t ht hresumes.call hclock hyears

theorem meets_text_bind {β : Type} {n : ℤ} {f : String → Method ℕ LockRecord ℤ β}
    {post : Except Thrown β → State (Store ℕ LockRecord) ℤ → Prop} (hs : s.locks i = some a)
    (hstays : ∀ e t, t.locks i = some a → post (.error e) t)
    (h : ∀ text, toIsoString n = .ok text → Meets setup code i post (f text) s) :
    Meets setup code i post (lift (toIsoString n) >>= f) s :=
  meets_ofExcept_bind hs h fun e t ht => hstays e t ht.call

theorem meets_caught {p : Method ℕ LockRecord ℤ Bool} {caught : Thrown → Bool}
    (hinv : Tenancy.Exclusive (s.register (storage setup)))
    (h : Meets setup code i (AfterWrite i a) p s) :
    Meets setup code i (AfterWrite i a)
      (tryCatch p fun e => if caught e then return false else throw e) s := by
  refine Service.Meets.tryCatch coherent hinv h (fun _ _ h => h) ?_
  rintro e t - (hwritten | ⟨hcall, -⟩)
  · split
    · exact meets_pure hwritten fun u hu => .inl hu.call
    · exact meets_throw hwritten fun u hu => .inl hu.call
  · split
    · exact meets_pure hcall fun u hu => .inr ⟨hu.call, nofun⟩
    · exact meets_throw hcall fun u hu => .inr ⟨hu.call, nofun⟩

/-- A method that does not say whether it wrote. -/
theorem meets_silent {p : Method ℕ LockRecord ℤ Bool}
    (hinv : Tenancy.Exclusive (s.register (storage setup)))
    (h : Meets setup code i (AfterWrite i a) p s) :
    Meets setup code i (fun _ => AfterUnlock i a) (do let _ ← p; return ()) s := by
  refine Service.Meets.bind coherent hinv h ?_ ?_
  · rintro b t - (hwritten | ⟨hcall, -⟩)
    · exact meets_pure hwritten fun u hu => .inl hu.call
    · exact meets_pure hcall fun u hu => .inr hu.call
  · rintro e t (hwritten | ⟨hcall, -⟩)
    · exact .inl hwritten
    · exact .inr hcall

theorem meets_silent_caught {p : Method ℕ LockRecord ℤ Unit} {caught : Thrown → Bool}
    (hinv : Tenancy.Exclusive (s.register (storage setup)))
    (h : Meets setup code i (fun _ => AfterUnlock i a) p s) :
    Meets setup code i (fun _ => AfterUnlock i a)
      (tryCatch p fun e => if caught e then return () else throw e) s := by
  refine Service.Meets.tryCatch coherent hinv h (fun _ _ h => h) ?_
  rintro e t - (hwritten | hcall)
  · split
    · exact meets_pure hwritten fun u hu => .inl hu.call
    · exact meets_throw hwritten fun u hu => .inl hu.call
  · split
    · exact meets_pure hcall fun u hu => .inr hu.call
    · exact meets_throw hcall fun u hu => .inr hu.call

theorem stays_writing {e : Thrown} {t : State (Store ℕ LockRecord) ℤ}
    (h : t.locks i = some a) : AfterWrite i a (.error e : Except Thrown Bool) t :=
  .inr ⟨h, nofun⟩

end Contract

section Dynamo

open IsoStores.DynamoDBAccessor

variable {code : Code (Request ℕ LockRecord ℤ) (Answer ℕ LockRecord ℤ) Thrown ℤ} {i : ℕ}
  {s : State (Store ℕ LockRecord) ℤ} {config : LockConfiguration ℤ} {hostname : String}

theorem conditional_write {condition : Option LockRecord → Prop} [DecidablePred condition]
    {set : Option LockRecord → Option LockRecord} {item : Option LockRecord} {d : LockRecord}
    (h : (DynamoDBLockProvider.conditional condition set item).write = some d) :
    condition item ∧ set item = some d := by
  unfold DynamoDBLockProvider.conditional at h
  split at h
  · next hcondition => exact ⟨hcondition, h⟩
  · cases h

theorem conditional_granted {condition : Option LockRecord → Prop} [DecidablePred condition]
    {set : Option LockRecord → Option LockRecord} {item : Option LockRecord}
    (hset : ∀ item, condition item → set item ≠ none)
    (h : (DynamoDBLockProvider.conditional condition set item).write = none) :
    (DynamoDBLockProvider.conditional condition set item).reply.granted = false := by
  unfold DynamoDBLockProvider.conditional at h ⊢
  split
  · next hcondition =>
    rw [if_pos hcondition] at h
    exact absurd h (hset item hcondition)
  · rfl

theorem setLockUntil_of_some {text : String} {item : Option LockRecord} {d : LockRecord}
    (h : setLockUntil text item = some d) : ∃ old, item = some old ∧ d.lockUntil = text := by
  obtain ⟨old, hold, rfl⟩ := Option.map_eq_some_iff.mp h
  exact ⟨old, hold, rfl⟩

theorem dynamo_meets_lock (hinv : Tenancy.Exclusive (s.register (storage setup)))
    (hs : s.locks i = some ⟨config, .locking false⟩) (ha : Admits 0 config) :
    Meets setup code i (AfterWrite i ⟨config, .locking false⟩)
      (DynamoDBLockProvider.lock hostname config) s := by
  refine meets_now_bind hinv hs (fun _ _ => stays_writing) fun n t ht hcall hclock hyears => ?_
  refine meets_text_bind hcall (fun _ _ => stays_writing) fun isoNow hiso => ?_
  refine meets_text_bind hcall (fun _ _ => stays_writing) fun text htext => ?_
  refine meets_taking ht hcall hyears hclock hiso (instant_of_ok htext ha.2) ?_
    fun _ => conditional_granted nofun
  intro item d hd
  obtain ⟨hcondition, hset⟩ := conditional_write hd
  cases hset
  refine ⟨?_, rfl⟩
  rintro old rfl
  exact hcondition

theorem dynamo_meets_unlock (hinv : Tenancy.Exclusive (s.register (storage setup)))
    (hs : s.locks i = some ⟨config, .unlocking false⟩) (ha : Admits 0 config) :
    Meets setup code i (fun _ => AfterUnlock i ⟨config, .unlocking false⟩)
      (DynamoDBLockProvider.unlock hostname config) s := by
  refine meets_now_bind hinv hs (fun _ _ => .inr) fun n t ht hcall hclock hyears => ?_
  refine meets_text_bind hcall (fun _ _ => .inr) fun text htext => ?_
  refine meets_text_bind hcall (fun _ _ => .inr) fun expected hexpected => ?_
  refine meets_silent ht (meets_replacing ht hcall (instant_of_ok htext (unlockTime_lt ha hyears))
    ?_ ?_ fun clock w => ⟨rfl, ⟨w, rfl⟩, le_max_right _ _⟩)
  · intro item d hd
    obtain ⟨hcondition, hset⟩ := conditional_write hd
    obtain ⟨old, rfl, hvalue⟩ := setLockUntil_of_some hset
    refine ⟨⟨old, rfl, ?_⟩, hvalue⟩
    rw [hcondition.2]
    exact instant_of_ok hexpected ha.2
  · refine fun _ => conditional_granted ?_
    rintro (_ | old) hcondition
    · exact hcondition.elim
    · nofun

theorem dynamo_meets_extend {most least createdAt : ℤ}
    (hinv : Tenancy.Exclusive (s.register (storage setup)))
    (hs : s.locks i = some ⟨config, .extending most least createdAt false⟩)
    (ha : Admits 0 (config.successor most least createdAt)) :
    Meets setup code i (AfterWrite i ⟨config, .extending most least createdAt false⟩)
      (DynamoDBLockProvider.extend hostname (config.successor most least createdAt)
        (some config.lockAtMostUntil)) s := by
  refine meets_now_bind hinv hs (fun _ _ => stays_writing) fun n t ht hcall hclock hyears => ?_
  refine meets_text_bind hcall (fun _ _ => stays_writing) fun isoNow hiso => ?_
  refine meets_text_bind hcall (fun _ _ => stays_writing) fun text htext => ?_
  refine meets_text_bind hcall (fun _ _ => stays_writing) fun expected hexpected => ?_
  refine meets_replacing ht hcall (instant_of_ok htext ha.2) ?_ ?_
    fun clock w => ⟨rfl, ⟨w, rfl⟩, le_refl _⟩
  · intro item d hd
    obtain ⟨hcondition, hset⟩ := conditional_write hd
    obtain ⟨old, rfl, hvalue⟩ := setLockUntil_of_some hset
    obtain ⟨-, hcarried, hlater⟩ := hcondition
    refine ⟨⟨old, rfl, ?_⟩, hvalue⟩
    rw [hcarried] at hlater ⊢
    exact instant_of_lt hyears hiso hexpected hlater
  · refine fun _ => conditional_granted ?_
    rintro (_ | old) hcondition
    · exact hcondition.elim
    · nofun

theorem dynamo_methods_meet (hosts : Hosts) : MethodsMeet (storage setup) (dynamoCode hosts) where
  lock _ _ _ hinv hs ha := (dynamo_meets_lock hinv hs ha).mono fun _ _ h => h.granting
  unlock _ _ _ hinv hs ha := dynamo_meets_unlock hinv hs ha
  extend _ _ _ _ _ _ hinv hs _ ha := dynamo_meets_extend hinv hs ha

end Dynamo

section Search

open SearchLockProvider (scripted)

variable {code : Code (Request ℕ LockRecord ℤ) (Answer ℕ LockRecord ℤ) Thrown ℤ} {i : ℕ}
  {s : State (Store ℕ LockRecord) ℤ} {config : LockConfiguration ℤ} {hostname : String}

/-- What an update by script writes: the document of the `upsert` or the changed one. -/
theorem scripted_write {matched : LockRecord → Prop} [DecidablePred matched]
    {set : LockRecord → LockRecord} {upsert document : Option LockRecord} {d : LockRecord}
    (h : (scripted matched set upsert document).write = some d) :
    document = none ∧ upsert = some d ∨
      ∃ old, document = some old ∧ matched old ∧ d = set old := by
  cases document with
  | none =>
    cases upsert with
    | none => cases h
    | some new => exact .inl ⟨rfl, h⟩
  | some old =>
    unfold scripted IsoStores.SearchLockAccessor.update at h
    dsimp only at h
    split at h
    · next hmatched =>
      cases h
      exact .inr ⟨old, rfl, hmatched, rfl⟩
    · cases h

theorem scripted_granted {matched : LockRecord → Prop} [DecidablePred matched]
    {set : LockRecord → LockRecord} {upsert document : Option LockRecord}
    (h : (scripted matched set upsert document).write = none) :
    (scripted matched set upsert document).reply.granted = false := by
  cases document with
  | none =>
    cases upsert with
    | none => rfl
    | some new => cases h
  | some old =>
    unfold scripted IsoStores.SearchLockAccessor.update at h ⊢
    dsimp only at h ⊢
    split
    · next hmatched =>
      rw [if_pos hmatched] at h
      cases h
    · rfl

theorem search_meets_lock (hinv : Tenancy.Exclusive (s.register (storage setup)))
    (hs : s.locks i = some ⟨config, .locking false⟩) (ha : Admits 0 config) :
    Meets setup code i (AfterWrite i ⟨config, .locking false⟩)
      (SearchLockProvider.lock hostname config) s := by
  refine meets_now_bind hinv hs (fun _ _ => stays_writing) fun n t ht hcall hclock hyears => ?_
  refine meets_text_bind hcall (fun _ _ => stays_writing) fun isoNow hiso => ?_
  refine meets_text_bind hcall (fun _ _ => stays_writing) fun text htext => ?_
  refine meets_caught ht (meets_taking ht hcall hyears hclock hiso (instant_of_ok htext ha.2) ?_
    fun _ => scripted_granted)
  intro item d hd
  rcases scripted_write hd with ⟨rfl, hnew⟩ | ⟨old, rfl, hmatched, rfl⟩
  · cases hnew
    exact ⟨nofun, rfl⟩
  · refine ⟨?_, rfl⟩
    rintro _ ⟨⟩
    exact hmatched

theorem search_meets_unlock (hinv : Tenancy.Exclusive (s.register (storage setup)))
    (hs : s.locks i = some ⟨config, .unlocking false⟩) (ha : Admits 0 config) :
    Meets setup code i (fun _ => AfterUnlock i ⟨config, .unlocking false⟩)
      (SearchLockProvider.unlock hostname config) s := by
  refine meets_now_bind hinv hs (fun _ _ => .inr) fun n t ht hcall hclock hyears => ?_
  refine meets_text_bind hcall (fun _ _ => .inr) fun text htext => ?_
  refine meets_text_bind hcall (fun _ _ => .inr) fun expected hexpected => ?_
  refine meets_silent_caught ht (meets_silent ht (meets_replacing ht hcall
    (instant_of_ok htext (unlockTime_lt ha hyears)) ?_ (fun _ => scripted_granted)
    fun clock w => ⟨rfl, ⟨w, rfl⟩, le_max_right _ _⟩))
  intro item d hd
  rcases scripted_write hd with ⟨-, hnew⟩ | ⟨old, rfl, hmatched, rfl⟩
  · cases hnew
  · refine ⟨⟨old, rfl, ?_⟩, rfl⟩
    rw [hmatched.2]
    exact instant_of_ok hexpected ha.2

theorem search_meets_extend {most least createdAt : ℤ}
    (hinv : Tenancy.Exclusive (s.register (storage setup)))
    (hs : s.locks i = some ⟨config, .extending most least createdAt false⟩)
    (ha : Admits 0 (config.successor most least createdAt)) :
    Meets setup code i (AfterWrite i ⟨config, .extending most least createdAt false⟩)
      (SearchLockProvider.extend hostname (config.successor most least createdAt)
        (some config.lockAtMostUntil)) s := by
  refine meets_now_bind hinv hs (fun _ _ => stays_writing) fun n t ht hcall hclock hyears => ?_
  refine meets_text_bind hcall (fun _ _ => stays_writing) fun isoNow hiso => ?_
  refine meets_text_bind hcall (fun _ _ => stays_writing) fun text htext => ?_
  refine meets_text_bind hcall (fun _ _ => stays_writing) fun expected hexpected => ?_
  refine meets_caught ht (meets_replacing ht hcall (instant_of_ok htext ha.2) ?_
    (fun _ => scripted_granted) fun clock w => ⟨rfl, ⟨w, rfl⟩, le_refl _⟩)
  intro item d hd
  rcases scripted_write hd with ⟨-, hnew⟩ | ⟨old, rfl, ⟨-, hcarried, hlater⟩, rfl⟩
  · cases hnew
  · refine ⟨⟨old, rfl, ?_⟩, rfl⟩
    rw [hcarried] at hlater ⊢
    exact instant_of_lt hyears hiso hexpected hlater

theorem search_methods_meet (hosts : Hosts) : MethodsMeet (storage setup) (searchCode hosts) where
  lock _ _ _ hinv hs ha := (search_meets_lock hinv hs ha).mono fun _ _ h => h.granting
  unlock _ _ _ hinv hs ha := search_meets_unlock hinv hs ha
  extend _ _ _ _ _ _ hinv hs _ ha := search_meets_extend hinv hs ha

end Search

/-- The two kinds of store with their providers. -/
inductive Backend
  | dynamoDB
  | search

def Backend.code (hosts : Hosts) :
    Backend → Code (Request ℕ LockRecord ℤ) (Answer ℕ LockRecord ℤ) Thrown ℤ
  | dynamoDB => dynamoCode hosts
  | search => searchCode hosts

theorem methods_meet (hosts : Hosts) :
    ∀ backend : Backend, MethodsMeet (storage setup) (backend.code hosts)
  | .dynamoDB => dynamo_methods_meet hosts
  | .search => search_methods_meet hosts

/-- The lock protocol over a table or an index, for deadlines and readings of the years 1970 to
9999: one live handle for each name, whose record nobody else writes; a record changes only when
`lock` takes one that is over or `unlock` or `extend` replaces that of their handle; and an unlocked
name stays closed until the minimum hold is over. -/
theorem text_lock_protocol {hosts : Hosts} {backend : Backend}
    {s : Service.State (State (Store ℕ LockRecord) ℤ) (Request ℕ LockRecord ℤ)
      (Answer ℕ LockRecord ℤ) Thrown Bool}
    (h : (service (storage setup) (backend.code hosts)).system.Reachable s) :
    Protocol (storage setup) (backend.code hosts) s :=
  (methods_meet hosts backend).correct.protocol h

section Nightly

def nightly : LockConfiguration ℤ :=
  { name := "nightly", lockAtMostFor := 60000, lockAtLeastFor := 5000, createdAt := 0 }

def nightlyHosts : Hosts := fun _ => "host-a"

def nightlyRecord : LockRecord := ⟨"1970-01-01T00:01:00.000Z", "1970-01-01T00:00:00.000Z", "host-a"⟩

def emptyStore : Store ℕ LockRecord := ⟨fun _ _ => false, fun _ => none⟩

def nightlyStore : Store ℕ LockRecord where
  registry _ _ := false
  records := update (fun _ => none) "nightly" (some ⟨1, nightlyRecord, 0⟩)

/-- A `lock()` call on an empty index whose script has just created the document. -/
theorem text_nightly_protocol : ∃ s, Live s 0 ⟨nightly, .locking true⟩ ∧
    Protocol (storage setup) (Backend.search.code nightlyHosts) s := by
  have h₀ : (service (storage setup) (Backend.search.code nightlyHosts)).system.Reachable
      ⟨⟨0, emptyStore, fun _ => none⟩, fun _ => none⟩ :=
    .initial ⟨⟨fun _ _ => rfl, fun _ => rfl⟩, fun _ => rfl⟩
  have hadmits : Admits 0 nightly := ⟨by decide, by decide⟩
  have hstarted := reachable_lock 0 nightly h₀ rfl rfl hadmits
  have hnow := Service.reachable_served hstarted
    (.quiet (.now ⟨le_refl 0, show 0 < JsDate.yearTenThousand by decide⟩))
  have hupdate : RecordStore.Serve setup 0 0 emptyStore
      (.transact "nightly" fun _ _ => SearchLockProvider.scripted
          (IsoStores.SearchLockAccessor.lockMatches "1970-01-01T00:00:00.000Z")
          (fun _ => nightlyRecord) (some nightlyRecord))
      (.ok (.returned true)) true nightlyStore :=
    .transacted (le_refl 0) (le_refl 0) (by decide +kernel) nofun
  have hwritten := Service.reachable_served hnow (.wrote hupdate rfl)
  exact ⟨_, ⟨rfl, rfl, by decide⟩, text_lock_protocol hwritten⟩

end Nightly

end Tslock.TextStores
