import Tslock.Core.RecordStore
import Tslock.Documents.OwnRecord

/-! Any number of Firestore or Datastore providers on one collection, each method one transaction of
its document. -/
namespace Tslock.Documents

open Function Foundation LeaseProtocol RecordStore

/-- A configuration in whole milliseconds, as numbers of the language. -/
def whole (config : LockConfiguration ℤ) : LockConfiguration JsNumber :=
  { name := config.name
    lockAtMostFor := .finite config.lockAtMostFor
    lockAtLeastFor := .finite config.lockAtLeastFor
    createdAt := .finite config.createdAt }

/-- What `createLockConfig` lets pass, made at a time of a clock, with a deadline that is a date. -/
def Admits (_ : ℤ) (config : LockConfiguration ℤ) : Prop :=
  JsDate.InRange config.createdAt ∧ config.DurationsValid ∧
    JsDate.InRange config.lockAtMostUntil

instance (clock : ℤ) : DecidablePred (Admits clock) := fun config =>
  inferInstanceAs (Decidable (JsDate.InRange _ ∧ config.DurationsValid ∧ JsDate.InRange _))

/-- The clock shows dates. -/
def reading (ms : ℤ) : Option ClockReading :=
  if h : JsDate.InRange ms then some ⟨ms, h⟩ else none

namespace DocumentAccessor

variable {V : Type}

/-- `runTransaction` with a function that reads one document. -/
def runTransaction (name : String)
    (run : ClockReading → ClockReading → Option (Document V) → Outcome V) :
    Method ℕ (Document V) ℤ AccessorReply :=
  transact name fun first second document =>
    match reading first, reading second with
    | some now, some later => ⟨(run now later document).write, (run now later document).reply⟩
    | _, _ => ⟨none, .done⟩

def returned : AccessorReply → Except Thrown Bool
  | .returned b => .ok b
  | .done => .ok false
  | .threw message => .error (.lockException message)

def finished : AccessorReply → Except Thrown Unit
  | .returned _ | .done => .ok ()
  | .threw message => .error (.lockException message)

/-- The methods of `FirestoreStorageAccessor` and `DatastoreStorageAccessor`. -/
def methods (accessor : DocumentAccessor V) : RecordStore.StorageAccessor ℕ (Document V) ℤ where
  insertRecord config := do
    lift (returned (← runTransaction config.name fun now _ =>
      accessor.insertRecord (whole config) now))
  updateRecord config := do
    lift (returned (← runTransaction config.name fun now later =>
      accessor.updateRecord (whole config) now later))
  unlock config := do
    lift (finished (← runTransaction config.name fun now _ => accessor.unlock (whole config) now))
  extend config
    | none => return false
    | some previousLockAtMostUntil => do
      lift (returned (← runTransaction config.name fun now _ =>
        accessor.extend (whole config) (some (.finite previousLockAtMostUntil)) now))

end DocumentAccessor

/-- The providers of one collection. They read each other's documents. -/
structure Providers (V : Type) where
  accessor : ℕ → DocumentAccessor V
  toMillis : V → JsNumber
  toMillis_eq : ∀ p, (accessor p).toMillis = toMillis
  provider : ℕ → ℕ

/-- The whole millisecond from which on the clock is not before a number. -/
def ceilMillis : JsNumber → Option ℤ
  | .finite q => some ⌈q⌉
  | _ => none

variable {V : Type}

def Providers.setup (providers : Providers V) : Setup (Document V) ℤ where
  Reads _ := True
  provider := providers.provider
  key name := name
  key_injective := injective_id
  lockUntil document := ceilMillis (providers.toMillis document.lockUntil)

def Providers.methods (providers : Providers V) (i : ℕ) :
    RecordStore.StorageAccessor ℕ (Document V) ℤ :=
  (providers.accessor (providers.provider i)).methods

abbrev Providers.code (providers : Providers V) :
    Code (Request ℕ (Document V) ℤ) (Answer ℕ (Document V) ℤ) Thrown ℤ :=
  providerCode Admits providers.methods

section Numbers

variable {config : LockConfiguration ℤ} {now : ClockReading} {n clock : ℤ} {x : JsNumber}

theorem finite_add {a b : ℤ} (h : JsDate.InRange (a + b)) :
    JsNumber.finite a + JsNumber.finite b = .finite (a + b : ℤ) := by
  have hsmall : |a + b| < 2 ^ 53 := by
    obtain ⟨hlow, hhigh⟩ := h
    rw [abs_lt]
    constructor
    · omega
    · omega
  rw [← JsNumber.ofRat_intCast hsmall, Int.cast_add]
  rfl

theorem finite_lt {p q : ℚ} : JsNumber.finite p < .finite q ↔ p < q := by
  change JsNumber.blt (.finite p) (.finite q) = true ↔ _
  simp [JsNumber.blt]

theorem finite_max (a b : ℤ) :
    max (JsNumber.finite a) (JsNumber.finite b) = .finite (max a b : ℤ) := by
  rw [JsNumber.max_def, if_neg (by simp)]
  rcases lt_or_ge a b with hlt | hge
  · rw [max_eq_right hlt.le, if_pos (finite_lt.mpr (Int.cast_lt.mpr hlt))]
  · rw [max_eq_left hge, if_neg]
    rw [finite_lt, Int.cast_lt]
    exact not_lt.mpr hge

theorem whole_lockAtMostUntil (h : JsDate.InRange config.lockAtMostUntil) :
    (whole config).lockAtMostUntil = .finite config.lockAtMostUntil := finite_add h

theorem inRange_lockAtLeastUntil (h : Admits clock config) :
    JsDate.InRange config.lockAtLeastUntil := by
  obtain ⟨⟨hlow, -⟩, ⟨hnonneg, hle⟩, ⟨-, hhigh⟩⟩ := h
  unfold LockConfiguration.lockAtMostUntil at hhigh
  unfold LockConfiguration.lockAtLeastUntil
  constructor
  · omega
  · omega

theorem whole_unlockTime (h : Admits clock config) :
    (whole config).unlockTime now.toNumber = .finite (config.unlockTime now.ms : ℤ) := by
  change max (JsNumber.finite now.ms)
    (JsNumber.finite config.createdAt + JsNumber.finite config.lockAtLeastFor) = _
  rw [finite_add (inRange_lockAtLeastUntil h), finite_max]
  rfl

theorem inRange_unlockTime (h : Admits clock config) :
    JsDate.InRange (config.unlockTime now.ms) := by
  rcases max_choice now.ms config.lockAtLeastUntil with hmax | hmax
  · rw [LockConfiguration.unlockTime, hmax]
    exact now.inRange
  · rw [LockConfiguration.unlockTime, hmax]
    exact inRange_lockAtLeastUntil h

/-- A number that the clock has reached. -/
theorem ceilMillis_le (h : ¬ now.toNumber < x) (hx : ceilMillis x = some n) : n ≤ now.ms := by
  cases x with
  | finite q =>
    cases hx
    rw [ClockReading.toNumber, finite_lt, not_lt] at h
    exact Int.ceil_le.mpr h
  | _ => cases hx

theorem ceilMillis_of_strictEquals (h : x.strictEquals (.finite n) = true) :
    ceilMillis x = some n := by
  rw [JsNumber.strictEquals, decide_eq_true_eq] at h
  rw [h.2, ceilMillis, Int.ceil_intCast]

end Numbers

section Written

variable {accessor : DocumentAccessor V} {config : LockConfiguration JsNumber}
  {now later : ClockReading} {document : Option (Document V)} {d : Document V} {n : ℤ} {v : V}

/-- What is written of a date is read back. -/
theorem ceilMillis_toFieldValue (h : accessor.toFieldValue (.finite n) = .ok v)
    (hdate : JsDate.InRange n) : ceilMillis (accessor.toMillis v) = some n := by
  obtain ⟨m, hm, hnear⟩ := accessor.near n v
    (isDate_iff.mpr (by
      obtain ⟨hlow, hhigh⟩ := hdate
      rw [JsNumber.finite_le, JsNumber.finite_le]
      constructor
      · exact_mod_cast hlow
      · exact_mod_cast hhigh)) h
  have hlt : |m - n| < 1 := by exact_mod_cast hnear
  rw [hm, ceilMillis, Int.ceil_intCast, sub_eq_zero.mp (Int.abs_lt_one_iff.mp hlt)]

theorem writeData_write (h : (accessor.writeData config now).write = some d) :
    accessor.toFieldValue config.lockAtMostUntil = .ok d.lockUntil := by
  have hreply : accessor.writeData config now = ⟨some d, .returned true⟩ := by
    unfold DocumentAccessor.writeData at h ⊢
    split at h
    · cases h
    · cases h
      rfl
  exact (DocumentAccessor.writeData_ok hreply).2

theorem setLockUntil_write {old : Document V} {x : JsNumber} {reply : AccessorReply}
    (h : (accessor.setLockUntil old x reply).write = some d) :
    accessor.toFieldValue x = .ok d.lockUntil := by
  unfold DocumentAccessor.setLockUntil at h
  split at h
  · cases h
  · next hvalue =>
    cases h
    exact hvalue

theorem insertRecord_write (h : (accessor.insertRecord config now document).write = some d) :
    document = none ∧ accessor.toFieldValue config.lockAtMostUntil = .ok d.lockUntil := by
  cases document with
  | some old => cases h
  | none => exact ⟨rfl, writeData_write h⟩

theorem updateRecord_write (h : (accessor.updateRecord config now later document).write = some d) :
    ∃ old, document = some old ∧ ¬ now.toNumber < accessor.toMillis old.lockUntil ∧
      accessor.toFieldValue config.lockAtMostUntil = .ok d.lockUntil := by
  cases document with
  | none => cases h
  | some old =>
    dsimp only [DocumentAccessor.updateRecord] at h
    split at h
    · cases h
    · next hover => exact ⟨old, rfl, hover, writeData_write h⟩

theorem unlock_write (h : (accessor.unlock config now document).write = some d) :
    ∃ old, document = some old ∧
      (accessor.toMillis old.lockUntil).strictEquals config.lockAtMostUntil = true ∧
      accessor.toFieldValue (config.unlockTime now.toNumber) = .ok d.lockUntil := by
  cases document with
  | none => cases h
  | some old =>
    dsimp only [DocumentAccessor.unlock] at h
    split at h
    · cases h
    split at h
    · cases h
    · next hequal => exact ⟨old, rfl, not_not.mp hequal, setLockUntil_write h⟩

theorem extend_write {previous : JsNumber}
    (h : (accessor.extend config (some previous) now document).write = some d) :
    ∃ old, document = some old ∧
      (accessor.toMillis old.lockUntil).strictEquals previous = true ∧
      accessor.toFieldValue config.lockAtMostUntil = .ok d.lockUntil := by
  cases document with
  | none => cases h
  | some old =>
    dsimp only [DocumentAccessor.extend] at h
    split at h
    · cases h
    split at h
    · cases h
    · next hequal =>
      rw [not_or, not_not] at hequal
      exact ⟨old, rfl, hequal.1, setLockUntil_write h⟩

/-- A transaction that writes nothing grants nothing. -/
theorem writeData_granted (h : (accessor.writeData config now).write = none) :
    (accessor.writeData config now).reply.granted = false := by
  unfold DocumentAccessor.writeData at h ⊢
  split at h
  · rfl
  · cases h

theorem insertRecord_granted (h : (accessor.insertRecord config now document).write = none) :
    (accessor.insertRecord config now document).reply.granted = false := by
  cases document with
  | some old => rfl
  | none => exact writeData_granted h

theorem updateRecord_granted (h : (accessor.updateRecord config now later document).write = none) :
    (accessor.updateRecord config now later document).reply.granted = false := by
  cases document with
  | none => rfl
  | some old =>
    dsimp only [DocumentAccessor.updateRecord] at h ⊢
    split
    · rfl
    · next hover =>
      rw [if_neg hover] at h
      exact writeData_granted h

theorem unlock_granted : (accessor.unlock config now document).reply.granted = false := by
  cases document with
  | none => rfl
  | some old =>
    dsimp only [DocumentAccessor.unlock]
    split
    · rfl
    split
    · rfl
    · unfold DocumentAccessor.setLockUntil
      split <;> rfl

theorem extend_granted_false {previous : JsNumber}
    (h : (accessor.extend config (some previous) now document).write = none) :
    (accessor.extend config (some previous) now document).reply.granted = false := by
  cases document with
  | none => rfl
  | some old =>
    dsimp only [DocumentAccessor.extend] at h ⊢
    split
    · rfl
    · next hby =>
      rw [if_neg hby] at h
      split
      · rfl
      · next hequal =>
        rw [if_neg hequal] at h
        unfold DocumentAccessor.setLockUntil at h ⊢
        split
        · rfl
        · next hvalue =>
          rw [hvalue] at h
          cases h

end Written

section Contract

variable {providers : Providers V}
  {code : Code (Request ℕ (Document V) ℤ) (Answer ℕ (Document V) ℤ) Thrown ℤ} {i : ℕ} {clock : ℤ}
  {s : State (Store ℕ (Document V)) ℤ} {a : LockCall (Phase ℤ) ℤ} {config : LockConfiguration ℤ}

theorem reading_some {ms : ℤ} {now : ClockReading} (h : reading ms = some now) : now.ms = ms := by
  unfold reading at h
  split at h
  · cases h
    rfl
  · cases h

theorem meets_runTransaction {run : ClockReading → ClockReading → Option (Document V) → Outcome V}
    (hs : s.locks i = some a)
    (hallowed : ∀ (t : State (Store ℕ (Document V)) ℤ) now later d, s.clock ≤ t.clock →
      now.ms ≤ t.clock →
      (run now later ((t.store.records a.config.name).map Versioned.value)).write = some d →
      ∃ deadline, providers.setup.lockUntil d = some deadline ∧
        Allows t.clock a (cell providers.setup t.store a.config.name) deadline)
    (hgranted : ∀ now later document, (run now later document).write = none →
      (run now later document).reply.granted = false) :
    Meets providers.setup code i (AfterTransact i a)
      (DocumentAccessor.runTransaction a.config.name run) s := by
  refine meets_transact hs ?_ ?_
  · intro t first second d ht hfirst hsecond hwrite
    split at hwrite
    · next now later hnow _ =>
      refine hallowed t now later d ht.clock ?_ hwrite
      rw [reading_some hnow]
      exact le_trans hfirst hsecond
    · cases hwrite
  · intro first second document hwrite
    split
    · next now later hnow hlater =>
      simp only [hnow, hlater] at hwrite
      exact hgranted now later document hwrite
    · rfl

/-- A method that returns what its transaction returns. -/
theorem meets_returned {p : Method ℕ (Document V) ℤ AccessorReply}
    (hinv : Tenancy.Exclusive (s.register (storage providers.setup)))
    (h : Meets providers.setup code i (AfterTransact i a) p s) :
    Meets providers.setup code i (AfterWrite i a)
      (do lift (DocumentAccessor.returned (← p))) s := by
  refine Service.Meets.bind coherent hinv h ?_ ?_
  · rintro reply t - (hwritten | ⟨hcall, hgranted⟩)
    · exact meets_ofExcept hwritten fun u hu => .inl hu.call
    · refine meets_ofExcept hcall fun u hu => .inr ⟨hu.call, ?_⟩
      have hrefused := hgranted reply rfl
      cases reply with
      | returned b =>
        rintro ⟨⟩
        cases hrefused
      | done | threw => nofun
  · rintro e t (hwritten | ⟨hcall, -⟩)
    · exact .inl hwritten
    · exact .inr ⟨hcall, nofun⟩

theorem lockUntil_write {v : V}
    (h : (providers.accessor (providers.provider i)).toFieldValue (.finite clock) = .ok v)
    (hdate : JsDate.InRange clock) : ceilMillis (providers.toMillis v) = some clock := by
  rw [← providers.toMillis_eq (providers.provider i)]
  exact ceilMillis_toFieldValue h hdate

theorem meets_insertRecord {granted : Bool}
    (hinv : Tenancy.Exclusive (s.register (storage providers.setup)))
    (hs : s.locks i = some ⟨config, .locking granted⟩) (ha : Admits clock config) :
    Meets providers.setup code i (AfterWrite i ⟨config, .locking granted⟩)
      ((providers.methods i).insertRecord config) s := by
  refine meets_returned hinv (meets_runTransaction hs ?_ fun _ _ _ => insertRecord_granted)
  intro t now _ d _ _ hwrite
  obtain ⟨hnone, hvalue⟩ := insertRecord_write hwrite
  rw [whole_lockAtMostUntil ha.2.2] at hvalue
  refine ⟨_, lockUntil_write hvalue ha.2.2, ?_, le_refl _⟩
  intro x hx
  obtain ⟨y, hy, -⟩ := Option.bind_eq_some_iff.mp hx
  change t.store.records config.name = some y at hy
  rw [hy] at hnone
  cases hnone

theorem meets_updateRecord {granted : Bool}
    (hinv : Tenancy.Exclusive (s.register (storage providers.setup)))
    (hs : s.locks i = some ⟨config, .locking granted⟩) (ha : Admits clock config) :
    Meets providers.setup code i (AfterWrite i ⟨config, .locking granted⟩)
      ((providers.methods i).updateRecord config) s := by
  refine meets_returned hinv (meets_runTransaction hs ?_ fun _ _ _ => updateRecord_granted)
  intro t now _ d _ hnow hwrite
  obtain ⟨old, hold, hover, hvalue⟩ := updateRecord_write hwrite
  rw [whole_lockAtMostUntil ha.2.2] at hvalue
  refine ⟨_, lockUntil_write hvalue ha.2.2, ?_, le_refl _⟩
  intro x hx
  obtain ⟨y, hy, hx⟩ := Option.bind_eq_some_iff.mp hx
  obtain ⟨deadline, hdeadline, rfl⟩ := Option.map_eq_some_iff.mp hx
  change t.store.records config.name = some y at hy
  obtain rfl := Option.some.inj ((congrArg (Option.map Versioned.value) hy).symm.trans hold)
  rw [providers.toMillis_eq] at hover
  exact le_trans (ceilMillis_le hover hdeadline) hnow

/-- A document that carries a deadline is one of its handle. -/
theorem cell_of_strictEquals {t : State (Store ℕ (Document V)) ℤ} {old : Document V} {n : ℤ}
    (hold : (t.store.records config.name).map Versioned.value = some old)
    (hequal : ((providers.accessor (providers.provider i)).toMillis old.lockUntil).strictEquals
      (.finite n) = true) :
    ∃ w, cell providers.setup t.store config.name = some (w, n) := by
  obtain ⟨y, hy, rfl⟩ := Option.map_eq_some_iff.mp hold
  rw [providers.toMillis_eq] at hequal
  refine ⟨y.writer, ?_⟩
  rw [cell_of hy]
  exact congrArg _ (ceilMillis_of_strictEquals hequal)

theorem meets_unlock (hinv : Tenancy.Exclusive (s.register (storage providers.setup)))
    (hs : s.locks i = some ⟨config, .unlocking false⟩) (ha : Admits clock config) :
    Meets providers.setup code i (fun _ => AfterUnlock i ⟨config, .unlocking false⟩)
      ((providers.methods i).unlock config) s := by
  refine Service.Meets.bind coherent hinv
    (meets_runTransaction hs ?_ fun _ _ _ _ => unlock_granted) ?_ ?_
  · intro t now _ d _ _ hwrite
    obtain ⟨old, hold, hequal, hvalue⟩ := unlock_write hwrite
    rw [whole_unlockTime ha] at hvalue
    rw [whole_lockAtMostUntil ha.2.2] at hequal
    exact ⟨_, lockUntil_write hvalue (inRange_unlockTime ha), rfl,
      cell_of_strictEquals hold hequal, le_max_right _ _⟩
  · rintro reply t - (hwritten | ⟨hcall, -⟩)
    · exact meets_ofExcept hwritten fun u hu => .inl hu.call
    · exact meets_ofExcept hcall fun u hu => .inr hu.call
  · rintro e t (hwritten | ⟨hcall, -⟩)
    · exact .inl hwritten
    · exact .inr hcall

theorem meets_extend {most least createdAt : ℤ}
    (hinv : Tenancy.Exclusive (s.register (storage providers.setup)))
    (hs : s.locks i = some ⟨config, .extending most least createdAt false⟩)
    (ha : Admits clock (config.successor most least createdAt)) :
    Meets providers.setup code i (AfterWrite i ⟨config, .extending most least createdAt false⟩)
      ((providers.methods i).extend (config.successor most least createdAt)
        (some config.lockAtMostUntil)) s := by
  refine meets_returned hinv (meets_runTransaction hs ?_ fun _ _ _ => extend_granted_false)
  intro t now _ d _ _ hwrite
  obtain ⟨old, hold, hequal, hvalue⟩ := extend_write hwrite
  rw [whole_lockAtMostUntil ha.2.2] at hvalue
  exact ⟨_, lockUntil_write hvalue ha.2.2, rfl, cell_of_strictEquals hold hequal, le_refl _⟩

theorem accessor_meets (providers : Providers V) :
    AccessorMeets providers.setup Admits providers.methods where
  insertRecord _ _ _ _ _ hinv hs ha := meets_insertRecord hinv hs ha.choose_spec
  updateRecord _ _ _ _ _ hinv hs ha := meets_updateRecord hinv hs ha.choose_spec
  unlock _ _ _ _ hinv hs ha := meets_unlock hinv hs ha.choose_spec
  extend _ _ _ _ _ _ _ hinv hs ha := meets_extend hinv hs ha.choose_spec

end Contract

/-- The lock protocol over a collection whose methods are transactions, for locks of whole
milliseconds whose deadlines are dates: one live handle for each name, whose document nobody else
writes; a deadline changes only when `lock` takes a document that is over or `unlock` or `extend`
replaces that of their handle; and an unlocked name stays closed until the minimum hold is over. -/
theorem document_lock_protocol {providers : Providers V}
    {s : Service.State (State (Store ℕ (Document V)) ℤ) (Request ℕ (Document V) ℤ)
      (Answer ℕ (Document V) ℤ) Thrown Bool}
    (h : (service (storage providers.setup) providers.code).system.Reachable s) :
    Protocol (storage providers.setup) providers.code s :=
  (accessor_meets providers).correct.protocol h

section Nightly

/-- Firestore with texts on one host and with timestamps on the other. -/
def nightlyProviders : Providers (String ⊕ ℤ × ℤ) where
  accessor p := firestoreStorageAccessor (secondsAndNanos false) (p = 0) "host"
  toMillis := (firestoreStorageAccessor (secondsAndNanos false) true "host").toMillis
  toMillis_eq _ := rfl
  provider _ := 0

def nightly : LockConfiguration ℤ :=
  { name := "nightly", lockAtMostFor := 60000, lockAtLeastFor := 5000, createdAt := 0 }

def emptyCollection : Store ℕ (Document (String ⊕ ℤ × ℤ)) := ⟨fun _ _ => false, fun _ => none⟩

def nightlyDocument : Document (String ⊕ ℤ × ℤ) := ⟨.inr (60, 0), .inr (0, 0), "host"⟩

def nightlyCollection : Store ℕ (Document (String ⊕ ℤ × ℤ)) where
  registry _ _ := false
  records := update (fun _ => none) "nightly" (some ⟨1, nightlyDocument, 0⟩)

/-- A `lock()` call on an empty collection whose document has just been created. -/
theorem document_nightly_protocol : ∃ s, Live s 0 ⟨nightly, .locking true⟩ ∧
    Protocol (storage nightlyProviders.setup) nightlyProviders.code s := by
  have h₀ : (service (storage nightlyProviders.setup) nightlyProviders.code).system.Reachable
      ⟨⟨0, emptyCollection, fun _ => none⟩, fun _ => none⟩ :=
    .initial ⟨⟨fun _ _ => rfl, fun _ => rfl⟩, fun _ => rfl⟩
  have hadmits : Admits 0 nightly := by decide
  have hstarted := reachable_lock 0 nightly h₀ rfl rfl hadmits
  have hunknown := Service.reachable_served hstarted (.quiet .lockRecordRecentlyCreated)
  have hcreate : RecordStore.Serve nightlyProviders.setup 0 0 emptyCollection
      (.transact "nightly" fun first second document =>
        match reading first, reading second with
        | some now, some _ =>
          ⟨((nightlyProviders.accessor 0).insertRecord (whole nightly) now document).write,
            ((nightlyProviders.accessor 0).insertRecord (whole nightly) now document).reply⟩
        | _, _ => ⟨none, .done⟩)
      (.ok (.returned true)) true nightlyCollection :=
    .transacted (le_refl 0) (le_refl 0) (by decide +kernel) nofun
  have hwritten := Service.reachable_served hunknown (.wrote hcreate rfl)
  exact ⟨_, ⟨rfl, rfl, by decide⟩, document_lock_protocol hwritten⟩

end Nightly

end Tslock.Documents
