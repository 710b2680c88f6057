import Tslock.Gcs.GcsStorageAccessor

/-! Any number of GCS providers on one bucket: each write is an operation on the lock record it was
decided on, and the handles are tenants of the records. -/
namespace Tslock.Gcs

open Function Foundation LeaseProtocol RecordStore

/-- The providers of one bucket and prefix, and which call belongs to which. -/
structure Providers where
  reader : JsDate.Reader
  objectPrefix : String
  lockedBy : ℕ → String
  provider : ℕ → ℕ

def Providers.setup (providers : Providers) : Setup Metadata ℤ where
  Reads _ := True
  provider := providers.provider
  key := objectKey providers.objectPrefix
  key_injective := append_injective providers.objectPrefix
  lockUntil metadata := metadata.lockUntil.bind providers.reader.parse

def Providers.accessor (providers : Providers) (i : ℕ) : StorageAccessor Version Metadata ℤ :=
  Gcs.accessor providers.reader providers.objectPrefix
    (providers.lockedBy (providers.provider i))

/-- The calls may be of any configurations. -/
abbrev Providers.code (providers : Providers) :
    Code (Request Version Metadata ℤ) (Answer Version Metadata ℤ) Thrown ℤ :=
  providerCode (fun _ _ => True) providers.accessor

section Metadata

variable {providers : Providers} {hostname : String} {config : LockConfiguration ℤ}
  {metadata changes : Metadata} {t now : ℤ} {text : String}

/-- A record that carries the text of an instant carries the instant. -/
theorem lockUntil_of_text (h : toIsoString t = .ok text) (hm : metadata.lockUntil = some text) :
    providers.setup.lockUntil metadata = some t := by
  change metadata.lockUntil.bind providers.reader.parse = some t
  rw [hm, Option.bind_some, parse_toIsoString h]

theorem lockUntil_of_parse (h : parseLockUntil providers.reader metadata = .ok t) :
    providers.setup.lockUntil metadata = some t := by
  unfold parseLockUntil at h
  change metadata.lockUntil.bind providers.reader.parse = some t
  split at h
  · cases h
  · cases h
  · next hraw =>
    rw [hraw, Option.bind_some]
    split at h
    · cases h
    · next hms => rw [hms, Except.ok.inj h]

theorem lockUntil_buildMetadata (h : buildMetadata hostname config = .ok metadata) :
    providers.setup.lockUntil metadata = some config.lockAtMostUntil := by
  obtain ⟨lockUntil, htext, h⟩ := bind_ok h
  obtain ⟨lockedAt, -, h⟩ := bind_ok h
  cases h
  exact lockUntil_of_text htext rfl

theorem lockUntil_set (h : toIsoString t = .ok text) (hc : changes.lockUntil = some text)
    (old : Option Metadata) : providers.setup.lockUntil (changes.set old) = some t := by
  refine lockUntil_of_text h ?_
  cases old with
  | none => exact hc
  | some old => simp [Metadata.set, hc]

theorem lockUntil_unlockedMetadata {current : Metadata} {old : Option Metadata}
    (h : unlockedMetadata hostname config now current = .ok changes) :
    providers.setup.lockUntil (changes.set old) = some (config.unlockTime now) := by
  obtain ⟨lockUntil, htext, h⟩ := bind_ok h
  obtain ⟨lockedAt, -, h⟩ := bind_ok h
  cases h
  exact lockUntil_set htext rfl old

theorem lockUntil_extendedMetadata {current : Metadata} {old : Option Metadata}
    (h : extendedMetadata config current = .ok changes) :
    providers.setup.lockUntil (changes.set old) = some config.lockAtMostUntil := by
  obtain ⟨lockUntil, htext, h⟩ := bind_ok h
  cases h
  exact lockUntil_set htext rfl old

theorem lockUntil_of_deadlineMatches
    (h : deadlineMatches metadata (some t) = .ok true) :
    providers.setup.lockUntil metadata = some t := by
  obtain ⟨deadline, hdeadline, h⟩ := bind_ok h
  exact lockUntil_of_text hdeadline (of_decide_eq_true (Except.ok.inj h))

end Metadata

section Contract

variable {providers : Providers}
  {code : Code (Request Version Metadata ℤ) (Answer Version Metadata ℤ) Thrown ℤ}
  {i : ℕ} {s : State (Store Version Metadata) ℤ} {config : LockConfiguration ℤ}

theorem meets_insertRecord {granted : Bool}
    (hinv : Tenancy.Exclusive (s.register (storage providers.setup)))
    (hs : s.locks i = some ⟨config, .locking granted⟩) :
    Meets providers.setup code i (AfterWrite i ⟨config, .locking granted⟩)
      ((providers.accessor i).insertRecord config) s := by
  refine Service.Meets.bind coherent hinv (meets_find hs) ?_ fun e u h => .inr ⟨h.call, nofun⟩
  intro isThere u hu hresumes
  cases isThere with
  | true => exact meets_pure hresumes.call fun v hv => .inr ⟨hv.call, nofun⟩
  | false =>
    refine meets_succeeds hu ?_
    refine meets_ofExcept_bind hresumes.call ?_ fun e v hv => .inr ⟨hv.call, e, rfl⟩
    intro metadata hmetadata
    exact meets_put_absent hresumes.call (lockUntil_buildMetadata hmetadata)
      fun _ _ => ⟨nofun, le_refl _⟩

theorem meets_updateRecord {granted : Bool}
    (hinv : Tenancy.Exclusive (s.register (storage providers.setup)))
    (hs : s.locks i = some ⟨config, .locking granted⟩) :
    Meets providers.setup code i (AfterWrite i ⟨config, .locking granted⟩)
      ((providers.accessor i).updateRecord config) s := by
  refine Service.Meets.bind coherent hinv (meets_ifPresent hinv (meets_get hs)) ?_
    fun e u h => .inr ⟨h.1.call, nofun⟩
  rintro current u hu ⟨hresumes, hseen⟩
  rcases current with _ | ⟨version, metadata⟩
  · exact meets_throw hresumes.call fun v hv => .inr ⟨hv.call, nofun⟩
  obtain ⟨x, hx, heq⟩ := hseen (version, metadata) rfl
  cases heq
  refine meets_ofExcept_bind hresumes.call ?_ fun e v hv => .inr ⟨hv.call, nofun⟩
  intro lockUntil hlockUntil
  refine Service.Meets.bind coherent hu (meets_now hresumes.call) ?_
    fun e v h => .inr ⟨h.1.call, nofun⟩
  rintro now v hv ⟨hlater, hnow⟩
  split
  · exact meets_pure hlater.call fun w hw => .inr ⟨hw.call, nofun⟩
  · next hexpired =>
    refine meets_succeeds hv ?_
    refine meets_ofExcept_bind hlater.call ?_ fun e w hw => .inr ⟨hw.call, e, rfl⟩
    intro metadata hmetadata
    refine meets_put_tagged hlater.call (hx.later hlater.later) rfl
      (lockUntil_buildMetadata hmetadata) fun clock hclock => ⟨?_, le_refl _⟩
    rw [lockUntil_of_parse hlockUntil]
    rintro _ ⟨⟩
    exact le_trans (not_lt.mp hexpired) (le_trans (hnow now rfl).1 hclock)

theorem meets_unlock (hinv : Tenancy.Exclusive (s.register (storage providers.setup)))
    (hs : s.locks i = some ⟨config, .unlocking false⟩) :
    Meets providers.setup code i (fun _ => AfterUnlock i ⟨config, .unlocking false⟩)
      ((providers.accessor i).unlock config) s := by
  refine Service.Meets.bind coherent hinv (meets_ifPresent hinv (meets_get hs)) ?_
    fun e u h => .inr h.1.call
  rintro current u hu ⟨hresumes, hseen⟩
  rcases current with _ | ⟨version, metadata⟩
  · exact meets_pure hresumes.call fun v hv => .inr hv.call
  obtain ⟨x, hx, heq⟩ := hseen (version, metadata) rfl
  cases heq
  dsimp only
  split
  · exact meets_pure hresumes.call fun v hv => .inr hv.call
  refine meets_ofExcept_bind hresumes.call ?_ fun e v hv => .inr hv.call
  intro deadline hdeadline
  split
  · exact meets_pure hresumes.call fun v hv => .inr hv.call
  · next hcarried =>
    refine meets_ignoring hu ?_
    refine Service.Meets.bind coherent hu (meets_now hresumes.call) ?_
      fun e v h => .inr ⟨h.1.call, e, rfl⟩
    rintro now v hv ⟨hlater, -⟩
    refine meets_ofExcept_bind hlater.call ?_ fun e w hw => .inr ⟨hw.call, e, rfl⟩
    intro changes hchanges
    refine meets_put_tagged hlater.call (hx.later hlater.later) rfl
      (lockUntil_unlockedMetadata hchanges) fun clock _ => ⟨rfl, ?_, le_max_right _ _⟩
    rw [lockUntil_of_text hdeadline (not_not.mp hcarried)]
    exact ⟨x.writer, rfl⟩

theorem meets_extend {most least createdAt : ℤ}
    (hinv : Tenancy.Exclusive (s.register (storage providers.setup)))
    (hs : s.locks i = some ⟨config, .extending most least createdAt false⟩) :
    Meets providers.setup code i (AfterWrite i ⟨config, .extending most least createdAt false⟩)
      ((providers.accessor i).extend (config.successor most least createdAt)
        (some config.lockAtMostUntil)) s := by
  refine Service.Meets.bind coherent hinv (meets_ifPresent hinv (meets_get hs)) ?_
    fun e u h => .inr ⟨h.1.call, nofun⟩
  rintro current u hu ⟨hresumes, hseen⟩
  rcases current with _ | ⟨version, metadata⟩
  · exact meets_pure hresumes.call fun v hv => .inr ⟨hv.call, nofun⟩
  obtain ⟨x, hx, heq⟩ := hseen (version, metadata) rfl
  cases heq
  refine meets_ofExcept_bind hresumes.call ?_ fun e v hv => .inr ⟨hv.call, nofun⟩
  intro lockUntil hlockUntil
  split
  · exact meets_pure hresumes.call fun v hv => .inr ⟨hv.call, nofun⟩
  refine Service.Meets.bind coherent hu (meets_now hresumes.call) ?_
    fun e v h => .inr ⟨h.1.call, nofun⟩
  rintro now v hv ⟨hlater, -⟩
  split
  · exact meets_pure hlater.call fun w hw => .inr ⟨hw.call, nofun⟩
  refine meets_ofExcept_bind hlater.call ?_ fun e w hw => .inr ⟨hw.call, nofun⟩
  intro isMatch hmatch
  cases isMatch with
  | false => exact meets_pure hlater.call fun w hw => .inr ⟨hw.call, nofun⟩
  | true =>
    refine meets_succeeds hv ?_
    refine meets_ofExcept_bind hlater.call ?_ fun e w hw => .inr ⟨hw.call, e, rfl⟩
    intro changes hchanges
    refine meets_put_tagged hlater.call (hx.later hlater.later) rfl
      (lockUntil_extendedMetadata hchanges) fun clock _ => ⟨rfl, ?_, le_refl _⟩
    rw [lockUntil_of_deadlineMatches hmatch]
    exact ⟨x.writer, rfl⟩

theorem accessor_meets (providers : Providers) :
    AccessorMeets providers.setup (fun _ _ => True) providers.accessor where
  insertRecord _ _ _ _ _ hinv hs _ := meets_insertRecord hinv hs
  updateRecord _ _ _ _ _ hinv hs _ := meets_updateRecord hinv hs
  unlock _ _ _ _ hinv hs _ := meets_unlock hinv hs
  extend _ _ _ _ _ _ _ hinv hs _ := meets_extend hinv hs

end Contract

/-- Any number of calls of GCS providers and their handles, on a bucket with any objects. -/
abbrev calls (providers : Providers) :=
  service (storage providers.setup) providers.code

/-- The lock protocol over a bucket: one live handle for each name, whose record nobody else writes;
a record changes only when `lock` takes a free one or `unlock` or `extend` replaces one with the
deadline of their handle; and an unlocked name stays closed until the minimum hold is over. -/
theorem gcs_lock_protocol {providers : Providers}
    {s : Service.State (State (Store Version Metadata) ℤ) (Request Version Metadata ℤ)
      (Answer Version Metadata ℤ) Thrown Bool} (h : (calls providers).system.Reachable s) :
    Protocol (storage providers.setup) providers.code s :=
  (accessor_meets providers).correct.protocol h

section Nightly

/-- A host for each call. -/
def nightlyProviders : Providers where
  reader := JsDate.isoReader
  objectPrefix := "locks/"
  lockedBy p := if p = 0 then "host-a" else "host-b"
  provider i := i

def nightly : LockConfiguration ℤ :=
  { name := "nightly", lockAtMostFor := 60000, lockAtLeastFor := 5000, createdAt := 0 }

def nightlyMetadata : Metadata where
  lockUntil := "1970-01-01T00:01:00.000Z"
  lockedAt := "1970-01-01T00:00:00.000Z"
  lockedBy := "host-b"
  lockName := "nightly"

def emptyBucket : Store Version Metadata := ⟨fun _ _ => false, fun _ => none⟩

def nightlyBucket : Store Version Metadata where
  registry _ _ := false
  records := update (fun _ => none) "locks/nightly" (some ⟨toLex (1, 1), nightlyMetadata, 1⟩)

def preconditionFailed : ServiceError := ⟨"ApiError", some 412⟩

/-- Two `lock()` calls on an empty bucket: both have found no object, and the second one has written
it; the first one, which is about to, has its precondition refused. -/
theorem gcs_nightly_protocol : ∃ s, Live s 1 ⟨nightly, .locking true⟩ ∧
    s.shared.locks 0 = some ⟨nightly, .locking false⟩ ∧ (s.running 0).isSome = true ∧
    Protocol (storage nightlyProviders.setup) nightlyProviders.code s := by
  have h₀ : (calls nightlyProviders).system.Reachable
      ⟨⟨0, emptyBucket, fun _ => none⟩, fun _ => none⟩ :=
    .initial ⟨⟨fun _ _ => rfl, fun _ => rfl⟩, fun _ => rfl⟩
  have hstarted := reachable_lock 0 nightly h₀ rfl rfl trivial
  have hunknown := Service.reachable_served hstarted (.quiet .lockRecordRecentlyCreated)
  have hmissing := Service.reachable_served hunknown (.quiet .found)
  have hsecond := reachable_lock 1 nightly hmissing rfl rfl trivial
  have hunknown' := Service.reachable_served hsecond (.quiet .lockRecordRecentlyCreated)
  have hmissing' := Service.reachable_served hunknown' (.quiet .found)
  have hput : RecordStore.Serve nightlyProviders.setup 1 0 emptyBucket
      (.put "locks/nightly" .absent fun _ => nightlyMetadata) (.ok ()) true nightlyBucket :=
    .put rfl nofun
  have hwritten := Service.reachable_served hmissing' (.wrote hput rfl)
  have hfailed := hwritten.step
    (.served (i := 0) rfl (.quiet (.putFails (e := preconditionFailed))))
  exact ⟨_, ⟨rfl, rfl, by decide⟩, rfl, rfl, gcs_lock_protocol hfailed⟩

end Nightly

end Tslock.Gcs
