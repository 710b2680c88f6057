import Tslock.Couchbase.CouchbaseStorageAccessor

/-! The documents of Couchbase providers on one collection are leased: whatever the CAS values are
and whatever else the documents hold. -/
namespace Tslock.Couchbase

open Function Foundation LeaseProtocol RecordStore

/-- The providers of one collection. Their options differ in the host only. -/
structure Providers where
  toNumber : String → Option ℚ
  options : ResolvedOptions
  lockedBy : ℕ → String
  provider : ℕ → ℕ

def Providers.resolved (providers : Providers) (i : ℕ) : ResolvedOptions :=
  { providers.options with lockedByValue := providers.lockedBy (providers.provider i) }

/-- The deadline of a document, where it is a number. -/
def lockUntil (opts : ResolvedOptions) (document : Document) : Option ℚ :=
  match document opts.lockUntilCol with
  | some (.number n) => some n
  | _ => none

def Providers.setup (providers : Providers) : Setup Document ℚ where
  Reads _ := True
  provider := providers.provider
  key name := providers.options.documentIdPrefix ++ name
  key_injective := append_injective providers.options.documentIdPrefix
  lockUntil := lockUntil providers.options

def Providers.accessor (providers : Providers) (i : ℕ) : StorageAccessor ℕ Document ℚ :=
  Couchbase.accessor providers.toNumber (providers.resolved i)

/-- The calls may be of any configurations. -/
abbrev Providers.code (providers : Providers) :
    Code (Request ℕ Document ℚ) (Answer ℕ Document ℚ) Thrown ℚ :=
  providerCode (fun _ _ => True) providers.accessor

section Documents

variable {opts : ResolvedOptions} {config : LockConfiguration ℚ} {document : Document}
  {deadline now : ℚ} {name id : String}

theorem docId_ok (h : docId opts name = .ok id) : id = opts.documentIdPrefix ++ name := by
  unfold docId buildDocumentId at h
  dsimp only at h
  split at h
  · cases h
  · exact (Except.ok.inj h).symm

theorem lockUntil_eq_some :
    lockUntil opts document = some deadline ↔
      document opts.lockUntilCol = some (.number deadline) := by
  unfold lockUntil
  split <;> simp_all

theorem lockUntil_lockDocument :
    lockUntil opts (lockDocument opts config now) = some config.lockAtMostUntil := by
  rw [lockUntil_eq_some]
  unfold lockDocument
  rw [update_of_ne opts.lockedBy_ne.symm, update_of_ne opts.lockedAt_ne.symm, update_self]

theorem lockUntil_withLockUntil :
    lockUntil opts (withLockUntil opts document deadline) = some deadline :=
  lockUntil_eq_some.mpr (update_self _ _ _)

/-- A deadline that does not exceed the clock is over. -/
theorem lockUntil_le_of_not_exceeds {toNumber : String → Option ℚ}
    (h : ¬ exceeds toNumber (document opts.lockUntilCol) now = true)
    (hd : lockUntil opts document = some deadline) : deadline ≤ now := by
  rw [lockUntil_eq_some.mp hd] at h
  simpa [exceeds] using h

end Documents

section Contract

variable {providers : Providers} {code : Code (Request ℕ Document ℚ) (Answer ℕ Document ℚ) Thrown ℚ}
  {i : ℕ} {s : State (Store ℕ Document) ℚ} {config : LockConfiguration ℚ}
  {a : LockCall (Phase ℚ) ℚ}

theorem meets_insertRecord {granted : Bool}
    (hinv : Tenancy.Exclusive (s.register (storage providers.setup)))
    (hs : s.locks i = some ⟨config, .locking granted⟩) :
    Meets providers.setup code i (AfterWrite i ⟨config, .locking granted⟩)
      ((providers.accessor i).insertRecord config) s := by
  refine meets_succeeds hinv ?_
  refine meets_ofExcept_bind hs ?_ fun e t ht => .inr ⟨ht.call, e, rfl⟩
  intro id hid
  obtain rfl := docId_ok hid
  refine Service.Meets.bind coherent hinv (meets_now hs) ?_ fun e t h => .inr ⟨h.1.call, e, rfl⟩
  rintro now t ht ⟨hresumes, -⟩
  exact meets_put_absent hresumes.call lockUntil_lockDocument fun _ _ => ⟨nofun, le_refl _⟩

theorem meets_updateRecord {granted : Bool}
    (hinv : Tenancy.Exclusive (s.register (storage providers.setup)))
    (hs : s.locks i = some ⟨config, .locking granted⟩) :
    Meets providers.setup code i (AfterWrite i ⟨config, .locking granted⟩)
      ((providers.accessor i).updateRecord config) s := by
  refine meets_ofExcept_bind hs ?_ fun e t ht => .inr ⟨ht.call, nofun⟩
  intro id hid
  obtain rfl := docId_ok hid
  refine Service.Meets.bind coherent hinv (meets_get hs) ?_ fun e t h => .inr ⟨h.1.call, nofun⟩
  rintro ⟨cas, existing⟩ t ht ⟨hresumes, hseen⟩
  obtain ⟨x, hx, heq⟩ := hseen _ rfl
  cases heq
  refine Service.Meets.bind coherent ht (meets_now hresumes.call) ?_
    fun e u h => .inr ⟨h.1.call, nofun⟩
  rintro current u hu ⟨hlater, hcurrent⟩
  split
  · exact meets_pure hlater.call fun v hv => .inr ⟨hv.call, nofun⟩
  · next hexceeds =>
    refine meets_succeeds hu ?_
    refine Service.Meets.bind coherent hu (meets_now hlater.call) ?_
      fun e v h => .inr ⟨h.1.call, e, rfl⟩
    rintro now v hv ⟨hlast, -⟩
    refine meets_put_tagged hlast.call (hx.later (hlater.trans hlast).later) rfl
      lockUntil_lockDocument fun clock hclock => ⟨?_, le_refl _⟩
    intro y hy
    obtain ⟨deadline, hdeadline, rfl⟩ := Option.map_eq_some_iff.mp hy
    exact le_trans (lockUntil_le_of_not_exceeds hexceeds hdeadline)
      (le_trans (hcurrent current rfl).1 (le_trans hlast.clock hclock))

theorem meets_getIfPresent (hinv : Tenancy.Exclusive (s.register (storage providers.setup)))
    (hs : s.locks i = some a) :
    Meets providers.setup code i
      (AfterGetIfPresent providers.setup i a (providers.setup.key config.name) s)
      (getIfPresent (providers.resolved i) config.name) s := by
  refine meets_ifPresent hinv (meets_ofExcept_bind hs ?_ fun e t ht => ⟨ht, nofun⟩)
  intro id hid
  obtain rfl := docId_ok hid
  exact meets_get hs

theorem meets_unlock (hinv : Tenancy.Exclusive (s.register (storage providers.setup)))
    (hs : s.locks i = some ⟨config, .unlocking false⟩) :
    Meets providers.setup code i (fun _ => AfterUnlock i ⟨config, .unlocking false⟩)
      ((providers.accessor i).unlock config) s := by
  refine Service.Meets.bind coherent hinv (meets_getIfPresent hinv hs) ?_
    fun e t h => .inr h.1.call
  rintro found t ht ⟨hresumes, hseen⟩
  rcases found with _ | ⟨cas, existing⟩
  · exact meets_pure hresumes.call fun u hu => .inr hu.call
  obtain ⟨x, hx, heq⟩ := hseen (cas, existing) rfl
  cases heq
  dsimp only
  split
  · exact meets_pure hresumes.call fun u hu => .inr hu.call
  split
  · exact meets_pure hresumes.call fun u hu => .inr hu.call
  · next hcarried =>
    have hdeadline := lockUntil_eq_some.mpr (not_not.mp hcarried)
    refine meets_ignoring ht ?_
    refine meets_ofExcept_bind hresumes.call ?_ fun e u hu => .inr ⟨hu.call, e, rfl⟩
    intro id hid
    obtain rfl := docId_ok hid
    refine Service.Meets.bind coherent ht (meets_now hresumes.call) ?_
      fun e u h => .inr ⟨h.1.call, e, rfl⟩
    rintro now u hu ⟨hlater, -⟩
    refine meets_put_tagged hlater.call (hx.later hlater.later) rfl lockUntil_withLockUntil
      fun clock _ => ⟨rfl, ⟨x.writer, ?_⟩, le_max_right _ _⟩
    exact congrArg _ hdeadline

theorem meets_extend {most least createdAt : ℚ}
    (hinv : Tenancy.Exclusive (s.register (storage providers.setup)))
    (hs : s.locks i = some ⟨config, .extending most least createdAt false⟩) :
    Meets providers.setup code i (AfterWrite i ⟨config, .extending most least createdAt false⟩)
      ((providers.accessor i).extend (config.successor most least createdAt)
        (some config.lockAtMostUntil)) s := by
  refine Service.Meets.bind coherent hinv (meets_getIfPresent hinv hs) ?_
    fun e t h => .inr ⟨h.1.call, nofun⟩
  rintro found t ht ⟨hresumes, hseen⟩
  rcases found with _ | ⟨cas, existing⟩
  · exact meets_pure hresumes.call fun u hu => .inr ⟨hu.call, nofun⟩
  obtain ⟨x, hx, heq⟩ := hseen (cas, existing) rfl
  cases heq
  dsimp only
  split
  · exact meets_pure hresumes.call fun u hu => .inr ⟨hu.call, nofun⟩
  split
  · exact meets_pure hresumes.call fun u hu => .inr ⟨hu.call, nofun⟩
  next hcarried =>
  have hdeadline := lockUntil_eq_some.mpr (not_not.mp hcarried)
  refine Service.Meets.bind coherent ht (meets_now hresumes.call) ?_
    fun e u h => .inr ⟨h.1.call, nofun⟩
  rintro now u hu ⟨hlater, -⟩
  split
  · exact meets_pure hlater.call fun v hv => .inr ⟨hv.call, nofun⟩
  · refine meets_succeeds hu ?_
    refine meets_ofExcept_bind hlater.call ?_ fun e v hv => .inr ⟨hv.call, e, rfl⟩
    intro id hid
    obtain rfl := docId_ok hid
    refine meets_put_tagged hlater.call (hx.later hlater.later) rfl lockUntil_withLockUntil
      fun clock _ => ⟨rfl, ⟨x.writer, ?_⟩, le_refl _⟩
    exact congrArg _ hdeadline

theorem accessor_meets (providers : Providers) :
    AccessorMeets providers.setup (fun _ _ => True) providers.accessor where
  insertRecord _ _ _ _ _ hinv hs _ := meets_insertRecord hinv hs
  updateRecord _ _ _ _ _ hinv hs _ := meets_updateRecord hinv hs
  unlock _ _ _ _ hinv hs _ := meets_unlock hinv hs
  extend _ _ _ _ _ _ _ hinv hs _ := meets_extend hinv hs

end Contract

/-- Any number of calls of Couchbase providers and their handles, on a collection that may hold any
documents. -/
abbrev calls (providers : Providers) :=
  service (storage providers.setup) providers.code

/-- The lock protocol over a collection: one live handle for each name, whose document nobody else
writes; a document with a deadline changes only when `lock` takes one that is over or `unlock` or
`extend` replaces that of their handle; and an unlocked name stays closed until the minimum hold is
over. -/
theorem couchbase_lock_protocol {providers : Providers}
    {s : Service.State (State (Store ℕ Document) ℚ) (Request ℕ Document ℚ) (Answer ℕ Document ℚ)
      Thrown Bool}
    (h : (calls providers).system.Reachable s) :
    Protocol (storage providers.setup) providers.code s :=
  (accessor_meets providers).correct.protocol h

section Nightly

def nightlyProviders : Providers where
  toNumber _ := none
  options :=
    { documentIdPrefix := "locks/", nameCol := "name", lockUntilCol := "lockUntil"
      lockedAtCol := "lockedAt", lockedByCol := "lockedBy", lockedByValue := "host-a"
      lockedAt_ne := by decide, lockedBy_ne := by decide }
  lockedBy _ := "host-a"
  provider _ := 0

def nightly : LockConfiguration ℚ :=
  { name := "nightly", lockAtMostFor := 60000, lockAtLeastFor := 5000, createdAt := 0 }

def emptyCollection : Store ℕ Document := ⟨fun _ _ => false, fun _ => none⟩

def nightlyCollection : Store ℕ Document where
  registry _ _ := false
  records := update (fun _ => none) "locks/nightly"
    (some ⟨1, lockDocument (nightlyProviders.resolved 0) nightly 0, 0⟩)

/-- A `lock()` call on an empty collection whose document has just been inserted. -/
theorem couchbase_nightly_protocol : ∃ s, Live s 0 ⟨nightly, .locking true⟩ ∧
    Protocol (storage nightlyProviders.setup) nightlyProviders.code s := by
  have h₀ : (calls nightlyProviders).system.Reachable
      ⟨⟨0, emptyCollection, fun _ => none⟩, fun _ => none⟩ :=
    .initial ⟨⟨fun _ _ => rfl, fun _ => rfl⟩, fun _ => rfl⟩
  have hstarted := reachable_lock 0 nightly h₀ rfl rfl trivial
  have hunknown := Service.reachable_served hstarted (.quiet .lockRecordRecentlyCreated)
  have hnow := Service.reachable_served hunknown (.quiet (.now trivial))
  have hput : RecordStore.Serve nightlyProviders.setup 0 0 emptyCollection
      (.put "locks/nightly" .absent fun _ => lockDocument (nightlyProviders.resolved 0) nightly 0)
      (.ok ()) true nightlyCollection := .put rfl nofun
  have hwritten := Service.reachable_served hnow (.wrote hput rfl)
  have hunexpired : (0 : ℚ) < 0 + 60000 := by
    rw [zero_add]
    exact Rat.num_pos.mp (by decide)
  exact ⟨_, ⟨rfl, rfl, hunexpired⟩, couchbase_lock_protocol hwritten⟩

end Nightly

end Tslock.Couchbase
