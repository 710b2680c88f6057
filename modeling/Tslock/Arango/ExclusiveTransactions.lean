import Tslock.Arango.ArangoDbAccessor

/-! Any number of ArangoDB providers on one collection: what a transaction has read stays as it is
while the transaction is open, and what `unlock` and `extend` have read while its revision stays. -/
namespace Tslock.Arango

open Function Foundation LeaseProtocol
open RecordStore (ServiceError Thrown Versioned toIsoString bind_ok parse_toIsoString)

section Storage

/-- What call `i` counts on while others write: a document stays or has a later revision, and none
changes as long as the transaction of the call is open. -/
structure Later (i : ℕ) (s t : Collection) : Prop where
  documents : ∀ key x, s.documents key = some x →
    ∃ y, t.documents key = some y ∧ (y = x ∨ x.version < y.version)
  transaction : ∀ txn, t.transaction = some txn → txn.client = i →
    s.transaction = some txn ∧ t.documents = s.documents

variable {i j : ℕ} {now : ℤ} {s t u : Collection}

theorem Later.refl : Later i s s :=
  ⟨fun _ x hx => ⟨x, hx, .inl rfl⟩, fun _ htxn _ => ⟨htxn, rfl⟩⟩

theorem Later.trans (h : Later i s t) (h' : Later i t u) : Later i s u := by
  constructor
  · intro key x hx
    obtain ⟨y, hy, hxy⟩ := h.documents key x hx
    obtain ⟨z, hz, hyz⟩ := h'.documents key y hy
    refine ⟨z, hz, ?_⟩
    rcases hxy with rfl | hxy
    · exact hyz
    · rcases hyz with rfl | hyz
      · exact .inr hxy
      · exact .inr (by omega)
  · intro txn htxn hclient
    obtain ⟨htxn, hsame⟩ := h'.transaction txn htxn hclient
    obtain ⟨htxn, hsame'⟩ := h.transaction txn htxn hclient
    exact ⟨htxn, hsame.trans hsame'⟩

/-- A change of the open transaction alone. -/
theorem Later.of_documents (hd : t.documents = s.documents)
    (ht : ∀ txn, t.transaction = some txn → txn.client = j → s.transaction = some txn) :
    Later j s t := by
  constructor
  · intro key x hx
    exact ⟨x, by rw [hd, hx], .inl rfl⟩
  · intro txn htxn hclient
    exact ⟨ht txn htxn hclient, hd⟩

theorem later_serve {q : Request} {a : Answer q} {b : Bool} (h : Serve i now s q a b t)
    (hj : j ≠ i) : Later j s t := by
  cases h with
  | now | fails | stepRead | read => exact .refl
  | begun =>
    refine .of_documents rfl ?_
    rintro txn ⟨⟩ hclient
    exact absurd hclient.symm hj
  | stepSaved _ hclient' | stepUpdated _ hclient' =>
    refine .of_documents rfl ?_
    rintro txn ⟨⟩ hclient
    exact absurd (hclient.symm.trans hclient') hj
  | aborted => exact .of_documents rfl nofun
  | @committed txn version _ htxn _ hversion =>
    refine ⟨?_, nofun⟩
    intro key x hx
    cases hw : txn.writes key with
    | none => exact ⟨x, by simp [hw, hx], .inl rfl⟩
    | some document =>
      exact ⟨⟨version key, document, i⟩, by simp [hw], .inr (hversion key x hx)⟩
  | @updated key _ x _ _ _ hnone hx _ hversion =>
    refine ⟨?_, ?_⟩
    · intro k y hy
      rcases eq_or_ne k key with rfl | hne
      · obtain rfl := Option.some.inj (hx.symm.trans hy)
        exact ⟨_, update_self _ _ _, .inr hversion⟩
      · exact ⟨y, (update_of_ne hne _ _).trans hy, .inl rfl⟩
    · intro txn htxn
      cases htxn.symm.trans hnone

end Storage

/-- The providers of one collection, and which call belongs to which host. -/
structure Providers where
  reader : JsDate.Reader
  hostname : ℕ → String

/-- Who has written the document of a name, and the deadline it carries. -/
def Providers.cell (providers : Providers) (s : Collection) (name : String) : Option (ℕ × ℤ) :=
  (s.documents name).bind fun x => (providers.reader.parse x.value.lockUntil).map (x.writer, ·)

def Providers.storage (providers : Providers) : Storage Collection Request Answer ℤ where
  Initial s := s.transaction = none
  -- the server gives up a transaction that is idle for too long
  Internal s t := t = { s with transaction := none }
  Serve := Serve
  cell := providers.cell
  Later := Later
  later_refl _ _ := .refl
  later_trans _ _ _ _ := .trans
  later_internal i s t h := by
    rw [h]
    exact .of_documents rfl nofun
  later_serve _ _ _ _ _ _ _ _ := later_serve
  cell_internal s t h := by
    rw [h]
    rfl
  cell_quiet i now s q a t h := by
    cases h <;> rfl

def Providers.code (providers : Providers) : Code Request Answer Thrown ℤ where
  Admits _ _ := True
  lock i := lock providers.reader (providers.hostname i)
  unlock i := unlock (providers.hostname i)
  extend i config newConfig :=
    extend providers.reader (providers.hostname i) newConfig (some config.lockAtMostUntil)

section Rules

/-- What holds as long as the transaction of a call is open. -/
def During (i : ℕ) (P : Transaction → (String → Option (Versioned ℕ LockDocument)) → Prop)
    (s : Collection) : Prop :=
  ∀ txn, s.transaction = some txn → txn.client = i → P txn s.documents

theorem During.later {i : ℕ} {s t : Collection}
    {P : Transaction → (String → Option (Versioned ℕ LockDocument)) → Prop} (h : During i P s)
    (hst : Later i s t) : During i P t := by
  intro txn htxn hclient
  obtain ⟨hs, hsame⟩ := hst.transaction txn htxn hclient
  rw [hsame]
  exact h txn hs hclient

def Fresh (txn : Transaction) (_ : String → Option (Versioned ℕ LockDocument)) : Prop :=
  ∀ k, txn.writes k = none

/-- Nothing has been written since the document of a key was read. -/
def Read (key : String) (existing : LockDocument) (txn : Transaction)
    (documents : String → Option (Versioned ℕ LockDocument)) : Prop :=
  (∀ k, txn.writes k = none) ∧ (documents key).map Versioned.value = some existing

/-- One document has been written, over what was there. -/
def Written (key : String) (existing : Option LockDocument) (document : LockDocument)
    (txn : Transaction) (documents : String → Option (Versioned ℕ LockDocument)) : Prop :=
  txn.writes = update (fun _ => none) key (some document) ∧
    (documents key).map Versioned.value = existing

abbrev Meets (providers : Providers) {α : Type} (i : ℕ)
    (post : Except Thrown α → State Collection ℤ → Prop) (p : Method α)
    (s : State Collection ℤ) : Prop :=
  (service providers.storage providers.code).Meets (contract providers.storage) i post p s

abbrev Resumes (providers : Providers) (i : ℕ) (a : LockCall (Phase ℤ) ℤ)
    (s t : State Collection ℤ) : Prop :=
  LeaseProtocol.Resumes providers.storage i a s t

variable {providers : Providers} {i : ℕ} {s : State Collection ℤ} {a : LockCall (Phase ℤ) ℤ}

theorem meets_now (hs : s.locks i = some a) :
    Meets providers i (fun r t => Resumes providers i a s t ∧ ∀ n, r = .ok n → n ≤ t.clock) now
      s := by
  change Meets providers i _ (Program.ask Request.now >>= pure) s
  refine meets_request hs ?_ ?_
  · rintro t x store ht ⟨⟩
    refine meets_pure ht.call fun u hu => ⟨ht.trans hu, ?_⟩
    rintro n ⟨⟩
    exact hu.clock
  · rintro t x store ht ⟨⟩

/-- Where a call goes on after some of its commands. -/
structure Goes (i : ℕ) (a : LockCall (Phase ℤ) ℤ) (s t : State Collection ℤ) : Prop where
  call : t.locks i = some a
  clock : s.clock ≤ t.clock

/-- A command that writes no document. -/
theorem meets_call {command : Command}
    {post : Except Thrown (Value command) → State Collection ℤ → Prop} (hs : s.locks i = some a)
    (hquiet : ∀ now t x b u, Serve i now t (.call command) x b u → b = false)
    (h : ∀ (t u : State Collection ℤ) x store, Resumes providers i a s t →
      Serve i t.clock t.store (.call command) x false store → Goes i a s u →
      Later i store u.store → post (x.mapError Thrown.service) u) :
    Meets providers i post (call command) s := by
  refine meets_request hs ?_ ?_
  · intro t x store ht hserve
    refine meets_ofExcept (s := { t with store }) ht.call fun u hu => ?_
    exact h t u x store ht hserve ⟨hu.call, le_trans ht.clock hu.clock⟩ hu.later
  · intro t x store ht hserve
    cases hquiet _ _ _ _ _ hserve

theorem meets_beginTransaction (hs : s.locks i = some a) :
    Meets providers i (fun r t => Goes i a s t ∧ (r = .ok () → During i Fresh t.store))
      (call .beginTransaction) s := by
  refine meets_call hs (by rintro _ _ _ _ _ ⟨⟩ <;> rfl) ?_
  intro t u x store ht hserve hu hlater
  refine ⟨hu, fun hok => During.later ?_ hlater⟩
  cases hserve with
  | fails => cases hok
  | begun =>
    rintro txn ⟨⟩ -
    exact fun _ => rfl

theorem meets_stepDocument {key : String} (hs : s.locks i = some a)
    (hfresh : During i Fresh s.store) :
    Meets providers i (fun r t => Goes i a s t ∧ During i Fresh t.store ∧
      ∀ d, r = .ok d → During i (Read key d) t.store) (call (.stepDocument key)) s := by
  refine meets_call hs (by rintro _ _ _ _ _ ⟨⟩ <;> rfl) ?_
  intro t u x store ht hserve hu hlater
  cases hserve with
  | fails => exact ⟨hu, (hfresh.later ht.later).later hlater, nofun⟩
  | @stepRead txn _ document htxn hclient hseen =>
    have hnone := (hfresh.later ht.later) txn htxn hclient
    refine ⟨hu, (hfresh.later ht.later).later hlater, ?_⟩
    rintro d ⟨⟩
    refine During.later ?_ hlater
    intro txn' htxn' _
    obtain rfl := Option.some.inj (htxn.symm.trans htxn')
    rw [Collection.seen, hnone key, Option.none_or] at hseen
    exact ⟨hnone, hseen⟩

theorem meets_stepSave {key : String} {document : LockDocument} (hs : s.locks i = some a)
    (hfresh : During i Fresh s.store) :
    Meets providers i (fun r t => Goes i a s t ∧
      (r = .ok () → During i (Written key none document) t.store))
      (call (.stepSave key document)) s := by
  refine meets_call hs (by rintro _ _ _ _ _ ⟨⟩ <;> rfl) ?_
  intro t u x store ht hserve hu hlater
  refine ⟨hu, fun hok => During.later ?_ hlater⟩
  cases hserve with
  | fails => cases hok
  | stepSaved htxn hclient hseen =>
    have hnone := (hfresh.later ht.later) _ htxn hclient
    rintro txn' ⟨⟩ -
    rw [Collection.seen, hnone key, Option.none_or] at hseen
    exact ⟨congrArg (update · key _) (funext hnone), hseen⟩

theorem meets_stepUpdate {key : String} {existing document : LockDocument}
    (hs : s.locks i = some a) (hread : During i (Read key existing) s.store) :
    Meets providers i (fun r t => Goes i a s t ∧
      (r = .ok () → During i (Written key (some existing) document) t.store))
      (call (.stepUpdate key fun _ => document)) s := by
  refine meets_call hs (by rintro _ _ _ _ _ ⟨⟩ <;> rfl) ?_
  intro t u x store ht hserve hu hlater
  refine ⟨hu, fun hok => During.later ?_ hlater⟩
  cases hserve with
  | fails => cases hok
  | stepUpdated htxn hclient hseen =>
    obtain ⟨hnone, hvalue⟩ := (hread.later ht.later) _ htxn hclient
    rintro txn' ⟨⟩ -
    exact ⟨congrArg (update · key _) (funext hnone), hvalue⟩

theorem meets_abort (hs : s.locks i = some a) :
    Meets providers i (fun _ t => t.locks i = some a) (call .abort) s :=
  meets_call hs (by rintro _ _ _ _ _ ⟨⟩ <;> rfl) fun _ _ _ _ _ _ hu _ => hu.call

/-- What was read when the transaction was young is what the commit replaces. -/
theorem meets_commit {existing : Option LockDocument} {document : LockDocument} {deadline : ℤ}
    (hs : s.locks i = some a)
    (hwritten : During i (Written a.config.name existing document) s.store)
    (hdeadline : providers.reader.parse document.lockUntil = some deadline)
    (hallowed : ∀ clock old, s.clock ≤ clock →
      (∀ x ∈ old, ∃ d, existing = some d ∧ providers.reader.parse d.lockUntil = some x.2) →
      Allows clock a old deadline) :
    Meets providers i (AfterPut i a) (call .commit) s := by
  refine meets_request hs ?_ ?_
  · intro t x store ht hserve
    cases hserve with
    | fails => exact meets_ofExcept ht.call fun u hu => .inr ⟨hu.call, _, rfl⟩
  · intro t x store ht hserve
    cases hserve with
    | committed htxn hclient hversion =>
      obtain ⟨hwrites, hvalue⟩ := (hwritten.later ht.later) _ htxn hclient
      refine ⟨deadline, hallowed t.clock _ ht.clock ?_, ?_, ?_⟩
      · intro x hx
        obtain ⟨y, hy, hx⟩ := Option.bind_eq_some_iff.mp hx
        obtain ⟨d, hd, rfl⟩ := Option.map_eq_some_iff.mp hx
        exact ⟨y.value, by rw [← hvalue, hy]; rfl, hd⟩
      · funext name
        change Option.bind (Option.or _ _) _ = _
        rw [hwrites]
        rcases eq_or_ne name a.config.name with rfl | hne
        · rw [update_self, update_self]
          change Option.map (i, ·) (providers.reader.parse document.lockUntil) = _
          rw [hdeadline]
          rfl
        · rw [update_of_ne hne, update_of_ne hne]
          rfl
      · exact meets_ofExcept (update_self _ _ _) fun u hu => .inl hu.call

/-- The document was stored under the key at some time. -/
def Seen (i : ℕ) (key : String) (x : Versioned ℕ LockDocument) (s : Collection) : Prop :=
  ∃ s₀ : Collection, s₀.documents key = some x ∧ Later i s₀ s

theorem Seen.later {key : String} {x : Versioned ℕ LockDocument} {s t : Collection}
    (h : Seen i key x s) (hst : Later i s t) : Seen i key x t := by
  obtain ⟨s₀, hx, hs⟩ := h
  exact ⟨s₀, hx, hs.trans hst⟩

/-- A document is still the one that was read where its revision is. -/
theorem Seen.eq_of_version {key : String} {x y : Versioned ℕ LockDocument} {s : Collection}
    (h : Seen i key x s) (hy : s.documents key = some y) (hv : y.version = x.version) : y = x := by
  obtain ⟨s₀, hx, hs⟩ := h
  obtain ⟨z, hz, heq | hlt⟩ := hs.documents key x hx
  · exact (Option.some.inj (hy.symm.trans hz)).trans heq
  · obtain rfl := Option.some.inj (hy.symm.trans hz)
    omega

def AfterDocument (i : ℕ) (a : LockCall (Phase ℤ) ℤ) (key : String) (s : State Collection ℤ)
    (r : Except Thrown (Option (ℕ × LockDocument))) (t : State Collection ℤ) : Prop :=
  Goes i a s t ∧ ∀ p, r = .ok (some p) →
    ∃ x, Seen i key x t.store ∧ p = (x.version, x.value)

theorem meets_storedDocument {key : String}
    (hinv : Tenancy.Exclusive (s.register providers.storage)) (hs : s.locks i = some a) :
    Meets providers i (AfterDocument i a key s) (storedDocument key) s := by
  refine Service.Meets.tryCatch (m := AfterDocument i a key s) coherent hinv ?_
    (fun _ _ h => h) ?_
  · refine Service.Meets.bind (m := fun r t => Goes i a s t ∧ ∀ p, r = .ok p →
      ∃ x, Seen i key x t.store ∧ p = (x.version, x.value)) coherent hinv ?_ ?_
      fun e t ht => ⟨ht.1, nofun⟩
    · refine meets_call hs (by rintro _ _ _ _ _ ⟨⟩ <;> rfl) ?_
      intro t u x store ht hserve hu hlater
      cases hserve with
      | fails => exact ⟨hu, nofun⟩
      | read hx =>
        refine ⟨hu, ?_⟩
        rintro p ⟨⟩
        exact ⟨_, ⟨_, hx, hlater⟩, rfl⟩
    · rintro p t - ⟨ht, hseen⟩
      obtain ⟨x, hx, rfl⟩ := hseen _ rfl
      refine meets_pure ht.call fun u hu => ⟨⟨hu.call, le_trans ht.clock hu.clock⟩, ?_⟩
      rintro _ ⟨⟩
      exact ⟨x, hx.later hu.later, rfl⟩
  · rintro e t - ⟨ht, -⟩
    split
    · exact meets_pure ht.call fun u hu => ⟨⟨hu.call, le_trans ht.clock hu.clock⟩, nofun⟩
    · exact meets_throw ht.call fun u hu => ⟨⟨hu.call, le_trans ht.clock hu.clock⟩, nofun⟩

/-- A write under the revision that was read replaces the document that was read. -/
theorem meets_update {x : Versioned ℕ LockDocument} {patch : LockDocument → LockDocument}
    {deadline : ℤ} (hs : s.locks i = some a) (hx : Seen i a.config.name x s.store)
    (hdeadline : providers.reader.parse (patch x.value).lockUntil = some deadline)
    (hallowed : ∀ clock, Allows clock a
      ((providers.reader.parse x.value.lockUntil).map (x.writer, ·)) deadline) :
    Meets providers i (AfterPut i a) (call (.update a.config.name x.version patch)) s := by
  refine meets_request hs ?_ ?_
  · intro t r store ht hserve
    cases hserve with
    | fails => exact meets_ofExcept ht.call fun u hu => .inr ⟨hu.call, _, rfl⟩
  · intro t r store ht hserve
    cases hserve with
    | @updated _ _ y _ _ _ _ hy hversion hlater =>
      obtain rfl := (hx.later ht.later).eq_of_version hy hversion
      refine ⟨deadline, ?_, ?_, ?_⟩
      · change Allows t.clock a (providers.cell t.store a.config.name) deadline
        rw [Providers.cell, hy, Option.bind_some]
        exact hallowed t.clock
      · funext name
        change Option.bind (update t.store.documents _ _ name) _ = _
        rcases eq_or_ne name a.config.name with rfl | hne
        · rw [update_self, update_self]
          change Option.map (i, ·) (providers.reader.parse (patch y.value).lockUntil) = _
          rw [hdeadline]
          rfl
        · rw [update_of_ne hne, update_of_ne hne]
          rfl
      · exact meets_ofExcept (update_self _ _ _) fun u hu => .inl hu.call

end Rules

section Methods

variable {providers : Providers} {i : ℕ} {s : State Collection ℤ} {config : LockConfiguration ℤ}
  {hostname : String} {now deadline : ℤ} {document : LockDocument}

theorem lockDocument_deadline (h : lockDocument hostname config now = .ok document) :
    providers.reader.parse document.lockUntil = some config.lockAtMostUntil := by
  obtain ⟨lockUntil, hlockUntil, h⟩ := bind_ok h
  obtain ⟨lockedAt, -, h⟩ := bind_ok h
  cases h
  exact parse_toIsoString hlockUntil

theorem isOver_deadline (h : isOver providers.reader document.lockUntil now = true)
    (hd : providers.reader.parse document.lockUntil = some deadline) : deadline ≤ now := by
  rw [isOver, hd] at h
  exact of_decide_eq_true h

/-- What is known of the open transaction after the read of `lock()`. -/
def Known (i : ℕ) (key : String) (s : Collection) : Option LockDocument → Prop
  | none => During i Fresh s
  | some d => During i (Read key d) s

theorem meets_existingDocument {a : LockCall (Phase ℤ) ℤ} {key : String}
    (hinv : Tenancy.Exclusive (s.register providers.storage)) (hs : s.locks i = some a)
    (hfresh : During i Fresh s.store) :
    Meets providers i (fun r t => Goes i a s t ∧ ∀ existing, r = .ok existing →
      Known i key t.store existing) (existingDocument key) s := by
  refine Service.Meets.tryCatch (m := fun r t => (Goes i a s t ∧ During i Fresh t.store) ∧
    ∀ existing, r = .ok existing → Known i key t.store existing) coherent hinv ?_
    (fun _ _ h => ⟨h.1.1, h.2⟩) ?_
  · refine Service.Meets.bind coherent hinv (meets_stepDocument hs hfresh) ?_
      fun e t ht => ⟨⟨ht.1, ht.2.1⟩, nofun⟩
    rintro d t - ⟨hgoes, hfresh, hread⟩
    refine meets_pure hgoes.call fun u hu => ⟨⟨⟨hu.call, le_trans hgoes.clock hu.clock⟩,
      hfresh.later hu.later⟩, ?_⟩
    rintro _ ⟨⟩
    exact (hread d rfl).later hu.later
  · rintro e t ht ⟨⟨hgoes, hfresh⟩, -⟩
    split
    · refine meets_pure hgoes.call fun u hu => ⟨⟨hu.call, le_trans hgoes.clock hu.clock⟩, ?_⟩
      rintro _ ⟨⟩
      exact hfresh.later hu.later
    · refine Service.Meets.bind (m := fun _ u => Goes i a s u) coherent ht ?_ ?_
        fun _ _ h => ⟨h, nofun⟩
      · refine meets_call hgoes.call (by rintro _ _ _ _ _ ⟨⟩ <;> rfl) fun _ u _ _ _ _ hu _ => ?_
        exact ⟨hu.call, le_trans hgoes.clock hu.clock⟩
      · intro _ u _ hu
        exact meets_throw hu.call fun v hv => ⟨⟨hv.call, le_trans hu.clock hv.clock⟩, nofun⟩

/-- Written within the transaction and committed, the lock is granted. -/
theorem meets_committed {existing : Option LockDocument} {step : Method Unit}
    (hinv : Tenancy.Exclusive (s.register providers.storage)) (hnow : now ≤ s.clock)
    (hstep : Meets providers i (fun r t => Goes i ⟨config, .locking false⟩ s t ∧
      (r = .ok () → During i (Written config.name existing document) t.store)) step s)
    (hdocument : lockDocument (providers.hostname i) config now = .ok document)
    (hover : ∀ d deadline, existing = some d →
      providers.reader.parse d.lockUntil = some deadline → deadline ≤ now) :
    Meets providers i (AfterWrite i ⟨config, .locking false⟩)
      (do step; call .commit; return true) s := by
  refine Service.Meets.bind coherent hinv hstep ?_ fun e t h => .inr ⟨h.1.call, nofun⟩
  rintro ⟨⟩ t ht ⟨hgoes, hwritten⟩
  refine Service.Meets.bind coherent ht
    (meets_commit hgoes.call (hwritten rfl) (lockDocument_deadline hdocument) ?_) ?_ ?_
  · rintro clock old hclock hold
    refine ⟨?_, le_refl _⟩
    intro x hx
    obtain ⟨d, hd, hparse⟩ := hold x hx
    exact le_trans (hover d _ hd hparse) (le_trans hnow (le_trans hgoes.clock hclock))
  · rintro ⟨⟩ u - (hu | ⟨-, e, he⟩)
    · exact meets_pure hu fun v hv => .inl hv.call
    · cases he
  · rintro e u (hu | ⟨hcall, -⟩)
    · exact .inl hu
    · exact .inr ⟨hcall, nofun⟩

theorem meets_takeIfFree {existing : Option LockDocument}
    (hinv : Tenancy.Exclusive (s.register providers.storage)) (hnow : now ≤ s.clock)
    (hs : s.locks i = some ⟨config, .locking false⟩)
    (hknown : Known i config.name s.store existing) :
    Meets providers i (AfterWrite i ⟨config, .locking false⟩)
      (takeIfFree providers.reader (providers.hostname i) config now existing) s := by
  cases existing with
  | none =>
    refine meets_ofExcept_bind hs ?_ fun e t ht => .inr ⟨ht.call, nofun⟩
    intro document hdocument
    exact meets_committed hinv hnow (meets_stepSave hs hknown) hdocument nofun
  | some existing =>
    rw [takeIfFree]
    split
    · next hover =>
      refine meets_ofExcept_bind hs ?_ fun e t ht => .inr ⟨ht.call, nofun⟩
      intro document hdocument
      refine meets_committed hinv hnow (meets_stepUpdate hs hknown) hdocument ?_
      rintro _ deadline ⟨⟩ hdeadline
      exact isOver_deadline hover hdeadline
    · refine Service.Meets.bind coherent hinv (meets_abort hs) ?_ fun e t ht => .inr ⟨ht, nofun⟩
      intro _ t _ ht
      exact meets_pure ht fun u hu => .inr ⟨hu.call, nofun⟩

/-- Whatever the transaction came to, a failure is thrown after it was given up. -/
theorem meets_lock (hinv : Tenancy.Exclusive (s.register providers.storage))
    (hs : s.locks i = some ⟨config, .locking false⟩) :
    Meets providers i (Granting i config)
      (lock providers.reader (providers.hostname i) config) s := by
  refine Service.Meets.bind coherent hinv (meets_now hs) ?_ fun e t h => ⟨false, h.1.call, nofun⟩
  rintro now t ht ⟨hresumes, hnow⟩
  refine Service.Meets.bind coherent ht (meets_beginTransaction hresumes.call) ?_
    fun e u h => ⟨false, h.1.call, nofun⟩
  rintro ⟨⟩ u hu ⟨hgoes, hfresh⟩
  refine Service.Meets.tryCatch (m := Granting i config) coherent hu ?_ (fun _ _ h => h) ?_
  · refine Service.Meets.bind coherent hu (meets_existingDocument hu hgoes.call (hfresh rfl)) ?_
      fun e v h => ⟨false, h.1.call, nofun⟩
    rintro existing v hv ⟨hgoes', hknown⟩
    have hclock : now ≤ v.clock :=
      le_trans (hnow now rfl) (le_trans hgoes.clock hgoes'.clock)
    exact (meets_takeIfFree hv hclock hgoes'.call (hknown existing rfl)).mono
      fun _ _ h => h.granting
  · rintro e v hv ⟨granted, hcall, -⟩
    refine Service.Meets.bind (m := fun _ w => w.locks i = some ⟨config, .locking granted⟩) coherent
      hv ?_ ?_ fun _ _ h => ⟨granted, h, nofun⟩
    · refine Service.Meets.tryCatch coherent hv (meets_abort hcall) (fun _ _ h => h) ?_
      intro _ w _ hw
      exact meets_pure hw fun x hx => hx.call
    · intro _ w _ hw
      exact meets_throw hw fun x hx => ⟨granted, hx.call, nofun⟩

theorem meets_unlock (hinv : Tenancy.Exclusive (s.register providers.storage))
    (hs : s.locks i = some ⟨config, .unlocking false⟩) :
    Meets providers i (fun _ => AfterUnlock i ⟨config, .unlocking false⟩)
      (unlock (providers.hostname i) config) s := by
  refine Service.Meets.bind coherent hinv (meets_storedDocument hinv hs) ?_
    fun e t h => .inr h.1.call
  rintro stored t ht ⟨hgoes, hseen⟩
  rcases stored with _ | ⟨rev, existing⟩
  · exact meets_pure hgoes.call fun u hu => .inr hu.call
  obtain ⟨x, hx, heq⟩ := hseen (rev, existing) rfl
  cases heq
  dsimp only
  split
  · exact meets_pure hgoes.call fun u hu => .inr hu.call
  refine meets_ofExcept_bind hgoes.call ?_ fun e u hu => .inr hu.call
  intro expected hexpected
  split
  · exact meets_pure hgoes.call fun u hu => .inr hu.call
  next hcarried =>
  refine meets_ignoring ht ?_
  refine Service.Meets.bind coherent ht (meets_now hgoes.call) ?_
    fun e u h => .inr ⟨h.1.call, e, rfl⟩
  rintro now u hu ⟨hresumes, -⟩
  refine meets_ofExcept_bind hresumes.call ?_ fun e v hv => .inr ⟨hv.call, e, rfl⟩
  intro lockUntil hlockUntil
  refine meets_update hresumes.call (hx.later hresumes.later) (parse_toIsoString hlockUntil)
    fun clock => ⟨rfl, ⟨x.writer, ?_⟩, le_max_right _ _⟩
  rw [not_not.mp hcarried, parse_toIsoString hexpected]
  rfl

theorem meets_extend {most least createdAt : ℤ}
    (hinv : Tenancy.Exclusive (s.register providers.storage))
    (hs : s.locks i = some ⟨config, .extending most least createdAt false⟩) :
    Meets providers i (AfterWrite i ⟨config, .extending most least createdAt false⟩)
      (extend providers.reader (providers.hostname i) (config.successor most least createdAt)
        (some config.lockAtMostUntil)) s := by
  refine Service.Meets.bind coherent hinv (meets_now hs) ?_ fun e t h => .inr ⟨h.1.call, nofun⟩
  rintro now t ht ⟨hresumes, -⟩
  refine Service.Meets.bind coherent ht (meets_storedDocument ht hresumes.call) ?_
    fun e u h => .inr ⟨h.1.call, nofun⟩
  rintro stored u hu ⟨hgoes, hseen⟩
  rcases stored with _ | ⟨rev, existing⟩
  · exact meets_pure hgoes.call fun v hv => .inr ⟨hv.call, nofun⟩
  obtain ⟨x, hx, heq⟩ := hseen (rev, existing) rfl
  cases heq
  dsimp only
  split
  · exact meets_pure hgoes.call fun v hv => .inr ⟨hv.call, nofun⟩
  refine meets_ofExcept_bind hgoes.call ?_ fun e v hv => .inr ⟨hv.call, nofun⟩
  intro expected hexpected
  split
  · exact meets_pure hgoes.call fun v hv => .inr ⟨hv.call, nofun⟩
  next hcarried =>
  split
  · exact meets_pure hgoes.call fun v hv => .inr ⟨hv.call, nofun⟩
  refine meets_succeeds hu ?_
  refine meets_ofExcept_bind hgoes.call ?_ fun e v hv => .inr ⟨hv.call, e, rfl⟩
  intro lockUntil hlockUntil
  refine meets_update hgoes.call hx (parse_toIsoString hlockUntil)
    fun clock => ⟨rfl, ⟨x.writer, ?_⟩, le_refl _⟩
  rw [not_not.mp hcarried, parse_toIsoString hexpected]
  rfl

theorem methods_meet (providers : Providers) : MethodsMeet providers.storage providers.code where
  lock _ _ _ hinv hs _ := meets_lock hinv hs
  unlock _ _ _ hinv hs _ := meets_unlock hinv hs
  extend _ _ _ _ _ _ hinv hs _ _ := meets_extend hinv hs

end Methods

/-- The lock protocol over a collection: one live handle for each name, whose document nobody else
writes; a document changes only when the transaction of a `lock` takes one that is over or `unlock`
or `extend` replaces that of their handle; and an unlocked name stays closed until the minimum hold
is over. -/
theorem arango_lock_protocol {providers : Providers}
    {s : Service.State (State Collection ℤ) Request Answer Thrown Bool}
    (h : (service providers.storage providers.code).system.Reachable s) :
    Protocol providers.storage providers.code s :=
  (methods_meet providers).correct.protocol h

section Nightly

def nightlyProviders : Providers := ⟨JsDate.isoReader, fun _ => "host-a"⟩

def nightly : LockConfiguration ℤ :=
  { name := "nightly", lockAtMostFor := 60000, lockAtLeastFor := 5000, createdAt := 0 }

def nightlyDocument : LockDocument :=
  ⟨"1970-01-01T00:01:00.000Z", "1970-01-01T00:00:00.000Z", "host-a"⟩

/-- A `lock()` call whose transaction has just committed a new document. -/
theorem arango_nightly_protocol : ∃ s, Live s 0 ⟨nightly, .locking true⟩ ∧
    Protocol nightlyProviders.storage nightlyProviders.code s := by
  have h₀ : (service nightlyProviders.storage nightlyProviders.code).system.Reachable
      ⟨⟨0, ⟨fun _ => none, none⟩, fun _ => none⟩, fun _ => none⟩ :=
    .initial ⟨⟨rfl, fun _ => rfl⟩, fun _ => rfl⟩
  have hstarted := reachable_lock 0 nightly h₀ rfl rfl trivial
  have hnow := Service.reachable_served hstarted (.quiet .now)
  have hbegun := Service.reachable_served hnow (.quiet (@Arango.Serve.begun 0 0 _ (.ok ()) rfl))
  have hmissing := Service.reachable_served hbegun
    (.quiet (@Arango.Serve.fails 0 0 _ _ ⟨"ArangoError", some 1202⟩))
  have hsaved := Service.reachable_served hmissing
    (.quiet (@Arango.Serve.stepSaved 0 0 _ _ _ nightlyDocument (.ok ()) rfl rfl rfl))
  have hwritten := Service.reachable_served hsaved
    (.wrote (@Arango.Serve.committed 0 0 _ _ (fun _ => 1) (.ok ()) rfl rfl nofun) rfl)
  exact ⟨_, ⟨rfl, rfl, by decide⟩, arango_lock_protocol hwritten⟩

end Nightly

end Tslock.Arango
