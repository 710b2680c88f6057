import Tslock.Core.LeaseProtocol
import Tslock.Core.StorageAccessor
import Tslock.Foundation.JsDate
import Tslock.Foundation.OptimisticStore
import Tslock.Sql.Provider

/-! `StorageBasedLockProvider` and `StorageLock` over an accessor that reads and writes versioned
records with requests of its own, and the contract of such an accessor. -/
namespace Tslock.RecordStore

open Function Foundation LeaseProtocol
open Sql (LockRecordRegistry)

/-- What the accessors look at in an error of a service: its class, and its code or status. -/
structure ServiceError where
  errorClass : String
  code : Option ℤ
deriving DecidableEq, Repr

/-- What the methods throw: errors of the service, and what the code throws by itself. -/
inductive Thrown where
  | service (error : ServiceError)
  | lockException (message : String)
  | rangeError
deriving DecidableEq, Repr

/-- `Utils.toIsoString` of a whole number of milliseconds. -/
def toIsoString (epochMillis : ℤ) : Except Thrown String :=
  match JsDate.toIsoString epochMillis with
  | some text => .ok text
  | none => .error .rangeError

theorem bind_ok {α β : Type} {x : Except Thrown α} {f : α → Except Thrown β} {b : β}
    (h : x >>= f = .ok b) : ∃ a, x = .ok a ∧ f a = .ok b := by
  cases x with
  | error e => cases h
  | ok a => exact ⟨a, rfl, h⟩

theorem toIsoString_ok {t : ℤ} {text : String} (h : toIsoString t = .ok text) :
    JsDate.toIsoString t = some text := by
  unfold toIsoString at h
  split at h
  · next htext => rw [htext, Except.ok.inj h]
  · cases h

/-- The text of an instant is read as the instant. -/
theorem parse_toIsoString {reader : JsDate.Reader} {t : ℤ} {text : String}
    (h : toIsoString t = .ok text) : reader.parse text = some t :=
  reader.parse_toIsoString t text (toIsoString_ok h)

/-- A stored record. `writer` is the call that wrote it; no client sees it. -/
structure Versioned (V D : Type) where
  version : V
  value : D
  writer : ℕ
deriving DecidableEq, Repr

/-- What a transaction on one record writes, if it writes, and what it returns. -/
structure Transacted (D : Type) where
  write : Option D
  reply : AccessorReply

/-- What a call asks for: the clock, the registry of its provider, a record, or a transaction, which
reads the clock twice. -/
inductive Request (V D τ : Type) where
  | now
  | lockRecordRecentlyCreated (name : String)
  | addRecord (name : String)
  | clearCache (name : String)
  | find (key : String)
  | get (key : String)
  | put (key : String) (condition : Condition V) (change : Option D → D)
  | transact (key : String) (run : τ → τ → Option D → Transacted D)

variable {V D τ : Type}

theorem append_injective (scope : String) : Injective (scope ++ ·) := by
  intro name name' h
  have hlists := congrArg String.toList h
  simp only [String.toList_append, List.append_cancel_left_eq] at hlists
  exact String.toList_injective hlists

abbrev Answer (V D τ : Type) : Request V D τ → Type
  | .now => τ
  | .lockRecordRecentlyCreated _ => Bool
  | .addRecord _ | .clearCache _ => Unit
  | .find _ => Except ServiceError Bool
  | .get _ => Except ServiceError (V × D)
  | .put .. => Except ServiceError Unit
  | .transact .. => Except ServiceError AccessorReply

abbrev Method (V D τ α : Type) := Program (Request V D τ) (Answer V D τ) Thrown α

/-- The registries of the providers and the records, by key. -/
structure Store (V D : Type) where
  registry : ℕ → LockRecordRegistry
  records : String → Option (Versioned V D)

/-- Which provider a call belongs to, which readings its clock gives, under which key a name is
stored, and which deadline a record carries. -/
structure Setup (D τ : Type) where
  Reads : τ → Prop
  provider : ℕ → ℕ
  key : String → String
  key_injective : Injective key
  lockUntil : D → Option τ

/-- A change of a record gives it a later version. A write that is answered without error was
applied under its condition; an error may come before or after the effect. A transaction takes
effect at once, with readings of the clock from before. -/
inductive Serve [LT V] [LE τ] (setup : Setup D τ) (i : ℕ) (now : τ) (s : Store V D) :
    (q : Request V D τ) → Answer V D τ q → Bool → Store V D → Prop where
  | now : setup.Reads now → Serve setup i now s .now now false s
  | lockRecordRecentlyCreated {name : String} :
      Serve setup i now s (.lockRecordRecentlyCreated name)
        ((s.registry (setup.provider i)).lockRecordRecentlyCreated name) false s
  | addRecord {name : String} :
      Serve setup i now s (.addRecord name) () false { s with
        registry := update s.registry (setup.provider i)
          ((s.registry (setup.provider i)).addRecord name) }
  | clearCache {name : String} :
      Serve setup i now s (.clearCache name) () false { s with
        registry := update s.registry (setup.provider i)
          ((s.registry (setup.provider i)).clearCache name) }
  | found {key : String} :
      Serve setup i now s (.find key) (.ok (s.records key).isSome) false s
  | findFails {key : String} {e : ServiceError} : Serve setup i now s (.find key) (.error e) false s
  | got {key : String} {x : Versioned V D} :
      s.records key = some x → Serve setup i now s (.get key) (.ok (x.version, x.value)) false s
  | getFails {key : String} {e : ServiceError} : Serve setup i now s (.get key) (.error e) false s
  | put {key : String} {condition : Condition V} {change : Option D → D} {version : V}
      {reply : Except ServiceError Unit} :
      condition.Holds Versioned.version (s.records key) →
      (∀ x ∈ s.records key, x.version < version) →
      Serve setup i now s (.put key condition change) reply true { s with
        records := update s.records key
          (some ⟨version, change ((s.records key).map Versioned.value), i⟩) }
  | putFails {key : String} {condition : Condition V} {change : Option D → D} {e : ServiceError} :
      Serve setup i now s (.put key condition change) (.error e) false s
  | transacted {key : String} {run : τ → τ → Option D → Transacted D} {first second : τ} {d : D}
      {version : V} {reply : Except ServiceError AccessorReply} :
      first ≤ second → second ≤ now →
      (run first second ((s.records key).map Versioned.value)).write = some d →
      (∀ x ∈ s.records key, x.version < version) →
      Serve setup i now s (.transact key run) reply true { s with
        records := update s.records key (some ⟨version, d, i⟩) }
  | looked {key : String} {run : τ → τ → Option D → Transacted D} {first second : τ} :
      first ≤ second → second ≤ now →
      (run first second ((s.records key).map Versioned.value)).write = none →
      Serve setup i now s (.transact key run)
        (.ok (run first second ((s.records key).map Versioned.value)).reply) false s
  | transactFails {key : String} {run : τ → τ → Option D → Transacted D} {e : ServiceError} :
      Serve setup i now s (.transact key run) (.error e) false s

/-- A record stays, or has a later version. -/
def Later [LT V] (s t : Store V D) : Prop :=
  ∀ key x, s.records key = some x →
    ∃ y, t.records key = some y ∧ (y = x ∨ x.version < y.version)

theorem Later.refl [LT V] (s : Store V D) : Later s s := fun _ x hx => ⟨x, hx, .inl rfl⟩

theorem Later.trans [Preorder V] {s t u : Store V D} (h : Later s t) (h' : Later t u) :
    Later s u := by
  intro key x hx
  obtain ⟨y, hy, hxy⟩ := h key x hx
  obtain ⟨z, hz, hyz⟩ := h' key y hy
  refine ⟨z, hz, ?_⟩
  rcases hxy with rfl | hxy <;> rcases hyz with rfl | hyz
  · exact .inl rfl
  · exact .inr hyz
  · exact .inr hxy
  · exact .inr (lt_trans hxy hyz)

/-- A version that was read tells the record it was read of. -/
theorem Later.eq_of_version [Preorder V] {s t : Store V D} {key : String} {x : Versioned V D}
    (h : Later s t) (hx : s.records key = some x)
    (hc : (Condition.tagged x.version).Holds Versioned.version (t.records key)) :
    t.records key = some x := by
  obtain ⟨y, hy, heq | hlt⟩ := h key x hx
  · rw [hy, heq]
  · obtain ⟨z, hz, hversion⟩ := Option.map_eq_some_iff.mp hc
    obtain rfl := Option.some.inj (hz.symm.trans hy)
    exact absurd hversion hlt.ne'

theorem later_serve [LT V] [LE τ] {setup : Setup D τ} {i : ℕ} {now : τ} {s t : Store V D}
    {q : Request V D τ} {a : Answer V D τ q} {b : Bool} (h : Serve setup i now s q a b t) :
    Later s t := by
  have hwrite : ∀ {key : String} {new : Versioned V D},
      (∀ x ∈ s.records key, x.version < new.version) →
      Later s { s with records := update s.records key (some new) } := by
    intro key new hversion k x hx
    rcases eq_or_ne k key with rfl | hne
    · exact ⟨_, update_self _ _ _, .inr (hversion x hx)⟩
    · exact ⟨x, (update_of_ne hne _ _).trans hx, .inl rfl⟩
  cases h with
  | put _ hversion => exact hwrite hversion
  | transacted _ _ _ hversion => exact hwrite hversion
  | now | lockRecordRecentlyCreated | found | findFails | got | getFails | putFails | looked
  | transactFails => exact .refl s
  | addRecord | clearCache => exact fun _ x hx => ⟨x, hx, .inl rfl⟩

/-- Who has written the record of a name, and the deadline it carries. -/
def cell (setup : Setup D τ) (s : Store V D) (name : String) : Option (ℕ × τ) :=
  (s.records (setup.key name)).bind fun x => (setup.lockUntil x.value).map (x.writer, ·)

theorem cell_of {setup : Setup D τ} {x : Versioned V D} {name : String} {s : Store V D}
    (h : s.records (setup.key name) = some x) :
    cell setup s name = (setup.lockUntil x.value).map (x.writer, ·) := by
  rw [cell, h, Option.bind_some]

/-- A write of the record of a name changes the cell of that name. -/
theorem cell_write {setup : Setup D τ} {s : Store V D} {name : String} {version : V} {d : D} {i : ℕ}
    {deadline : τ} (h : setup.lockUntil d = some deadline) :
    cell setup { s with records := update s.records (setup.key name) (some ⟨version, d, i⟩) } =
      update (cell setup s) name (some (i, deadline)) := by
  funext other
  rcases eq_or_ne other name with rfl | hne
  · rw [update_self]
    exact (cell_of (update_self _ _ _)).trans (congrArg _ h)
  · rw [update_of_ne hne]
    change Option.bind (update s.records _ _ (setup.key other)) _ = _
    rw [update_of_ne (setup.key_injective.ne hne)]
    rfl

def storage [Preorder V] [LE τ] (setup : Setup D τ) :
    Storage (Store V D) (Request V D τ) (Answer V D τ) τ where
  Initial s := ∀ p name, s.registry p name = false
  Internal _ _ := False
  Serve := Serve setup
  cell := cell setup
  Later _ := Later
  later_refl _ := .refl
  later_trans _ _ _ _ := .trans
  later_internal _ _ _ := False.elim
  later_serve _ _ _ _ _ _ _ _ h _ := later_serve h
  cell_internal _ _ := False.elim
  cell_quiet i now s q a t h := by
    cases h <;> rfl

section Requests

/-- What a function without requests returns or throws. -/
def lift {α : Type} (r : Except Thrown α) : Method V D τ α := Program.ofExcept r

/-- The answer of the service, or its error thrown. -/
def reply {α : Type} (r : Except ServiceError α) : Method V D τ α :=
  lift (r.mapError Thrown.service)

def ask (q : Request V D τ) : Method V D τ (Answer V D τ q) := Program.ask q

def now : Method V D τ τ := ask .now

def find (key : String) : Method V D τ Bool := do reply (← ask (.find key))

def get (key : String) : Method V D τ (V × D) := do reply (← ask (.get key))

def put (key : String) (condition : Condition V) (change : Option D → D) : Method V D τ Unit := do
  reply (← ask (.put key condition change))

end Requests

/-- What a transaction returns, or its exception thrown. -/
def transact (key : String) (run : τ → τ → Option D → Transacted D) :
    Method V D τ AccessorReply := do
  reply (← ask (.transact key run))

/-- The methods of an accessor. -/
structure StorageAccessor (V D τ : Type) where
  insertRecord : LockConfiguration τ → Method V D τ Bool
  updateRecord : LockConfiguration τ → Method V D τ Bool
  unlock : LockConfiguration τ → Method V D τ Unit
  extend : LockConfiguration τ → Option τ → Method V D τ Bool

/-- The insert of `lock()`, left out for a name that the registry knows. -/
def StorageAccessor.insertUnlessKnown (accessor : StorageAccessor V D τ)
    (config : LockConfiguration τ) : Method V D τ Bool := do
  let known ← ask (.lockRecordRecentlyCreated config.name)
  if known then return false
  else
    let inserted ← accessor.insertRecord config
    ask (.addRecord config.name)
    return inserted

/-- `StorageBasedLockProvider.lock`; `true` stands for the `StorageLock` it returns. -/
def StorageAccessor.lock (accessor : StorageAccessor V D τ) (config : LockConfiguration τ) :
    Method V D τ Bool := do
  let inserted ← accessor.insertUnlessKnown config
  if inserted then return true
  else tryCatch (accessor.updateRecord config) fun e => do
    ask (.clearCache config.name)
    throw e

/-- The providers of a store and their handles, each call with the accessor of its provider. -/
def providerCode [Add τ] (Admits : τ → LockConfiguration τ → Prop)
    (accessor : ℕ → StorageAccessor V D τ) : Code (Request V D τ) (Answer V D τ) Thrown τ where
  Admits
  lock i config := (accessor i).lock config
  unlock i config := (accessor i).unlock config
  extend i config newConfig := (accessor i).extend newConfig (some config.lockAtMostUntil)

section Contracts

variable [Preorder V] [LinearOrder τ] [Add τ]

/-- What a program meets over the store, in whatever development of the calls. -/
abbrev Meets {α : Type} (setup : Setup D τ)
    (code : Code (Request V D τ) (Answer V D τ) Thrown τ) (i : ℕ)
    (post : Except Thrown α → State (Store V D) τ → Prop) (p : Method V D τ α)
    (s : State (Store V D) τ) : Prop :=
  (service (storage setup) code).Meets (contract (storage setup)) i post p s

abbrev Resumes (setup : Setup D τ) (i : ℕ) (a : LockCall (Phase τ) τ)
    (s t : State (Store V D) τ) : Prop :=
  LeaseProtocol.Resumes (storage setup) i a s t

/-- The record was stored under the key at some time. -/
def Seen (key : String) (x : Versioned V D) (s : Store V D) : Prop :=
  ∃ s₀, s₀.records key = some x ∧ Later s₀ s

theorem Seen.later {key : String} {x : Versioned V D} {s t : Store V D} (h : Seen key x s)
    (hst : Later s t) : Seen key x t := by
  obtain ⟨s₀, hx, hs⟩ := h
  exact ⟨s₀, hx, hs.trans hst⟩

/-- The record of a version that was read is still there where the version is. -/
theorem Seen.eq_of_version {key : String} {x : Versioned V D} {s t : Store V D} (h : Seen key x s)
    (hst : Later s t)
    (hc : (Condition.tagged x.version).Holds Versioned.version (t.records key)) :
    t.records key = some x := by
  obtain ⟨s₀, hx, hs⟩ := h
  exact (hs.trans hst).eq_of_version hx hc

/-- After a read: the call goes on, with a record the key has had. -/
def AfterGet (setup : Setup D τ) (i : ℕ) (a : LockCall (Phase τ) τ) (key : String)
    (s : State (Store V D) τ) (r : Except Thrown (V × D)) (t : State (Store V D) τ) : Prop :=
  Resumes setup i a s t ∧
    ∀ p, r = .ok p → ∃ x, Seen key x t.store ∧ p = (x.version, x.value)

def AfterGetIfPresent (setup : Setup D τ) (i : ℕ) (a : LockCall (Phase τ) τ) (key : String)
    (s : State (Store V D) τ) (r : Except Thrown (Option (V × D))) (t : State (Store V D) τ) :
    Prop :=
  Resumes setup i a s t ∧
    ∀ p, r = .ok (some p) → ∃ x, Seen key x t.store ∧ p = (x.version, x.value)

variable {setup : Setup D τ} {code : Code (Request V D τ) (Answer V D τ) Thrown τ} {i : ℕ}
  {α β : Type} {s : State (Store V D) τ} {a : LockCall (Phase τ) τ} {key : String}
  {post : Except Thrown β → State (Store V D) τ → Prop} {isConflict : Thrown → Bool}
  {write : Method V D τ Unit}

theorem meets_reply {r : Except ServiceError α}
    {post : Except Thrown α → State (Store V D) τ → Prop} (hs : s.locks i = some a)
    (h : ∀ t, Resumes setup i a s t → post (r.mapError Thrown.service) t) :
    Meets setup code i post (reply r) s := meets_ofExcept hs h

theorem meets_now (hs : s.locks i = some a) :
    Meets setup code i
      (fun r t => Resumes setup i a s t ∧ ∀ n, r = .ok n → n ≤ t.clock ∧ setup.Reads n) now s := by
  change Meets setup code i _ (Program.ask Request.now >>= pure) s
  refine meets_request hs ?_ ?_
  · intro t x store ht hserve
    cases hserve with
    | now hreads =>
      refine meets_pure ht.call fun u hu => ⟨ht.trans hu, ?_⟩
      rintro n ⟨⟩
      exact ⟨hu.clock, hreads⟩
  · rintro t x store ht ⟨⟩

theorem meets_find (hs : s.locks i = some a) :
    Meets setup code i (fun _ t => Resumes setup i a s t) (find key) s := by
  refine meets_request hs ?_ ?_
  · intro t x store ht hserve
    cases hserve with
    | found | findFails => exact meets_reply ht.call fun u hu => ht.trans hu
  · rintro t x store ht ⟨⟩

theorem meets_get (hs : s.locks i = some a) :
    Meets setup code i (AfterGet setup i a key s) (get key) s := by
  refine meets_request hs ?_ ?_
  · intro t x store ht hserve
    cases hserve with
    | got hx =>
      refine meets_reply ht.call fun u hu => ⟨ht.trans hu, ?_⟩
      rintro p ⟨⟩
      exact ⟨_, ⟨_, hx, hu.later⟩, rfl⟩
    | getFails => exact meets_reply ht.call fun u hu => ⟨ht.trans hu, nofun⟩
  · rintro t x store ht ⟨⟩

theorem meets_ifPresent {isNotFound : Thrown → Bool} {read : Method V D τ (V × D)}
    (hinv : Tenancy.Exclusive (s.register (storage setup)))
    (h : Meets setup code i (AfterGet setup i a key s) read s) :
    Meets setup code i (AfterGetIfPresent setup i a key s) (Program.ifPresent isNotFound read)
      s := by
  refine Service.Meets.tryCatch (m := AfterGetIfPresent setup i a key s) coherent hinv ?_
    (fun _ _ h => h) ?_
  · refine Service.Meets.bind coherent hinv h ?_ fun e t ht => ⟨ht.1, nofun⟩
    rintro p t - ⟨ht, hseen⟩
    obtain ⟨x, hx, rfl⟩ := hseen _ rfl
    refine meets_pure ht.call fun u hu => ⟨ht.trans hu, ?_⟩
    rintro _ ⟨⟩
    exact ⟨x, hx.later hu.later, rfl⟩
  · rintro e t - ⟨ht, -⟩
    split
    · exact meets_pure ht.call fun u hu => ⟨ht.trans hu, nofun⟩
    · exact meets_throw ht.call fun u hu => ⟨ht.trans hu, nofun⟩

/-- A conditional write of the record of the call's own name. -/
theorem meets_put {condition : Condition V} {change : Option D → D} (hs : s.locks i = some a)
    (hallowed : ∀ t, Resumes setup i a s t →
      condition.Holds Versioned.version (t.store.records (setup.key a.config.name)) →
      ∃ deadline,
        setup.lockUntil
          (change ((t.store.records (setup.key a.config.name)).map Versioned.value)) =
          some deadline ∧
        Allows t.clock a (cell setup t.store a.config.name) deadline) :
    Meets setup code i (AfterPut i a) (put (setup.key a.config.name) condition change) s := by
  refine meets_request hs ?_ ?_
  · intro t x store ht hserve
    cases hserve with
    | putFails => exact meets_reply ht.call fun u hu => .inr ⟨hu.call, _, rfl⟩
  · intro t x store ht hserve
    cases hserve with
    | put hholds hversion =>
      obtain ⟨deadline, hdeadline, hallow⟩ := hallowed t ht hholds
      exact ⟨deadline, hallow, cell_write hdeadline,
        meets_reply (update_self _ _ _) fun u hu => .inl hu.call⟩

theorem meets_put_absent {change : Option D → D} {deadline : τ} (hs : s.locks i = some a)
    (hdeadline : setup.lockUntil (change none) = some deadline)
    (hallowed : ∀ clock, s.clock ≤ clock → Allows clock a none deadline) :
    Meets setup code i (AfterPut i a) (put (setup.key a.config.name) .absent change) s := by
  refine meets_put hs fun t ht hnone => ?_
  have hcell : cell setup t.store a.config.name = none := by
    rw [cell, show t.store.records _ = none from hnone, Option.bind_none]
  rw [hcell, show t.store.records _ = none from hnone]
  exact ⟨deadline, hdeadline, hallowed t.clock ht.clock⟩

/-- A write under the version that was read replaces the record that was read. -/
theorem meets_put_tagged {change : Option D → D} {deadline : τ} {x : Versioned V D} {version : V}
    (hs : s.locks i = some a) (hx : Seen (setup.key a.config.name) x s.store)
    (hversion : version = x.version)
    (hdeadline : setup.lockUntil (change (some x.value)) = some deadline)
    (hallowed : ∀ clock, s.clock ≤ clock →
      Allows clock a ((setup.lockUntil x.value).map (x.writer, ·)) deadline) :
    Meets setup code i (AfterPut i a) (put (setup.key a.config.name) (.tagged version) change)
      s := by
  subst hversion
  refine meets_put hs fun t ht hholds => ?_
  have hrecord := hx.eq_of_version ht.later hholds
  rw [cell_of hrecord, hrecord]
  exact ⟨deadline, hdeadline, hallowed t.clock ht.clock⟩

/-- After a transaction: it has written, or its outcome grants nothing. -/
def AfterTransact (i : ℕ) (a : LockCall (Phase τ) τ) (r : Except Thrown AccessorReply)
    (t : State (Store V D) τ) : Prop :=
  t.locks i = some (written a) ∨
    t.locks i = some a ∧ ∀ outcome, r = .ok outcome → outcome.granted = false

/-- A transaction on the record of the call's own name. -/
theorem meets_transact {run : τ → τ → Option D → Transacted D} (hs : s.locks i = some a)
    (hallowed : ∀ t first second d, Resumes setup i a s t → first ≤ second → second ≤ t.clock →
      (run first second
        ((t.store.records (setup.key a.config.name)).map Versioned.value)).write = some d →
      ∃ deadline, setup.lockUntil d = some deadline ∧
        Allows t.clock a (cell setup t.store a.config.name) deadline)
    (hlooked : ∀ first second record, (run first second record).write = none →
      (run first second record).reply.granted = false) :
    Meets setup code i (AfterTransact i a) (transact (setup.key a.config.name) run) s := by
  refine meets_request hs ?_ ?_
  · intro t x store ht hserve
    cases hserve with
    | looked _ _ hnone =>
      refine meets_reply ht.call fun u hu => .inr ⟨hu.call, ?_⟩
      rintro _ ⟨⟩
      exact hlooked _ _ _ hnone
    | transactFails => exact meets_reply ht.call fun u hu => .inr ⟨hu.call, nofun⟩
  · intro t x store ht hserve
    cases hserve with
    | @transacted _ _ first second d version _ hfirst hsecond hwrite hversion =>
      obtain ⟨deadline, hdeadline, hallow⟩ := hallowed t first second d ht hfirst hsecond hwrite
      exact ⟨deadline, hallow, cell_write hdeadline,
        meets_reply (update_self _ _ _) fun u hu => .inl hu.call⟩

/-- A method that says whether its transaction has granted something. -/
theorem meets_granted {p : Method V D τ AccessorReply}
    (hinv : Tenancy.Exclusive (s.register (storage setup)))
    (h : Meets setup code i (AfterTransact i a) p s) :
    Meets setup code i (AfterWrite i a) (do return (← p).granted) s := by
  refine Service.Meets.bind coherent hinv h ?_ ?_
  · rintro outcome t - (hwritten | ⟨hcall, hgranted⟩)
    · exact meets_pure hwritten fun u hu => .inl hu.call
    · refine meets_pure hcall fun u hu => .inr ⟨hu.call, ?_⟩
      rw [hgranted outcome rfl]
      nofun
  · rintro e t (hwritten | ⟨hcall, -⟩)
    · exact .inl hwritten
    · exact .inr ⟨hcall, nofun⟩

/-- What an accessor has to meet, method by method: each writes at most once, and only what its
operation allows. -/
structure AccessorMeets (setup : Setup D τ) (Admits : τ → LockConfiguration τ → Prop)
    (accessor : ℕ → StorageAccessor V D τ) : Prop where
  insertRecord : ∀ code i config granted s, Tenancy.Exclusive (s.register (storage setup)) →
    s.locks i = some ⟨config, .locking granted⟩ → (∃ now, Admits now config) →
    Meets setup code i (AfterWrite i ⟨config, .locking granted⟩)
      ((accessor i).insertRecord config) s
  updateRecord : ∀ code i config granted s, Tenancy.Exclusive (s.register (storage setup)) →
    s.locks i = some ⟨config, .locking granted⟩ → (∃ now, Admits now config) →
    Meets setup code i (AfterWrite i ⟨config, .locking granted⟩)
      ((accessor i).updateRecord config) s
  unlock : ∀ code i config s, Tenancy.Exclusive (s.register (storage setup)) →
    s.locks i = some ⟨config, .unlocking false⟩ → (∃ now, Admits now config) →
    Meets setup code i (fun _ => AfterUnlock i ⟨config, .unlocking false⟩)
      ((accessor i).unlock config) s
  extend : ∀ code i config most least now s, Tenancy.Exclusive (s.register (storage setup)) →
    s.locks i = some ⟨config, .extending most least now false⟩ →
    (∃ now', Admits now' (config.successor most least now)) →
    Meets setup code i (AfterWrite i ⟨config, .extending most least now false⟩)
      ((accessor i).extend (config.successor most least now) (some config.lockAtMostUntil)) s

variable {Admits : τ → LockConfiguration τ → Prop} {accessor : ℕ → StorageAccessor V D τ}

/-- A request to the registry leaves the call as it was. -/
theorem meets_registry {q : Request V D τ}
    (hquiet : ∀ now t x b u, Serve setup i now t q x b u → b = false) (hs : s.locks i = some a) :
    Meets setup code i (fun _ t => t.locks i = some a) (ask q) s := by
  change Meets setup code i _ (Program.ask q >>= pure) s
  refine meets_request hs ?_ ?_
  · intro t x store ht _
    exact meets_pure (s := { t with store }) ht.call fun u hu => hu.call
  · intro t x store ht hserve
    cases hquiet _ _ _ _ _ hserve

theorem meets_insertUnlessKnown (haccessor : AccessorMeets setup Admits accessor)
    {config : LockConfiguration τ} (hinv : Tenancy.Exclusive (s.register (storage setup)))
    (hs : s.locks i = some ⟨config, .locking false⟩) (ha : ∃ now, Admits now config) :
    Meets setup code i (Granting i config) ((accessor i).insertUnlessKnown config) s := by
  refine Service.Meets.bind coherent hinv (meets_registry (by rintro _ _ _ _ _ ⟨⟩; rfl) hs) ?_
    fun e u hu => ⟨false, hu, nofun⟩
  intro known t ht hcall
  change Bool at known
  cases known with
  | true => exact meets_pure hcall fun u hu => ⟨false, hu.call, nofun⟩
  | false =>
    refine Service.Meets.bind coherent ht
      (haccessor.insertRecord code i config false t ht hcall ha) ?_ fun _ _ h => h.granting
    intro inserted u hu hinserted
    obtain ⟨granted, hcall, hok⟩ := hinserted.granting
    refine Service.Meets.bind coherent hu
      (meets_registry (by rintro _ _ _ _ _ ⟨⟩; rfl) hcall) ?_ fun e v hv => ⟨granted, hv, nofun⟩
    intro _ v _ hv
    refine meets_pure hv fun w hw => ⟨granted, hw.call, fun h => hok ?_⟩
    exact congrArg Except.ok (Except.ok.inj h)

theorem meets_lock (haccessor : AccessorMeets setup Admits accessor) {config : LockConfiguration τ}
    (hinv : Tenancy.Exclusive (s.register (storage setup)))
    (hs : s.locks i = some ⟨config, .locking false⟩) (ha : ∃ now, Admits now config) :
    Meets setup code i (Granting i config) ((accessor i).lock config) s := by
  refine Service.Meets.bind coherent hinv (meets_insertUnlessKnown haccessor hinv hs ha) ?_
    fun _ _ h => h
  rintro inserted u hu ⟨granted, hcall, hok⟩
  cases inserted with
  | true => exact meets_pure hcall fun v hv => ⟨granted, hv.call, fun _ => hok rfl⟩
  | false =>
    refine Service.Meets.tryCatch coherent hu
      (haccessor.updateRecord code i config granted u hu hcall ha) (fun _ _ h => h.granting) ?_
    intro e v hv hupdated
    obtain ⟨granted, hcall, -⟩ := hupdated.granting
    refine Service.Meets.bind coherent hv
      (meets_registry (by rintro _ _ _ _ _ ⟨⟩; rfl) hcall) ?_ fun e w hw => ⟨granted, hw, nofun⟩
    intro _ w _ hw
    exact meets_throw hw fun x hx => ⟨granted, hx.call, nofun⟩

/-- A provider over an accessor that meets its contract is correct. -/
theorem AccessorMeets.correct (haccessor : AccessorMeets setup Admits accessor) :
    Correct (storage setup) (providerCode Admits accessor) :=
  MethodsMeet.correct
    { lock := fun _ _ _ hinv hs ha => meets_lock haccessor hinv hs ⟨_, ha⟩
      unlock := fun i config s hinv hs ha => haccessor.unlock _ i config s hinv hs ⟨_, ha⟩
      extend := fun i config most least now s hinv hs _ ha =>
        haccessor.extend _ i config most least now s hinv hs ⟨_, ha⟩ }

end Contracts

end Tslock.RecordStore
