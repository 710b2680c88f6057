import Tslock.Core.LockTable
import Tslock.Foundation.Programs

/-! Lock providers as programs over one store of lock records: the calls of `lock`, `unlock` and
`extend`, what the store does with a write of each, and the contract under which the handles are
tenants of the records. -/
namespace Tslock.LeaseProtocol

open Function Foundation

/-- Where a `lock()` call or its handle stands. `granted`, `released` and `renewed` say that the
store has applied the write of the operation under way, which its caller need not know. -/
inductive Phase (τ : Type) where
  | locking (granted : Bool)
  | held
  | unlocking (released : Bool)
  | extending (lockAtMostFor lockAtLeastFor createdAt : τ) (renewed : Bool)
  | ended
deriving DecidableEq, Repr

variable {τ : Type}

/-- There is a handle, or `lock()` is about to return one, and no unlock of it was applied. -/
def Phase.Outstanding : Phase τ → Prop
  | .locking granted => granted = true
  | .unlocking released => released = false
  | .held | .extending .. => True
  | .ended => False

instance : DecidablePred (@Phase.Outstanding τ) := fun phase =>
  match phase with
  | .locking granted => inferInstanceAs (Decidable (granted = true))
  | .unlocking released => inferInstanceAs (Decidable (released = false))
  | .held | .extending .. => .isTrue trivial
  | .ended => .isFalse not_false

/-- The entry of a call whose write the store has just applied. -/
def written (a : LockCall (Phase τ) τ) : LockCall (Phase τ) τ :=
  match a.phase with
  | .locking _ => { a with phase := .locking true }
  | .unlocking _ => { a with phase := .unlocking true }
  | .extending most least now _ =>
    { config := a.config.successor most least now, phase := .extending most least now true }
  | .held | .ended => a

/-- The entry of a call that has settled. `extend()` yields a handle with the new configuration. An
`unlock()` or `extend()` that fails leaves the old handle as it is. Where it had its effect all the
same, the handle is at its end. -/
def settled {ε : Type} (a : LockCall (Phase τ) τ) (r : Except ε Bool) : LockCall (Phase τ) τ :=
  match a.phase, r with
  | .locking _, .ok true => { a with phase := .held }
  | .locking _, _ => { a with phase := .ended }
  | .unlocking _, .ok _ => { a with phase := .ended }
  | .unlocking released, .error _ => { a with phase := if released then .ended else .held }
  | .extending most least now _, .ok true =>
    { config := a.config.successor most least now, phase := .held }
  | .extending _ _ _ renewed, _ => { a with phase := if renewed then .ended else .held }
  | .held, _ | .ended, _ => a

/-- How a store answers the requests of call `i` at a time of the clock, and whether it wrote a lock
record. `Internal` is what it does by itself, `cell` who has written the record of a name last and
its deadline, and `Later` what a call may count on while others write. -/
structure Storage (σ Q : Type) (A : Q → Type) (τ : Type) where
  Initial : σ → Prop
  Internal : σ → σ → Prop
  Serve : ℕ → τ → σ → (q : Q) → A q → Bool → σ → Prop
  cell : σ → String → Option (ℕ × τ)
  Later : ℕ → σ → σ → Prop
  later_refl : ∀ i s, Later i s s
  later_trans : ∀ i s t u, Later i s t → Later i t u → Later i s u
  later_internal : ∀ i s t, Internal s t → Later i s t
  later_serve : ∀ i j now s q a b t, Serve i now s q a b t → j ≠ i → Later j s t
  cell_internal : ∀ s t, Internal s t → cell t = cell s
  cell_quiet : ∀ i now s q a t, Serve i now s q a false t → cell t = cell s

/-- The methods of the provider and of the handle that call `i` is one of, and which configurations
they are called with at a time of the clock. -/
structure Code (Q : Type) (A : Q → Type) (ε τ : Type) where
  Admits : τ → LockConfiguration τ → Prop
  lock : ℕ → LockConfiguration τ → Program Q A ε Bool
  unlock : ℕ → LockConfiguration τ → Program Q A ε Unit
  extend : ℕ → LockConfiguration τ → LockConfiguration τ → Program Q A ε Bool

structure State (σ τ : Type) where
  clock : τ
  store : σ
  locks : LockTable (Phase τ) τ

variable {σ Q ε : Type} {A : Q → Type}

def State.set (s : State σ τ) (i : ℕ) (a : LockCall (Phase τ) τ) : State σ τ :=
  { s with locks := update s.locks i (some a) }

/-- Calls of `unlock` and `extend` on one handle do not overlap, and one that failed after its
effect is the last: its handle has the old deadline, which may meanwhile stand in a record of
somebody else. -/
inductive Start (code : Code Q A ε τ) : ℕ → State σ τ → Program Q A ε Bool → State σ τ → Prop where
  | lock {s : State σ τ} {i : ℕ} {config : LockConfiguration τ} :
      s.locks i = none → code.Admits s.clock config →
      Start code i s (code.lock i config) (s.set i ⟨config, .locking false⟩)
  | unlock {s : State σ τ} {i : ℕ} {config : LockConfiguration τ} :
      s.locks i = some ⟨config, .held⟩ → code.Admits s.clock config →
      Start code i s (do code.unlock i config; return true) (s.set i ⟨config, .unlocking false⟩)
  | extend {s : State σ τ} {i : ℕ} {config : LockConfiguration τ} {most least : τ} :
      s.locks i = some ⟨config, .held⟩ →
      code.Admits s.clock (config.successor most least s.clock) →
      Start code i s (code.extend i config (config.successor most least s.clock))
        (s.set i ⟨config, .extending most least s.clock false⟩)

inductive Serve (storage : Storage σ Q A τ) : ℕ → State σ τ → (q : Q) → A q → State σ τ → Prop where
  | quiet {s : State σ τ} {i : ℕ} {q : Q} {a : A q} {store : σ} :
      storage.Serve i s.clock s.store q a false store →
      Serve storage i s q a { s with store }
  | wrote {s : State σ τ} {i : ℕ} {q : Q} {a : A q} {store : σ} {b : LockCall (Phase τ) τ} :
      storage.Serve i s.clock s.store q a true store → s.locks i = some b →
      Serve storage i s q a ({ s with store }.set i (written b))

/-- After a write: the store has applied it, or the call was answered with an error. -/
def AfterPut {α : Type} (i : ℕ) (a : LockCall (Phase τ) τ) (r : Except ε α) (t : State σ τ) :
    Prop :=
  t.locks i = some (written a) ∨ t.locks i = some a ∧ ∃ e, r = .error e

/-- After a method that says whether it wrote: `true` only where the store has applied the write. -/
def AfterWrite (i : ℕ) (a : LockCall (Phase τ) τ) (r : Except ε Bool) (t : State σ τ) : Prop :=
  t.locks i = some (written a) ∨ t.locks i = some a ∧ r ≠ .ok true

/-- After an `unlock()`, whatever became of its write. -/
def AfterUnlock (i : ℕ) (a : LockCall (Phase τ) τ) (t : State σ τ) : Prop :=
  t.locks i = some (written a) ∨ t.locks i = some a

/-- A `lock()` call that has its lock where it says so. -/
def Granting (i : ℕ) (config : LockConfiguration τ) (r : Except ε Bool) (t : State σ τ) : Prop :=
  ∃ granted, t.locks i = some ⟨config, .locking granted⟩ ∧ (r = .ok true → granted = true)

theorem AfterWrite.granting {i : ℕ} {config : LockConfiguration τ} {granted : Bool}
    {r : Except ε Bool} {t : State σ τ} (h : AfterWrite i ⟨config, .locking granted⟩ r t) :
    Granting i config r t := by
  rcases h with hwritten | ⟨hcall, hr⟩
  · exact ⟨true, hwritten, fun _ => rfl⟩
  · exact ⟨granted, hcall, fun h => absurd h hr⟩

section Register

variable [Add τ]

def State.register (storage : Storage σ Q A τ) (s : State σ τ) : Tenancy.Register ℕ String τ :=
  LockTable.register Phase.Outstanding s.clock s.locks (storage.cell s.store)

variable {storage : Storage σ Q A τ} {s : State σ τ} {i : ℕ} {a : LockCall (Phase τ) τ}

theorem register_set : (s.set i a).register storage =
    { s.register storage with
      outstanding := update (s.register storage).outstanding i
        (LockTable.counts Phase.Outstanding a) } := LockTable.register_update

/-- What the store does by itself does not show in the register. -/
theorem register_internal {store : σ} (h : storage.Internal s.store store) :
    State.register storage { s with store } = s.register storage := by
  rw [State.register, storage.cell_internal _ _ h]
  rfl

/-- A handle whose deadline the record carries may write it. -/
theorem holds_of_carried (ha : s.locks i = some a) (ho : a.phase.Outstanding)
    (h : ∃ w, storage.cell s.store a.config.name = some (w, a.config.lockAtMostUntil)) :
    (s.register storage).Holds i a.config.name := by
  obtain ⟨w, hw⟩ := h
  exact LockTable.holds_of ha ho hw rfl

end Register

variable [LinearOrder τ]

/-- Any number of calls over a store, with one clock that does not go back. -/
def service (storage : Storage σ Q A τ) (code : Code Q A ε τ) :
    Service (State σ τ) Q A ε Bool where
  Initial s := storage.Initial s.store ∧ ∀ i, s.locks i = none
  Internal s t := (∃ now, s.clock ≤ now ∧ t = { s with clock := now }) ∨
    ∃ store, storage.Internal s.store store ∧ t = { s with store }
  Start := Start code
  Serve := Serve storage
  Settle i s r t := ∃ a, s.locks i = some a ∧ t = s.set i (settled a r)

theorem reachable_lock {storage : Storage σ Q A τ} {code : Code Q A ε τ} {shared : State σ τ}
    {running : ℕ → Option (Program Q A ε Bool)} (i : ℕ) (config : LockConfiguration τ)
    (h : (service storage code).system.Reachable ⟨shared, running⟩) (hi : running i = none)
    (hl : shared.locks i = none) (ha : code.Admits shared.clock config) :
    (service storage code).system.Reachable
      ⟨shared.set i ⟨config, .locking false⟩, update running i (some (code.lock i config))⟩ :=
  Service.reachable_started h hi (.lock hl ha)

/-- Where call `i` goes on: in a later state that has its entry as it was. -/
structure Resumes (storage : Storage σ Q A τ) (i : ℕ) (a : LockCall (Phase τ) τ) (s t : State σ τ) :
    Prop where
  call : t.locks i = some a
  clock : s.clock ≤ t.clock
  later : storage.Later i s.store t.store

theorem Resumes.trans {storage : Storage σ Q A τ} {i : ℕ} {a : LockCall (Phase τ) τ}
    {s t u : State σ τ} (h : Resumes storage i a s t) (h' : Resumes storage i a t u) :
    Resumes storage i a s u :=
  ⟨h'.call, le_trans h.clock h'.clock, storage.later_trans i _ _ _ h.later h'.later⟩

variable [Add τ] {storage : Storage σ Q A τ} {code : Code Q A ε τ}

/-- What the operation a call is in may do to a record: `lock` takes a free one, `unlock` and
`extend` replace one with the deadline of their handle. -/
def Allows (clock : τ) (a : LockCall (Phase τ) τ) (old : Option (ℕ × τ)) (deadline : τ) : Prop :=
  match a.phase with
  | .locking _ => (∀ x ∈ old, x.2 ≤ clock) ∧ a.config.lockAtMostUntil ≤ deadline
  | .unlocking released =>
    released = false ∧ (∃ w, old = some (w, a.config.lockAtMostUntil)) ∧
      a.config.lockAtLeastUntil ≤ deadline
  | .extending most least now renewed =>
    renewed = false ∧ (∃ w, old = some (w, a.config.lockAtMostUntil)) ∧
      (a.config.successor most least now).lockAtMostUntil ≤ deadline
  | .held | .ended => False

/-- A write of call `i` to the record of its own name that its operation allows. -/
structure Wrote (storage : Storage σ Q A τ) (i : ℕ) (a : LockCall (Phase τ) τ) (deadline : τ)
    (s t : State σ τ) : Prop where
  call : s.locks i = some a
  allowed : Allows s.clock a (storage.cell s.store a.config.name) deadline
  cell : storage.cell t.store =
    update (storage.cell s.store) a.config.name (some (i, deadline))
  locks : t.locks = update s.locks i (some (written a))
  clock : t.clock = s.clock

/-- A call settles as it may: `true` after a write only. -/
def Settles (a : LockCall (Phase τ) τ) (r : Except ε Bool) : Prop :=
  match a.phase with
  | .locking granted => r = .ok true → granted = true
  | .extending most least now renewed =>
    r = .ok true → renewed = true ∧ a.config = a.config.successor most least now
  | .held | .unlocking _ | .ended => True

def contract (storage : Storage σ Q A τ) : Service.Contract (State σ τ) ε Bool where
  Inv s := Tenancy.Exclusive (s.register storage)
  Rely i s t := s.clock ≤ t.clock ∧ t.locks i = s.locks i ∧ storage.Later i s.store t.store
  Guarantee i s t := Tenancy.Exclusive (t.register storage) ∧
    (∃ bs, Tenancy.system.Run (s.register storage) bs (t.register storage)) ∧
    (storage.cell t.store = storage.cell s.store ∨ ∃ a deadline, Wrote storage i a deadline s t) ∧
    s.clock ≤ t.clock ∧
    ∀ j, j ≠ i → t.locks j = s.locks j ∧ storage.Later j s.store t.store
  Post i r s := ∀ a, s.locks i = some a → Settles a r

/-- The methods of a provider meet the contract one by one. -/
structure Correct (storage : Storage σ Q A τ) (code : Code Q A ε τ) : Prop where
  lock : ∀ i config s, Tenancy.Exclusive (State.register storage s) →
    s.locks i = some ⟨config, .locking false⟩ → code.Admits s.clock config →
    (service storage code).Meets (contract storage) i
      ((contract storage).Post i) (code.lock i config) s
  unlock : ∀ i config s, Tenancy.Exclusive (State.register storage s) →
    s.locks i = some ⟨config, .unlocking false⟩ → code.Admits s.clock config →
    (service storage code).Meets (contract storage) i ((contract storage).Post i)
      (do code.unlock i config; return true) s
  extend : ∀ i config most least now s, Tenancy.Exclusive (State.register storage s) →
    s.locks i = some ⟨config, .extending most least now false⟩ →
    now ≤ s.clock → code.Admits now (config.successor most least now) →
    (service storage code).Meets (contract storage) i
      ((contract storage).Post i) (code.extend i config (config.successor most least now)) s

section Writes

variable {s t : State σ τ} {i : ℕ} {a : LockCall (Phase τ) τ} {deadline : τ}

/-- The register shows a write of a call and the change of its own entry, nothing else. -/
theorem Wrote.register (h : Wrote storage i a deadline s t) :
    t.register storage =
      { s.register storage with
        outstanding := update (s.register storage).outstanding i
          (LockTable.counts Phase.Outstanding (written a))
        cell := update (s.register storage).cell a.config.name (some (i, deadline)) } := by
  rw [State.register, h.clock, h.locks, h.cell, LockTable.register_update]
  rfl

/-- A write that an operation allows is a step of the register. A `lock()` gives up what an
earlier write of the same call has got. -/
theorem Wrote.run (h : Wrote storage i a deadline s t) :
    ∃ bs, Tenancy.system.Run (s.register storage) bs (t.register storage) := by
  obtain ⟨config, phase⟩ := a
  rw [h.register]
  have hallowed := h.allowed
  cases phase with
  | held | ended => exact hallowed.elim
  | locking granted =>
    obtain ⟨hfree, hdeadline⟩ := hallowed
    exact ⟨_, Tenancy.retake_run (fun w t hw => hfree (w, t) hw)
      fun _ => ⟨deadline, rfl, hdeadline⟩⟩
  | unlocking released =>
    obtain ⟨rfl, hcarried, -⟩ := hallowed
    exact ⟨_, .single (.release (holds_of_carried h.call rfl hcarried))⟩
  | extending most least now renewed =>
    obtain ⟨rfl, hcarried, hdeadline⟩ := hallowed
    have hholds : (s.register storage).Holds i config.name :=
      holds_of_carried h.call trivial hcarried
    exact ⟨_, .single (Tenancy.Step.renew_self hholds fun _ => ⟨deadline, rfl, hdeadline⟩)⟩

theorem Wrote.guarantee (h : Wrote storage i a deadline s t)
    (he : Tenancy.Exclusive (s.register storage))
    (hlater : ∀ j, j ≠ i → storage.Later j s.store t.store) :
    (contract storage (ε := ε)).Guarantee i s t := by
  obtain ⟨bs, hrun⟩ := h.run
  refine ⟨hrun.preserves (fun _ _ _ => Tenancy.exclusive_step) he, ⟨bs, hrun⟩,
    .inr ⟨a, deadline, h⟩, le_of_eq h.clock.symm, ?_⟩
  intro j hj
  refine ⟨?_, hlater j hj⟩
  rw [h.locks, update_of_ne hj]

end Writes

section Steps

variable {s t : State σ τ} {i : ℕ} {a b : LockCall (Phase τ) τ}

/-- A call that goes on without a write. It counts on what it counted on before, or on nothing. -/
theorem set_guarantee (he : Tenancy.Exclusive (s.register storage))
    (hb : LockTable.counts Phase.Outstanding b = (s.register storage).outstanding i ∨
      LockTable.counts Phase.Outstanding b = none) :
    (contract storage (ε := ε)).Guarantee i s (s.set i b) := by
  have hrun : ∃ bs, Tenancy.system.Run (s.register storage) bs ((s.set i b).register storage) := by
    rw [register_set]
    rcases hb with hsame | hnone
    · rw [hsame, update_eq_self]
      exact ⟨[], .refl⟩
    · rw [hnone]
      exact ⟨_, .single .drop⟩
  obtain ⟨bs, hrun⟩ := hrun
  refine ⟨hrun.preserves (fun _ _ _ => Tenancy.exclusive_step) he, ⟨bs, hrun⟩, .inl rfl,
    le_refl _, ?_⟩
  intro j hj
  exact ⟨update_of_ne hj _ _, storage.later_refl j _⟩

theorem start_guarantee {p : Program Q A ε Bool} (he : Tenancy.Exclusive (s.register storage))
    (h : Start code i s p t) : (contract storage (ε := ε)).Guarantee i s t := by
  cases h with
  | lock => exact set_guarantee he (.inr (LockTable.counts_none nofun))
  | unlock hl =>
    refine set_guarantee he (.inl ?_)
    rw [State.register, LockTable.outstanding_of hl]
    rfl
  | extend hl =>
    refine set_guarantee he (.inl ?_)
    rw [State.register, LockTable.outstanding_of hl]
    rfl

theorem settle_guarantee {r : Except ε Bool} (he : Tenancy.Exclusive (s.register storage))
    (ha : s.locks i = some a) (hr : Settles a r) :
    (contract storage (ε := ε)).Guarantee i s (s.set i (settled a r)) := by
  refine set_guarantee he ?_
  rw [State.register, LockTable.outstanding_of ha]
  obtain ⟨config, phase⟩ := a
  cases phase with
  | held | ended => exact .inl rfl
  | locking granted =>
    rcases r with e | _ | _
    · exact .inr (LockTable.counts_none nofun)
    · exact .inr (LockTable.counts_none nofun)
    · obtain rfl : granted = true := hr rfl
      exact .inl rfl
  | unlocking released =>
    rcases r with e | b
    · cases released
      · exact .inl rfl
      · exact .inr (LockTable.counts_none nofun)
    · exact .inr (LockTable.counts_none nofun)
  | extending most least now renewed =>
    rcases r with e | _ | _
    · cases renewed
      · exact .inl rfl
      · exact .inr (LockTable.counts_none nofun)
    · cases renewed
      · exact .inl rfl
      · exact .inr (LockTable.counts_none nofun)
    · obtain ⟨rfl, hconfig⟩ := hr rfl
      left
      dsimp only [settled]
      rw [← hconfig]
      rfl

/-- A request that writes no record changes what the register shows in nothing. -/
theorem quiet_guarantee {q : Q} {x : A q} {store : σ} (he : Tenancy.Exclusive (s.register storage))
    (h : storage.Serve i s.clock s.store q x false store) :
    (contract storage (ε := ε)).Guarantee i s { s with store } := by
  have hcell := storage.cell_quiet _ _ _ _ _ _ h
  have hregister : State.register storage { s with store } = s.register storage := by
    rw [State.register, hcell]
    rfl
  refine ⟨?_, ⟨[], ?_⟩, .inl hcell, le_refl _, fun j hj => ⟨rfl, ?_⟩⟩
  · rw [hregister]
    exact he
  · rw [hregister]
    exact .refl
  · exact storage.later_serve _ _ _ _ _ _ _ _ h hj

theorem coherent : (contract storage (ε := ε)).Coherent where
  refl i s := ⟨le_refl _, rfl, storage.later_refl i _⟩
  trans i s t u := by
    rintro ⟨hclock, hlocks, hlater⟩ ⟨hclock', hlocks', hlater'⟩
    exact ⟨le_trans hclock hclock', hlocks'.trans hlocks,
      storage.later_trans i _ _ _ hlater hlater'⟩
  inv i s t h := h.1
  others i j s t h hj := by
    obtain ⟨-, -, -, hclock, hothers⟩ := h
    exact ⟨hclock, hothers j hj⟩

/-- Correct methods keep the contract together. -/
theorem Correct.keeps (hcode : Correct storage code) :
    (service storage code).Keeps (contract storage) where
  toCoherent := coherent
  initial s h := by
    intro i k d hd
    exact absurd (hd.symm.trans (Tenancy.board_none (h.2 i))) nofun
  internal s t he h := by
    rcases h with ⟨now, hnow, rfl⟩ | ⟨store, hstore, rfl⟩
    · exact ⟨Tenancy.exclusive_step (.advance hnow) he,
        fun i => ⟨hnow, rfl, storage.later_refl i _⟩⟩
    · refine ⟨?_, fun i => ⟨le_refl _, rfl, storage.later_internal i _ _ hstore⟩⟩
      change Tenancy.Exclusive (State.register storage _)
      rw [register_internal hstore]
      exact he
  start i s p t he h := by
    have hg : (contract storage).Guarantee i s t := start_guarantee he h
    refine ⟨hg, ?_⟩
    cases h with
    | lock _ ha => exact hcode.lock i _ _ hg.1 (update_self _ _ _) ha
    | extend _ ha => exact hcode.extend i _ _ _ _ _ hg.1 (update_self _ _ _) (le_refl _) ha
    | unlock _ ha => exact hcode.unlock i _ _ hg.1 (update_self _ _ _) ha
  settle i s r t he hpost h := by
    obtain ⟨a, ha, rfl⟩ := h
    exact settle_guarantee he ha (hpost a ha)

end Steps

section Requests

variable {s : State σ τ} {i : ℕ} {a : LockCall (Phase τ) τ} {β : Type} {q : Q}
  {f : A q → Program Q A ε β} {post : Except ε β → State σ τ → Prop}

/-- A program that sends a request. If this writes a record, the operation has to allow it there. -/
theorem meets_request (hs : s.locks i = some a)
    (hquiet : ∀ (t : State σ τ) x store, Resumes storage i a s t →
      storage.Serve i t.clock t.store q x false store →
      (service storage code).Meets (contract storage) i post (f x) { t with store })
    (hwrote : ∀ (t : State σ τ) x store, Resumes storage i a s t →
      storage.Serve i t.clock t.store q x true store →
      ∃ deadline, Allows t.clock a (storage.cell t.store a.config.name) deadline ∧
        storage.cell store = update (storage.cell t.store) a.config.name (some (i, deadline)) ∧
        (service storage code).Meets (contract storage) i post (f x)
          ({ t with store }.set i (written a))) :
    (service storage code).Meets (contract storage) i post (Program.ask q >>= f) s := by
  rw [Service.meets_ask_bind]
  rintro t he ⟨hclock, hlocks, hlater⟩ x u hserve
  have hresumes : Resumes storage i a s t := ⟨hlocks.trans hs, hclock, hlater⟩
  cases hserve with
  | quiet h => exact ⟨quiet_guarantee he h, hquiet t x _ hresumes h⟩
  | @wrote _ _ _ _ store b h hb =>
    obtain rfl : b = a := Option.some.inj (hb.symm.trans hresumes.call)
    obtain ⟨deadline, hallowed, hcell, hrest⟩ := hwrote t x store hresumes h
    have hw : Wrote storage i b deadline t ({ t with store }.set i (written b)) :=
      ⟨hb, hallowed, hcell, rfl, rfl⟩
    exact ⟨hw.guarantee he fun j hj => storage.later_serve _ _ _ _ _ _ _ _ h hj, hrest⟩

theorem meets_pure {b : β} (hs : s.locks i = some a)
    (h : ∀ t, Resumes storage i a s t → post (.ok b) t) :
    (service storage code).Meets (contract storage) i post (pure b : Program Q A ε β) s :=
  fun t _ hrely => h t ⟨hrely.2.1.trans hs, hrely.1, hrely.2.2⟩

theorem meets_throw {e : ε} (hs : s.locks i = some a)
    (h : ∀ t, Resumes storage i a s t → post (.error e) t) :
    (service storage code).Meets (contract storage) i post (throw e : Program Q A ε β) s :=
  fun t _ hrely => h t ⟨hrely.2.1.trans hs, hrely.1, hrely.2.2⟩

/-- What is computed without requests, in the state it was reached in. -/
theorem meets_ofExcept_bind {γ : Type} {r : Except ε γ} {g : γ → Program Q A ε β}
    (hs : s.locks i = some a)
    (hok : ∀ c, r = .ok c → (service storage code).Meets (contract storage) i post (g c) s)
    (herror : ∀ e t, Resumes storage i a s t → post (.error e) t) :
    (service storage code).Meets (contract storage) i post (Program.ofExcept r >>= g) s := by
  cases r with
  | ok c => exact hok c rfl
  | error e => exact meets_throw hs (herror e)

theorem meets_ofExcept {r : Except ε β} (hs : s.locks i = some a)
    (h : ∀ t, Resumes storage i a s t → post r t) :
    (service storage code).Meets (contract storage) i post (Program.ofExcept r) s := by
  cases r with
  | ok b => exact meets_pure hs h
  | error e => exact meets_throw hs h

end Requests

section Methods

section Conflicts

variable {s : State σ τ} {i : ℕ} {a : LockCall (Phase τ) τ} {isConflict : ε → Bool}
  {write : Program Q A ε Unit}

theorem meets_succeeds (hinv : Tenancy.Exclusive (s.register storage))
    (hs : (service storage code).Meets (contract storage) i (AfterPut i a) write s) :
    (service storage code).Meets (contract storage) i (AfterWrite i a)
      (Program.succeeds isConflict write) s := by
  refine Service.Meets.tryCatch (m := AfterPut i a) coherent hinv ?_ ?_ ?_
  · refine Service.Meets.bind coherent hinv hs ?_ ?_
    · rintro x u - (hwritten | ⟨-, e, he⟩)
      · exact meets_pure hwritten fun v hv => .inl hv.call
      · cases he
    · rintro e u (hwritten | ⟨hcall, -⟩)
      · exact .inl hwritten
      · exact .inr ⟨hcall, e, rfl⟩
  · rintro b u (hwritten | ⟨-, e, he⟩)
    · exact .inl hwritten
    · cases he
  · rintro e u - (hwritten | ⟨hcall, -⟩)
    · split
      · exact meets_pure hwritten fun v hv => .inl hv.call
      · exact meets_throw hwritten fun v hv => .inl hv.call
    · split
      · exact meets_pure hcall fun v hv => .inr ⟨hv.call, nofun⟩
      · exact meets_throw hcall fun v hv => .inr ⟨hv.call, nofun⟩

theorem meets_ignoring (hinv : Tenancy.Exclusive (s.register storage))
    (hs : (service storage code).Meets (contract storage) i (AfterPut i a) write s) :
    (service storage code).Meets (contract storage) i (fun _ => AfterUnlock i a)
      (Program.ignoring isConflict write) s := by
  refine Service.Meets.tryCatch coherent hinv hs ?_ ?_
  · rintro b u (hwritten | ⟨hcall, -⟩)
    · exact .inl hwritten
    · exact .inr hcall
  · rintro e u - (hwritten | ⟨hcall, -⟩)
    · split
      · exact meets_pure hwritten fun v hv => .inl hv.call
      · exact meets_throw hwritten fun v hv => .inl hv.call
    · split
      · exact meets_pure hcall fun v hv => .inr hv.call
      · exact meets_throw hcall fun v hv => .inr hv.call

end Conflicts

/-- What the methods have to meet one by one: each writes at most once, and only what its operation
allows. -/
structure MethodsMeet (storage : Storage σ Q A τ) (code : Code Q A ε τ) : Prop where
  lock : ∀ i config s, Tenancy.Exclusive (State.register storage s) →
    s.locks i = some ⟨config, .locking false⟩ → code.Admits s.clock config →
    (service storage code).Meets (contract storage) i (Granting i config) (code.lock i config) s
  unlock : ∀ i config s, Tenancy.Exclusive (State.register storage s) →
    s.locks i = some ⟨config, .unlocking false⟩ → code.Admits s.clock config →
    (service storage code).Meets (contract storage) i
      (fun _ => AfterUnlock i ⟨config, .unlocking false⟩) (code.unlock i config) s
  extend : ∀ i config most least now s, Tenancy.Exclusive (State.register storage s) →
    s.locks i = some ⟨config, .extending most least now false⟩ →
    now ≤ s.clock → code.Admits now (config.successor most least now) →
    (service storage code).Meets (contract storage) i
      (AfterWrite i ⟨config, .extending most least now false⟩)
      (code.extend i config (config.successor most least now)) s

theorem MethodsMeet.correct (h : MethodsMeet storage code) : Correct storage code where
  lock i config s hinv hs ha := by
    refine (h.lock i config s hinv hs ha).mono ?_
    rintro r t ⟨granted, hcall, hok⟩ b hb
    obtain rfl := Option.some.inj (hcall.symm.trans hb)
    exact hok
  unlock i config s hinv hs ha := by
    have hpost : ∀ {r : Except ε Bool} {t : State σ τ},
        AfterUnlock i ⟨config, .unlocking false⟩ t → (contract storage).Post i r t := by
      rintro r t (hwritten | hcall) b hb
      · obtain rfl := Option.some.inj (hwritten.symm.trans hb)
        trivial
      · obtain rfl := Option.some.inj (hcall.symm.trans hb)
        trivial
    refine Service.Meets.bind coherent hinv (h.unlock i config s hinv hs ha) ?_ fun _ _ h => hpost h
    rintro _ u - (hwritten | hcall)
    · exact meets_pure hwritten fun v hv => hpost (.inl hv.call)
    · exact meets_pure hcall fun v hv => hpost (.inr hv.call)
  extend i config most least now s hinv hs hnow ha := by
    refine (h.extend i config most least now s hinv hs hnow ha).mono ?_
    rintro r t (hwritten | ⟨hcall, hr⟩) b hb
    · obtain rfl := Option.some.inj (hwritten.symm.trans hb)
      exact fun _ => ⟨rfl, rfl⟩
    · obtain rfl := Option.some.inj (hcall.symm.trans hb)
      exact fun h => absurd h hr

end Methods

section Runs

variable {s t u : Service.State (State σ τ) Q A ε Bool} {e : Service.Event}
  {es : List Service.Event} {i j : ℕ} {a b : LockCall (Phase τ) τ} {deadline : τ}

/-- The handles of a name whose time is not over, in a state of a run. -/
abbrev Live (s : Service.State (State σ τ) Q A ε Bool) (i : ℕ) (a : LockCall (Phase τ) τ) : Prop :=
  LockTable.Live Phase.Outstanding s.shared.clock s.shared.locks i a

/-- A state in which the calls under way meet the contract. -/
abbrev Kept (storage : Storage σ Q A τ) (code : Code Q A ε τ)
    (s : Service.State (State σ τ) Q A ε Bool) : Prop :=
  s.Kept (service storage code) (contract storage)

/-- The register runs along. -/
theorem register_step (hcode : Correct storage code) (hk : Kept storage code s)
    (h : (service storage code).Step s e t) :
    ∃ bs, Tenancy.system.Run (s.shared.register storage) bs (t.shared.register storage) := by
  rcases h.guarantee hcode.keeps hk with (⟨now, hnow, hclock⟩ | ⟨store, hstore, heq⟩) | ⟨i, hg⟩
  · rw [hclock]
    exact ⟨_, .single (.advance hnow)⟩
  · rw [heq, register_internal hstore]
    exact ⟨[], .refl⟩
  · exact hg.2.1

theorem register_run (hcode : Correct storage code) (hk : Kept storage code s)
    (h : (service storage code).system.Run s es t) :
    ∃ bs, Tenancy.system.Run (s.shared.register storage) bs (t.shared.register storage) := by
  induction h with
  | refl => exact ⟨[], .refl⟩
  | step hs _ ih =>
    obtain ⟨bs, hfirst⟩ := register_step hcode hk hs
    obtain ⟨cs, hrest⟩ := ih (hs.kept hcode.keeps hk)
    exact ⟨bs ++ cs, hfirst.append hrest⟩

/-- At most one live handle of each name. -/
theorem Live.unique (hk : Kept storage code s) (ha : Live s i a) (hb : Live s j b)
    (hname : a.config.name = b.config.name) : i = j :=
  LockTable.Live.unique hk.1 ha hb hname

/-- The record of a live handle was last written by its call, and lasts as long as the handle. -/
theorem Live.cell (hk : Kept storage code s) (ha : Live s i a) :
    ∃ deadline, storage.cell s.shared.store a.config.name = some (i, deadline) ∧
      a.config.lockAtMostUntil ≤ deadline :=
  hk.1 i _ _ ((LockTable.outstanding_of ha.lock).trans (LockTable.counts_of ha.outstanding))
    ha.unexpired

/-- Each step that changes a record is a write that an operation allows. -/
theorem wrote_of_step (hcode : Correct storage code) (hk : Kept storage code s)
    (h : (service storage code).Step s e t) :
    storage.cell t.shared.store = storage.cell s.shared.store ∨
      ∃ i a deadline, Wrote storage i a deadline s.shared t.shared := by
  rcases h.guarantee hcode.keeps hk with (⟨now, -, hclock⟩ | ⟨store, hstore, heq⟩) | ⟨i, hg⟩
  · rw [hclock]
    exact .inl rfl
  · rw [heq]
    exact .inl (storage.cell_internal _ _ hstore)
  · rcases hg.2.2.1 with hquiet | ⟨a, deadline, hwrote⟩
    · exact .inl hquiet
    · exact .inr ⟨i, a, deadline, hwrote⟩

theorem left_of_unlock (hw : Wrote storage i a deadline s.shared t.shared)
    (ha : a.phase = .unlocking false) :
    Tenancy.Left (t.shared.register storage) i a.config.name deadline := by
  obtain ⟨config, phase⟩ := a
  obtain rfl : phase = .unlocking false := ha
  have hended : ¬ (Phase.unlocking true : Phase τ).Outstanding := nofun
  rw [State.register, hw.locks, hw.cell]
  exact LockTable.left_released hended

theorem lockAtLeastUntil_le (hw : Wrote storage i a deadline s.shared t.shared)
    (ha : a.phase = .unlocking false) : a.config.lockAtLeastUntil ≤ deadline := by
  obtain ⟨config, phase⟩ := a
  obtain rfl : phase = .unlocking false := ha
  exact hw.allowed.2.2

/-- What the unlock of a handle has left behind keeps its name until the minimum hold is over. -/
theorem minimumHold (hcode : Correct storage code) (hk : Kept storage code t)
    (hw : Wrote storage i a deadline s.shared t.shared) (ha : a.phase = .unlocking false)
    (hr : (service storage code).system.Run t es u)
    (hmin : u.shared.clock < a.config.lockAtLeastUntil) (hb : u.shared.locks j = some b)
    (ho : b.phase.Outstanding) (hname : b.config.name = a.config.name) :
    ∃ c, t.shared.locks j = some c ∧ c.phase.Outstanding ∧ c.config.name = a.config.name := by
  obtain ⟨bs, hrun⟩ := register_run hcode hk hr
  exact LockTable.outstanding_of_left hk.1 (left_of_unlock hw ha) hrun
    (lt_of_lt_of_le hmin (lockAtLeastUntil_le hw ha)) hb ho hname

/-- Until then none of its handles counts. -/
theorem not_live_before_minimum (hcode : Correct storage code) (hk : Kept storage code t)
    (hw : Wrote storage i a deadline s.shared t.shared) (ha : a.phase = .unlocking false)
    (hr : (service storage code).system.Run t es u)
    (hmin : u.shared.clock < a.config.lockAtLeastUntil) (hb : Live u j b) :
    b.config.name ≠ a.config.name := by
  intro hname
  obtain ⟨bs, hrun⟩ := register_run hcode hk hr
  have hafter : Tenancy.Exclusive (u.shared.register storage) :=
    hrun.preserves (fun _ _ _ => Tenancy.exclusive_step) hk.1
  obtain ⟨hleft, -⟩ := (left_of_unlock hw ha).run hk.1 hrun
    (lt_of_lt_of_le hmin (lockAtLeastUntil_le hw ha))
  refine hleft.not_live hafter (h := j) ?_
  rw [← hname]
  exact hb.register

/-- What holds of the handles and records of a provider in a state and from it on. A handle counts
as long as its deadline is in the future and no unlock of it was applied. -/
structure Protocol (storage : Storage σ Q A τ) (code : Code Q A ε τ)
    (s : Service.State (State σ τ) Q A ε Bool) : Prop where
  unique : ∀ i j a b, Live s i a → Live s j b → a.config.name = b.config.name → i = j
  record : ∀ i a, Live s i a → ∃ deadline,
    storage.cell s.shared.store a.config.name = some (i, deadline) ∧
      a.config.lockAtMostUntil ≤ deadline
  writes : ∀ e t, (service storage code).Step s e t →
    storage.cell t.shared.store = storage.cell s.shared.store ∨
      ∃ i a deadline, Wrote storage i a deadline s.shared t.shared
  minimumHold : ∀ e t i a deadline es u, (service storage code).Step s e t →
    Wrote storage i a deadline s.shared t.shared → a.phase = .unlocking false →
    (service storage code).system.Run t es u → u.shared.clock < a.config.lockAtLeastUntil →
    (∀ j b, Live u j b → b.config.name ≠ a.config.name) ∧
    ∀ j b, u.shared.locks j = some b → b.phase.Outstanding → b.config.name = a.config.name →
      ∃ c, t.shared.locks j = some c ∧ c.phase.Outstanding ∧ c.config.name = a.config.name

theorem Correct.protocol (hcode : Correct storage code)
    (h : (service storage code).system.Reachable s) : Protocol storage code s where
  unique _ _ _ _ ha hb hname := ha.unique (Service.kept_reachable hcode.keeps h) hb hname
  record _ _ ha := ha.cell (Service.kept_reachable hcode.keeps h)
  writes _ _ hs := wrote_of_step hcode (Service.kept_reachable hcode.keeps h) hs
  minimumHold _ _ _ _ _ _ _ hs hw hphase hr hmin := by
    have hk := Service.kept_reachable hcode.keeps (h.step hs)
    refine ⟨fun _ _ hlive => not_live_before_minimum hcode hk hw hphase hr hmin hlive, ?_⟩
    exact fun _ _ hb ho hname => LeaseProtocol.minimumHold hcode hk hw hphase hr hmin hb ho hname

end Runs

end Tslock.LeaseProtocol
