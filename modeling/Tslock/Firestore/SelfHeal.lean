import Mathlib.Data.Finset.Card
import Mathlib.Data.Finset.Basic
import Tslock.Sql.Provider

/-! `StorageBasedLockProvider.lock()` over an accessor that throws on a missing record, with
deletions and other hosts between any two of its steps. -/
namespace Tslock.Firestore

open Function Foundation
open Sql (LockRecordRegistry)

/-- `insertRecord` creates the record iff it is absent; `updateRecord` throws iff it is missing and
else succeeds iff it has ended. -/
structure RecordAccessor (τ ρ : Type*) [LinearOrder τ] where
  lockUntil : ρ → τ
  insertRecord : LockConfiguration τ → τ → Option ρ → Option ρ × Bool
  updateRecord : LockConfiguration τ → τ → Option ρ → Option ρ × Except String Bool
  insert_absent : ∀ config now, ∃ r, insertRecord config now none = (some r, true)
  insert_present : ∀ config now r, insertRecord config now (some r) = (some r, false)
  update_missing : ∀ config now, ∃ message,
    updateRecord config now none = (none, .error message)
  update_held : ∀ config now r, now < lockUntil r →
    updateRecord config now (some r) = (some r, .ok false)
  update_ended : ∀ config now r, lockUntil r ≤ now →
    ∃ r', updateRecord config now (some r) = (some r', .ok true)

/-- A document with its times in whole milliseconds. -/
structure Document where
  lockUntil : ℤ
  lockedAt : ℤ
  lockedBy : String
deriving DecidableEq, Repr

def toData (lockedByValue : String) (config : LockConfiguration ℤ) (now : ℤ) : Document where
  lockUntil := config.lockAtMostUntil
  lockedAt := now
  lockedBy := lockedByValue

/-- The two methods of `FirestoreStorageAccessor`, each one transaction. -/
def firestoreStorageAccessor (lockedByValue : String) : RecordAccessor ℤ Document where
  lockUntil := Document.lockUntil
  insertRecord config now
    | some doc => (some doc, false)
    | none => (some (toData lockedByValue config now), true)
  updateRecord config now
    | none => (none, .error ("Lock record not found: " ++ config.name))
    | some doc =>
      if doc.lockUntil > now then (some doc, .ok false)
      else (some (toData lockedByValue config now), .ok true)
  insert_absent _ _ := ⟨_, rfl⟩
  insert_present _ _ _ := rfl
  update_missing _ _ := ⟨_, rfl⟩
  update_held _ _ _ h := if_pos h
  update_ended _ _ _ h := ⟨_, if_neg h.not_gt⟩

/-- Where a `lock()` call stands; the results are those of transactions that have run. -/
inductive LockPhase where
  | inserting
  | inserted (ok : Bool)
  | updating
  | updated (result : Except String Bool)

structure LockCall (τ : Type*) where
  config : LockConfiguration τ
  phase : LockPhase

structure Provider (τ ρ : Type*) where
  store : String → Option ρ
  registry : LockRecordRegistry
  call : Option (LockCall τ)

namespace Provider

variable {τ ρ : Type*}

def setCall (s : Provider τ ρ) (config : LockConfiguration τ) (phase : LockPhase) : Provider τ ρ :=
  { s with call := some ⟨config, phase⟩ }

def endCall (s : Provider τ ρ) : Provider τ ρ := { s with call := none }

def setRecord (s : Provider τ ρ) (name : String) (record : Option ρ) : Provider τ ρ :=
  { s with store := update s.store name record }

def setRegistry (s : Provider τ ρ) (registry : LockRecordRegistry) : Provider τ ρ :=
  { s with registry }

end Provider

inductive Event (τ : Type*) where
  | lockCalled (config : LockConfiguration τ)
  | insertRuns (now : τ)
  | insertRefused
  | updateRuns (now : τ)
  | acquires (config : LockConfiguration τ)
  | skips (config : LockConfiguration τ)
  | throws (config : LockConfiguration τ) (message : String)
  | outsideWrites (name : String)
  | outsideDeletes (name : String)
  | cacheCleared (name : String)

namespace Event

variable {τ : Type*}

/-- A deletion, or an acquisition or a release by another host. -/
def Outside : Event τ → Prop
  | .outsideWrites _ | .outsideDeletes _ => True
  | _ => False

/-- `lock()` returns or throws. -/
def Ends : Event τ → Prop
  | .acquires _ | .skips _ | .throws _ _ => True
  | _ => False

def isDeletion : Event τ → Bool
  | .outsideDeletes _ => true
  | _ => false

def isThrow : Event τ → Bool
  | .throws _ _ => true
  | _ => false

end Event

variable {τ ρ : Type*} [LinearOrder τ]

/-- Calls of `lock()` do not overlap. The clock reading of a transaction is arbitrary. -/
inductive Step (accessor : RecordAccessor τ ρ) : Provider τ ρ → Event τ → Provider τ ρ → Prop where
  | lockCalled {s : Provider τ ρ} {config : LockConfiguration τ} :
      s.call = none →
      Step accessor s (.lockCalled config) (s.setCall config
        (if s.registry.lockRecordRecentlyCreated config.name then .updating else .inserting))
  | insertRuns {s : Provider τ ρ} {config : LockConfiguration τ} {now : τ} {record : Option ρ}
      {ok : Bool} :
      s.call = some ⟨config, .inserting⟩ →
      accessor.insertRecord config now (s.store config.name) = (record, ok) →
      Step accessor s (.insertRuns now)
        ((s.setRecord config.name record).setCall config (.inserted ok))
  | insertGranted {s : Provider τ ρ} {config : LockConfiguration τ} :
      s.call = some ⟨config, .inserted true⟩ →
      Step accessor s (.acquires config)
        (s.setRegistry (s.registry.addRecord config.name)).endCall
  | insertRefused {s : Provider τ ρ} {config : LockConfiguration τ} :
      s.call = some ⟨config, .inserted false⟩ →
      Step accessor s .insertRefused
        ((s.setRegistry (s.registry.addRecord config.name)).setCall config .updating)
  | updateRuns {s : Provider τ ρ} {config : LockConfiguration τ} {now : τ} {record : Option ρ}
      {result : Except String Bool} :
      s.call = some ⟨config, .updating⟩ →
      accessor.updateRecord config now (s.store config.name) = (record, result) →
      Step accessor s (.updateRuns now)
        ((s.setRecord config.name record).setCall config (.updated result))
  | updateGranted {s : Provider τ ρ} {config : LockConfiguration τ} :
      s.call = some ⟨config, .updated (.ok true)⟩ → Step accessor s (.acquires config) s.endCall
  | updateRefused {s : Provider τ ρ} {config : LockConfiguration τ} :
      s.call = some ⟨config, .updated (.ok false)⟩ → Step accessor s (.skips config) s.endCall
  | updateThrows {s : Provider τ ρ} {config : LockConfiguration τ} {message : String} :
      s.call = some ⟨config, .updated (.error message)⟩ →
      Step accessor s (.throws config message)
        (s.setRegistry (s.registry.clearCache config.name)).endCall
  | outsideWrites {s : Provider τ ρ} {name : String} {record : ρ} :
      Step accessor s (.outsideWrites name) (s.setRecord name (some record))
  | outsideDeletes {s : Provider τ ρ} {name : String} {record : ρ} :
      s.store name = some record →
      Step accessor s (.outsideDeletes name) (s.setRecord name none)
  | cacheCleared {s : Provider τ ρ} {name : String} :
      Step accessor s (.cacheCleared name) (s.setRegistry (s.registry.clearCache name))

/-- A new provider over a store that may hold any records. -/
def system (accessor : RecordAccessor τ ρ) : TransitionSystem (Provider τ ρ) (Event τ) where
  Initial s := (∀ name, s.registry name = false) ∧ s.call = none
  Step := Step accessor

section Count

/-- The provider takes the record to exist. -/
def Believed (s : Provider τ ρ) (name : String) : Prop :=
  match s.call with
  | some ⟨config, .inserted _⟩ | some ⟨config, .updating⟩ =>
    s.registry name = true ∨ config.name = name
  | some ⟨config, .updated (.error _)⟩ => s.registry name = true ∧ config.name ≠ name
  | _ => s.registry name = true

/-- `S` holds every name whose record the provider wrongly takes to exist. -/
def Covered (s : Provider τ ρ) (S : Finset String) : Prop :=
  ∀ name, s.store name = none → Believed s name → name ∈ S

/-- A throw that has not reached the caller of `lock()`. -/
def pending (s : Provider τ ρ) : ℕ :=
  match s.call with
  | some ⟨_, .updated (.error _)⟩ => 1
  | _ => 0

variable {accessor : RecordAccessor τ ρ} {s t : Provider τ ρ} {e : Event τ} {S : Finset String}
  {config : LockConfiguration τ} {now : τ} {name : String}

theorem insertRecord_present {record : Option ρ} {ok : Bool} {old : Option ρ}
    (h : accessor.insertRecord config now old = (record, ok)) : record ≠ none := by
  cases old with
  | none =>
    obtain ⟨r, hr⟩ := accessor.insert_absent config now
    obtain ⟨rfl, -⟩ := Prod.mk.inj (hr.symm.trans h)
    simp
  | some r =>
    obtain ⟨rfl, -⟩ := Prod.mk.inj ((accessor.insert_present config now r).symm.trans h)
    simp

/-- The update misses the record, refuses because it has not ended, or takes it over. -/
theorem updateRecord_cases {record : Option ρ} {result : Except String Bool} {old : Option ρ}
    (h : accessor.updateRecord config now old = (record, result)) :
    (old = none ∧ record = none ∧ ∃ message, result = .error message) ∨
      (∃ r, old = some r ∧ now < accessor.lockUntil r ∧ record = some r ∧ result = .ok false) ∨
      ∃ r r', old = some r ∧ record = some r' ∧ result = .ok true := by
  cases old with
  | none =>
    obtain ⟨message, hm⟩ := accessor.update_missing config now
    obtain ⟨rfl, rfl⟩ := Prod.mk.inj (hm.symm.trans h)
    exact .inl ⟨rfl, rfl, message, rfl⟩
  | some r =>
    rcases lt_or_ge now (accessor.lockUntil r) with hlt | hle
    · obtain ⟨rfl, rfl⟩ := Prod.mk.inj ((accessor.update_held config now r hlt).symm.trans h)
      exact .inr (.inl ⟨r, rfl, hlt, rfl, rfl⟩)
    · obtain ⟨r', hr'⟩ := accessor.update_ended config now r hle
      obtain ⟨rfl, rfl⟩ := Prod.mk.inj (hr'.symm.trans h)
      exact .inr (.inr ⟨r, r', rfl, rfl, rfl⟩)

omit [LinearOrder τ] in
theorem setRecord_missing {record : Option ρ} {n : String}
    (h : (s.setRecord name record).store n = none) (hr : record ≠ none) :
    n ≠ name ∧ s.store n = none := by
  by_cases hn : n = name
  · subst hn
    exact absurd (by simpa [Provider.setRecord] using h) hr
  · exact ⟨hn, by simpa [Provider.setRecord, hn] using h⟩

theorem clearCache_true {r : LockRecordRegistry} {n : String} (h : r.clearCache name n = true) :
    n ≠ name ∧ r n = true := by
  by_cases hn : n = name
  · subst hn
    simp [LockRecordRegistry.clearCache] at h
  · exact ⟨hn, by simpa [LockRecordRegistry.clearCache, hn] using h⟩

theorem addRecord_true {r : LockRecordRegistry} {n : String} (h : r.addRecord name n = true) :
    r n = true ∨ name = n := by
  by_cases hn : n = name
  · exact .inr hn.symm
  · exact .inl (by simpa [LockRecordRegistry.addRecord, hn] using h)

omit [LinearOrder τ] in
theorem Covered.mono (h : Covered s S) (hmono : ∀ n, t.store n = none → Believed t n →
    s.store n = none ∧ Believed s n) : Covered t S := by
  intro n hn hb
  obtain ⟨hs, hbs⟩ := hmono n hn hb
  exact h n hs hbs

omit [LinearOrder τ] in
theorem believed_of_setRegistry {r : LockRecordRegistry} {n : String}
    (hr : r n = true → s.registry n = true) (h : Believed (s.setRegistry r) n) : Believed s n := by
  obtain ⟨store, registry, call⟩ := s
  rcases call with _ | ⟨config, _ | ok | _ | (message | ok)⟩
  · exact hr h
  · exact hr h
  · exact h.imp_left hr
  · exact h.imp_left hr
  · exact ⟨hr h.1, h.2⟩
  · exact hr h

/-- A deletion pays for at most one throw. -/
theorem covered_step (h : Step accessor s e t) (hS : Covered s S) : ∃ S', Covered t S' ∧
    e.isThrow.toNat + pending t + S'.card ≤ pending s + S.card + e.isDeletion.toNat := by
  cases h with
  | @lockCalled config hcall =>
    refine ⟨S, hS.mono fun n hn hb => ⟨hn, ?_⟩, ?_⟩
    · cases hr : s.registry config.name with
      | false =>
        simpa [Believed, Provider.setCall, hr, hcall,
          LockRecordRegistry.lockRecordRecentlyCreated] using hb
      | true =>
        have hbelieved : s.registry n = true ∨ config.name = n := by
          simpa [Believed, Provider.setCall, hr,
            LockRecordRegistry.lockRecordRecentlyCreated] using hb
        rcases hbelieved with hb | rfl <;> simpa [Believed, hcall]
    · cases hr : s.registry config.name <;>
        simp [Event.isThrow, Event.isDeletion, pending, Provider.setCall, hr, hcall,
          LockRecordRegistry.lockRecordRecentlyCreated]
  | @insertRuns config now record ok hcall hins =>
    refine ⟨S, hS.mono fun n hn hb => ?_, ?_⟩
    · obtain ⟨hne, hs⟩ := setRecord_missing hn (insertRecord_present hins)
      have hbelieved : s.registry n = true ∨ config.name = n := hb
      refine ⟨hs, ?_⟩
      simpa [Believed, hcall, hne.symm] using hbelieved
    · simp [Event.isThrow, Event.isDeletion, pending, Provider.setCall, hcall]
  | @insertGranted config hcall =>
    refine ⟨S, hS.mono fun n hn hb => ⟨hn, ?_⟩, ?_⟩
    · have hbelieved := addRecord_true (show s.registry.addRecord config.name n = true from hb)
      simpa [Believed, hcall] using hbelieved
    · simp [Event.isThrow, Event.isDeletion, pending, Provider.endCall, hcall]
  | @insertRefused config hcall =>
    refine ⟨S, hS.mono fun n hn hb => ⟨hn, ?_⟩, ?_⟩
    · have hbelieved : s.registry.addRecord config.name n = true ∨ config.name = n := hb
      rcases hbelieved with hb | rfl
      · simpa [Believed, hcall] using addRecord_true hb
      · simp [Believed, hcall]
    · simp [Event.isThrow, Event.isDeletion, pending, Provider.setCall, hcall]
  | @updateRuns config now record result hcall hupd =>
    rcases updateRecord_cases hupd with ⟨hold, rfl, message, rfl⟩ | ⟨r, -, -, rfl, rfl⟩ |
        ⟨-, r, -, rfl, rfl⟩
    · -- the missed record was believed in, and is no longer
      have hmem : config.name ∈ S := hS config.name hold (by simp [Believed, hcall])
      refine ⟨S.erase config.name, ?_, ?_⟩
      · intro n hn hb
        obtain ⟨hb, hne⟩ : s.registry n = true ∧ config.name ≠ n := hb
        have hs : s.store n = none := by
          simpa [Provider.setRecord, Provider.setCall, hne.symm] using hn
        exact Finset.mem_erase.mpr ⟨hne.symm, hS n hs (by simp [Believed, hcall, hb])⟩
      · have hcard := Finset.card_erase_add_one hmem
        simp [Event.isThrow, Event.isDeletion, pending, Provider.setCall, hcall]
        omega
    all_goals
      refine ⟨S, hS.mono fun n hn hb => ?_, ?_⟩
      · obtain ⟨-, hs⟩ := setRecord_missing hn (Option.some_ne_none r)
        have hbelieved : s.registry n = true := hb
        exact ⟨hs, by simp [Believed, hcall, hbelieved]⟩
      · simp [Event.isThrow, Event.isDeletion, pending, Provider.setCall, hcall]
  | @updateGranted config hcall =>
    refine ⟨S, hS.mono fun n hn hb => ⟨hn, ?_⟩, ?_⟩
    · simpa [Believed, hcall, Provider.endCall] using hb
    · simp [Event.isThrow, Event.isDeletion, pending, Provider.endCall, hcall]
  | @updateRefused config hcall =>
    refine ⟨S, hS.mono fun n hn hb => ⟨hn, ?_⟩, ?_⟩
    · simpa [Believed, hcall, Provider.endCall] using hb
    · simp [Event.isThrow, Event.isDeletion, pending, Provider.endCall, hcall]
  | @updateThrows config message hcall =>
    refine ⟨S, hS.mono fun n hn hb => ⟨hn, ?_⟩, ?_⟩
    · obtain ⟨hne, hr⟩ := clearCache_true (show s.registry.clearCache config.name n = true from hb)
      simp [Believed, hcall, hr, hne.symm]
    · simp [Event.isThrow, Event.isDeletion, pending, Provider.endCall, hcall]
  | @outsideWrites name record =>
    refine ⟨S, hS.mono fun n hn hb => ?_, ?_⟩
    · exact ⟨(setRecord_missing hn (Option.some_ne_none record)).2, hb⟩
    · exact Nat.le_of_eq (by simp [Event.isThrow, Event.isDeletion, pending, Provider.setRecord])
  | @outsideDeletes name record hstore =>
    refine ⟨insert name S, ?_, ?_⟩
    · intro n hn hb
      by_cases hne : n = name
      · simp [hne]
      · have hs : s.store n = none := by simpa [Provider.setRecord, hne] using hn
        exact Finset.mem_insert_of_mem (hS n hs hb)
    · have hcard := Finset.card_insert_le name S
      have hpending : pending (s.setRecord name none) = pending s := rfl
      simp only [Event.isThrow, Event.isDeletion, hpending, Bool.toNat_false, Bool.toNat_true]
      omega
  | @cacheCleared name =>
    refine ⟨S, hS.mono fun n hn hb => ⟨hn, ?_⟩, ?_⟩
    · exact believed_of_setRegistry (fun h => (clearCache_true h).2) hb
    · exact Nat.le_of_eq (by simp [Event.isThrow, Event.isDeletion, pending, Provider.setRegistry])

theorem throws_run {es : List (Event τ)} (h : (system accessor).Run s es t) (hS : Covered s S) :
    es.countP Event.isThrow + pending t ≤
      pending s + S.card + es.countP Event.isDeletion := by
  induction h generalizing S with
  | refl => simp
  | @step s u t e es hstep _ ih =>
    obtain ⟨S', hS', hcount⟩ := covered_step hstep hS
    have hrest := ih hS'
    cases hthrow : e.isThrow <;> cases hdel : e.isDeletion <;>
      simp [hthrow, hdel] at hcount ⊢ <;> omega

/-- A new provider believes in no record. -/
theorem throws_le_deletions {es : List (Event τ)} (hi : (system accessor).Initial s)
    (h : (system accessor).Run s es t) :
    es.countP Event.isThrow ≤ es.countP Event.isDeletion := by
  obtain ⟨hregistry, hcall⟩ := hi
  have hcovered : Covered s ∅ := by
    intro n _ hb
    simp [Believed, hcall, hregistry] at hb
  have hcount := throws_run h hcovered
  simp only [pending, hcall, Finset.card_empty] at hcount
  omega

end Count

section SelfHeal
variable {accessor : RecordAccessor τ ρ} {s t u : Provider τ ρ} {e : Event τ}
  {es : List (Event τ)} {config : LockConfiguration τ} {now : τ}

/-- The call is on its way to a granted insert. -/
def Acquiring (s : Provider τ ρ) (config : LockConfiguration τ) : Prop :=
  s.call = some ⟨config, .inserting⟩ ∧ s.store config.name = none ∨
    s.call = some ⟨config, .inserted true⟩

/-- Only another host can keep the call from its record. -/
theorem acquiring_step (h : Step accessor s e t) (hs : Acquiring s config) (he : ¬ e.Outside) :
    Acquiring t config ∧ ¬ e.Ends ∨ e = .acquires config := by
  rcases hs with ⟨hcall, hstore⟩ | hcall
  · cases h with
    | lockCalled hc => simp [hcall] at hc
    | @insertRuns config' now record ok hc hins =>
      obtain ⟨rfl, -⟩ := LockCall.mk.inj (Option.some.inj (hcall.symm.trans hc))
      obtain ⟨r, hr⟩ := accessor.insert_absent config now
      rw [hstore] at hins
      obtain ⟨-, rfl⟩ := Prod.mk.inj (hr.symm.trans hins)
      exact .inl ⟨.inr rfl, not_false⟩
    | insertGranted hc => simp [hcall] at hc
    | insertRefused hc => simp [hcall] at hc
    | updateRuns hc => simp [hcall] at hc
    | updateGranted hc => simp [hcall] at hc
    | updateRefused hc => simp [hcall] at hc
    | updateThrows hc => simp [hcall] at hc
    | outsideWrites => exact absurd trivial he
    | outsideDeletes => exact absurd trivial he
    | cacheCleared => exact .inl ⟨.inl ⟨hcall, hstore⟩, not_false⟩
  · cases h with
    | lockCalled hc => simp [hcall] at hc
    | insertRuns hc => simp [hcall] at hc
    | insertGranted hc =>
      obtain ⟨rfl, -⟩ := LockCall.mk.inj (Option.some.inj (hcall.symm.trans hc))
      exact .inr rfl
    | insertRefused hc => simp [hcall] at hc
    | updateRuns hc => simp [hcall] at hc
    | updateGranted hc => simp [hcall] at hc
    | updateRefused hc => simp [hcall] at hc
    | updateThrows hc => simp [hcall] at hc
    | outsideWrites => exact absurd trivial he
    | outsideDeletes => exact absurd trivial he
    | cacheCleared => exact .inl ⟨.inr hcall, not_false⟩

theorem acquiring_run (h : (system accessor).Run s (es ++ [e]) t) (hs : Acquiring s config)
    (hes : ∀ x ∈ es, ¬ x.Outside ∧ ¬ x.Ends) (he : ¬ e.Outside) (hends : e.Ends) :
    e = .acquires config := by
  induction es generalizing s with
  | nil =>
    cases h with
    | step hstep _ =>
      rcases acquiring_step hstep hs he with ⟨-, hnot⟩ | heq
      · exact absurd hends hnot
      · exact heq
  | cons x es ih =>
    obtain ⟨hout, hnot⟩ := hes x (by simp)
    cases h with
    | step hstep hrest =>
      rcases acquiring_step hstep hs hout with ⟨hu, -⟩ | rfl
      · exact ih hrest hu fun y hy => hes y (by simp [hy])
      · exact absurd trivial hnot

theorem missed_of_updateRuns {message : String} (h : Step accessor s (.updateRuns now) t)
    (ht : t.call = some ⟨config, .updated (.error message)⟩) : t.store config.name = none := by
  cases h with
  | @updateRuns config' now record result hcall hupd =>
    obtain ⟨rfl, hresult⟩ := LockCall.mk.inj (Option.some.inj ht)
    obtain rfl := LockPhase.updated.inj hresult
    rcases updateRecord_cases hupd with ⟨-, rfl, -⟩ | ⟨r, -, -, -, hr⟩ | ⟨r, r', -, -, hr⟩
    · exact update_self ..
    · simp at hr
    · simp at hr

/-- Neither the record nor the entry of the registry is there, and no call is about it. -/
structure Clear (name : String) (s : Provider τ ρ) : Prop where
  store : s.store name = none
  registry : s.registry name = false
  call : ∀ c, s.call = some c → c.config.name ≠ name

/-- The call has missed its record, which is still not there. -/
def Missing (s : Provider τ ρ) (config : LockConfiguration τ) : Prop :=
  s.store config.name = none ∧ ∃ message, s.call = some ⟨config, .updated (.error message)⟩

theorem missing_step (h : Step accessor s e t) (hs : Missing s config) (he : ¬ e.Outside)
    (hends : ¬ e.Ends) : Missing t config := by
  obtain ⟨hstore, message, hcall⟩ := hs
  cases h with
  | lockCalled hc | insertRuns hc | insertRefused hc | updateRuns hc => simp [hcall] at hc
  | insertGranted | updateGranted | updateRefused | updateThrows => exact absurd trivial hends
  | outsideWrites | outsideDeletes => exact absurd trivial he
  | cacheCleared => exact ⟨hstore, message, hcall⟩

theorem missing_run (h : (system accessor).Run s es t) (hs : Missing s config)
    (hes : ∀ x ∈ es, ¬ x.Outside ∧ ¬ x.Ends) : Missing t config := by
  induction h with
  | refl => exact hs
  | @step s u t e es hstep _ ih =>
    obtain ⟨hout, hends⟩ := hes e List.mem_cons_self
    exact ih (missing_step hstep hs hout hends) fun x hx => hes x (List.mem_cons_of_mem e hx)

theorem missing_of_updateRuns {message : String} (h : Step accessor s (.updateRuns now) t)
    (ht : t.call = some ⟨config, .updated (.error message)⟩) : Missing t config :=
  ⟨missed_of_updateRuns h ht, message, ht⟩

theorem clear_of_throws {message : String} (h : Step accessor s (.throws config message) t)
    (hs : Missing s config) : Clear config.name t := by
  cases h with
  | updateThrows => exact ⟨hs.1, update_self .., by simp [Provider.endCall]⟩

theorem clear_step {name : String} (h : Step accessor s e t) (hs : Clear name s)
    (he : ¬ e.Outside) (hcalled : ∀ c, e = .lockCalled c → c.name ≠ name) : Clear name t := by
  obtain ⟨hstore, hregistry, hcall⟩ := hs
  cases h with
  | @lockCalled config hc =>
    refine ⟨hstore, hregistry, ?_⟩
    rintro c ⟨⟩
    exact hcalled config rfl
  | @insertRuns config now record ok hc hins =>
    have hne := hcall _ hc
    refine ⟨(update_of_ne hne.symm ..).trans hstore, hregistry, ?_⟩
    rintro c ⟨⟩
    exact hne
  | insertGranted hc =>
    have hne := hcall _ hc
    exact ⟨hstore, (update_of_ne hne.symm ..).trans hregistry, by simp [Provider.endCall]⟩
  | insertRefused hc =>
    have hne := hcall _ hc
    refine ⟨hstore, (update_of_ne hne.symm ..).trans hregistry, ?_⟩
    rintro c ⟨⟩
    exact hne
  | updateRuns hc =>
    have hne := hcall _ hc
    refine ⟨(update_of_ne hne.symm ..).trans hstore, hregistry, ?_⟩
    rintro c ⟨⟩
    exact hne
  | updateGranted => exact ⟨hstore, hregistry, by simp [Provider.endCall]⟩
  | updateRefused => exact ⟨hstore, hregistry, by simp [Provider.endCall]⟩
  | updateThrows hc =>
    have hne := hcall _ hc
    exact ⟨hstore, (update_of_ne hne.symm ..).trans hregistry, by simp [Provider.endCall]⟩
  | outsideWrites => exact absurd trivial he
  | outsideDeletes => exact absurd trivial he
  | @cacheCleared cleared =>
    refine ⟨hstore, ?_, hcall⟩
    by_contra hr
    have := (clearCache_true (eq_true_of_ne_false hr)).2
    simp [hregistry] at this

theorem clear_run {name : String} (h : (system accessor).Run s es t) (hs : Clear name s)
    (hes : ∀ x ∈ es, ¬ x.Outside ∧ ∀ c, x = .lockCalled c → c.name ≠ name) : Clear name t := by
  induction h with
  | refl => exact hs
  | @step s u t e es hstep _ ih =>
    obtain ⟨hout, hcalled⟩ := hes e (by simp)
    exact ih (clear_step hstep hs hout hcalled) fun x hx => hes x (by simp [hx])

theorem acquiring_of_clear (h : Step accessor s (.lockCalled config) t)
    (hs : Clear config.name s) : Acquiring t config := by
  cases h with
  | lockCalled =>
    have hregistry : s.registry.lockRecordRecentlyCreated config.name = false := hs.registry
    exact .inl ⟨by simp [Provider.setCall, hregistry], hs.store⟩

theorem acquires_of_clear (now : τ) (h : Step accessor s (.lockCalled config) t)
    (hs : Clear config.name s) :
    ∃ w, (system accessor).Run t [.insertRuns now, .acquires config] w := by
  rcases acquiring_of_clear h hs with ⟨hcall, hstore⟩ | hcall
  · obtain ⟨r, hr⟩ := accessor.insert_absent config now
    rw [← hstore] at hr
    exact ⟨_, .step (.insertRuns hcall hr) (.single (.insertGranted rfl))⟩
  · cases h with
    | lockCalled =>
      have hregistry : s.registry.lockRecordRecentlyCreated config.name = false := hs.registry
      simp [Provider.setCall, hregistry] at hcall

/-- A refusal comes from an update of the same call that met a record still to end. -/
def RefusalSeen (accessor : RecordAccessor τ ρ) (config : LockConfiguration τ)
    (s : Provider τ ρ) : Prop :=
  ∃ u v now r es, (system accessor).Reachable u ∧ u.call = some ⟨config, .updating⟩ ∧
    u.store config.name = some r ∧ now < accessor.lockUntil r ∧
    Step accessor u (.updateRuns now) v ∧ (system accessor).Run v es s ∧
    ∀ e ∈ es, ¬ e.Ends ∧ ∀ c, e ≠ .lockCalled c

theorem RefusalSeen.step (h : RefusalSeen accessor config s) (hs : Step accessor s e t)
    (hends : ¬ e.Ends) (hcalled : ∀ c, e ≠ .lockCalled c) : RefusalSeen accessor config t := by
  obtain ⟨u, v, now, r, es, hu, hcall, hstore, hlt, hupd, hrun, hes⟩ := h
  refine ⟨u, v, now, r, es ++ [e], hu, hcall, hstore, hlt, hupd, hrun.append (.single hs), ?_⟩
  intro x hx
  rcases List.mem_append.mp hx with hx | hx
  · exact hes x hx
  · obtain rfl := List.mem_singleton.mp hx
    exact ⟨hends, hcalled⟩

theorem refusalSeen_reachable (h : (system accessor).Reachable s) :
    ∀ config, s.call = some ⟨config, .updated (.ok false)⟩ → RefusalSeen accessor config s := by
  refine h.invariant (P := fun s => ∀ config, s.call = some ⟨config, .updated (.ok false)⟩ →
    RefusalSeen accessor config s) ?_ ?_
  · rintro s ⟨-, hcall⟩ config hc
    simp [hcall] at hc
  · intro s e t hr hs ih config ht
    cases hs with
    | @lockCalled config' hcall =>
      simp only [Provider.setCall] at ht
      split at ht <;> simp at ht
    | insertRuns => simp [Provider.setCall] at ht
    | insertGranted => simp [Provider.endCall] at ht
    | insertRefused => simp [Provider.setCall] at ht
    | @updateRuns config' now record result hcall hupd =>
      obtain ⟨rfl, hresult⟩ := LockCall.mk.inj (Option.some.inj ht)
      obtain rfl := LockPhase.updated.inj hresult
      rcases updateRecord_cases hupd with ⟨-, -, message, hm⟩ | ⟨r, hold, hlt, -, -⟩ |
          ⟨r, r', -, -, hm⟩
      · simp at hm
      · exact ⟨s, _, now, r, [], hr, hcall, hold, hlt, .updateRuns hcall hupd, .refl, by simp⟩
      · simp at hm
    | updateGranted => simp [Provider.endCall] at ht
    | updateRefused => simp [Provider.endCall] at ht
    | updateThrows => simp [Provider.endCall] at ht
    | outsideWrites => exact (ih config ht).step .outsideWrites not_false (by simp)
    | outsideDeletes hstore =>
      exact (ih config ht).step (.outsideDeletes hstore) not_false (by simp)
    | cacheCleared => exact (ih config ht).step .cacheCleared not_false (by simp)

end SelfHeal

/-- Deletions pay for throws; the next `lock()` of the name after a throw, with no outside action
since the read that missed the record, can only acquire it; and a refusal has met a record that had
not ended. -/
theorem recovers_from_deletions (accessor : RecordAccessor τ ρ) :
    (∀ s es t, (system accessor).Initial s → (system accessor).Run s es t →
      es.countP Event.isThrow ≤ es.countP Event.isDeletion) ∧
    (∀ s r u v x t now later config error message config' waiting between,
      Step accessor s (.updateRuns now) r → r.call = some ⟨config, .updated (.error error)⟩ →
      (system accessor).Run r waiting u → (∀ e ∈ waiting, ¬ e.Outside ∧ ¬ e.Ends) →
      Step accessor u (.throws config message) v → (system accessor).Run v between x →
      (∀ e ∈ between, ¬ e.Outside ∧ ∀ c, e = .lockCalled c → c.name ≠ config.name) →
      config'.name = config.name → Step accessor x (.lockCalled config') t →
      (∃ w, (system accessor).Run t [.insertRuns later, .acquires config'] w) ∧
      ∀ es e w, (system accessor).Run t (es ++ [e]) w →
        (∀ y ∈ es, ¬ y.Outside ∧ ¬ y.Ends) → ¬ e.Outside → e.Ends → e = .acquires config') ∧
    ∀ s t config, (system accessor).Reachable s → Step accessor s (.skips config) t →
      RefusalSeen accessor config s := by
  refine ⟨fun s es t => throws_le_deletions, ?_, ?_⟩
  · intro s r u v x t now later config error message config' waiting between hupd hmissed hwait
      hwaiting hthrow hrun hbetween hname hlock
    have hmissing := missing_run hwait (missing_of_updateRuns hupd hmissed) hwaiting
    have hclear := clear_run hrun (clear_of_throws hthrow hmissing) hbetween
    rw [← hname] at hclear
    refine ⟨acquires_of_clear later hlock hclear, ?_⟩
    intro es e w hrest hes hout hends
    exact acquiring_run hrest (acquiring_of_clear hlock hclear) hes hout hends
  · intro s t config hs hskip
    cases hskip with
    | updateRefused hcall => exact refusalSeen_reachable hs config hcall

section Deleted

def reportLock (createdAt : ℤ) : LockConfiguration ℤ := ⟨"report", 60000, 0, createdAt⟩

/-- The document has been deleted behind the registry, and `lock()` is about to update it. -/
def deleted : Provider ℤ Document where
  store _ := none
  registry name := name = "report"
  call := some ⟨reportLock 5, .updating⟩

def missed : Provider ℤ Document :=
  (deleted.setRecord "report" none).setCall (reportLock 5)
    (.updated (.error ("Lock record not found: " ++ "report")))

def thrown : Provider ℤ Document :=
  (missed.setRegistry (missed.registry.clearCache "report")).endCall

/-- The `lock()` at 7 acquires the lock it could not find at 5. -/
theorem report_recovers : ∃ w, (system (firestoreStorageAccessor "host-a")).Run
    (thrown.setCall (reportLock 7) .inserting) [.insertRuns 7, .acquires (reportLock 7)] w := by
  have hupd : Step (firestoreStorageAccessor "host-a") deleted (.updateRuns 5) missed :=
    @Step.updateRuns _ _ _ _ _ (reportLock 5) 5 none (.error _) rfl rfl
  have hthrow : Step (firestoreStorageAccessor "host-a") missed
      (.throws (reportLock 5) ("Lock record not found: " ++ "report")) thrown := .updateThrows rfl
  have hlock : Step (firestoreStorageAccessor "host-a") thrown (.lockCalled (reportLock 7))
      (thrown.setCall (reportLock 7) .inserting) := .lockCalled rfl
  exact ((recovers_from_deletions (firestoreStorageAccessor "host-a")).2.1 deleted missed missed
    thrown thrown _ 5 7 (reportLock 5) _ _ (reportLock 7) [] [] hupd rfl .refl (by simp) hthrow
    .refl (by simp) rfl hlock).1

def fresh : Provider ℤ Document := ⟨fun _ => none, fun _ => false, none⟩

/-- The document is deleted behind the registry and missed by a read; another host makes it again
inside the same call, the call throws, and the next `lock()`, with no outside action in between, is
refused. -/
theorem next_lock_refused : (system (firestoreStorageAccessor "host-a")).Initial fresh ∧
    ∃ s, (system (firestoreStorageAccessor "host-a")).Run fresh
      [.lockCalled (reportLock 0), .insertRuns 0, .acquires (reportLock 0),
        .outsideDeletes "report", .lockCalled (reportLock 5), .updateRuns 5,
        .outsideWrites "report", .throws (reportLock 5) ("Lock record not found: " ++ "report"),
        .lockCalled (reportLock 7), .insertRuns 7, .insertRefused, .updateRuns 7,
        .skips (reportLock 7)] s := by
  let accessor := firestoreStorageAccessor "host-a"
  let made : Document := ⟨60005, 5, "host-b"⟩
  exact ⟨⟨fun _ => rfl, rfl⟩, _, .step (.lockCalled rfl) <|
    .step (@Step.insertRuns _ _ _ accessor _ (reportLock 0) 0
      (some (toData "host-a" (reportLock 0) 0)) true rfl rfl) <|
    .step (.insertGranted rfl) <| .step (.outsideDeletes rfl) <| .step (.lockCalled rfl) <|
    .step (@Step.updateRuns _ _ _ accessor _ (reportLock 5) 5 none (.error _) rfl rfl) <|
    .step (@Step.outsideWrites _ _ _ accessor _ "report" made) <| .step (.updateThrows rfl) <|
    .step (.lockCalled rfl) <|
    .step (@Step.insertRuns _ _ _ accessor _ (reportLock 7) 7 (some made) false rfl rfl) <|
    .step (.insertRefused rfl) <|
    .step (@Step.updateRuns _ _ _ accessor _ (reportLock 7) 7 (some made) (.ok false) rfl rfl) <|
    .single (.updateRefused rfl)⟩

end Deleted

end Tslock.Firestore
