import Mathlib.Data.List.Basic
import Tslock.Core.KeepAliveLock
import Tslock.Foundation.Runs
import Tslock.Sql.Statements

/-! A `KeepAliveLock` over a `StorageLock`: overlapping renewals, one `unlock()`, the clock and
other parties. A call of `extend` or `unlock`, its effect on the row and its response are separate
steps. -/
namespace Tslock.KeepAlive

open Function Foundation

/-- A `StorageLock` of the chain of handles this acquisition makes. -/
structure Handle where
  config : LockConfiguration ℚ
  valid : Bool
deriving DecidableEq

/-- An `extend` call a renewal waits for. `now` is the reading of the renewal and `boundAt` the
one bound as `:now`. -/
structure ExtendCall where
  extended : ℕ
  next : ℚ
  now : ℚ
  newConfig : LockConfiguration ℚ
  boundAt : ℚ
deriving DecidableEq

/-- Where a renewal tick stands; `retried` holds in its second attempt. The answer of `extend` is
the index of the successor. -/
inductive Renewal where
  | ready (retried : Bool)
  | called (retried : Bool) (call : ExtendCall)
  | answered (retried : Bool) (call : ExtendCall) (answer : Option ℕ)
  | rejected (retried : Bool)
deriving DecidableEq

/-- Where the one `unlock()` call stands. `readAt` is the clock reading of `unlockTime`; a skipped
store unlock reads no clock and keeps the time of the call. -/
inductive Unlocking where
  | idle
  | pending (handle : ℕ) (readAt : ℚ)
  | resolved (readAt : ℚ)
  | skipped (calledAt : ℚ)
  | rejected
deriving DecidableEq

/-- Who wrote the row last: a handle of this acquisition or somebody else. -/
inductive Writer where
  | own (handle : ℕ)
  | other
deriving DecidableEq

structure System where
  clock : ℚ
  row : Sql.Row ℚ
  writer : Writer
  handles : List Handle
  keepAlive : KeepAliveLock ℕ
  renewals : ℕ → Renewal
  unlocking : Unlocking
  failures : List KeepAliveFailure

inductive Event where
  | tick
  | attempt (i : ℕ) (readAt : ℚ)
  | effect (i : ℕ)
  | queryFails (i : ℕ)
  | response (i : ℕ)
  | responseLost (i : ℕ)
  | unlockCalled
  | unlockEffect
  | other
deriving DecidableEq

namespace System

def setRenewal (s : System) (i : ℕ) (r : Renewal) : System :=
  { s with renewals := update s.renewals i r }

/-- The configurations of the handles made so far. -/
def chain (s : System) : List (LockConfiguration ℚ) := s.handles.map (·.config)

/-- The stored record is a live lease of this acquisition. -/
def LiveOwn (s : System) : Prop := (∃ h, s.writer = .own h) ∧ s.clock < s.row.lockUntil

/-- No renewal is under way. -/
def Settled (s : System) : Prop := ∀ i, s.renewals i = .ready false

end System

variable (host : String)

/-- The parameters of the extend statement: the deadline of the extended handle goes along. -/
def ExtendCall.params (c : ExtendCall) (previous : LockConfiguration ℚ) : Sql.Params ℚ :=
  Sql.params host c.boundAt c.boundAt c.newConfig (some previous.lockAtMostUntil)

def unlockParams (config : LockConfiguration ℚ) (readAt : ℚ) : Sql.Params ℚ :=
  Sql.params host readAt readAt config none

/-- The row after the unlock statement of a handle. -/
def rowAfterUnlock (config : LockConfiguration ℚ) (readAt : ℚ) (row : Sql.Row ℚ) : Sql.Row ℚ :=
  if Sql.unlockMatches (unlockParams host config readAt) row then
    { row with lockUntil := config.unlockTime readAt } else row

/-- A timer callback starts the first attempt of a renewal, a rejection the second one. The
readings `c₁ ≤ c₂ ≤ c₃ ≤ c₄` are those of the deadline test, of `now`, of the successor's
`createdAt` and of `:now`. -/
inductive AttemptStep : System → ℕ → ℚ → System → Prop where
  | inactive {s : System} {i : ℕ} {r : Bool} {c₁ : ℚ} :
      s.renewals i = .ready r → s.clock ≤ c₁ → s.keepAlive.extendForNextPeriod c₁ = .inactive →
      AttemptStep s i c₁ { s.setRenewal i (.ready false) with clock := c₁ }
  | lost {s : System} {i : ℕ} {r : Bool} {c₁ : ℚ} :
      s.renewals i = .ready r → s.clock ≤ c₁ → s.keepAlive.extendForNextPeriod c₁ = .lost →
      AttemptStep s i c₁ { s.setRenewal i (.ready false) with
        clock := c₁
        keepAlive := s.keepAlive.markLost
        failures := s.failures ++ [.lost] }
  | calls {s : System} {i extended : ℕ} {r : Bool} {c₁ c₂ c₃ c₄ most next : ℚ} {h : Handle} :
      s.renewals i = .ready r → s.clock ≤ c₁ → c₁ ≤ c₂ → c₂ ≤ c₃ → c₃ ≤ c₄ →
      s.keepAlive.extendForNextPeriod c₁ = .call extended most next →
      s.handles[extended]? = some h → h.valid = true →
      AttemptStep s i c₁ { s.setRenewal i (.called r
        { extended, next, now := c₂, newConfig := h.config.successor most next c₃,
          boundAt := c₄ }) with clock := c₄ }
  | throws {s : System} {i extended : ℕ} {r : Bool} {c₁ c₂ most next : ℚ} {h : Handle} :
      s.renewals i = .ready r → s.clock ≤ c₁ → c₁ ≤ c₂ →
      s.keepAlive.extendForNextPeriod c₁ = .call extended most next →
      s.handles[extended]? = some h → h.valid = false →
      AttemptStep s i c₁ { s.setRenewal i (.rejected r) with clock := c₂ }

/-- The statement of `extend` runs. -/
inductive EffectStep : System → ℕ → System → Prop where
  | granted {s : System} {i : ℕ} {r : Bool} {call : ExtendCall} {h : Handle} :
      s.renewals i = .called r call → s.handles[call.extended]? = some h →
      Sql.extendMatches (call.params host h.config) s.row →
      EffectStep s i { s.setRenewal i (.answered r call (some s.handles.length)) with
        row := { s.row with lockUntil := call.newConfig.lockAtMostUntil }
        writer := .own s.handles.length
        handles := s.handles ++ [⟨call.newConfig, true⟩] }
  | refused {s : System} {i : ℕ} {r : Bool} {call : ExtendCall} {h : Handle} :
      s.renewals i = .called r call → s.handles[call.extended]? = some h →
      ¬ Sql.extendMatches (call.params host h.config) s.row →
      EffectStep s i (s.setRenewal i (.answered r call none))

/-- An `extend` that rejects: its query fails before it ran, or its response gets lost. -/
inductive FailureStep : System → Event → System → Prop where
  | query {s : System} {i : ℕ} {r : Bool} {call : ExtendCall} :
      s.renewals i = .called r call →
      FailureStep s (.queryFails i) (s.setRenewal i (.rejected r))
  | response {s : System} {i : ℕ} {r : Bool} {call : ExtendCall} {answer : Option ℕ} :
      s.renewals i = .answered r call answer →
      FailureStep s (.responseLost i) (s.setRenewal i (.rejected r))

/-- The response of `extend` and the continuation after it. A rejection is retried once. -/
inductive ResponseStep : System → ℕ → System → Prop where
  | extended {s : System} {i successor : ℕ} {r : Bool} {call : ExtendCall} {h : Handle} :
      s.renewals i = .answered r call (some successor) →
      s.handles[call.extended]? = some h →
      ResponseStep s i { s.setRenewal i (.ready false) with
        handles := s.handles.set call.extended { h with valid := false }
        keepAlive := (s.keepAlive.afterExtend call.extended call.next call.now
          (some successor)).1 }
  | refused {s : System} {i : ℕ} {r : Bool} {call : ExtendCall} :
      s.renewals i = .answered r call none →
      ResponseStep s i { s.setRenewal i (.ready false) with
        keepAlive := (s.keepAlive.afterExtend call.extended call.next call.now none).1
        failures := s.failures ++
          (if (s.keepAlive.afterExtend call.extended call.next call.now none).2
            then [.lost] else []) }
  | retried {s : System} {i : ℕ} :
      s.renewals i = .rejected false → ResponseStep s i (s.setRenewal i (.ready true))
  | gaveUp {s : System} {i : ℕ} :
      s.renewals i = .rejected true →
      ResponseStep s i { s.setRenewal i (.ready false) with
        keepAlive := s.keepAlive.deactivate
        failures := s.failures ++ [.firstError] }

/-- `unlock()` of the keep-alive handle. -/
inductive UnlockStep : System → Event → System → Prop where
  | skipped {s : System} :
      s.unlocking = .idle → s.keepAlive.doUnlock.2 = none →
      UnlockStep s .unlockCalled
        { s with keepAlive := s.keepAlive.doUnlock.1, unlocking := .skipped s.clock }
  | called {s : System} {current : ℕ} {h : Handle} :
      s.unlocking = .idle → s.keepAlive.doUnlock.2 = some current →
      s.handles[current]? = some h → h.valid = true →
      UnlockStep s .unlockCalled
        { s with
          keepAlive := s.keepAlive.doUnlock.1
          unlocking := .pending current s.clock }
  | throws {s : System} {current : ℕ} {h : Handle} :
      s.unlocking = .idle → s.keepAlive.doUnlock.2 = some current →
      s.handles[current]? = some h → h.valid = false →
      UnlockStep s .unlockCalled
        { s with keepAlive := s.keepAlive.doUnlock.1, unlocking := .rejected }
  | ran {s : System} {current : ℕ} {readAt : ℚ} {h : Handle} :
      s.unlocking = .pending current readAt → s.handles[current]? = some h →
      UnlockStep s .unlockEffect
        { s with row := rowAfterUnlock host h.config readAt s.row, unlocking := .resolved readAt }
  | fails {s : System} {current : ℕ} {readAt : ℚ} :
      s.unlocking = .pending current readAt →
      UnlockStep s .unlockEffect { s with unlocking := .rejected }

/-- Another party takes the row over once it has expired, and then writes it as it likes. -/
inductive OtherStep : System → System → Prop where
  | lock {s : System} {row : Sql.Row ℚ} {now : ℚ} :
      now ≤ s.clock → s.row.lockUntil ≤ now → OtherStep s { s with row, writer := .other }
  | write {s : System} {row : Sql.Row ℚ} :
      s.writer = .other → OtherStep s { s with row }

inductive Step : System → Event → System → Prop where
  | tick {s : System} {now : ℚ} : s.clock ≤ now → Step s .tick { s with clock := now }
  | attempt {s t : System} {i : ℕ} {c : ℚ} : AttemptStep s i c t → Step s (.attempt i c) t
  | effect {s t : System} {i : ℕ} : EffectStep host s i t → Step s (.effect i) t
  | failure {s t : System} {e : Event} : FailureStep s e t → Step s e t
  | response {s t : System} {i : ℕ} : ResponseStep s i t → Step s (.response i) t
  | unlock {s t : System} {e : Event} : UnlockStep host s e t → Step s e t
  | other {s t : System} : OtherStep s t → Step s .other t

/-- `KeepAliveLockProvider.lock` has just been granted `config`. -/
structure Started (config : LockConfiguration ℚ) (s : System) : Prop where
  longEnough : minLockAtMostFor ≤ config.lockAtMostFor
  durations : config.DurationsValid
  createdAt : config.createdAt ≤ s.clock
  rowUntil : s.row.lockUntil = config.lockAtMostUntil
  rowHost : s.row.lockedBy = host
  writer : s.writer = .own 0
  handles : s.handles = [⟨config, true⟩]
  keepAlive : s.keepAlive = .create 0 config
  renewals : s.Settled
  unlocking : s.unlocking = .idle
  failures : s.failures = []

def system (config : LockConfiguration ℚ) : TransitionSystem System Event where
  Initial := Started host config
  Step := Step host

/-- What a step that is no write leaves alone. -/
structure SameLease (s t : System) : Prop where
  row : t.row = s.row
  writer : t.writer = s.writer
  chain : t.chain = s.chain
  unlocking : t.unlocking = s.unlocking

variable {host} {s t : System} {e : Event} {i : ℕ} {config : LockConfiguration ℚ}

@[grind =] theorem setRenewal_renewals {r : Renewal} {j : ℕ} :
    (s.setRenewal i r).renewals j = if j = i then r else s.renewals j :=
  update_apply _ _ _ _

theorem chain_getElem? {h : Handle} (hh : s.handles[i]? = some h) :
    s.chain[i]? = some h.config := by
  simp [System.chain, hh]

/-- A handle that becomes invalid keeps its place in the chain. -/
theorem chain_set {h : Handle} (hh : s.handles[i]? = some h) :
    (s.handles.set i { h with valid := false }).map (·.config) = s.chain := by
  obtain ⟨hlt, hget⟩ := List.getElem?_eq_some_iff.mp (chain_getElem? hh)
  rw [List.map_set, ← hget]
  exact List.set_getElem_self hlt

/-- The two row effects are those of the SQL statements on the row of the lock. -/
theorem unlockStatement_row {table : Sql.Table ℚ} {u : ℚ} {row : Sql.Row ℚ}
    (hrow : table config.name = some row) :
    (Sql.unlockStatement (unlockParams host config u) table).1 config.name =
      some (rowAfterUnlock host config u row) := by
  have hname : (unlockParams host config u).name = config.name := rfl
  unfold Sql.unlockStatement Sql.updateWhere rowAfterUnlock
  rw [hname, hrow]
  by_cases hm : Sql.unlockMatches (unlockParams host config u) row
  · simp only [hm, if_true]
    rw [update_self]
    rfl
  · simp [hm, hrow]

theorem extendStatement_row {table : Sql.Table ℚ} {call : ExtendCall} {row : Sql.Row ℚ}
    (hrow : table call.newConfig.name = some row)
    (hm : Sql.extendMatches (call.params host config) row) :
    (Sql.extendStatement (call.params host config) table).1 call.newConfig.name =
      some { row with lockUntil := call.newConfig.lockAtMostUntil } := by
  have hname : (call.params host config).name = call.newConfig.name := rfl
  unfold Sql.extendStatement Sql.updateWhere
  rw [hname, hrow]
  simp only [hm, if_true]
  rw [update_self]
  rfl

theorem attempt_sameLease {c : ℚ} (hs : AttemptStep s i c t) : SameLease s t := by
  cases hs <;> exact ⟨rfl, rfl, rfl, rfl⟩

theorem response_sameLease (hs : ResponseStep s i t) : SameLease s t := by
  cases hs with
  | extended _ hh => exact ⟨rfl, rfl, chain_set hh, rfl⟩
  | _ => exact ⟨rfl, rfl, rfl, rfl⟩

theorem failure_sameLease (hs : FailureStep s e t) : SameLease s t := by
  cases hs <;> exact ⟨rfl, rfl, rfl, rfl⟩

/-- The statement of `extend` either matches the row or leaves the lease as it is. -/
theorem effect_cases (hs : EffectStep host s i t) : SameLease s t ∨
    ∃ r call c, s.renewals i = .called r call ∧ s.chain[call.extended]? = some c ∧
      Sql.extendMatches (call.params host c) s.row ∧
      t.row = { s.row with lockUntil := call.newConfig.lockAtMostUntil } ∧
      t.writer = .own s.handles.length ∧ t.chain = s.chain ++ [call.newConfig] ∧
      t.unlocking = s.unlocking := by
  cases hs with
  | granted hc hh hm =>
    exact .inr ⟨_, _, _, hc, chain_getElem? hh, hm, rfl, rfl, by simp [System.chain], rfl⟩
  | refused => exact .inl ⟨rfl, rfl, rfl, rfl⟩

end Tslock.KeepAlive
