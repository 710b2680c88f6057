import Tslock.Core.StorageAccessor
import Tslock.Sql.Statements

/-! The methods of `SqlStorageAccessor`; instants are bound as `Date`s. -/
namespace Tslock.Sql

variable {τ δ : Type*}

def Params.map (newDate : τ → δ) (p : Params τ) : Params δ where
  name := p.name
  lockUntil := newDate p.lockUntil
  now := newDate p.now
  lockedBy := p.lockedBy
  unlockTime := newDate p.unlockTime
  previousLockUntil := p.previousLockUntil.map newDate

section Accessor
variable [Add τ] [Max τ] (newDate : τ → δ) (lockedByValue : String)

def boundParams (config : LockConfiguration τ) (now : τ) (previousLockAtMostUntil : Option τ) :
    Params δ :=
  (params lockedByValue now now config previousLockAtMostUntil).map newDate

def insertRecord (config : LockConfiguration τ) (now : τ) (table : Table δ) :
    Table δ × AccessorReply :=
  let (table, result) := insertStatement (boundParams newDate lockedByValue config now none) table
  (table, .returned result.succeeded)

def updateRecord [LE δ] [DecidableLE δ] (config : LockConfiguration τ) (now : τ)
    (table : Table δ) : Table δ × AccessorReply :=
  let (table, result) := updateStatement (boundParams newDate lockedByValue config now none) table
  (table, .returned result.succeeded)

def unlock [DecidableEq δ] (config : LockConfiguration τ) (now : τ) (table : Table δ) :
    Table δ × AccessorReply :=
  let (table, _) := unlockStatement (boundParams newDate lockedByValue config now none) table
  (table, .done)

def extend [LT δ] [DecidableLT δ] [DecidableEq δ] (config : LockConfiguration τ)
    (previousLockAtMostUntil : Option τ) (now : τ) (table : Table δ) : Table δ × AccessorReply :=
  match previousLockAtMostUntil with
  | none => (table, .returned false)
  | some previous =>
    let (table, result) :=
      extendStatement (boundParams newDate lockedByValue config now (some previous)) table
    (table, .returned result.succeeded)

section Specs
variable [LE δ] [DecidableLE δ] {config : LockConfiguration τ} {table : Table δ} {row : Row δ}
  {now : τ}

theorem updateRecord_missing (now : τ) (h : table config.name = none) :
    updateRecord newDate lockedByValue config now table = (table, .returned false) := by
  simp [updateRecord, updateStatement, updateWhere, boundParams, Params.map, params, h,
    QueryOutcome.succeeded]

theorem updateRecord_refused (h : table config.name = some row)
    (hc : ¬ row.lockUntil ≤ newDate now) :
    updateRecord newDate lockedByValue config now table = (table, .returned false) := by
  simp [updateRecord, updateStatement, updateWhere, updateMatches, boundParams, Params.map, params,
    h, hc, QueryOutcome.succeeded]

theorem updateRecord_granted (h : table config.name = some row)
    (hc : row.lockUntil ≤ newDate now) :
    updateRecord newDate lockedByValue config now table =
      (Function.update table config.name
        (some ⟨newDate config.lockAtMostUntil, newDate now, lockedByValue⟩), .returned true) := by
  simp [updateRecord, updateStatement, updateWhere, updateMatches, boundParams, Params.map, params,
    h, hc, QueryOutcome.succeeded]

theorem updateRecord_granted_iff :
    (updateRecord newDate lockedByValue config now table).2.granted = true ↔
      ∃ row, table config.name = some row ∧ row.lockUntil ≤ newDate now := by
  cases hrow : table config.name with
  | none => simp [updateRecord_missing newDate lockedByValue now hrow, AccessorReply.granted]
  | some row =>
    by_cases hle : row.lockUntil ≤ newDate now
    · simp [updateRecord_granted newDate lockedByValue hrow hle, AccessorReply.granted, hle]
    · simp [updateRecord_refused newDate lockedByValue hrow hle, AccessorReply.granted, hle]

end Specs

end Accessor

def serve [Add τ] [Max τ] [LinearOrder δ] (newDate : τ → δ) (call : AccessorCall τ) :
    Table δ → Table δ × AccessorReply :=
  match call.method with
  | .insertRecord => insertRecord newDate call.lockedByValue call.config call.now
  | .updateRecord => updateRecord newDate call.lockedByValue call.config call.now
  | .unlock => unlock newDate call.lockedByValue call.config call.now
  | .extend previous => extend newDate call.lockedByValue call.config previous call.now

end Tslock.Sql
