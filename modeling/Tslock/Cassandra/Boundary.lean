import Mathlib.Algebra.Order.Ring.Int
import Tslock.Cassandra.CassandraStorageAccessor
import Tslock.Sql.SqlStorageAccessor

/-! Cassandra's `lockUntil < now` beside SQL's `lockUntil <= now`: where the grants part. -/
namespace Tslock.Cassandra

open Sql (Row Table)

variable {τ δ : Type*}

/-- No update meets a row that ends just now. -/
def OffBoundary (newDate : τ → δ) (call : AccessorCall τ) (table : Table δ) : Prop :=
  call.method = .updateRecord →
    ∀ row, table call.config.name = some row → row.lockUntil ≠ newDate call.now

/-- The rows are those of the SQL back end before each call. -/
def BoundaryFree [Add τ] [LinearOrder τ] [LinearOrder δ] (newDate : τ → δ) :
    List (AccessorCall τ) → Table δ → Prop
  | [], _ => True
  | call :: calls, table =>
    OffBoundary newDate call table ∧ BoundaryFree newDate calls (Sql.serve newDate call table).1

/-- A transaction and an `UPDATE` whose conditions agree on the stored row do the same. -/
theorem updateIf_agrees (columnNames : ResolvedColumnNames) (table : Table δ) (name : String)
    (condition matched : Row δ → Prop) [DecidablePred condition] [DecidablePred matched]
    (set : Row δ → Row δ)
    (h : ∀ row, table name = some row → (condition row ↔ matched row)) :
    (updateIf columnNames name condition set table).1 = (Sql.updateWhere name matched set table).1 ∧
      isApplied (updateIf columnNames name condition set table).2 =
        (Sql.updateWhere name matched set table).2.succeeded := by
  cases hrow : table name with
  | none => simp [updateIf, Sql.updateWhere, hrow, Sql.QueryOutcome.succeeded]
  | some row =>
    have hiff := h row hrow
    by_cases hm : matched row
    · simp [updateIf, Sql.updateWhere, hrow, hiff.mpr hm, hm, Sql.QueryOutcome.succeeded]
    · have hc : ¬ condition row := fun hc => hm (hiff.mp hc)
      simp [updateIf, Sql.updateWhere, hrow, hc, hm, Sql.QueryOutcome.succeeded]

variable [Add τ] [LinearOrder τ] [LinearOrder δ] {newDate : τ → δ}
  {columnNames : ResolvedColumnNames} {call : AccessorCall τ} {table : Table δ}

/-- Apart from the update the two back ends run the same statements. -/
theorem serve_eq_of_ne_update (h : call.method ≠ .updateRecord) :
    serve newDate columnNames call table = Sql.serve newDate call table := by
  obtain ⟨method, lockedByValue, config, now⟩ := call
  cases method with
  | updateRecord => exact absurd rfl h
  | insertRecord =>
    cases hrow : table config.name <;>
      simp [serve, Sql.serve, insertRecord, Sql.insertRecord, insertIfNotExists,
        Sql.insertStatement, Sql.boundParams, Sql.Params.map, Sql.params, hrow,
        Sql.QueryOutcome.succeeded]
  | unlock =>
    have hagree := updateIf_agrees columnNames table config.name
      (unlockCondition lockedByValue (newDate config.lockAtMostUntil))
      (Sql.unlockMatches (Sql.boundParams newDate lockedByValue config now none))
      (fun row => { row with lockUntil := newDate (config.unlockTime now) })
      (fun row _ => Iff.rfl)
    exact Prod.ext hagree.1 rfl
  | extend previous =>
    cases previous with
    | none => rfl
    | some previous =>
      have hagree := updateIf_agrees columnNames table config.name
        (extendCondition lockedByValue (newDate previous) (newDate now))
        (Sql.extendMatches (Sql.boundParams newDate lockedByValue config now (some previous)))
        (fun row => { row with lockUntil := newDate config.lockAtMostUntil })
        (fun row _ => by
          simp only [extendCondition, Sql.extendMatches, Sql.boundParams, Sql.Params.map,
            Sql.params, Option.map_some, Option.some.injEq]
          tauto)
      exact Prod.ext hagree.1 (congrArg AccessorReply.returned hagree.2)

/-- Where the stored deadline stands to the clock decides both updates. -/
theorem update_cases (columnNames : ResolvedColumnNames) (newDate : τ → δ) (lockedByValue : String)
    (config : LockConfiguration τ) (now : τ) (table : Table δ) :
    let c := updateRecord newDate ⟨columnNames, lockedByValue⟩ config now now table
    let q := Sql.updateRecord newDate lockedByValue config now table
    (table config.name = none ∧ q = (table, .returned false) ∧
      c = (table, .threw ("Lock record not found: " ++ config.name))) ∨
    ∃ row, table config.name = some row ∧
      (row.lockUntil < newDate now ∧ q.2 = .returned true ∧ c = q ∨
        row.lockUntil = newDate now ∧ q.2 = .returned true ∧ c = (table, .returned false) ∨
        newDate now < row.lockUntil ∧ q = (table, .returned false) ∧ c = q) := by
  intro c q
  cases hrow : table config.name with
  | none =>
    left
    exact ⟨rfl, Sql.updateRecord_missing newDate lockedByValue now hrow,
      updateRecord_missing newDate ⟨columnNames, lockedByValue⟩ now now hrow⟩
  | some row =>
    right
    refine ⟨row, rfl, ?_⟩
    rcases lt_trichotomy row.lockUntil (newDate now) with hlt | heq | hgt
    · have hq := Sql.updateRecord_granted newDate lockedByValue hrow hlt.le
      have hc := updateRecord_granted newDate ⟨columnNames, lockedByValue⟩ now hrow hlt
      exact .inl ⟨hlt, congrArg Prod.snd hq, hc.trans hq.symm⟩
    · have hq := Sql.updateRecord_granted newDate lockedByValue hrow heq.le
      have hc := updateRecord_refused newDate ⟨columnNames, lockedByValue⟩ now hrow heq.not_lt
      exact .inr (.inl ⟨heq, congrArg Prod.snd hq, hc⟩)
    · have hq := Sql.updateRecord_refused newDate lockedByValue hrow hgt.not_ge
      have hc := updateRecord_refused newDate ⟨columnNames, lockedByValue⟩ now hrow hgt.not_gt
      exact .inr (.inr ⟨hgt, hq, hc.trans hq.symm⟩)

section Update
variable (columnNames) {lockedByValue : String} {config : LockConfiguration τ} {now : τ}

theorem update_granted_iff :
    (updateRecord newDate ⟨columnNames, lockedByValue⟩ config now now table).2.granted = true ↔
      ∃ row, table config.name = some row ∧ row.lockUntil < newDate now := by
  rcases update_cases columnNames newDate lockedByValue config now table with
    ⟨hrow, -, hc⟩ | ⟨row, hrow, ⟨hlt, hq, hc⟩ | ⟨heq, -, hc⟩ | ⟨hgt, hq, hc⟩⟩
  · simp [hc, hrow, AccessorReply.granted]
  · simp [hc, hq, hrow, hlt, AccessorReply.granted]
  · simp [hc, hrow, heq, AccessorReply.granted]
  · simp [hc, hq, hrow, hgt.le, AccessorReply.granted]

/-- Only a missing row makes the update throw. -/
theorem update_threw_iff :
    (∃ message, (updateRecord newDate ⟨columnNames, lockedByValue⟩ config now now table).2 =
      .threw message) ↔ table config.name = none := by
  rcases update_cases columnNames newDate lockedByValue config now table with
    ⟨hrow, -, hc⟩ | ⟨row, hrow, ⟨-, hq, hc⟩ | ⟨-, -, hc⟩ | ⟨-, hq, hc⟩⟩
  · simp [hc, hrow]
  · simp [hc, hq, hrow]
  · simp [hc, hrow]
  · simp [hc, hq, hrow]

end Update

variable (columnNames)

/-- Off the boundary one call does the same to both back ends. -/
theorem serve_agrees (h : OffBoundary newDate call table) :
    (serve newDate columnNames call table).1 = (Sql.serve newDate call table).1 ∧
      (serve newDate columnNames call table).2.granted =
        (Sql.serve newDate call table).2.granted := by
  by_cases hm : call.method = .updateRecord
  · obtain ⟨method, lockedByValue, config, now⟩ := call
    subst hm
    rcases update_cases columnNames newDate lockedByValue config now table with
      ⟨-, hq, hc⟩ | ⟨row, hrow, ⟨-, -, hc⟩ | ⟨heq, -, -⟩ | ⟨-, -, hc⟩⟩
    · simp [serve, Sql.serve, hq, hc, AccessorReply.granted]
    · simp [serve, Sql.serve, hc]
    · exact absurd heq (h rfl row hrow)
    · simp [serve, Sql.serve, hc]
  · rw [serve_eq_of_ne_update hm]
    exact ⟨rfl, rfl⟩

/-- On the boundary SQL grants what Cassandra refuses. -/
theorem serve_disagrees (h : ¬ OffBoundary newDate call table) :
    (serve newDate columnNames call table).2.granted = false ∧
      (Sql.serve newDate call table).2.granted = true := by
  obtain ⟨method, lockedByValue, config, now⟩ := call
  simp only [OffBoundary, ne_eq, not_forall, not_not] at h
  obtain ⟨rfl, row, hrow, heq⟩ := h
  rcases update_cases columnNames newDate lockedByValue config now table with
    ⟨hnone, -⟩ | ⟨row', hrow', hcases⟩
  · simp [hrow] at hnone
  · obtain rfl : row = row' := Option.some.inj (hrow.symm.trans hrow')
    rcases hcases with ⟨hlt, -⟩ | ⟨-, hq, hc⟩ | ⟨hgt, -⟩
    · exact absurd heq hlt.ne
    · simp [serve, Sql.serve, hq, hc, AccessorReply.granted]
    · exact absurd heq hgt.ne'

/-- The grants of a run agree exactly when no update of it meets the boundary. -/
theorem grants_eq_iff {calls : List (AccessorCall τ)} :
    grants (serve newDate columnNames) calls table = grants (Sql.serve newDate) calls table ↔
      BoundaryFree newDate calls table := by
  induction calls generalizing table with
  | nil => simp [grants, BoundaryFree]
  | cons call calls ih =>
    by_cases h : OffBoundary newDate call table
    · obtain ⟨htable, hgranted⟩ := serve_agrees columnNames h
      simp [grants, BoundaryFree, htable, hgranted, ih, h]
    · obtain ⟨hc, hq⟩ := serve_disagrees columnNames h
      simp [grants, BoundaryFree, hc, hq, h]

/-- A release whose minimum hold is over leaves a row that ends at the release. -/
theorem unlock_released {lockedByValue : String} {config : LockConfiguration τ} {now : τ}
    {row : Row δ} (hrow : table config.name = some row) (hby : row.lockedBy = lockedByValue)
    (huntil : row.lockUntil = newDate config.lockAtMostUntil)
    (hleast : config.lockAtLeastUntil ≤ now) :
    unlock newDate ⟨columnNames, lockedByValue⟩ config now table =
      (Function.update table config.name (some { row with lockUntil := newDate now }), .done) := by
  have htime : config.unlockTime now = now := max_eq_left hleast
  simp [unlock, updateIf, hrow, unlockCondition, hby, huntil, htime]

/-- Cassandra decides as SQL on every row but one that ends at the clock reading; the grants of
two runs agree as long as no update meets such a row; a row released at `u` waits for a later
clock reading. -/
theorem acquires_as_sql_iff (columnNames : ResolvedColumnNames) (newDate : τ → δ) :
    (∀ (lockedByValue : String) (config : LockConfiguration τ) (now : τ) (table : Table δ),
      (((updateRecord newDate ⟨columnNames, lockedByValue⟩ config now now table).2.granted = true ↔
          ∃ row, table config.name = some row ∧ row.lockUntil ≤ newDate now) ↔
        ∀ row, table config.name = some row → row.lockUntil ≠ newDate now) ∧
      ((Sql.updateRecord newDate lockedByValue config now table).2.granted = true ↔
        ∃ row, table config.name = some row ∧ row.lockUntil ≤ newDate now) ∧
      ((∃ message, (updateRecord newDate ⟨columnNames, lockedByValue⟩ config now now table).2 =
        .threw message) ↔ table config.name = none)) ∧
    (∀ (calls : List (AccessorCall τ)) (table : Table δ),
      grants (serve newDate columnNames) calls table = grants (Sql.serve newDate) calls table ↔
        BoundaryFree newDate calls table) ∧
    ∀ (owner next : String) (held config : LockConfiguration τ) (u v : τ) (table : Table δ)
      (row : Row δ), table held.name = some row → row.lockedBy = owner →
      row.lockUntil = newDate held.lockAtMostUntil → held.lockAtLeastUntil ≤ u →
      config.name = held.name →
      ((updateRecord newDate ⟨columnNames, next⟩ config v v
        (unlock newDate ⟨columnNames, owner⟩ held u table).1).2.granted = true ↔
          newDate u < newDate v) := by
  refine ⟨?_, fun calls table => grants_eq_iff columnNames, ?_⟩
  · intro lockedByValue config now table
    refine ⟨?_, Sql.updateRecord_granted_iff newDate lockedByValue, update_threw_iff columnNames⟩
    rw [update_granted_iff]
    constructor
    · intro hiff row hrow heq
      obtain ⟨row', hrow', hlt⟩ := hiff.mpr ⟨row, hrow, heq.le⟩
      obtain rfl : row = row' := Option.some.inj (hrow.symm.trans hrow')
      exact hlt.ne heq
    · intro hne
      constructor
      · rintro ⟨row, hrow, hlt⟩
        exact ⟨row, hrow, hlt.le⟩
      · rintro ⟨row, hrow, hle⟩
        exact ⟨row, hrow, lt_of_le_of_ne hle (hne row hrow)⟩
  · intro owner next held config u v table row hrow hby huntil hleast hname
    rw [unlock_released columnNames hrow hby huntil hleast, update_granted_iff, hname]
    simp

/-- Columns of `DEFAULT_COLUMN_NAMES`. -/
def defaultColumnNames : ResolvedColumnNames where
  lockUntil := "lock_until"
  lockedBy := "locked_by"
  validated := by
    have hall : "lock_until".toList.all (fun c => c.isAlphanum || c == '_') = true := by
      decide +kernel
    intro c hc
    simpa [IdentifierChar] using List.all_eq_true.mp hall c hc

def minuteLock (createdAt : ℤ) : LockConfiguration ℤ := ⟨"report", 60000, 0, createdAt⟩

/-- Insert at 0, unlock at 5, update at 5. -/
def releasedThenLocked : List (AccessorCall ℤ) :=
  [⟨.insertRecord, "host-a", minuteLock 0, 0⟩, ⟨.unlock, "host-a", minuteLock 0, 5⟩,
    ⟨.updateRecord, "host-b", minuteLock 5, 5⟩]

/-- SQL grants the third call, Cassandra refuses it. -/
theorem release_refused_at_once :
    grants (serve id defaultColumnNames) releasedThenLocked (fun _ => none) =
      [true, false, false] ∧
    grants (Sql.serve id) releasedThenLocked (fun _ => none) = [true, false, true] ∧
    ¬ ∀ (calls : List (AccessorCall ℤ)) (table : Table ℤ),
      grants (serve id defaultColumnNames) calls table = grants (Sql.serve id) calls table := by
  have hcassandra : grants (serve id defaultColumnNames) releasedThenLocked (fun _ => none) =
      [true, false, false] := by decide +kernel
  have hsql : grants (Sql.serve id) releasedThenLocked (fun _ => none) = [true, false, true] := by
    decide +kernel
  refine ⟨hcassandra, hsql, fun h => ?_⟩
  have heq := h releasedThenLocked (fun _ => none)
  rw [hcassandra, hsql] at heq
  exact absurd heq (by decide)

end Tslock.Cassandra
