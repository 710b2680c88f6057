import Mathlib.Data.String.Basic
import Tslock.Core.StorageAccessor
import Tslock.Sql.Statements

/-! The conditional statements of `cassandra-cql.ts` as lightweight transactions, and what
`CassandraStorageAccessor` makes of the row they return. -/
namespace Tslock.Cassandra

open Sql (Row Table)

variable {τ δ : Type*}

/-- `validateIdentifier`: `/^[A-Za-z_][A-Za-z0-9_]*$/` -/
def IdentifierChar (c : Char) : Prop := c.isAlphanum ∨ c = '_'

/-- The columns a reply is read by. -/
structure ResolvedColumnNames where
  lockUntil : String
  lockedBy : String
  validated : ∀ c ∈ lockUntil.toList, IdentifierChar c

structure ResolvedCassandraOptions where
  columnNames : ResolvedColumnNames
  lockedByValue : String

/-- A value of a returned row. -/
inductive Cell (δ : Type*) where
  | bool (b : Bool)
  | text (s : String)
  | timestamp (t : δ)
deriving DecidableEq, Repr

/-- `row[name]` and `row.get(name)` read the same cell. -/
abbrev LockRow (δ : Type*) := List (String × Cell δ)

def applied (b : Bool) : String × Cell δ := ("[applied]", .bool b)

def cell (row : LockRow δ) (name : String) : Option (Cell δ) := row.lookup name

/-- `row?.['[applied]'] === true` -/
def isApplied (row : LockRow δ) : Bool :=
  match cell row "[applied]" with
  | some (.bool b) => b
  | _ => false

/-- The configured spelling first, then the folded one, then any key that folds to it. -/
def readLockUntil (row : LockRow δ) (column : String) : Option (Cell δ) :=
  let folded := column.toLower
  let names := if folded = column then [column] else [column, folded]
  (names.findSome? (cell row)).or
    ((row.map Prod.fst).findSome? fun key => if key.toLower = folded then cell row key else none)

/-- What a transaction answers about a row whose condition failed: the columns named in the
condition, under their folded names. -/
def conditionColumns (columnNames : ResolvedColumnNames) (row : Row δ) : LockRow δ :=
  [(columnNames.lockUntil.toLower, .timestamp row.lockUntil)]

/-- `INSERT … IF NOT EXISTS` -/
def insertIfNotExists (name : String) (row : Row δ) (table : Table δ) : Table δ × LockRow δ :=
  match table name with
  | some _ => (table, [applied false])
  | none => (Function.update table name (some row), [applied true])

/-- `UPDATE … SET … WHERE name = ? IF …`: no condition holds of a missing row. -/
def updateIf (columnNames : ResolvedColumnNames) (name : String) (condition : Row δ → Prop)
    [DecidablePred condition] (set : Row δ → Row δ) (table : Table δ) : Table δ × LockRow δ :=
  match table name with
  | some row =>
    if condition row then (Function.update table name (some (set row)), [applied true])
    else (table, applied false :: conditionColumns columnNames row)
  | none => (table, [applied false])

/-- `IF lockUntil < ?` -/
def updateCondition [LT δ] (now : δ) (row : Row δ) : Prop := row.lockUntil < now

/-- `IF lockedBy = ? AND lockUntil = ?` -/
def unlockCondition (lockedBy : String) (lockUntil : δ) (row : Row δ) : Prop :=
  row.lockedBy = lockedBy ∧ row.lockUntil = lockUntil

/-- `IF lockedBy = ? AND lockUntil = ? AND lockUntil > ?` -/
def extendCondition [LT δ] (lockedBy : String) (previous now : δ) (row : Row δ) : Prop :=
  row.lockedBy = lockedBy ∧ row.lockUntil = previous ∧ now < row.lockUntil

instance [LT δ] [DecidableLT δ] (now : δ) : DecidablePred (updateCondition now) :=
  fun row => inferInstanceAs (Decidable (row.lockUntil < now))

instance [DecidableEq δ] (lockedBy : String) (lockUntil : δ) :
    DecidablePred (unlockCondition lockedBy lockUntil) :=
  fun _ => inferInstanceAs (Decidable (_ ∧ _))

instance [LT δ] [DecidableLT δ] [DecidableEq δ] (lockedBy : String) (previous now : δ) :
    DecidablePred (extendCondition lockedBy previous now) :=
  fun _ => inferInstanceAs (Decidable (_ ∧ _ ∧ _))

section Accessor
variable (newDate : τ → δ)

def insertRecord [Add τ] (opts : ResolvedCassandraOptions) (config : LockConfiguration τ)
    (now : τ) (table : Table δ) : Table δ × AccessorReply :=
  let (table, row) := insertIfNotExists config.name
    { lockUntil := newDate config.lockAtMostUntil, lockedAt := newDate now,
      lockedBy := opts.lockedByValue } table
  (table, .returned (isApplied row))

/-- The clock is read for the condition and again for `lockedAt`. -/
def updateRecord [Add τ] [LT δ] [DecidableLT δ] (opts : ResolvedCassandraOptions)
    (config : LockConfiguration τ) (now lockedAt : τ) (table : Table δ) : Table δ × AccessorReply :=
  let (table, row) := updateIf opts.columnNames config.name (updateCondition (newDate now))
    (fun _ => { lockUntil := newDate config.lockAtMostUntil, lockedAt := newDate lockedAt,
                lockedBy := opts.lockedByValue }) table
  if isApplied row then (table, .returned true)
  else if (readLockUntil row opts.columnNames.lockUntil).isSome then (table, .returned false)
  else (table, .threw ("Lock record not found: " ++ config.name))

def unlock [Add τ] [Max τ] [DecidableEq δ] (opts : ResolvedCassandraOptions)
    (config : LockConfiguration τ) (now : τ) (table : Table δ) : Table δ × AccessorReply :=
  let (table, _) := updateIf opts.columnNames config.name
    (unlockCondition opts.lockedByValue (newDate config.lockAtMostUntil))
    (fun row => { row with lockUntil := newDate (config.unlockTime now) }) table
  (table, .done)

def extend [Add τ] [LT δ] [DecidableLT δ] [DecidableEq δ] (opts : ResolvedCassandraOptions)
    (config : LockConfiguration τ) (previousLockAtMostUntil : Option τ) (now : τ)
    (table : Table δ) : Table δ × AccessorReply :=
  match previousLockAtMostUntil with
  | none => (table, .returned false)
  | some previous =>
    let (table, row) := updateIf opts.columnNames config.name
      (extendCondition opts.lockedByValue (newDate previous) (newDate now))
      (fun row => { row with lockUntil := newDate config.lockAtMostUntil }) table
    (table, .returned (isApplied row))

def serve [Add τ] [Max τ] [LinearOrder δ] (columnNames : ResolvedColumnNames)
    (call : AccessorCall τ) : Table δ → Table δ × AccessorReply :=
  let opts : ResolvedCassandraOptions := ⟨columnNames, call.lockedByValue⟩
  match call.method with
  | .insertRecord => insertRecord newDate opts call.config call.now
  | .updateRecord => updateRecord newDate opts call.config call.now call.now
  | .unlock => unlock newDate opts call.config call.now
  | .extend previous => extend newDate opts call.config previous call.now

end Accessor

@[simp] theorem isApplied_cons (b : Bool) (row : LockRow δ) :
    isApplied (applied b :: row) = b := by
  simp [isApplied, cell, applied]

theorem cell_self (name : String) (c : Cell δ) (row : LockRow δ) :
    cell ((name, c) :: row) name = some c := by
  simp [cell]

theorem cell_of_ne {name key : String} {c : Cell δ} {row : LockRow δ} (h : name ≠ key) :
    cell ((key, c) :: row) name = cell row name := by
  have hbeq : (name == key) = false := beq_false_of_ne h
  simp [cell, List.lookup_cons, hbeq]

theorem toLower_ne_bracket {c : Char} (h : IdentifierChar c) : c.toLower ≠ '[' := by
  intro heq
  unfold Char.toLower at heq
  split at heq
  case isTrue hu =>
    have hv : c.val + ('a'.val - 'A'.val) = '['.val := congrArg Char.val heq
    have hlow : 65 ≤ c.val.toNat := hu.1
    have hhigh : c.val.toNat ≤ 90 := hu.2
    have hsum : (c.val.toNat + 32) % 2 ^ 32 = 91 := by
      have := congrArg UInt32.toNat hv
      rwa [UInt32.toNat_add] at this
    omega
  case isFalse hu =>
    subst heq
    unfold IdentifierChar at h
    revert h
    decide

variable (columnNames : ResolvedColumnNames)

/-- A folded identifier has no bracket. -/
theorem toLower_ne_applied : columnNames.lockUntil.toLower ≠ "[applied]" := by
  intro h
  have hlist : columnNames.lockUntil.toList.map Char.toLower = "[applied]".toList := by
    have hmap : columnNames.lockUntil.toLower = columnNames.lockUntil.map Char.toLower := rfl
    rw [← h, hmap, String.toList_map]
  have hmem : '[' ∈ columnNames.lockUntil.toList.map Char.toLower := by
    rw [hlist]
    decide
  obtain ⟨c, hc, hlower⟩ := List.mem_map.mp hmem
  exact toLower_ne_bracket (columnNames.validated c hc) hlower

theorem lockUntil_ne_applied : columnNames.lockUntil ≠ "[applied]" := by
  intro h
  apply toLower_ne_applied columnNames
  rw [h]
  decide +kernel

/-- The value is found whatever the case of the configured column. -/
theorem readLockUntil_refused (row : Row δ) :
    readLockUntil (applied false :: conditionColumns columnNames row) columnNames.lockUntil =
      some (.timestamp row.lockUntil) := by
  have hfound : cell (applied false :: conditionColumns columnNames row)
      columnNames.lockUntil.toLower = some (.timestamp row.lockUntil) :=
    (cell_of_ne (toLower_ne_applied columnNames)).trans (cell_self _ _ _)
  by_cases h : columnNames.lockUntil.toLower = columnNames.lockUntil
  · rw [h] at hfound
    simp [readLockUntil, h, hfound]
  · have hskip : cell (applied false :: conditionColumns columnNames row)
        columnNames.lockUntil = none :=
      (cell_of_ne (lockUntil_ne_applied columnNames)).trans (cell_of_ne (Ne.symm h))
    simp [readLockUntil, h, hskip, hfound]

theorem readLockUntil_missing :
    readLockUntil ([applied false] : LockRow δ) columnNames.lockUntil = none := by
  have hfolded : cell ([applied false] : LockRow δ) columnNames.lockUntil.toLower = none :=
    cell_of_ne (toLower_ne_applied columnNames)
  have hcolumn : cell ([applied false] : LockRow δ) columnNames.lockUntil = none :=
    cell_of_ne (lockUntil_ne_applied columnNames)
  have hkey : "[applied]".toLower ≠ columnNames.lockUntil.toLower := by
    intro h
    apply toLower_ne_applied columnNames
    rw [← h]
    decide +kernel
  have hkeys : (([applied false] : LockRow δ).map Prod.fst) = ["[applied]"] := rfl
  by_cases h : columnNames.lockUntil.toLower = columnNames.lockUntil
  · simp [readLockUntil, hkeys, hcolumn, h ▸ hkey, h]
  · simp [readLockUntil, hkeys, hcolumn, hfolded, hkey, h]

section Specs
variable [Add τ] [LT δ] [DecidableLT δ] (newDate : τ → δ) (opts : ResolvedCassandraOptions)
  {config : LockConfiguration τ} {table : Table δ} {row : Row δ} {now : τ} (lockedAt : τ)

theorem updateRecord_missing (now : τ) (h : table config.name = none) :
    updateRecord newDate opts config now lockedAt table =
      (table, .threw ("Lock record not found: " ++ config.name)) := by
  simp [updateRecord, updateIf, h, readLockUntil_missing]

theorem updateRecord_refused (h : table config.name = some row)
    (hc : ¬ row.lockUntil < newDate now) :
    updateRecord newDate opts config now lockedAt table = (table, .returned false) := by
  simp [updateRecord, updateIf, h, updateCondition, hc, readLockUntil_refused]

theorem updateRecord_granted (h : table config.name = some row)
    (hc : row.lockUntil < newDate now) :
    updateRecord newDate opts config now lockedAt table =
      (Function.update table config.name
        (some ⟨newDate config.lockAtMostUntil, newDate lockedAt, opts.lockedByValue⟩),
        .returned true) := by
  simp [updateRecord, updateIf, h, updateCondition, hc]

end Specs

end Tslock.Cassandra
