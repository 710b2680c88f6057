import Mathlib.Logic.Function.Basic
import Mathlib.Order.Basic
import Tslock.Core.LockConfiguration

/-! `SqlStatementsSource.params`, the four statements of `DefaultSqlStatementsSource` and the
replies `SqlStorageAccessor` reads from them. No time zone is configured. -/
namespace Tslock.Sql

variable {τ : Type*}

structure Row (τ : Type*) where
  lockUntil : τ
  lockedAt : τ
  lockedBy : String
deriving DecidableEq, Repr

/-- The lock table; the name is its primary key. -/
abbrev Table (τ : Type*) := String → Option (Row τ)

/-- The named parameters bound to a statement. -/
structure Params (τ : Type*) where
  name : String
  lockUntil : τ
  now : τ
  lockedBy : String
  unlockTime : τ
  previousLockUntil : Option τ
deriving DecidableEq, Repr

/-- `params` reads the clock twice: for `:now` and inside `unlockTime`. -/
def params [Add τ] [Max τ] (lockedByValue : String) (now unlockNow : τ)
    (lockConfig : LockConfiguration τ) (previousLockAtMostUntil : Option τ) : Params τ where
  name := lockConfig.name
  lockUntil := lockConfig.lockAtMostUntil
  now := now
  lockedBy := lockedByValue
  unlockTime := lockConfig.unlockTime unlockNow
  previousLockUntil := previousLockAtMostUntil

/-- What a connection answers: a row count or a duplicate key error. -/
inductive QueryOutcome where
  | affectedRows (n : ℕ)
  | duplicateKeyError
deriving DecidableEq, Repr

/-- The Boolean every accessor method makes of the outcome. -/
def QueryOutcome.succeeded : QueryOutcome → Bool
  | .affectedRows n => 0 < n
  | .duplicateKeyError => false

/-- `lockUntil <= :now` -/
def updateMatches [LE τ] (p : Params τ) (row : Row τ) : Prop := row.lockUntil ≤ p.now

/-- `lockedBy = :lockedBy AND lockUntil > :now AND lockUntil = :previousLockUntil` -/
def extendMatches [LT τ] (p : Params τ) (row : Row τ) : Prop :=
  row.lockedBy = p.lockedBy ∧ p.now < row.lockUntil ∧ some row.lockUntil = p.previousLockUntil

/-- `lockedBy = :lockedBy AND lockUntil = :lockUntil` -/
def unlockMatches (p : Params τ) (row : Row τ) : Prop :=
  row.lockedBy = p.lockedBy ∧ row.lockUntil = p.lockUntil

instance [LE τ] [DecidableLE τ] (p : Params τ) : DecidablePred (updateMatches p) :=
  fun row => inferInstanceAs (Decidable (row.lockUntil ≤ p.now))

instance [LT τ] [DecidableLT τ] [DecidableEq τ] (p : Params τ) : DecidablePred (extendMatches p) :=
  fun _ => inferInstanceAs (Decidable (_ ∧ _ ∧ _))

instance [DecidableEq τ] (p : Params τ) : DecidablePred (unlockMatches p) :=
  fun _ => inferInstanceAs (Decidable (_ ∧ _))

/-- `INSERT`: the primary key refuses a second row of the name. -/
def insertStatement (p : Params τ) (table : Table τ) : Table τ × QueryOutcome :=
  match table p.name with
  | some _ => (table, .duplicateKeyError)
  | none =>
    (Function.update table p.name
      (some { lockUntil := p.lockUntil, lockedAt := p.now, lockedBy := p.lockedBy }),
      .affectedRows 1)

/-- `UPDATE … SET … WHERE name = :name AND …` -/
def updateWhere (name : String) (matched : Row τ → Prop) [DecidablePred matched]
    (set : Row τ → Row τ) (table : Table τ) : Table τ × QueryOutcome :=
  match table name with
  | some row =>
    if matched row then (Function.update table name (some (set row)), .affectedRows 1)
    else (table, .affectedRows 0)
  | none => (table, .affectedRows 0)

def updateStatement [LE τ] [DecidableLE τ] (p : Params τ) : Table τ → Table τ × QueryOutcome :=
  updateWhere p.name (updateMatches p) fun _ =>
    { lockUntil := p.lockUntil, lockedAt := p.now, lockedBy := p.lockedBy }

def extendStatement [LT τ] [DecidableLT τ] [DecidableEq τ] (p : Params τ) :
    Table τ → Table τ × QueryOutcome :=
  updateWhere p.name (extendMatches p) fun row => { row with lockUntil := p.lockUntil }

def unlockStatement [DecidableEq τ] (p : Params τ) : Table τ → Table τ × QueryOutcome :=
  updateWhere p.name (unlockMatches p) fun row => { row with lockUntil := p.unlockTime }

variable {p : Params τ} {table table' : Table τ} {out : QueryOutcome} {name : String}
  {matched : Row τ → Prop} [DecidablePred matched] {set : Row τ → Row τ}

theorem insertStatement_granted (h : insertStatement p table = (table', out))
    (ho : out.succeeded = true) : table p.name = none ∧ table' = Function.update table p.name
      (some { lockUntil := p.lockUntil, lockedAt := p.now, lockedBy := p.lockedBy }) := by
  unfold insertStatement at h
  cases hrow : table p.name with
  | none =>
    rw [hrow] at h
    exact ⟨rfl, (congrArg Prod.fst h).symm⟩
  | some row =>
    rw [hrow] at h
    obtain ⟨-, rfl⟩ := Prod.mk.inj h
    simp [QueryOutcome.succeeded] at ho

/-- The row that refuses an insert stays as it is. -/
theorem insertStatement_refused (h : insertStatement p table = (table', out))
    (ho : out.succeeded = false) : (∃ row, table p.name = some row) ∧ table' = table := by
  unfold insertStatement at h
  cases hrow : table p.name with
  | none =>
    rw [hrow] at h
    obtain ⟨-, rfl⟩ := Prod.mk.inj h
    simp [QueryOutcome.succeeded] at ho
  | some row =>
    rw [hrow] at h
    exact ⟨⟨row, rfl⟩, (congrArg Prod.fst h).symm⟩

theorem updateWhere_granted (h : updateWhere name matched set table = (table', out))
    (ho : out.succeeded = true) : ∃ row, table name = some row ∧ matched row ∧
      table' = Function.update table name (some (set row)) := by
  unfold updateWhere at h
  cases hrow : table name with
  | none =>
    rw [hrow] at h
    obtain ⟨-, rfl⟩ := Prod.mk.inj h
    simp [QueryOutcome.succeeded] at ho
  | some row =>
    rw [hrow] at h
    by_cases hm : matched row
    · simp only [hm, if_true] at h
      exact ⟨row, rfl, hm, (congrArg Prod.fst h).symm⟩
    · simp only [hm, if_false] at h
      obtain ⟨-, rfl⟩ := Prod.mk.inj h
      simp [QueryOutcome.succeeded] at ho

/-- An update that counts no row found no matching row and wrote nothing. -/
theorem updateWhere_refused (h : updateWhere name matched set table = (table', out))
    (ho : out.succeeded = false) :
    (∀ row, table name = some row → ¬ matched row) ∧ table' = table := by
  unfold updateWhere at h
  cases hrow : table name with
  | none =>
    rw [hrow] at h
    exact ⟨by simp, (congrArg Prod.fst h).symm⟩
  | some row =>
    rw [hrow] at h
    by_cases hm : matched row
    · simp only [hm, if_true] at h
      obtain ⟨-, rfl⟩ := Prod.mk.inj h
      simp [QueryOutcome.succeeded] at ho
    · simp only [hm, if_false] at h
      refine ⟨?_, (congrArg Prod.fst h).symm⟩
      rintro r ⟨rfl⟩
      exact hm

end Tslock.Sql
