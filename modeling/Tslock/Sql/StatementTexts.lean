import Tslock.Foundation.SqlLanguage
import Tslock.Sql.NamedParams

/-! `SqlConfiguration` and the statement texts of the `SqlStatementsSource`s. -/
namespace Tslock.Sql

open Foundation SqlText
open NamedParams (LockException)

inductive DatabaseProduct where
  | postgres
  | cockroachDb
  | sqlServer
  | oracle
  | mySql
  | mariaDb
  | hsql
  | h2
  | db2
  | sqlite
  | unknown
deriving DecidableEq, Repr

section Configuration

/-- `IDENTIFIER_RE.test`: `/^[A-Za-z_][A-Za-z0-9_]*$/` -/
def isIdentifier (value : Text) : Bool := isWord value

def validateIdentifier (value : Text) (label : String) : Except LockException Unit :=
  if isIdentifier value then .ok ()
  else .error ⟨"Invalid " ++ label ++ ": \"" ++ String.ofList value ++
    "\". Must match /^[A-Za-z_][A-Za-z0-9_]*$/"⟩

structure ColumnNames where
  name : Text
  lockUntil : Text
  lockedAt : Text
  lockedBy : Text
deriving DecidableEq

namespace ColumnNames

def toList (c : ColumnNames) : List Text := [c.name, c.lockUntil, c.lockedAt, c.lockedBy]

def map (f : Text → Text) (c : ColumnNames) : ColumnNames :=
  ⟨f c.name, f c.lockUntil, f c.lockedAt, f c.lockedBy⟩

end ColumnNames

/-- A property that is left out is `none`. -/
structure SqlConfigurationOptions where
  databaseProduct : DatabaseProduct
  tableName : Option Text
  name : Option Text
  lockUntil : Option Text
  lockedAt : Option Text
  lockedBy : Option Text
  lockedByValue : Option String
  timeZone : Option String
  useDbTime : Option Bool

structure SqlConfiguration where
  databaseProduct : DatabaseProduct
  tableName : Text
  columnNames : ColumnNames
  lockedByValue : String
  timeZone : Option String
  useDbTime : Bool

namespace SqlConfiguration

/-- The four columns and the table. -/
def identifiers (config : SqlConfiguration) : List Text :=
  config.tableName :: config.columnNames.toList

def defaultTableName : Text := "shedlock".toList

def defaultColumnNames : ColumnNames :=
  ⟨"name".toList, "lockUntil".toList, "lockedAt".toList, "lockedBy".toList⟩

/-- `DB_UPPER_CASE` -/
def dbUpperCase : DatabaseProduct → Bool
  | .oracle | .db2 | .hsql => true
  | _ => false

def toUpperCase (w : Text) : Text := w.map Char.toUpper

def validate (tableName : Text) (columnNames : ColumnNames) : Except LockException Unit := do
  validateIdentifier tableName "tableName"
  validateIdentifier columnNames.name "columnNames.name"
  validateIdentifier columnNames.lockUntil "columnNames.lockUntil"
  validateIdentifier columnNames.lockedAt "columnNames.lockedAt"
  validateIdentifier columnNames.lockedBy "columnNames.lockedBy"

/-- An empty `timeZone` counts as none. -/
def checkClock (useDbTime : Bool) (timeZone : Option String) : Except LockException Unit :=
  if useDbTime ∧ timeZone.any (· ≠ "") then .error ⟨"Cannot set both useDbTime and timeZone"⟩
  else .ok ()

/-- `{ ...DEFAULT_COLUMN_NAMES, ...options.columnNames }` -/
def columnNamesOf (options : SqlConfigurationOptions) : ColumnNames where
  name := options.name.getD defaultColumnNames.name
  lockUntil := options.lockUntil.getD defaultColumnNames.lockUntil
  lockedAt := options.lockedAt.getD defaultColumnNames.lockedAt
  lockedBy := options.lockedBy.getD defaultColumnNames.lockedBy

/-- How the names of a product are written. -/
def folding (product : DatabaseProduct) (w : Text) : Text :=
  if dbUpperCase product then toUpperCase w else w

/-- The constructor. -/
def create (options : SqlConfigurationOptions) (hostname : String) :
    Except LockException SqlConfiguration := do
  validate (options.tableName.getD defaultTableName) (columnNamesOf options)
  checkClock (options.useDbTime.getD false) options.timeZone
  return { databaseProduct := options.databaseProduct
           tableName := folding options.databaseProduct (options.tableName.getD defaultTableName)
           columnNames := (columnNamesOf options).map (folding options.databaseProduct)
           lockedByValue := options.lockedByValue.getD hostname
           timeZone := options.timeZone
           useDbTime := options.useDbTime.getD false }

theorem isAlpha_toUpper {c : Char} (h : c.isAlpha = true) : c.toUpper.isAlpha = true := by
  unfold Char.toUpper
  split
  · next hlower =>
    obtain ⟨hlow, hhigh⟩ := hlower
    have ha : 'a'.val.toNat = 97 := rfl
    have hz : 'z'.val.toNat = 122 := rfl
    have hdiff : ('A'.val - 'a'.val).toNat = 2 ^ 32 - 32 := rfl
    rw [UInt32.le_iff_toNat_le] at hlow hhigh
    rw [isAlpha_iff, ← Char.toNat_val, UInt32.toNat_add, hdiff]
    omega
  · exact h

theorem toUpper_of_isDigit {c : Char} (h : c.isDigit = true) : c.toUpper = c := by
  unfold Char.toUpper
  split
  · next hlower =>
    have ha : 'a'.val.toNat = 97 := rfl
    have hlow := UInt32.le_iff_toNat_le.mp hlower.1
    have hdigit := isDigit_iff.mp h
    rw [← Char.toNat_val] at hdigit
    omega
  · rfl

theorem isWord_toUpperCase {w : Text} (h : isWord w = true) : isWord (toUpperCase w) = true := by
  have hstart : ∀ c, wordStart c = true → wordStart c.toUpper = true := by
    intro c hc
    rcases (Bool.or_eq_true _ _).mp hc with halpha | hunderscore
    · exact (Bool.or_eq_true _ _).mpr (.inl (isAlpha_toUpper halpha))
    · rw [eq_of_beq hunderscore]
      rfl
  have hchar : ∀ c, wordChar c = true → wordChar c.toUpper = true := by
    intro c hc
    rcases (Bool.or_eq_true _ _).mp hc with hword | hdigit
    · exact (Bool.or_eq_true _ _).mpr (.inl (hstart c hword))
    · rw [toUpper_of_isDigit hdigit]
      exact hc
  cases w with
  | nil => exact h
  | cons c s =>
    obtain ⟨hc, hs⟩ := isWord_cons.mp h
    refine isWord_cons.mpr ⟨hstart c hc, fun d hd => ?_⟩
    obtain ⟨b, hb, rfl⟩ := List.mem_map.mp hd
    exact hchar b (hs b hb)

theorem validateIdentifier_ok {w : Text} {label : String}
    (h : validateIdentifier w label = .ok ()) : isWord w = true := by
  unfold validateIdentifier at h
  split at h
  · next hword => exact hword
  · cases h

theorem then_ok {α : Type} {x : Except LockException Unit} {y : Except LockException α} {a : α}
    (h : (do x; y) = .ok a) : x = .ok () ∧ y = .ok a := by
  cases x with
  | error e => cases h
  | ok u => exact ⟨rfl, h⟩

theorem isWord_of_validate {tableName : Text} {columnNames : ColumnNames}
    (h : validate tableName columnNames = .ok ()) :
    ∀ w ∈ tableName :: columnNames.toList, isWord w = true := by
  obtain ⟨htable, h⟩ := then_ok h
  obtain ⟨hname, h⟩ := then_ok h
  obtain ⟨hlockUntil, h⟩ := then_ok h
  obtain ⟨hlockedAt, hlockedBy⟩ := then_ok h
  intro w hw
  simp only [ColumnNames.toList, List.mem_cons, List.not_mem_nil, or_false] at hw
  rcases hw with rfl | rfl | rfl | rfl | rfl
  · exact validateIdentifier_ok htable
  · exact validateIdentifier_ok hname
  · exact validateIdentifier_ok hlockUntil
  · exact validateIdentifier_ok hlockedAt
  · exact validateIdentifier_ok hlockedBy

/-- The names of a configuration are identifiers. -/
theorem isWord_of_create {options : SqlConfigurationOptions} {hostname : String}
    {config : SqlConfiguration} (h : create options hostname = .ok config) :
    ∀ w ∈ config.identifiers, isWord w = true := by
  obtain ⟨hvalid, h⟩ := then_ok h
  obtain ⟨-, h⟩ := then_ok h
  cases h
  have hwords := isWord_of_validate hvalid
  intro w hw
  obtain ⟨v, hv, rfl⟩ := List.mem_map.mp (show w ∈ (_ :: (columnNamesOf options).toList).map
    (folding options.databaseProduct) from hw)
  unfold folding
  split
  · exact isWord_toUpperCase (hwords v hv)
  · exact hwords v hv

end SqlConfiguration

end Configuration

section Texts

structure SqlStatements where
  insert : Text
  update : Text
  extend : Text
  unlock : Text

variable (t : Text) (c : ColumnNames) (now : Text)

/-- The insert statements differ in how they begin, in the time of the lock and in how they end. -/
def insertText (verb suffix : Text) : Text :=
  verb ++ " INTO ".toList ++ t ++ "(".toList ++ c.name ++ ", ".toList ++ c.lockUntil ++
    ", ".toList ++ c.lockedAt ++ ", ".toList ++ c.lockedBy ++
    ") VALUES(:name, :lockUntil, ".toList ++ now ++ ", :lockedBy)".toList ++ suffix

def updateText : Text :=
  "UPDATE ".toList ++ t ++ " SET ".toList ++ c.lockUntil ++ " = :lockUntil, ".toList ++
    c.lockedAt ++ " = ".toList ++ now ++ ", ".toList ++ c.lockedBy ++
    " = :lockedBy WHERE ".toList ++ c.name ++ " = :name AND ".toList ++ c.lockUntil ++
    " <= ".toList ++ now

def extendText : Text :=
  "UPDATE ".toList ++ t ++ " SET ".toList ++ c.lockUntil ++ " = :lockUntil WHERE ".toList ++
    c.name ++ " = :name AND ".toList ++ c.lockedBy ++ " = :lockedBy AND ".toList ++ c.lockUntil ++
    " > ".toList ++ now ++ " AND ".toList ++ c.lockUntil ++ " = :previousLockUntil".toList

def unlockText : Text :=
  "UPDATE ".toList ++ t ++ " SET ".toList ++ c.lockUntil ++ " = :unlockTime WHERE ".toList ++
    c.name ++ " = :name AND ".toList ++ c.lockedBy ++ " = :lockedBy AND ".toList ++ c.lockUntil ++
    " = :lockUntil".toList

def onConflictDoNothing : Text := " ON CONFLICT (".toList ++ c.name ++ ") DO NOTHING".toList

def statements (verb suffix : Text) : SqlStatements where
  insert := insertText t c now verb suffix
  update := updateText t c now
  extend := extendText t c now
  unlock := unlockText t c

def insertVerb : Text := "INSERT".toList

/-- `:now` -/
def nowParam : Text := ":now".toList

def defaultSqlStatementsSource : SqlStatements := statements t c nowParam insertVerb []

def postgresSqlStatementsSource : SqlStatements :=
  statements t c nowParam insertVerb (onConflictDoNothing c)

def postgresServerTimeStatementsSource : SqlStatements :=
  statements t c "now()".toList insertVerb (onConflictDoNothing c)

def msSqlServerTimeStatementsSource : SqlStatements :=
  statements t c "GETUTCDATE()".toList insertVerb []

def mySqlServerTimeStatementsSource : SqlStatements :=
  statements t c "UTC_TIMESTAMP(3)".toList insertVerb []

def oracleServerTimeStatementsSource : SqlStatements :=
  statements t c "CURRENT_TIMESTAMP".toList insertVerb []

def hsqlServerTimeStatementsSource : SqlStatements :=
  statements t c "CURRENT_TIMESTAMP".toList insertVerb []

def h2ServerTimeStatementsSource : SqlStatements :=
  statements t c "CURRENT_TIMESTAMP".toList insertVerb []

def db2ServerTimeStatementsSource : SqlStatements :=
  statements t c "CURRENT_TIMESTAMP".toList insertVerb []

def sqliteServerTimeStatementsSource : SqlStatements :=
  statements t c "strftime('%Y-%m-%dT%H:%M:%fZ', 'now')".toList "INSERT OR IGNORE".toList []

end Texts

structure Error where
  message : String
deriving DecidableEq

def createSqlStatementsSource (config : SqlConfiguration) : Except Error SqlStatements :=
  let t := config.tableName
  let c := config.columnNames
  if config.useDbTime then
    match config.databaseProduct with
    | .postgres | .cockroachDb => .ok (postgresServerTimeStatementsSource t c)
    | .sqlServer => .ok (msSqlServerTimeStatementsSource t c)
    | .mySql | .mariaDb => .ok (mySqlServerTimeStatementsSource t c)
    | .oracle => .ok (oracleServerTimeStatementsSource t c)
    | .hsql => .ok (hsqlServerTimeStatementsSource t c)
    | .h2 => .ok (h2ServerTimeStatementsSource t c)
    | .db2 => .ok (db2ServerTimeStatementsSource t c)
    | .sqlite => .ok (sqliteServerTimeStatementsSource t c)
    | .unknown => .error ⟨"useDbTime not supported for UNKNOWN"⟩
  else if config.databaseProduct = .postgres ∨ config.databaseProduct = .cockroachDb then
    .ok (postgresSqlStatementsSource t c)
  else .ok (defaultSqlStatementsSource t c)

end Tslock.Sql
