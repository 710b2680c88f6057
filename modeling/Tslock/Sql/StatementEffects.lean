import Tslock.Sql.StatementSyntax

/-! What the statements do to a database whose tuples are the rows of the lock table. -/
namespace Tslock.Sql

open Foundation SqlText SqlLanguage

variable {τ : Type}

/-- The function with which a database tells its time. -/
def DatabaseProduct.clockFunction : DatabaseProduct → Option (Text × List Text)
  | .postgres | .cockroachDb => NowExpr.call .now
  | .sqlServer => NowExpr.call .getUtcDate
  | .mySql | .mariaDb => NowExpr.call .utcTimestamp
  | .oracle | .hsql | .h2 | .db2 => NowExpr.call .currentTimestamp
  | .sqlite => NowExpr.call .strftime
  | .unknown => none

/-- What a product and its settings add: the words it reserves beside those of the statements, and
which texts its collation takes for the same. -/
structure Dialect where
  reserved : Text → Bool
  sameText : String → String → Bool

/-- Texts are the same only where they are equal, as under a binary collation. -/
def Dialect.Exact (dialect : Dialect) : Prop :=
  ∀ text text', dialect.sameText text text' = true ↔ text = text'

/-- Texts are compared for equality only. -/
def compareValues [LinearOrder τ] (dialect : Dialect) : Operator → Value τ → Value τ → Bool
  | .eq, .text text, .text text' => dialect.sameText text text'
  | .eq, .instant a, .instant b => decide (a = b)
  | .le, .instant a, .instant b => decide (a ≤ b)
  | .gt, .instant a, .instant b => decide (b < a)
  | _, _, _ => false

def engine [LinearOrder τ] (dialect : Dialect) (product : DatabaseProduct) (time : τ) :
    Engine (Value τ) where
  reserved := dialect.reserved
  call f arguments :=
    if product.clockFunction = some (f, arguments) then some (.instant time) else none
  compare := compareValues dialect

def schema (t : Text) (c : ColumnNames) : Schema where
  table := fold t
  columns := c.toList.map fold
  key := fold c.name

/-- The tuple of a row. -/
def tuple (c : ColumnNames) (name : String) (row : Row τ) : Tuple (Value τ) := fun column =>
  if column = fold c.name then some (.text name)
  else if column = fold c.lockUntil then some (.instant row.lockUntil)
  else if column = fold c.lockedAt then some (.instant row.lockedAt)
  else if column = fold c.lockedBy then some (.text row.lockedBy)
  else none

variable {t : Text} {c : ColumnNames} {e : NowExpr} {form : InsertForm} {p : Params τ}
  {dialect : Dialect} {product : DatabaseProduct} {name : String} {row : Row τ} {time : τ}

theorem Names.ne (h : Names t c) : (fold c.lockUntil ≠ fold c.name) ∧
    (fold c.lockedAt ≠ fold c.name ∧ fold c.lockedAt ≠ fold c.lockUntil) ∧
    fold c.lockedBy ≠ fold c.name ∧ fold c.lockedBy ≠ fold c.lockUntil ∧
      fold c.lockedBy ≠ fold c.lockedAt := by
  have hdistinct := h.distinct
  simp only [ColumnNames.toList, List.map_cons, List.map_nil, List.nodup_cons, List.mem_cons,
    List.not_mem_nil, or_false, not_or] at hdistinct
  obtain ⟨⟨h₁, h₂, h₃⟩, ⟨h₄, h₅⟩, h₆, -⟩ := hdistinct
  exact ⟨Ne.symm h₁, ⟨Ne.symm h₂, Ne.symm h₄⟩, Ne.symm h₃, Ne.symm h₅, Ne.symm h₆⟩

theorem tuple_name : tuple c name row (fold c.name) = some (.text name) := if_pos rfl

theorem tuple_lockUntil (h : Names t c) :
    tuple c name row (fold c.lockUntil) = some (.instant row.lockUntil) := by
  obtain ⟨hne, -⟩ := h.ne
  rw [tuple, if_neg hne, if_pos rfl]

theorem tuple_lockedAt (h : Names t c) :
    tuple c name row (fold c.lockedAt) = some (.instant row.lockedAt) := by
  obtain ⟨-, ⟨hne, hne'⟩, -⟩ := h.ne
  rw [tuple, if_neg hne, if_neg hne', if_pos rfl]

theorem tuple_lockedBy (h : Names t c) :
    tuple c name row (fold c.lockedBy) = some (.text row.lockedBy) := by
  obtain ⟨-, -, hne, hne', hne''⟩ := h.ne
  rw [tuple, if_neg hne, if_neg hne', if_neg hne'', if_pos rfl]

theorem assign_lockUntil (h : Names t c) (u : τ) :
    assign [(fold c.lockUntil, .instant u)] (tuple c name row) =
      tuple c name { row with lockUntil := u } := by
  obtain ⟨hlockUntil, -⟩ := h.ne
  funext column
  unfold assign tuple
  rw [lookup_cons_if]
  by_cases hcolumn : column = fold c.lockUntil
  · rw [if_pos hcolumn, hcolumn, if_neg hlockUntil, if_neg hlockUntil, if_pos rfl, if_pos rfl]
    rfl
  · rw [if_neg hcolumn, if_neg hcolumn, if_neg hcolumn]
    rfl

theorem assign_row (h : Names t c) (row' : Row τ) :
    assign [(fold c.lockUntil, .instant row'.lockUntil), (fold c.lockedAt, .instant row'.lockedAt),
      (fold c.lockedBy, .text row'.lockedBy)] (tuple c name row) = tuple c name row' := by
  obtain ⟨hlockUntil, ⟨hlockedAt, -⟩, hlockedBy, -⟩ := h.ne
  funext column
  unfold assign tuple
  rw [lookup_cons_if, lookup_cons_if, lookup_cons_if]
  by_cases hname : column = fold c.name
  · rw [hname, if_neg hlockUntil.symm, if_neg hlockedAt.symm, if_neg hlockedBy.symm, if_pos rfl,
      if_pos rfl]
    rfl
  · rw [if_neg hname, if_neg hname]
    split_ifs <;> rfl

/-- The lock table as tuples. -/
def encoding (h : Names t c) : Encoding (Value τ) String (Row τ) (schema t c).key where
  tuple := tuple c
  keyValue := .text
  keyValue_injective _ _ heq := by injection heq
  key_eq _ _ := tuple_name
  row_injective name row row' heq := by
    have hlockUntil := congrFun heq (fold c.lockUntil)
    have hlockedAt := congrFun heq (fold c.lockedAt)
    have hlockedBy := congrFun heq (fold c.lockedBy)
    rw [tuple_lockUntil h, tuple_lockUntil h] at hlockUntil
    rw [tuple_lockedAt h, tuple_lockedAt h] at hlockedAt
    rw [tuple_lockedBy h, tuple_lockedBy h] at hlockedBy
    cases row
    cases row'
    cases hlockUntil
    cases hlockedAt
    cases hlockedBy
    rfl

/-- The reply of a database is the one of the model. An insert may also say of a row that is there
that it has added none. -/
inductive Agrees : Result → QueryOutcome → Prop where
  | affected {n : ℕ} : Agrees (.affected n) (.affectedRows n)
  | duplicateKey : Agrees .duplicateKey .duplicateKeyError
  | ignored : Agrees (.affected 0) .duplicateKeyError

variable [LinearOrder τ]

/-- What the statements have for the current time is `now`, bound or told by the database. -/
def Tells (product : DatabaseProduct) (time now : τ) (e : NowExpr) : Prop :=
  e.call = none ∨ e.call = product.clockFunction ∧ time = now

theorem now_eval {now : τ} (h : Tells product time now e) :
    (e.expr now).eval (engine dialect product time) = some (.instant now) := by
  unfold NowExpr.expr
  split
  · rfl
  · next f arguments hcall =>
    rcases h with hnone | ⟨hsome, rfl⟩
    · rw [hnone] at hcall
      cases hcall
    · exact if_pos (hsome.symm.trans hcall)

theorem keysCompared (h : Names t c) (hexact : dialect.Exact) :
    (encoding h).KeysCompared (engine dialect product time) := fun k k' => hexact k k'

theorem insert_exec (h : Names t c) (hexact : dialect.Exact) (htells : Tells product time p.now e)
    {tuples : List (Tuple (Value τ))} {table : Table τ}
    (hrep : Represents (encoding h) tuples table) :
    ∃ tuples' result,
      (insertSyntax t c e form p).exec (engine dialect product time) (schema t c) tuples =
        some (tuples', result) ∧
      Represents (encoding h) tuples' (insertStatement p table).1 ∧
      Agrees result (insertStatement p table).2 := by
  have htuple : (fun column => ((c.toList.map fold).zip [Value.text p.name, .instant p.lockUntil,
      .instant p.now, .text p.lockedBy]).lookup column) =
        (encoding h).tuple p.name ⟨p.lockUntil, p.now, p.lockedBy⟩ := by
    funext column
    simp only [ColumnNames.toList, List.map_cons, List.map_nil, List.zip_cons_cons, lookup_cons_if]
    rfl
  have hvalues : [Expr.value (Value.text p.name), .value (.instant p.lockUntil), e.expr p.now,
      .value (.text p.lockedBy)].mapM (Expr.eval (engine dialect product time)) =
        some [Value.text p.name, .instant p.lockUntil, .instant p.now, .text p.lockedBy] := by
    simp only [List.mapM_cons, List.mapM_nil, now_eval htells]
    rfl
  have hexec : (insertSyntax t c e form p).exec (engine dialect product time) (schema t c) tuples =
      insertTuple (engine dialect product time) (schema t c) (form.onConflict c)
        ((encoding h).tuple p.name ⟨p.lockUntil, p.now, p.lockedBy⟩) tuples := by
    rw [← htuple]
    exact exec_insert h.distinct (List.Subset.refl _) List.mem_cons_self rfl hvalues
  unfold insertStatement
  cases hrow : table p.name with
  | none =>
    obtain ⟨hinsert, hafter⟩ := insertTuple_free hrep (keysCompared h hexact) hrow
    exact ⟨_, _, hexec.trans hinsert, hafter, .affected⟩
  | some row =>
    have hsome := Option.isSome_iff_exists.mpr ⟨row, hrow⟩
    rw [insertTuple_taken hrep (keysCompared h hexact) hsome] at hexec
    cases form with
    | plain => exact ⟨_, _, hexec, hrep, .duplicateKey⟩
    | orIgnore => exact ⟨_, _, hexec, hrep, .ignored⟩
    | onConflictDoNothing => exact ⟨_, _, hexec.trans (if_pos rfl), hrep, .ignored⟩

section Updates

variable {tuples : List (Tuple (Value τ))} {table : Table τ}
  {compared : List (Text × Operator × Value τ)}

/-- An update statement by the name of a row. -/
theorem updateWhere_exec {P : Row τ → Prop} [DecidablePred P] {set : Row τ → Row τ}
    {sets : List (Text × Expr (Value τ))} {conditions : List (SqlLanguage.Condition (Value τ))}
    (assigned : List (Text × Value τ)) (compared : List (Text × Operator × Value τ)) (h : Names t c)
    (hrep : Represents (encoding h) tuples table)
    (hsublist : (sets.map Prod.fst).Sublist [fold c.lockUntil, fold c.lockedAt, fold c.lockedBy])
    (hcolumns : conditions.map SqlLanguage.Condition.column ⊆ c.toList.map fold)
    (hassigned : (sets.mapM fun (c, e) => return (c, ← e.eval (engine dialect product time))) =
      some assigned)
    (hcompared : (conditions.mapM fun c =>
      return (c.column, c.operator, ← c.expr.eval (engine dialect product time))) = some compared)
    (hholds : ∀ other row,
      holds (engine dialect product time) compared (tuple c other row) = true ↔
        other = name ∧ P row)
    (hassign : ∀ row, assign assigned (tuple c name row) = tuple c name (set row)) :
    ∃ tuples' result,
      (Statement.update (fold t) sets conditions).exec (engine dialect product time) (schema t c)
          tuples =
        some (tuples', result) ∧
      Represents (encoding h) tuples' (updateWhere name P set table).1 ∧
      Agrees result (updateWhere name P set table).2 := by
  have hdistinct := List.nodup_cons.mp h.distinct
  refine ⟨_, _, exec_update (hdistinct.2.sublist hsublist)
    (fun w hw => List.mem_cons_of_mem _ (hsublist.subset hw))
    (fun hkey => hdistinct.1 (hsublist.subset hkey)) hcolumns hassigned hcompared, ?_⟩
  unfold updateWhere
  rcases hrep.update hholds fun row _ => hassign row with
    ⟨row, hrow, hp, hcount, hafter⟩ | ⟨hnone, hcount, hsame⟩
  · rw [hrow, hcount]
    dsimp only
    rw [if_pos hp]
    exact ⟨hafter, .affected⟩
  · rw [hsame, hcount]
    cases hrow : table name with
    | none => exact ⟨hrep, .affected⟩
    | some row =>
      dsimp only
      rw [if_neg (hnone row hrow)]
      exact ⟨hrep, .affected⟩

theorem sameText_eq (hexact : dialect.Exact) (text text' : String) :
    dialect.sameText text text' = decide (text = text') := by
  rw [Bool.eq_iff_iff, hexact, decide_eq_true_iff]

theorem holds_name (hexact : dialect.Exact) {other : String} :
    holds (engine dialect product time) ((fold c.name, .eq, .text name) :: compared)
        (tuple c other row) =
      (decide (other = name) &&
        holds (engine dialect product time) compared (tuple c other row)) := by
  simp only [holds, List.all_cons, tuple_name, Option.any_some, engine, compareValues,
    sameText_eq hexact]

theorem holds_lockedBy (h : Names t c) (hexact : dialect.Exact) {lockedBy : String} :
    holds (engine dialect product time) ((fold c.lockedBy, .eq, .text lockedBy) :: compared)
        (tuple c name row) =
      (decide (row.lockedBy = lockedBy) &&
        holds (engine dialect product time) compared (tuple c name row)) := by
  simp only [holds, List.all_cons, tuple_lockedBy h, Option.any_some, engine, compareValues,
    sameText_eq hexact]

theorem holds_lockUntil (h : Names t c) {op : Operator} {u : τ} :
    holds (engine dialect product time) ((fold c.lockUntil, op, .instant u) :: compared)
        (tuple c name row) =
      (compareValues dialect op (.instant row.lockUntil) (.instant u) &&
        holds (engine dialect product time) compared (tuple c name row)) := by
  simp only [holds, List.all_cons, tuple_lockUntil h, Option.any_some, engine]

theorem holds_nil {u : Tuple (Value τ)} : holds (engine dialect product time) [] u = true := rfl

theorem update_exec (h : Names t c) (hexact : dialect.Exact) (htells : Tells product time p.now e)
    (hrep : Represents (encoding h) tuples table) :
    ∃ tuples' result,
      (updateSyntax t c e p).exec (engine dialect product time) (schema t c) tuples =
        some (tuples', result) ∧
      Represents (encoding h) tuples' (updateStatement p table).1 ∧
      Agrees result (updateStatement p table).2 := by
  refine updateWhere_exec
    [(fold c.lockUntil, .instant p.lockUntil), (fold c.lockedAt, .instant p.now),
      (fold c.lockedBy, .text p.lockedBy)]
    [(fold c.name, .eq, .text p.name), (fold c.lockUntil, .le, .instant p.now)]
    h hrep (List.Sublist.refl _) (by simp [ColumnNames.toList]) ?_ ?_ ?_ ?_
  · simp only [List.mapM_cons, List.mapM_nil, now_eval htells]
    rfl
  · simp only [List.mapM_cons, List.mapM_nil, now_eval htells]
    rfl
  · intro other row
    simp only [holds_name hexact, holds_lockUntil h, holds_nil, compareValues, Bool.and_true,
      Bool.and_eq_true, decide_eq_true_eq]
    rfl
  · exact fun row => assign_row h ⟨p.lockUntil, p.now, p.lockedBy⟩

theorem extend_exec {previous : τ} (h : Names t c) (hexact : dialect.Exact)
    (htells : Tells product time p.now e)
    (hp : p.previousLockUntil = some previous) (hrep : Represents (encoding h) tuples table) :
    ∃ tuples' result,
      (extendSyntax t c e p previous).exec (engine dialect product time) (schema t c) tuples =
        some (tuples', result) ∧
      Represents (encoding h) tuples' (extendStatement p table).1 ∧
      Agrees result (extendStatement p table).2 := by
  refine updateWhere_exec [(fold c.lockUntil, .instant p.lockUntil)]
    [(fold c.name, .eq, .text p.name), (fold c.lockedBy, .eq, .text p.lockedBy),
      (fold c.lockUntil, .gt, .instant p.now), (fold c.lockUntil, .eq, .instant previous)]
    h hrep (by simp) (by simp [ColumnNames.toList]) rfl ?_ ?_ fun row => assign_lockUntil h _
  · simp only [List.mapM_cons, List.mapM_nil, now_eval htells]
    rfl
  · intro other row
    simp only [holds_name hexact, holds_lockedBy h hexact, holds_lockUntil h, holds_nil,
      compareValues, Bool.and_true, Bool.and_eq_true, decide_eq_true_eq, extendMatches, hp,
      Option.some.injEq]

theorem unlock_exec (h : Names t c) (hexact : dialect.Exact)
    (hrep : Represents (encoding h) tuples table) :
    ∃ tuples' result,
      (unlockSyntax t c p).exec (engine dialect product time) (schema t c) tuples =
        some (tuples', result) ∧
      Represents (encoding h) tuples' (unlockStatement p table).1 ∧
      Agrees result (unlockStatement p table).2 := by
  refine updateWhere_exec [(fold c.lockUntil, .instant p.unlockTime)]
    [(fold c.name, .eq, .text p.name), (fold c.lockedBy, .eq, .text p.lockedBy),
      (fold c.lockUntil, .eq, .instant p.lockUntil)]
    h hrep (by simp) (by simp [ColumnNames.toList]) rfl rfl ?_ fun row => assign_lockUntil h _
  intro other row
  simp only [holds_name hexact, holds_lockedBy h hexact, holds_lockUntil h, holds_nil,
    compareValues, Bool.and_true, Bool.and_eq_true, decide_eq_true_eq, unlockMatches]

end Updates

end Tslock.Sql
