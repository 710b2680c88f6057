import Tslock.Sql.Connections
import Tslock.Sql.StatementEffects

/-! The statements of a configuration, sent as texts through any connection. -/
namespace Tslock.Sql

open Foundation SqlText SqlLanguage
open NamedParams (ParamRecord)

section Sources

variable {config : SqlConfiguration} {sts : SqlStatements} {t : Text} {c : ColumnNames}

/-- The statements of a source are spelled with a time expression and a form of insert. -/
structure Spelled (config : SqlConfiguration) (e : NowExpr) (form : InsertForm)
    (sts : SqlStatements) : Prop where
  texts : sts = statements config.tableName config.columnNames (spell e.lexemes) (spell form.verb)
    (spell (form.ending config.columnNames))
  param : config.useDbTime = false → e = .param
  told : config.useDbTime = true → e ≠ .param ∧ e.call = config.databaseProduct.clockFunction

theorem source_spelled (h : createSqlStatementsSource config = .ok sts) :
    ∃ e form, Spelled config e form sts := by
  rcases config with ⟨product, t, c, lockedByValue, timeZone, useDbTime⟩
  cases useDbTime with
  | true =>
    cases product with
    | postgres | cockroachDb =>
      cases h
      exact ⟨.now, .onConflictDoNothing, rfl, nofun, fun _ => ⟨nofun, rfl⟩⟩
    | sqlServer =>
      cases h
      exact ⟨.getUtcDate, .plain, rfl, nofun, fun _ => ⟨nofun, rfl⟩⟩
    | mySql | mariaDb =>
      cases h
      exact ⟨.utcTimestamp, .plain, rfl, nofun, fun _ => ⟨nofun, rfl⟩⟩
    | oracle | hsql | h2 | db2 =>
      cases h
      exact ⟨.currentTimestamp, .plain, rfl, nofun, fun _ => ⟨nofun, rfl⟩⟩
    | sqlite =>
      cases h
      exact ⟨.strftime, .orIgnore, rfl, nofun, fun _ => ⟨nofun, rfl⟩⟩
    | unknown => cases h
  | false =>
    change (if product = .postgres ∨ product = .cockroachDb then
      Except.ok (postgresSqlStatementsSource t c) else .ok (defaultSqlStatementsSource t c)) =
        Except.ok sts at h
    split at h
    · cases h
      exact ⟨.param, .onConflictDoNothing, rfl, fun _ => rfl, nofun⟩
    · cases h
      exact ⟨.param, .plain, rfl, fun _ => rfl, nofun⟩

end Sources

section Scanning

variable {t : Text} {c : ColumnNames} {e : NowExpr} {form : InsertForm}

theorem quiet_of_notColon {w : Text} (h : ∀ d ∈ w, d ≠ ':') : quiet w = true := by
  fun_induction quiet w with
  | case1 => exact absurd rfl (h ':' List.mem_cons_self)
  | case2 => exact absurd rfl (h ':' List.mem_cons_self)
  | case3 _ _ _ _ ih => exact ih fun d hd => h d (List.mem_cons_of_mem _ hd)
  | case4 => rfl

theorem scanned_word {w : Text} (h : isWord w = true) : scanned (.word w) = true := by
  refine quiet_of_notColon ?_
  rintro d hd rfl
  cases w with
  | nil => cases hd
  | cons c w =>
    obtain ⟨hc, hw⟩ := isWord_cons.mp h
    rcases List.mem_cons.mp hd with rfl | hd
    · cases hc
    · cases hw _ hd

theorem scanned_now : e.lexemes.all scanned = true := by cases e <;> rfl

theorem scanned_and : andLexemes.all scanned = true := rfl

theorem scanned_equals {column : Text} {param : String} (hc : isWord column = true) :
    (equals column param).all scanned = true := by
  simp only [equals, List.all_cons, scanned_word hc]
  rfl

theorem scanned_insert (h : Names t c) : (insertLexemes t c e form).all scanned = true := by
  obtain ⟨ht, hname, hlockUntil, hlockedAt, hlockedBy⟩ := h.valid
  have hverb : form.verb.all scanned = true := by cases form <;> rfl
  have hending : (form.ending c).all scanned = true := by
    cases form with
    | plain | orIgnore => rfl
    | onConflictDoNothing =>
      simp only [InsertForm.ending, List.all_cons, scanned_word hname]
      rfl
  simp only [insertLexemes, List.all_append, List.all_cons, hverb, hending, scanned_now,
    scanned_word ht, scanned_word hname, scanned_word hlockUntil, scanned_word hlockedAt,
    scanned_word hlockedBy]
  rfl

theorem scanned_update (h : Names t c) : (updateLexemes t c e).all scanned = true := by
  obtain ⟨ht, hname, hlockUntil, hlockedAt, hlockedBy⟩ := h.valid
  simp only [updateLexemes, List.all_append, List.all_cons, scanned_now, scanned_and,
    scanned_equals hlockUntil, scanned_equals hlockedBy, scanned_equals hname, scanned_word ht,
    scanned_word hlockUntil, scanned_word hlockedAt]
  rfl

theorem scanned_extend (h : Names t c) : (extendLexemes t c e).all scanned = true := by
  obtain ⟨ht, hname, hlockUntil, -, hlockedBy⟩ := h.valid
  simp only [extendLexemes, List.all_append, List.all_cons, scanned_now, scanned_and,
    scanned_equals hlockUntil, scanned_equals hlockedBy, scanned_equals hname, scanned_word ht,
    scanned_word hlockUntil]
  rfl

theorem scanned_unlock (h : Names t c) : (unlockLexemes t c).all scanned = true := by
  obtain ⟨ht, hname, hlockUntil, -, hlockedBy⟩ := h.valid
  simp only [unlockLexemes, List.all_append, List.all_cons, scanned_and,
    scanned_equals hlockUntil, scanned_equals hlockedBy, scanned_equals hname, scanned_word ht]
  rfl

theorem scannable {ls : List Lexeme} (hspaced : spaced ls = true)
    (hvalid : ls.all Lexeme.valid = true) (hscanned : ls.all scanned = true) : Scannable ls :=
  ⟨hspaced, List.all_eq_true.mp hvalid, List.all_eq_true.mp hscanned⟩

end Scanning

section Sending

variable {V : Type} {ls : List Lexeme} {params : ParamRecord V}

/-- A name whose value is read is in the record. -/
theorem isSome_of_resolve {lookup : Text → Option V} {ts : List (Token V)}
    (h : resolve (.named ':' lookup) ls = some ts) :
    ∀ name ∈ paramNames ls, (lookup name).isSome := by
  induction ls generalizing ts with
  | nil => nofun
  | cons l ls ih =>
    obtain ⟨first, hl, hrest⟩ := Option.bind_eq_some_iff.mp h
    obtain ⟨rest, hls, -⟩ := Option.map_eq_some_iff.mp hrest
    rcases named_or_other l with ⟨name, rfl⟩ | hother
    · rw [lexemeTokens_named] at hl
      obtain ⟨v, hv, -⟩ := Option.map_eq_some_iff.mp hl
      rw [paramNames_named, List.forall_mem_cons]
      exact ⟨Option.isSome_iff_exists.mpr ⟨v, hv⟩, ih hls⟩
    · rw [paramNames_cons hother]
      exact ih hls

/-- What a connection makes of a text is executed as the statement that the text is. -/
theorem query_executed [DecidableEq V] {s : Statement V} (h : Scannable ls)
    (hparsed : (resolve (.named ':' params.own) ls).bind statement = some s)
    (connection : Connection) : ∃ text args,
      connection.query (spell ls) params = .ok (text, args) ∧ ∀ engine schema tuples,
        s.names.any engine.reserved = false →
        execute engine schema text args tuples = s.exec engine schema tuples := by
  obtain ⟨ts, hts, hs⟩ := Option.bind_eq_some_iff.mp hparsed
  obtain ⟨text, args, read, hquery, hlex, hresolve⟩ :=
    query_reads h (isSome_of_resolve hts) connection
  refine ⟨text, args, hquery, fun engine schema tuples hnames => ?_⟩
  simp only [execute, hlex, Option.bind_eq_bind, Option.bind_some, hresolve, hts, hs, hnames,
    Bool.false_eq_true, if_false]

end Sending

inductive StatementKind where
  | insert
  | update
  | extend
  | unlock
deriving DecidableEq, Repr

def SqlStatements.text (sts : SqlStatements) : StatementKind → Text
  | .insert => sts.insert
  | .update => sts.update
  | .extend => sts.extend
  | .unlock => sts.unlock

variable {τ : Type}

/-- The record of `SqlStatementsSource.params`, without `now` for a server time source. -/
def entries (useDbTime : Bool) (p : Params τ) : List (Text × Value τ) :=
  [("name".toList, .text p.name), ("lockUntil".toList, .instant p.lockUntil)] ++
    (if useDbTime then [] else [("now".toList, .instant p.now)]) ++
    [("lockedBy".toList, .text p.lockedBy), ("unlockTime".toList, .instant p.unlockTime)] ++
    (p.previousLockUntil.map fun u => ("previousLockUntil".toList, .instant u)).toList

theorem entries_bound {config : SqlConfiguration} {e : NowExpr} {form : InsertForm}
    {sts : SqlStatements} (h : Spelled config e form sts) (p : Params τ) :
    Bound p e fun name => (entries config.useDbTime p).lookup name := by
  have hnow : config.useDbTime = true ∨ config.useDbTime = false ∧ e = .param := by
    cases hclock : config.useDbTime with
    | true => exact .inl rfl
    | false => exact .inr ⟨rfl, h.param hclock⟩
  rcases hnow with hclock | ⟨hclock, rfl⟩
  · rw [hclock]
    refine ⟨rfl, rfl, fun he => absurd he (h.told hclock).1, rfl, rfl, ?_⟩
    cases hp : p.previousLockUntil <;> simp only [entries, hp] <;> rfl
  · rw [hclock]
    refine ⟨rfl, rfl, fun _ => rfl, rfl, rfl, ?_⟩
    cases hp : p.previousLockUntil <;> simp only [entries, hp] <;> rfl

/-- A statement that a node sends at `time` of the database. -/
structure SentStatement (τ : Type) where
  kind : StatementKind
  params : Params τ
  connection : Connection
  time : τ

/-- An extend statement has the previous deadline, and where the database has the clock its time is
the one of the statement. -/
structure SentStatement.Sendable (useDbTime : Bool) (sent : SentStatement τ) : Prop where
  previous : sent.kind = .extend → sent.params.previousLockUntil.isSome
  time : useDbTime = true → sent.time = sent.params.now

/-- The record that is sent; its prototype may have names too. -/
def SentStatement.record (useDbTime : Bool) (inherited : Text → Option (Value τ))
    (sent : SentStatement τ) : ParamRecord (Value τ) where
  own name := (entries useDbTime sent.params).lookup name
  inherited := inherited

/-- The Boolean every accessor method makes of a reply. -/
def answer : Result → Bool
  | .affected n => 0 < n
  | .duplicateKey => false

section Reserved

variable {t : Text} {c : ColumnNames} {e : NowExpr} {form : InsertForm} {p : Params τ}
  {reserved : Text → Bool}

/-- The statements name nothing but the identifiers of the configuration. -/
theorem names_insert (h : ∀ w ∈ t :: c.toList, reserved (fold w) = false) :
    (insertSyntax t c e form p).names.any reserved = false := by
  cases form <;>
    simp_all [insertSyntax, InsertForm.onConflict, Statement.names, ColumnNames.toList]

theorem names_update (h : ∀ w ∈ t :: c.toList, reserved (fold w) = false) :
    (updateSyntax t c e p).names.any reserved = false := by
  simp_all [updateSyntax, Statement.names, ColumnNames.toList]

theorem names_extend {previous : τ} (h : ∀ w ∈ t :: c.toList, reserved (fold w) = false) :
    (extendSyntax t c e p previous).names.any reserved = false := by
  simp_all [extendSyntax, Statement.names, ColumnNames.toList]

theorem names_unlock (h : ∀ w ∈ t :: c.toList, reserved (fold w) = false) :
    (unlockSyntax t c p).names.any reserved = false := by
  simp_all [unlockSyntax, Statement.names, ColumnNames.toList]

end Reserved

section Runs

variable {dialect : Dialect} {config : SqlConfiguration} {sts : SqlStatements} {e : NowExpr}
  {form : InsertForm} {inherited : Text → Option (Value τ)} {sent : SentStatement τ}
  {tuples : List (Tuple (Value τ))} {table : Table τ}

theorem Agrees.answer_eq {r : Result} {out : QueryOutcome} (h : Agrees r out) :
    answer r = out.succeeded := by
  cases h with
  | affected | duplicateKey | ignored => rfl

theorem Spelled.tells (h : Spelled config e form sts) (hs : sent.Sendable config.useDbTime) :
    Tells config.databaseProduct sent.time sent.params.now e := by
  cases hclock : config.useDbTime with
  | true => exact .inr ⟨(h.told hclock).2, hs.time hclock⟩
  | false =>
    rw [h.param hclock]
    exact .inl rfl

variable [LinearOrder τ]

/-- What the statements of a kind do to the table. -/
def StatementKind.run (p : Params τ) : StatementKind → Table τ → Table τ × QueryOutcome
  | .insert => insertStatement p
  | .update => updateStatement p
  | .extend => extendStatement p
  | .unlock => unlockStatement p

/-- A statement as its text is executed. -/
def SentStatement.runText (dialect : Dialect) (config : SqlConfiguration)
    (sts : SqlStatements) (inherited : Text → Option (Value τ)) (sent : SentStatement τ)
    (tuples : List (Tuple (Value τ))) : Option (List (Tuple (Value τ)) × Bool) :=
  match sent.connection.query (sts.text sent.kind) (sent.record config.useDbTime inherited) with
  | .error _ => none
  | .ok (text, args) =>
    (execute (engine dialect config.databaseProduct sent.time)
      (schema config.tableName config.columnNames) text args tuples).map fun r => (r.1, answer r.2)

def runTexts (dialect : Dialect) (config : SqlConfiguration) (sts : SqlStatements)
    (inherited : Text → Option (Value τ)) :
    List (SentStatement τ) → List (Tuple (Value τ)) → Option (List (Tuple (Value τ)) × List Bool)
  | [], tuples => some (tuples, [])
  | sent :: rest, tuples => do
    let (tuples, b) ← sent.runText dialect config sts inherited tuples
    let (tuples, bs) ← runTexts dialect config sts inherited rest tuples
    return (tuples, b :: bs)

def runStatements : List (SentStatement τ) → Table τ → Table τ × List Bool
  | [], table => (table, [])
  | sent :: rest, table =>
    let (table, out) := sent.kind.run sent.params table
    let (table, bs) := runStatements rest table
    (table, out.succeeded :: bs)

theorem runText_of_parsed {ls : List Lexeme} {s : Statement (Value τ)}
    (names : Names config.tableName config.columnNames) (htext : sts.text sent.kind = spell ls)
    (hscannable : Scannable ls)
    (hparsed : (resolve (.named ':' (sent.record config.useDbTime inherited).own) ls).bind
      statement = some s)
    (hreserved : s.names.any dialect.reserved = false)
    (hexec : ∃ tuples' result, s.exec (engine dialect config.databaseProduct sent.time)
        (schema config.tableName config.columnNames) tuples = some (tuples', result) ∧
      Represents (encoding names) tuples' (sent.kind.run sent.params table).1 ∧
      Agrees result (sent.kind.run sent.params table).2) :
    ∃ tuples', sent.runText dialect config sts inherited tuples =
        some (tuples', (sent.kind.run sent.params table).2.succeeded) ∧
      Represents (encoding names) tuples' (sent.kind.run sent.params table).1 := by
  obtain ⟨tuples', result, hexec, hafter, hagrees⟩ := hexec
  obtain ⟨text, args, hquery, hexecute⟩ := query_executed hscannable hparsed sent.connection
  refine ⟨tuples', ?_, hafter⟩
  rw [SentStatement.runText, htext, hquery]
  dsimp only
  rw [hexecute _ _ _ hreserved, hexec, ← hagrees.answer_eq]
  rfl

/-- The text of a statement has the effect and the answer of the statement. -/
theorem runText_refines (inherited : Text → Option (Value τ))
    (names : Names config.tableName config.columnNames)
    (hreserved : ∀ w ∈ config.identifiers, dialect.reserved (fold w) = false)
    (hexact : dialect.Exact) (h : Spelled config e form sts)
    (hs : sent.Sendable config.useDbTime)
    (hrep : Represents (encoding names) tuples table) :
    ∃ tuples', sent.runText dialect config sts inherited tuples =
        some (tuples', (sent.kind.run sent.params table).2.succeeded) ∧
      Represents (encoding names) tuples' (sent.kind.run sent.params table).1 := by
  have hbound := entries_bound h sent.params
  have htells := h.tells hs
  rcases sent with ⟨kind, p, connection, time⟩
  cases kind with
  | insert =>
    refine runText_of_parsed names ?_
      (scannable (spaced_insert _ _ e form) (valid_insert e form names) (scanned_insert names))
      (insert_parsed names hbound) (names_insert hreserved) (insert_exec names hexact htells hrep)
    rw [h.texts]
    exact insertText_eq _ _ e form
  | update =>
    refine runText_of_parsed names ?_
      (scannable (spaced_update _ _ _) (valid_update _ names) (scanned_update names))
      (update_parsed names hbound) (names_update hreserved) (update_exec names hexact htells hrep)
    rw [h.texts]
    exact updateText_eq _ _ e
  | extend =>
    obtain ⟨previous, hp⟩ := Option.isSome_iff_exists.mp (hs.previous rfl)
    refine runText_of_parsed names ?_
      (scannable (spaced_extend _ _ _) (valid_extend _ names) (scanned_extend names))
      (extend_parsed names hbound hp) (names_extend hreserved)
      (extend_exec names hexact htells hp hrep)
    rw [h.texts]
    exact extendText_eq _ _ e
  | unlock =>
    refine runText_of_parsed names ?_
      (scannable (spaced_unlock _ _) (valid_unlock names) (scanned_unlock names))
      (unlock_parsed names hbound) (names_unlock hreserved) (unlock_exec names hexact hrep)
    rw [h.texts]
    exact unlockText_eq _ _

theorem Names.of_create {options : SqlConfigurationOptions} {hostname : String}
    (hcreate : SqlConfiguration.create options hostname = .ok config)
    (hkeyword : ∀ w ∈ config.identifiers, keyword w = none)
    (hdistinct : (config.columnNames.toList.map fold).Nodup) :
    Names config.tableName config.columnNames :=
  ⟨SqlConfiguration.isWord_of_create hcreate, hkeyword, hdistinct⟩

theorem runTexts_refines (names : Names config.tableName config.columnNames)
    (hreserved : ∀ w ∈ config.identifiers, dialect.reserved (fold w) = false)
    (hexact : dialect.Exact) (h : Spelled config e form sts) {sents : List (SentStatement τ)}
    (hs : ∀ sent ∈ sents, sent.Sendable config.useDbTime)
    (hrep : Represents (encoding names) tuples table) :
    ∃ tuples', runTexts dialect config sts inherited sents tuples =
        some (tuples', (runStatements sents table).2) ∧
      Represents (encoding names) tuples' (runStatements sents table).1 := by
  induction sents generalizing tuples table with
  | nil => exact ⟨tuples, rfl, hrep⟩
  | cons sent rest ih =>
    rw [List.forall_mem_cons] at hs
    obtain ⟨tuples', hrun, hrep'⟩ := runText_refines inherited names hreserved hexact h hs.1 hrep
    obtain ⟨tuples'', hruns, hrep''⟩ := ih hs.2 hrep'
    refine ⟨tuples'', ?_, hrep''⟩
    simp only [runTexts, hrun, Option.bind_eq_bind, Option.bind_some, hruns]
    rfl

/-- The texts that any nodes send through any connections keep the lock table, and are answered, as
the statements are. -/
theorem sql_texts_keep_table {options : SqlConfigurationOptions} {hostname : String}
    (hcreate : SqlConfiguration.create options hostname = .ok config)
    (hsource : createSqlStatementsSource config = .ok sts)
    (hkeyword : ∀ w ∈ config.identifiers, keyword w = none)
    (hreserved : ∀ w ∈ config.identifiers, dialect.reserved (fold w) = false)
    (hexact : dialect.Exact)
    (hdistinct : (config.columnNames.toList.map fold).Nodup) (sents : List (SentStatement τ))
    (hs : ∀ sent ∈ sents, sent.Sendable config.useDbTime)
    (hrep : Represents (encoding (.of_create hcreate hkeyword hdistinct)) tuples table) :
    ∃ tuples', runTexts dialect config sts inherited sents tuples =
        some (tuples', (runStatements sents table).2) ∧
      Represents (encoding (.of_create hcreate hkeyword hdistinct)) tuples'
        (runStatements sents table).1 := by
  obtain ⟨e, form, h⟩ := source_spelled hsource
  exact runTexts_refines _ hreserved hexact h hs hrep

section Nightly

def nightlyOptions : SqlConfigurationOptions :=
  ⟨.sqlServer, none, none, none, none, none, some "host", none, some true⟩

def nightlyConfiguration : SqlConfiguration :=
  ⟨.sqlServer, SqlConfiguration.defaultTableName, SqlConfiguration.defaultColumnNames, "host", none,
    true⟩

/-- The row is made, is not free yet, and is released. -/
def nightlySent : List (SentStatement ℕ) :=
  [⟨.insert, ⟨"nightly", 100, 1, "host", 5, none⟩, .mssql, 1⟩,
    ⟨.update, ⟨"nightly", 120, 20, "host", 24, none⟩, .mssql, 20⟩,
    ⟨.unlock, ⟨"nightly", 100, 30, "host", 30, none⟩, .mssql, 30⟩]

/-- `order` is a word of the product, and its collation is binary. -/
def binary : Dialect := ⟨(· = "order".toList), (· = ·)⟩

theorem nightly_texts_keep_table : ∃ tuples', runTexts binary nightlyConfiguration
      (msSqlServerTimeStatementsSource SqlConfiguration.defaultTableName
        SqlConfiguration.defaultColumnNames) (fun _ => none) nightlySent [] =
        some (tuples', [true, false, true]) := by
  have hsendable : ∀ sent ∈ nightlySent, sent.Sendable nightlyConfiguration.useDbTime := by
    intro sent hsent
    simp only [nightlySent, List.mem_cons, List.not_mem_nil, or_false] at hsent
    rcases hsent with rfl | rfl | rfl <;> exact ⟨nofun, fun _ => rfl⟩
  have hexact : binary.Exact := fun _ _ => decide_eq_true_iff
  obtain ⟨tuples', hrun, -⟩ := @sql_texts_keep_table ℕ binary nightlyConfiguration
    (msSqlServerTimeStatementsSource SqlConfiguration.defaultTableName
      SqlConfiguration.defaultColumnNames) (fun _ => none) [] (fun _ => none) _ nightlyOptions
    "host" rfl rfl (by decide) (by decide) hexact (by decide) nightlySent hsendable
    ⟨List.nodup_nil, by simp⟩
  exact ⟨tuples', hrun⟩

end Nightly

end Runs

end Tslock.Sql
