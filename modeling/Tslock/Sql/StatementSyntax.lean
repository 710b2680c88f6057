import Tslock.Sql.StatementTexts
import Tslock.Sql.Statements

/-! The statement texts as lexemes, and the statements that they are. -/
namespace Tslock.Sql

open Foundation SqlText SqlLanguage

section Lexemes

def keywordLexeme (k : Keyword) : Lexeme := .word k.spelling

def paramLexeme (name : String) : Lexeme := .placeholder (.named ':' name.toList)

/-- What the statements have for the current time. -/
inductive NowExpr where
  | param
  | now
  | getUtcDate
  | utcTimestamp
  | currentTimestamp
  | strftime
deriving DecidableEq, Repr

def NowExpr.lexemes : NowExpr → List Lexeme
  | param => [paramLexeme "now"]
  | now => [.word "now".toList, .symbol .lpar, .symbol .rpar]
  | getUtcDate => [.word "GETUTCDATE".toList, .symbol .lpar, .symbol .rpar]
  | utcTimestamp =>
    [.word "UTC_TIMESTAMP".toList, .symbol .lpar, .number "3".toList, .symbol .rpar]
  | currentTimestamp => [keywordLexeme .CURRENT_TIMESTAMP]
  | strftime =>
    [.word "strftime".toList, .symbol .lpar, .literal "%Y-%m-%dT%H:%M:%fZ".toList, .symbol .comma,
      .blank, .literal "now".toList, .symbol .rpar]

/-- How an insert statement leaves a row that is there alone. -/
inductive InsertForm where
  | plain
  | orIgnore
  | onConflictDoNothing
deriving DecidableEq, Repr

def InsertForm.verb : InsertForm → List Lexeme
  | plain | onConflictDoNothing => [keywordLexeme .INSERT]
  | orIgnore => [keywordLexeme .INSERT, .blank, keywordLexeme .OR, .blank, keywordLexeme .IGNORE]

variable (t : Text) (c : ColumnNames) (e : NowExpr) (form : InsertForm)

def InsertForm.ending : InsertForm → List Lexeme
  | plain | orIgnore => []
  | onConflictDoNothing =>
    [.blank, keywordLexeme .ON, .blank, keywordLexeme .CONFLICT, .blank, .symbol .lpar,
      .word c.name, .symbol .rpar, .blank, keywordLexeme .DO, .blank, keywordLexeme .NOTHING]

def insertLexemes : List Lexeme :=
  form.verb ++ [.blank, keywordLexeme .INTO, .blank, .word t, .symbol .lpar, .word c.name,
    .symbol .comma, .blank, .word c.lockUntil, .symbol .comma, .blank, .word c.lockedAt,
    .symbol .comma, .blank, .word c.lockedBy, .symbol .rpar, .blank, keywordLexeme .VALUES,
    .symbol .lpar, paramLexeme "name", .symbol .comma, .blank, paramLexeme "lockUntil",
    .symbol .comma, .blank] ++ e.lexemes ++
    [.symbol .comma, .blank, paramLexeme "lockedBy", .symbol .rpar] ++ form.ending c

def equals (column : Text) (param : String) : List Lexeme :=
  [.word column, .blank, .symbol .eq, .blank, paramLexeme param]

def andLexemes : List Lexeme := [.blank, keywordLexeme .AND, .blank]

def updateLexemes : List Lexeme :=
  [keywordLexeme .UPDATE, .blank, .word t, .blank, keywordLexeme .SET, .blank] ++
    equals c.lockUntil "lockUntil" ++ [.symbol .comma, .blank, .word c.lockedAt, .blank,
    .symbol .eq, .blank] ++ e.lexemes ++ [.symbol .comma, .blank] ++ equals c.lockedBy "lockedBy" ++
    [.blank, keywordLexeme .WHERE, .blank] ++ equals c.name "name" ++ andLexemes ++
    [.word c.lockUntil, .blank, .symbol .le, .blank] ++ e.lexemes

def extendLexemes : List Lexeme :=
  [keywordLexeme .UPDATE, .blank, .word t, .blank, keywordLexeme .SET, .blank] ++
    equals c.lockUntil "lockUntil" ++ [.blank, keywordLexeme .WHERE, .blank] ++
    equals c.name "name" ++ andLexemes ++ equals c.lockedBy "lockedBy" ++ andLexemes ++
    [.word c.lockUntil, .blank, .symbol .gt, .blank] ++ e.lexemes ++ andLexemes ++
    equals c.lockUntil "previousLockUntil"

def unlockLexemes : List Lexeme :=
  [keywordLexeme .UPDATE, .blank, .word t, .blank, keywordLexeme .SET, .blank] ++
    equals c.lockUntil "unlockTime" ++ [.blank, keywordLexeme .WHERE, .blank] ++
    equals c.name "name" ++ andLexemes ++ equals c.lockedBy "lockedBy" ++ andLexemes ++
    equals c.lockUntil "lockUntil"

theorem spell_append (xs ys : List Lexeme) : spell (xs ++ ys) = spell xs ++ spell ys :=
  List.flatMap_append

theorem spell_cons (l : Lexeme) (ls : List Lexeme) : spell (l :: ls) = l.spell ++ spell ls := rfl

theorem spell_nil : spell [] = [] := rfl

theorem insertText_eq : insertText t c (spell e.lexemes) (spell form.verb) (spell (form.ending c)) =
    spell (insertLexemes t c e form) := by
  unfold insertLexemes insertText
  simp only [spell_append, spell_cons, spell_nil, List.append_assoc, List.nil_append]
  rfl

theorem updateText_eq : updateText t c (spell e.lexemes) = spell (updateLexemes t c e) := by
  unfold updateLexemes updateText
  simp only [equals, andLexemes, spell_append, spell_cons, spell_nil, List.append_assoc,
    List.nil_append]
  rfl

theorem extendText_eq : extendText t c (spell e.lexemes) = spell (extendLexemes t c e) := by
  unfold extendLexemes extendText
  simp only [equals, andLexemes, spell_append, spell_cons, spell_nil, List.append_assoc,
    List.nil_append]
  rfl

theorem unlockText_eq : unlockText t c = spell (unlockLexemes t c) := by
  unfold unlockLexemes unlockText
  simp only [equals, andLexemes, spell_append, spell_cons, spell_nil, List.append_assoc,
    List.nil_append]
  rfl

theorem valid_word (w : Text) : (Lexeme.word w).valid = isWord w := rfl

theorem valid_now : e.lexemes.all Lexeme.valid = true := by cases e <;> rfl

/-- The identifiers of a configuration as names: none is a keyword, and no two columns have one
name. -/
structure Names (t : Text) (c : ColumnNames) : Prop where
  word : ∀ w ∈ t :: c.toList, isWord w = true
  notKeyword : ∀ w ∈ t :: c.toList, keyword w = none
  distinct : (c.toList.map fold).Nodup

section Valid

variable {t c}

theorem Names.valid (h : Names t c) : isWord t = true ∧ isWord c.name = true ∧
    isWord c.lockUntil = true ∧ isWord c.lockedAt = true ∧ isWord c.lockedBy = true := by
  have hword := h.word
  simp only [ColumnNames.toList, List.forall_mem_cons] at hword
  obtain ⟨ht, hname, hlockUntil, hlockedAt, hlockedBy, -⟩ := hword
  exact ⟨ht, hname, hlockUntil, hlockedAt, hlockedBy⟩

theorem valid_insert (h : Names t c) : (insertLexemes t c e form).all Lexeme.valid = true := by
  obtain ⟨ht, hname, hlockUntil, hlockedAt, hlockedBy⟩ := h.valid
  have hverb : form.verb.all Lexeme.valid = true := by cases form <;> rfl
  have hending : (form.ending c).all Lexeme.valid = true := by
    cases form with
    | plain | orIgnore => rfl
    | onConflictDoNothing =>
      simp only [InsertForm.ending, List.all_cons, valid_word, hname]
      rfl
  simp only [insertLexemes, List.all_append, List.all_cons, hverb, hending, valid_now,
    valid_word, ht, hname, hlockUntil, hlockedAt, hlockedBy]
  rfl

theorem valid_equals {column : Text} {param : String} (hc : isWord column = true) :
    (equals column param).all Lexeme.valid = (paramLexeme param).valid := by
  simp only [equals, List.all_cons, valid_word, hc, List.all_nil, Bool.and_true, Bool.true_and]
  rfl

theorem valid_and : andLexemes.all Lexeme.valid = true := rfl

theorem valid_update (h : Names t c) : (updateLexemes t c e).all Lexeme.valid = true := by
  obtain ⟨ht, hname, hlockUntil, hlockedAt, hlockedBy⟩ := h.valid
  simp only [updateLexemes, List.all_append, List.all_cons, valid_now, valid_and,
    valid_equals hlockUntil, valid_equals hlockedBy, valid_equals hname, valid_word,
    ht, hlockUntil, hlockedAt]
  rfl

theorem valid_extend (h : Names t c) : (extendLexemes t c e).all Lexeme.valid = true := by
  obtain ⟨ht, hname, hlockUntil, -, hlockedBy⟩ := h.valid
  simp only [extendLexemes, List.all_append, List.all_cons, valid_now, valid_and,
    valid_equals hlockUntil, valid_equals hlockedBy, valid_equals hname, valid_word,
    ht, hlockUntil]
  rfl

theorem valid_unlock (h : Names t c) : (unlockLexemes t c).all Lexeme.valid = true := by
  obtain ⟨ht, hname, hlockUntil, -, hlockedBy⟩ := h.valid
  simp only [unlockLexemes, List.all_append, List.all_cons, valid_and,
    valid_equals hlockUntil, valid_equals hlockedBy, valid_equals hname, valid_word,
    ht]
  rfl

end Valid

theorem spaced_insert : spaced (insertLexemes t c e form) = true := by
  cases e <;> cases form <;> rfl

theorem spaced_update : spaced (updateLexemes t c e) = true := by cases e <;> rfl

theorem spaced_extend : spaced (extendLexemes t c e) = true := by cases e <;> rfl

theorem spaced_unlock : spaced (unlockLexemes t c) = true := rfl

end Lexemes

/-- What is bound and stored. -/
inductive Value (τ : Type) where
  | text (s : String)
  | instant (t : τ)
deriving DecidableEq

variable {τ : Type}

/-- A record of the parameters by their names. `now` is bound where the statements ask for it. -/
structure Bound (p : Params τ) (e : NowExpr) (lookup : Text → Option (Value τ)) : Prop where
  name : lookup "name".toList = some (.text p.name)
  lockUntil : lookup "lockUntil".toList = some (.instant p.lockUntil)
  now : e = .param → lookup "now".toList = some (.instant p.now)
  lockedBy : lookup "lockedBy".toList = some (.text p.lockedBy)
  unlockTime : lookup "unlockTime".toList = some (.instant p.unlockTime)
  previousLockUntil : lookup "previousLockUntil".toList = p.previousLockUntil.map .instant

section Parsing

/-- The function a statement asks for the time. -/
def NowExpr.call : NowExpr → Option (Text × List Text)
  | param => none
  | now => some ("now".toList, [])
  | getUtcDate => some ("getutcdate".toList, [])
  | utcTimestamp => some ("utc_timestamp".toList, ["3".toList])
  | currentTimestamp => some ("current_timestamp".toList, [])
  | strftime => some ("strftime".toList, ["%Y-%m-%dT%H:%M:%fZ".toList, "now".toList])

def NowExpr.expr (time : τ) (e : NowExpr) : Expr (Value τ) :=
  match e.call with
  | none => .value (.instant time)
  | some (f, arguments) => .call f arguments

def InsertForm.onConflict (c : ColumnNames) : InsertForm → OnConflict
  | plain => .fail
  | orIgnore => .ignore
  | onConflictDoNothing => .doNothing (fold c.name)

variable (t : Text) (c : ColumnNames) (e : NowExpr) (form : InsertForm) (p : Params τ)

def insertSyntax : Statement (Value τ) :=
  .insert (fold t) (c.toList.map fold)
    [.value (.text p.name), .value (.instant p.lockUntil), e.expr p.now, .value (.text p.lockedBy)]
    (form.onConflict c)

def updateSyntax : Statement (Value τ) :=
  .update (fold t)
    [(fold c.lockUntil, .value (.instant p.lockUntil)), (fold c.lockedAt, e.expr p.now),
      (fold c.lockedBy, .value (.text p.lockedBy))]
    [⟨fold c.name, .eq, .value (.text p.name)⟩, ⟨fold c.lockUntil, .le, e.expr p.now⟩]

def extendSyntax (previous : τ) : Statement (Value τ) :=
  .update (fold t) [(fold c.lockUntil, .value (.instant p.lockUntil))]
    [⟨fold c.name, .eq, .value (.text p.name)⟩, ⟨fold c.lockedBy, .eq, .value (.text p.lockedBy)⟩,
      ⟨fold c.lockUntil, .gt, e.expr p.now⟩,
      ⟨fold c.lockUntil, .eq, .value (.instant previous)⟩]

def unlockSyntax : Statement (Value τ) :=
  .update (fold t) [(fold c.lockUntil, .value (.instant p.unlockTime))]
    [⟨fold c.name, .eq, .value (.text p.name)⟩, ⟨fold c.lockedBy, .eq, .value (.text p.lockedBy)⟩,
      ⟨fold c.lockUntil, .eq, .value (.instant p.lockUntil)⟩]

variable {t c e form p} {lookup : Text → Option (Value τ)}

theorem Names.tokens {V : Type} (h : Names t c) : wordToken t = (.name (fold t) : Token V) ∧
    wordToken c.name = (.name (fold c.name) : Token V) ∧
    wordToken c.lockUntil = (.name (fold c.lockUntil) : Token V) ∧
    wordToken c.lockedAt = (.name (fold c.lockedAt) : Token V) ∧
    wordToken c.lockedBy = (.name (fold c.lockedBy) : Token V) := by
  have hkeyword := h.notKeyword
  simp only [ColumnNames.toList, List.forall_mem_cons] at hkeyword
  obtain ⟨ht, hname, hlockUntil, hlockedAt, hlockedBy, -⟩ := hkeyword
  simp only [wordToken, ht, hname, hlockUntil, hlockedAt, hlockedBy, and_self]

/-- The current time as a statement reads it. -/
def NowExpr.tokens (time : τ) : NowExpr → List (Token (Value τ))
  | param => [.value (.instant time)]
  | now => [.name "now".toList, .symbol .lpar, .symbol .rpar]
  | getUtcDate => [.name "getutcdate".toList, .symbol .lpar, .symbol .rpar]
  | utcTimestamp => [.name "utc_timestamp".toList, .symbol .lpar, .number "3".toList, .symbol .rpar]
  | currentTimestamp => [.keyword .CURRENT_TIMESTAMP]
  | strftime =>
    [.name "strftime".toList, .symbol .lpar, .literal "%Y-%m-%dT%H:%M:%fZ".toList, .symbol .comma,
      .literal "now".toList, .symbol .rpar]

theorem now_resolved (hb : Bound p e lookup) :
    resolve (.named ':' lookup) e.lexemes = some (e.tokens p.now) := by
  cases e with
  | param =>
    have hnow := hb.now rfl
    simp only [NowExpr.lexemes, paramLexeme, resolve, lexemeTokens, Arguments.value, if_true, hnow]
    rfl
  | now | getUtcDate | utcTimestamp | currentTimestamp | strftime => rfl

theorem verb_resolved : resolve (.named ':' lookup) form.verb = some (match form with
    | .plain | .onConflictDoNothing => [.keyword .INSERT]
    | .orIgnore => [.keyword .INSERT, .keyword .OR, .keyword .IGNORE]) := by
  cases form <;> rfl

theorem ending_resolved (h : Names t c) :
    resolve (.named ':' lookup) (form.ending c) = some (match form with
      | .plain | .orIgnore => []
      | .onConflictDoNothing => [.keyword .ON, .keyword .CONFLICT, .symbol .lpar,
        .name (fold c.name), .symbol .rpar, .keyword .DO, .keyword .NOTHING]) := by
  obtain ⟨-, hname, -⟩ := h.tokens (V := Value τ)
  cases form with
  | plain | orIgnore => rfl
  | onConflictDoNothing =>
    simp only [InsertForm.ending, resolve, lexemeTokens, hname]
    rfl

theorem insert_parsed (h : Names t c) (hb : Bound p e lookup) :
    (resolve (.named ':' lookup) (insertLexemes t c e form)).bind statement =
      some (insertSyntax t c e form p) := by
  obtain ⟨ht, hname, hlockUntil, hlockedAt, hlockedBy⟩ := h.tokens (V := Value τ)
  have hcolumns : resolve (.named ':' lookup) [.blank, keywordLexeme .INTO, .blank, .word t,
      .symbol .lpar, .word c.name, .symbol .comma, .blank, .word c.lockUntil, .symbol .comma,
      .blank, .word c.lockedAt, .symbol .comma, .blank, .word c.lockedBy, .symbol .rpar, .blank,
      keywordLexeme .VALUES, .symbol .lpar, paramLexeme "name", .symbol .comma, .blank,
      paramLexeme "lockUntil", .symbol .comma, .blank] = some [.keyword .INTO, .name (fold t),
      .symbol .lpar, .name (fold c.name), .symbol .comma, .name (fold c.lockUntil), .symbol .comma,
      .name (fold c.lockedAt), .symbol .comma, .name (fold c.lockedBy), .symbol .rpar,
      .keyword .VALUES, .symbol .lpar, .value (.text p.name), .symbol .comma,
      .value (.instant p.lockUntil), .symbol .comma] := by
    simp only [resolve, lexemeTokens, paramLexeme, Arguments.value, if_true, ht, hname, hlockUntil,
      hlockedAt, hlockedBy, hb.name, hb.lockUntil]
    rfl
  have htail : resolve (.named ':' lookup) [.symbol .comma, .blank, paramLexeme "lockedBy",
      .symbol .rpar] = some [.symbol .comma, .value (.text p.lockedBy), .symbol .rpar] := by
    simp only [resolve, lexemeTokens, paramLexeme, Arguments.value, if_true, hb.lockedBy]
    rfl
  rw [insertLexemes, resolve_append (resolve_append (resolve_append (resolve_append verb_resolved
    hcolumns) (now_resolved hb)) htail) (ending_resolved h)]
  cases e <;> cases form <;> rfl

theorem equals_resolved {column : Text} {param : String} {v : Value τ}
    (hc : wordToken column = (.name (fold column) : Token (Value τ)))
    (hv : lookup param.toList = some v) :
    resolve (.named ':' lookup) (equals column param) =
      some [.name (fold column), .symbol .eq, .value v] := by
  simp only [equals, resolve, lexemeTokens, paramLexeme, Arguments.value, if_true, hc, hv]
  rfl

/-- `UPDATE t SET ` -/
theorem set_resolved (ht : wordToken t = (.name (fold t) : Token (Value τ))) :
    resolve (.named ':' lookup)
        [keywordLexeme .UPDATE, .blank, .word t, .blank, keywordLexeme .SET, .blank] =
      some [.keyword .UPDATE, .name (fold t), .keyword .SET] := by
  simp only [resolve, lexemeTokens, ht]
  rfl

theorem and_resolved :
    resolve (.named ':' lookup) andLexemes = some [(.keyword .AND : Token (Value τ))] := rfl

theorem where_resolved : resolve (.named ':' lookup) [.blank, keywordLexeme .WHERE, .blank] =
    some [(.keyword .WHERE : Token (Value τ))] := rfl

/-- A column in front of a comparison or an assignment. -/
theorem column_resolved {column : Text} {s : Symbol}
    (hc : wordToken column = (.name (fold column) : Token (Value τ))) :
    resolve (.named ':' lookup) [.word column, .blank, .symbol s, .blank] =
      some [.name (fold column), .symbol s] := by
  simp only [resolve, lexemeTokens, hc]
  rfl

theorem update_parsed (h : Names t c) (hb : Bound p e lookup) :
    (resolve (.named ':' lookup) (updateLexemes t c e)).bind statement =
      some (updateSyntax t c e p) := by
  obtain ⟨ht, hname, hlockUntil, hlockedAt, hlockedBy⟩ := h.tokens (V := Value τ)
  have hat : resolve (.named ':' lookup)
      [.symbol .comma, .blank, .word c.lockedAt, .blank, .symbol .eq, .blank] =
        some [.symbol .comma, .name (fold c.lockedAt), .symbol .eq] := by
    simp only [resolve, lexemeTokens, hlockedAt]
    rfl
  have hcomma : resolve (.named ':' lookup) [.symbol .comma, .blank] =
      some [(.symbol .comma : Token (Value τ))] := rfl
  have hnow := now_resolved hb
  have hsets := resolve_append (resolve_append (resolve_append (resolve_append (resolve_append
    (set_resolved ht) (equals_resolved hlockUntil hb.lockUntil)) hat) hnow) hcomma)
    (equals_resolved hlockedBy hb.lockedBy)
  rw [updateLexemes, resolve_append (resolve_append (resolve_append (resolve_append (resolve_append
    hsets where_resolved) (equals_resolved hname hb.name)) and_resolved)
    (column_resolved hlockUntil)) hnow]
  cases e <;> rfl

theorem extend_parsed {previous : τ} (h : Names t c) (hb : Bound p e lookup)
    (hp : p.previousLockUntil = some previous) :
    (resolve (.named ':' lookup) (extendLexemes t c e)).bind statement =
      some (extendSyntax t c e p previous) := by
  obtain ⟨ht, hname, hlockUntil, -, hlockedBy⟩ := h.tokens (V := Value τ)
  have hprevious : lookup "previousLockUntil".toList = some (.instant previous) := by
    rw [hb.previousLockUntil, hp]
    rfl
  have hwhere := resolve_append (resolve_append (resolve_append (resolve_append (set_resolved ht)
    (equals_resolved hlockUntil hb.lockUntil)) where_resolved) (equals_resolved hname hb.name))
    and_resolved
  rw [extendLexemes, resolve_append (resolve_append (resolve_append (resolve_append (resolve_append
    (resolve_append hwhere (equals_resolved hlockedBy hb.lockedBy)) and_resolved)
    (column_resolved hlockUntil)) (now_resolved hb)) and_resolved)
    (equals_resolved hlockUntil hprevious)]
  cases e <;> rfl

theorem unlock_parsed (h : Names t c) (hb : Bound p e lookup) :
    (resolve (.named ':' lookup) (unlockLexemes t c)).bind statement =
      some (unlockSyntax t c p) := by
  obtain ⟨ht, hname, hlockUntil, -, hlockedBy⟩ := h.tokens (V := Value τ)
  have hwhere := resolve_append (resolve_append (resolve_append (resolve_append (set_resolved ht)
    (equals_resolved hlockUntil hb.unlockTime)) where_resolved) (equals_resolved hname hb.name))
    and_resolved
  rw [unlockLexemes, resolve_append (resolve_append (resolve_append
    hwhere (equals_resolved hlockedBy hb.lockedBy)) and_resolved)
    (equals_resolved hlockUntil hb.lockUntil)]
  rfl

end Parsing

end Tslock.Sql
