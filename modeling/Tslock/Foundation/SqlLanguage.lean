import Mathlib.Data.List.Basic
import Mathlib.Data.List.Nodup
import Mathlib.Logic.Function.Basic
import Tslock.Foundation.SqlText

/-! `INSERT` and `UPDATE` statements of SQL: their grammar, what they do to the tuples of a table
with a primary key, and how such a table is a function of its keys. -/
namespace Foundation.SqlLanguage

open Function SqlText

inductive Keyword where
  | INSERT
  | OR
  | IGNORE
  | INTO
  | VALUES
  | ON
  | CONFLICT
  | DO
  | NOTHING
  | UPDATE
  | SET
  | WHERE
  | AND
  | CURRENT_TIMESTAMP
deriving DecidableEq, Repr

def Keyword.spelling : Keyword → Text
  | INSERT => "INSERT".toList
  | OR => "OR".toList
  | IGNORE => "IGNORE".toList
  | INTO => "INTO".toList
  | VALUES => "VALUES".toList
  | ON => "ON".toList
  | CONFLICT => "CONFLICT".toList
  | DO => "DO".toList
  | NOTHING => "NOTHING".toList
  | UPDATE => "UPDATE".toList
  | SET => "SET".toList
  | WHERE => "WHERE".toList
  | AND => "AND".toList
  | CURRENT_TIMESTAMP => "CURRENT_TIMESTAMP".toList

def keywords : List Keyword :=
  [.INSERT, .OR, .IGNORE, .INTO, .VALUES, .ON, .CONFLICT, .DO, .NOTHING, .UPDATE, .SET, .WHERE,
    .AND, .CURRENT_TIMESTAMP]

/-- Keywords are reserved in any case. -/
def keyword (w : Text) : Option Keyword :=
  keywords.find? fun k => k.spelling == w.map Char.toUpper

/-- A name that is not quoted stands for itself in any case. -/
def fold (w : Text) : Text := w.map Char.toLower

inductive Token (V : Type) where
  | keyword (k : Keyword)
  | name (n : Text)
  | number (n : Text)
  | literal (s : Text)
  | symbol (s : Symbol)
  | value (v : V)

variable {V : Type}

/-- The values that come with a text: by name, or as a list. -/
inductive Arguments (V : Type) where
  | named (marker : Char) (lookup : Text → Option V)
  | listed (values : List V)

/-- The value for a placeholder. -/
def Arguments.value : Arguments V → Placeholder → Option V
  | named marker lookup, .named m name => if m = marker then lookup name else none
  | listed values, .numbered (i + 1) => values[i]?
  | _, _ => none

/-- Question marks stand for the values of a list in order. -/
def positions : ℕ → List Lexeme → List Lexeme
  | _, [] => []
  | i, .placeholder .questionMark :: ls => .placeholder (.numbered i) :: positions (i + 1) ls
  | i, l :: ls => l :: positions i ls

def wordToken (w : Text) : Token V :=
  match keyword w with
  | some k => .keyword k
  | none => .name (fold w)

def lexemeTokens (args : Arguments V) : Lexeme → Option (List (Token V))
  | .blank => some []
  | .word w => some [wordToken w]
  | .number n => some [.number n]
  | .literal s => some [.literal s]
  | .symbol s => some [.symbol s]
  | .placeholder p => (args.value p).map fun v => [.value v]

/-- A text as a statement reads it, with values for the placeholders. -/
def resolve (args : Arguments V) : List Lexeme → Option (List (Token V))
  | [] => some []
  | l :: ls => (lexemeTokens args l).bind fun ts => (resolve args ls).map (ts ++ ·)

section Resolving

variable {args : Arguments V} {l : Lexeme} {xs ys : List Lexeme} {ts us : List (Token V)}

theorem resolve_cons (h : lexemeTokens args l = some ts) (hs : resolve args xs = some us) :
    resolve args (l :: xs) = some (ts ++ us) := by
  rw [resolve, h, hs]
  rfl

theorem resolve_append (h : resolve args xs = some ts) (hs : resolve args ys = some us) :
    resolve args (xs ++ ys) = some (ts ++ us) := by
  induction xs generalizing ts with
  | nil =>
    cases h
    exact hs
  | cons l xs ih =>
    obtain ⟨first, hl, hrest⟩ := Option.bind_eq_some_iff.mp h
    obtain ⟨rest, hxs, rfl⟩ := Option.map_eq_some_iff.mp hrest
    rw [List.cons_append, List.append_assoc]
    exact resolve_cons hl (ih hxs)

end Resolving

inductive Expr (V : Type) where
  | value (v : V)
  | call (f : Text) (arguments : List Text)

inductive Operator where
  | eq
  | le
  | gt
deriving DecidableEq, Repr

structure Condition (V : Type) where
  column : Text
  operator : Operator
  expr : Expr V

/-- What an `INSERT` does where its key is taken. -/
inductive OnConflict where
  | fail
  | ignore
  | doNothing (column : Text)

inductive Statement (V : Type) where
  | insert (table : Text) (columns : List Text) (values : List (Expr V)) (onConflict : OnConflict)
  | update (table : Text) (assignments : List (Text × Expr V)) (conditions : List (Condition V))

section Grammar

abbrev Parser (V α : Type) := List (Token V) → Option (α × List (Token V))

def names : Parser V (List Text)
  | .name a :: .symbol .comma :: ts => (names ts).map fun r => (a :: r.1, r.2)
  | .name a :: .symbol .rpar :: ts => some ([a], ts)
  | _ => none

/-- The arguments of a function. -/
def constants : Parser V (List Text)
  | .number n :: .symbol .comma :: ts => (constants ts).map fun r => (n :: r.1, r.2)
  | .literal s :: .symbol .comma :: ts => (constants ts).map fun r => (s :: r.1, r.2)
  | .number n :: .symbol .rpar :: ts => some ([n], ts)
  | .literal s :: .symbol .rpar :: ts => some ([s], ts)
  | _ => none

def expr : Parser V (Expr V)
  | .value v :: ts => some (.value v, ts)
  | .keyword .CURRENT_TIMESTAMP :: ts =>
    some (.call (fold Keyword.CURRENT_TIMESTAMP.spelling) [], ts)
  | .name f :: .symbol .lpar :: .symbol .rpar :: ts => some (.call f [], ts)
  | .name f :: .symbol .lpar :: ts => (constants ts).map fun r => (.call f r.1, r.2)
  | _ => none

def exprs : ℕ → Parser V (List (Expr V))
  | 0, _ => none
  | n + 1, ts =>
    match expr ts with
    | some (e, .symbol .comma :: ts) => (exprs n ts).map fun r => (e :: r.1, r.2)
    | some (e, .symbol .rpar :: ts) => some ([e], ts)
    | _ => none

def assignments : ℕ → Parser V (List (Text × Expr V))
  | n + 1, .name c :: .symbol .eq :: ts =>
    match expr ts with
    | some (e, .symbol .comma :: ts) => (assignments n ts).map fun r => ((c, e) :: r.1, r.2)
    | some (e, ts) => some ([(c, e)], ts)
    | none => none
  | _, _ => none

def operator : Symbol → Option Operator
  | .eq => some .eq
  | .le => some .le
  | .gt => some .gt
  | _ => none

/-- Comparisons up to the end of the text. -/
def conditions : ℕ → List (Token V) → Option (List (Condition V))
  | n + 1, .name c :: .symbol s :: ts =>
    match operator s, expr ts with
    | some op, some (e, .keyword .AND :: ts) => (conditions n ts).map (⟨c, op, e⟩ :: ·)
    | some op, some (e, []) => some [⟨c, op, e⟩]
    | _, _ => none
  | _, _ => none

def onConflict : OnConflict → List (Token V) → Option OnConflict
  | c, [] => some c
  | .fail, [.keyword .ON, .keyword .CONFLICT, .symbol .lpar, .name c, .symbol .rpar, .keyword .DO,
      .keyword .NOTHING] => some (.doNothing c)
  | _, _ => none

def insertInto (conflict : OnConflict) : List (Token V) → Option (Statement V)
  | .name table :: .symbol .lpar :: ts =>
    match names ts with
    | some (columns, .keyword .VALUES :: .symbol .lpar :: ts) =>
      match exprs ts.length ts with
      | some (values, ts) => (onConflict conflict ts).map (.insert table columns values ·)
      | none => none
    | _ => none
  | _ => none

def update (table : Text) (ts : List (Token V)) : Option (Statement V) :=
  match assignments ts.length ts with
  | some (sets, .keyword .WHERE :: ts) => (conditions ts.length ts).map (.update table sets ·)
  | _ => none

def statement : List (Token V) → Option (Statement V)
  | .keyword .INSERT :: .keyword .INTO :: ts => insertInto .fail ts
  | .keyword .INSERT :: .keyword .OR :: .keyword .IGNORE :: .keyword .INTO :: ts =>
    insertInto .ignore ts
  | .keyword .UPDATE :: .name table :: .keyword .SET :: ts => update table ts
  | _ => none

end Grammar

/-- The values of the columns. -/
abbrev Tuple (V : Type) := Text → Option V

/-- A database: which names are words of its own, what the functions of the statements yield, and
how values compare. -/
structure Engine (V : Type) where
  reserved : Text → Bool
  call : Text → List Text → Option V
  compare : Operator → V → V → Bool

/-- The table and the columns a statement names. -/
def Statement.names : Statement V → List Text
  | insert table columns _ (.doNothing column) => table :: column :: columns
  | insert table columns _ _ => table :: columns
  | update table assignments conditions =>
    table :: (assignments.map Prod.fst ++ conditions.map Condition.column)

structure Schema where
  table : Text
  columns : List Text
  key : Text

inductive Result where
  | affected (n : ℕ)
  | duplicateKey
deriving DecidableEq, Repr

theorem lookup_cons_if {k c : Text} {v : V} {rest : List (Text × V)} :
    ((c, v) :: rest).lookup k = if k = c then some v else rest.lookup k := by
  rw [List.lookup_cons]
  split
  · next h => rw [if_pos (eq_of_beq h)]
  · next h => rw [if_neg (ne_of_beq_false h)]

section Execution

variable (engine : Engine V) (schema : Schema)

def Expr.eval : Expr V → Option V
  | value v => some v
  | call f arguments => engine.call f arguments

/-- A comparison with a column that has no value does not hold. -/
def holds (conditions : List (Text × Operator × V)) (t : Tuple V) : Bool :=
  conditions.all fun (c, op, v) => (t c).any fun x => engine.compare op x v

def assign (sets : List (Text × V)) (t : Tuple V) : Tuple V := fun c => (sets.lookup c).or (t c)

/-- A key is taken where one is there that compares equal. -/
def insertTuple (conflict : OnConflict) (t : Tuple V) (tuples : List (Tuple V)) :
    Option (List (Tuple V) × Result) :=
  if tuples.any fun u => (u schema.key).any fun x => (t schema.key).any (engine.compare .eq x) then
    match conflict with
    | .fail => some (tuples, .duplicateKey)
    | .ignore => some (tuples, .affected 0)
    | .doNothing column => if column = schema.key then some (tuples, .affected 0) else none
  else some (tuples ++ [t], .affected 1)

/-- What a statement does to the tuples of the table, `none` where the database refuses it. -/
def Statement.exec (tuples : List (Tuple V)) : Statement V → Option (List (Tuple V) × Result)
  | insert table columns values conflict => do
    if table = schema.table ∧ columns.Nodup ∧ columns ⊆ schema.columns ∧ schema.key ∈ columns ∧
        columns.length = values.length then
      let vs ← values.mapM (Expr.eval engine)
      insertTuple engine schema conflict (fun c => (columns.zip vs).lookup c) tuples
    else none
  | update table sets conditions => do
    if table = schema.table ∧ (sets.map Prod.fst).Nodup ∧ sets.map Prod.fst ⊆ schema.columns ∧
        schema.key ∉ sets.map Prod.fst ∧ conditions.map Condition.column ⊆ schema.columns then
      let sets ← sets.mapM fun (c, e) => return (c, ← e.eval engine)
      let conditions ← conditions.mapM fun c => return (c.column, c.operator, ← c.expr.eval engine)
      let matched := holds engine conditions
      return (tuples.map fun t => if matched t then assign sets t else t,
        .affected (tuples.countP matched))
    else none

/-- A text with its arguments, as a database executes it. -/
def execute (text : Text) (args : Arguments V) (tuples : List (Tuple V)) :
    Option (List (Tuple V) × Result) := do
  let ls ← lex text
  let ts ← resolve args (positions 1 ls)
  let s ← statement ts
  if s.names.any engine.reserved then none else s.exec engine schema tuples

variable {engine schema} {columns : List Text} {values : List (Expr V)} {vs : List V}
  {conflict : OnConflict} {tuples : List (Tuple V)} {sets : List (Text × Expr V)}
  {assigned : List (Text × V)} {conditions : List (Condition V)}
  {compared : List (Text × Operator × V)}

theorem exec_insert (hnodup : columns.Nodup) (hsubset : columns ⊆ schema.columns)
    (hkey : schema.key ∈ columns) (hlength : columns.length = values.length)
    (hvalues : values.mapM (Expr.eval engine) = some vs) :
    (Statement.insert schema.table columns values conflict).exec engine schema tuples =
      insertTuple engine schema conflict (fun c => (columns.zip vs).lookup c) tuples := by
  simp only [Statement.exec]
  rw [if_pos ⟨trivial, hnodup, hsubset, hkey, hlength⟩, hvalues]
  rfl

theorem exec_update (hnodup : (sets.map Prod.fst).Nodup)
    (hsubset : sets.map Prod.fst ⊆ schema.columns) (hkey : schema.key ∉ sets.map Prod.fst)
    (hcolumns : conditions.map Condition.column ⊆ schema.columns)
    (hsets : (sets.mapM fun (c, e) => return (c, ← e.eval engine)) = some assigned)
    (hconditions : (conditions.mapM fun c => return (c.column, c.operator, ← c.expr.eval engine)) =
      some compared) :
    (Statement.update schema.table sets conditions).exec engine schema tuples =
      some (tuples.map fun t => if holds engine compared t then assign assigned t else t,
        .affected (tuples.countP (holds engine compared))) := by
  simp only [Statement.exec]
  rw [if_pos ⟨trivial, hnodup, hsubset, hkey, hcolumns⟩, hsets, hconditions]
  rfl

end Execution

section Tables

variable {K R : Type}

/-- The rows of a table as its tuples; `keyValue` is what the primary key carries. -/
structure Encoding (V K R : Type) (key : Text) where
  tuple : K → R → Tuple V
  keyValue : K → V
  keyValue_injective : Injective keyValue
  key_eq : ∀ k r, tuple k r key = some (keyValue k)
  row_injective : ∀ k, Injective (tuple k)

/-- Keys compare equal only with themselves. -/
def Encoding.KeysCompared {key : Text} (encoding : Encoding V K R key) (engine : Engine V) : Prop :=
  ∀ k k', engine.compare .eq (encoding.keyValue k) (encoding.keyValue k') = true ↔ k = k'

variable {key : Text} {encoding : Encoding V K R key} {tuples : List (Tuple V)}
  {table : K → Option R} {k : K} {r : R}

/-- The tuples of a table are its rows, each once. -/
structure Represents (encoding : Encoding V K R key) (tuples : List (Tuple V))
    (table : K → Option R) : Prop where
  nodup : tuples.Nodup
  mem : ∀ t, t ∈ tuples ↔ ∃ k r, table k = some r ∧ t = encoding.tuple k r

theorem Encoding.tuple_inj {k' : K} {r' : R} (h : encoding.tuple k r = encoding.tuple k' r') :
    k = k' ∧ r = r' := by
  have hkey := congrFun h key
  rw [encoding.key_eq, encoding.key_eq] at hkey
  obtain rfl := encoding.keyValue_injective (Option.some.inj hkey)
  exact ⟨rfl, encoding.row_injective k h⟩

theorem Represents.mem_of (h : Represents encoding tuples table) (hr : table k = some r) :
    encoding.tuple k r ∈ tuples := (h.mem _).mpr ⟨k, r, hr, rfl⟩

theorem Represents.of_mem (h : Represents encoding tuples table)
    (ht : encoding.tuple k r ∈ tuples) : table k = some r := by
  obtain ⟨k', r', hr, heq⟩ := (h.mem _).mp ht
  obtain ⟨rfl, rfl⟩ := encoding.tuple_inj heq
  exact hr

/-- A key is found among the tuples where the table has a row for it. -/
theorem Represents.any_key {schema : Schema} {encoding : Encoding V K R schema.key}
    {engine : Engine V} (h : Represents encoding tuples table)
    (hkeys : encoding.KeysCompared engine) :
    (tuples.any fun u => (u schema.key).any fun x =>
      (encoding.tuple k r schema.key).any (engine.compare .eq x)) = (table k).isSome := by
  rw [Bool.eq_iff_iff, List.any_eq_true, Option.isSome_iff_exists]
  constructor
  · rintro ⟨t, ht, heq⟩
    obtain ⟨k', r', hr, rfl⟩ := (h.mem t).mp ht
    rw [encoding.key_eq, encoding.key_eq, Option.any_some, Option.any_some] at heq
    obtain rfl := (hkeys k' k).mp heq
    exact ⟨r', hr⟩
  · rintro ⟨r', hr⟩
    refine ⟨_, h.mem_of hr, ?_⟩
    rw [encoding.key_eq, encoding.key_eq, Option.any_some, Option.any_some]
    exact (hkeys k k).mpr rfl

theorem insertTuple_taken {schema : Schema} {conflict : OnConflict}
    {encoding : Encoding V K R schema.key} {engine : Engine V}
    (h : Represents encoding tuples table) (hkeys : encoding.KeysCompared engine)
    (hsome : (table k).isSome = true) :
    insertTuple engine schema conflict (encoding.tuple k r) tuples =
      match conflict with
      | .fail => some (tuples, .duplicateKey)
      | .ignore => some (tuples, .affected 0)
      | .doNothing column => if column = schema.key then some (tuples, .affected 0) else none := by
  unfold insertTuple
  rw [h.any_key hkeys, if_pos hsome]

variable [DecidableEq K]

/-- Another row of a key in place of the one it has, if any. -/
theorem Represents.replace {tuples' : List (Tuple V)} (h : Represents encoding tuples table)
    (hnodup : tuples'.Nodup)
    (hmem : ∀ t, t ∈ tuples' ↔ t = encoding.tuple k r ∨
      t ∈ tuples ∧ ∀ r', t ≠ encoding.tuple k r') :
    Represents encoding tuples' (Function.update table k (some r)) where
  nodup := hnodup
  mem t := by
    rw [hmem]
    constructor
    · rintro (rfl | ⟨ht, hother⟩)
      · exact ⟨k, r, update_self _ _ _, rfl⟩
      · obtain ⟨k', r', hr, rfl⟩ := (h.mem t).mp ht
        refine ⟨k', r', (update_of_ne ?_ _ _).trans hr, rfl⟩
        rintro rfl
        exact hother r' rfl
    · rintro ⟨k', r', hr, rfl⟩
      rcases eq_or_ne k' k with rfl | hk
      · rw [update_self] at hr
        cases hr
        exact .inl rfl
      · rw [update_of_ne hk] at hr
        refine .inr ⟨h.mem_of hr, fun r'' heq => hk (encoding.tuple_inj heq).1⟩

section Inserts

variable {schema : Schema} {conflict : OnConflict} {encoding : Encoding V K R schema.key}
  {engine : Engine V}

theorem insertTuple_free (h : Represents encoding tuples table)
    (hkeys : encoding.KeysCompared engine) (hnone : table k = none) :
    insertTuple engine schema conflict (encoding.tuple k r) tuples =
        some (tuples ++ [encoding.tuple k r], .affected 1) ∧
      Represents encoding (tuples ++ [encoding.tuple k r]) (Function.update table k (some r)) := by
  have habsent : ∀ r', encoding.tuple k r' ∉ tuples := by
    intro r' ht
    rw [h.of_mem ht] at hnone
    cases hnone
  constructor
  · unfold insertTuple
    rw [h.any_key hkeys, hnone, if_neg (by simp)]
  · refine h.replace (List.nodup_append.mpr ⟨h.nodup, List.nodup_singleton _, ?_⟩) fun t => ?_
    · rintro t ht u hu rfl
      rw [List.mem_singleton] at hu
      exact habsent r (hu ▸ ht)
    · rw [List.mem_append, List.mem_singleton]
      constructor
      · rintro (ht | rfl)
        · exact .inr ⟨ht, fun r' heq => habsent r' (heq ▸ ht)⟩
        · exact .inl rfl
      · rintro (rfl | ⟨ht, -⟩)
        · exact .inr rfl
        · exact .inl ht

end Inserts

section Updates

variable {matched : Tuple V → Bool} {change : Tuple V → Tuple V} {P : R → Prop} {set : R → R}

/-- One tuple is changed within its key. -/
theorem Represents.changed {r' : R} (h : Represents encoding tuples table) (hr : table k = some r)
    (hmine : matched (encoding.tuple k r) = true)
    (honly : ∀ t ∈ tuples, matched t = true ↔ t = encoding.tuple k r)
    (hchange : change (encoding.tuple k r) = encoding.tuple k r') :
    Represents encoding (tuples.map fun t => if matched t then change t else t)
      (Function.update table k (some r')) := by
  have hself : (if matched (encoding.tuple k r) then change (encoding.tuple k r)
      else encoding.tuple k r) = encoding.tuple k r' := by
    rw [if_pos hmine, hchange]
  have hother : ∀ t ∈ tuples, t ≠ encoding.tuple k r →
      (if matched t then change t else t) = t ∧ ∀ r'', t ≠ encoding.tuple k r'' := by
    intro t ht hne
    refine ⟨if_neg fun hm => hne ((honly t ht).mp hm), ?_⟩
    rintro r'' rfl
    exact hne (by rw [Option.some.inj ((h.of_mem ht).symm.trans hr)])
  refine h.replace (h.nodup.map_on ?_) fun t => ?_
  · intro t ht u hu heq
    by_cases htr : t = encoding.tuple k r
    · by_cases hur : u = encoding.tuple k r
      · exact htr.trans hur.symm
      · obtain ⟨hsame, hkey⟩ := hother u hu hur
        rw [htr, hself, hsame] at heq
        exact absurd heq.symm (hkey r')
    · obtain ⟨hsame, hkey⟩ := hother t ht htr
      by_cases hur : u = encoding.tuple k r
      · rw [hur, hself, hsame] at heq
        exact absurd heq (hkey r')
      · rwa [hsame, (hother u hu hur).1] at heq
  · rw [List.mem_map]
    constructor
    · rintro ⟨u, hu, rfl⟩
      by_cases hur : u = encoding.tuple k r
      · rw [hur, hself]
        exact .inl rfl
      · obtain ⟨hsame, hkey⟩ := hother u hu hur
        rw [hsame]
        exact .inr ⟨hu, hkey⟩
    · rintro (rfl | ⟨ht, hkey⟩)
      · exact ⟨_, h.mem_of hr, hself⟩
      · exact ⟨t, ht, (hother t ht (hkey r)).1⟩

/-- An update whose condition picks a row by its key changes that row and counts it, or it counts
none and changes nothing. -/
theorem Represents.update (h : Represents encoding tuples table)
    (hmatch : ∀ k' r', matched (encoding.tuple k' r') = true ↔ k' = k ∧ P r')
    (hchange : ∀ r', P r' → change (encoding.tuple k r') = encoding.tuple k (set r')) :
    (∃ r', table k = some r' ∧ P r' ∧ tuples.countP matched = 1 ∧
      Represents encoding (tuples.map fun t => if matched t then change t else t)
        (Function.update table k (some (set r')))) ∨
    (∀ r', table k = some r' → ¬ P r') ∧ tuples.countP matched = 0 ∧
      (tuples.map fun t => if matched t then change t else t) = tuples := by
  by_cases hrow : ∃ r', table k = some r' ∧ P r'
  · obtain ⟨r', hr, hp⟩ := hrow
    have hmine : matched (encoding.tuple k r') = true := (hmatch k r').mpr ⟨rfl, hp⟩
    have honly : ∀ t ∈ tuples, matched t = true ↔ t = encoding.tuple k r' := by
      intro t ht
      obtain ⟨k', r'', hr'', rfl⟩ := (h.mem t).mp ht
      constructor
      · intro hm
        obtain ⟨rfl, -⟩ := (hmatch k' r'').mp hm
        rw [Option.some.inj (hr''.symm.trans hr)]
      · rintro heq
        rw [heq]
        exact hmine
    refine .inl ⟨r', hr, hp, ?_, ?_⟩
    · rw [List.countP_eq_length_filter]
      refine ((List.perm_ext_iff_of_nodup (h.nodup.filter _)
        (List.nodup_singleton (encoding.tuple k r'))).mpr fun t => ?_).length_eq
      rw [List.mem_filter, List.mem_singleton]
      constructor
      · rintro ⟨ht, hm⟩
        exact (honly t ht).mp hm
      · rintro rfl
        exact ⟨h.mem_of hr, hmine⟩
    · exact h.changed hr hmine honly (hchange r' hp)
  · have hnone : ∀ t ∈ tuples, ¬ matched t = true := by
      intro t ht hm
      obtain ⟨k', r', hr, rfl⟩ := (h.mem t).mp ht
      obtain ⟨rfl, hp⟩ := (hmatch k' r').mp hm
      exact hrow ⟨r', hr, hp⟩
    refine .inr ⟨fun r' hr hp => hrow ⟨r', hr, hp⟩, List.countP_eq_zero.mpr hnone, ?_⟩
    exact List.map_congr_left (fun t ht => if_neg (hnone t ht)) |>.trans (List.map_id _)

end Updates

end Tables

end Foundation.SqlLanguage
