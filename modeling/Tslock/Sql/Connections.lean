import Tslock.Foundation.SqlLanguage
import Tslock.Sql.NamedParams

/-! `PgConnection`, `Mysql2Connection` and `MssqlConnection`: the texts they send have the meaning
of the texts with names. -/
namespace Tslock.Sql

open Foundation SqlText SqlLanguage
open NamedParams hiding Text Token

inductive Connection where
  | pg
  | mysql2
  | mssql
deriving DecidableEq, Repr

variable {V : Type}

/-- What `query` sends: the text in the language of the driver, and the values for it. -/
def Connection.query (sql : Text) (params : ParamRecord V) :
    Connection → Except LockException (Text × Arguments V)
  | pg => (translateNamedParams sql params numbered).map fun r => (r.1, .listed r.2)
  | mysql2 => (translateNamedParams sql params questionMark).map fun r => (r.1, .listed r.2)
  | mssql => (prefixNamedParams sql params ['@']).map fun r => (r.1, .named '@' r.2.own)

section Scanning

/-- No colon in a text has a name behind it. -/
def quiet : Text → Bool
  | ':' :: c :: s => !nameStart c && quiet (c :: s)
  | [':'] => false
  | _ :: s => quiet s
  | [] => true

/-- The parts of a lexeme. -/
def lexemeParts : Lexeme → List NamedParams.Token
  | .placeholder (.named ':' name) => [.inr name]
  | l => l.spell.map .inl

/-- A lexeme that the scan for names leaves alone, or a name. -/
def scanned : Lexeme → Bool
  | .placeholder (.named ':' _) => true
  | .placeholder _ => false
  | l => quiet l.spell

/-- A lexeme with another placeholder for a name. -/
def withPlaceholder (g : Text → Placeholder) : Lexeme → Lexeme
  | .placeholder (.named ':' name) => .placeholder (g name)
  | l => l

variable {w rest : Text} {c : Char} {l : Lexeme} {ls : List Lexeme} {g : Text → Placeholder}

theorem nameStart_eq (c : Char) : nameStart c = wordStart c := by
  rw [Bool.eq_iff_iff]
  simp only [nameStart, wordStart, isAlpha_iff, Bool.or_eq_true, decide_eq_true_eq, beq_iff_eq]
  constructor
  · rintro (hlower | hupper | hunderscore)
    · exact .inl (.inr hlower)
    · exact .inl (.inl hupper)
    · exact .inr hunderscore
  · rintro ((hupper | hlower) | hunderscore)
    · exact .inr (.inl hupper)
    · exact .inl hlower
    · exact .inr (.inr hunderscore)

theorem nameChar_eq (c : Char) : nameChar c = wordChar c := by
  rw [Bool.eq_iff_iff]
  simp only [nameChar, wordChar, nameStart_eq, isDigit_iff, Bool.or_eq_true, decide_eq_true_eq]
  rfl

theorem matchName_of_ne (h : c ≠ ':') : matchName (c :: rest) = none := by
  unfold matchName
  split
  · next heq => exact absurd (List.cons.inj heq).1 h
  · rfl

theorem tokens_cons (h : matchName (c :: rest) = none) :
    tokens (c :: rest) = .inl c :: tokens rest :=
  GlobalRegExp.parts_cons h

theorem tokens_quiet (hw : quiet w = true) :
    tokens (w ++ rest) = w.map .inl ++ tokens rest := by
  fun_induction quiet w with
  | case1 c s ih =>
    obtain ⟨hc, hs⟩ := (Bool.and_eq_true _ _).mp hw
    have hnone : matchName (':' :: c :: (s ++ rest)) = none := by
      rw [matchName, if_neg fun h => by rw [h] at hc; cases hc]
    exact (tokens_cons hnone).trans (congrArg _ (ih hs))
  | case2 => cases hw
  | case3 c s hpair hlast ih =>
    have hc : c ≠ ':' := by
      rintro rfl
      cases s with
      | nil => exact hlast rfl rfl
      | cons d s => exact hpair d s rfl rfl
    exact (tokens_cons (matchName_of_ne hc)).trans (congrArg _ (ih hw))
  | case4 => rfl

theorem tokens_named (hw : isWord w = true) (hr : ∀ c ∈ rest.head?, wordChar c = false) :
    tokens (':' :: (w ++ rest)) = .inr w :: tokens rest := by
  cases w with
  | nil => cases hw
  | cons c w =>
    obtain ⟨hstart, hchars⟩ := isWord_cons.mp hw
    have htake : (w ++ rest).takeWhile nameChar = w := by
      rw [funext nameChar_eq]
      exact (takeWhile_spelled hchars hr).1
    have hmatch : matchName (':' :: (c :: w ++ rest)) = some (w.length + 2, c :: w) := by
      rw [List.cons_append, matchName, nameStart_eq, if_pos hstart, htake]
    rw [tokens, GlobalRegExp.parts_of_match hmatch]
    simp [tokens]

/-- The scan finds the names of a text. -/
theorem tokens_spell (hs : spaced ls = true) (hv : ∀ l ∈ ls, l.valid = true)
    (hscanned : ∀ l ∈ ls, scanned l = true) : tokens (spell ls) = ls.flatMap lexemeParts := by
  induction ls with
  | nil => rfl
  | cons l ls ih =>
    rw [List.forall_mem_cons] at hv hscanned
    have hends := ends_of_spaced hs hv.2
    have hrest := ih (spaced_tail hs) hv.2 hscanned.2
    change tokens (l.spell ++ spell ls) = lexemeParts l ++ ls.flatMap lexemeParts
    rw [← hrest]
    unfold scanned at hscanned
    split at hscanned
    · next name => exact tokens_named hv.1 (hends rfl)
    · cases hscanned.1
    · next hnamed _ =>
      rw [tokens_quiet hscanned.1, lexemeParts]
      exact hnamed

/-- The names of a text, in order, with repetitions. -/
def paramNames (ls : List Lexeme) : List Text := names (ls.flatMap lexemeParts)

theorem names_map_inl (w : Text) : names (w.map .inl) = [] := by
  induction w with
  | nil => rfl
  | cons c w ih => exact ih

theorem paramNames_named {name : Text} :
    paramNames (.placeholder (.named ':' name) :: ls) = name :: paramNames ls := rfl

theorem paramNames_cons (h : ∀ name, l ≠ .placeholder (.named ':' name)) :
    paramNames (l :: ls) = paramNames ls := by
  rw [paramNames, List.flatMap_cons, lexemeParts, names_append, names_map_inl]
  · rfl
  · rintro name rfl
    exact h name rfl

theorem rendered_map_inl {f : Text → Text} (w : Text) : rendered f (w.map .inl) = w := by
  induction w with
  | nil => rfl
  | cons c w ih => exact congrArg _ ih

/-- The text with a placeholder for each name. -/
theorem rendered_parts {f : Text → Text} (h : ∀ name ∈ paramNames ls, f name = (g name).spell) :
    rendered f (ls.flatMap lexemeParts) = spell (ls.map (withPlaceholder g)) := by
  induction ls with
  | nil => rfl
  | cons l ls ih =>
    rw [List.flatMap_cons, rendered_append, List.map_cons]
    change _ = (withPlaceholder g l).spell ++ spell (ls.map (withPlaceholder g))
    by_cases hl : ∃ name, l = .placeholder (.named ':' name)
    · obtain ⟨name, rfl⟩ := hl
      rw [paramNames_named, List.forall_mem_cons] at h
      rw [ih h.2, withPlaceholder, lexemeParts, rendered_inr, h.1]
      exact congrArg (· ++ _) (List.append_nil _)
    · have hother : ∀ name, l ≠ .placeholder (.named ':' name) := fun name heq => hl ⟨name, heq⟩
      rw [paramNames_cons hother] at h
      rw [ih h, withPlaceholder, lexemeParts, rendered_map_inl]
      · exact hother
      · exact hother

theorem isOpen_withPlaceholder (h : (withPlaceholder g l).isOpen = true) : l.isOpen = true := by
  unfold withPlaceholder at h
  split at h
  · rfl
  · exact h

theorem startsWord_withPlaceholder : (withPlaceholder g l).startsWord = l.startsWord := by
  unfold withPlaceholder
  split
  · rfl
  · rfl

theorem spaced_withPlaceholder (h : spaced ls = true) :
    spaced (ls.map (withPlaceholder g)) = true := by
  induction ls with
  | nil => rfl
  | cons l ls ih =>
    cases ls with
    | nil => rfl
    | cons b ls =>
      obtain ⟨hfits, hrest⟩ := spaced_cons h
      refine (Bool.and_eq_true _ _).mpr ⟨?_, ih hrest⟩
      rw [startsWord_withPlaceholder]
      cases hopen : (withPlaceholder g l).isOpen with
      | false => rfl
      | true =>
        rw [hfits (isOpen_withPlaceholder hopen)]
        rfl

theorem valid_withPlaceholder (hg : ∀ name, isWord name = true →
    (Lexeme.placeholder (g name)).valid = true) (h : l.valid = true) :
    (withPlaceholder g l).valid = true := by
  unfold withPlaceholder
  split
  · exact hg _ h
  · exact h

end Scanning

section Meaning

variable {l : Lexeme} {ls : List Lexeme} {g : Text → Placeholder} {args : Arguments V}
  {lookup : Text → Option V}

theorem named_or_other (l : Lexeme) : (∃ name, l = .placeholder (.named ':' name)) ∨
    ∀ name, l ≠ .placeholder (.named ':' name) := by
  by_cases h : ∃ name, l = .placeholder (.named ':' name)
  · exact .inl h
  · exact .inr fun name heq => h ⟨name, heq⟩

theorem withPlaceholder_other (h : ∀ name, l ≠ .placeholder (.named ':' name)) :
    withPlaceholder g l = l := by
  rw [withPlaceholder]
  exact h

theorem lexemeTokens_named {name : Text} :
    lexemeTokens (.named ':' lookup) (.placeholder (.named ':' name)) =
      (lookup name).map fun v => [.value v] := by
  rw [lexemeTokens, Arguments.value, if_pos rfl]

/-- A lexeme other than a name has no value with it. -/
theorem lexemeTokens_other (h : ∀ name, l ≠ .placeholder (.named ':' name))
    (hscanned : scanned l = true) (args' : Arguments V) :
    lexemeTokens args l = lexemeTokens args' l := by
  cases l with
  | placeholder p =>
    unfold scanned at hscanned
    split at hscanned
    · next name heq => exact absurd heq (h name)
    · cases hscanned
    · next hnone => exact absurd rfl (hnone p)
  | blank | word | number | literal | symbol => rfl

theorem resolve_placeholders (hscanned : ∀ l ∈ ls, scanned l = true)
    (h : ∀ name ∈ paramNames ls, args.value (g name) = lookup name) :
    resolve args (ls.map (withPlaceholder g)) = resolve (.named ':' lookup) ls := by
  induction ls with
  | nil => rfl
  | cons l ls ih =>
    rw [List.forall_mem_cons] at hscanned
    rw [List.map_cons, resolve, resolve]
    rcases named_or_other l with ⟨name, rfl⟩ | hother
    · rw [paramNames_named, List.forall_mem_cons] at h
      rw [ih hscanned.2 h.2, lexemeTokens_named, ← h.1]
      rfl
    · rw [paramNames_cons hother] at h
      rw [ih hscanned.2 h, withPlaceholder_other hother,
        lexemeTokens_other hother hscanned.1 (.named ':' lookup)]

theorem positions_of_ne (h : ∀ l ∈ ls, l ≠ .placeholder .questionMark) (i : ℕ) :
    positions i ls = ls := by
  induction ls with
  | nil => rfl
  | cons l ls ih =>
    rw [List.forall_mem_cons] at h
    rw [positions, ih h.2]
    exact h.1

theorem ne_questionMark (hg : ∀ name, g name ≠ .questionMark) (hscanned : scanned l = true) :
    withPlaceholder g l ≠ .placeholder .questionMark := by
  rcases named_or_other l with ⟨name, rfl⟩ | hother
  · intro heq
    injection heq with heq
    exact hg name heq
  · rw [withPlaceholder_other hother]
    rintro rfl
    cases hscanned

/-- Each question mark takes the next value of the list. -/
theorem resolve_questionMarks {values : List V} {i : ℕ}
    (hscanned : ∀ l ∈ ls, scanned l = true)
    (h : (values.drop i).map some = (paramNames ls).map lookup) :
    resolve (.listed values) (positions (i + 1) (ls.map (withPlaceholder fun _ => .questionMark))) =
      resolve (.named ':' lookup) ls := by
  induction ls generalizing i with
  | nil => rfl
  | cons l ls ih =>
    rw [List.forall_mem_cons] at hscanned
    rw [List.map_cons, resolve]
    rcases named_or_other l with ⟨name, rfl⟩ | hother
    · rw [paramNames_named, List.map_cons] at h
      cases hdrop : values.drop i with
      | nil =>
        rw [hdrop] at h
        cases h
      | cons v rest =>
        rw [hdrop, List.map_cons] at h
        obtain ⟨hv, hrest⟩ := List.cons.inj h
        have hnext : values.drop (i + 1) = rest := by
          rw [← List.drop_drop, hdrop]
          rfl
        have hat : values[i]? = some v := by
          rw [← List.head?_drop, hdrop]
          rfl
        have htail := ih (i := i + 1) hscanned.2 (by rw [hnext, hrest])
        rw [lexemeTokens_named, ← hv, ← htail]
        simp only [withPlaceholder, positions, resolve, lexemeTokens, Arguments.value, hat]
    · rw [paramNames_cons hother] at h
      have hne : l ≠ .placeholder .questionMark := by
        rintro rfl
        cases hscanned.1
      rw [withPlaceholder_other hother, positions, resolve, ih hscanned.2 h,
        lexemeTokens_other hother hscanned.1 (.named ':' lookup)]
      exact hne

/-- A text of which the lexer reads the lexemes and the scan finds the names. -/
structure Scannable (ls : List Lexeme) : Prop where
  spaced : spaced ls = true
  valid : ∀ l ∈ ls, l.valid = true
  scanned : ∀ l ∈ ls, scanned l = true

variable {params : ParamRecord V}

/-- The text in which each name has its placeholder, and the variables that the loop ends with. -/
theorem replaced (h : Scannable ls) (hown : ∀ name ∈ paramNames ls, (params.own name).isSome)
    (render : Text → ℕ → Text) : ∃ s, s.Written render (ls.flatMap lexemeParts) ∧
      replaceTokens params render (ls.flatMap lexemeParts) .start = .ok s ∧
      replaceNamedParams (spell ls) params render = .ok (s.result, s.values) := by
  have hnone : params.firstMissing (ls.flatMap lexemeParts) = none := by
    refine firstMissing_none.mpr fun name hname => ?_
    obtain ⟨v, hv⟩ := Option.isSome_iff_exists.mp (hown name hname)
    rw [ParamRecord.lookup, hv]
    rfl
  obtain ⟨s, hs⟩ := replaceTokens_total hnone render .start
  refine ⟨s, written_of_ok hs, hs, ?_⟩
  rw [replaceNamedParams, tokens_spell h.spaced h.valid h.scanned, hs]
  rfl

/-- The lexemes of a text in which each name has its placeholder. -/
theorem lex_withPlaceholder (h : Scannable ls)
    (hg : ∀ name, isWord name = true → (Lexeme.placeholder (g name)).valid = true) :
    lex (spell (ls.map (withPlaceholder g))) = some (ls.map (withPlaceholder g)) := by
  refine lex_spell (spaced_withPlaceholder h.spaced) fun l hl => ?_
  obtain ⟨b, hb, rfl⟩ := List.mem_map.mp hl
  exact valid_withPlaceholder hg (h.valid b hb)

theorem positions_withPlaceholder (h : Scannable ls) (hg : ∀ name, g name ≠ .questionMark) :
    positions 1 (ls.map (withPlaceholder g)) = ls.map (withPlaceholder g) := by
  refine positions_of_ne (fun l hl => ?_) 1
  obtain ⟨b, hb, rfl⟩ := List.mem_map.mp hl
  exact ne_questionMark hg (h.scanned b hb)

theorem lookup_own (hown : ∀ name ∈ paramNames ls, (params.own name).isSome) :
    (paramNames ls).map params.lookup = (paramNames ls).map params.own := by
  refine List.map_congr_left fun name hname => ?_
  obtain ⟨v, hv⟩ := Option.isSome_iff_exists.mp (hown name hname)
  rw [ParamRecord.lookup, hv]
  rfl

/-- What a connection sends reads as the text with names does. -/
theorem query_reads (h : Scannable ls) (hown : ∀ name ∈ paramNames ls, (params.own name).isSome)
    (connection : Connection) : ∃ text args read, connection.query (spell ls) params =
      .ok (text, args) ∧ lex text = some read ∧
      resolve args (positions 1 read) = resolve (.named ':' params.own) ls := by
  cases connection with
  | pg =>
    obtain ⟨s, hwritten, hs, hok⟩ := replaced h hown fun _ index => numbered index
    have hresult := hwritten.result.trans
      (rendered_parts (g := fun name => .numbered (s.index name)) fun _ _ => rfl)
    have hcounted := counted_of_ok (fun _ _ => by simp [numbered]) hs
    refine ⟨s.result, .listed s.values, _, ?_, hresult ▸ lex_withPlaceholder h fun _ _ => rfl, ?_⟩
    · simp only [Connection.query, translateNamedParams, hok]
      rfl
    · rw [positions_withPlaceholder h fun _ => by nofun]
      refine resolve_placeholders h.scanned fun name hname => ?_
      obtain ⟨i, hi⟩ := Option.isSome_iff_exists.mp ((hwritten.seen name).mpr hname)
      obtain ⟨hpos, v, hv, hlookup⟩ := hcounted.value name i hi
      obtain ⟨w, hw⟩ := Option.isSome_iff_exists.mp (hown name hname)
      rw [ParamRecord.lookup, hw] at hlookup
      rw [Replacement.index_of_seen hi]
      obtain ⟨k, rfl⟩ := Nat.exists_eq_succ_of_ne_zero (Nat.ne_of_gt hpos)
      exact hv.trans (hlookup.symm.trans hw.symm)
  | mysql2 =>
    obtain ⟨s, hwritten, hs, hok⟩ := replaced h hown fun _ index => questionMark index
    have hresult := hwritten.result.trans
      (rendered_parts (g := fun _ => .questionMark) fun _ _ => rfl)
    have hvalues := values_of_ok (fun _ _ => rfl) hs
    refine ⟨s.result, .listed s.values, _, ?_, hresult ▸ lex_withPlaceholder h fun _ _ => rfl, ?_⟩
    · simp only [Connection.query, translateNamedParams, hok]
      rfl
    · exact resolve_questionMarks h.scanned (hvalues.trans (lookup_own hown))
  | mssql =>
    obtain ⟨s, hwritten, hs, hok⟩ := replaced h hown fun name _ => ['@'] ++ name
    have hresult := hwritten.result.trans
      (rendered_parts (g := fun name => .named '@' name) fun _ _ => rfl)
    have hread := lex_withPlaceholder (g := fun name => .named '@' name) h fun _ hname => hname
    refine ⟨s.result, .named '@' params.own, _, ?_, hresult ▸ hread, ?_⟩
    · simp only [Connection.query, prefixNamedParams, hok]
      rfl
    · rw [positions_withPlaceholder h fun _ => by nofun]
      refine resolve_placeholders h.scanned fun name _ => ?_
      rw [Arguments.value, if_pos rfl]

end Meaning

end Tslock.Sql
