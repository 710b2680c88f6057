import Mathlib.Algebra.Order.Ring.Int
import Mathlib.Tactic.Common
import Mathlib.Tactic.IntervalCases
import Mathlib.Tactic.Ring

/-! `Date.prototype.toISOString` and `Date.parse` of what it writes, on whole milliseconds. -/
namespace Foundation

/-- A day of the Gregorian calendar. -/
structure CivilDate where
  year : ℤ
  month : ℕ
  day : ℕ
deriving DecidableEq, Repr

/-- Years of 365 days with one leap day in every fourth year but three of four centuries. They
start in March, so that the leap day is their last day. -/
structure MarchDate where
  era : ℤ
  century : ℤ
  cycle : ℤ
  year : ℤ
  day : ℤ

namespace MarchDate

/-- Days are counted from March 1 of the year 0. -/
def ofDays (days : ℤ) : MarchDate :=
  let ofEra := days % 146097
  let century := min 3 (ofEra / 36524)
  let ofCentury := ofEra - 36524 * century
  let ofCycle := ofCentury % 1461
  let year := min 3 (ofCycle / 365)
  ⟨days / 146097, century, ofCentury / 1461, year, ofCycle - 365 * year⟩

def toDays (d : MarchDate) : ℤ :=
  146097 * d.era + 36524 * d.century + 1461 * d.cycle + 365 * d.year + d.day

structure Valid (d : MarchDate) : Prop where
  century : 0 ≤ d.century ∧ d.century ≤ 3
  cycle : 0 ≤ d.cycle ∧ d.cycle ≤ 24
  year : 0 ≤ d.year ∧ d.year ≤ 3
  day : 0 ≤ d.day ∧ d.day ≤ 365

theorem valid_ofDays (days : ℤ) : (ofDays days).Valid := by
  constructor <;> simp only [ofDays] <;> omega

theorem toDays_ofDays (days : ℤ) : (ofDays days).toDays = days := by
  simp only [ofDays, toDays]
  omega

/-- March is month 0; five months from March or August have 153 days. -/
def toCivil (d : MarchDate) : CivilDate :=
  let month := ((5 * d.day + 2) / 153).toNat
  { year := 400 * d.era + 100 * d.century + 4 * d.cycle + d.year + if month < 10 then 0 else 1
    month := if month < 10 then month + 3 else month - 9
    day := d.day.toNat - (153 * month + 2) / 5 + 1 }

def ofCivil (c : CivilDate) : MarchDate :=
  let month := if 3 ≤ c.month then c.month - 3 else c.month + 9
  let year := c.year - if 3 ≤ c.month then 0 else 1
  ⟨year / 400, year % 400 / 100, year % 100 / 4, year % 4,
    ((153 * month + 2) / 5 + c.day : ℕ) - 1⟩

theorem toCivil_bounds {d : MarchDate} (h : d.Valid) :
    1 ≤ d.toCivil.month ∧ d.toCivil.month ≤ 12 ∧ 1 ≤ d.toCivil.day ∧ d.toCivil.day ≤ 31 := by
  obtain ⟨-, -, -, hday⟩ := h
  simp only [toCivil]
  split_ifs <;> omega

theorem ofCivil_toCivil {d : MarchDate} (h : d.Valid) : ofCivil d.toCivil = d := by
  obtain ⟨hcentury, hcycle, hyear, hday⟩ := h
  obtain ⟨era, century, cycle, year, day⟩ := d
  simp only [ofCivil, toCivil, mk.injEq] at *
  split_ifs <;> omega

end MarchDate

/-- January 1, 1970 is 719468 days after March 1 of the year 0. -/
def CivilDate.ofDays (days : ℤ) : CivilDate := (MarchDate.ofDays (days + 719468)).toCivil

def CivilDate.toDays (c : CivilDate) : ℤ := (MarchDate.ofCivil c).toDays - 719468

theorem CivilDate.toDays_ofDays (days : ℤ) : (ofDays days).toDays = days := by
  unfold CivilDate.toDays CivilDate.ofDays
  rw [MarchDate.ofCivil_toCivil (MarchDate.valid_ofDays _), MarchDate.toDays_ofDays]
  omega

theorem CivilDate.ofDays_bounds (days : ℤ) :
    (ofDays days).month < 10 ^ 2 ∧ (ofDays days).day < 10 ^ 2 := by
  obtain ⟨-, hmonth, -, hday⟩ :=
    MarchDate.toCivil_bounds (MarchDate.valid_ofDays (days + 719468))
  exact ⟨lt_of_le_of_lt hmonth (by decide), lt_of_le_of_lt hday (by decide)⟩

/-- The dates a hundred million days around 1970 have years of six digits. -/
theorem CivilDate.ofDays_year {days : ℤ} (h : -100000000 ≤ days ∧ days ≤ 100000000) :
    (ofDays days).year.natAbs < 1000000 := by
  have hback := MarchDate.toDays_ofDays (days + 719468)
  obtain ⟨hcentury, hcycle, hyear, hday⟩ := MarchDate.valid_ofDays (days + 719468)
  simp only [MarchDate.toDays] at hback
  simp only [CivilDate.ofDays, MarchDate.toCivil]
  split_ifs <;> omega

/-- The last `width` decimal digits. -/
def decimal : ℕ → ℕ → List Char
  | 0, _ => []
  | width + 1, n => decimal width (n / 10) ++ [Nat.digitChar (n % 10)]

/-- Reads `width` decimal digits on from the value read so far. -/
def readDecimal : ℕ → ℕ → List Char → Option (ℕ × List Char)
  | 0, value, text => some (value, text)
  | _ + 1, _, [] => none
  | width + 1, value, c :: text =>
    if c.isDigit then readDecimal width (10 * value + (c.toNat - 48)) text else none

def expect (c : Char) : List Char → Option (List Char)
  | [] => none
  | d :: text => if d = c then some text else none

@[simp] theorem expect_cons (c : Char) (text : List Char) : expect c (c :: text) = some text := by
  simp [expect]

theorem digitChar_digit {n : ℕ} (h : n < 10) :
    (Nat.digitChar n).isDigit = true ∧ (Nat.digitChar n).toNat - 48 = n := by
  interval_cases n <;> decide

/-- What is written in `width` digits is read back, in front of any text. -/
theorem readDecimal_decimal (width value n : ℕ) (text : List Char) (h : n < 10 ^ width) :
    readDecimal width value (decimal width n ++ text) = some (10 ^ width * value + n, text) := by
  suffices key : ∀ more value n text, n < 10 ^ width →
      readDecimal (width + more) value (decimal width n ++ text) =
        readDecimal more (10 ^ width * value + n) text by
    simpa [readDecimal] using key 0 value n text h
  clear h value n text
  induction width with
  | zero =>
    intro more value n text h
    obtain rfl : n = 0 := by omega
    simp [decimal]
  | succ width ih =>
    intro more value n text h
    have hlt : n / 10 < 10 ^ width := by
      rw [pow_succ] at h
      omega
    obtain ⟨hdigit, hvalue⟩ := digitChar_digit (Nat.mod_lt n (show 0 < 10 by decide))
    rw [decimal, List.append_assoc, show width + 1 + more = width + (more + 1) by omega,
      ih (more + 1) value (n / 10) _ hlt, List.singleton_append, readDecimal, if_pos hdigit, hvalue,
      pow_succ]
    have hsplit : 10 * (10 ^ width * value + n / 10) + n % 10 = 10 ^ width * 10 * value + n := by
      calc 10 * (10 ^ width * value + n / 10) + n % 10
          = 10 ^ width * 10 * value + (10 * (n / 10) + n % 10) := by ring
        _ = 10 ^ width * 10 * value + n := by rw [Nat.div_add_mod]
    rw [hsplit]

/-- Four digits, or a sign and six. -/
def yearText (year : ℤ) : List Char :=
  if 0 ≤ year ∧ year ≤ 9999 then decimal 4 year.toNat
  else (if year < 0 then '-' else '+') :: decimal 6 year.natAbs

def readYear (text : List Char) : Option (ℤ × List Char) :=
  match text with
  | [] => none
  | c :: rest =>
    if c = '-' then (readDecimal 6 0 rest).map fun (n, rest) => (-(n : ℤ), rest)
    else if c = '+' then (readDecimal 6 0 rest).map fun (n, rest) => ((n : ℤ), rest)
    else (readDecimal 4 0 text).map fun (n, rest) => ((n : ℤ), rest)

theorem digitChar_ne_sign {n : ℕ} (h : n < 10) :
    Nat.digitChar n ≠ '-' ∧ Nat.digitChar n ≠ '+' := by
  interval_cases n <;> decide

theorem readYear_yearText {year : ℤ} (text : List Char) (h : year.natAbs < 1000000) :
    readYear (yearText year ++ text) = some (year, text) := by
  unfold yearText
  split_ifs with hplain hneg
  · obtain ⟨hminus, hplus⟩ := digitChar_ne_sign (n := year.toNat / 10 / 10 / 10 % 10) (by omega)
    have hread := readDecimal_decimal 4 0 year.toNat text (by omega)
    have hyear : (year.toNat : ℤ) = year := by omega
    simp only [decimal, List.nil_append, List.cons_append, readYear, if_neg hminus,
      if_neg hplus] at hread ⊢
    rw [hread]
    simp [hyear]
  · have hread := readDecimal_decimal 6 0 year.natAbs text (by omega)
    have hyear : -(year.natAbs : ℤ) = year := by omega
    simp only [List.cons_append, readYear, if_true]
    rw [hread]
    simpa using hyear
  · have hread := readDecimal_decimal 6 0 year.natAbs text (by omega)
    have hyear : (year.natAbs : ℤ) = year := by omega
    simp only [List.cons_append, readYear, if_true]
    rw [if_neg (by decide), hread]
    simpa using hyear

namespace JsDate

/-- The text of a time, without the limits of a `Date`. -/
def isoText (t : ℤ) : List Char :=
  let date := CivilDate.ofDays (t / 86400000)
  let ms := (t % 86400000).toNat
  yearText date.year ++ '-' :: (decimal 2 date.month ++ '-' :: (decimal 2 date.day ++ 'T' ::
    (decimal 2 (ms / 3600000) ++ ':' :: (decimal 2 (ms / 60000 % 60) ++ ':' ::
      (decimal 2 (ms / 1000 % 60) ++ '.' :: (decimal 3 (ms % 1000) ++ ['Z']))))))

def readIso (text : List Char) : Option ℤ := do
  let (year, text) ← readYear text
  let text ← expect '-' text
  let (month, text) ← readDecimal 2 0 text
  let text ← expect '-' text
  let (day, text) ← readDecimal 2 0 text
  let text ← expect 'T' text
  let (hour, text) ← readDecimal 2 0 text
  let text ← expect ':' text
  let (minute, text) ← readDecimal 2 0 text
  let text ← expect ':' text
  let (second, text) ← readDecimal 2 0 text
  let text ← expect '.' text
  let (milli, text) ← readDecimal 3 0 text
  if text = ['Z'] then
    some (86400000 * (CivilDate.mk year month day).toDays +
      (3600000 * hour + 60000 * minute + 1000 * second + milli : ℕ))
  else none

/-- The times a `Date` can hold. -/
def InRange (t : ℤ) : Prop := -8640000000000000 ≤ t ∧ t ≤ 8640000000000000

instance (t : ℤ) : Decidable (InRange t) := inferInstanceAs (Decidable (_ ∧ _))

/-- `new Date(t).toISOString()`; it throws a `RangeError` beyond the limits. -/
def toIsoString (t : ℤ) : Option String :=
  if InRange t then some (String.ofList (isoText t)) else none

/-- `Date.parse` on the texts of `toISOString`. Other texts are not told apart here from those
that give `NaN`. -/
def parse (text : String) : Option ℤ :=
  (readIso text.toList).filter fun t => toIsoString t = some text

theorem readIso_isoText {t : ℤ} (h : InRange t) : readIso (isoText t) = some t := by
  obtain ⟨hlow, hhigh⟩ := h
  obtain ⟨hmonth, hday⟩ := CivilDate.ofDays_bounds (t / 86400000)
  have hdays := CivilDate.toDays_ofDays (t / 86400000)
  have hyear : (CivilDate.ofDays (t / 86400000)).year.natAbs < 1000000 :=
    CivilDate.ofDays_year (by omega)
  unfold readIso isoText
  -- each field is read in front of the rest of the text, then the character after it
  refine Option.bind_eq_some_iff.mpr ⟨_, readYear_yearText _ hyear, ?_⟩
  refine Option.bind_eq_some_iff.mpr ⟨_, expect_cons _ _, ?_⟩
  refine Option.bind_eq_some_iff.mpr ⟨_, readDecimal_decimal 2 0 _ _ hmonth, ?_⟩
  refine Option.bind_eq_some_iff.mpr ⟨_, expect_cons _ _, ?_⟩
  refine Option.bind_eq_some_iff.mpr ⟨_, readDecimal_decimal 2 0 _ _ hday, ?_⟩
  refine Option.bind_eq_some_iff.mpr ⟨_, expect_cons _ _, ?_⟩
  refine Option.bind_eq_some_iff.mpr ⟨_, readDecimal_decimal 2 0 _ _ (by omega), ?_⟩
  refine Option.bind_eq_some_iff.mpr ⟨_, expect_cons _ _, ?_⟩
  refine Option.bind_eq_some_iff.mpr ⟨_, readDecimal_decimal 2 0 _ _ (by omega), ?_⟩
  refine Option.bind_eq_some_iff.mpr ⟨_, expect_cons _ _, ?_⟩
  refine Option.bind_eq_some_iff.mpr ⟨_, readDecimal_decimal 2 0 _ _ (by omega), ?_⟩
  refine Option.bind_eq_some_iff.mpr ⟨_, expect_cons _ _, ?_⟩
  refine Option.bind_eq_some_iff.mpr ⟨_, readDecimal_decimal 3 0 _ _ (by omega), ?_⟩
  simp only [Nat.mul_zero, Nat.zero_add, hdays, if_true]
  congr 1
  omega

theorem parse_toIsoString {t : ℤ} {text : String} (h : toIsoString t = some text) :
    parse text = some t := by
  have hrange : InRange t := by
    by_contra hout
    simp [toIsoString, hout] at h
  have htext : text.toList = isoText t := by
    rw [toIsoString, if_pos hrange] at h
    rw [← Option.some.inj h, String.toList_ofList]
  unfold parse
  rw [htext, readIso_isoText hrange]
  simp [h]

/-- The `Date.parse` of a runtime: what `toISOString` writes is read back, any other text may be
read in any way. -/
structure Reader where
  parse : String → Option ℤ
  parse_toIsoString : ∀ t text, toIsoString t = some text → parse text = some t

/-- The reader of a runtime that knows no other texts. -/
def isoReader : Reader := ⟨parse, fun _ _ h => parse_toIsoString h⟩

example : toIsoString 951826530007 = some "2000-02-29T12:15:30.007Z" := by decide +kernel

end JsDate

end Foundation
