import Tslock.Foundation.Calendar
import Tslock.Foundation.JsNumber

/-! `Intl.DateTimeFormat` in en-US, and dates made of numbers and of texts with an offset. -/
namespace Foundation

@[simp] theorem length_decimal (width n : ℕ) : (decimal width n).length = width := by
  induction width generalizing n with
  | zero => rfl
  | succ width ih => simp [decimal, ih]

theorem isDigit_of_mem_decimal {width n : ℕ} {c : Char} (h : c ∈ decimal width n) :
    c.isDigit = true := by
  induction width generalizing n with
  | zero => simp [decimal] at h
  | succ width ih =>
    rw [decimal, List.mem_append, List.mem_singleton] at h
    rcases h with h | rfl
    · exact ih h
    · exact (digitChar_digit (Nat.mod_lt n (by decide))).1

/-- The hours that a runtime takes for `hour12: false` in en-US: from 0 to 23, or from 1 to 24. -/
inductive HourCycle where
  | h23
  | h24
deriving DecidableEq, Repr

/-- A time zone with whole minutes between its wall clock and UTC, by instant, on a runtime. -/
structure TimeZone where
  hourCycle : HourCycle
  offsetMinutes : ℤ → ℤ
  bounded : ∀ t, (offsetMinutes t).natAbs < 1440

/-- A part of a formatted date: its type and its text. -/
abbrev Part := String × List Char

namespace Intl

def numeric (n : ℕ) : List Char := Nat.toDigits 10 n

/-- The first part of a type. -/
def partValue (type : String) (parts : List Part) : Option (List Char) :=
  (parts.find? fun part => part.1 = type).map Prod.snd

/-- A number of as many digits as the width. -/
theorem numeric_eq_decimal (width : ℕ) {n : ℕ} (h : n < 10 ^ (width + 1))
    (h' : width = 0 ∨ 10 ^ width ≤ n) : numeric n = decimal (width + 1) n := by
  induction width generalizing n with
  | zero =>
    have hmod : n % 10 = n := Nat.mod_eq_of_lt (by omega)
    rw [numeric, Nat.toDigits_of_lt_base (by omega), decimal, hmod]
    rfl
  | succ width ih =>
    have hle : 10 ^ (width + 1) ≤ n := by
      rcases h' with h' | h'
      · omega
      · exact h'
    rw [pow_succ] at h hle
    have hpos := Nat.pow_pos (n := width) (show 0 < 10 by decide)
    have hrec := ih (n := n / 10) (by omega) (.inr (by omega))
    rw [decimal, ← hrec, numeric, Nat.toDigits_of_base_le (by decide) (by omega)]
    rfl

theorem isDigit_of_mem_numeric {n : ℕ} {c : Char} (h : c ∈ numeric n) : c.isDigit = true :=
  Nat.isDigit_of_mem_toDigits (by decide) (by decide) h

theorem length_numeric_le {n : ℕ} (h : n < 100) : (numeric n).length ≤ 2 :=
  (Nat.length_toDigits_le_iff (by decide) (by decide)).mpr h

/-- The digits of a number end where something else starts. -/
theorem takeWhile_numeric {n : ℕ} {rest : List Char} (h : rest.takeWhile Char.isDigit = []) :
    (numeric n ++ rest).takeWhile Char.isDigit = numeric n := by
  rw [List.takeWhile_append_of_pos fun c hc => isDigit_of_mem_numeric hc, h, List.append_nil]

end Intl

namespace TimeZone

variable (zone : TimeZone) (t : ℤ)

/-- The wall clock, as if it showed UTC. -/
def wallClock : ℤ := t + 60000 * zone.offsetMinutes t

def date : CivilDate := CivilDate.ofDays (zone.wallClock t / 86400000)

def timeOfDay : ℕ := (zone.wallClock t % 86400000).toNat

def hour : ℕ := zone.timeOfDay t / 3600000

def minute : ℕ := zone.timeOfDay t / 60000 % 60

def second : ℕ := zone.timeOfDay t / 1000 % 60

def milli : ℕ := zone.timeOfDay t % 1000

/-- The digits of the year in its era. -/
def yearField : List Char :=
  Intl.numeric (if 0 < (zone.date t).year then (zone.date t).year else 1 - (zone.date t).year).toNat

/-- The hour as it is shown; `24` is the hour after the midnight at which the day starts. -/
def shownHour : ℕ :=
  match zone.hourCycle with
  | .h23 => zone.hour t
  | .h24 => if zone.hour t = 0 then 24 else zone.hour t

def hourField : List Char := decimal 2 (zone.shownHour t)

/-- `formatToParts` with a numeric year, fields of two digits and three fractional digits. -/
def formatToParts : List Part :=
  [("month", decimal 2 (zone.date t).month), ("literal", ['/']),
    ("day", decimal 2 (zone.date t).day), ("literal", ['/']), ("year", zone.yearField t),
    ("literal", [',', ' ']), ("hour", zone.hourField t), ("literal", [':']),
    ("minute", decimal 2 (zone.minute t)), ("literal", [':']),
    ("second", decimal 2 (zone.second t)), ("literal", ['.']),
    ("fractionalSecond", decimal 3 (zone.milli t))]

def sign : Char := if zone.offsetMinutes t < 0 then '-' else '+'

/-- `GMT`, `GMT+h` or `GMT+h:mm` -/
def shortOffset : List Char :=
  let minutes := (zone.offsetMinutes t).natAbs
  ['G', 'M', 'T'] ++ if minutes = 0 then []
  else zone.sign t :: (Intl.numeric (minutes / 60) ++
    if minutes % 60 = 0 then [] else ':' :: decimal 2 (minutes % 60))

/-- `formatToParts` with the default fields and `timeZoneName: 'shortOffset'`. -/
def formatOffsetToParts : List Part :=
  [("month", Intl.numeric (zone.date t).month), ("literal", ['/']),
    ("day", Intl.numeric (zone.date t).day), ("literal", ['/']), ("year", zone.yearField t),
    ("literal", [',', ' ']), ("timeZoneName", zone.shortOffset t)]

end TimeZone

namespace JsDate

/-- The time value of `new Date(x)`; none for an invalid date. -/
def ofNumber : JsNumber → Option ℤ
  | .finite q =>
    if -8640000000000000 ≤ q ∧ q ≤ 8640000000000000 then some (if 0 ≤ q then ⌊q⌋ else ⌈q⌉) else none
  | _ => none

/-- `+hh:mm` or `-hh:mm`, in minutes. -/
def readOffset (text : List Char) : Option ℤ :=
  match text with
  | [] => none
  | c :: text => do
    let (hours, text) ← readDecimal 2 0 text
    let text ← expect ':' text
    let (minutes, text) ← readDecimal 2 0 text
    if text = [] ∧ hours < 24 ∧ minutes < 60 then
      if c = '+' then some (60 * hours + minutes : ℕ)
      else if c = '-' then some (-(60 * hours + minutes : ℕ))
      else none
    else none

/-- Hour 24 is legal only as the end of the day. -/
def LegalTime (hour minute second milli : ℕ) : Prop :=
  (hour < 24 ∧ minute < 60 ∧ second < 60 ∧ milli < 1000) ∨
    (hour = 24 ∧ minute = 0 ∧ second = 0 ∧ milli = 0)

instance (hour minute second milli : ℕ) : Decidable (LegalTime hour minute second milli) :=
  inferInstanceAs (Decidable (_ ∨ _))

/-- The time value of the fields of a text, where they are legal and the day exists. -/
def ofFields (date : CivilDate) (hour minute second milli : ℕ) (offset : ℤ) : Option ℤ :=
  let t := 86400000 * date.toDays + (3600000 * hour + 60000 * minute + 1000 * second + milli : ℕ) -
    60000 * offset
  if CivilDate.ofDays date.toDays = date ∧ LegalTime hour minute second milli ∧ InRange t then
    some t
  else none

/-- The time value of `new Date(text)` for a text that ends in an offset. Texts that are not in the
ISO format are not told apart here from those that give an invalid date. -/
def ofText (text : List Char) : Option ℤ := do
  let (year, text) ← readYear text
  let text ← expect '-' text
  let (month, text) ← readDecimal 2 0 text
  let text ← expect '-' text
  let (day, text) ← readDecimal 2 0 text
  let text ← expect 'T' text
  let (hour, text) ← readDecimal 2 0 text
  let text ← expect ':' text
  let (minute, text) ← readDecimal 2 0 text
  let text ← expect ':' text
  let (second, text) ← readDecimal 2 0 text
  let text ← expect '.' text
  let (milli, text) ← readDecimal 3 0 text
  let offset ← readOffset text
  ofFields ⟨year, month, day⟩ hour minute second milli offset

end JsDate

end Foundation
