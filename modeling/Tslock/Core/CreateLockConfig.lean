import Tslock.Core.LockConfiguration
import Tslock.Foundation.JsArithmetic

/-! `parseDuration`, `Utils.validateLockName` and `createLockConfig`, on JavaScript numbers. -/
namespace Tslock

open Foundation

/-- An absent field of an object is `none`. -/
inductive DurationInput where
  | number (n : JsNumber)
  | string (s : String)
  | object (hours minutes seconds millis : Option JsNumber)
deriving DecidableEq

inductive DurationError where
  | invalidNumber (n : JsNumber)
  | emptyString
  | invalidString (s : String)
  | invalidObject (hours minutes seconds millis : Option JsNumber)
deriving DecidableEq

/-- The text of the exception; how numbers and objects print is left open. -/
def DurationError.message (numberText : JsNumber → String)
    (objectText : Option JsNumber → Option JsNumber → Option JsNumber → Option JsNumber → String) :
    DurationError → String
  | .invalidNumber n => "Invalid duration: " ++ numberText n
  | .emptyString => "Invalid duration: empty string"
  | .invalidString s => "Invalid duration string: " ++ s
  | .invalidObject hours minutes seconds millis =>
    "Invalid duration: " ++ objectText hours minutes seconds millis

/-- What `String.prototype.trim` strips. -/
def isJsSpace (c : Char) : Bool :=
  (9 ≤ c.toNat ∧ c.toNat ≤ 13) ∨ c.toNat = 0x20 ∨ c.toNat = 0xA0 ∨ c.toNat = 0x1680 ∨
    (0x2000 ≤ c.toNat ∧ c.toNat ≤ 0x200A) ∨ c.toNat = 0x2028 ∨ c.toNat = 0x2029 ∨
    c.toNat = 0x202F ∨ c.toNat = 0x205F ∨ c.toNat = 0x3000 ∨ c.toNat = 0xFEFF

def trim (text : List Char) : List Char :=
  ((text.dropWhile isJsSpace).reverse.dropWhile isJsSpace).reverse

/-- `UNIT_MULTIPLIERS`, for the unit of `STRING_PATTERN`; without a unit it is `ms`. -/
def unitMultiplier (unit : List Char) : Option ℕ :=
  if unit = [] ∨ unit = ['m', 's'] then some 1
  else if unit = ['s'] then some 1000
  else if unit = ['m'] then some 60000
  else if unit = ['h'] then some 3600000
  else if unit = ['d'] then some 86400000
  else none

def digitsValue (digits : List Char) : ℕ :=
  digits.foldl (fun value c => 10 * value + (c.toNat - 48)) 0

/-- `Number(valueStr)` and the multiplier of a match of `/^(\d+)(ms|s|m|h|d)?$/`. -/
def matchDuration (text : List Char) : Option (JsNumber × ℕ) :=
  let digits := text.takeWhile Char.isDigit
  if digits = [] then none
  else (unitMultiplier (text.dropWhile Char.isDigit)).map fun multiplier =>
    (.ofRat (digitsValue digits), multiplier)

def parseDuration : DurationInput → Except DurationError JsNumber
  | .number n => if n.isFinite = false ∨ n < 0 then .error (.invalidNumber n) else .ok n
  | .string s =>
    let trimmed := trim s.toList
    if trimmed = [] then .error .emptyString
    else
      match matchDuration trimmed with
      | none => .error (.invalidString s)
      | some (value, multiplier) => .ok (value * .finite multiplier)
  | .object hours minutes seconds millis =>
    let total := hours.getD 0 * .finite 3600000 + minutes.getD 0 * .finite 60000 +
      seconds.getD 0 * .finite 1000 + millis.getD 0
    if total < 0 then .error (.invalidObject hours minutes seconds millis) else .ok total

/-- The ranges of the Unicode categories `Cc` and `Cf`. -/
def controlRanges : List (ℕ × ℕ) :=
  [(0x0, 0x1F), (0x7F, 0x9F), (0xAD, 0xAD), (0x600, 0x605), (0x61C, 0x61C), (0x6DD, 0x6DD),
    (0x70F, 0x70F), (0x890, 0x891), (0x8E2, 0x8E2), (0x180E, 0x180E), (0x200B, 0x200F),
    (0x202A, 0x202E), (0x2060, 0x2064), (0x2066, 0x206F), (0xFEFF, 0xFEFF), (0xFFF9, 0xFFFB),
    (0x110BD, 0x110BD), (0x110CD, 0x110CD), (0x13430, 0x1343F), (0x1BCA0, 0x1BCA3),
    (0x1D173, 0x1D17A), (0xE0001, 0xE0001), (0xE0020, 0xE007F)]

def isControl (c : Char) : Bool := controlRanges.any fun r => r.1 ≤ c.toNat ∧ c.toNat ≤ r.2

def maxLockNameBytes : ℕ := 1024

inductive ConfigError where
  | emptyName
  | controlCharacters
  | nameTooLong
  | duration (e : DurationError)
  | negativeMost
  | negativeLeast
  | leastExceedsMost
deriving DecidableEq

def ConfigError.message (numberText : JsNumber → String)
    (objectText : Option JsNumber → Option JsNumber → Option JsNumber → Option JsNumber → String) :
    ConfigError → String
  | .emptyName => "Lock name must be a non-empty string"
  | .controlCharacters => "Lock name must not contain control characters"
  | .nameTooLong => s!"Lock name must not exceed {maxLockNameBytes} UTF-8 bytes"
  | .duration e => e.message numberText objectText
  | .negativeMost => "lockAtMostFor must be >= 0"
  | .negativeLeast => "lockAtLeastFor must be >= 0"
  | .leastExceedsMost => "lockAtLeastFor must be <= lockAtMostFor"

def validateLockName (name : String) : Except ConfigError Unit :=
  if name.toList.any isControl then .error .controlCharacters
  else if maxLockNameBytes < name.utf8ByteSize then .error .nameTooLong
  else .ok ()

/-- `now` is the clock reading of `createdAt`. -/
def createLockConfig (name : String) (lockAtMostFor lockAtLeastFor : DurationInput)
    (now : JsNumber) : Except ConfigError (LockConfiguration JsNumber) :=
  if name = "" then .error .emptyName
  else
    match validateLockName name, parseDuration lockAtMostFor, parseDuration lockAtLeastFor with
    | .error e, _, _ => .error e
    | .ok _, .error e, _ => .error (.duration e)
    | .ok _, .ok _, .error e => .error (.duration e)
    | .ok _, .ok most, .ok least =>
      if most < 0 then .error .negativeMost
      else if least < 0 then .error .negativeLeast
      else if most < least then .error .leastExceedsMost
      else .ok { name, lockAtMostFor := most, lockAtLeastFor := least, createdAt := now }

/-- What an accepted configuration has been checked for. -/
structure Accepted (name : String) (lockAtMostFor lockAtLeastFor : DurationInput) (now : JsNumber)
    (config : LockConfiguration JsNumber) : Prop where
  nonempty : name ≠ ""
  validated : validateLockName name = .ok ()
  most : parseDuration lockAtMostFor = .ok config.lockAtMostFor
  least : parseDuration lockAtLeastFor = .ok config.lockAtLeastFor
  most_nonneg : ¬ config.lockAtMostFor < 0
  least_nonneg : ¬ config.lockAtLeastFor < 0
  fits : ¬ config.lockAtMostFor < config.lockAtLeastFor
  name_eq : config.name = name
  createdAt_eq : config.createdAt = now

theorem accepted_of_createLockConfig {name : String} {lockAtMostFor lockAtLeastFor : DurationInput}
    {now : JsNumber} {config : LockConfiguration JsNumber}
    (h : createLockConfig name lockAtMostFor lockAtLeastFor now = .ok config) :
    Accepted name lockAtMostFor lockAtLeastFor now config := by
  unfold createLockConfig at h
  split at h
  · simp at h
  case isFalse hname =>
    split at h
    · simp at h
    · simp at h
    · simp at h
    case h_4 u most least hvalid hmost hleast =>
      split_ifs at h with hm hl hfits
      obtain rfl := Except.ok.inj h
      exact ⟨hname, hvalid, hmost, hleast, hm, hl, hfits, rfl, rfl⟩

end Tslock
