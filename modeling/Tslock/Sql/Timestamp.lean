import Tslock.Foundation.Intl
import Tslock.Sql.Statements

/-! `timestamp.ts`, and `SqlStatementsSource.params` with a time zone. -/
namespace Tslock.Sql

open Foundation

/-- The captures of `/GMT([+-]\d{1,2}):?(\d{2})?/` at the start of a text: the sign and the digits
of the first, and the second where it took part. -/
def matchGmt (text : List Char) : Option (Char × List Char × Option (List Char)) :=
  match text.drop 3 with
  | [] => none
  | c :: rest =>
    let hours := (rest.takeWhile Char.isDigit).take 2
    if text.take 3 = ['G', 'M', 'T'] ∧ (c = '+' ∨ c = '-') ∧ hours ≠ [] then
      let rest := rest.drop hours.length
      let rest := if rest.head? = some ':' then rest.tail else rest
      let minutes := (rest.takeWhile Char.isDigit).take 2
      some (c, hours, if minutes.length = 2 then some minutes else none)
    else none

/-- `RegExp.exec`: the first match. -/
def execGmt (text : List Char) : Option (Char × List Char × Option (List Char)) :=
  text.tails.findSome? matchGmt

/-- `padStart(2, '0')` -/
def padStart (text : List Char) : List Char := List.replicate (2 - text.length) '0' ++ text

def getOffset (timeZone : TimeZone) (t : ℤ) : List Char :=
  let offset := (Intl.partValue "timeZoneName" (timeZone.formatOffsetToParts t)).getD
    ['+', '0', '0', ':', '0', '0']
  match execGmt offset with
  | none => ['+', '0', '0', ':', '0', '0']
  | some (sign, hours, minutes) =>
    (if sign = '-' then '-' else '+') :: (padStart hours ++ ':' :: minutes.getD ['0', '0'])

/-- The text of the wall clock. -/
def isoOf (timeZone : TimeZone) (t : ℤ) : List Char :=
  let get type := (Intl.partValue type (timeZone.formatToParts t)).getD ['0']
  get "year" ++ '-' :: (get "month" ++ '-' :: (get "day" ++ 'T' :: (get "hour" ++ ':' ::
    (get "minute" ++ ':' :: (get "second" ++ '.' :: (get "fractionalSecond" ++
      getOffset timeZone t))))))

/-- The text of the `RangeError` of `formatToParts`. -/
def invalidTimeMessage : String := "Invalid time value"

/-- The time value of the `Date`, none where it is invalid. -/
def timestamp (epochMillis : JsNumber) (timeZone : Option TimeZone) : Except String (Option ℤ) :=
  match timeZone with
  | none => .ok (JsDate.ofNumber epochMillis)
  | some timeZone =>
    match JsDate.ofNumber epochMillis with
    | none => .error invalidTimeMessage
    | some t => .ok (JsDate.ofText (isoOf timeZone t))

/-- A parameter that is bound only if there is a value. -/
def timestampIfAny (timeZone : Option TimeZone) :
    Option JsNumber → Except String (Option (Option ℤ))
  | none => .ok none
  | some epochMillis => (timestamp epochMillis timeZone).map some

/-- `params` where a time zone may be configured. -/
def zonedParams (timeZone : Option TimeZone) (lockedByValue : String) (now unlockNow : JsNumber)
    (lockConfig : LockConfiguration JsNumber) (previousLockAtMostUntil : Option JsNumber) :
    Except String (Params (Option ℤ)) := do
  let bound := params lockedByValue now unlockNow lockConfig previousLockAtMostUntil
  let lockUntil ← timestamp bound.lockUntil timeZone
  let now ← timestamp bound.now timeZone
  let unlockTime ← timestamp bound.unlockTime timeZone
  let previousLockUntil ← timestampIfAny timeZone bound.previousLockUntil
  .ok { name := bound.name, lockUntil, now, lockedBy := bound.lockedBy, unlockTime,
        previousLockUntil }

/-- The instants that `params` binds. -/
def Params.instants {τ : Type*} (p : Params τ) : List τ :=
  [p.lockUntil, p.now, p.unlockTime] ++ p.previousLockUntil.toList

end Tslock.Sql
