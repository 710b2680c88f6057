import Tslock.Core.ClockProvider
import Tslock.Core.LockConfiguration
import Tslock.Foundation.Intl

/-! Lock records that hold their deadline as an ISO text, and the calls of an accessor. -/
namespace Tslock.IsoStores

open Foundation

/-- `Utils.toIsoString`; it throws for a number that is no date. -/
def toIsoString (epochMillis : JsNumber) : Option String :=
  (JsDate.ofNumber epochMillis).bind JsDate.toIsoString

structure LockRecord where
  lockUntil : String
  lockedAt : String
  lockedBy : String
deriving DecidableEq

inductive Method where
  | lock
  | extend (previousLockAtMostUntil : Option JsNumber)
  | unlock
deriving DecidableEq

/-- A call of a method, with its reading of the clock. -/
structure Call where
  method : Method
  config : LockConfiguration JsNumber
  hostname : String
  now : ClockReading
deriving DecidableEq

/-- How a call settles. `threw` is the `RangeError` of `toISOString`. -/
inductive Reply where
  | handle (config : LockConfiguration JsNumber)
  | undefined
  | void
  | threw
deriving DecidableEq

/-- One call, from the record of its lock to the record after it. -/
abbrev Accessor := Call → Option LockRecord → Option LockRecord × Reply

/-- The instant a call writes as `lockUntil`. -/
def Call.written (call : Call) : JsNumber :=
  match call.method with
  | .lock | .extend _ => call.config.lockAtMostUntil
  | .unlock => call.config.unlockTime call.now.toNumber

end Tslock.IsoStores
