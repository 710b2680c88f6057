import Tslock.Foundation.JsDate
import Tslock.Foundation.JsNumber

/-! `ClockProvider.now()`: a whole number of milliseconds that a `Date` can hold. -/
namespace Tslock

open Foundation

structure ClockReading where
  ms : ℤ
  inRange : JsDate.InRange ms
deriving DecidableEq

namespace ClockReading

variable (now : ClockReading)

def toNumber : JsNumber := .finite now.ms

def epoch : ClockReading := ⟨0, by decide⟩

/-- `Utils.toIsoString` does not throw on a reading. -/
def toIsoString : String := String.ofList (JsDate.isoText now.ms)

theorem toIsoString_eq : JsDate.toIsoString now.ms = some now.toIsoString := by
  rw [JsDate.toIsoString, if_pos now.inRange, toIsoString]

theorem abs_ms_le : |now.ms| ≤ 8640000000000000 := abs_le.mpr now.inRange

end ClockReading

end Tslock
