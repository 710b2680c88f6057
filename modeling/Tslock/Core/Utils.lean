import Mathlib.Algebra.Order.Floor.Ring
import Mathlib.Algebra.Order.Ring.Rat
import Mathlib.Data.Rat.Floor
import Mathlib.Tactic.Linarith
import Tslock.Foundation.JsDate

/-! `utils.ts` on exact rational times. -/
namespace Tslock.Utils

open Foundation

/-- `new Date(epochMillis).toISOString()`: a `Date` drops the fraction of a millisecond. -/
def toIsoString (epochMillis : ℚ) : Option String :=
  if -8640000000000000 ≤ epochMillis ∧ epochMillis ≤ 8640000000000000 then
    JsDate.toIsoString (if 0 ≤ epochMillis then ⌊epochMillis⌋ else ⌈epochMillis⌉)
  else none

def toTtlSeconds (ms : ℚ) : ℤ := ⌊ms / 1000⌋ + 1

/-- A key never expires early. -/
theorem lt_toTtlSeconds (ms : ℚ) : ms < 1000 * toTtlSeconds ms := by
  have h := Int.lt_floor_add_one (ms / 1000)
  unfold toTtlSeconds
  push_cast
  linarith

end Tslock.Utils
