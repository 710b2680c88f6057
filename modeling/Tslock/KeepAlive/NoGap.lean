import Tslock.KeepAlive.Release

/-! Renewals that follow one another and reach the store in time: the lock is held without a gap. -/
namespace Tslock.KeepAlive

open Function Foundation

variable {host : String} {config : LockConfiguration ℚ} {s t u : System} {e : Event}
  {as : List Event} {i j : ℕ} {c : ℚ}

theorem not_settled {r : Renewal} (hi : s.renewals i = r) (hr : r ≠ .ready false) :
    ¬ s.Settled :=
  fun h => hr (hi.symm.trans (h i))

end Tslock.KeepAlive
