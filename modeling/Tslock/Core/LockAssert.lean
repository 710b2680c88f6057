import Mathlib.Data.List.Basic

/-! `lock-assert.ts`: the names of the locks an asynchronous context runs under. -/
namespace Tslock.LockAssert

/-- The store of `LockAssert.storage`; `none` outside every `run`. -/
abbrev Store := Option (List String)

def alreadyLockedBy (store : Store) (name : String) : Bool := (store.getD []).contains name

/-- The store inside the callback of `runWithLock`. -/
def runWithLock (store : Store) (name : String) : Store := some (name :: store.getD [])

/-- `assertLocked` throws unless this holds. -/
def Locked (store : Store) : Prop := store.getD [] ≠ []

variable {store : Store} {name name' : String}

theorem locked_runWithLock : Locked (runWithLock store name) := by simp [Locked, runWithLock]

@[simp] theorem alreadyLockedBy_runWithLock :
    alreadyLockedBy (runWithLock store name') name = true ↔
      name = name' ∨ alreadyLockedBy store name = true := by
  simp [alreadyLockedBy, runWithLock]

end Tslock.LockAssert
