import Tslock.Core.LockConfiguration

/-! Calls of the methods of a `StorageAccessor`, how they end, and their sequences. -/
namespace Tslock

variable {τ σ : Type*}

inductive AccessorMethod (τ : Type*) where
  | insertRecord
  | updateRecord
  | unlock
  | extend (previousLockAtMostUntil : Option τ)
deriving DecidableEq, Repr

/-- `now` is the clock reading of the call. -/
structure AccessorCall (τ : Type*) where
  method : AccessorMethod τ
  lockedByValue : String
  config : LockConfiguration τ
  now : τ
deriving DecidableEq, Repr

inductive AccessorReply where
  | returned (b : Bool)
  | done
  | threw (message : String)
deriving DecidableEq, Repr

/-- The caller holds the lock, or holds it longer. -/
def AccessorReply.granted (r : AccessorReply) : Bool := r = .returned true

/-- The grants of a sequence of calls, each an atomic step on the store. -/
def grants (serve : AccessorCall τ → σ → σ × AccessorReply) :
    List (AccessorCall τ) → σ → List Bool
  | [], _ => []
  | call :: calls, store =>
    (serve call store).2.granted :: grants serve calls (serve call store).1

end Tslock
