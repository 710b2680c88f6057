import Mathlib.Algebra.Order.Ring.Rat
import Mathlib.Data.List.Lex
import Tslock.Core.LockConfiguration
import Tslock.Foundation.JsCollections

/-! `tracking-lock-provider.ts` and the active locks of a `lock-health.ts` snapshot. A wrapped
handle is known by its place in the list of those made so far; its delegate is left out. -/
namespace Tslock.Tracking

open Foundation

structure ActiveLockRecord where
  name : String
  lockAtMostFor : ℚ
  lockAtLeastFor : ℚ
  acquiredAt : ℚ
  updatedAt : ℚ
deriving DecidableEq

/-- `acquisition` tells which call of `lock()` the handle descends from; the code has no such
field. -/
structure TrackingSimpleLock where
  unlocked : Bool
  record : ActiveLockRecord
  acquisition : ℕ
deriving DecidableEq

structure TrackingLockProviderWrapper where
  handles : List TrackingSimpleLock
  activeLocks : List ℕ
  records : List (ℕ × ActiveLockRecord)
deriving DecidableEq

namespace TrackingLockProviderWrapper

def empty : TrackingLockProviderWrapper := ⟨[], [], []⟩

def track (w : TrackingLockProviderWrapper) (lock : TrackingSimpleLock) :
    TrackingLockProviderWrapper where
  handles := w.handles ++ [lock]
  activeLocks := JsSet.add w.activeLocks w.handles.length
  records := JsMap.set w.records w.handles.length lock.record

def untrack (w : TrackingLockProviderWrapper) (h : ℕ) : TrackingLockProviderWrapper :=
  { w with activeLocks := JsSet.delete w.activeLocks h, records := JsMap.delete w.records h }

/-- The rest of `lock()` once the delegate has granted the lock. -/
def lock (w : TrackingLockProviderWrapper) (acquisition : ℕ) (config : LockConfiguration ℚ)
    (now : ℚ) : TrackingLockProviderWrapper :=
  w.track
    { unlocked := false
      record :=
        { name := config.name
          lockAtMostFor := config.lockAtMostFor
          lockAtLeastFor := config.lockAtLeastFor
          acquiredAt := now
          updatedAt := now }
      acquisition }

/-- `unlock()` up to its `await`. -/
def unlock (w : TrackingLockProviderWrapper) (h : ℕ) : TrackingLockProviderWrapper :=
  match w.handles[h]? with
  | none => w
  | some lock =>
    if lock.unlocked then w
    else { w with handles := w.handles.set h { lock with unlocked := true } }.untrack h

/-- The rest of `extend()` once the delegate has returned a new lock. -/
def extended (w : TrackingLockProviderWrapper) (h : ℕ) (lockAtMostFor lockAtLeastFor now : ℚ) :
    TrackingLockProviderWrapper :=
  match w.handles[h]? with
  | none => w
  | some lock =>
    (w.untrack h).track
      { unlocked := false
        record :=
          { name := lock.record.name
            lockAtMostFor
            lockAtLeastFor
            acquiredAt := lock.record.acquiredAt
            updatedAt := now }
        acquisition := lock.acquisition }

def getActiveLockRecords (w : TrackingLockProviderWrapper) : List ActiveLockRecord :=
  w.records.map Prod.snd

/-- The acquisition a handle descends from. -/
def owner (w : TrackingLockProviderWrapper) (h : ℕ) : Option ℕ :=
  w.handles[h]?.map (·.acquisition)

/-- What acquisition `i` contributes to the set and to the map. -/
def activeOf (w : TrackingLockProviderWrapper) (i : ℕ) : List ℕ :=
  w.activeLocks.filter fun h => decide (w.owner h = some i)

def recordsOf (w : TrackingLockProviderWrapper) (i : ℕ) : List (ℕ × ActiveLockRecord) :=
  w.records.filter fun e => decide (w.owner e.1 = some i)

end TrackingLockProviderWrapper

namespace LockHealth

/-- The UTF-16 code units that JavaScript compares strings by. -/
def codeUnits (s : String) : List ℕ :=
  s.toList.flatMap fun c =>
    if c.toNat < 0x10000 then [c.toNat]
    else [0xD800 + (c.toNat - 0x10000) / 0x400, 0xDC00 + (c.toNat - 0x10000) % 0x400]

structure LockHealthSnapshot where
  takenAt : ℚ
  activeLocks : List ActiveLockRecord
  overdueLocks : List ActiveLockRecord

/-- `snapshot()`, without what it repeats of earlier events. -/
def snapshot (tracking : TrackingLockProviderWrapper) (takenAt : ℚ) : LockHealthSnapshot :=
  let activeLocks := tracking.getActiveLockRecords.mergeSort
    fun a b => decide (codeUnits a.name ≤ codeUnits b.name)
  { takenAt
    activeLocks
    overdueLocks := activeLocks.filter fun lock =>
      decide (lock.lockAtMostFor < takenAt - lock.updatedAt) }

end LockHealth

/-- The set of active locks is the set of keys of the records, and an active handle has been
made and not unlocked. -/
structure TrackingLockProviderWrapper.WellFormed (w : TrackingLockProviderWrapper) : Prop where
  keys : JsMap.keys w.records = w.activeLocks
  nodup : w.activeLocks.Nodup
  live : ∀ h ∈ w.activeLocks, ∃ lock, w.handles[h]? = some lock ∧ lock.unlocked = false

namespace TrackingLockProviderWrapper

variable {w : TrackingLockProviderWrapper} {lock : TrackingSimpleLock} {h i j : ℕ}

theorem WellFormed.lt_length (hw : w.WellFormed) (hh : h ∈ w.activeLocks) :
    h < w.handles.length := by
  obtain ⟨lock, hlock, -⟩ := hw.live h hh
  exact (List.getElem?_eq_some_iff.mp hlock).1

theorem wellFormed_empty : empty.WellFormed := ⟨rfl, .nil, nofun⟩

theorem wellFormed_untrack (hw : w.WellFormed) : (w.untrack h).WellFormed where
  keys := by
    change JsMap.keys (JsMap.delete w.records h) = JsSet.delete w.activeLocks h
    rw [JsMap.keys_delete, hw.keys]
  nodup := JsSet.nodup_delete hw.nodup
  live x hx := hw.live x (JsSet.mem_delete.mp hx).1

theorem wellFormed_track (hw : w.WellFormed) (hl : lock.unlocked = false) :
    (w.track lock).WellFormed where
  keys := by
    change JsMap.keys (JsMap.set w.records _ _) = JsSet.add w.activeLocks _
    rw [JsMap.keys_set, hw.keys]
  nodup := JsSet.nodup_add hw.nodup
  live x hx := by
    rcases JsSet.mem_add.mp hx with hx | rfl
    · obtain ⟨l, hget, hunlocked⟩ := hw.live x hx
      exact ⟨l, by simp [track, List.getElem?_append_left (hw.lt_length hx), hget], hunlocked⟩
    · exact ⟨lock, by simp [track], hl⟩

theorem wellFormed_unlock (hw : w.WellFormed) : (w.unlock h).WellFormed := by
  unfold unlock
  split
  · exact hw
  · next lock hlock =>
    split_ifs
    · exact hw
    · refine ⟨?_, JsSet.nodup_delete hw.nodup, ?_⟩
      · exact (wellFormed_untrack hw).keys
      · intro x hx
        obtain ⟨hx, hne⟩ := JsSet.mem_delete.mp hx
        obtain ⟨l, hget, hunlocked⟩ := hw.live x hx
        exact ⟨l, by simpa [untrack, List.getElem?_set_ne hne.symm] using hget, hunlocked⟩

theorem wellFormed_extended {most least now : ℚ} (hw : w.WellFormed) :
    (w.extended h most least now).WellFormed := by
  unfold extended
  split
  · exact hw
  · exact wellFormed_track (wellFormed_untrack hw) rfl

/-- A handle stays with its acquisition. -/
theorem owner_track (hh : h < w.handles.length) : (w.track lock).owner h = w.owner h := by
  simp [owner, track, List.getElem?_append_left hh]

theorem owner_track_new : (w.track lock).owner w.handles.length = some lock.acquisition := by
  simp [owner, track]

theorem owner_unlock : (w.unlock h).owner i = w.owner i := by
  unfold unlock
  split
  · rfl
  · next lock hlock =>
    split_ifs
    · rfl
    · rcases eq_or_ne h i with rfl | hne
      · obtain ⟨hlt, rfl⟩ := List.getElem?_eq_some_iff.mp hlock
        simp [owner, untrack, hlt]
      · simp [owner, untrack, List.getElem?_set_ne hne]

theorem activeOf_untrack :
    (w.untrack h).activeOf i = (w.activeOf i).filter fun x => decide (x ≠ h) := by
  change List.filter (fun x => decide (w.owner x = some i)) (w.activeLocks.filter _) = _
  rw [List.filter_comm]
  rfl

theorem activeOf_track (hw : w.WellFormed) :
    (w.track lock).activeOf i =
      w.activeOf i ++ if lock.acquisition = i then [w.handles.length] else [] := by
  have hnew : w.handles.length ∉ w.activeLocks := fun hmem => (hw.lt_length hmem).false
  have hset : (w.track lock).activeLocks = w.activeLocks ++ [w.handles.length] := by
    simp [track, JsSet.add, hnew]
  unfold activeOf
  rw [hset, List.filter_append]
  congr 1
  · refine List.filter_congr fun x hx => ?_
    rw [owner_track (hw.lt_length hx)]
  · simp only [List.filter_singleton, owner_track_new, Option.some.injEq]
    split_ifs <;> simp_all

theorem map_recordsOf (hw : w.WellFormed) : (w.recordsOf i).map Prod.fst = w.activeOf i := by
  unfold recordsOf activeOf
  rw [← hw.keys, JsMap.keys, List.filter_map]
  rfl

end TrackingLockProviderWrapper

end Tslock.Tracking
