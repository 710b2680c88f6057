import Mathlib.Algebra.Order.Ring.Nat
import Mathlib.Tactic.Common

/-! The entries a key has had, newest first. A revision number tells them apart, so a write that
asks for the revision it has read replaces what it has read. -/
namespace Foundation

/-- Each revision is greater than the ones before it. -/
structure RevisionLog (α : Type*) where
  entries : List (ℕ × α)
  descending : entries.Pairwise fun newer older => older.1 < newer.1

namespace RevisionLog

variable {α : Type*} {log : RevisionLog α} {x y : ℕ × α}

def empty : RevisionLog α := ⟨[], .nil⟩

def latest (log : RevisionLog α) : Option (ℕ × α) := log.entries.head?

def push (log : RevisionLog α) (x : ℕ × α) (h : ∀ y ∈ log.entries, y.1 < x.1) : RevisionLog α :=
  ⟨x :: log.entries, List.pairwise_cons.mpr ⟨h, log.descending⟩⟩

@[simp] theorem latest_push (h : ∀ y ∈ log.entries, y.1 < x.1) :
    (log.push x h).latest = some x := rfl

@[simp] theorem mem_push {h : ∀ y ∈ log.entries, y.1 < x.1} {z : ℕ × α} :
    z ∈ (log.push x h).entries ↔ z = x ∨ z ∈ log.entries := List.mem_cons

theorem mem_of_latest (h : log.latest = some x) : x ∈ log.entries := List.mem_of_head? h

/-- The latest entry has the greatest revision. -/
theorem le_latest (hl : log.latest = some y) (hx : x ∈ log.entries) : x = y ∨ x.1 < y.1 := by
  obtain ⟨entries, descending⟩ := log
  cases entries with
  | nil => cases hx
  | cons head tail =>
    obtain rfl : head = y := Option.some.inj hl
    rcases List.mem_cons.mp hx with rfl | hx
    · exact .inl rfl
    · exact .inr ((List.pairwise_cons.mp descending).1 x hx)

/-- The revision of the latest entry is the one of no other. -/
theorem eq_latest (hl : log.latest = some y) (hx : x ∈ log.entries) (hr : y.1 = x.1) : y = x := by
  rcases le_latest hl hx with rfl | hlt
  · rfl
  · omega

/-- A key whose entries are numbered from 0 on. -/
def next (log : RevisionLog α) : ℕ := log.latest.elim 0 fun x => x.1 + 1

theorem lt_next (hx : x ∈ log.entries) : x.1 < log.next := by
  cases hl : log.latest with
  | none =>
    rw [latest, List.head?_eq_none_iff] at hl
    rw [hl] at hx
    cases hx
  | some y =>
    rw [next, hl, Option.elim_some]
    rcases le_latest hl hx with rfl | hlt
    · exact Nat.lt_succ_self _
    · omega

/-- A set of the node: one revision more than the latest entry. -/
def append (log : RevisionLog α) (a : α) : RevisionLog α := log.push (log.next, a) fun _ => lt_next

end RevisionLog

end Foundation
