import Mathlib.Data.List.Basic
import Mathlib.Data.List.Nodup

/-! The `Set` and `Map` of JavaScript, in insertion order. -/
namespace Foundation

variable {α β : Type*} [DecidableEq α]

namespace JsSet

def add (s : List α) (a : α) : List α := if a ∈ s then s else s ++ [a]

def delete (s : List α) (a : α) : List α := s.filter fun b => decide (b ≠ a)

end JsSet

namespace JsMap

def keys (m : List (α × β)) : List α := m.map Prod.fst

def set (m : List (α × β)) (a : α) (b : β) : List (α × β) :=
  if a ∈ keys m then m.map fun e => if e.1 = a then (a, b) else e else m ++ [(a, b)]

def delete (m : List (α × β)) (a : α) : List (α × β) := m.filter fun e => decide (e.1 ≠ a)

end JsMap

variable {s : List α} {m : List (α × β)} {a x : α} {b : β}

theorem JsSet.mem_add : x ∈ JsSet.add s a ↔ x ∈ s ∨ x = a := by
  unfold JsSet.add
  split_ifs with h
  · constructor
    · exact .inl
    · rintro (hx | rfl)
      · exact hx
      · exact h
  · simp

theorem JsSet.mem_delete : x ∈ JsSet.delete s a ↔ x ∈ s ∧ x ≠ a := by
  simp [JsSet.delete]

theorem JsSet.nodup_add (h : s.Nodup) : (JsSet.add s a).Nodup := by
  unfold JsSet.add
  split_ifs with ha
  · exact h
  · refine List.nodup_append.mpr ⟨h, List.nodup_singleton a, ?_⟩
    intro y hy z hz
    obtain rfl := List.mem_singleton.mp hz
    exact ne_of_mem_of_not_mem hy ha

theorem JsSet.nodup_delete (h : s.Nodup) : (JsSet.delete s a).Nodup := h.filter _

theorem JsMap.keys_set : JsMap.keys (JsMap.set m a b) = JsSet.add (JsMap.keys m) a := by
  unfold JsMap.set JsSet.add
  split_ifs with h
  · unfold JsMap.keys
    rw [List.map_map]
    refine List.map_congr_left fun e _ => ?_
    by_cases he : e.1 = a
    · simp [he]
    · simp [he]
  · simp [JsMap.keys]

theorem JsMap.keys_delete : JsMap.keys (JsMap.delete m a) = JsSet.delete (JsMap.keys m) a := by
  unfold JsMap.keys JsMap.delete JsSet.delete
  rw [List.filter_map]
  rfl

end Foundation
