import Mathlib.Data.List.Basic

/-! Regular expressions with the flag `g` and one group: the parts of a text and `exec`. -/
namespace Foundation

/-- What the expression takes at the head of a text: how much of it, and its group. -/
structure GlobalRegExp (α β : Type*) where
  matchHere : List α → Option (ℕ × β)
  pos : ∀ s n b, matchHere s = some (n, b) → 0 < n
  le_length : ∀ s n b, matchHere s = some (n, b) → n ≤ s.length

/-- `text.slice(start, end)` -/
def slice {α : Type*} (text : List α) (first last : ℕ) : List α :=
  (text.drop first).take (last - first)

namespace GlobalRegExp

variable {α β : Type*}

/-- The parts of a text. The first `skip` characters belong to a match already counted. -/
def partsFrom (re : GlobalRegExp α β) : ℕ → List α → List (α ⊕ β)
  | _, [] => []
  | skip + 1, _ :: s => re.partsFrom skip s
  | 0, c :: s =>
    match re.matchHere (c :: s) with
    | none => .inl c :: re.partsFrom 0 s
    | some (n, b) => .inr b :: re.partsFrom (n - 1) s

/-- A text as the characters outside the matches, and the groups of the matches. -/
def parts (re : GlobalRegExp α β) (text : List α) : List (α ⊕ β) := re.partsFrom 0 text

structure Match (β : Type*) where
  index : ℕ
  lastIndex : ℕ
  group : β

/-- The first match in a text that starts at `position`. -/
def search (re : GlobalRegExp α β) : ℕ → List α → Option (Match β)
  | _, [] => none
  | position, c :: s =>
    match re.matchHere (c :: s) with
    | none => re.search (position + 1) s
    | some (n, b) => some ⟨position, position + n, b⟩

def exec (re : GlobalRegExp α β) (text : List α) (lastIndex : ℕ) : Option (Match β) :=
  re.search lastIndex (text.drop lastIndex)

variable {re : GlobalRegExp α β} {s : List α} {b : β} {c : α} {n i : ℕ} {m : Match β}

theorem partsFrom_eq (n : ℕ) (s : List α) : re.partsFrom n s = re.parts (s.drop n) := by
  induction n generalizing s with
  | zero => rfl
  | succ n ih =>
    cases s with
    | nil => rfl
    | cons c s => exact ih s

theorem parts_cons (h : re.matchHere (c :: s) = none) :
    re.parts (c :: s) = .inl c :: re.parts s := by
  simp only [parts, partsFrom, h]

theorem parts_of_match (h : re.matchHere s = some (n, b)) :
    re.parts s = .inr b :: re.parts (s.drop n) := by
  have hpos := re.pos _ _ _ h
  cases s with
  | nil => exact absurd (re.le_length _ _ _ h) (by simp; omega)
  | cons c s =>
    obtain ⟨k, rfl⟩ := Nat.exists_eq_succ_of_ne_zero (Nat.ne_of_gt hpos)
    rw [parts, partsFrom, h]
    exact congrArg _ (partsFrom_eq k s)

/-- The parts put back together, each group with its match, are the text. -/
theorem flatMap_parts {source : β → List α}
    (hsource : ∀ s n b, re.matchHere s = some (n, b) → s.take n = source b) (s : List α) :
    (re.parts s).flatMap (Sum.elim (fun c => [c]) source) = s := by
  induction hlen : s.length using Nat.strongRecOn generalizing s with
  | _ k ih =>
    cases s with
    | nil => rfl
    | cons c s =>
      cases h : re.matchHere (c :: s) with
      | none =>
        rw [parts_cons h, List.flatMap_cons, ih s.length (by rw [← hlen]; simp) s rfl]
        rfl
      | some x =>
        obtain ⟨n, b⟩ := x
        have hpos := re.pos _ _ _ h
        have hdrop : ((c :: s).drop n).length < k := by
          rw [← hlen, List.length_drop, List.length_cons]
          omega
        rw [parts_of_match h, List.flatMap_cons, ih _ hdrop _ rfl, Sum.elim_inr,
          ← hsource _ _ _ h, List.take_append_drop]

theorem search_none (h : re.search i s = none) : re.parts s = s.map .inl := by
  induction s generalizing i with
  | nil => rfl
  | cons c s ih =>
    cases hc : re.matchHere (c :: s) with
    | none =>
      simp only [search, hc] at h
      rw [parts_cons hc, ih h, List.map_cons]
    | some x => simp [search, hc] at h

/-- The text before the match, the match, and the text after it. -/
theorem search_some (h : re.search i s = some m) :
    i ≤ m.index ∧ m.index < m.lastIndex ∧ m.lastIndex ≤ i + s.length ∧
    re.parts s = (s.take (m.index - i)).map .inl ++
      .inr m.group :: re.parts (s.drop (m.lastIndex - i)) := by
  induction s generalizing i with
  | nil => cases h
  | cons c s ih =>
    cases hc : re.matchHere (c :: s) with
    | none =>
      simp only [search, hc] at h
      obtain ⟨hlow, hlt, hhigh, hparts⟩ := ih h
      refine ⟨by omega, hlt, by rw [List.length_cons]; omega, ?_⟩
      have hindex : m.index - i = (m.index - (i + 1)) + 1 := by omega
      have hlast : m.lastIndex - i = (m.lastIndex - (i + 1)) + 1 := by omega
      rw [parts_cons hc, hparts, hindex, hlast]
      rfl
    | some x =>
      obtain ⟨n, b⟩ := x
      simp only [search, hc, Option.some.injEq] at h
      subst h
      have hpos := re.pos _ _ _ hc
      have hle := re.le_length _ _ _ hc
      refine ⟨Nat.le_refl _, by dsimp only; omega, by dsimp only; omega, ?_⟩
      rw [parts_of_match hc]
      simp

variable {text : List α}

theorem exec_none (h : re.exec text i = none) :
    re.parts (text.drop i) = (text.drop i).map .inl :=
  search_none h

theorem exec_some (h : re.exec text i = some m) :
    re.parts (text.drop i) =
      (slice text i m.index).map .inl ++ .inr m.group :: re.parts (text.drop m.lastIndex) := by
  obtain ⟨hlow, hlt, -, hparts⟩ := search_some h
  rw [hparts, List.drop_drop, Nat.add_sub_cancel' (Nat.le_trans hlow (Nat.le_of_lt hlt))]
  rfl

/-- A match moves `lastIndex` towards the end of the text. -/
theorem exec_bounds (h : re.exec text i = some m) :
    i ≤ m.index ∧ m.index < m.lastIndex ∧ m.lastIndex ≤ text.length := by
  obtain ⟨hlow, hlt, hhigh, -⟩ := search_some h
  rw [List.length_drop] at hhigh
  have hi : i < text.length := by omega
  exact ⟨hlow, hlt, by omega⟩

end GlobalRegExp

end Foundation
