import Mathlib.Data.Nat.Notation
import Mathlib.Logic.Function.Basic
import Mathlib.Tactic.ByContra

/-! A key-value store with leases: each key is attached to a lease, and a lease that ends takes the
keys attached to it along. -/
namespace Foundation

open Function

/-- `granted` has every lease there ever was, `live` says which of them have not ended. -/
structure LeaseStore (K V L : Type*) where
  granted : ℕ → Option L
  live : ℕ → Bool
  kv : K → Option (V × ℕ)
  granted_of_live : ∀ x, live x = true → granted x ≠ none
  live_of_attached : ∀ k v x, kv k = some (v, x) → live x = true

namespace LeaseStore

variable {K V L : Type*} {st : LeaseStore K V L} {k k' : K} {v : V} {x y : ℕ} {lease info : L}

def empty : LeaseStore K V L := ⟨fun _ => none, fun _ => false, fun _ => none, nofun, nofun⟩

/-- The key is attached to the lease. -/
def Attached (st : LeaseStore K V L) (k : K) (x : ℕ) : Prop := ∃ v, st.kv k = some (v, x)

/-- The lease a key is attached to. -/
def tenant (st : LeaseStore K V L) (k : K) : Option L := (st.kv k).bind fun entry =>
  st.granted entry.2

def grant (st : LeaseStore K V L) (x : ℕ) (lease : L) : LeaseStore K V L where
  granted := update st.granted x (some lease)
  live := update st.live x true
  kv := st.kv
  granted_of_live y hy := by
    by_cases hxy : y = x
    · subst hxy
      simp
    · simp only [update_of_ne hxy] at hy ⊢
      exact st.granted_of_live y hy
  live_of_attached k v y hy := by
    by_cases hxy : y = x
    · subst hxy
      simp
    · simp only [update_of_ne hxy]
      exact st.live_of_attached k v y hy

/-- A put detaches the key from the lease it was attached to. -/
def put [DecidableEq K] (st : LeaseStore K V L) (k : K) (v : V) (x : ℕ) (hx : st.live x = true) :
    LeaseStore K V L where
  granted := st.granted
  live := st.live
  kv := update st.kv k (some (v, x))
  granted_of_live := st.granted_of_live
  live_of_attached k' v' y hy := by
    by_cases hk : k' = k
    · subst hk
      rw [update_self] at hy
      cases hy
      exact hx
    · rw [update_of_ne hk] at hy
      exact st.live_of_attached k' v' y hy

/-- The end of a lease deletes exactly the keys attached to it. -/
def revoke (st : LeaseStore K V L) (x : ℕ) : LeaseStore K V L where
  granted := st.granted
  live := update st.live x false
  kv k := (st.kv k).filter fun entry => entry.2 ≠ x
  granted_of_live y hy := by
    by_cases hxy : y = x
    · subst hxy
      simp at hy
    · rw [update_of_ne hxy] at hy
      exact st.granted_of_live y hy
  live_of_attached k v y hy := by
    rw [Option.filter_eq_some_iff] at hy
    have hxy : y ≠ x := by simpa using hy.2
    rw [update_of_ne hxy]
    exact st.live_of_attached k v y hy.1

theorem Attached.unique (h : st.Attached k x) (h' : st.Attached k y) : x = y := by
  obtain ⟨v, hv⟩ := h
  obtain ⟨v', hv'⟩ := h'
  cases hv.symm.trans hv'
  rfl

theorem Attached.granted (h : st.Attached k x) : ∃ lease, st.granted x = some lease := by
  obtain ⟨v, hv⟩ := h
  exact Option.ne_none_iff_exists'.mp (st.granted_of_live x (st.live_of_attached k v x hv))

theorem Attached.tenant (h : st.Attached k x) (hx : st.granted x = some lease) :
    st.tenant k = some lease := by
  obtain ⟨v, hv⟩ := h
  rw [LeaseStore.tenant, hv, Option.bind_some, hx]

/-- A key that has a tenant is attached to a lease of it. -/
theorem attached_of_tenant (h : st.tenant k = some lease) :
    ∃ x, st.Attached k x ∧ st.granted x = some lease := by
  obtain ⟨⟨v, x⟩, hv, hx⟩ := Option.bind_eq_some_iff.mp h
  exact ⟨x, ⟨v, hv⟩, hx⟩

theorem tenant_of_absent (h : st.kv k = none) : st.tenant k = none := by
  rw [tenant, h, Option.bind_none]

theorem granted_grant (hx : st.granted x = none) (hy : st.granted y = some info) :
    (st.grant x lease).granted y = some info := by
  have hxy : y ≠ x := by
    rintro rfl
    exact Option.some_ne_none _ (hy.symm.trans hx)
  exact (update_of_ne hxy _ _).trans hy

theorem tenant_grant (hx : st.granted x = none) : (st.grant x lease).tenant = st.tenant := by
  funext k
  cases hk : st.kv k with
  | none =>
    have hafter : (st.grant x lease).kv k = none := hk
    rw [tenant_of_absent hk, tenant_of_absent hafter]
  | some entry =>
    obtain ⟨info, hinfo⟩ := Attached.granted ⟨entry.1, hk⟩
    have hbefore : st.Attached k entry.2 := ⟨entry.1, hk⟩
    have hafter : (st.grant x lease).Attached k entry.2 := hbefore
    rw [hbefore.tenant hinfo, hafter.tenant (granted_grant hx hinfo)]

section Put

variable [DecidableEq K] {hx : st.live x = true}

theorem attached_put : (st.put k v x hx).Attached k' y ↔
    (k' = k ∧ y = x) ∨ (k' ≠ k ∧ st.Attached k' y) := by
  by_cases hk : k' = k
  · subst hk
    simp only [Attached, put, update_self, Option.some.injEq, Prod.mk.injEq]
    constructor
    · rintro ⟨_, _, rfl⟩
      exact .inl ⟨trivial, rfl⟩
    · rintro (⟨-, rfl⟩ | ⟨hne, -⟩)
      · exact ⟨v, rfl, rfl⟩
      · exact absurd rfl hne
  · simp only [Attached, put, update_of_ne hk, hk, ne_eq, not_false_iff, true_and, false_and,
      false_or]

theorem kv_put_of_ne (hx : st.live x = true) (hk : k' ≠ k) :
    (st.put k v x hx).kv k' = st.kv k' := update_of_ne hk _ _

theorem tenant_put (hlease : st.granted x = some lease) :
    (st.put k v x hx).tenant = update st.tenant k (some lease) := by
  funext k'
  by_cases hk : k' = k
  · subst hk
    rw [update_self]
    exact Attached.tenant (attached_put.mpr (.inl ⟨rfl, rfl⟩)) hlease
  · rw [update_of_ne hk]
    simp only [tenant, put, update_of_ne hk]

end Put

theorem attached_revoke : (st.revoke x).Attached k y ↔ st.Attached k y ∧ y ≠ x := by
  simp only [Attached, revoke, Option.filter_eq_some_iff, decide_eq_true_eq]
  constructor
  · rintro ⟨v, hv, hne⟩
    exact ⟨⟨v, hv⟩, hne⟩
  · rintro ⟨⟨v, hv⟩, hne⟩
    exact ⟨v, hv, hne⟩

/-- The end of a lease without keys does not show. -/
theorem kv_revoke_of_not_attached (h : ¬ st.Attached k x) : (st.revoke x).kv k = st.kv k := by
  cases hk : st.kv k with
  | none => simp [revoke, hk]
  | some entry =>
    have hne : entry.2 ≠ x := by
      rintro rfl
      exact h ⟨entry.1, hk⟩
    simp [revoke, hk, hne]

theorem kv_revoke_of_attached (h : st.Attached k x) : (st.revoke x).kv k = none := by
  obtain ⟨v, hv⟩ := h
  simp [revoke, hv]

theorem attached_of_kv_revoke_ne (h : (st.revoke x).kv k ≠ st.kv k) : st.Attached k x := by
  by_contra hnot
  exact h (kv_revoke_of_not_attached hnot)

theorem tenant_revoke_none (h : ∀ k, ¬ st.Attached k x) : (st.revoke x).tenant = st.tenant := by
  funext k
  simp only [tenant, kv_revoke_of_not_attached (h k)]
  rfl

/-- The end of a lease with one key. -/
theorem tenant_revoke [DecidableEq K] (h : st.Attached k x)
    (hone : ∀ k', st.Attached k' x → k' = k) :
    (st.revoke x).tenant = update st.tenant k none := by
  funext k'
  by_cases hk : k' = k
  · subst hk
    rw [update_self]
    exact tenant_of_absent (kv_revoke_of_attached h)
  · rw [update_of_ne hk]
    simp only [tenant, kv_revoke_of_not_attached fun h' => hk (hone k' h')]
    rfl

end LeaseStore

end Foundation
