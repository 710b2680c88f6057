import Mathlib.Logic.Function.Basic
import Mathlib.Order.Lattice
import Tslock.Foundation.Runs

/-! A register that leases one resource: at most one outstanding handle is unexpired. -/
namespace Foundation.Lease

open Function

/-- The clock, the deadlines of the outstanding handles, and the end of the stored lease
(`none` while nothing is stored). -/
structure Register (H τ : Type*) where
  now : τ
  outstanding : H → Option τ
  freeAt : Option τ

/-- What can happen to a leased resource. -/
inductive Action (H τ : Type*) where
  | advance (t : τ)
  | grant (h : H) (d : τ)
  | renew (h h' : H) (d : τ)
  | release (h : H) (t : τ)
  | drop (h : H)

variable {H τ : Type*} [DecidableEq H] [LinearOrder τ]

/-- A renewal or a release writes the register only where it still carries the deadline of the
handle; `drop` gives a handle up without a write. -/
inductive Step : Register H τ → Action H τ → Register H τ → Prop where
  | advance {r : Register H τ} {t : τ} : r.now ≤ t → Step r (.advance t) { r with now := t }
  | grant {r : Register H τ} {h : H} {d : τ} :
      r.outstanding h = none → (∀ t, r.freeAt = some t → t ≤ r.now) →
      Step r (.grant h d)
        { r with outstanding := update r.outstanding h (some d), freeAt := some d }
  | renew {r : Register H τ} {h h' : H} {d₀ d : τ} :
      r.outstanding h = some d₀ → r.freeAt = some d₀ → r.outstanding h' = none →
      Step r (.renew h h' d)
        { r with
          outstanding := update (update r.outstanding h none) h' (some d), freeAt := some d }
  | release {r : Register H τ} {h : H} {d t : τ} :
      r.outstanding h = some d → r.freeAt = some d →
      Step r (.release h t)
        { r with outstanding := update r.outstanding h none, freeAt := some t }
  | drop {r : Register H τ} {h : H} :
      Step r (.drop h) { r with outstanding := update r.outstanding h none }

/-- No handle is outstanding; the register may carry the end of an earlier lease. -/
def system : TransitionSystem (Register H τ) (Action H τ) where
  Initial r := ∀ h, r.outstanding h = none
  Step := Step

/-- An outstanding handle whose deadline is still in the future. -/
def Live (r : Register H τ) (h : H) : Prop := ∃ d, r.outstanding h = some d ∧ r.now < d

/-- The register carries the deadline of each live handle, and there is at most one. -/
structure Exclusive (r : Register H τ) : Prop where
  carried : ∀ h d, r.outstanding h = some d → r.now < d → r.freeAt = some d
  unique : ∀ h h', Live r h → Live r h' → h = h'

variable {r r' : Register H τ} {a : Action H τ} {h h' : H} {d d' : τ}

/-- Removing a handle that carries the register leaves no live handle. -/
theorem Exclusive.none_live_erase (he : Exclusive r) (ho : r.outstanding h = some d)
    (hf : r.freeAt = some d) (h' : H) (hl : Live { r with
      outstanding := update r.outstanding h none } h') : False := by
  obtain ⟨e, hoe, hne⟩ := hl
  by_cases hh : h' = h
  · subst hh
    simp at hoe
  · have hoe' : r.outstanding h' = some e := by simpa [hh] using hoe
    have hfe := he.carried h' e hoe' hne
    have hde : d = e := Option.some.inj (hf.symm.trans hfe)
    subst hde
    exact hh (he.unique h' h ⟨d, hoe', hne⟩ ⟨d, ho, hne⟩)

/-- A write by a fresh handle over a register without live handles. -/
theorem exclusive_of_single {o : H → Option τ} {now : τ}
    (hno : ∀ h', ¬ Live (⟨now, o, r.freeAt⟩ : Register H τ) h') :
    Exclusive (⟨now, update o h (some d), some d⟩ : Register H τ) := by
  have hlive : ∀ k e, (update o h (some d)) k = some e → now < e → k = h ∧ e = d := by
    intro k e hk hn
    by_cases hkh : k = h
    · subst hkh
      have : d = e := by simpa using hk
      exact ⟨rfl, this.symm⟩
    · exact (hno k ⟨e, by simpa [hkh] using hk, hn⟩).elim
  refine ⟨?_, ?_⟩
  · intro k e hk hn
    rw [(hlive k e hk hn).2]
  · rintro k k' ⟨e, hk, hn⟩ ⟨e', hk', hn'⟩
    rw [(hlive k e hk hn).1, (hlive k' e' hk' hn').1]

theorem Exclusive.erase (he : Exclusive r) :
    Exclusive { r with outstanding := update r.outstanding h none } := by
  have hold : ∀ k e, (update r.outstanding h none) k = some e → r.outstanding k = some e := by
    intro k e hk
    by_cases hkh : k = h
    · subst hkh
      simp at hk
    · simpa [hkh] using hk
  refine ⟨fun k e hk hn => he.carried k e (hold k e hk) hn, ?_⟩
  rintro k k' ⟨e, hk, hn⟩ ⟨e', hk', hn'⟩
  exact he.unique k k' ⟨e, hold k e hk, hn⟩ ⟨e', hold k' e' hk', hn'⟩

theorem exclusive_step (hs : Step r a r') (he : Exclusive r) : Exclusive r' := by
  cases hs with
  | advance ht =>
    refine ⟨fun k e hk hn => he.carried k e hk (lt_of_le_of_lt ht hn), ?_⟩
    rintro k k' ⟨e, hk, hn⟩ ⟨e', hk', hn'⟩
    exact he.unique k k' ⟨e, hk, lt_of_le_of_lt ht hn⟩ ⟨e', hk', lt_of_le_of_lt ht hn'⟩
  | grant _ hfree =>
    apply exclusive_of_single (r := r)
    rintro k ⟨e, hk, hn⟩
    exact absurd (hfree e (he.carried k e hk hn)) (not_le_of_gt hn)
  | renew ho hf _ => exact exclusive_of_single (r := r) (he.none_live_erase ho hf)
  | release ho hf =>
    have hno := he.none_live_erase ho hf
    refine ⟨fun k e hk hn => (hno k ⟨e, hk, hn⟩).elim, ?_⟩
    intro k k' hk
    exact (hno k hk).elim
  | drop => exact he.erase

/-- Mutual exclusion of the leased resource, over every run. -/
theorem exclusive_reachable
    (hr : (system : TransitionSystem (Register H τ) (Action H τ)).Reachable r) : Exclusive r := by
  refine hr.invariant ?_ (fun _ _ _ _ hs he => exclusive_step hs he)
  intro r ho
  refine ⟨fun h d hd => by simp [ho h] at hd, ?_⟩
  rintro h h' ⟨d, hd, _⟩
  simp [ho h] at hd

end Foundation.Lease
