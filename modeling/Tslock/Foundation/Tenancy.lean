import Mathlib.Logic.Function.Basic
import Mathlib.Order.Lattice
import Tslock.Foundation.Runs

/-! Leases of any number of cells, each with the tenant that wrote it last. A cell may be kept for
longer than its tenant counts on it, and may lapse when its time is over. -/
namespace Foundation.Tenancy

open Function

/-- `outstanding` says which cell a handle counts on and until when, `cell` who has written a cell
last and until when nobody else may. -/
structure Register (H K τ : Type*) where
  now : τ
  outstanding : H → Option (K × τ)
  cell : K → Option (H × τ)

/-- What can happen to leased cells. -/
inductive Action (H K τ : Type*) where
  | advance (t : τ)
  | grant (h : H) (k : K)
  | renew (h h' : H) (k : K)
  | release (h : H) (k : K)
  | lapse (k : K)
  | drop (h : H)

namespace Register

variable {H K τ : Type*}

/-- A handle may write its cell where it is the tenant, and where the cell carries its deadline. -/
def Holds (r : Register H K τ) (h : H) (k : K) : Prop :=
  ∃ d w t, r.outstanding h = some (k, d) ∧ r.cell k = some (w, t) ∧ (w = h ∨ t = d)

def Free [LE τ] (r : Register H K τ) (k : K) : Prop := ∀ w t, r.cell k = some (w, t) → t ≤ r.now

/-- The new content of a cell lasts as long as the handle counts on it. -/
def Covers [LE τ] [LT τ] (r : Register H K τ) (h : H) (d : τ) (x : Option (H × τ)) : Prop :=
  r.now < d → ∃ t, x = some (h, t) ∧ d ≤ t

/-- The handle counts on the cell and its deadline is still in the future. -/
def Live [LT τ] (r : Register H K τ) (h : H) (k : K) : Prop :=
  ∃ d, r.outstanding h = some (k, d) ∧ r.now < d

end Register

/-- What the entries of a table contribute, entry by entry. -/
def board {ι L β : Type*} (f : L → Option β) (table : ι → Option L) (i : ι) : Option β :=
  (table i).bind f

variable {H K τ ι L β : Type*}

theorem board_none {f : L → Option β} {table : ι → Option L} {i : ι} (h : table i = none) :
    board f table i = none := by
  simp [board, h]

theorem board_some {f : L → Option β} {table : ι → Option L} {i : ι} {l : L}
    (h : table i = some l) : board f table i = f l := by
  simp [board, h]

theorem board_update [DecidableEq ι] (f : L → Option β) (table : ι → Option L) (i : ι)
    (x : Option L) : board f (update table i x) = update (board f table) i (x.bind f) := by
  funext j
  by_cases hj : j = i
  · subst hj
    simp [board]
  · simp [board, hj]

/-- A change of an entry that does not show. -/
theorem board_update_same [DecidableEq ι] {f : L → Option β} {table : ι → Option L} {i : ι}
    {x : Option L} (h : board f table i = x.bind f) :
    board f (update table i x) = board f table := by
  rw [board_update, ← h, update_eq_self]

theorem of_erase [DecidableEq H] {o : H → Option β} {h g : H} {y : β}
    (hg : update o h none g = some y) : g ≠ h ∧ o g = some y := by
  by_cases hgh : g = h
  · simp [hgh] at hg
  · exact ⟨hgh, by simpa [hgh] using hg⟩

theorem of_insert [DecidableEq H] {o : H → Option β} {h g : H} {x y : β}
    (hg : update o h (some x) g = some y) : (g = h ∧ x = y) ∨ (g ≠ h ∧ o g = some y) := by
  by_cases hgh : g = h
  · exact .inl ⟨hgh, by simpa [hgh] using hg⟩
  · exact .inr ⟨hgh, by simpa [hgh] using hg⟩

/-- A handle of another cell does not show among those of this one. -/
theorem of_insert_other [DecidableEq H] {o : H → Option (K × τ)} {h g : H} {k k' : K} {d e : τ}
    (hk : k' ≠ k) (hg : update o h (some (k', d)) g = some (k, e)) : o g = some (k, e) := by
  rcases of_insert hg with ⟨_, heq⟩ | ⟨_, hold⟩
  · exact absurd (congrArg Prod.fst heq) hk
  · exact hold

section Invariant

variable [LinearOrder τ] {r : Register H K τ} {h h' w : H} {k : K} {t : τ}

/-- Each live handle is the tenant of its cell for as long as it counts on it. -/
def Exclusive (r : Register H K τ) : Prop :=
  ∀ h k d, r.outstanding h = some (k, d) → r.now < d → ∃ t, r.cell k = some (h, t) ∧ d ≤ t

theorem Exclusive.unique (he : Exclusive r) (hl : r.Live h k) (hl' : r.Live h' k) : h = h' := by
  obtain ⟨d, ho, hn⟩ := hl
  obtain ⟨d', ho', hn'⟩ := hl'
  obtain ⟨t, hc, -⟩ := he h k d ho hn
  obtain ⟨t', hc', -⟩ := he h' k d' ho' hn'
  cases hc.symm.trans hc'
  rfl

theorem Exclusive.not_live (he : Exclusive r) (hf : r.Free k) : ¬ r.Live h k := by
  rintro ⟨d, ho, hn⟩
  obtain ⟨t, hc, hd⟩ := he h k d ho hn
  exact absurd (lt_of_lt_of_le hn hd) (not_lt_of_ge (hf h t hc))

/-- A write to a cell on which no handle but its new tenant is live. -/
theorem Exclusive.write [DecidableEq K] {o : H → Option (K × τ)} {x : Option (H × τ)}
    (he : Exclusive r)
    (hold : ∀ g k' d, o g = some (k', d) → r.now < d →
      (r.outstanding g = some (k', d) ∧ k' ≠ k) ∨ (k' = k ∧ ∃ t, x = some (g, t) ∧ d ≤ t)) :
    Exclusive { r with outstanding := o, cell := update r.cell k x } := by
  intro g k' d ho hn
  rcases hold g k' d ho hn with ⟨hsame, hk⟩ | ⟨rfl, t, hx, hd⟩
  · obtain ⟨t, hc, hd⟩ := he g k' d hsame hn
    exact ⟨t, by simpa [hk] using hc, hd⟩
  · exact ⟨t, by simpa using hx, hd⟩

/-- A handle that is given up may leave anything in a cell nobody counts on. -/
theorem Exclusive.settle [DecidableEq H] [DecidableEq K] {x : Option (H × τ)} (he : Exclusive r)
    (hf : r.Free k) :
    Exclusive { r with
      outstanding := update r.outstanding h none, cell := update r.cell k x } := by
  apply he.write
  intro g k' d hg hn
  obtain ⟨-, hold⟩ := of_erase hg
  refine .inl ⟨hold, ?_⟩
  rintro rfl
  exact he.not_live hf ⟨d, hold, hn⟩

/-- A handle that may write its cell is its tenant, or the time of the cell is over. -/
theorem Exclusive.tenant (he : Exclusive r) (hh : r.Holds h k) (hc : r.cell k = some (w, t)) :
    w = h ∨ t ≤ r.now := by
  obtain ⟨d, w', t', ho, hc', howns⟩ := hh
  cases hc.symm.trans hc'
  rcases howns with hw | rfl
  · exact .inl hw
  · rcases le_or_gt t r.now with hover | hlive
    · exact .inr hover
    · obtain ⟨u, hu, -⟩ := he h k t ho hlive
      cases hc.symm.trans hu
      exact .inl rfl

/-- Where a handle may write its cell no other handle is live on it. -/
theorem Exclusive.only (he : Exclusive r) (hh : r.Holds h k) (hl : r.Live h' k) : h' = h := by
  obtain ⟨d, ho, hn⟩ := hl
  obtain ⟨t, hc, hd⟩ := he h' k d ho hn
  rcases he.tenant hh hc with heq | hover
  · exact heq
  · exact absurd (lt_of_lt_of_le hn hd) (not_lt_of_ge hover)

/-- A cell left behind by a tenant that does not count on it any more. -/
structure Left (r : Register H K τ) (w : H) (k : K) (t : τ) : Prop where
  cell : r.cell k = some (w, t)
  released : ∀ d, r.outstanding w ≠ some (k, d)

/-- Nobody may write a cell left behind before its time. -/
theorem Left.not_holds (hl : Left r w k t) (he : Exclusive r) (hn : r.now < t) :
    ¬ r.Holds h k := by
  intro hh
  obtain ⟨d, w', t', ho, hc, -⟩ := id hh
  rcases he.tenant hh hl.cell with rfl | hover
  · exact hl.released d ho
  · exact absurd hn (not_lt_of_ge hover)

theorem Left.not_free (hl : Left r w k t) (hn : r.now < t) : ¬ r.Free k :=
  fun hf => absurd hn (not_lt_of_ge (hf w t hl.cell))

theorem Left.not_live (hl : Left r w k t) (he : Exclusive r) : ¬ r.Live h k := by
  rintro ⟨d, ho, hn⟩
  obtain ⟨t', hc, -⟩ := he h k d ho hn
  cases hl.cell.symm.trans hc
  exact hl.released d ho

end Invariant

variable [DecidableEq H] [DecidableEq K] [LinearOrder τ]

/-- `drop` gives a handle up without a write. -/
inductive Step : Register H K τ → Action H K τ → Register H K τ → Prop where
  | advance {r : Register H K τ} {t : τ} : r.now ≤ t → Step r (.advance t) { r with now := t }
  | grant {r : Register H K τ} {h : H} {k : K} {d : τ} {x : Option (H × τ)} :
      r.outstanding h = none → r.Free k → r.Covers h d x →
      Step r (.grant h k) { r with
        outstanding := update r.outstanding h (some (k, d)), cell := update r.cell k x }
  | renew {r : Register H K τ} {h h' : H} {k : K} {d : τ} {x : Option (H × τ)} :
      r.Holds h k → update r.outstanding h none h' = none → r.Covers h' d x →
      Step r (.renew h h' k) { r with
        outstanding := update (update r.outstanding h none) h' (some (k, d)),
        cell := update r.cell k x }
  | release {r : Register H K τ} {h : H} {k : K} {x : Option (H × τ)} :
      r.Holds h k →
      Step r (.release h k) { r with
        outstanding := update r.outstanding h none, cell := update r.cell k x }
  | lapse {r : Register H K τ} {k : K} :
      r.Free k → Step r (.lapse k) { r with cell := update r.cell k none }
  | drop {r : Register H K τ} {h : H} :
      Step r (.drop h) { r with outstanding := update r.outstanding h none }

/-- No handle is outstanding; cells may carry what is left of earlier leases. -/
def system : TransitionSystem (Register H K τ) (Action H K τ) where
  Initial r := ∀ h, r.outstanding h = none
  Step := Step

variable {r r' : Register H K τ} {a : Action H K τ} {as : List (Action H K τ)} {w : H} {k : K}
  {t : τ}

theorem exclusive_step (hs : Step r a r') (he : Exclusive r) : Exclusive r' := by
  cases hs with
  | advance ht => exact fun g k d ho hn => he g k d ho (lt_of_le_of_lt ht hn)
  | grant ho hf hx =>
    apply he.write
    intro g k' d hg hn
    rcases of_insert hg with ⟨rfl, heq⟩ | ⟨_, hold⟩
    · cases heq
      exact .inr ⟨rfl, hx hn⟩
    · refine .inl ⟨hold, ?_⟩
      rintro rfl
      exact he.not_live hf ⟨d, hold, hn⟩
  | renew hh _ hx =>
    apply he.write
    intro g k' d hg hn
    rcases of_insert hg with ⟨rfl, heq⟩ | ⟨_, hrest⟩
    · cases heq
      exact .inr ⟨rfl, hx hn⟩
    · obtain ⟨hne, hold⟩ := of_erase hrest
      refine .inl ⟨hold, ?_⟩
      rintro rfl
      exact hne (he.only hh ⟨d, hold, hn⟩)
  | release hh =>
    apply he.write
    intro g k' d hg hn
    obtain ⟨hne, hold⟩ := of_erase hg
    refine .inl ⟨hold, ?_⟩
    rintro rfl
    exact hne (he.only hh ⟨d, hold, hn⟩)
  | lapse hf =>
    apply he.write
    intro g k' d hg hn
    refine .inl ⟨hg, ?_⟩
    rintro rfl
    exact he.not_live hf ⟨d, hg, hn⟩
  | drop =>
    intro g k d hg hn
    exact he g k d (of_erase hg).2 hn

/-- Each live handle is the tenant of its cell, in every run. -/
theorem exclusive_reachable
    (hr : (system : TransitionSystem (Register H K τ) (Action H K τ)).Reachable r) :
    Exclusive r := by
  refine hr.invariant ?_ (fun _ _ _ _ hs he => exclusive_step hs he)
  intro r ho h k d hd
  rw [ho h] at hd
  cases hd

theorem now_step (hs : Step r a r') : r.now ≤ r'.now := by
  cases hs with
  | advance ht => exact ht
  | grant | renew | release | lapse | drop => exact le_refl _

/-- No step before its time touches a cell left behind or makes a handle that counts on it. -/
theorem Left.step (hl : Left r w k t) (he : Exclusive r) (hs : Step r a r') (hn : r'.now < t) :
    Left r' w k t ∧ ∀ g d, r'.outstanding g = some (k, d) → r.outstanding g = some (k, d) := by
  have hbefore : r.now < t := lt_of_le_of_lt (now_step hs) hn
  have hheld : ∀ {h k'}, r.Holds h k' → k' ≠ k := by
    rintro h k' hh rfl
    exact hl.not_holds he hbefore hh
  have hfree : ∀ {k'}, r.Free k' → k' ≠ k := by
    rintro k' hf rfl
    exact hl.not_free hbefore hf
  have hback : ∀ g d, r'.outstanding g = some (k, d) → r.outstanding g = some (k, d) := by
    intro g d hg
    cases hs with
    | advance | lapse => exact hg
    | grant _ hf => exact of_insert_other (hfree hf) hg
    | renew hh => exact (of_erase (of_insert_other (hheld hh) hg)).2
    | release | drop => exact (of_erase hg).2
  refine ⟨⟨?_, fun d hd => hl.released d (hback w d hd)⟩, hback⟩
  cases hs with
  | advance | drop => exact hl.cell
  | grant _ hf | lapse hf => exact (update_of_ne (hfree hf).symm _ _).trans hl.cell
  | renew hh | release hh => exact (update_of_ne (hheld hh).symm _ _).trans hl.cell

theorem now_run (hr : system.Run r as r') : r.now ≤ r'.now := by
  induction hr with
  | refl => exact le_refl _
  | step hs _ ih => exact le_trans (now_step hs) ih

/-- A handle may give up what it has and take a free cell. -/
theorem retake_run {d : τ} {x : Option (H × τ)} (hf : r.Free k) (hx : r.Covers h d x) :
    system.Run r [.drop h, .grant h k] { r with
      outstanding := update r.outstanding h (some (k, d)), cell := update r.cell k x } := by
  have hgrant := Step.grant (r := { r with outstanding := update r.outstanding h none }) (h := h)
    (update_self h none r.outstanding) hf hx
  simp only [update_idem] at hgrant
  exact .step .drop (.single hgrant)

/-- A renewal in place: the handle counts on its cell until another time. -/
theorem Step.renew_self {d : τ} {x : Option (H × τ)} (hh : r.Holds h k) (hx : r.Covers h d x) :
    Step r (.renew h h k) { r with
      outstanding := update r.outstanding h (some (k, d)), cell := update r.cell k x } := by
  have hrenew := Step.renew hh (update_self h none r.outstanding) hx
  simpa only [update_idem] using hrenew

/-- A cell left behind stays as it is until its time is over, and no handle comes to count on it. -/
theorem Left.run (hl : Left r w k t) (he : Exclusive r) (hr : system.Run r as r')
    (hn : r'.now < t) :
    Left r' w k t ∧ ∀ g d, r'.outstanding g = some (k, d) → r.outstanding g = some (k, d) := by
  induction hr with
  | refl => exact ⟨hl, fun _ _ hg => hg⟩
  | step hs hrest ih =>
    obtain ⟨hmid, hback⟩ := hl.step he hs (lt_of_le_of_lt (now_run hrest) hn)
    obtain ⟨hlast, hrun⟩ := ih hmid (exclusive_step hs he) hn
    exact ⟨hlast, fun g d hg => hback g d (hrun g d hg)⟩

end Foundation.Tenancy
