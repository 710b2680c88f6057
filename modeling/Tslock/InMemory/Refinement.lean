import Mathlib.Algebra.Order.Monoid.Unbundled.Defs
import Mathlib.Algebra.Order.Ring.Int
import Tslock.InMemory.InMemoryLockProvider

/-! The in-memory provider answers as the lease store: a handle that does not own its name has a
deadline that is over, so an equal deadline in the map grants nothing. -/
namespace Tslock.InMemory

open Function

variable {τ : Type*} [LinearOrder τ]

/-- Live entries are the live end times; owners hold the end times; other handles are over. -/
structure Related (p : InMemoryLockProvider τ) (a : LeaseSpec τ) [Add τ] [Zero τ] : Prop where
  session : a.session = p.session
  live : ∀ n t, p.session.clock < t → (p.locks n = some t ↔ a.endTime n = some t)
  owned : ∀ n i, a.owner n = some i → ∃ h, p.session.handles i = some h ∧ h.valid = true ∧
    h.config.name = n ∧ a.endTime n = some h.config.lockAtMostUntil
  stale : ∀ i h, p.session.handles i = some h → h.valid = true →
    a.owner h.config.name ≠ some i → h.config.lockAtMostUntil ≤ p.session.clock
  durations : ∀ i h, p.session.handles i = some h → h.config.DurationsValid
  fresh : ∀ i, p.session.next ≤ i → p.session.handles i = none

section Session
variable {s : Session τ} {i k : ℕ} {h : Handle τ} {config : LockConfiguration τ}

omit [LinearOrder τ] in
theorem handles_newHandle (hk : (s.newHandle config).handles k = some h) :
    k = s.next ∧ h = ⟨config, true⟩ ∨ k ≠ s.next ∧ s.handles k = some h := by
  by_cases hne : k = s.next
  · subst hne
    have heq : some ⟨config, true⟩ = some h := by simpa [Session.newHandle] using hk
    exact .inl ⟨rfl, (Option.some.inj heq).symm⟩
  · exact .inr ⟨hne, by simpa [Session.newHandle, hne] using hk⟩

omit [LinearOrder τ] in
theorem handles_invalidate (hk : (s.invalidate i).handles k = some h) :
    k ≠ i ∧ s.handles k = some h ∨
      k = i ∧ h.valid = false ∧ ∃ old, s.handles k = some old ∧ h.config = old.config := by
  by_cases hki : k = i
  · subst hki
    have hmap : (s.handles k).map (fun h => { h with valid := false }) = some h := by
      simpa [Session.invalidate] using hk
    obtain ⟨old, hold, rfl⟩ := Option.map_eq_some_iff.mp hmap
    exact .inr ⟨rfl, rfl, old, hold, rfl⟩
  · exact .inl ⟨hki, by simpa [Session.invalidate, hki] using hk⟩

omit [LinearOrder τ] in
theorem handles_invalidate_of_ne (hki : k ≠ i) :
    (s.invalidate i).handles k = s.handles k := update_of_ne hki ..

omit [LinearOrder τ] in
theorem checkValidity_ok (h : s.checkValidity i = .ok config) :
    s.handles i = some ⟨config, true⟩ := by
  unfold Session.checkValidity at h
  cases hi : s.handles i with
  | none => simp [hi] at h
  | some handle =>
    obtain ⟨config', valid⟩ := handle
    cases valid with
    | false => simp [hi] at h
    | true =>
      have : config' = config := by simpa [hi] using h
      rw [this]

end Session

/-- Handle `i` owns the name no more. -/
def disown (owner : String → Option ℕ) (name : String) (i : ℕ) : String → Option ℕ :=
  fun n => if n = name ∧ owner n = some i then none else owner n

theorem disown_eq_some {owner : String → Option ℕ} {name n : String} {i k : ℕ} :
    disown owner name i n = some k ↔ owner n = some k ∧ ¬ (n = name ∧ k = i) := by
  unfold disown
  constructor
  · intro h
    split at h
    · simp at h
    · rename_i hcond
      refine ⟨h, ?_⟩
      rintro ⟨hn, rfl⟩
      exact hcond ⟨hn, h⟩
  · rintro ⟨h, hne⟩
    have hcond : ¬ (n = name ∧ owner n = some i) := by
      rintro ⟨hn, hi⟩
      exact hne ⟨hn, Option.some.inj (h.symm.trans hi)⟩
    rwa [if_neg hcond]

theorem disown_of_ne {owner : String → Option ℕ} {name : String} {i : ℕ}
    (h : owner name ≠ some i) : disown owner name i = owner := by
  funext n
  apply if_neg
  rintro ⟨rfl, hi⟩
  exact h hi

theorem disown_self {owner : String → Option ℕ} {name : String} {i : ℕ}
    (h : owner name = some i) : disown owner name i = update owner name none := by
  funext n
  by_cases hn : n = name
  · subst hn
    simp [disown, h]
  · simp [disown, hn]

omit [LinearOrder τ] in
/-- What the name is assigned to next hides that it was given up. -/
theorem assign_disown {a : LeaseSpec τ} {name : String} {i : ℕ} (h : a.owner name = some i)
    (s : Session τ) (owner : Option ℕ) (t : τ) :
    ({ a with session := s, owner := disown a.owner name i } : LeaseSpec τ).assign name owner t =
      { a.assign name owner t with session := s } := by
  simp [LeaseSpec.assign, disown_self h]

namespace Related

variable [Add τ] [Zero τ] {p : InMemoryLockProvider τ} {a : LeaseSpec τ} {i : ℕ}
  {config : LockConfiguration τ} {n : String} {t : τ}

theorem leased_iff (h : Related p a) :
    a.Leased n ↔ ∃ t, p.locks n = some t ∧ p.session.clock < t := by
  unfold LeaseSpec.Leased
  rw [h.session]
  constructor
  · rintro ⟨t, ht, hlt⟩
    exact ⟨t, (h.live n t hlt).mpr ht, hlt⟩
  · rintro ⟨t, ht, hlt⟩
    exact ⟨t, (h.live n t hlt).mp ht, hlt⟩

theorem create (clock : τ) : Related (InMemoryLockProvider.create clock) (LeaseSpec.create clock) :=
  ⟨rfl, fun _ _ _ => Iff.rfl, by simp [LeaseSpec.create],
    by simp [InMemoryLockProvider.create, Session.start],
    by simp [InMemoryLockProvider.create, Session.start],
    by simp [InMemoryLockProvider.create, Session.start]⟩

theorem advance (h : Related p a) (time : τ) :
    Related { p with session := p.session.advance time }
      { a with session := a.session.advance time } where
  session := by rw [h.session]
  live n t ht := h.live n t (lt_of_le_of_lt (le_max_left _ _) ht)
  owned := h.owned
  stale i hd hi hv ho := (h.stale i hd hi hv ho).trans (le_max_left _ _)
  durations := h.durations
  fresh := h.fresh

/-- A write over an entry that has ended, of a time that is over. -/
theorem entry (h : Related p a) (hfree : ¬ a.Leased n) {e : Option τ}
    (he : ∀ t, e = some t → t ≤ p.session.clock) :
    Related { p with locks := update p.locks n e } a where
  session := h.session
  live m t ht := by
    by_cases hm : m = n
    · subst hm
      constructor
      · intro hu
        have : e = some t := by simpa using hu
        exact absurd ht (he t this).not_gt
      · intro hend
        exact absurd ⟨t, hend, h.session ▸ ht⟩ hfree
    · simpa [hm] using h.live m t ht
  owned := h.owned
  stale := h.stale
  durations := h.durations
  fresh := h.fresh

/-- The owner of another name is as it was. -/
theorem owned_assign (h : Related p a) {m : String} {k : ℕ}
    (hk : (a.assign n none t).owner m = some k) :
    ∃ hd, p.session.handles k = some hd ∧ hd.valid = true ∧ hd.config.name = m ∧
      (a.assign n none t).endTime m = some hd.config.lockAtMostUntil := by
  by_cases hm : m = n
  · subst hm
    simp [LeaseSpec.assign] at hk
  · simpa [LeaseSpec.assign, hm] using h.owned m k (by simpa [LeaseSpec.assign, hm] using hk)

/-- No handle owned the name, so that none has lost it. -/
theorem stale_assign (h : Related p a) (hnone : a.owner n = none) {k : ℕ} {hd : Handle τ}
    (hk : p.session.handles k = some hd) (hv : hd.valid = true)
    (ho : (a.assign n none t).owner hd.config.name ≠ some k) :
    hd.config.lockAtMostUntil ≤ p.session.clock := by
  refine h.stale k hd hk hv fun hown => ho ?_
  have hm : hd.config.name ≠ n := by
    rintro hm
    simp [hm, hnone] at hown
  simpa [LeaseSpec.assign, hm] using hown

/-- The end of a lease nobody owns any more, moved to the same time in both stores. -/
theorem assign (h : Related p a) (hnone : a.owner n = none) (t : τ) :
    Related (p.set n t) (a.assign n none t) where
  session := h.session
  live m u hu := by
    by_cases hm : m = n
    · subst hm
      simp [InMemoryLockProvider.set, LeaseSpec.assign]
    · simpa [InMemoryLockProvider.set, LeaseSpec.assign, hm] using h.live m u hu
  owned _ _ hi := h.owned_assign hi
  stale _ _ hi hv ho := h.stale_assign hnone hi hv ho
  durations := h.durations
  fresh := h.fresh

/-- The end of a lease that is over and owned by nobody is moved among the past times. -/
theorem endTime (h : Related p a) (hnone : a.owner n = none) (hfree : ¬ a.Leased n)
    (ht : t ≤ p.session.clock) : Related p (a.assign n none t) where
  session := h.session
  live m u hu := by
    by_cases hm : m = n
    · subst hm
      constructor
      · intro hlocked
        exact absurd (h.leased_iff.mpr ⟨u, hlocked, hu⟩) hfree
      · intro hend
        have : t = u := by simpa [LeaseSpec.assign] using hend
        exact absurd hu (this ▸ ht).not_gt
    · simpa [LeaseSpec.assign, hm] using h.live m u hu
  owned _ _ hi := h.owned_assign hi
  stale _ _ hi hv ho := h.stale_assign hnone hi hv ho
  durations := h.durations
  fresh := h.fresh

/-- A used handle gives up the name it may own. -/
theorem retire (h : Related p a) (hi : p.session.handles i = some ⟨config, true⟩) :
    Related { p with session := p.session.invalidate i }
      { a with
        session := a.session.invalidate i
        owner := disown a.owner config.name i } where
  session := by rw [h.session]
  live := h.live
  owned m k hk := by
    obtain ⟨hown, hne⟩ := disown_eq_some.mp hk
    obtain ⟨hd, hk', hv, hname, hend⟩ := h.owned m k hown
    have hki : k ≠ i := by
      rintro rfl
      obtain rfl := Option.some.inj (hi.symm.trans hk')
      exact hne ⟨hname.symm, rfl⟩
    exact ⟨hd, (handles_invalidate_of_ne hki).trans hk', hv, hname, hend⟩
  stale k hd hk hv ho := by
    rcases handles_invalidate hk with ⟨hki, hk⟩ | ⟨-, hfalse, -⟩
    · refine h.stale k hd hk hv fun hown => ho (disown_eq_some.mpr ⟨hown, ?_⟩)
      rintro ⟨-, rfl⟩
      exact hki rfl
    · simp [hv] at hfalse
  durations k hd hk := by
    rcases handles_invalidate hk with ⟨-, hk⟩ | ⟨-, -, old, hold, hconfig⟩
    · exact h.durations k hd hk
    · exact hconfig ▸ h.durations k old hold
  fresh k hk := by
    have hki : k ≠ i := by
      rintro rfl
      simp [h.fresh k hk] at hi
    exact (handles_invalidate_of_ne hki).trans (h.fresh k hk)

/-- A name whose valid handles are all over goes to the next handle. -/
theorem grant (h : Related p a) (config : LockConfiguration τ) (hv : config.DurationsValid)
    (hover : ∀ k hd, p.session.handles k = some hd → hd.valid = true →
      hd.config.name = config.name → hd.config.lockAtMostUntil ≤ p.session.clock) :
    Related { p.set config.name config.lockAtMostUntil with session := p.session.newHandle config }
      { a.assign config.name (some a.session.next) config.lockAtMostUntil with
        session := a.session.newHandle config } where
  session := by rw [h.session]
  live m u hu := by
    by_cases hm : m = config.name
    · subst hm
      simp [InMemoryLockProvider.set, LeaseSpec.assign]
    · simpa [InMemoryLockProvider.set, LeaseSpec.assign, hm] using h.live m u hu
  owned m k hk := by
    by_cases hm : m = config.name
    · subst hm
      have hnext : p.session.next = k := by simpa [LeaseSpec.assign, h.session] using hk
      subst hnext
      exact ⟨⟨config, true⟩, update_self .., rfl, rfl, by simp [LeaseSpec.assign]⟩
    · have hold : a.owner m = some k := by simpa [LeaseSpec.assign, hm] using hk
      obtain ⟨hd, hk', hvalid, hname, hend⟩ := h.owned m k hold
      have hne : k ≠ p.session.next := by
        rintro rfl
        simp [h.fresh _ le_rfl] at hk'
      refine ⟨hd, (update_of_ne hne ..).trans hk', hvalid, hname, ?_⟩
      simpa [LeaseSpec.assign, hm] using hend
  stale k hd hk hvalid ho := by
    rcases handles_newHandle hk with ⟨rfl, rfl⟩ | ⟨-, hk⟩
    · exact absurd (by simp [LeaseSpec.assign, h.session]) ho
    · by_cases hname : hd.config.name = config.name
      · exact hover k hd hk hvalid hname
      · refine h.stale k hd hk hvalid fun hown => ho ?_
        simpa [LeaseSpec.assign, hname] using hown
  durations k hd hk := by
    rcases handles_newHandle hk with ⟨-, rfl⟩ | ⟨-, hk⟩
    · exact hv
    · exact h.durations k hd hk
  fresh k hk := by
    have hk' : p.session.next + 1 ≤ k := hk
    exact (update_of_ne (by omega) ..).trans (h.fresh k (by omega))

theorem isLocked (h : Related p a) (n : String) :
    Related (p.isLocked n).1 a ∧ (p.isLocked n).2 = decide (a.Leased n) ∧
      (p.isLocked n).1.session = p.session := by
  unfold InMemoryLockProvider.isLocked
  cases hlocks : p.locks n with
  | none =>
    have hfree : ¬ a.Leased n := by simp [h.leased_iff, hlocks]
    exact ⟨h, by simp [hfree], rfl⟩
  | some t =>
    by_cases ht : t ≤ p.session.clock
    · have hfree : ¬ a.Leased n := by simp [h.leased_iff, hlocks, ht]
      simp only [ht, if_true]
      exact ⟨h.entry hfree (by simp), by simp [hfree], trivial⟩
    · have hleased : a.Leased n := h.leased_iff.mpr ⟨t, hlocks, not_le.mp ht⟩
      simp only [ht, if_false]
      exact ⟨h, by simp [hleased], trivial⟩

/-- While a name is not leased, all its valid handles are over. -/
theorem over_of_free (h : Related p a) (hfree : ¬ a.Leased n) {k : ℕ} {hd : Handle τ}
    (hk : p.session.handles k = some hd) (hv : hd.valid = true) (hname : hd.config.name = n) :
    hd.config.lockAtMostUntil ≤ p.session.clock := by
  by_cases hown : a.owner n = some k
  · obtain ⟨hd', hk', -, -, hend⟩ := h.owned n k hown
    obtain rfl := Option.some.inj (hk.symm.trans hk')
    by_contra hlt
    exact hfree ⟨_, hend, h.session ▸ not_le.mp hlt⟩
  · exact h.stale k hd hk hv (hname ▸ hown)

theorem lock (h : Related p a) (hv : config.DurationsValid) :
    (p.serve (.lock config)).2 = (a.serve (.lock config)).2 ∧
      Related (p.serve (.lock config)).1 (a.serve (.lock config)).1 := by
  obtain ⟨hrel, hreply, hsession⟩ := h.isLocked config.name
  rcases hq : p.isLocked config.name with ⟨q, b⟩
  rw [hq] at hrel hreply hsession
  by_cases hleased : a.Leased config.name
  · obtain rfl : b = true := by simpa [hleased] using hreply
    simpa [InMemoryLockProvider.serve, InMemoryLockProvider.lock, hq, LeaseSpec.serve, hleased]
      using hrel
  · obtain rfl : b = false := by simpa [hleased] using hreply
    have hgrant := hrel.grant config hv fun k hd hk hvalid hname =>
      hrel.over_of_free hleased hk hvalid hname
    simp only [InMemoryLockProvider.serve, InMemoryLockProvider.lock, hq, LeaseSpec.serve, hleased,
      if_false, hrel.session]
    exact ⟨trivial, hrel.session ▸ hgrant⟩

/-- The entry carries the handle's deadline, still to come, exactly for the owner of a lease. -/
theorem owns_iff (h : Related p a) (hi : p.session.handles i = some ⟨config, true⟩) :
    (p.locks config.name = some config.lockAtMostUntil ∧
        p.session.clock < config.lockAtMostUntil) ↔
      a.owner config.name = some i ∧ a.Leased config.name := by
  constructor
  · rintro ⟨hlocks, hlt⟩
    refine ⟨?_, h.leased_iff.mpr ⟨_, hlocks, hlt⟩⟩
    by_contra hown
    exact absurd hlt (h.stale i _ hi rfl hown).not_gt
  · rintro ⟨hown, t, hend, hlt⟩
    obtain ⟨hd, hi', -, -, hend'⟩ := h.owned _ i hown
    obtain rfl := Option.some.inj (hi.symm.trans hi')
    obtain rfl := Option.some.inj (hend.symm.trans hend')
    rw [h.session] at hlt
    exact ⟨(h.live _ _ hlt).mpr hend, hlt⟩

theorem extend (h : Related p a) {most least : τ} (hv : 0 ≤ least ∧ least ≤ most) :
    (p.serve (.extend i most least)).2 = (a.serve (.extend i most least)).2 ∧
      Related (p.serve (.extend i most least)).1 (a.serve (.extend i most least)).1 := by
  cases hcheck : p.session.checkValidity i with
  | error reply =>
    have hcheck' : a.session.checkValidity i = .error reply := by rw [h.session, hcheck]
    simp only [InMemoryLockProvider.serve, LeaseSpec.serve, hcheck, hcheck']
    exact ⟨trivial, h⟩
  | ok config =>
    have hcheck' : a.session.checkValidity i = .ok config := by rw [h.session, hcheck]
    have hi := checkValidity_ok hcheck
    have hiff := h.owns_iff hi
    by_cases howns : a.owner config.name = some i ∧ a.Leased config.name
    · have hret := h.retire hi
      have hnone : disown a.owner config.name i config.name = none := by
        simp [disown_self howns.1]
      have hgrant := hret.grant (config.successor most least p.session.clock) hv
        fun k hd hk hvalid hname =>
          hret.stale k hd hk hvalid (by
            rw [hname]
            simp [hnone])
      rw [LockConfiguration.successor_name, assign_disown howns.1] at hgrant
      simp only [InMemoryLockProvider.serve, InMemoryLockProvider.doExtend, LeaseSpec.serve, hcheck,
        hcheck', if_pos howns, if_pos (hiff.mpr howns)]
      rw [h.session] at hgrant ⊢
      exact ⟨rfl, hgrant⟩
    · simp only [InMemoryLockProvider.serve, InMemoryLockProvider.doExtend, LeaseSpec.serve, hcheck,
        hcheck', if_neg howns, if_neg (mt hiff.mp howns)]
      exact ⟨trivial, h⟩

theorem unlock [AddLeftMono τ] (h : Related p a) :
    (p.serve (.unlock i)).2 = (a.serve (.unlock i)).2 ∧
      Related (p.serve (.unlock i)).1 (a.serve (.unlock i)).1 := by
  cases hcheck : p.session.checkValidity i with
  | error reply =>
    have hcheck' : a.session.checkValidity i = .error reply := by rw [h.session, hcheck]
    simp only [InMemoryLockProvider.serve, LeaseSpec.serve, hcheck, hcheck']
    exact ⟨trivial, h⟩
  | ok config =>
    have hcheck' : a.session.checkValidity i = .ok config := by rw [h.session, hcheck]
    have hi := checkValidity_ok hcheck
    have hret := h.retire hi
    have hleast : config.lockAtLeastUntil ≤ config.lockAtMostUntil :=
      add_le_add_right (h.durations i _ hi).2 _
    simp only [InMemoryLockProvider.serve, LeaseSpec.serve, hcheck, hcheck', true_and]
    by_cases hown : a.owner config.name = some i
    · have hnone : disown a.owner config.name i config.name = none := by simp [disown_self hown]
      obtain ⟨hd, hi', -, -, hend⟩ := h.owned _ i hown
      obtain rfl := Option.some.inj (hi.symm.trans hi')
      rw [if_pos hown]
      by_cases hlocks : p.locks config.name = some config.lockAtMostUntil
      · have hassign := hret.assign hnone config.lockAtLeastUntil
        rw [assign_disown hown] at hassign
        rw [InMemoryLockProvider.doUnlock, if_pos hlocks]
        exact hassign
      · -- the lease is over, and its entry gone
        have hover : config.lockAtMostUntil ≤ p.session.clock := by
          by_contra hlt
          exact hlocks ((h.live _ _ (not_le.mp hlt)).mpr hend)
        have hfree : ¬ a.Leased config.name := by
          rintro ⟨t, ht, hlt⟩
          obtain rfl := Option.some.inj (hend.symm.trans ht)
          exact absurd (h.session ▸ hlt) hover.not_gt
        have hmoved := hret.endTime hnone hfree (hleast.trans hover)
        rw [assign_disown hown] at hmoved
        simpa [InMemoryLockProvider.doUnlock, hlocks] using hmoved
    · have hover := h.stale i _ hi rfl hown
      rw [if_neg hown]
      rw [disown_of_ne hown] at hret
      by_cases hlocks : p.locks config.name = some config.lockAtMostUntil
      · have hfree : ¬ a.Leased config.name := by
          rw [h.leased_iff]
          rintro ⟨t, ht, hlt⟩
          obtain rfl := Option.some.inj (hlocks.symm.trans ht)
          exact absurd hlt hover.not_gt
        have hentry := hret.entry (e := some config.lockAtLeastUntil) hfree
          (by
            rintro t ⟨⟩
            exact hleast.trans hover)
        simpa [InMemoryLockProvider.doUnlock, InMemoryLockProvider.set, hlocks] using hentry
      · simpa [InMemoryLockProvider.doUnlock, hlocks] using hret

/-- Related stores give the same reply to a call and stay related. -/
theorem serve [AddLeftMono τ] (h : Related p a) {call : Call τ} (hv : call.DurationsValid) :
    (p.serve call).2 = (a.serve call).2 ∧ Related (p.serve call).1 (a.serve call).1 := by
  cases call with
  | advance time => exact ⟨rfl, h.advance time⟩
  | lock config => exact h.lock hv
  | unlock i => exact h.unlock
  | extend i most least => exact h.extend hv
  | isLocked n =>
    obtain ⟨hrel, hreply, -⟩ := h.isLocked n
    exact ⟨congrArg Reply.returned hreply, hrel⟩

theorem replies_eq [AddLeftMono τ] {calls : List (Call τ)} (h : Related p a)
    (hv : ∀ call ∈ calls, call.DurationsValid) :
    replies InMemoryLockProvider.serve p calls = replies LeaseSpec.serve a calls := by
  induction calls generalizing p a with
  | nil => rfl
  | cons call calls ih =>
    obtain ⟨hreply, hrel⟩ := h.serve (hv call (by simp))
    have hrest := ih hrel fun c hc => hv c (by simp [hc])
    rw [replies, replies, hreply, hrest]

end Related

section Frame
variable [Add τ] {p : InMemoryLockProvider τ} {call : Call τ} {n : String}

omit [Add τ] in
theorem isLocked_locks_of_ne {m : String} (h : m ≠ n) : (p.isLocked m).1.locks n = p.locks n := by
  unfold InMemoryLockProvider.isLocked
  cases p.locks m with
  | none => rfl
  | some t =>
    by_cases ht : t ≤ p.session.clock
    · simp [ht, Ne.symm h]
    · simp [ht]

/-- A call writes the entry of its own name only. -/
theorem serve_locks_of_ne (h : call.name? p.session ≠ some n) :
    (p.serve call).1.locks n = p.locks n := by
  cases call with
  | advance time => rfl
  | lock config =>
    have hne : config.name ≠ n := fun hname => h (congrArg some hname)
    have hframe := isLocked_locks_of_ne (p := p) hne
    rcases hq : p.isLocked config.name with ⟨q, _ | _⟩
    · rw [hq] at hframe
      simpa [InMemoryLockProvider.serve, InMemoryLockProvider.lock, hq, InMemoryLockProvider.set,
        hne.symm] using hframe
    · rw [hq] at hframe
      simpa [InMemoryLockProvider.serve, InMemoryLockProvider.lock, hq] using hframe
  | unlock i =>
    cases hcheck : p.session.checkValidity i with
    | error reply => simp [InMemoryLockProvider.serve, hcheck]
    | ok config =>
      have hi := checkValidity_ok hcheck
      have hne : config.name ≠ n := by simpa [Call.name?, hi] using h
      simp only [InMemoryLockProvider.serve, hcheck, InMemoryLockProvider.doUnlock]
      split <;> simp [InMemoryLockProvider.set, hne.symm]
  | extend i most least =>
    cases hcheck : p.session.checkValidity i with
    | error reply => simp [InMemoryLockProvider.serve, hcheck]
    | ok config =>
      have hi := checkValidity_ok hcheck
      have hne : config.name ≠ n := by simpa [Call.name?, hi] using h
      simp only [InMemoryLockProvider.serve, hcheck, InMemoryLockProvider.doExtend]
      split_ifs <;> simp [InMemoryLockProvider.set, hne.symm]
  | isLocked m => exact isLocked_locks_of_ne fun hname => h (congrArg some hname)

end Frame

/-- Over every sequence of calls the provider answers as the lease store, and each call leaves the
entries of other names as they are. -/
theorem refines_lease_spec [Add τ] [Zero τ] [AddLeftMono τ] (clock : τ) (calls : List (Call τ))
    (h : ∀ call ∈ calls, call.DurationsValid) :
    replies InMemoryLockProvider.serve (InMemoryLockProvider.create clock) calls =
        replies LeaseSpec.serve (LeaseSpec.create clock) calls ∧
      ∀ (p : InMemoryLockProvider τ) (call : Call τ) (n : String), call.name? p.session ≠ some n →
        (p.serve call).1.locks n = p.locks n :=
  ⟨(Related.create clock).replies_eq h, fun _ _ _ => serve_locks_of_ne⟩

/-- The first lease runs out and is taken over; its handle then neither extends nor releases. -/
def takenOver : List (Call ℤ) :=
  [.lock ⟨"job", 5000, 1000, 0⟩, .lock ⟨"job", 5000, 0, 0⟩, .advance 5000,
    .lock ⟨"job", 60000, 1000, 5000⟩, .extend 0 60000 0, .unlock 0, .isLocked "job", .unlock 1,
    .isLocked "job", .advance 6000, .isLocked "job"]

theorem takenOver_refines :
    replies InMemoryLockProvider.serve (InMemoryLockProvider.create 0) takenOver =
      replies LeaseSpec.serve (LeaseSpec.create 0) takenOver :=
  (refines_lease_spec 0 takenOver (by
    simp [takenOver, Call.DurationsValid, LockConfiguration.DurationsValid])).1

example : replies InMemoryLockProvider.serve (InMemoryLockProvider.create 0) takenOver =
    [.handle 0, .undefined, .done, .handle 1, .undefined, .done, .returned true, .done,
      .returned true, .done, .returned false] := by decide +kernel

end Tslock.InMemory
