import Mathlib.Tactic.Common
import Tslock.Foundation.Lease
import Tslock.Sql.Provider

/-! The table and the handles of one name are a lease register, whatever the interleaving. -/
namespace Tslock.Sql

open Function Foundation

variable {lockedByValue : ℕ → String} {s t : System} {a : Party} {i j : ℕ} {name : String}

/-- What a handle contributes to the lease of a name. -/
def StorageLock.leaseDeadline (name : String) (l : StorageLock) : Option ℤ :=
  if l.config.name = name ∧ l.Outstanding then some l.config.lockAtMostUntil else none

/-- The lease of one name: the row, and the handles neither unlocked nor extended. -/
def System.lease (s : System) (name : String) : Lease.Register ℕ ℤ where
  now := s.clock
  outstanding i := (s.locks i).bind (StorageLock.leaseDeadline name)
  freeAt := (s.table name).map Row.lockUntil

theorem lease_setLock (l : StorageLock) : (s.setLock i l).lease name =
    { s.lease name with
      outstanding := update (s.lease name).outstanding i (l.leaseDeadline name) } := by
  simp only [System.lease, System.setLock, Lease.Register.mk.injEq, true_and, and_true]
  funext k
  by_cases hk : k = i
  · subst hk
    simp
  · simp [hk]

/-- A handle that stays outstanding under its old configuration leaves the lease alone. -/
theorem lease_setPhase {l : StorageLock} {phase : HandlePhase} (hl : s.locks i = some l)
    (ho : l.Outstanding ↔ ({ l with phase } : StorageLock).Outstanding) :
    (s.setPhase i l phase).lease name = s.lease name := by
  have hd : ({ l with phase } : StorageLock).leaseDeadline name = l.leaseDeadline name := by
    simp only [StorageLock.leaseDeadline, ho]
  rw [System.setPhase, lease_setLock, hd]
  have hu : (s.lease name).outstanding i = l.leaseDeadline name := by simp [System.lease, hl]
  rw [← hu, update_eq_self]

/-- Facts about pending calls that the lease does not show. -/
structure WellFormed (s : System) : Prop where
  fresh : ∀ i c, s.calls i = some c → c.phase.Ungranted → s.locks i = none
  reading : ∀ i c now, s.calls i = some c → c.phase = .updating now → now ≤ s.clock
  extending : ∀ i l c, s.locks i = some l →
    (l.phase = .extending c ∨ ∃ now, l.phase = .extendBound c now) → c.name = l.config.name

theorem wellFormed_step (hs : Step lockedByValue s a t) (hw : WellFormed s) : WellFormed t := by
  obtain ⟨hf, hr, he⟩ := hw
  cases hs with
  | tick h => exact ⟨hf, fun i c now hc hp => (hr i c now hc hp).trans h, he⟩
  | clearCache => exact ⟨hf, hr, he⟩
  | lock h =>
    cases h <;> constructor <;> simp only [System.setCall, System.setLock, System.setPhase,
      System.setRegistry, update_apply] <;> grind [LockPhase.Ungranted]
  | handle h =>
    cases h <;> constructor <;> simp only [System.setLock, System.setPhase, update_apply] <;>
      grind [LockPhase.Ungranted, LockConfiguration.successor_name]

theorem wellFormed_reachable (h : (system lockedByValue).Reachable s) : WellFormed s := by
  refine h.invariant ?_ (fun _ _ _ _ hs hw => wellFormed_step hs hw)
  rintro s ⟨_, hc, hl⟩
  exact ⟨by simp [hc], by simp [hc], by simp [hl]⟩

theorem leaseDeadline_self {l : StorageLock} (ho : l.Outstanding) :
    l.leaseDeadline l.config.name = some l.config.lockAtMostUntil := by
  simp [StorageLock.leaseDeadline, ho]

theorem leaseDeadline_other {l : StorageLock} (hn : name ≠ l.config.name) :
    l.leaseDeadline name = none := by
  simp [StorageLock.leaseDeadline, Ne.symm hn]

theorem lease_outstanding_of_none (h : s.locks i = none) :
    (s.lease name).outstanding i = none := by simp [System.lease, h]

theorem lease_outstanding_of_some {l : StorageLock} (h : s.locks i = some l) :
    (s.lease name).outstanding i = l.leaseDeadline name := by simp [System.lease, h]

/-- A write to the row of another name and a handle of another name do not show. -/
theorem lease_setLock_other {l : StorageLock} {row : Row ℤ} (hn : name ≠ l.config.name)
    (h : (s.lease name).outstanding i = none) :
    ({ s with table := update s.table l.config.name (some row) }.setLock i l).lease name =
      s.lease name := by
  rw [lease_setLock, leaseDeadline_other hn]
  simp only [System.lease, update_of_ne hn] at h ⊢
  rw [← h, update_eq_self]

/-- A statement that stores the deadline of a fresh handle over a free row grants the lease. -/
theorem lease_granted {p : ℕ} {config : LockConfiguration ℤ} {row : Row ℤ}
    (hl : s.locks i = none) (hr : row.lockUntil = config.lockAtMostUntil)
    (hfree : ∀ old, s.table config.name = some old → old.lockUntil ≤ s.clock) :
    ({ s with table := update s.table config.name (some row) }.setLock i
        ⟨p, config, .returning⟩).lease name = s.lease name ∨
      ∃ b, Lease.Step (s.lease name) b
        (({ s with table := update s.table config.name (some row) }.setLock i
          ⟨p, config, .returning⟩).lease name) := by
  by_cases hn : name = config.name
  · right
    subst hn
    refine ⟨.grant i config.lockAtMostUntil, ?_⟩
    have hg := Lease.Step.grant (r := s.lease config.name) (h := i)
      (d := config.lockAtMostUntil) (lease_outstanding_of_none hl) ?_
    · have hd := leaseDeadline_self (l := ⟨p, config, .returning⟩) ⟨by simp, by simp⟩
      rw [lease_setLock, hd]
      simpa [System.lease, hr] using hg
    · intro u hu
      obtain ⟨old, hold, rfl⟩ := Option.map_eq_some_iff.mp hu
      exact hfree old hold
  · exact Or.inl (lease_setLock_other hn (lease_outstanding_of_none hl))

theorem lease_lockStep (hw : WellFormed s) (hs : LockStep lockedByValue s i t) :
    t.lease name = s.lease name ∨ ∃ b, Lease.Step (s.lease name) b (t.lease name) := by
  cases hs with
  | insertGranted hc hq ho =>
    obtain ⟨hnone, rfl⟩ := insertStatement_granted hq ho
    refine lease_granted (hw.fresh i _ hc trivial) rfl ?_
    intro old hold
    exact absurd (hnone.symm.trans hold) (by simp)
  | insertRefused hc hq ho =>
    obtain ⟨-, rfl⟩ := insertStatement_refused hq ho
    exact Or.inl rfl
  | updateGranted hc hq ho =>
    obtain ⟨row, hrow, hm, rfl⟩ := updateWhere_granted hq ho
    refine lease_granted (hw.fresh i _ hc trivial) rfl ?_
    intro old hold
    obtain rfl := Option.some.inj (hrow.symm.trans hold)
    exact le_trans hm (hw.reading i _ _ hc rfl)
  | updateRefused hc hq ho =>
    obtain ⟨-, rfl⟩ := updateWhere_refused hq ho
    exact Or.inl rfl
  | insertedReturns _ hl hp | updatedReturns _ hl hp | insertReplyLost _ hl hp
  | updateReplyLost _ hl hp =>
    exact Or.inl (lease_setPhase hl (by simp [StorageLock.Outstanding, hp]))
  | called | insertedFallsThrough | updatedSkips | insertThrows | updateThrows => exact Or.inl rfl

theorem leaseDeadline_gone {l : StorageLock} (ho : ¬ l.Outstanding) :
    l.leaseDeadline name = none := by simp [StorageLock.leaseDeadline, ho]

/-- A handle that leaves gives its lease up. -/
theorem lease_setPhase_gone {l : StorageLock} {phase : HandlePhase}
    (ho : ¬ ({ l with phase } : StorageLock).Outstanding) :
    (s.setPhase i l phase).lease name =
      { s.lease name with outstanding := update (s.lease name).outstanding i none } := by
  rw [System.setPhase, lease_setLock, leaseDeadline_gone ho]

theorem lease_table_other {n : String} {row : Row ℤ} (hn : name ≠ n) :
    ({ s with table := update s.table n (some row) } : System).lease name = s.lease name := by
  simp [System.lease, hn]

theorem lease_table_self {row : Row ℤ} :
    ({ s with table := update s.table name (some row) } : System).lease name =
      { s.lease name with freeAt := some row.lockUntil } := by simp [System.lease]

/-- A handle that leaves is dropped from the lease of its name and from no other. -/
theorem lease_dropped {l : StorageLock} {phase : HandlePhase}
    (ho : ¬ ({ l with phase } : StorageLock).Outstanding) :
    ∃ b, Lease.Step (s.lease name) b ((s.setPhase i l phase).lease name) := by
  rw [lease_setPhase_gone ho]
  exact ⟨.drop i, .drop⟩

theorem lease_unlockRan {l : StorageLock} {now : ℤ} {table : Table ℤ} {out : QueryOutcome}
    (hl : s.locks i = some l) (hp : l.phase = .unlocking now)
    (hq : unlockStatement (statementParams lockedByValue l.provider now l.config none) s.table =
      (table, out)) :
    ∃ b, Lease.Step (s.lease name) b (({ s with table }.setPhase i l .unlocked).lease name) := by
  have hgone : ¬ ({ l with phase := .unlocked } : StorageLock).Outstanding := by
    simp [StorageLock.Outstanding]
  cases ho : out.succeeded with
  | false =>
    obtain ⟨-, rfl⟩ := updateWhere_refused hq ho
    exact lease_dropped hgone
  | true =>
    obtain ⟨row, hrow, hm, rfl⟩ := updateWhere_granted hq ho
    by_cases hn : name = l.config.name
    · subst hn
      have hd := leaseDeadline_self (l := l) (by simp [StorageLock.Outstanding, hp])
      have hs := Lease.Step.release (r := s.lease l.config.name) (h := i)
        (d := l.config.lockAtMostUntil) (t := l.config.unlockTime now)
        ((lease_outstanding_of_some hl).trans hd)
        (Option.map_eq_some_iff.mpr ⟨row, hrow, hm.2⟩)
      rw [lease_setPhase_gone hgone]
      simp only [statementParams, params, lease_table_self]
      exact ⟨_, hs⟩
    · rw [lease_setPhase_gone hgone]
      simp only [statementParams, params, lease_table_other hn]
      exact ⟨.drop i, .drop⟩

theorem lease_extendGranted (hw : WellFormed s) {l : StorageLock}
    {newConfig : LockConfiguration ℤ} {now : ℤ} {table : Table ℤ} {out : QueryOutcome}
    (hl : s.locks i = some l) (hp : l.phase = .extendBound newConfig now)
    (hj : s.locks j = none)
    (hq : extendStatement (statementParams lockedByValue l.provider now newConfig
      (some l.config.lockAtMostUntil)) s.table = (table, out)) (ho : out.succeeded = true) :
    ∃ b, Lease.Step (s.lease name) b
      ((({ s with table }.setPhase i l .extended).setLock j
        ⟨l.provider, newConfig, .returning⟩).lease name) := by
  have hname := hw.extending i l newConfig hl (.inr ⟨now, hp⟩)
  have hgone : ¬ ({ l with phase := .extended } : StorageLock).Outstanding := by
    simp [StorageLock.Outstanding]
  obtain ⟨row, hrow, hm, rfl⟩ := updateWhere_granted hq ho
  simp only [statementParams, params] at hrow hm ⊢
  rw [lease_setLock, lease_setPhase_gone hgone]
  by_cases hn : name = newConfig.name
  · subst hn
    have hd := leaseDeadline_self (l := l) (by simp [StorageLock.Outstanding, hp])
    have hd' := leaseDeadline_self (l := ⟨l.provider, newConfig, .returning⟩) ⟨by simp, by simp⟩
    have hf : row.lockUntil = l.config.lockAtMostUntil := Option.some.inj hm.2.2
    have ho : (s.lease newConfig.name).outstanding i = some l.config.lockAtMostUntil := by
      rw [lease_outstanding_of_some hl, hname, hd]
    rw [lease_table_self, hd']
    exact ⟨_, .renew ho (Option.map_eq_some_iff.mpr ⟨row, hrow, hf⟩) (lease_outstanding_of_none hj)⟩
  · have hd : (⟨l.provider, newConfig, .returning⟩ : StorageLock).leaseDeadline name = none :=
      leaseDeadline_other hn
    have hnone : update (s.lease name).outstanding i none j = none := by
      have hfree : (s.lease name).outstanding j = none := lease_outstanding_of_none hj
      by_cases hji : j = i
      · simp [hji]
      · simpa [hji] using hfree
    simp only [lease_table_other hn, hd]
    refine ⟨.drop i, ?_⟩
    rw [update_eq_self_iff.mpr hnone.symm]
    exact .drop

theorem lease_handleStep (hw : WellFormed s) (hs : HandleStep lockedByValue s i t) :
    t.lease name = s.lease name ∨ ∃ b, Lease.Step (s.lease name) b (t.lease name) := by
  cases hs with
  | unlockRan hl hp hq => exact Or.inr (lease_unlockRan hl hp hq)
  | extendGranted hl hp hj _ hq ho => exact Or.inr (lease_extendGranted hw hl hp hj hq ho)
  | extendRefused hl hp hq ho =>
    obtain ⟨-, rfl⟩ := updateWhere_refused hq ho
    exact Or.inl (lease_setPhase hl (by simp [StorageLock.Outstanding, hp]))
  | extendCalled hl hp | unlockCalled hl hp | unlockThrows hl hp | extendBinds hl hp
  | extendReturns hl hp =>
    exact Or.inl (lease_setPhase hl (by simp [StorageLock.Outstanding, hp]))
  | extendThrows hl hp =>
    refine Or.inl (lease_setPhase hl ?_)
    rcases hp with hp | ⟨now, hp⟩ <;> simp [StorageLock.Outstanding, hp]

/-- Row and handles of a name behave as a lease register in every run. -/
theorem lease_abstraction (lockedByValue : ℕ → String) (name : String) :
    (system lockedByValue).Abstraction Lease.system (System.lease · name) where
  initial s h := by
    intro i
    exact lease_outstanding_of_none (h.2.2 i)
  step s a t hr hs := by
    have hw := wellFormed_reachable hr
    cases hs with
    | tick h => exact Or.inr ⟨.advance _, .advance h⟩
    | lock h => exact lease_lockStep hw h
    | handle h => exact lease_handleStep hw h
    | clearCache => exact Or.inl rfl

theorem lease_exclusive (h : (system lockedByValue).Reachable s) (name : String) :
    Lease.Exclusive (s.lease name) :=
  Lease.exclusive_reachable ((lease_abstraction lockedByValue name).reachable h)

/-- A handle neither unlocked nor extended whose deadline is still in the future. -/
structure Live (s : System) (i : ℕ) (l : StorageLock) : Prop where
  lock : s.locks i = some l
  outstanding : l.Outstanding
  unexpired : s.clock < l.config.lockAtMostUntil

theorem Live.lease {l : StorageLock} (h : Live s i l) :
    (s.lease l.config.name).outstanding i = some l.config.lockAtMostUntil :=
  (lease_outstanding_of_some h.lock).trans (leaseDeadline_self h.outstanding)

theorem Live.unique {l k : StorageLock} (he : Lease.Exclusive (s.lease l.config.name))
    (hl : Live s i l) (hk : Live s j k) (hn : k.config.name = l.config.name) : i = j :=
  he.unique i j ⟨_, hl.lease, hl.unexpired⟩ ⟨_, hn ▸ hk.lease, hk.unexpired⟩

/-- The row of a live handle carries its deadline. -/
theorem Live.row {l : StorageLock} (he : Lease.Exclusive (s.lease l.config.name))
    (hl : Live s i l) :
    ∃ row, s.table l.config.name = some row ∧ row.lockUntil = l.config.lockAtMostUntil :=
  Option.map_eq_some_iff.mp (he.carried i _ hl.lease hl.unexpired)

/-- The row of a live handle names the host of its provider. -/
def Hosted (lockedByValue : ℕ → String) (s : System) : Prop :=
  ∀ i l, Live s i l → ∀ row, s.table l.config.name = some row →
    row.lockedBy = lockedByValue l.provider

/-- Rows unchanged, and each live handle was live before on the same provider. -/
theorem Hosted.mono (hh : Hosted lockedByValue s) (htable : t.table = s.table)
    (hlive : ∀ i l, Live t i l → ∃ l', Live s i l' ∧ l'.config.name = l.config.name ∧
      l'.provider = l.provider) : Hosted lockedByValue t := by
  intro i l hl row hrow
  obtain ⟨l', hl', hn, hp⟩ := hlive i l hl
  rw [htable, ← hn] at hrow
  rw [← hp]
  exact hh i l' hl' row hrow

theorem live_setPhase {l k : StorageLock} {phase : HandlePhase} (hl : s.locks i = some l)
    (ho : l.Outstanding) (hk : Live (s.setPhase i l phase) j k) :
    ∃ k', Live s j k' ∧ k'.config.name = k.config.name ∧ k'.provider = k.provider := by
  obtain ⟨hlock, hout, hexp⟩ := hk
  by_cases hj : j = i
  · subst hj
    have hkl : ({ l with phase } : StorageLock) = k := by
      simpa [System.setPhase, System.setLock] using hlock
    subst hkl
    exact ⟨l, ⟨hl, ho, hexp⟩, rfl, rfl⟩
  · exact ⟨k, ⟨by simpa [System.setPhase, System.setLock, hj] using hlock, hout, hexp⟩, rfl, rfl⟩

/-- A granting statement writes its own host, and leaves no other live handle of the name. -/
theorem hosted_granted (he : Lease.Exclusive (t.lease name)) (hh : Hosted lockedByValue s)
    {p : ℕ} {config : LockConfiguration ℤ} {row : Row ℤ} (hname : config.name = name)
    (htable : t.table = update s.table name (some row)) (hhost : row.lockedBy = lockedByValue p)
    (huntil : row.lockUntil = config.lockAtMostUntil)
    (hnew : t.locks i = some ⟨p, config, .returning⟩)
    (hold : ∀ j k, j ≠ i → Live t j k → Live s j k) : Hosted lockedByValue t := by
  intro j k hk r hr
  by_cases hkn : k.config.name = name
  · have hrow : r = row := by
      rw [htable, hkn, update_self] at hr
      exact (Option.some.inj hr).symm
    obtain ⟨r', hr', hu⟩ := hk.row (hkn ▸ he)
    obtain rfl : r' = r := Option.some.inj (hr'.symm.trans hr)
    -- the fresh handle carries the same deadline, so it is live as well
    have hi : Live t i ⟨p, config, .returning⟩ :=
      ⟨hnew, ⟨by simp, by simp⟩, by
        have hexp := hk.unexpired
        rw [← hu, hrow, huntil] at hexp
        exact hexp⟩
    have hij : i = j := Live.unique (hname ▸ he) hi hk (hkn.trans hname.symm)
    subst hij
    obtain rfl : (⟨p, config, .returning⟩ : StorageLock) = k :=
      Option.some.inj (hnew.symm.trans hk.lock)
    rw [hrow, hhost]
  · have hji : j ≠ i := by
      rintro rfl
      obtain rfl : (⟨p, config, .returning⟩ : StorageLock) = k :=
        Option.some.inj (hnew.symm.trans hk.lock)
      exact hkn hname
    rw [htable, update_of_ne hkn] at hr
    exact hh j k (hold j k hji hk) r hr

theorem hosted_lockStep (he : ∀ name, Lease.Exclusive (t.lease name))
    (hh : Hosted lockedByValue s) (hs : LockStep lockedByValue s i t) :
    Hosted lockedByValue t := by
  have hsame : ∀ j k, Live s j k → ∃ k', Live s j k' ∧ k'.config.name = k.config.name ∧
      k'.provider = k.provider := fun j k hk => ⟨k, hk, rfl, rfl⟩
  have hfresh : ∀ {k : StorageLock} {l : StorageLock} {j : ℕ} {table : Table ℤ}, j ≠ i →
      Live ({ s with table }.setLock i l) j k → Live s j k := by
    intro k l j table hj hk
    exact ⟨by simpa [System.setLock, hj] using hk.lock, hk.outstanding, hk.unexpired⟩
  cases hs with
  | insertGranted hc hq ho =>
    obtain ⟨-, rfl⟩ := insertStatement_granted hq ho
    refine hosted_granted (i := i) (he _) hh rfl rfl rfl rfl (by simp [System.setCall,
      System.setLock]) ?_
    exact fun j k hj hk => hfresh hj ⟨hk.lock, hk.outstanding, hk.unexpired⟩
  | updateGranted hc hq ho =>
    obtain ⟨row, -, -, rfl⟩ := updateWhere_granted hq ho
    refine hosted_granted (i := i) (he _) hh rfl rfl rfl rfl (by simp [System.setCall,
      System.setLock]) ?_
    exact fun j k hj hk => hfresh hj ⟨hk.lock, hk.outstanding, hk.unexpired⟩
  | insertRefused hc hq ho =>
    obtain ⟨-, rfl⟩ := insertStatement_refused hq ho
    exact hh.mono rfl fun j k hk => hsame j k ⟨hk.lock, hk.outstanding, hk.unexpired⟩
  | updateRefused hc hq ho =>
    obtain ⟨-, rfl⟩ := updateWhere_refused hq ho
    exact hh.mono rfl fun j k hk => hsame j k ⟨hk.lock, hk.outstanding, hk.unexpired⟩
  | insertedReturns _ hl hp | updatedReturns _ hl hp | insertReplyLost _ hl hp
  | updateReplyLost _ hl hp =>
    refine hh.mono rfl fun j k hk => live_setPhase hl (by simp [StorageLock.Outstanding, hp])
      ⟨hk.lock, hk.outstanding, hk.unexpired⟩
  | called | insertedFallsThrough | updatedSkips | insertThrows | updateThrows =>
    exact hh.mono rfl fun j k hk => hsame j k ⟨hk.lock, hk.outstanding, hk.unexpired⟩

theorem hosted_handleStep (he : ∀ name, Lease.Exclusive (t.lease name))
    (hh : Hosted lockedByValue s) (hs : HandleStep lockedByValue s i t) :
    Hosted lockedByValue t := by
  have hphase : ∀ {l : StorageLock} {phase : HandlePhase}, s.locks i = some l → l.Outstanding →
      Hosted lockedByValue (s.setPhase i l phase) :=
    fun hl ho => hh.mono rfl fun j k hk => live_setPhase hl ho hk
  cases hs with
  | @unlockRan l now table out hl hp hq =>
    have hlo : l.Outstanding := by simp [StorageLock.Outstanding, hp]
    cases ho : out.succeeded with
    | false =>
      obtain ⟨-, rfl⟩ := updateWhere_refused hq ho
      exact hphase hl hlo
    | true =>
      obtain ⟨old, hold, -, rfl⟩ := updateWhere_granted hq ho
      intro j k hk row hrow
      obtain ⟨k', hk', hn, hpr⟩ := live_setPhase hl hlo
        ⟨hk.lock, hk.outstanding, hk.unexpired⟩
      rw [← hpr]
      by_cases hkn : k.config.name = l.config.name
      · have hrow' : row.lockedBy = old.lockedBy := by
          simp only [System.setPhase, System.setLock, statementParams, params, hkn,
            update_self, Option.some.injEq] at hrow
          rw [← hrow]
        rw [hrow']
        exact hh j k' hk' old (by rw [hn, hkn]; exact hold)
      · refine hh j k' hk' row ?_
        simpa [System.setPhase, System.setLock, statementParams, params, hkn, hn] using hrow
  | @extendGranted n l newConfig now table out hl hp hj _ hq ho =>
    obtain ⟨old, hold, hm, rfl⟩ := updateWhere_granted hq ho
    refine hosted_granted (i := n) (he _) hh rfl rfl hm.1 rfl (by simp [System.setLock]) ?_
    intro j k hjn hk
    have hkl : (update s.locks i (some { l with phase := .extended })) j = some k := by
      simpa [System.setLock, System.setPhase, hjn] using hk.lock
    by_cases hji : j = i
    · subst hji
      obtain rfl : ({ l with phase := .extended } : StorageLock) = k := by simpa using hkl
      exact absurd rfl hk.outstanding.2
    · exact ⟨by simpa [hji] using hkl, hk.outstanding, hk.unexpired⟩
  | extendRefused hl hp hq ho =>
    obtain ⟨-, rfl⟩ := updateWhere_refused hq ho
    exact hphase hl (by simp [StorageLock.Outstanding, hp])
  | unlockCalled hl hp | unlockThrows hl hp | extendCalled hl hp | extendBinds hl hp
  | extendReturns hl hp => exact hphase hl (by simp [StorageLock.Outstanding, hp])
  | extendThrows hl hp =>
    refine hphase hl ?_
    rcases hp with hp | ⟨now, hp⟩ <;> simp [StorageLock.Outstanding, hp]

theorem hosted_reachable (h : (system lockedByValue).Reachable s) : Hosted lockedByValue s := by
  refine h.invariant ?_ ?_
  · rintro s ⟨_, _, hl⟩ i l hlive
    have := hlive.lock
    simp [hl i] at this
  · intro s a t hr hs hh
    have he := lease_exclusive (hr.step hs)
    cases hs with
    | tick ht =>
      exact hh.mono rfl fun j k hk =>
        ⟨k, ⟨hk.lock, hk.outstanding, lt_of_le_of_lt ht hk.unexpired⟩, rfl, rfl⟩
    | lock h => exact hosted_lockStep he hh h
    | handle h => exact hosted_handleStep he hh h
    | clearCache =>
      exact hh.mono rfl fun j k hk =>
        ⟨k, ⟨hk.lock, hk.outstanding, hk.unexpired⟩, rfl, rfl⟩

/-- At most one handle of a name is neither unlocked nor extended with its deadline in the
future, and the row of the name carries exactly the deadline and the host of that handle. -/
theorem sql_mutual_exclusion (h : (system lockedByValue).Reachable s) :
    (∀ i j a b, Live s i a → Live s j b → a.config.name = b.config.name → i = j) ∧
    ∀ i a, Live s i a → ∃ row, s.table a.config.name = some row ∧
      row.lockUntil = a.config.lockAtMostUntil ∧ row.lockedBy = lockedByValue a.provider := by
  refine ⟨?_, ?_⟩
  · intro i j a b ha hb hn
    exact ha.unique (lease_exclusive h _) hb hn.symm
  · intro i a ha
    obtain ⟨row, hrow, hu⟩ := ha.row (lease_exclusive h _)
    exact ⟨row, hrow, hu, hosted_reachable h i a ha row hrow⟩

def nightly : LockConfiguration ℤ :=
  { name := "nightly", lockAtMostFor := 60000, lockAtLeastFor := 5000, createdAt := 0 }

/-- The first call is of one host, the second one of another. -/
def twoHosts (p : ℕ) : String := if p = 0 then "host-a" else "host-b"

/-- Two `lock()` calls on an empty table: both insert, the second one first, and the first one then
finds the row taken. -/
theorem nightlyInserted_reachable : ∃ s, (system twoHosts).Reachable s ∧
    s.calls 0 = some ⟨0, nightly, .updated false⟩ ∧ Live s 1 ⟨1, nightly, .returning⟩ := by
  let s₀ : System := ⟨0, fun _ => none, fun _ _ => false, fun _ => none, fun _ => none⟩
  have h₀ : (system twoHosts).Reachable s₀ := .initial ⟨fun _ _ => rfl, fun _ => rfl, fun _ => rfl⟩
  have hcalled : LockStep twoHosts s₀ 0 (s₀.setCall 0 (some ⟨0, nightly, .inserting 0⟩)) :=
    .called rfl rfl (by decide) (by decide)
  have hcalled' : LockStep twoHosts (s₀.setCall 0 (some ⟨0, nightly, .inserting 0⟩)) 1
      ((s₀.setCall 0 (some ⟨0, nightly, .inserting 0⟩)).setCall 1
        (some ⟨1, nightly, .inserting 0⟩)) :=
    .called rfl rfl (by decide) (by decide)
  have hinserting := (h₀.step (.lock hcalled)).step (.lock hcalled')
  have hgranted := hinserting.step (.lock (.insertGranted (i := 1) rfl rfl rfl))
  have hrefused := hgranted.step (.lock (.insertRefused (i := 0) rfl rfl rfl))
  have hupdating := hrefused.step (.lock (.insertedFallsThrough (i := 0) rfl))
  have htaken := hupdating.step (.lock (.updateRefused (i := 0) rfl rfl rfl))
  exact ⟨_, htaken, rfl, rfl, by decide, by decide⟩

/-- The row carries the deadline and the host of the call that was granted. -/
theorem nightlyInserted_carried : ∃ (s : System) (row : Row ℤ),
    s.calls 0 = some ⟨0, nightly, .updated false⟩ ∧
    s.table "nightly" = some row ∧ row.lockUntil = 60000 ∧ row.lockedBy = "host-b" := by
  obtain ⟨s, h, hrefused, hlive⟩ := nightlyInserted_reachable
  obtain ⟨row, hrow⟩ := (sql_mutual_exclusion h).2 1 ⟨1, nightly, .returning⟩ hlive
  exact ⟨s, row, hrefused, hrow⟩

end Tslock.Sql
