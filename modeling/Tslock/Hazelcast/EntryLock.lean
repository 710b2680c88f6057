import Tslock.Hazelcast.HazelcastAccessor

/-! Entries and handles as leased cells, in the runs in which no call is disturbed between its lock
and its put; and a run in which two calls of one client are. -/
namespace Tslock.Hazelcast

open Function Foundation

variable {setup : Setup} {s t u : System} {e : Event} {i j : ℕ} {l : LockCall Phase ℤ}
  {config : LockConfiguration ℤ} {name key : String} {record expected : HazelcastLockRecord}
  {entry : Entry} {phase : Phase}

def tenant (entry : Entry) : Option (ℕ × ℤ) :=
  (JsDate.parse entry.record.lockUntil).map fun lockUntil => (entry.writer, lockUntil)

def System.cell (s : System) (name : String) : Option (ℕ × ℤ) := (s.entry name).bind tenant

def System.register (s : System) : Tenancy.Register ℕ String ℤ :=
  LockTable.register Phase.Outstanding s.clock s.locks s.cell

/-- The key is locked, and the call was the last to lock it. -/
def Last (s : System) (key : String) (i : ℕ) : Prop :=
  ∃ guard, s.entryLock key = some guard ∧ guard.last = i

/-- The record of a handle carries its deadline. -/
def Dated (config : LockConfiguration ℤ) (record : HazelcastLockRecord) : Prop :=
  JsDate.parse record.lockUntil = some config.lockAtMostUntil

/-- What a call relies on between its requests; what it has read holds as long as it was the last to
lock the key. -/
def Phase.Sound (s : System) (i : ℕ) (config : LockConfiguration ℤ) : Phase → Prop
  | .locking now | .reading now => now ≤ s.clock
  | .putting record => Dated config record ∧ (Last s config.name i →
    ∀ entry, s.entry config.name = some entry →
      ∀ d, JsDate.parse entry.record.lockUntil = some d → d ≤ s.clock)
  | .unlockLocking expected _ | .unlockReading expected _ => Dated config expected
  | .unlockPutting expected rest => Dated config expected ∧
    (Last s config.name i → ∀ entry, s.entry config.name = some entry → entry.record = expected) ∧
    ∀ record ∈ rest, JsDate.parse record.lockUntil = some config.lockAtLeastUntil
  | .leaving (.held record) | .settled (.held record) => Dated config record
  | .leaving .skipped | .leaving .rejected | .leaving .unlocked => True
  | .settled .skipped | .settled .rejected | .settled .unlocked => True

structure WellFormed (s : System) : Prop where
  sound : ∀ i l, s.locks i = some l → l.phase.Sound s i l.config
  created : ∀ i l, s.locks i = some l → l.config.createdAt ≤ s.clock
  dated : ∀ key entry, s.entry key = some entry →
    ∃ d, JsDate.parse entry.record.lockUntil = some d ∧ d ≤ entry.expires
  owned : ∀ i l, s.locks i = some l → ∀ record entry, l.phase.record = some record →
    s.entry l.config.name = some entry → entry.record = record → entry.writer = i

theorem WellFormed.sound_of (hw : WellFormed s) (hl : s.locks i = some l)
    (hp : l.phase = phase) : phase.Sound s i l.config := by
  rw [← hp]
  exact hw.sound i l hl

/-- A later state, in which a call has not come to lock a key and its entry is as it was or gone,
as far as the call was the last to lock it. -/
structure Keeps (i : ℕ) (s t : System) : Prop where
  clock : s.clock ≤ t.clock
  last : ∀ key, Last t key i → Last s key i
  entry : ∀ key entry, Last t key i → t.entry key = some entry → s.entry key = some entry

theorem Phase.Sound.mono (h : phase.Sound s i config) (hst : Keeps i s t) :
    phase.Sound t i config := by
  cases phase with
  | locking | reading => exact le_trans h hst.clock
  | putting =>
    refine ⟨h.1, fun hlast entry hentry d hd => ?_⟩
    exact le_trans (h.2 (hst.last _ hlast) entry (hst.entry _ _ hlast hentry) d hd) hst.clock
  | unlockLocking | unlockReading => exact h
  | unlockPutting =>
    refine ⟨h.1, fun hlast entry hentry => ?_, h.2.2⟩
    exact h.2.1 (hst.last _ hlast) entry (hst.entry _ _ hlast hentry)
  | leaving outcome | settled outcome =>
    cases outcome with
    | held => exact h
    | skipped | rejected | unlocked => trivial

theorem Phase.Sound.dated (h : phase.Sound s i config) (hr : phase.record = some record) :
    Dated config record := by
  cases phase with
  | locking | reading | putting => cases hr
  | unlockLocking | unlockReading =>
    cases hr
    exact h
  | unlockPutting =>
    cases hr
    exact h.1
  | leaving outcome | settled outcome =>
    cases outcome with
    | held =>
      cases hr
      exact h
    | skipped | rejected | unlocked => cases hr

theorem keeps_clock {now : ℤ} (hle : s.clock ≤ now) : Keeps i s { s with clock := now } :=
  ⟨hle, fun _ h => h, fun _ _ _ h => h⟩

/-- Another call that locks a key is the last to lock it. -/
theorem keeps_lock {client : ℕ} {leaseTime : ℤ} (hij : i ≠ j) :
    Keeps i s (s.lock key client leaseTime j) := by
  refine ⟨le_refl _, fun k hk => ?_, fun _ _ _ h => h⟩
  obtain ⟨guard, hguard, hlast⟩ := hk
  by_cases heq : k = key
  · subst heq
    simp only [System.lock, update_self, Option.some.injEq] at hguard
    rw [← hguard] at hlast
    exact absurd hlast.symm hij
  · simp only [System.lock, update_of_ne heq] at hguard
    exact ⟨guard, hguard, hlast⟩

theorem keeps_unlock {client : ℕ} : Keeps i s (s.unlock key client) := by
  refine ⟨le_refl _, fun k hk => ?_, fun _ _ _ h => h⟩
  obtain ⟨guard, hguard, hlast⟩ := hk
  by_cases heq : k = key
  · subst heq
    simp only [System.unlock, update_self, Option.bind_eq_some_iff] at hguard
    obtain ⟨before, hbefore, hafter⟩ := hguard
    refine ⟨before, hbefore, ?_⟩
    split_ifs at hafter
    · cases hafter
      exact hlast
    · cases hafter
      exact hlast
  · simp only [System.unlock, update_of_ne heq] at hguard
    exact ⟨guard, hguard, hlast⟩

theorem keeps_leaseEnded : Keeps i s { s with entryLock := update s.entryLock key none } := by
  refine ⟨le_refl _, fun k hk => ?_, fun _ _ _ h => h⟩
  obtain ⟨guard, hguard, hlast⟩ := hk
  by_cases heq : k = key
  · subst heq
    simp only [update_self] at hguard
    cases hguard
  · simp only [update_of_ne heq] at hguard
    exact ⟨guard, hguard, hlast⟩

theorem of_put_none (h : (s.put key none).entry name = some entry) : s.entry name = some entry := by
  by_cases heq : name = key
  · subst heq
    simp only [System.put, update_self] at h
    cases h
  · simpa only [System.put, update_of_ne heq] using h

theorem keeps_evicted : Keeps i s (s.put key none) :=
  ⟨le_refl _, fun _ h => h, fun _ _ _ h => of_put_none h⟩

/-- A put of the call that was the last to lock the key. -/
theorem keeps_put {x : Option Entry} (hlast : Last s key j) (hij : i ≠ j) :
    Keeps i s (s.put key x) := by
  refine ⟨le_refl _, fun _ h => h, fun k entry hk hentry => ?_⟩
  by_cases heq : k = key
  · subst heq
    obtain ⟨guard, hguard, hi⟩ := hk
    obtain ⟨guard', hguard', hj⟩ := hlast
    cases hguard.symm.trans hguard'
    exact absurd (hi.symm.trans hj) hij
  · simpa only [System.put, update_of_ne heq] using hentry

/-- A step that moves one call and writes no entry. -/
theorem WellFormed.moved (hw : WellFormed s) (hl : s.locks i = some l)
    (hst : ∀ j, j ≠ i → Keeps j s t) (hclock : s.clock ≤ t.clock) (hlocks : t.locks = s.locks)
    (hentry : t.entry = s.entry) (hrecord : ∀ r, phase.record = some r → l.phase.record = some r)
    (hp : phase.Sound t i l.config) : WellFormed (t.setPhase i l phase) := by
  have hsame : ∀ j, Keeps j t (t.setPhase i l phase) :=
    fun j => ⟨le_refl _, fun _ h => h, fun _ _ _ h => h⟩
  refine ⟨?_, ?_, ?_, ?_⟩
  · refine LockTable.of_setPhase_ne (fun j b hj hb => ?_) (hp.mono (hsame i))
    rw [hlocks] at hb
    exact ((hw.sound j b hb).mono (hst j hj)).mono (hsame j)
  · refine LockTable.of_setPhase (fun j b hb => ?_) (le_trans (hw.created i l hl) hclock)
    rw [hlocks] at hb
    exact le_trans (hw.created j b hb) hclock
  · intro k x hx
    have hbefore : t.entry k = some x := hx
    rw [hentry] at hbefore
    exact hw.dated k x hbefore
  · refine LockTable.of_setPhase (fun j b hb r x hr hx hxr => ?_) (fun r x hr hx hxr => ?_)
    · rw [hlocks] at hb
      have hbefore : t.entry b.config.name = some x := hx
      rw [hentry] at hbefore
      exact hw.owned j b hb r x hr hbefore hxr
    · have hbefore : t.entry l.config.name = some x := hx
      rw [hentry] at hbefore
      exact hw.owned i l hl r x (hrecord r hr) hbefore hxr

/-- A call that goes on while everything else stays. -/
theorem WellFormed.moved_only (hw : WellFormed s) (hl : s.locks i = some l)
    (hrecord : ∀ r, phase.record = some r → l.phase.record = some r)
    (hp : phase.Sound s i l.config) : WellFormed (s.setPhase i l phase) :=
  hw.moved hl (fun _ _ => ⟨le_refl _, fun _ h => h, fun _ _ _ h => h⟩) (le_refl _) rfl rfl hrecord
    hp

/-- A put of a record that is not the one of another handle. -/
theorem WellFormed.put {x : Option Entry} (hw : WellFormed s) (hl : s.locks i = some l)
    (hlast : Last s l.config.name i) (hp : phase.Sound s i l.config)
    (hquiet : ∀ t, phase.Sound s i l.config → phase.Sound t i l.config)
    (hx : ∀ entry ∈ x, entry.writer = i ∧
      (∃ d, JsDate.parse entry.record.lockUntil = some d ∧ d ≤ entry.expires) ∧
      ∀ j a, j ≠ i → s.locks j = some a → a.config.name = l.config.name →
        a.phase.record ≠ some entry.record) :
    WellFormed ((s.put l.config.name x).setPhase i l phase) := by
  have hnew : ∀ k entry, (s.put l.config.name x).entry k = some entry →
      (k = l.config.name ∧ entry ∈ x) ∨ (k ≠ l.config.name ∧ s.entry k = some entry) := by
    intro k entry hk
    by_cases heq : k = l.config.name
    · subst heq
      exact .inl ⟨rfl, by simpa only [System.put, update_self, Option.mem_def] using hk⟩
    · exact .inr ⟨heq, by simpa only [System.put, update_of_ne heq] using hk⟩
  refine ⟨?_, ?_, ?_, ?_⟩
  · refine LockTable.of_setPhase_ne (fun j b hj hb => ?_) (hquiet _ hp)
    have hkeeps : Keeps j s (s.put l.config.name x) := keeps_put hlast hj
    exact (hw.sound j b hb).mono ⟨hkeeps.clock, hkeeps.last, hkeeps.entry⟩
  · exact LockTable.of_setPhase (fun j b hb => hw.created j b hb) (hw.created i l hl)
  · intro k entry hk
    rcases hnew k entry hk with ⟨-, hmem⟩ | ⟨-, hold⟩
    · exact (hx entry hmem).2.1
    · exact hw.dated k entry hold
  · refine LockTable.of_setPhase_ne (fun j b hj hb r entry hr hk hxr => ?_)
      (fun r entry hr hk hxr => ?_)
    · rcases hnew _ entry hk with ⟨hname, hmem⟩ | ⟨-, hold⟩
      · exact absurd (hxr ▸ hr) ((hx entry hmem).2.2 j b hj hb hname)
      · exact hw.owned j b hb r entry hr hold hxr
    · rcases hnew _ entry hk with ⟨-, hmem⟩ | ⟨hne, -⟩
      · exact (hx entry hmem).1
      · exact absurd rfl hne

theorem record_afterLock (h : (afterLock phase).record = some record) :
    phase.record = some record := by
  cases phase with
  | locking => cases h
  | reading | putting | unlockLocking | unlockReading | unlockPutting | leaving | settled => exact h

theorem record_afterError (h : (afterError phase).record = some record) :
    phase.record = some record := by
  cases phase with
  | locking | reading | putting => cases h
  | unlockLocking | unlockReading | unlockPutting => exact h
  | leaving outcome | settled outcome =>
    cases outcome with
    | held => exact h
    | skipped | rejected | unlocked => cases h

theorem record_lockAfterGet {hostname : String} {now : ℤ} {existing : Option HazelcastLockRecord} :
    (lockAfterGet hostname config now existing).record = none := by
  unfold lockAfterGet
  split_ifs
  · split <;> rfl
  · rfl

theorem record_unlockAfterGet {now : ℤ} {existing : Option HazelcastLockRecord}
    (h : (unlockAfterGet config expected now existing).record = some record) :
    record = expected := by
  unfold unlockAfterGet at h
  split_ifs at h
  · cases h
  · cases h
    rfl
  · split at h
    · cases h
      rfl
    · cases h
      rfl

/-- What `lock()` decides from the entry it has read. -/
theorem sound_lockAfterGet {hostname : String} {now : ℤ} (hnow : now ≤ s.clock) :
    (lockAfterGet hostname config now (s.record config.name)).Sound s i config := by
  unfold lockAfterGet
  split_ifs with hover
  · split
    · next lockUntil lockedAt hu _ =>
      refine ⟨JsDate.parse_toIsoString hu, fun _ entry hentry d hd => ?_⟩
      have hrecord : entry.record ∈ s.record config.name := by
        rw [System.record, hentry, Option.map_some]
        rfl
      obtain ⟨d', hd', hle⟩ := hover _ hrecord
      cases hd.symm.trans hd'
      exact le_trans hle hnow
    · trivial
  · trivial

theorem sameAcquisition_eq {existing : Option HazelcastLockRecord}
    (h : sameAcquisition existing expected = true) : existing = some expected := by
  cases existing with
  | none => cases h
  | some found =>
    obtain ⟨u, a, b⟩ := found
    obtain ⟨u', a', b'⟩ := expected
    simp only [sameAcquisition, decide_eq_true_eq] at h
    obtain ⟨rfl, rfl, rfl⟩ := h
    rfl

/-- What `unlock()` decides from the entry it has read. -/
theorem sound_unlockAfterGet {now : ℤ} (hd : Dated config expected) :
    (unlockAfterGet config expected now (s.record config.name)).Sound s i config := by
  have hown : ¬ (!sameAcquisition (s.record config.name) expected) = true →
      ∀ entry, s.entry config.name = some entry → entry.record = expected := by
    intro hsame entry hentry
    rw [Bool.not_eq_true', Bool.not_eq_false] at hsame
    have hrecord := sameAcquisition_eq hsame
    rw [System.record, hentry, Option.map_some] at hrecord
    exact Option.some.inj hrecord
  unfold unlockAfterGet
  split_ifs with hforeign hover
  · trivial
  · exact ⟨hd, fun _ => hown hforeign, nofun⟩
  · split
    · next lockUntil hu =>
      refine ⟨hd, fun _ => hown hforeign, ?_⟩
      rintro _ ⟨⟩
      exact JsDate.parse_toIsoString hu
    · exact hd

theorem sound_afterError (h : phase.Sound s i config) : (afterError phase).Sound s i config := by
  cases phase with
  | locking | reading | putting => trivial
  | unlockLocking | unlockReading => exact h
  | unlockPutting => exact h.1
  | leaving outcome | settled outcome => cases outcome <;> exact h

theorem wellFormed_step (hs : Step setup s e t) (hu : Undisturbed s e) (hw : WellFormed s) :
    WellFormed t := by
  cases hs with
  | tick hle =>
    exact ⟨fun j b hb => (hw.sound j b hb).mono (keeps_clock hle),
      fun j b hb => le_trans (hw.created j b hb) hle, hw.dated, hw.owned⟩
  | lockCalled _ hcreated =>
    refine ⟨?_, LockTable.of_insert (fun j b hb => hw.created j b hb) hcreated, hw.dated, ?_⟩
    · exact LockTable.of_insert (fun j b hb => hw.sound j b hb) (le_refl _)
    · exact LockTable.of_insert (fun j b hb => hw.owned j b hb) nofun
  | @unlockCalled i l record hl hp =>
    have hsound := hw.sound_of hl hp
    refine hw.moved_only hl (fun r hr => ?_) hsound
    rw [hp]
    exact hr
  | @locked i l hl hp _ =>
    have hsound := hw.sound i l hl
    refine hw.moved hl (fun j hj => keeps_lock hj) (le_refl _) rfl rfl
      (fun r hr => record_afterLock hr) ?_
    generalize l.phase = phase at hsound hp ⊢
    cases phase with
    | locking | unlockLocking => exact hsound
    | reading | putting | unlockReading | unlockPutting | leaving | settled => exact hp.elim
  | @lockGot i l now hl hp =>
    have hsound := hw.sound_of hl hp
    refine hw.moved_only hl (fun r hr => ?_) (sound_lockAfterGet hsound)
    rw [record_lockAfterGet] at hr
    cases hr
  | @unlockGot i l expected now hl hp =>
    have hsound := hw.sound_of hl hp
    refine hw.moved_only hl (fun r hr => ?_) (sound_unlockAfterGet hsound)
    rw [record_unlockAfterGet hr, hp]
    rfl
  | @lockPut i l record hl hp _ =>
    have hsound := hw.sound_of hl hp
    have hcreated := hw.created i l hl
    obtain ⟨hlast, hothers⟩ := hu l hl
    refine hw.put hl hlast hsound.1 (fun _ h => h) ?_
    rintro _ ⟨⟩
    refine ⟨rfl, ⟨_, hsound.1, ?_⟩, fun j a hj ha hname => hothers record (.inl hp) j a hj ha hname⟩
    simp only [LockConfiguration.lockAtMostUntil]
    omega
  | @unlockPut i l expected rest hl hp _ =>
    have hsound := hw.sound_of hl hp
    have hcreated := hw.created i l hl
    obtain ⟨hlast, hothers⟩ := hu l hl
    refine hw.put hl hlast trivial (fun _ h => h) ?_
    intro entry hentry
    obtain ⟨record, rfl, rfl⟩ := Option.map_eq_some_iff.mp hentry
    refine ⟨rfl, ⟨_, hsound.2.2 record rfl, ?_⟩, fun j a hj ha hname =>
      hothers record (.inr ⟨expected, hp⟩) j a hj ha hname⟩
    simp only [LockConfiguration.lockAtLeastUntil]
    omega
  | @unlocked i l outcome hl hp =>
    have hsound := hw.sound_of hl hp
    refine hw.moved hl (fun j _ => keeps_unlock) (le_refl _) rfl rfl (fun r hr => ?_) ?_
    · rw [hp]
      cases outcome <;> exact hr
    · cases outcome <;> exact hsound
  | @failed i l hl =>
    exact hw.moved_only hl (fun r hr => record_afterError hr) (sound_afterError (hw.sound i l hl))
  | leaseEnded =>
    exact ⟨fun j b hb => (hw.sound j b hb).mono keeps_leaseEnded, hw.created, hw.dated, hw.owned⟩
  | evicted =>
    exact ⟨fun j b hb => (hw.sound j b hb).mono keeps_evicted, hw.created,
      fun k entry hk => hw.dated k entry (of_put_none hk),
      fun j b hb r entry hr hk hxr => hw.owned j b hb r entry hr (of_put_none hk) hxr⟩

/-- The runs in which no call is disturbed between its lock and its put. -/
def undisturbed (setup : Setup) : TransitionSystem System Event :=
  (system setup).guarded Undisturbed

theorem wellFormed_reachable (h : (undisturbed setup).Reachable s) : WellFormed s := by
  refine h.invariant ?_ (fun _ _ _ _ hs hw => wellFormed_step hs.1 hs.2 hw)
  rintro s ⟨-, hentry, hlocks⟩
  refine ⟨?_, ?_, ?_, ?_⟩
  · intro i l hl
    rw [hlocks i] at hl
    cases hl
  · intro i l hl
    rw [hlocks i] at hl
    cases hl
  · intro k entry hk
    rw [hentry k] at hk
    cases hk
  · intro i l hl
    rw [hlocks i] at hl
    cases hl

theorem cell_put (s : System) (key : String) (x : Option Entry) :
    (s.put key x).cell = update s.cell key (x.bind tenant) := by
  funext n
  by_cases hn : n = key
  · subst hn
    simp only [System.cell, System.put, update_self]
  · simp only [System.cell, System.put, update_of_ne hn]

theorem register_put (x : Option Entry) : ((s.put key x).setPhase i l phase).register =
    LockTable.register Phase.Outstanding s.clock (s.locks.setPhase i l phase)
      (update s.cell key (x.bind tenant)) :=
  congrArg _ (cell_put s key x)

theorem cell_of_entry (h : s.entry name = some entry) : s.cell name = tenant entry := by
  rw [System.cell, h, Option.bind_some]

theorem outstanding_iff : phase.Outstanding ↔ ∃ record, phase.record = some record :=
  Option.ne_none_iff_exists'

theorem not_outstanding (h : phase.record = none) : ¬ phase.Outstanding := fun ho => ho h

/-- A call that counts on no more than before. -/
theorem outstanding_of_record {before after : Phase}
    (h : ∀ record, after.record = some record → before.record = some record)
    (ho : after.Outstanding) : before.Outstanding := by
  obtain ⟨record, hrecord⟩ := outstanding_iff.mp ho
  exact outstanding_iff.mpr ⟨record, h record hrecord⟩

/-- What `lock()` may replace is free. -/
theorem free_of_putting (hw : WellFormed s) (hl : s.locks i = some l)
    (hp : l.phase = .putting record) (hlast : Last s l.config.name i) :
    s.register.Free l.config.name := by
  have hsound := hw.sound_of hl hp
  intro w d hc
  obtain ⟨entry, hentry, htenant⟩ := Option.bind_eq_some_iff.mp hc
  obtain ⟨_, hparse, heq⟩ := Option.map_eq_some_iff.mp htenant
  cases heq
  exact hsound.2 hlast entry hentry _ hparse

/-- An evicted entry stands for a deadline that is over. -/
theorem free_of_expired (hw : WellFormed s) (hentry : s.entry name = some entry)
    (hover : entry.expires ≤ s.clock) : s.register.Free name := by
  intro w d hc
  obtain ⟨d', hd', hle⟩ := hw.dated name entry hentry
  obtain ⟨d'', hd'', heq⟩ := Option.map_eq_some_iff.mp ((cell_of_entry hentry).symm.trans hc)
  cases hd'.symm.trans hd''
  cases heq
  exact le_trans hle hover

/-- What `unlock()` may change is the record of its handle, if there still is one. -/
theorem holds_or_absent (hw : WellFormed s) (hl : s.locks i = some l)
    {rest : Option HazelcastLockRecord} (hp : l.phase = .unlockPutting expected rest)
    (hlast : Last s l.config.name i) :
    s.register.Holds i l.config.name ∨ s.entry l.config.name = none := by
  have hsound := hw.sound_of hl hp
  cases hentry : s.entry l.config.name with
  | none => exact .inr rfl
  | some entry =>
    left
    have hrecord := hsound.2.1 hlast entry hentry
    have hcell : s.cell l.config.name = some (entry.writer, l.config.lockAtMostUntil) := by
      rw [cell_of_entry hentry, tenant, hrecord, hsound.1, Option.map_some]
    have hout : l.phase.Outstanding := outstanding_iff.mpr ⟨expected, by rw [hp]; rfl⟩
    exact LockTable.holds_of hl hout hcell rfl

theorem free_of_absent (h : s.entry name = none) : s.register.Free name := by
  intro w d hc
  have hcell : s.cell name = none := by rw [System.cell, h, Option.bind_none]
  cases hcell.symm.trans hc

theorem exclusive_step (hs : Step setup s e t) (hu : Undisturbed s e) (hw : WellFormed s)
    (he : Tenancy.Exclusive s.register) : Tenancy.Exclusive t.register := by
  cases hs with
  | tick hle => exact Tenancy.exclusive_step (.advance hle) he
  | @lockCalled i config hnone _ =>
    rw [System.register, ← LockTable.register_called (a := ⟨config, .locking s.clock⟩) hnone
      (not_outstanding rfl)] at he
    exact he
  | unlockCalled hl hp =>
    refine LockTable.exclusive_quiet hl (outstanding_of_record fun r hr => ?_) he
    rw [hp]
    exact hr
  | locked hl =>
    exact LockTable.exclusive_quiet hl (outstanding_of_record fun r hr => record_afterLock hr) he
  | lockGot hl =>
    refine LockTable.exclusive_quiet hl (outstanding_of_record fun r hr => ?_) he
    rw [record_lockAfterGet] at hr
    cases hr
  | unlockGot hl hp =>
    refine LockTable.exclusive_quiet hl (outstanding_of_record fun r hr => ?_) he
    rw [hp, record_unlockAfterGet hr]
    rfl
  | @lockPut i l record hl hp _ =>
    have hsound := hw.sound_of hl hp
    have htenant : tenant ⟨record, s.clock + l.config.lockAtMostFor, i⟩ =
        some (i, l.config.lockAtMostUntil) := by
      rw [tenant, hsound.1, Option.map_some]
    have hnothing : ¬ l.phase.Outstanding := not_outstanding (by rw [hp]; rfl)
    have hfree := free_of_putting hw hl hp (hu l hl).1
    rw [register_put, Option.bind_some, htenant]
    exact Tenancy.exclusive_step (LockTable.register_granted hl hnothing
      (outstanding_iff.mpr ⟨record, rfl⟩) hfree ⟨_, rfl, le_refl _⟩) he
  | @unlockPut i l expected rest hl hp _ =>
    have hgone : ¬ (Phase.leaving .unlocked).Outstanding := not_outstanding rfl
    rw [register_put]
    rcases holds_or_absent hw hl hp (hu l hl).1 with hholds | habsent
    · exact Tenancy.exclusive_step (LockTable.register_released hgone hholds) he
    · exact LockTable.exclusive_settled hgone he (free_of_absent habsent)
  | @unlocked i l outcome hl hp =>
    refine LockTable.exclusive_quiet hl (outstanding_of_record fun r hr => ?_) he
    rw [hp]
    cases outcome <;> exact hr
  | failed hl =>
    exact LockTable.exclusive_quiet hl (outstanding_of_record fun r hr => record_afterError hr) he
  | leaseEnded => exact he
  | @evicted key entry hentry hover =>
    have hlapse : Tenancy.Step s.register (.lapse key)
        (LockTable.register Phase.Outstanding s.clock s.locks (update s.cell key none)) :=
      .lapse (free_of_expired hw hentry hover)
    rw [← Option.bind_none tenant, ← cell_put s key none] at hlapse
    exact Tenancy.exclusive_step hlapse he

theorem exclusive_reachable (h : (undisturbed setup).Reachable s) :
    Tenancy.Exclusive s.register := by
  have hboth : WellFormed s ∧ Tenancy.Exclusive s.register := by
    refine h.invariant (P := fun s => WellFormed s ∧ Tenancy.Exclusive s.register) ?_ ?_
    · intro s hi
      refine ⟨wellFormed_reachable (.initial hi), fun i name d ho _ => ?_⟩
      obtain ⟨a, ha, -⟩ := LockTable.outstanding_some ho
      rw [hi.2.2 i] at ha
      cases ha
    · intro s e t _ hs hboth
      exact ⟨wellFormed_step hs.1 hs.2 hboth.1, exclusive_step hs.1 hs.2 hboth.1 hboth.2⟩
  exact hboth.2

/-- A handle not yet unlocked whose deadline is still in the future. -/
abbrev Live (s : System) (i : ℕ) (l : LockCall Phase ℤ) : Prop :=
  LockTable.Live Phase.Outstanding s.clock s.locks i l

def nightly (createdAt : ℤ) : LockConfiguration ℤ :=
  { name := "nightly", lockAtMostFor := 60000, lockAtLeastFor := 5000, createdAt }

variable {guard guard' : Option EntryLock} {found found' : Option Entry} {p q r : Phase}

end Tslock.Hazelcast
