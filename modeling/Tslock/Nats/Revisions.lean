import Tslock.Foundation.Tenancy
import Tslock.Nats.NatsLockProvider

/-! The entries of the bucket and the handles are leased cells: a revision that is still the latest
one is an entry nobody has touched since it was read. -/
namespace Tslock.Nats

open Function Foundation

variable {s t u : System} {e : Event} {as : List Event} {i j : ℕ} {l : NatsLock} {name : String}
  {entry : ℕ × KvEntry} {b : Bucket}

/-- The name a handle counts on, and until when. -/
def NatsLock.counts (l : NatsLock) : Option (String × ℤ) :=
  if l.phase.Outstanding then some (l.config.name, l.config.lockAtMostUntil) else none

def tenant (entry : ℕ × KvEntry) : Option (ℕ × ℤ) :=
  if isDeletedEntry entry.2 then none else some (entry.2.writer, bytesToLong entry.2.value)

def Bucket.cell (b : Bucket) (name : String) : Option (ℕ × ℤ) := (b.log name).latest.bind tenant

def System.register (s : System) : Tenancy.Register ℕ String ℤ where
  now := s.clock
  outstanding := Tenancy.board NatsLock.counts s.locks
  cell := s.bucket.cell

/-- The entry a call has read is one the key has had. -/
structure Read (b : Bucket) (name : String) (entry : ℕ × KvEntry) : Prop where
  logged : entry ∈ (b.log name).entries
  present : isDeletedEntry entry.2 = false

/-- What a call relies on between its requests. -/
def Phase.Sound (clock : ℤ) (b : Bucket) (config : LockConfiguration ℤ) : Phase → Prop
  | .reading now => now ≤ clock
  | .updating now entry =>
    Read b config.name entry ∧ bytesToLong entry.2.value ≤ now ∧ now ≤ clock
  | .overwriting _ entry =>
    Read b config.name entry ∧ bytesToLong entry.2.value = config.lockAtMostUntil
  | .deleting now entry =>
    Read b config.name entry ∧ bytesToLong entry.2.value = config.lockAtMostUntil ∧
      config.lockAtLeastUntil ≤ now ∧ now ≤ clock
  | .creating _ | .skipped | .rejected | .held | .unlockReading | .unlocked => True

def WellFormed (s : System) : Prop :=
  ∀ i l, s.locks i = some l → l.phase.Sound s.clock s.bucket l.config

theorem mem_put {n : String} {x : ℕ × KvEntry} {kv : KvEntry} (h : x ∈ (b.log n).entries) :
    x ∈ ((b.put name kv).log n).entries := by
  by_cases hn : n = name
  · subst hn
    simp [Bucket.put, h]
  · simpa [Bucket.put, hn] using h

theorem cell_put {kv : KvEntry} :
    (b.put name kv).cell = update b.cell name (tenant (b.revision + 1, kv)) := by
  funext n
  by_cases hn : n = name
  · subst hn
    simp [Bucket.cell, Bucket.put]
  · simp [Bucket.cell, Bucket.put, hn]

theorem Phase.Sound.mono {clock later : ℤ} {b' : Bucket} {config : LockConfiguration ℤ}
    {phase : Phase} (h : phase.Sound clock b config) (hle : clock ≤ later)
    (hlog : ∀ n x, x ∈ (b.log n).entries → x ∈ (b'.log n).entries) :
    phase.Sound later b' config := by
  have hread : ∀ entry, Read b config.name entry → Read b' config.name entry :=
    fun entry hr => ⟨hlog _ _ hr.logged, hr.present⟩
  cases phase with
  | reading => exact le_trans h hle
  | updating => exact ⟨hread _ h.1, h.2.1, le_trans h.2.2 hle⟩
  | overwriting => exact ⟨hread _ h.1, h.2⟩
  | deleting => exact ⟨hread _ h.1, h.2.1, h.2.2.1, le_trans h.2.2.2 hle⟩
  | creating | skipped | rejected | held | unlockReading | unlocked => trivial

theorem sound_lockAfterGet {clock now : ℤ} {config : LockConfiguration ℤ}
    {seen : Option (ℕ × KvEntry)} (hnow : now ≤ clock)
    (hseen : ∀ x ∈ seen, x ∈ (b.log config.name).entries) :
    (lockAfterGet now seen).Sound clock b config := by
  match seen with
  | none => trivial
  | some entry =>
    simp only [lockAfterGet]
    split_ifs with hdeleted hlive
    · trivial
    · trivial
    · exact ⟨⟨hseen _ rfl, by simpa using hdeleted⟩, not_lt.mp hlive, hnow⟩

theorem sound_unlockAfterGet {clock : ℤ} {config : LockConfiguration ℤ}
    {seen : Option (ℕ × KvEntry)} (hseen : ∀ x ∈ seen, x ∈ (b.log config.name).entries) :
    (unlockAfterGet config clock seen).Sound clock b config := by
  match seen with
  | none => trivial
  | some entry =>
    simp only [unlockAfterGet]
    split_ifs with hdeleted hforeign hmin
    · trivial
    · trivial
    · exact ⟨⟨hseen _ rfl, by simpa using hdeleted⟩, by simpa using hforeign⟩
    · exact ⟨⟨hseen _ rfl, by simpa using hdeleted⟩, by simpa using hforeign, not_lt.mp hmin,
        le_refl _⟩

theorem sound_afterWrite {clock : ℤ} {asked : Bucket → Prop} {kv : KvEntry}
    (hp : Pending i l.config l.phase asked kv) :
    (afterWrite l.phase).Sound clock b l.config := by
  generalize l.phase = phase at hp ⊢
  cases hp with
  | create | update | overwrite | delete => trivial

theorem sound_afterError {clock : ℤ} {asked : Bucket → Prop} {kv : KvEntry} {err : NatsError}
    (hp : Pending i l.config l.phase asked kv) :
    (afterError err l.phase).Sound clock b l.config := by
  generalize l.phase = phase at hp ⊢
  cases hp with
  | create | update =>
    simp only [afterError, lockAfterError]
    split_ifs <;> trivial
  | overwrite | delete =>
    simp only [afterError, unlockAfterError]
    split_ifs <;> trivial

theorem wellFormed_setPhase {phase : Phase} (hw : WellFormed s)
    (hp : phase.Sound s.clock s.bucket l.config) : WellFormed (s.setPhase i l phase) := by
  intro j k hk
  rcases Tenancy.of_insert hk with ⟨rfl, rfl⟩ | ⟨_, hold⟩
  · exact hp
  · exact hw j k hold

theorem wellFormed_step (hs : Step s e t) (hw : WellFormed s) : WellFormed t := by
  cases hs with
  | tick hle => exact fun i l hl => (hw i l hl).mono hle fun _ _ hx => hx
  | @lockCalled i config _ =>
    exact wellFormed_setPhase (l := ⟨config, .reading s.clock⟩) hw (le_refl s.clock)
  | lockGot hl hp hseen =>
    have hnow := hw _ _ hl
    rw [hp] at hnow
    exact wellFormed_setPhase hw (sound_lockAfterGet hnow hseen)
  | unlockCalled => exact wellFormed_setPhase hw trivial
  | unlockGot _ _ hseen => exact wellFormed_setPhase hw (sound_unlockAfterGet hseen)
  | applied hl hp _ =>
    refine wellFormed_setPhase ?_ (sound_afterWrite hp)
    exact fun i l hl => (hw i l hl).mono (le_refl _) fun _ _ hx => mem_put hx
  | conflict hl hp => exact wellFormed_setPhase hw (sound_afterError hp)
  | lockFails => exact wellFormed_setPhase hw trivial
  | unlockFails => exact wellFormed_setPhase hw trivial

theorem wellFormed_reachable (h : system.Reachable s) : WellFormed s := by
  refine h.invariant ?_ (fun _ _ _ _ hs hw => wellFormed_step hs hw)
  rintro s ⟨-, hl⟩ i l h
  rw [hl i] at h
  cases h

theorem outstanding_of (hl : s.locks i = some l) : s.register.outstanding i = l.counts :=
  Tenancy.board_some hl

theorem counts_of (ho : l.phase.Outstanding) :
    l.counts = some (l.config.name, l.config.lockAtMostUntil) := if_pos ho

theorem counts_none (ho : ¬ l.phase.Outstanding) : l.counts = none := if_neg ho

theorem register_setPhase {phase : Phase} : (s.setPhase i l phase).register =
    { s.register with
      outstanding := update s.register.outstanding i ({ l with phase } : NatsLock).counts } := by
  simp only [System.register, System.setPhase, System.setLock]
  rw [Tenancy.board_update, Option.bind_some]

/-- A call that goes on, or ends, without a write and without a change of what it counts on. -/
theorem register_same {phase : Phase} (hl : s.locks i = some l)
    (ho : phase.Outstanding ↔ l.phase.Outstanding) :
    (s.setPhase i l phase).register = s.register := by
  have hcounts : ({ l with phase } : NatsLock).counts = l.counts := by
    simp only [NatsLock.counts, ho]
  rw [register_setPhase, hcounts, ← outstanding_of hl, update_eq_self]

/-- A handle that is given up without a write. -/
theorem register_dropped {phase : Phase} (ho : ¬ phase.Outstanding) :
    Tenancy.Step s.register (.drop i) (s.setPhase i l phase).register := by
  rw [register_setPhase, counts_none (l := { l with phase }) ho]
  exact .drop

theorem register_applied {kv : KvEntry} {phase : Phase} :
    ({ s with bucket := s.bucket.put name kv }.setPhase i l phase).register =
      { s.register with
        outstanding := update s.register.outstanding i ({ l with phase } : NatsLock).counts
        cell := update s.register.cell name (tenant (s.bucket.revision + 1, kv)) } := by
  rw [register_setPhase]
  simp only [System.register, cell_put]

/-- The latest entry has the revision that was read, so it is the entry that was read. -/
theorem cell_of_read (hr : Read b name entry) (hlatest : b.LatestIs name entry.1) :
    (b.log name).latest = some entry ∧
      b.cell name = some (entry.2.writer, bytesToLong entry.2.value) := by
  obtain ⟨y, hy, hrev⟩ := Option.map_eq_some_iff.mp hlatest
  obtain rfl := RevisionLog.eq_latest hy hr.logged hrev
  refine ⟨hy, ?_⟩
  rw [Bucket.cell, hy, Option.bind_some, tenant, hr.present]
  rfl

theorem free_of_creatable (h : s.bucket.Creatable name) : s.register.Free name := by
  intro w t hc
  obtain ⟨y, hy, htenant⟩ := Option.bind_eq_some_iff.mp hc
  rw [tenant, if_pos (h y hy)] at htenant
  cases htenant

theorem free_of_read (hr : Read s.bucket name entry) (hlatest : s.bucket.LatestIs name entry.1)
    (hover : bytesToLong entry.2.value ≤ s.clock) : s.register.Free name := by
  intro w t hc
  cases hc.symm.trans (cell_of_read hr hlatest).2
  exact hover

/-- The entry still carries the deadline of the handle. -/
theorem holds_of_read (hl : s.locks i = some l) (ho : l.phase.Outstanding)
    (hr : Read s.bucket l.config.name entry) (hlatest : s.bucket.LatestIs l.config.name entry.1)
    (hown : bytesToLong entry.2.value = l.config.lockAtMostUntil) :
    s.register.Holds i l.config.name :=
  ⟨_, _, _, (outstanding_of hl).trans (counts_of ho), (cell_of_read hr hlatest).2, .inr hown⟩

/-- A write of `lock()` grants the name. -/
theorem register_granted {value : Buffer} {phase : Phase} (hl : s.locks i = some l)
    (ho : ¬ l.phase.Outstanding) (hfree : s.register.Free l.config.name)
    (hvalue : longToBytes l.config.lockAtMostUntil = some value) (hheld : phase = .held) :
    Tenancy.Step s.register (.grant i l.config.name)
      ({ s with bucket := s.bucket.put l.config.name ⟨some .put, value, i⟩ }.setPhase i l
        phase).register := by
  subst hheld
  rw [register_applied, counts_of (l := { l with phase := .held }) trivial]
  refine .grant ((outstanding_of hl).trans (counts_none ho)) hfree ?_
  intro _
  refine ⟨l.config.lockAtMostUntil, ?_, le_refl _⟩
  simp only [tenant, bytesToLong_longToBytes hvalue]
  rfl

/-- A write of `unlock()` releases it. -/
theorem register_released {kv : KvEntry} {phase : Phase}
    (hholds : s.register.Holds i l.config.name) (hunlocked : phase = .unlocked) :
    Tenancy.Step s.register (.release i l.config.name)
      ({ s with bucket := s.bucket.put l.config.name kv }.setPhase i l phase).register := by
  subst hunlocked
  rw [register_applied, counts_none (l := { l with phase := .unlocked }) not_false]
  exact .release hholds

theorem register_write {asked : Bucket → Prop} {kv : KvEntry} (hw : WellFormed s)
    (hl : s.locks i = some l) (hp : Pending i l.config l.phase asked kv) (ha : asked s.bucket) :
    ∃ b, Tenancy.Step s.register b
      ({ s with bucket := s.bucket.put l.config.name kv }.setPhase i l
        (afterWrite l.phase)).register := by
  have hsound := hw i l hl
  generalize hphase : l.phase = phase at hp hsound
  cases hp with
  | create hvalue =>
    refine ⟨_, register_granted hl ?_ (free_of_creatable ha) hvalue rfl⟩
    rw [hphase]
    exact not_false
  | update hvalue =>
    refine ⟨_, register_granted hl ?_ (free_of_read hsound.1 ha ?_) hvalue rfl⟩
    · rw [hphase]
      exact not_false
    · exact le_trans hsound.2.1 hsound.2.2
  | overwrite hvalue =>
    refine ⟨_, register_released (holds_of_read hl ?_ hsound.1 ha hsound.2) rfl⟩
    rw [hphase]
    trivial
  | delete =>
    refine ⟨_, register_released (holds_of_read hl ?_ hsound.1 ha hsound.2.1) rfl⟩
    rw [hphase]
    trivial

theorem register_failed {phase : Phase} (hl : s.locks i = some l)
    (ho : phase.Outstanding → l.phase.Outstanding) :
    (s.setPhase i l phase).register = s.register ∨
      ∃ b, Tenancy.Step s.register b (s.setPhase i l phase).register := by
  by_cases hphase : phase.Outstanding
  · exact .inl (register_same hl ⟨ho, fun _ => hphase⟩)
  · exact .inr ⟨_, register_dropped hphase⟩

theorem lockAfterGet_outstanding {now : ℤ} {seen : Option (ℕ × KvEntry)} :
    ¬ (lockAfterGet now seen).Outstanding := by
  match seen with
  | none => exact not_false
  | some entry =>
    simp only [lockAfterGet]
    split_ifs <;> exact not_false

theorem afterError_outstanding {asked : Bucket → Prop} {kv : KvEntry} {err : NatsError}
    (hp : Pending i l.config l.phase asked kv) (ho : (afterError err l.phase).Outstanding) :
    l.phase.Outstanding := by
  generalize l.phase = phase at hp ho ⊢
  cases hp with
  | create | update =>
    simp only [afterError, lockAfterError] at ho
    split_ifs at ho <;> exact ho
  | overwrite | delete => trivial

/-- Bucket and handles behave as leased cells in every run. -/
theorem register_abstraction : system.Abstraction Tenancy.system System.register where
  initial s h i := Tenancy.board_none (h.2 i)
  step s e t hr hs := by
    have hw := wellFormed_reachable hr
    cases hs with
    | tick hle => exact .inr ⟨.advance _, .advance hle⟩
    | @lockCalled i config value hnone =>
      left
      have hnothing : s.register.outstanding i = none := Tenancy.board_none hnone
      have hcall : (s.setLock i ⟨config, .reading s.clock⟩).register = { s.register with
          outstanding := update s.register.outstanding i
            (⟨config, .reading s.clock⟩ : NatsLock).counts } :=
        register_setPhase (l := ⟨config, .reading s.clock⟩)
      exact hcall.trans (by rw [update_eq_self_iff.mpr hnothing.symm])
    | lockGot hl hp =>
      refine register_failed hl fun ho => ?_
      exact absurd ho lockAfterGet_outstanding
    | unlockCalled hl hp =>
      refine register_failed hl fun _ => ?_
      rw [hp]
      trivial
    | unlockGot hl hp =>
      refine register_failed hl fun _ => ?_
      rw [hp]
      trivial
    | applied hl hp ha => exact .inr (register_write hw hl hp ha)
    | conflict hl hp => exact register_failed hl (afterError_outstanding hp)
    | lockFails hl => exact register_failed hl fun ho => ho.elim
    | unlockFails hl ho => exact register_failed hl fun _ => ho

theorem register_exclusive (h : system.Reachable s) : Tenancy.Exclusive s.register :=
  Tenancy.exclusive_reachable (register_abstraction.reachable h)

/-- A handle not yet unlocked whose deadline is still in the future. -/
structure Live (s : System) (i : ℕ) (l : NatsLock) : Prop where
  lock : s.locks i = some l
  outstanding : l.phase.Outstanding
  unexpired : s.clock < l.config.lockAtMostUntil

theorem Live.register (hl : Live s i l) : s.register.Live i l.config.name :=
  ⟨_, (outstanding_of hl.lock).trans (counts_of hl.outstanding), hl.unexpired⟩

theorem outstanding_some {d : ℤ} (h : s.register.outstanding i = some (name, d)) :
    ∃ l, s.locks i = some l ∧ l.phase.Outstanding ∧ l.config.name = name := by
  obtain ⟨l, hl, hcounts⟩ := Option.bind_eq_some_iff.mp h
  by_cases ho : l.phase.Outstanding
  · rw [counts_of ho] at hcounts
    cases hcounts
    exact ⟨l, hl, ho, rfl⟩
  · rw [counts_none ho] at hcounts
    cases hcounts

/-- A write of `unlock()` meets its own entry, or one whose time is over. -/
theorem unlock_own (h : system.Reachable s) (hs : Step s (.applied i) t) (hl : s.locks i = some l)
    (ho : l.phase.Outstanding) (hx : (s.bucket.log l.config.name).latest = some entry)
    (hpresent : isDeletedEntry entry.2 = false) :
    entry.2.writer = i ∨ bytesToLong entry.2.value ≤ s.clock := by
  have hcell : s.register.cell l.config.name =
      some (entry.2.writer, bytesToLong entry.2.value) := by
    have hbind : s.bucket.cell l.config.name = tenant entry := by
      rw [Bucket.cell, hx, Option.bind_some]
    exact hbind.trans (by rw [tenant, hpresent]; rfl)
  cases hs with
  | @applied _ k asked kv hk hp ha =>
    cases hk.symm.trans hl
    have hsound := wellFormed_reachable h i l hl
    refine (register_exclusive h).tenant ?_ hcell
    generalize hphase : l.phase = phase at hp hsound
    cases hp with
    | create | update =>
      rw [hphase] at ho
      exact ho.elim
    | overwrite => exact holds_of_read hl ho hsound.1 ha hsound.2
    | delete => exact holds_of_read hl ho hsound.1 ha hsound.2.1

/-- After a write of `unlock()` the minimum hold is over, or the entry stands for it. -/
theorem left_of_unlocked (h : system.Reachable s) (hs : Step s (.applied i) t)
    (hl : s.locks i = some l) (ho : l.phase.Outstanding)
    (hmin : s.clock < l.config.lockAtLeastUntil) :
    Tenancy.Left t.register i l.config.name l.config.lockAtLeastUntil := by
  cases hs with
  | @applied _ k asked kv hk hp ha =>
    cases hk.symm.trans hl
    have hsound := wellFormed_reachable h i l hl
    generalize hphase : l.phase = phase at hp hsound
    cases hp with
    | create | update =>
      rw [hphase] at ho
      exact ho.elim
    | @overwrite _ _ value hvalue =>
      refine ⟨?_, ?_⟩
      · rw [register_applied]
        refine (update_self _ _ _).trans ?_
        simp only [tenant, bytesToLong_longToBytes hvalue]
        rfl
      · intro d hd
        rw [register_applied] at hd
        exact (Option.some_ne_none _) (hd.symm.trans (update_self _ _ _))
    | delete => exact absurd hmin (not_lt_of_ge (le_trans hsound.2.2.1 hsound.2.2.2))

def nightly : LockConfiguration ℤ :=
  { name := "nightly", lockAtMostFor := 60000, lockAtLeastFor := 5000, createdAt := 0 }

def nightlyEntry : KvEntry := ⟨some .put, 60000, 0⟩

def nightlyCalled : System := ⟨0, .empty, update (fun _ => none) 0 (some ⟨nightly, .reading 0⟩)⟩

def nightlyHeld : System :=
  { nightlyCalled.setPhase 0 ⟨nightly, .reading 0⟩ (.creating 0) with
    bucket := Bucket.empty.put "nightly" nightlyEntry }.setPhase 0 ⟨nightly, .creating 0⟩ .held

/-- The handle is about to write the end of its minimum hold. -/
def nightlyUnlocking : System :=
  (nightlyHeld.setPhase 0 ⟨nightly, .held⟩ .unlockReading).setPhase 0 ⟨nightly, .unlockReading⟩
    (.overwriting 0 (1, nightlyEntry))

theorem nightlyUnlocking_reachable : system.Reachable nightlyUnlocking := by
  have h₀ : system.Reachable ⟨0, .empty, fun _ => none⟩ := .initial ⟨rfl, fun _ => rfl⟩
  have hcalled : Step ⟨0, .empty, fun _ => none⟩ (.called 0) nightlyCalled :=
    .lockCalled rfl (by decide) rfl
  have hgot : Step nightlyCalled (.got 0)
      (nightlyCalled.setPhase 0 ⟨nightly, .reading 0⟩ (lockAfterGet 0 none)) :=
    .lockGot rfl rfl nofun
  have happlied : Step (nightlyCalled.setPhase 0 ⟨nightly, .reading 0⟩ (lockAfterGet 0 none))
      (.applied 0) nightlyHeld :=
    .applied (l := ⟨nightly, .creating 0⟩) rfl (.create rfl) nofun
  have hunlock : Step nightlyHeld (.called 0)
      (nightlyHeld.setPhase 0 ⟨nightly, .held⟩ .unlockReading) := .unlockCalled rfl rfl
  have hread : Step (nightlyHeld.setPhase 0 ⟨nightly, .held⟩ .unlockReading) (.got 0)
      ((nightlyHeld.setPhase 0 ⟨nightly, .held⟩ .unlockReading).setPhase 0
        ⟨nightly, .unlockReading⟩ (unlockAfterGet nightly 0 (some (1, nightlyEntry)))) := by
    refine .unlockGot rfl rfl ?_
    intro x hx
    obtain rfl := Option.mem_some.mp hx
    exact RevisionLog.mem_of_latest rfl
  exact ((((h₀.step hcalled).step hgot).step happlied).step hunlock).step hread

end Tslock.Nats
