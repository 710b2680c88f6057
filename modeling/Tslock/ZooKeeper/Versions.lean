import Mathlib.Data.List.Infix
import Tslock.ZooKeeper.ZooKeeperAccessor

/-! The nodes and the handles are leased cells: a node that still has the version that was read has
the data that was read. -/
namespace Tslock.ZooKeeper

open Function Foundation

variable {s t u : System} {e : Event} {as : List Event} {i j : ℕ} {l : LockCall Phase ℤ}
  {name iso : String} {x : ℕ × NodeData} {q : Request} {code : ℤ} {err : ZooKeeperError}

/-- Who has written the node last, and the deadline its data stands for. -/
def tenant (x : ℕ × NodeData) : Option (ℕ × ℤ) :=
  (JsDate.parse x.2.data).map fun lockUntil => (x.2.writer, lockUntil)

def System.cell (s : System) (name : String) : Option (ℕ × ℤ) := (s.latest name).bind tenant

def System.register (s : System) : Tenancy.Register ℕ String ℤ :=
  LockTable.register Phase.Outstanding s.clock s.locks s.cell

/-- What a `lock()` call computes before its first request. -/
structure LockRequest.Sound (r : LockRequest) (clock : ℤ) (config : LockConfiguration ℤ) :
    Prop where
  iso : JsDate.toIsoString config.lockAtMostUntil = some r.isoLockAtMostUntil
  now : r.now ≤ clock

/-- An unlock never writes an instant within the minimum hold. -/
def UnlockText (config : LockConfiguration ℤ) (isoUnlock : String) : Prop :=
  ∃ unlockTime, JsDate.toIsoString unlockTime = some isoUnlock ∧
    config.lockAtLeastUntil ≤ unlockTime

/-- What a call relies on between its requests. -/
def Phase.Sound (s : System) (config : LockConfiguration ℤ) : Phase → Prop
  | .reading r => r.Sound s.clock config
  | .setting r x => r.Sound s.clock config ∧ x ∈ (s.node config.name).entries ∧
    ∀ lockUntil, JsDate.parse x.2.data = some lockUntil → lockUntil ≤ r.now
  | .ensuring r => r.Sound s.clock config
  | .creating r => r.Sound s.clock config ∧ s.basePath = true
  | .unlockReading expected isoUnlock =>
    JsDate.toIsoString config.lockAtMostUntil = some expected ∧ UnlockText config isoUnlock
  | .unlockSetting isoUnlock x => x ∈ (s.node config.name).entries ∧
    JsDate.toIsoString config.lockAtMostUntil = some x.2.data ∧ UnlockText config isoUnlock
  | .skipped | .rejected | .held | .unlocked => True

structure WellFormed (s : System) : Prop where
  sound : ∀ i l, s.locks i = some l → l.phase.Sound s l.config
  ensured : ∀ accessor, s.basePathEnsured accessor = true → s.basePath = true
  dated : ∀ name, ∀ x ∈ (s.node name).entries, ∃ d, JsDate.toIsoString d = some x.2.data

theorem WellFormed.sound_of {phase : Phase} (hw : WellFormed s) (hl : s.locks i = some l)
    (hp : l.phase = phase) : phase.Sound s l.config := by
  rw [← hp]
  exact hw.sound i l hl

/-- A state in which everything that has been there still is, and the clock is not earlier. -/
structure Extends (s t : System) : Prop where
  clock : s.clock ≤ t.clock
  basePath : s.basePath = true → t.basePath = true
  node : ∀ name, ∀ x ∈ (s.node name).entries, x ∈ (t.node name).entries

theorem LockRequest.Sound.mono {r : LockRequest} {clock later : ℤ} {config : LockConfiguration ℤ}
    (h : r.Sound clock config) (hle : clock ≤ later) : r.Sound later config :=
  ⟨h.iso, le_trans h.now hle⟩

theorem Phase.Sound.mono {config : LockConfiguration ℤ} {phase : Phase}
    (h : phase.Sound s config) (hst : Extends s t) : phase.Sound t config := by
  cases phase with
  | reading | ensuring => exact LockRequest.Sound.mono h hst.clock
  | setting => exact ⟨h.1.mono hst.clock, hst.node _ _ h.2.1, h.2.2⟩
  | creating => exact ⟨h.1.mono hst.clock, hst.basePath h.2⟩
  | unlockReading => exact h
  | unlockSetting => exact ⟨hst.node _ _ h.1, h.2⟩
  | skipped | rejected | held | unlocked => trivial

theorem mem_write {data : NodeData} {n : String} (hx : x ∈ (s.node n).entries) :
    x ∈ ((s.write name data).node n).entries := by
  by_cases hn : n = name
  · subst hn
    simp [System.write, RevisionLog.append, hx]
  · simpa [System.write, hn] using hx

theorem of_mem_write {data : NodeData} {n : String}
    (hx : x ∈ ((s.write name data).node n).entries) :
    x ∈ (s.node n).entries ∨ x.2 = data := by
  by_cases hn : n = name
  · subst hn
    simp only [System.write, update_self, RevisionLog.append, RevisionLog.mem_push] at hx
    rcases hx with rfl | hold
    · exact .inr rfl
    · exact .inl hold
  · left
    simpa [System.write, hn] using hx

theorem extends_write {data : NodeData} : Extends s (s.write name data) :=
  ⟨le_refl _, fun hb => hb, fun _ _ hx => mem_write hx⟩

/-- A step that only moves one call, with what it has just changed elsewhere. -/
theorem wellFormed_setPhase {phase : Phase} (hw : WellFormed s) (hst : Extends s t)
    (hlocks : t.locks = s.locks)
    (hensured : ∀ accessor, t.basePathEnsured accessor = true → t.basePath = true)
    (hdated : ∀ name, ∀ x ∈ (t.node name).entries, ∃ d, JsDate.toIsoString d = some x.2.data)
    (hp : phase.Sound t l.config) : WellFormed (t.setPhase i l phase) := by
  refine ⟨?_, hensured, hdated⟩
  refine LockTable.of_setPhase (fun j b hb => ?_) hp
  rw [hlocks] at hb
  exact (hw.sound j b hb).mono ⟨hst.clock, hst.basePath, hst.node⟩

/-- A step that moves one call and changes nothing else. -/
theorem WellFormed.moved {phase : Phase} (hw : WellFormed s) (hp : phase.Sound s l.config) :
    WellFormed (s.setPhase i l phase) :=
  wellFormed_setPhase hw ⟨le_refl _, fun hb => hb, fun _ _ hx => hx⟩ rfl hw.ensured hw.dated hp

theorem sound_lockAfterGet {r : LockRequest} (hr : r.Sound s.clock l.config)
    (hx : x ∈ (s.node l.config.name).entries) : (lockAfterGet r x).Sound s l.config := by
  unfold lockAfterGet
  cases hparse : JsDate.parse x.2.data with
  | none =>
    refine ⟨hr, hx, fun d hd => ?_⟩
    cases hparse.symm.trans hd
  | some d =>
    by_cases hlive : d > r.now
    · simp only [hlive, if_true]
      trivial
    · simp only [hlive, if_false]
      refine ⟨hr, hx, fun d' hd' => ?_⟩
      cases hparse.symm.trans hd'
      exact not_lt.mp hlive

theorem sound_lockAfterError {r : LockRequest} (hw : WellFormed s)
    (hr : r.Sound s.clock l.config) :
    (lockAfterError (s.basePathEnsured r.accessor) r err).Sound s l.config := by
  unfold lockAfterError ensureBasePath
  split_ifs with hnode hensured
  · exact ⟨hr, hw.ensured _ hensured⟩
  · exact hr
  · trivial
  · trivial

theorem sound_afterError (hw : WellFormed s) (hl : s.locks i = some l) :
    (afterError s.basePathEnsured err l.phase).Sound s l.config := by
  have hsound := hw.sound i l hl
  cases hphase : l.phase with
  | reading =>
    rw [hphase] at hsound
    exact sound_lockAfterError hw hsound
  | setting =>
    rw [hphase] at hsound
    exact sound_lockAfterError hw hsound.1
  | creating =>
    simp only [afterError, lockAfterCreateError]
    split_ifs <;> trivial
  | unlockReading | unlockSetting =>
    simp only [afterError, unlockAfterError]
    split_ifs <;> trivial
  | ensuring | skipped | rejected | held | unlocked => trivial

theorem sound_unlockAfterGet {expected isoUnlock : String}
    (hexpected : JsDate.toIsoString l.config.lockAtMostUntil = some expected)
    (hunlock : UnlockText l.config isoUnlock) (hx : x ∈ (s.node l.config.name).entries) :
    (unlockAfterGet expected isoUnlock x).Sound s l.config := by
  unfold unlockAfterGet
  split_ifs with hforeign
  · trivial
  · rw [not_not] at hforeign
    exact ⟨hx, hforeign ▸ hexpected, hunlock⟩

/-- What a call writes, and which instant it stands for. -/
theorem write_dated (hw : WellFormed s) (hl : s.locks i = some l) {data : NodeData}
    (hq : l.phase.write i = some (q, data)) :
    data.writer = i ∧ ∃ d, JsDate.toIsoString d = some data.data ∧
      if l.phase.Outstanding then l.config.lockAtLeastUntil ≤ d
      else d = l.config.lockAtMostUntil := by
  have hsound := hw.sound i l hl
  cases hphase : l.phase with
  | setting | creating =>
    rw [hphase] at hq hsound
    cases hq
    exact ⟨rfl, _, hsound.1.iso, rfl⟩
  | unlockSetting =>
    rw [hphase] at hq hsound
    cases hq
    obtain ⟨d, hd, hmin⟩ := hsound.2.2
    exact ⟨rfl, d, hd, hmin⟩
  | reading | ensuring | skipped | rejected | held | unlockReading | unlocked =>
    rw [hphase] at hq
    cases hq

theorem sound_afterWrite {data : NodeData} (hq : l.phase.write i = some (q, data)) :
    (afterWrite l.phase).Sound t l.config := by
  cases hphase : l.phase with
  | setting | creating | unlockSetting => trivial
  | reading | ensuring | skipped | rejected | held | unlockReading | unlocked =>
    rw [hphase] at hq
    cases hq

theorem wellFormed_step (hs : Step s e t) (hw : WellFormed s) : WellFormed t := by
  cases hs with
  | tick hle =>
    refine ⟨fun j b hb => (hw.sound j b hb).mono ?_, hw.ensured, hw.dated⟩
    exact ⟨hle, fun hb => hb, fun _ _ hx => hx⟩
  | lockCalled _ _ hiso =>
    refine ⟨LockTable.of_insert (fun j b hb => hw.sound j b hb) ?_, hw.ensured, hw.dated⟩
    exact ⟨hiso, le_refl _⟩
  | @lockGot i l _ _ hl hp hx =>
    have hsound := hw.sound_of hl hp
    exact hw.moved (sound_lockAfterGet hsound hx)
  | unlockCalled _ _ hexpected hunlock =>
    exact hw.moved ⟨hexpected, _, hunlock, le_max_right _ _⟩
  | @unlockGot i l _ _ _ hl hp hx =>
    have hsound := hw.sound_of hl hp
    exact hw.moved (sound_unlockAfterGet hsound.1 hsound.2 hx)
  | gotNoNode hl => exact hw.moved (sound_afterError hw hl)
  | @ensured i l r hl hp =>
    have hsound := hw.sound_of hl hp
    refine wellFormed_setPhase hw ⟨le_refl _, fun _ => rfl, fun _ _ hx => hx⟩ rfl (fun _ _ => rfl)
      hw.dated ?_
    exact ⟨hsound, rfl⟩
  | applied hl hq _ =>
    refine wellFormed_setPhase hw extends_write rfl hw.ensured ?_ (sound_afterWrite hq)
    intro n x hx
    rcases of_mem_write hx with hold | rfl
    · exact hw.dated n x hold
    · obtain ⟨-, d, hd, -⟩ := write_dated hw hl hq
      exact ⟨d, hd⟩
  | refused hl => exact hw.moved (sound_afterError hw hl)
  | lockFails => exact hw.moved trivial
  | unlockFails => exact hw.moved trivial

theorem wellFormed_reachable (h : system.Reachable s) : WellFormed s := by
  refine h.invariant ?_ (fun _ _ _ _ hs hw => wellFormed_step hs hw)
  rintro s ⟨-, hnode, hensured, hlocks⟩
  refine ⟨?_, ?_, ?_⟩
  · intro i l hl
    rw [hlocks i] at hl
    cases hl
  · intro accessor ha
    rw [hensured accessor] at ha
    cases ha
  · intro n x hx
    rw [hnode n] at hx
    cases hx

theorem refusal_set {above : Bool} {latest : Option (ℕ × NodeData)} {version : ℕ}
    (h : (Request.set version).refusal above latest = none) :
    ∃ y, latest = some y ∧ y.1 = version := by
  cases latest with
  | none => cases h
  | some y =>
    simp only [Request.refusal] at h
    split_ifs at h with hversion
    exact ⟨y, rfl, hversion⟩

theorem refusal_create {above : Bool} {latest : Option (ℕ × NodeData)}
    (h : Request.create.refusal above latest = none) : latest = none := by
  cases latest with
  | none => rfl
  | some y =>
    simp only [Request.refusal] at h
    split_ifs at h

/-- The node has the version that was read, so it is the node that was read. -/
theorem latest_of_set {above : Bool} (hx : x ∈ (s.node name).entries)
    (h : (Request.set x.1).refusal above (s.latest name) = none) : s.latest name = some x := by
  obtain ⟨y, hy, hversion⟩ := refusal_set h
  rw [hy, RevisionLog.eq_latest hy hx hversion]

theorem cell_of_latest (h : s.latest name = some x) : s.cell name = tenant x := by
  rw [System.cell, h, Option.bind_some]

theorem tenant_of_iso {d : ℤ} (h : JsDate.toIsoString d = some x.2.data) :
    tenant x = some (x.2.writer, d) := by
  rw [tenant, JsDate.parse_toIsoString h, Option.map_some]

theorem cell_write {data : NodeData} :
    (s.write name data).cell = update s.cell name (tenant ((s.node name).next, data)) := by
  funext n
  by_cases hn : n = name
  · subst hn
    simp [System.cell, System.latest, System.write, RevisionLog.append]
  · simp [System.cell, System.latest, System.write, hn]

/-- What `lock()` may replace is free. -/
theorem free_of_set {now : ℤ} (hx : s.latest name = some x) (hnow : now ≤ s.clock)
    (hover : ∀ d, JsDate.parse x.2.data = some d → d ≤ now) : s.register.Free name := by
  intro w d hc
  obtain ⟨d', hd', heq⟩ := Option.map_eq_some_iff.mp ((cell_of_latest hx).symm.trans hc)
  cases heq
  exact le_trans (hover d hd') hnow

theorem free_of_absent (hx : s.latest name = none) : s.register.Free name := by
  intro w d hc
  have hcell : s.cell name = none := by rw [System.cell, hx, Option.bind_none]
  cases hcell.symm.trans hc

/-- The write of a `lock()` call finds its node free. -/
theorem free_of_applied (hw : WellFormed s) (hl : s.locks i = some l) {data : NodeData}
    (hq : l.phase.write i = some (q, data))
    (hok : q.refusal (s.parentThere l.config.name) (s.latest l.config.name) = none)
    (ho : ¬ l.phase.Outstanding) :
    s.register.Free l.config.name := by
  have hsound := hw.sound i l hl
  cases hphase : l.phase with
  | setting =>
    rw [hphase] at hq hsound
    cases hq
    exact free_of_set (latest_of_set hsound.2.1 hok) hsound.1.now hsound.2.2
  | creating =>
    rw [hphase] at hq
    cases hq
    exact free_of_absent (refusal_create hok)
  | unlockSetting =>
    rw [hphase] at ho
    exact absurd trivial ho
  | reading | ensuring | skipped | rejected | held | unlockReading | unlocked =>
    rw [hphase] at hq
    cases hq

/-- The write of an `unlock()` call finds the deadline of its handle. -/
theorem holds_of_applied (hw : WellFormed s) (hl : s.locks i = some l) {data : NodeData}
    (hq : l.phase.write i = some (q, data))
    (hok : q.refusal (s.parentThere l.config.name) (s.latest l.config.name) = none)
    (ho : l.phase.Outstanding) :
    s.register.Holds i l.config.name := by
  have hsound := hw.sound i l hl
  cases hphase : l.phase with
  | unlockSetting =>
    rw [hphase] at hq hsound
    cases hq
    have hcell := (cell_of_latest (latest_of_set hsound.1 hok)).trans (tenant_of_iso hsound.2.1)
    exact LockTable.holds_of hl ho hcell rfl
  | setting | creating =>
    rw [hphase] at ho
    exact ho.elim
  | reading | ensuring | skipped | rejected | held | unlockReading | unlocked =>
    rw [hphase] at hq
    cases hq

theorem outstanding_afterWrite {data : NodeData} (hq : l.phase.write i = some (q, data)) :
    (afterWrite l.phase).Outstanding ↔ ¬ l.phase.Outstanding := by
  cases hphase : l.phase with
  | setting | creating => exact ⟨fun _ => not_false, fun _ => trivial⟩
  | unlockSetting => exact ⟨False.elim, fun h => h trivial⟩
  | reading | ensuring | skipped | rejected | held | unlockReading | unlocked =>
    rw [hphase] at hq
    cases hq

/-- The cell after a write: its writer, and an instant the call may count on. -/
theorem cell_applied (hw : WellFormed s) (hl : s.locks i = some l) {data : NodeData}
    (hq : l.phase.write i = some (q, data)) :
    ∃ d, (s.write l.config.name data).cell = update s.cell l.config.name (some (i, d)) ∧
      if l.phase.Outstanding then l.config.lockAtLeastUntil ≤ d
      else d = l.config.lockAtMostUntil := by
  obtain ⟨hwriter, d, hd, hbound⟩ := write_dated hw hl hq
  refine ⟨d, ?_, hbound⟩
  rw [cell_write, tenant_of_iso (x := ((s.node l.config.name).next, data)) hd, hwriter]

theorem register_applied (hw : WellFormed s) (hl : s.locks i = some l) {data : NodeData}
    (hq : l.phase.write i = some (q, data))
    (hok : q.refusal (s.parentThere l.config.name) (s.latest l.config.name) = none) :
    ∃ a, Tenancy.Step s.register a
      ((s.write l.config.name data).setPhase i l (afterWrite l.phase)).register := by
  obtain ⟨d, hcell, hbound⟩ := cell_applied hw hl hq
  have hswap := outstanding_afterWrite hq
  have hregister : ((s.write l.config.name data).setPhase i l (afterWrite l.phase)).register =
      LockTable.register Phase.Outstanding s.clock (s.locks.setPhase i l (afterWrite l.phase))
        (update s.cell l.config.name (some (i, d))) := by
    rw [← hcell]
    rfl
  rw [hregister]
  by_cases ho : l.phase.Outstanding
  · exact ⟨_, LockTable.register_released (fun h => hswap.mp h ho)
      (holds_of_applied hw hl hq hok ho)⟩
  · rw [if_neg ho] at hbound
    exact ⟨_, LockTable.register_granted hl ho (hswap.mpr ho)
      (free_of_applied hw hl hq hok ho) ⟨d, rfl, hbound.ge⟩⟩

theorem outstanding_lockAfterError {r : LockRequest} {ensured : Bool} :
    ¬ (lockAfterError ensured r err).Outstanding := by
  unfold lockAfterError ensureBasePath
  split_ifs <;> exact not_false

theorem outstanding_afterError {ensured : ℕ → Bool}
    (ho : (afterError ensured err l.phase).Outstanding) : l.phase.Outstanding := by
  cases hphase : l.phase with
  | reading | setting =>
    rw [hphase] at ho
    exact absurd ho outstanding_lockAfterError
  | creating =>
    rw [hphase] at ho
    simp only [afterError, lockAfterCreateError] at ho
    split_ifs at ho <;> exact ho
  | held | unlockReading | unlockSetting => trivial
  | ensuring | skipped | rejected | unlocked =>
    rw [hphase] at ho
    exact ho

theorem outstanding_lockAfterGet {r : LockRequest} : ¬ (lockAfterGet r x).Outstanding := by
  unfold lockAfterGet
  cases JsDate.parse x.2.data with
  | none => exact not_false
  | some d =>
    by_cases hlive : d > r.now <;> simp only [hlive, if_true, if_false] <;> exact not_false

/-- Nodes and handles behave as leased cells in every run. -/
theorem register_abstraction : system.Abstraction Tenancy.system System.register where
  initial s h i := Tenancy.board_none (h.2.2.2 i)
  step s e t hr hs := by
    have hw := wellFormed_reachable hr
    cases hs with
    | tick hle => exact .inr ⟨.advance _, .advance hle⟩
    | lockCalled hnone => exact .inl (LockTable.register_called hnone not_false)
    | lockGot hl =>
      exact LockTable.register_quiet hl fun ho => absurd ho outstanding_lockAfterGet
    | unlockCalled hl hp =>
      refine LockTable.register_quiet hl fun _ => ?_
      rw [hp]
      trivial
    | unlockGot hl hp =>
      refine LockTable.register_quiet hl fun _ => ?_
      rw [hp]
      trivial
    | gotNoNode hl => exact LockTable.register_quiet hl outstanding_afterError
    | ensured hl => exact LockTable.register_quiet hl fun ho => ho.elim
    | applied hl hq hok => exact .inr (register_applied hw hl hq hok)
    | refused hl => exact LockTable.register_quiet hl outstanding_afterError
    | lockFails hl => exact LockTable.register_quiet hl fun ho => ho.elim
    | unlockFails hl ho => exact LockTable.register_quiet hl fun _ => ho

theorem register_exclusive (h : system.Reachable s) : Tenancy.Exclusive s.register :=
  Tenancy.exclusive_reachable (register_abstraction.reachable h)

/-- The instant a write of `unlock()` leaves behind is not within the minimum hold. -/
theorem left_of_unlocked (h : system.Reachable s) (hs : Step s (.applied i) t)
    (hl : s.locks i = some l) (ho : l.phase.Outstanding) :
    ∃ d, l.config.lockAtLeastUntil ≤ d ∧ Tenancy.Left t.register i l.config.name d := by
  have hw := wellFormed_reachable h
  cases hs with
  | @applied _ k q data hk hq hok =>
    cases hk.symm.trans hl
    obtain ⟨d, hcell, hbound⟩ := cell_applied hw hl hq
    rw [if_pos ho] at hbound
    refine ⟨d, hbound, ?_⟩
    have hregister : ((s.write l.config.name data).setPhase i l (afterWrite l.phase)).register =
        LockTable.register Phase.Outstanding s.clock (s.locks.setPhase i l (afterWrite l.phase))
          (update s.cell l.config.name (some (i, d))) := by
      rw [← hcell]
      rfl
    rw [hregister]
    exact LockTable.left_released fun hafter => (outstanding_afterWrite hq).mp hafter ho

/-- A handle not yet unlocked whose deadline is still in the future. -/
abbrev Live (s : System) : ℕ → LockCall Phase ℤ → Prop :=
  LockTable.Live Phase.Outstanding s.clock s.locks

def nightly : LockConfiguration ℤ :=
  { name := "nightly", lockAtMostFor := 60000, lockAtLeastFor := 5000, createdAt := 0 }

def nightlyRequest : LockRequest := ⟨0, 0, "1970-01-01T00:01:00.000Z"⟩

def nightlyNode : NodeData := ⟨"1970-01-01T00:01:00.000Z", 0⟩

def beforeNightly : System := ⟨0, false, fun _ => .empty, fun _ => false, fun _ => none⟩

/-- The first `lock()` call has found no node and has ensured the base path. -/
def nightlyCreating : System :=
  { beforeNightly with
    basePath := true
    basePathEnsured := update (fun _ => false) 0 true
    locks := update (fun _ => none) 0 (some ⟨nightly, .creating nightlyRequest⟩) }

def nightlyHeld : System :=
  (nightlyCreating.write "nightly" nightlyNode).setPhase 0 ⟨nightly, .creating nightlyRequest⟩ .held

/-- The handle is about to write the end of its minimum hold. -/
def nightlyUnlocking : System :=
  nightlyHeld.setPhase 0 ⟨nightly, .held⟩
    (.unlockSetting "1970-01-01T00:00:05.000Z" (0, nightlyNode))

theorem nightly_iso : JsDate.toIsoString 60000 = some "1970-01-01T00:01:00.000Z" := by
  decide +kernel

theorem noNode_reports : ZooKeeperError.Reports ⟨some (-101), none⟩ (-101) := by
  intro other
  simp [matchesResultCode, eq_comm]

def nightlyReading : System :=
  { beforeNightly with
    locks := update (fun _ => none) 0 (some ⟨nightly, .reading nightlyRequest⟩) }

theorem nightlyCreating_reachable : system.Reachable nightlyCreating := by
  have h₀ : system.Reachable beforeNightly :=
    .initial ⟨rfl, fun _ => rfl, fun _ => rfl, fun _ => rfl⟩
  have hcalled : Step beforeNightly (.called 0) nightlyReading :=
    .lockCalled rfl (by decide) nightly_iso
  have hmissing : Step nightlyReading (.refused 0 (-101)) (nightlyReading.setPhase 0
      ⟨nightly, .reading nightlyRequest⟩ (.ensuring nightlyRequest)) :=
    .gotNoNode (i := 0) (l := ⟨nightly, .reading nightlyRequest⟩) rfl trivial noNode_reports
  have hensured : Step (nightlyReading.setPhase 0 ⟨nightly, .reading nightlyRequest⟩
      (.ensuring nightlyRequest)) (.ensured 0) nightlyCreating := by
    have hs := Step.ensured (s := nightlyReading.setPhase 0 ⟨nightly, .reading nightlyRequest⟩
      (.ensuring nightlyRequest)) (i := 0) (l := ⟨nightly, .ensuring nightlyRequest⟩)
      (r := nightlyRequest) rfl rfl
    simpa [nightlyCreating, nightlyReading, beforeNightly, System.setPhase, LockTable.setPhase,
      nightlyRequest] using hs
  exact ((h₀.step hcalled).step hmissing).step hensured

theorem nightlyUnlocking_reachable : system.Reachable nightlyUnlocking := by
  have hcreated : Step nightlyCreating (.applied 0) nightlyHeld :=
    .applied (l := ⟨nightly, .creating nightlyRequest⟩) (q := .create) rfl rfl rfl
  have hcalled : Step nightlyHeld (.called 0) (nightlyHeld.setPhase 0 ⟨nightly, .held⟩
      (.unlockReading "1970-01-01T00:01:00.000Z" "1970-01-01T00:00:05.000Z")) :=
    .unlockCalled rfl rfl nightly_iso (by decide +kernel)
  have hentry : (0, nightlyNode) ∈ (nightlyHeld.node "nightly").entries :=
    RevisionLog.mem_of_latest rfl
  have hgot : Step (nightlyHeld.setPhase 0 ⟨nightly, .held⟩
      (.unlockReading "1970-01-01T00:01:00.000Z" "1970-01-01T00:00:05.000Z")) (.got 0)
      nightlyUnlocking := by
    have hs := Step.unlockGot (s := nightlyHeld.setPhase 0 ⟨nightly, .held⟩
      (.unlockReading "1970-01-01T00:01:00.000Z" "1970-01-01T00:00:05.000Z")) (i := 0)
      (l := ⟨nightly, .unlockReading "1970-01-01T00:01:00.000Z" "1970-01-01T00:00:05.000Z"⟩)
      rfl rfl hentry
    simpa [nightlyUnlocking, System.setPhase, LockTable.setPhase, unlockAfterGet, nightlyNode]
      using hs
  exact ((nightlyCreating_reachable.step hcreated).step hcalled).step hgot

def report : LockConfiguration ℤ := { nightly with name := "reports/daily" }

end Tslock.ZooKeeper
