import Tslock.CloudFrontKvs.CloudFrontKvsLockProvider

/-! Records and handles as leased cells: as long as the store has the ETag that was described before
a record was read, the record is still the one that was read. -/
namespace Tslock.CloudFrontKvs

open Function Foundation

variable {setup : Setup} {s t u : System} {e : Event} {as : List Event} {i j n : ℕ}
  {l : LockCall Phase ℤ} {name key etag : String} {op : Operation}
  {existing : Option CloudFrontKvsLockRecord} {record : CloudFrontKvsLockRecord}

/-- The deadline of the text a record is stored as. -/
def lockUntilOf (json : Json.Reader) (value : String) : Option ℤ :=
  match decodeLockRecord json value with
  | .ok record => parseLockUntilMs record
  | .error _ => none

def System.cell (setup : Setup) (s : System) (name : String) : Option (ℕ × ℤ) :=
  if setup.unrelated (setup.key name) then none
  else ((s.store (setup.key name)).bind (lockUntilOf setup.json)).map fun lockUntil =>
    (s.writer (setup.key name), lockUntil)

def System.register (setup : Setup) (s : System) : Tenancy.Register ℕ String ℤ :=
  LockTable.register Phase.Outstanding s.clock s.locks (s.cell setup)

/-- The record a call has examined is the one the store has, unless the ETag is an earlier one. -/
def Current (setup : Setup) (s : System) (name etag : String)
    (existing : Option CloudFrontKvsLockRecord) : Prop :=
  etag = s.etag → s.store (setup.key name) = existing.map encodeLockRecord

/-- What a call relies on between its requests. -/
def Phase.Sound (setup : Setup) (s : System) (i : ℕ) (config : LockConfiguration ℤ) : Phase → Prop
  | .reading _ _ etag => etag ∈ s.etag :: s.etags
  | .examining _ _ etag existing =>
    etag ∈ s.etag :: s.etags ∧ Current setup s config.name etag existing
  | .putting op _ etag existing record =>
    etag ∈ s.etag :: s.etags ∧ Current setup s config.name etag existing ∧
      ∃ now, now ≤ s.clock ∧
        op.attempt (setup.provider i).hostname config now existing = .put record
  | .describing .. | .skipped | .rejected | .held | .unlocked | .extended => True

structure WellFormed (setup : Setup) (s : System) : Prop where
  fresh : s.etag ∉ s.etags
  related : ∀ i l, s.locks i = some l → setup.unrelated (setup.key l.config.name) = false
  sound : ∀ i l, s.locks i = some l → l.phase.Sound setup s i l.config
  stored : ∀ name value, setup.unrelated (setup.key name) = false →
    s.store (setup.key name) = some value →
    ∃ record, value = encodeLockRecord record ∧ decodeLockRecord setup.json value = .ok record

theorem WellFormed.sound_of {phase : Phase} (hw : WellFormed setup s) (hl : s.locks i = some l)
    (hp : l.phase = phase) : phase.Sound setup s i l.config := by
  rw [← hp]
  exact hw.sound i l hl

theorem key_injective : Function.Injective setup.key := by
  intro a b h
  have hlist := congrArg String.toList h
  simp only [Setup.key, String.toList_append] at hlist
  exact String.toList_inj.mp (List.append_cancel_left hlist)

theorem storageKey_eq (h : setup.storageKey name = .ok key) : key = setup.key name := by
  simp only [Setup.storageKey] at h
  split_ifs at h
  exact (Except.ok.inj h).symm

/-! What an attempt that writes has found. -/

theorem ofBuild_put {built : Option CloudFrontKvsLockRecord}
    (h : Decision.ofBuild built = .put record) : built = some record := by
  cases built with
  | none => cases h
  | some r =>
    cases h
    rfl

theorem lockAttempt_put {hostname : String} {config : LockConfiguration ℤ} {now : ℤ}
    (h : lockAttempt hostname config now existing = .put record) :
    (∀ lockUntil ∈ existing.bind parseLockUntilMs, lockUntil ≤ now) ∧
      buildLockRecord config.lockAtMostUntil config.createdAt hostname = some record := by
  simp only [lockAttempt] at h
  split_ifs at h with hlive
  refine ⟨?_, ofBuild_put h⟩
  intro lockUntil hmem
  exact not_lt.mp fun hlt => hlive ⟨lockUntil, hmem, hlt⟩

/-- A write behind the comparison of the deadlines: they are equal. -/
theorem compared_put {deadline : ℤ} {found : CloudFrontKvsLockRecord} {decision : Decision}
    (h : (match JsDate.toIsoString deadline with
      | none => .fail
      | some iso => if found.lockUntil ≠ iso then .finish else decision) = Decision.put record) :
    JsDate.toIsoString deadline = some found.lockUntil ∧ decision = .put record := by
  cases hiso : JsDate.toIsoString deadline with
  | none =>
    rw [hiso] at h
    cases h
  | some iso =>
    simp only [hiso] at h
    split_ifs at h with hown
    rw [not_not] at hown
    exact ⟨congrArg some hown.symm, h⟩

theorem unlockAttempt_put {hostname : String} {config : LockConfiguration ℤ} {now : ℤ}
    (h : unlockAttempt hostname config now existing = .put record) :
    ∃ found, existing = some found ∧
      JsDate.toIsoString config.lockAtMostUntil = some found.lockUntil ∧
      buildLockRecord (config.unlockTime now) (lockedAtOr found config.createdAt) found.lockedBy =
        some record := by
  cases existing with
  | none => cases h
  | some found =>
    simp only [unlockAttempt] at h
    split_ifs at h
    obtain ⟨hiso, hput⟩ := compared_put h
    exact ⟨found, rfl, hiso, ofBuild_put hput⟩

theorem extendAttempt_put {hostname : String} {config : LockConfiguration ℤ} {previous now : ℤ}
    (h : extendAttempt hostname config (some previous) now existing = .put record) :
    ∃ found, existing = some found ∧ JsDate.toIsoString previous = some found.lockUntil ∧
      buildLockRecord config.lockAtMostUntil (lockedAtOr found config.createdAt) hostname =
        some record := by
  cases existing with
  | none => cases h
  | some found =>
    simp only [extendAttempt] at h
    split_ifs at h
    obtain ⟨hiso, hput⟩ := compared_put h
    exact ⟨found, rfl, hiso, ofBuild_put hput⟩

/-- What an operation writes was built by it. -/
theorem attempt_built {hostname : String} {config : LockConfiguration ℤ} {now : ℤ}
    (h : op.attempt hostname config now existing = .put record) :
    ∃ lockUntil lockedAt lockedBy,
      buildLockRecord lockUntil lockedAt lockedBy = some record := by
  cases op with
  | lock => exact ⟨_, _, _, (lockAttempt_put h).2⟩
  | unlock =>
    obtain ⟨_, _, _, hbuilt⟩ := unlockAttempt_put h
    exact ⟨_, _, _, hbuilt⟩
  | extend =>
    obtain ⟨_, _, _, hbuilt⟩ := extendAttempt_put h
    exact ⟨_, _, _, hbuilt⟩

/-- An operation of a handle writes only where it has found the deadline of the handle. -/
theorem attempt_own {hostname : String} {config : LockConfiguration ℤ} {now : ℤ}
    (ho : op.OnHandle) (h : op.attempt hostname config now existing = .put record) :
    ∃ found, existing = some found ∧ parseLockUntilMs found = some config.lockAtMostUntil := by
  cases op with
  | lock => exact ho.elim
  | unlock =>
    obtain ⟨found, hfound, hiso, _⟩ := unlockAttempt_put h
    exact ⟨found, hfound, JsDate.parse_toIsoString hiso⟩
  | extend =>
    obtain ⟨found, hfound, hiso, _⟩ := extendAttempt_put h
    exact ⟨found, hfound, JsDate.parse_toIsoString hiso⟩

/-- A later state in which the store has a new ETag or is the same. -/
structure Extends (setup : Setup) (s t : System) : Prop where
  clock : s.clock ≤ t.clock
  etags : ∀ etag ∈ s.etag :: s.etags, etag ∈ t.etag :: t.etags
  store : ∀ name etag, setup.unrelated (setup.key name) = false → etag ∈ s.etag :: s.etags →
    etag = t.etag → etag = s.etag ∧ t.store (setup.key name) = s.store (setup.key name)

theorem Current.mono (h : Current setup s name etag existing) (hst : Extends setup s t)
    (hname : setup.unrelated (setup.key name) = false) (hetag : etag ∈ s.etag :: s.etags) :
    Current setup t name etag existing := by
  intro heq
  obtain ⟨hsame, hstore⟩ := hst.store name etag hname hetag heq
  exact hstore.trans (h hsame)

theorem Phase.Sound.mono {config : LockConfiguration ℤ} {phase : Phase}
    (h : phase.Sound setup s i config) (hst : Extends setup s t)
    (hname : setup.unrelated (setup.key config.name) = false) :
    phase.Sound setup t i config := by
  cases phase with
  | reading => exact hst.etags _ h
  | examining => exact ⟨hst.etags _ h.1, h.2.mono hst hname h.1⟩
  | putting =>
    obtain ⟨hetag, hcurrent, now, hnow, hput⟩ := h
    exact ⟨hst.etags _ hetag, hcurrent.mono hst hname hetag, now, le_trans hnow hst.clock, hput⟩
  | describing | skipped | rejected | held | unlocked | extended => trivial

/-- No ETag that is known is the one of the store after a write. -/
theorem extends_write {value : Option String} {writer : ℕ} (hfresh : s.Fresh etag) :
    Extends setup s (s.write key value writer etag) := by
  refine ⟨le_refl _, fun e he => List.mem_cons_of_mem _ he, ?_⟩
  rintro name e - he rfl
  exact absurd he hfresh

theorem sound_finished {config : LockConfiguration ℤ} : op.finished.Sound setup s i config := by
  cases op <;> trivial

theorem sound_failed {config : LockConfiguration ℤ} : op.failed.Sound setup s i config := by
  cases op <;> trivial

theorem sound_written {config : LockConfiguration ℤ} : op.written.Sound setup s i config := by
  cases op <;> trivial

/-- A step that moves one call and changes nothing else. -/
theorem WellFormed.moved {phase : Phase} (hw : WellFormed setup s) (hl : s.locks i = some l)
    (hp : phase.Sound setup s i l.config) : WellFormed setup (s.setPhase i l phase) := by
  refine ⟨hw.fresh, ?_, ?_, hw.stored⟩
  · exact LockTable.of_setPhase (fun j b hb => hw.related j b hb) (hw.related i l hl)
  · exact LockTable.of_setPhase (fun j b hb => hw.sound j b hb) hp

/-- A write of a record, with whatever it does to the calls. -/
theorem WellFormed.written {locks : LockTable Phase ℤ} {value : Option String} {writer : ℕ}
    (hw : WellFormed setup s) (hfresh : s.Fresh etag)
    (hlocks : ∀ i l, locks i = some l → s.locks i = some l ∨
      setup.unrelated (setup.key l.config.name) = false ∧ ∀ t, l.phase.Sound setup t i l.config)
    (hvalue : setup.unrelated key = false → ∀ v, value = some v →
      ∃ record, v = encodeLockRecord record ∧ decodeLockRecord setup.json v = .ok record) :
    WellFormed setup { s.write key value writer etag with locks := locks } := by
  have hst : Extends setup s { s.write key value writer etag with locks := locks } := by
    have hbase : Extends setup s (s.write key value writer etag) := extends_write hfresh
    exact ⟨hbase.clock, hbase.etags, hbase.store⟩
  refine ⟨hfresh, ?_, ?_, ?_⟩
  · intro i l hl
    rcases hlocks i l hl with hold | ⟨hname, -⟩
    · exact hw.related i l hold
    · exact hname
  · intro i l hl
    rcases hlocks i l hl with hold | ⟨-, hsound⟩
    · exact (hw.sound i l hold).mono hst (hw.related i l hold)
    · exact hsound _
  · intro name v hname hv
    have hnew : update s.store key value (setup.key name) = some v := hv
    by_cases hkey : setup.key name = key
    · rw [hkey, update_self] at hnew
      exact hvalue (hkey ▸ hname) v hnew
    · rw [update_of_ne hkey] at hnew
      exact hw.stored name v hname hnew

/-- What a call puts is a record that can be read back. -/
theorem put_decodes (hw : WellFormed setup s) (hl : s.locks i = some l)
    (hp : l.phase = .putting op n etag existing record) :
    decodeLockRecord setup.json (encodeLockRecord record) = .ok record := by
  have hsound := hw.sound_of hl hp
  obtain ⟨-, -, _, -, hput⟩ := hsound
  obtain ⟨_, _, _, hbuilt⟩ := attempt_built hput
  exact decode_build hbuilt

/-- What `getRecord` returns is what the store has. -/
theorem current_of_answer (hw : WellFormed setup s)
    (hname : setup.unrelated (setup.key name) = false)
    {answer : Except ServiceError (Option String)}
    (ha : Answers (s.store (setup.key name)) answer)
    (hg : getRecord setup.json answer = some existing) :
    s.store (setup.key name) = existing.map encodeLockRecord := by
  match answer with
  | .error e =>
    simp only [getRecord] at hg
    split_ifs at hg
    cases hg
    exact ha.1
  | .ok none =>
    cases hg
    exact Eq.symm ha
  | .ok (some value) =>
    have hstored : s.store (setup.key name) = some value := Eq.symm ha
    obtain ⟨r, rfl, hdecode⟩ := hw.stored name value hname hstored
    simp only [getRecord, hdecode, Except.toOption, Option.map_some, Option.some.injEq] at hg
    rw [hstored, ← hg, Option.map_some]

theorem wellFormed_step (hs : Step setup s e t) (hw : WellFormed setup s) :
    WellFormed setup t := by
  cases hs with
  | tick hle =>
    refine ⟨hw.fresh, hw.related, fun j b hb => (hw.sound j b hb).mono ?_ (hw.related j b hb),
      hw.stored⟩
    exact ⟨hle, fun _ he => he, fun _ _ _ _ he => ⟨he, rfl⟩⟩
  | lockCalled _ _ hname =>
    refine ⟨hw.fresh, ?_, ?_, hw.stored⟩
    · exact LockTable.of_insert (fun j b hb => hw.related j b hb) hname
    · exact LockTable.of_insert (fun j b hb => hw.sound j b hb) trivial
  | unlockCalled hl => exact hw.moved hl trivial
  | extendCalled hl => exact hw.moved hl trivial
  | described hl => exact hw.moved hl List.mem_cons_self
  | @got i l _ _ _ _ _ _ hl hp hkey ha hg =>
    have hsound := hw.sound_of hl hp
    rw [storageKey_eq hkey] at ha
    exact hw.moved hl ⟨hsound, fun _ => current_of_answer hw (hw.related i l hl) ha hg⟩
  | @evaluated i l op _ _ existing hl hp =>
    have hsound := hw.sound_of hl hp
    refine hw.moved hl ?_
    cases hdecision : op.attempt (setup.provider i).hostname l.config s.clock existing with
    | finish => exact sound_finished
    | fail => exact sound_failed
    | put record => exact ⟨hsound.1, hsound.2, _, le_refl _, hdecision⟩
  | @put i l _ _ _ _ _ record hl hp _ _ hfresh =>
    refine hw.written hfresh ?_ ?_
    · exact LockTable.of_setPhase (fun j b hb => .inl hb)
        (.inr ⟨hw.related i l hl, fun _ => sound_written⟩)
    · rintro - v hv
      cases hv
      exact ⟨record, rfl, put_decodes hw hl hp⟩
  | @putExtended i j l _ _ _ _ _ _ _ record hl hp _ hfresh hj =>
    refine hw.written hfresh ?_ ?_
    · exact LockTable.of_insert (LockTable.of_setPhase (fun j b hb => .inl hb)
        (.inr ⟨hw.related i l hl, fun _ => trivial⟩)) (.inr ⟨hw.related i l hl, fun _ => trivial⟩)
    · rintro - v hv
      cases hv
      exact ⟨record, rfl, put_decodes hw hl hp⟩
  | conflict hl => exact hw.moved hl trivial
  | exhausted hl => exact hw.moved hl sound_finished
  | failed hl => exact hw.moved hl sound_failed
  | foreign hkey hfresh =>
    refine hw.written hfresh (fun _ _ hl => .inl hl) ?_
    intro hrelated
    rw [hkey] at hrelated
    cases hrelated

theorem wellFormed_reachable (h : (system setup).Reachable s) : WellFormed setup s := by
  refine h.invariant ?_ (fun _ _ _ _ hs hw => wellFormed_step hs hw)
  rintro s ⟨hstore, hetags, hlocks⟩
  refine ⟨?_, ?_, ?_, ?_⟩
  · rw [hetags]
    exact List.not_mem_nil
  · intro i l hl
    rw [hlocks i] at hl
    cases hl
  · intro i l hl
    rw [hlocks i] at hl
    cases hl
  · intro name value hname hvalue
    rw [hstore name hname] at hvalue
    cases hvalue

/-- A put that meets the ETag of the store meets the record that was examined. -/
theorem examined_of_put (hw : WellFormed setup s) (hl : s.locks i = some l)
    (hp : l.phase = .putting op n s.etag existing record) :
    s.store (setup.key l.config.name) = existing.map encodeLockRecord := by
  have hsound := hw.sound_of hl hp
  exact hsound.2.1 rfl

theorem outstanding_of_operation {phase : Phase} (h : phase.operation = some op) :
    phase.Outstanding ↔ op.OnHandle := by
  constructor
  · rintro (hheld | ⟨op', hop', ho⟩)
    · rw [hheld] at h
      cases h
    · cases h.symm.trans hop'
      exact ho
  · intro ho
    exact .inr ⟨op, h, ho⟩

theorem not_outstanding {phase : Phase} (hheld : phase ≠ .held) (h : phase.operation = none) :
    ¬ phase.Outstanding := by
  rintro (heq | ⟨op, hop, -⟩)
  · exact hheld heq
  · rw [h] at hop
    cases hop

theorem not_outstanding_lock {phase : Phase} (h : phase.operation = some .lock) :
    ¬ phase.Outstanding := (outstanding_of_operation h).mp

/-- A handle whose operation ends without a write is there as before, or is given up. -/
theorem outstanding_finished (h : op.finished.Outstanding) : op.OnHandle := by
  cases op with
  | lock => exact absurd h (not_outstanding nofun rfl)
  | unlock | extend => trivial

theorem outstanding_failed (h : op.failed.Outstanding) : op.OnHandle := by
  cases op with
  | lock => exact absurd h (not_outstanding nofun rfl)
  | unlock | extend => trivial

theorem outstanding_decision {d : Decision} (h : (d.phase op n etag existing).Outstanding) :
    op.OnHandle := by
  cases d with
  | finish => exact outstanding_finished h
  | fail => exact outstanding_failed h
  | put => exact (outstanding_of_operation rfl).mp h

/-! What the cell of a name says of the records. -/

theorem lockUntilOf_encode
    (h : decodeLockRecord setup.json (encodeLockRecord record) = .ok record) :
    lockUntilOf setup.json (encodeLockRecord record) = parseLockUntilMs record := by
  simp only [lockUntilOf, h]

/-- The deadline of the record that was examined stands in the cell. -/
theorem cell_of_stored (hw : WellFormed setup s)
    (hname : setup.unrelated (setup.key name) = false)
    (hstore : s.store (setup.key name) = existing.map encodeLockRecord) :
    s.cell setup name = (existing.bind parseLockUntilMs).map fun lockUntil =>
      (s.writer (setup.key name), lockUntil) := by
  rw [System.cell, hname, hstore]
  cases existing with
  | none => rfl
  | some found =>
    obtain ⟨r, hr, hdecode⟩ := hw.stored name _ hname hstore
    cases encodeLockRecord_injective hr
    simp only [Option.map_some, Option.bind_some, lockUntilOf_encode hdecode, Bool.false_eq_true,
      if_false]

theorem cell_put {writer : ℕ} {d : ℤ} (hname : setup.unrelated (setup.key name) = false)
    (hdecode : decodeLockRecord setup.json (encodeLockRecord record) = .ok record)
    (hd : parseLockUntilMs record = some d) :
    (s.write (setup.key name) (some (encodeLockRecord record)) writer etag).cell setup =
      update (s.cell setup) name (some (writer, d)) := by
  funext n
  by_cases hn : n = name
  · subst hn
    simp only [System.cell, System.write, update_self, hname, Option.bind_some,
      lockUntilOf_encode hdecode, hd, Option.map_some, Bool.false_eq_true, if_false]
  · have hkey : setup.key n ≠ setup.key name := fun h => hn (key_injective h)
    simp only [System.cell, System.write, update_of_ne hn, update_of_ne hkey]

/-- A key no name uses does not show. -/
theorem cell_foreign {value : Option String} {writer : ℕ} (hkey : setup.unrelated key = true) :
    (s.write key value writer etag).cell setup = s.cell setup := by
  funext n
  by_cases hn : setup.key n = key
  · simp only [System.cell, hn, hkey, if_true]
  · simp only [System.cell, System.write, update_of_ne hn]

/-- A put of `lock()` finds the name free. -/
theorem free_of_put (hw : WellFormed setup s) (hl : s.locks i = some l)
    (hp : l.phase = .putting .lock n s.etag existing record) :
    (s.register setup).Free l.config.name := by
  have hsound := hw.sound_of hl hp
  obtain ⟨-, hcurrent, now, hnow, hput⟩ := hsound
  have hcell := cell_of_stored hw (hw.related i l hl) (hcurrent rfl)
  intro w d hc
  obtain ⟨d', hd', heq⟩ := Option.map_eq_some_iff.mp (hcell.symm.trans hc)
  cases heq
  exact le_trans ((lockAttempt_put hput).1 _ hd') hnow

/-- A put of an operation of a handle finds the deadline of the handle. -/
theorem holds_of_put (hw : WellFormed setup s) (hl : s.locks i = some l)
    (hp : l.phase = .putting op n s.etag existing record) (ho : op.OnHandle) :
    (s.register setup).Holds i l.config.name := by
  have hsound := hw.sound_of hl hp
  obtain ⟨-, hcurrent, now, -, hput⟩ := hsound
  obtain ⟨found, rfl, hown⟩ := attempt_own ho hput
  have hcell := cell_of_stored hw (hw.related i l hl) (hcurrent rfl)
  rw [Option.bind_some, hown, Option.map_some] at hcell
  refine LockTable.holds_of hl ?_ hcell rfl
  rw [hp]
  exact (outstanding_of_operation rfl).mpr ho

/-- The deadline the operation asks for. -/
def Operation.lockAtMostUntil (config : LockConfiguration ℤ) : Operation → Option ℤ
  | .lock => some config.lockAtMostUntil
  | .unlock => none
  | .extend most least createdAt => some (config.successor most least createdAt).lockAtMostUntil

/-- The deadline of what a call puts. -/
theorem put_lockUntil (hw : WellFormed setup s) (hl : s.locks i = some l)
    (hp : l.phase = .putting op n etag existing record) :
    ∃ d, parseLockUntilMs record = some d ∧
      ∀ asked ∈ op.lockAtMostUntil l.config, asked ≤ d := by
  have hsound := hw.sound_of hl hp
  obtain ⟨-, -, now, -, hput⟩ := hsound
  cases op with
  | lock =>
    refine ⟨_, parseLockUntilMs_build (lockAttempt_put hput).2, ?_⟩
    rintro _ ⟨⟩
    exact le_refl _
  | unlock =>
    obtain ⟨_, _, _, hbuilt⟩ := unlockAttempt_put hput
    exact ⟨_, parseLockUntilMs_build hbuilt, nofun⟩
  | extend =>
    obtain ⟨_, _, _, hbuilt⟩ := extendAttempt_put hput
    refine ⟨_, parseLockUntilMs_build hbuilt, ?_⟩
    rintro _ ⟨⟩
    exact le_refl _

/-- The register after a call has put its record. -/
theorem register_written (hw : WellFormed setup s) (hl : s.locks i = some l)
    (hp : l.phase = .putting op n s.etag existing record) {writer : ℕ} {d : ℤ}
    (hd : parseLockUntilMs record = some d) (locks : LockTable Phase ℤ) :
    ({ s.write (setup.key l.config.name) (some (encodeLockRecord record)) writer etag with
      locks := locks } : System).register setup =
    LockTable.register Phase.Outstanding s.clock locks
      (update (s.cell setup) l.config.name (some (writer, d))) := by
  have hcell : (s.write (setup.key l.config.name) (some (encodeLockRecord record)) writer etag).cell
      setup = update (s.cell setup) l.config.name (some (writer, d)) :=
    cell_put (hw.related i l hl) (put_decodes hw hl hp) hd
  rw [← hcell]
  rfl

theorem register_put (hw : WellFormed setup s) (hl : s.locks i = some l)
    (hp : l.phase = .putting op n s.etag existing record)
    (hop : ∀ most least createdAt, op ≠ .extend most least createdAt) :
    ∃ a, Tenancy.Step (s.register setup) a (((s.write (setup.key l.config.name)
      (some (encodeLockRecord record)) i etag).setPhase i l op.written).register setup) := by
  obtain ⟨d, hd, hbound⟩ := put_lockUntil hw hl hp
  have hregister : ((s.write (setup.key l.config.name) (some (encodeLockRecord record)) i
      etag).setPhase i l op.written).register setup =
        LockTable.register Phase.Outstanding s.clock (s.locks.setPhase i l op.written)
          (update (s.cell setup) l.config.name (some (i, d))) :=
    register_written hw hl hp hd _
  rw [hregister]
  cases op with
  | lock =>
    refine ⟨_, LockTable.register_granted hl ?_ (.inl rfl) (free_of_put hw hl hp)
      ⟨d, rfl, hbound _ rfl⟩⟩
    rw [hp]
    exact not_outstanding_lock rfl
  | unlock =>
    exact ⟨_, LockTable.register_released (not_outstanding nofun rfl)
      (holds_of_put hw hl hp trivial)⟩
  | extend most least createdAt => exact absurd rfl (hop most least createdAt)

theorem register_putExtended {most least createdAt : ℤ} (hw : WellFormed setup s)
    (hl : s.locks i = some l)
    (hp : l.phase = .putting (.extend most least createdAt) n s.etag existing record)
    (hj : s.locks j = none) :
    ∃ a, Tenancy.Step (s.register setup) a (({ s.write (setup.key l.config.name)
      (some (encodeLockRecord record)) j etag with
      locks := update (s.locks.setPhase i l .extended) j
        (some ⟨l.config.successor most least createdAt, .held⟩) } : System).register setup) := by
  obtain ⟨d, hd, hbound⟩ := put_lockUntil hw hl hp
  rw [register_written hw hl hp hd]
  have hij : j ≠ i := by
    rintro rfl
    exact Option.some_ne_none _ (hl.symm.trans hj)
  have hholds : (s.register setup).Holds i l.config.name := holds_of_put hw hl hp trivial
  have hextended : ¬ Phase.extended.Outstanding := not_outstanding nofun rfl
  exact ⟨_, LockTable.register_renewed hj hij hextended (.inl rfl) rfl hholds
    ⟨d, rfl, hbound _ rfl⟩⟩

/-- Records and handles behave as leased cells in every run. -/
theorem register_abstraction :
    (system setup).Abstraction Tenancy.system (System.register setup) where
  initial s h i := Tenancy.board_none (h.2.2 i)
  step s e t hr hs := by
    have hw := wellFormed_reachable hr
    cases hs with
    | tick hle => exact .inr ⟨.advance _, .advance hle⟩
    | lockCalled hnone =>
      exact .inl (LockTable.register_called hnone (not_outstanding_lock rfl))
    | unlockCalled hl hp =>
      refine LockTable.register_quiet hl fun _ => ?_
      rw [hp]
      exact .inl rfl
    | extendCalled hl hp =>
      refine LockTable.register_quiet hl fun _ => ?_
      rw [hp]
      exact .inl rfl
    | described hl hp =>
      refine LockTable.register_quiet hl fun ho => ?_
      rw [hp]
      exact (outstanding_of_operation rfl).mpr ((outstanding_of_operation rfl).mp ho)
    | got hl hp =>
      refine LockTable.register_quiet hl fun ho => ?_
      rw [hp]
      exact (outstanding_of_operation rfl).mpr ((outstanding_of_operation rfl).mp ho)
    | evaluated hl hp =>
      refine LockTable.register_quiet hl fun ho => ?_
      rw [hp]
      exact (outstanding_of_operation rfl).mpr (outstanding_decision ho)
    | put hl hp hop hkey =>
      rw [storageKey_eq hkey]
      exact .inr (register_put hw hl hp hop)
    | putExtended hl hp hkey _ hj =>
      rw [storageKey_eq hkey]
      exact .inr (register_putExtended hw hl hp hj)
    | conflict hl hp =>
      refine LockTable.register_quiet hl fun ho => ?_
      rw [hp]
      exact (outstanding_of_operation rfl).mpr ((outstanding_of_operation rfl).mp ho)
    | exhausted hl hp =>
      refine LockTable.register_quiet hl fun ho => ?_
      rw [hp]
      exact (outstanding_of_operation rfl).mpr (outstanding_finished ho)
    | failed hl hop =>
      refine LockTable.register_quiet hl fun ho => ?_
      exact (outstanding_of_operation hop).mpr (outstanding_failed ho)
    | foreign hkey =>
      left
      simp only [System.register, cell_foreign hkey]
      rfl

theorem register_exclusive (h : (system setup).Reachable s) :
    Tenancy.Exclusive (s.register setup) :=
  Tenancy.exclusive_reachable (register_abstraction.reachable h)

/-- Only a put and the writers of unrelated keys change the store. -/
theorem store_step (hs : Step setup s e t) (hput : ∀ i, e ≠ .put i)
    (hforeign : ∀ key, e ≠ .foreign key) : t.store = s.store := by
  cases hs with
  | tick | lockCalled | unlockCalled | extendCalled | described | got | evaluated | conflict
  | exhausted | failed => rfl
  | put | putExtended => exact absurd rfl (hput _)
  | foreign => exact absurd rfl (hforeign _)

/-- A put replaces what its attempt has examined, and nothing else. -/
theorem put_examined (h : (system setup).Reachable s) (hs : Step setup s (.put i) t)
    (hl : s.locks i = some l) (hp : l.phase = .putting op n etag existing record) :
    s.store (setup.key l.config.name) = existing.map encodeLockRecord ∧
    t.store (setup.key l.config.name) = some (encodeLockRecord record) ∧
    ∀ name, name ≠ l.config.name → t.store (setup.key name) = s.store (setup.key name) := by
  have hw := wellFormed_reachable h
  have hexamined : ∀ {op' n' existing' record'},
      l.phase = .putting op' n' s.etag existing' record' →
      s.store (setup.key l.config.name) = existing.map encodeLockRecord ∧ record' = record := by
    intro op' n' existing' record' hp'
    cases hp'.symm.trans hp
    exact ⟨examined_of_put hw hl hp, rfl⟩
  have hother : ∀ name, name ≠ l.config.name → setup.key name ≠ setup.key l.config.name :=
    fun name hne heq => hne (key_injective heq)
  cases hs with
  | put hk hp' _ hkey =>
    cases hk.symm.trans hl
    rw [storageKey_eq hkey]
    obtain ⟨hbefore, rfl⟩ := hexamined hp'
    exact ⟨hbefore, update_self _ _ _, fun name hne => update_of_ne (hother name hne) _ _⟩
  | putExtended hk hp' hkey =>
    cases hk.symm.trans hl
    rw [storageKey_eq hkey]
    obtain ⟨hbefore, rfl⟩ := hexamined hp'
    exact ⟨hbefore, update_self _ _ _, fun name hne => update_of_ne (hother name hne) _ _⟩

/-- The call is in one of its loops. -/
def System.Calling (s : System) (i : ℕ) : Prop :=
  ∃ l, s.locks i = some l ∧ l.phase.operation ≠ none

theorem operation_written : op.written.operation = none := by cases op <;> rfl

/-- No step but its own call brings a call into a loop. -/
theorem calling_of_setPhase {phase : Phase} (hl : s.locks j = some l)
    (hphase : phase.operation ≠ none → l.phase.operation ≠ none)
    (hc : (s.setPhase j l phase).Calling i) : s.Calling i := by
  obtain ⟨a, ha, hop⟩ := hc
  by_cases hij : i = j
  · subst hij
    cases LockTable.setPhase_self.symm.trans ha
    exact ⟨l, hl, hphase hop⟩
  · exact ⟨a, (update_of_ne hij _ _).symm.trans ha, hop⟩

/-- A put ends the loop of its call. -/
theorem calling_step (hs : Step setup s e t) (hcalled : e ≠ .called i) (hc : t.Calling i) :
    s.Calling i ∧ e ≠ .put i := by
  have hquiet : ∀ {j l phase}, s.locks j = some l → l.phase.operation ≠ none →
      (s.setPhase j l phase).Calling i → s.Calling i :=
    fun hl hop => calling_of_setPhase hl fun _ => hop
  cases hs with
  | tick | foreign => exact ⟨hc, nofun⟩
  | @lockCalled k config hnone =>
    obtain ⟨a, ha, hop⟩ := hc
    have hik : i ≠ k := fun heq => hcalled (heq ▸ rfl)
    exact ⟨⟨a, (update_of_ne hik _ _).symm.trans ha, hop⟩, nofun⟩
  | @unlockCalled k l hl | @extendCalled k l _ _ hl =>
    obtain ⟨a, ha, hop⟩ := hc
    have hik : i ≠ k := fun heq => hcalled (heq ▸ rfl)
    exact ⟨⟨a, (update_of_ne hik _ _).symm.trans ha, hop⟩, nofun⟩
  | described hl hp | got hl hp | evaluated hl hp | conflict hl hp | exhausted hl hp =>
    exact ⟨hquiet hl (by rw [hp]; nofun) hc, nofun⟩
  | failed hl hop => exact ⟨hquiet hl (by rw [hop]; nofun) hc, nofun⟩
  | @put k l op _ _ _ _ _ hl hp =>
    obtain ⟨a, ha, hop⟩ := hc
    by_cases hik : i = k
    · subst hik
      cases LockTable.setPhase_self.symm.trans ha
      exact absurd operation_written hop
    · refine ⟨⟨a, (update_of_ne hik _ _).symm.trans ha, hop⟩, ?_⟩
      rintro ⟨⟩
      exact hik rfl
  | @putExtended k j l _ _ _ _ _ _ _ _ hl hp _ _ hj =>
    obtain ⟨a, ha, hop⟩ := hc
    by_cases hij : i = j
    · subst hij
      cases (update_self _ _ _).symm.trans ha
      exact absurd rfl hop
    have hrest : s.locks.setPhase k l .extended i = some a := (update_of_ne hij _ _).symm.trans ha
    by_cases hik : i = k
    · subst hik
      cases LockTable.setPhase_self.symm.trans hrest
      exact absurd rfl hop
    · refine ⟨⟨a, (update_of_ne hik _ _).symm.trans hrest, hop⟩, ?_⟩
      rintro ⟨⟩
      exact hik rfl

/-- A call that is still in its loop has put nothing. -/
theorem calling_run (hr : (system setup).Run s as t) (hcalled : .called i ∉ as)
    (hc : t.Calling i) : s.Calling i ∧ .put i ∉ as := by
  induction hr with
  | refl => exact ⟨hc, List.not_mem_nil⟩
  | @step s m t e as hs hrest ih =>
    rw [List.mem_cons, not_or] at hcalled
    obtain ⟨hmid, hnone⟩ := ih hcalled.2 hc
    obtain ⟨hbefore, hput⟩ := calling_step hs (Ne.symm hcalled.1) hmid
    refine ⟨hbefore, ?_⟩
    rw [List.mem_cons, not_or]
    exact ⟨Ne.symm hput, hnone⟩

theorem calling_exhausted (hs : Step setup s (.exhausted i) t) : s.Calling i := by
  cases hs with
  | exhausted hl hp => exact ⟨_, hl, by rw [hp]; nofun⟩

/-- A handle neither unlocked nor extended whose deadline is still in the future. -/
abbrev Live (s : System) : ℕ → LockCall Phase ℤ → Prop :=
  LockTable.Live Phase.Outstanding s.clock s.locks

/-- The lock protocol under a store-wide ETag: one live handle for each name; a put replaces exactly
the record its attempt has examined and leaves the other names alone; only a put and the writers of
unrelated keys change the store; and a call that exhausts its retries has put nothing. -/
theorem cloudFrontKvs_lock_protocol (h : (system setup).Reachable s) :
    (∀ i j a b, Live s i a → Live s j b → a.config.name = b.config.name → i = j) ∧
    (∀ i l t op n etag existing record, Step setup s (.put i) t → s.locks i = some l →
      l.phase = .putting op n etag existing record →
      s.store (setup.key l.config.name) = existing.map encodeLockRecord ∧
      t.store (setup.key l.config.name) = some (encodeLockRecord record) ∧
      ∀ name, name ≠ l.config.name → t.store (setup.key name) = s.store (setup.key name)) ∧
    (∀ e t, Step setup s e t → (∀ i, e ≠ .put i) → (∀ key, e ≠ .foreign key) →
      t.store = s.store) ∧
    ∀ i t as u v, Step setup s (.called i) t → (system setup).Run t as u → .called i ∉ as →
      Step setup u (.exhausted i) v → .put i ∉ as ∧ v.store = u.store := by
  refine ⟨?_, ?_, ?_, ?_⟩
  · intro i j a b ha hb hname
    exact LockTable.Live.unique (register_exclusive h) ha hb hname
  · intro i l t op n etag existing record hs hl hp
    exact put_examined h hs hl hp
  · intro e t hs hput hforeign
    exact store_step hs hput hforeign
  · intro i t as u v _ hr hcalled hv
    exact ⟨(calling_run hr hcalled (calling_exhausted hv)).2, store_step hv nofun nofun⟩

def nightly : LockConfiguration ℤ :=
  { name := "nightly", lockAtMostFor := 60000, lockAtLeastFor := 5000, createdAt := 0 }

def oneProvider : Setup :=
  ⟨.ofStrings, "tslock/", fun _ => ⟨"worker", 3, by decide⟩, fun _ => false⟩

def nightlyRecord : CloudFrontKvsLockRecord :=
  ⟨"1970-01-01T00:01:00.000Z", "1970-01-01T00:00:00.000Z", "worker"⟩

/-- The first `n` calls for `nightly`, on an empty store. -/
def nightlyCalls (n : ℕ) (phase : ℕ → Phase) : System :=
  ⟨0, fun _ => none, fun _ => 0, "first", [],
    fun i => if i < n then some ⟨nightly, phase i⟩ else none⟩

theorem nightlyCalls_locks {phase : ℕ → Phase} (hi : i < n) :
    (nightlyCalls n phase).locks i = some ⟨nightly, phase i⟩ := if_pos hi

theorem nightlyCalls_step {phase : ℕ → Phase} {next : Phase} (hi : i < n)
    (h : (system oneProvider).Reachable (nightlyCalls n phase))
    (hs : Step oneProvider (nightlyCalls n phase) e
      ((nightlyCalls n phase).setPhase i ⟨nightly, phase i⟩ next)) :
    (system oneProvider).Reachable (nightlyCalls n (update phase i next)) := by
  have heq : (nightlyCalls n phase).setPhase i ⟨nightly, phase i⟩ next =
      nightlyCalls n (update phase i next) := by
    simp only [System.setPhase, nightlyCalls, LockTable.setPhase, System.mk.injEq, true_and]
    funext j
    by_cases hj : j = i
    · subst hj
      simp [hi]
    · simp [update_of_ne hj]
  exact heq ▸ h.step hs

theorem nightlyCalls_called {phase : ℕ → Phase} (hn : phase n = .describing .lock 0)
    (h : (system oneProvider).Reachable (nightlyCalls n phase)) :
    (system oneProvider).Reachable (nightlyCalls (n + 1) phase) := by
  have hs := @Step.lockCalled oneProvider (nightlyCalls n phase) n nightly (if_neg (lt_irrefl n))
    (le_refl _) rfl
  have heq : update (nightlyCalls n phase).locks n (some ⟨nightly, .describing .lock 0⟩) =
      (nightlyCalls (n + 1) phase).locks := by
    funext j
    by_cases hj : j = n
    · subst hj
      simp [nightlyCalls, hn]
    · have hlt : j < n + 1 ↔ j < n := by omega
      simp only [nightlyCalls, update_of_ne hj, hlt]
  rw [heq] at hs
  exact h.step hs

theorem nightly_attempt : Operation.lock.attempt "worker" nightly 0 none = .put nightlyRecord := by
  decide +kernel

theorem nightly_storageKey : oneProvider.storageKey "nightly" = .ok "tslock/nightly" := by
  decide +kernel

/-- `lock()` up to its put. -/
theorem nightlyCalls_putting {phase : ℕ → Phase} (hi : i < n)
    (hphase : phase i = .describing .lock 0)
    (h : (system oneProvider).Reachable (nightlyCalls n phase)) :
    (system oneProvider).Reachable
      (nightlyCalls n (update phase i (.putting .lock 0 "first" none nightlyRecord))) := by
  have hdescribed := nightlyCalls_step hi h
    (.described (nightlyCalls_locks hi) hphase (by simp [nightlyCalls]))
  have hgot := nightlyCalls_step hi hdescribed (@Step.got _ _ _ _ _ _ "first" "tslock/nightly"
    (.ok none) none (nightlyCalls_locks hi) (update_self _ _ _) nightly_storageKey rfl rfl)
  rw [update_idem] at hgot
  have hevaluated := nightlyCalls_step hi hgot
    (.evaluated (nightlyCalls_locks hi) (update_self _ _ _))
  rw [update_idem] at hevaluated
  have hput : (Operation.lock.attempt (oneProvider.provider i).hostname nightly
      (nightlyCalls n phase).clock none).phase .lock 0 "first" none =
        .putting .lock 0 "first" none nightlyRecord :=
    congrArg (Decision.phase .lock 0 "first" none) nightly_attempt
  exact hput ▸ hevaluated

/-- Two calls have read the empty store under its first ETag. -/
def nightlyPutting : System :=
  nightlyCalls 2 (update (update (fun _ => .describing .lock 0)
    0 (.putting .lock 0 "first" none nightlyRecord))
    1 (.putting .lock 0 "first" none nightlyRecord))

theorem nightlyPutting_reachable : (system oneProvider).Reachable nightlyPutting := by
  have h₀ : (system oneProvider).Reachable (nightlyCalls 0 fun _ => .describing .lock 0) :=
    .initial ⟨fun _ _ => rfl, rfl, fun _ => rfl⟩
  have h₁ : (system oneProvider).Reachable (nightlyCalls 1 fun _ => .describing .lock 0) :=
    nightlyCalls_called rfl h₀
  have h₂ : (system oneProvider).Reachable (nightlyCalls 2 fun _ => .describing .lock 0) :=
    nightlyCalls_called rfl h₁
  exact nightlyCalls_putting (by decide) rfl (nightlyCalls_putting (by decide) rfl h₂)

/-- The put of the second call finds the store without the record, as its attempt has. That of the
first call meets another ETag and changes nothing. -/
theorem nightlyPutting_absent : ∃ t v, Step oneProvider nightlyPutting (.put 1) t ∧
    nightlyPutting.store "tslock/nightly" = none ∧
    t.store "tslock/nightly" = some (encodeLockRecord nightlyRecord) ∧
    Step oneProvider t (.conflict 0) v ∧ v.store = t.store := by
  have hput := @Step.put oneProvider nightlyPutting 1
    ⟨nightly, .putting .lock 0 "first" none nightlyRecord⟩ _ _ _ "second" _ _
    rfl rfl nofun nightly_storageKey (by simp [System.Fresh, nightlyPutting, nightlyCalls])
  have hreachable := nightlyPutting_reachable.step hput
  have hconflict := @Step.conflict oneProvider
    ((nightlyPutting.write "tslock/nightly" (some (encodeLockRecord nightlyRecord)) 1
      "second").setPhase 1 ⟨nightly, .putting .lock 0 "first" none nightlyRecord⟩ .held) 0
    ⟨nightly, .putting .lock 0 "first" none nightlyRecord⟩ .lock 0 "first" none nightlyRecord
    ⟨some "ConflictException", none⟩ rfl rfl (by decide) rfl (by decide)
  obtain ⟨habsent, hwritten, -⟩ := (cloudFrontKvs_lock_protocol nightlyPutting_reachable).2.1 1 _ _
    .lock 0 "first" none nightlyRecord hput rfl rfl
  have hsame := (cloudFrontKvs_lock_protocol hreachable).2.2.1 _ _ hconflict nofun nofun
  exact ⟨_, _, hput, habsent, hwritten, hconflict, hsame⟩

end Tslock.CloudFrontKvs
