import Mathlib.Algebra.Order.Ring.Rat
import Tslock.Foundation.Tenancy
import Tslock.Sql.ServerTimeStatementsSource

/-! How long a row is taken by the clock of the database, in the runs in which `createdAt` shows
that clock; and a client whose clock is behind it. -/
namespace Tslock.Sql.ServerTime

open Function Foundation

variable {lockedBy : ℕ → String} {s t u : System} {e : Event} {as : List Event} {i j k : ℕ}
  {l a : Tslock.LockCall Phase ℚ} {config config' : LockConfiguration ℚ}
  {name lockedByValue : String} {row : Row ℚ} {table : Table ℚ} {out : QueryOutcome} {root : ℕ}
  {T x y now : ℚ}

theorem timestampFor_mono (h : x ≤ y) : timestampFor x ≤ timestampFor y := by
  unfold timestampFor
  split_ifs with hx hy hy
  · exact_mod_cast Int.floor_le_floor h
  · exact absurd (le_trans hx h) hy
  · have hlow : ⌈x⌉ ≤ 0 := Int.ceil_le.mpr (by push_cast; exact le_of_not_ge hx)
    have hhigh : 0 ≤ ⌊y⌋ := Int.le_floor.mpr (by push_cast; exact hy)
    exact_mod_cast le_trans hlow hhigh
  · exact_mod_cast Int.ceil_le_ceil h

/-- The row a `lock()` call leaves behind. -/
def taken (lockedByValue : String) (now : ℚ) (config : LockConfiguration ℚ) : Row ℚ :=
  ⟨timestampFor config.lockAtMostUntil, now, lockedByValue⟩

/-- A row that may be taken: there is none, or its deadline is over. -/
def Acquirable (s : System) (name : String) : Prop :=
  ∀ row, s.table name = some row → row.lockUntil ≤ s.clock

/-- What a `lock()` statement has found and done, if it has taken the row. -/
theorem acquired_cases (hs : Step lockedBy s (.locked i config) t) :
    s.locks i = none ∧ config.DurationsValid ∧ Acquirable s config.name ∧
      t = s.acquire i config
        (update s.table config.name (some (taken (lockedBy i) s.clock config))) := by
  cases hs with
  | inserted hnone hvalid hq ho =>
    obtain ⟨habsent, rfl⟩ := insertStatement_granted hq ho
    refine ⟨hnone, hvalid, fun row hrow => ?_, rfl⟩
    cases habsent.symm.trans hrow
  | updated hnone hvalid hq ho =>
    obtain ⟨row, hrow, hover, rfl⟩ := updateWhere_granted hq ho
    refine ⟨hnone, hvalid, fun row' hrow' => ?_, rfl⟩
    cases hrow.symm.trans hrow'
    exact hover

theorem updateStatement_succeeded (hrow : table config.name = some row) :
    (updateStatement (params lockedByValue now config none) table).2.succeeded = true ↔
      row.lockUntil ≤ now := by
  have hname : table (params lockedByValue now config none).name = some row := hrow
  unfold updateStatement updateWhere
  rw [hname]
  by_cases hover : row.lockUntil ≤ now
  · simp [updateMatches, params, hover, QueryOutcome.succeeded]
  · simp [updateMatches, params, hover, QueryOutcome.succeeded]

theorem clock_step (hs : Step lockedBy s e t) : s.clock ≤ t.clock := by
  cases hs with
  | tick hle => exact hle
  | inserted | updated | insertRefused | updateRefused | unlocked | extended | extendRefused =>
    exact le_refl _

theorem clock_run (hrun : (system lockedBy).Run s as t) : s.clock ≤ t.clock := by
  induction hrun with
  | refl => exact le_refl _
  | step hs _ ih => exact le_trans (clock_step hs) ih

/-- As long as nothing has written its row, an acquisition blocks the others exactly for
`lockAtMostFor` if and only if the row was taken on time. -/
theorem blocks_iff_onTime (hs : Step lockedBy s (.locked i config) t) :
    (∀ as u, (system lockedBy).Run t as u → u.table config.name = t.table config.name →
      ∀ lockedByValue config', config'.name = config.name →
        ((updateStatement (params lockedByValue u.clock config' none) u.table).2.succeeded = true ↔
          s.clock + config.lockAtMostFor ≤ u.clock)) ↔ OnTime config s.clock := by
  obtain ⟨-, hvalid, -, rfl⟩ := acquired_cases hs
  have hlength : 0 ≤ config.lockAtMostFor := le_trans hvalid.1 hvalid.2
  have hrow : (s.acquire i config (update s.table config.name
      (some (taken (lockedBy i) s.clock config)))).table config.name =
        some (taken (lockedBy i) s.clock config) := update_self _ _ _
  constructor
  · intro hblocks
    have hover : ∀ now, s.clock ≤ now →
        (timestampFor config.lockAtMostUntil ≤ now ↔ s.clock + config.lockAtMostFor ≤ now) := by
      intro now hnow
      have hgranted := hblocks [.tick] _ (.single (.tick hnow)) rfl "" config rfl
      rwa [updateStatement_succeeded hrow] at hgranted
    have hend := (hover (s.clock + config.lockAtMostFor) (by linarith)).mpr (le_refl _)
    rcases eq_or_lt_of_le hend with heq | hearly
    · exact .inl heq
    · right
      have hmax := (hover (max (timestampFor config.lockAtMostUntil) s.clock)
        (le_max_right _ _)).mp (le_max_left _ _)
      rcases le_max_iff.mp hmax with hle | hle
      · exact absurd hearly (not_lt_of_ge hle)
      · have hzero : config.lockAtMostFor = 0 := by linarith
        refine ⟨hzero, ?_⟩
        rw [LockConfiguration.lockAtMostUntil, hzero, add_zero] at hearly
        linarith
  · intro honTime as u hrun hsame lockedByValue config' hname
    rw [hrow, ← hname] at hsame
    rw [updateStatement_succeeded hsame]
    change timestampFor config.lockAtMostUntil ≤ u.clock ↔ _
    rcases honTime with heq | ⟨hzero, hbefore⟩
    · rw [heq]
    · have hlater := clock_run hrun
      change s.clock ≤ u.clock at hlater
      rw [LockConfiguration.lockAtMostUntil, hzero, add_zero, add_zero]
      exact iff_of_true (le_trans hbefore hlater) hlater

/-- What a handle counts on. -/
def deadline (l : Tslock.LockCall Phase ℚ) : Option (String × ℚ) :=
  match l.phase with
  | .held _ => some (l.config.name, timestampFor l.config.lockAtMostUntil)
  | .unlocked _ | .extended _ => none

def System.cell (s : System) (name : String) : Option (ℕ × ℚ) :=
  (s.table name).map fun row => (s.tenant name, row.lockUntil)

def System.register (s : System) : Tenancy.Register ℕ String ℚ where
  now := s.clock
  outstanding := Tenancy.board deadline s.locks
  cell := s.cell

theorem deadline_held (hp : l.phase = .held root) :
    deadline l = some (l.config.name, timestampFor l.config.lockAtMostUntil) := by
  rw [deadline, hp]

/-- What an unlock and an extension have found and done, if they have found the row. -/
theorem unlocked_cases (hs : Step lockedBy s (.unlocked i) t) : ∃ l root, s.locks i = some l ∧
    l.phase = .held root ∧
    (t = s.setPhase i l (.unlocked root) ∨ ∃ row, s.table l.config.name = some row ∧
      row.lockUntil = timestampFor l.config.lockAtMostUntil ∧
      t = { s with table := update s.table l.config.name (some { row with
        lockUntil := timestampFor (max l.config.lockAtLeastUntil l.config.createdAt) })
      }.setPhase i l (.unlocked root)) := by
  cases hs with
  | @unlocked i root l table out hl hp hq =>
    refine ⟨l, root, hl, hp, ?_⟩
    cases ho : out.succeeded with
    | false =>
      obtain ⟨-, rfl⟩ := updateWhere_refused hq ho
      exact .inl rfl
    | true =>
      obtain ⟨row, hrow, hmatches, rfl⟩ := updateWhere_granted hq ho
      exact .inr ⟨row, hrow, hmatches.2, rfl⟩

theorem extended_cases {newConfig : LockConfiguration ℚ}
    (hs : Step lockedBy s (.extended i newConfig) t) : ∃ j l root row, s.locks i = some l ∧
    l.phase = .held root ∧ s.locks j = none ∧ newConfig.name = l.config.name ∧
    s.table l.config.name = some row ∧
    row.lockUntil = timestampFor l.config.lockAtMostUntil ∧ s.clock < row.lockUntil ∧
    t = s.extend i j l root newConfig (update s.table l.config.name
      (some { row with lockUntil := timestampFor newConfig.lockAtMostUntil })) := by
  cases hs with
  | @extended i j root l most least createdAt table out hl hp hj _ hq ho =>
    obtain ⟨row, hrow, hmatches, rfl⟩ := updateWhere_granted hq ho
    exact ⟨j, l, root, row, hl, hp, hj, rfl, hrow, Option.some.inj hmatches.2.2, hmatches.2.1, rfl⟩

theorem refused_same (hs : Step lockedBy s .refused t) : t = s := by
  cases hs with
  | insertRefused hq ho =>
    obtain ⟨-, rfl⟩ := insertStatement_refused hq ho
    rfl
  | updateRefused hq ho | extendRefused _ _ hq ho =>
    obtain ⟨-, rfl⟩ := updateWhere_refused hq ho
    rfl

/-- A state that differs in the row of one name, its tenant and the handles. -/
theorem register_stored {locks : LockTable Phase ℚ} (hclock : t.clock = s.clock)
    (htable : t.table = update s.table name (some row)) (hlocks : t.locks = locks)
    (htenant : ∀ n, n ≠ name → t.tenant n = s.tenant n) :
    t.register = { s.register with
      outstanding := Tenancy.board deadline locks,
      cell := update s.register.cell name (some (t.tenant name, row.lockUntil)) } := by
  have hcell : t.cell = update s.cell name (some (t.tenant name, row.lockUntil)) := by
    funext n
    by_cases hn : n = name
    · subst hn
      simp only [System.cell, htable, update_self, Option.map_some]
    · simp only [System.cell, htable, update_of_ne hn, htenant n hn]
  simp only [System.register, hclock, hcell, hlocks]

theorem outstanding_update (locks : LockTable Phase ℚ) :
    Tenancy.board deadline (update locks i (some a)) =
      update (Tenancy.board deadline locks) i (deadline a) :=
  Tenancy.board_update deadline locks i (some a)

theorem outstanding_held (hl : s.locks i = some l) (hp : l.phase = .held root) :
    s.register.outstanding i = some (l.config.name, timestampFor l.config.lockAtMostUntil) :=
  (Tenancy.board_some hl).trans (deadline_held hp)

theorem cell_of_row (hrow : s.table name = some row) :
    s.register.cell name = some (s.tenant name, row.lockUntil) := by
  change (s.table name).map _ = _
  rw [hrow, Option.map_some]

/-- A handle may write the row that carries its deadline. -/
theorem holds_of_row (hl : s.locks i = some l) (hp : l.phase = .held root)
    (hrow : s.table l.config.name = some row)
    (hown : row.lockUntil = timestampFor l.config.lockAtMostUntil) :
    s.register.Holds i l.config.name :=
  ⟨_, _, _, outstanding_held hl hp, cell_of_row hrow, .inr hown⟩

theorem exclusive_step (hs : Step lockedBy s e t) (he : Tenancy.Exclusive s.register) :
    Tenancy.Exclusive t.register := by
  cases e with
  | tick =>
    cases hs with
    | tick hle => exact Tenancy.exclusive_step (.advance hle) he
  | refused => rwa [refused_same hs]
  | locked i config =>
    obtain ⟨hnone, -, hfree, ht⟩ := acquired_cases hs
    have hnothing : s.register.outstanding i = none := Tenancy.board_none hnone
    have hcells : s.register.Free config.name := by
      intro w d hc
      obtain ⟨row, hrow, heq⟩ := Option.map_eq_some_iff.mp hc
      cases heq
      exact hfree row hrow
    have htenant : t.tenant = update s.tenant config.name i := by rw [ht]; rfl
    have hregister := @register_stored s t config.name (taken (lockedBy i) s.clock config)
      (update s.locks i (some ⟨config, .held i⟩)) (by rw [ht]; rfl) (by rw [ht]; rfl)
      (by rw [ht]; rfl) fun n hn => by rw [htenant, update_of_ne hn]
    rw [hregister, htenant, update_self, outstanding_update]
    exact Tenancy.exclusive_step (.grant hnothing hcells fun _ => ⟨_, rfl, le_refl _⟩) he
  | unlocked i =>
    obtain ⟨l, root, hl, hp, ht | ⟨row, hrow, hown, ht⟩⟩ := unlocked_cases hs
    · have hdropped : t.register =
          { s.register with outstanding := update s.register.outstanding i none } := by
        subst ht
        simp only [System.register, System.setPhase, LockTable.setPhase, outstanding_update]
        rfl
      rw [hdropped]
      exact Tenancy.exclusive_step .drop he
    · have hregister := @register_stored s t l.config.name _
        (update s.locks i (some { l with phase := .unlocked root })) (by rw [ht]; rfl)
        (by rw [ht]; rfl) (by rw [ht]; rfl) fun n _ => by rw [ht]; rfl
      rw [hregister, outstanding_update]
      exact Tenancy.exclusive_step (.release (holds_of_row hl hp hrow hown)) he
  | extended i newConfig =>
    obtain ⟨j, l, root, row, hl, hp, hj, hname, hrow, hown, -, ht⟩ := extended_cases hs
    have hij : j ≠ i := by
      rintro rfl
      cases hj.symm.trans hl
    have hnothing : update s.register.outstanding i none j = none :=
      (update_of_ne hij _ _).trans (Tenancy.board_none hj)
    have htenant : t.tenant = update s.tenant l.config.name j := by rw [ht, ← hname]; rfl
    have hregister := @register_stored s t l.config.name _
      (update (update s.locks i (some { l with phase := .extended root })) j
        (some ⟨newConfig, .held root⟩)) (by rw [ht]; rfl) (by rw [ht]; rfl) (by rw [ht]; rfl)
      fun n hn => by rw [htenant, update_of_ne hn]
    have hdeadline : deadline ⟨newConfig, .held root⟩ =
        some (l.config.name, timestampFor newConfig.lockAtMostUntil) := by
      rw [deadline_held rfl, hname]
    rw [hregister, htenant, update_self, outstanding_update, outstanding_update, hdeadline]
    exact Tenancy.exclusive_step
      (.renew (holds_of_row hl hp hrow hown) hnothing fun _ => ⟨_, rfl, le_refl _⟩) he

/-- The tenant of a row is the handle whose deadline it carries, as long as that is in the
future. -/
theorem tenant_of_live (he : Tenancy.Exclusive s.register) (hl : s.locks i = some l)
    (hp : l.phase = .held root) (hrow : s.table l.config.name = some row)
    (hlive : s.clock < timestampFor l.config.lockAtMostUntil) : s.tenant l.config.name = i := by
  obtain ⟨d, hcell, -⟩ := he i _ _ (outstanding_held hl hp) hlive
  have hboth := (cell_of_row hrow).symm.trans hcell
  cases hboth
  rfl

/-- What the acquisition of a call at the time `T` has become: it is unlocked, or over, or the row
carries the deadline of the handle that goes on with it. -/
def Lasts (s : System) (i : ℕ) (config : LockConfiguration ℚ) (T : ℚ) : Prop :=
  (∃ k a, s.locks k = some a ∧ a.phase = .unlocked i) ∨ T + config.lockAtMostFor ≤ s.clock ∨
    ∃ k a row, s.locks k = some a ∧ a.phase = .held i ∧ a.config.name = config.name ∧
      s.tenant config.name = k ∧ s.table config.name = some row ∧
      T + config.lockAtMostFor ≤ row.lockUntil

theorem lasts_acquired (hlasts : Lasts s i config T) (hnone : s.locks j = none)
    (hfree : Acquirable s config'.name) :
    Lasts (s.acquire j config' (update s.table config'.name (some row))) i config T := by
  have hother : ∀ k a, s.locks k = some a →
      update s.locks j (some ⟨config', .held j⟩) k = some a := by
    intro k a hk
    have hkj : k ≠ j := by
      rintro rfl
      cases hnone.symm.trans hk
    exact (update_of_ne hkj _ _).trans hk
  rcases hlasts with ⟨k, a, hk, hp⟩ | hover | ⟨k, a, old, hk, hp, hname, htenant, hold, hle⟩
  · exact .inl ⟨k, a, hother k a hk, hp⟩
  · exact .inr (.inl hover)
  · right
    by_cases hsame : config.name = config'.name
    · left
      rw [hsame] at hold
      exact le_trans hle (hfree old hold)
    · right
      exact ⟨k, a, old, hother k a hk, hp, hname, (update_of_ne hsame _ _).trans htenant,
        (update_of_ne hsame _ _).trans hold, hle⟩

/-- A held lock is not the unlocked one. -/
theorem ne_of_unlocked (hl : s.locks j = some l) (hp : l.phase = .held root)
    (hk : s.locks k = some a) (hunlocked : a.phase = .unlocked i) : k ≠ j := by
  rintro rfl
  cases hl.symm.trans hk
  cases hp.symm.trans hunlocked

theorem lasts_unlocked (hlasts : Lasts s i config T) (he : Tenancy.Exclusive s.register)
    (hs : Step lockedBy s (.unlocked j) t) : Lasts t i config T := by
  obtain ⟨l, root, hl, hp, ht⟩ := unlocked_cases hs
  have hlocks : t.locks = s.locks.setPhase j l (.unlocked root) := by
    rcases ht with rfl | ⟨row, -, -, rfl⟩ <;> rfl
  have hclock : t.clock = s.clock := by
    rcases ht with rfl | ⟨row, -, -, rfl⟩ <;> rfl
  have hother : ∀ k a, k ≠ j → s.locks k = some a → t.locks k = some a := by
    intro k a hkj hk
    rw [hlocks]
    exact (update_of_ne hkj _ _).trans hk
  rcases hlasts with ⟨k, a, hk, hunlocked⟩ | hover |
    ⟨k, a, old, hk, hheld, hname, htenant, hold, hle⟩
  · exact .inl ⟨k, a, hother k a (ne_of_unlocked hl hp hk hunlocked) hk, hunlocked⟩
  · exact .inr (.inl (hclock ▸ hover))
  · by_cases hkj : k = j
    · subst hkj
      cases hl.symm.trans hk
      cases hp.symm.trans hheld
      left
      exact ⟨k, _, by rw [hlocks]; exact LockTable.setPhase_self, rfl⟩
    · right
      rcases ht with rfl | ⟨row, hrow, hown, rfl⟩
      · exact .inr ⟨k, a, old, hother k a hkj hk, hheld, hname, htenant, hold, hle⟩
      · by_cases hsame : config.name = l.config.name
        · -- the handle writes a row of which it is not the tenant: its deadline is over
          left
          rw [hsame] at hold htenant
          cases hrow.symm.trans hold
          have hover : timestampFor l.config.lockAtMostUntil ≤ s.clock := by
            by_contra hlive
            exact hkj (htenant.symm.trans (tenant_of_live he hl hp hrow (lt_of_not_ge hlive)))
          exact le_trans hle (hown ▸ hover)
        · right
          exact ⟨k, a, old, hother k a hkj hk, hheld, hname, htenant,
            (update_of_ne hsame _ _).trans hold, hle⟩

theorem lasts_extended {newConfig : LockConfiguration ℚ} (hlasts : Lasts s i config T)
    (he : Tenancy.Exclusive s.register) (hs : Step lockedBy s (.extended j newConfig) t)
    (ha : Accurate s (.extended j newConfig)) : Lasts t i config T := by
  obtain ⟨j', l, root, row, hl, hp, hj', hnew, hrow, hown, hlive, rfl⟩ := extended_cases hs
  have hother : ∀ k a, k ≠ j → s.locks k = some a →
      update (s.locks.setPhase j l (.extended root)) j' (some ⟨newConfig, .held root⟩) k =
        some a := by
    intro k a hkj hk
    have hkj' : k ≠ j' := by
      rintro rfl
      cases hj'.symm.trans hk
    exact (update_of_ne hkj' _ _).trans ((update_of_ne hkj _ _).trans hk)
  rcases hlasts with ⟨k, a, hk, hunlocked⟩ | hover |
    ⟨k, a, old, hk, hheld, hname, htenant, hold, hle⟩
  · exact .inl ⟨k, a, hother k a (ne_of_unlocked hl hp hk hunlocked) hk, hunlocked⟩
  · exact .inr (.inl hover)
  · right
    right
    by_cases hsame : config.name = l.config.name
    · rw [hsame] at hold htenant
      cases hrow.symm.trans hold
      have hkj : k = j :=
        htenant.symm.trans (tenant_of_live he hl hp hrow (hown ▸ hlive))
      subst hkj
      cases hl.symm.trans hk
      cases hp.symm.trans hheld
      refine ⟨j', ⟨newConfig, .held i⟩,
        { row with lockUntil := timestampFor newConfig.lockAtMostUntil }, update_self _ _ _, rfl,
        hnew.trans hsame.symm, ?_, ?_, ?_⟩
      · change update s.tenant newConfig.name j' config.name = j'
        rw [hsame, ← hnew, update_self]
      · rw [hsame]
        exact update_self _ _ _
      · exact le_trans hle (hown ▸ ha.2 l hl)
    · have hkj : k ≠ j := by
        rintro rfl
        cases hl.symm.trans hk
        exact hsame hname.symm
      refine ⟨k, a, old, hother k a hkj hk, hheld, hname, ?_, (update_of_ne hsame _ _).trans hold,
        hle⟩
      exact (update_of_ne (hnew ▸ hsame) _ _).trans htenant

/-- The row of an acquisition at the time `T` that nobody has taken or extended since. -/
def Ends (s : System) (i : ℕ) (config : LockConfiguration ℚ) (T : ℚ) : Prop :=
  s.tenant config.name = i →
    ∃ row, s.table config.name = some row ∧ row.lockUntil ≤ T + config.lockAtMostFor

/-- What `unlock()` leaves behind is not later than the deadline it replaces. -/
theorem unlockTime_le (hvalid : config.DurationsValid) :
    timestampFor (max config.lockAtLeastUntil config.createdAt) ≤
      timestampFor config.lockAtMostUntil := by
  obtain ⟨hleast, hmost⟩ := hvalid
  apply timestampFor_mono
  apply max_le
  · exact add_le_add (le_refl _) hmost
  · exact le_add_of_nonneg_right (le_trans hleast hmost)

/-- What each reachable state of an accurate run keeps. -/
structure WellFormed (s : System) : Prop where
  exclusive : Tenancy.Exclusive s.register
  valid : ∀ i l, s.locks i = some l → l.config.DurationsValid
  started : ∀ i, s.locks i = none → s.acquired i = none
  lasts : ∀ i l, s.locks i = some l → ∀ T, s.acquired i = some T → Lasts s i l.config T
  ends : ∀ i l, s.locks i = some l → ∀ T, s.acquired i = some T →
    (∀ root, l.phase ≠ .extended root) → Ends s i l.config T

theorem OnTime.stored (h : OnTime config T) :
    timestampFor config.lockAtMostUntil ≤ T + config.lockAtMostFor := by
  rcases h with heq | ⟨hzero, hbefore⟩
  · exact le_of_eq heq
  · rwa [LockConfiguration.lockAtMostUntil, hzero, add_zero, add_zero]

theorem wellFormed_locked (hw : WellFormed s) (hs : Step lockedBy s (.locked i config) t)
    (honTime : OnTime config s.clock) : WellFormed t := by
  have he := exclusive_step hs hw.exclusive
  obtain ⟨hnone, hvalid, hfree, rfl⟩ := acquired_cases hs
  have hother : ∀ j b, s.locks j = some b → j ≠ i := by
    rintro j b hb rfl
    cases hnone.symm.trans hb
  have hbefore : ∀ j T, j ≠ i → update s.acquired i (some s.clock) j = some T →
      s.acquired j = some T := fun j T hj h => (update_of_ne hj _ _).symm.trans h
  have hnow : ∀ T, update s.acquired i (some s.clock) i = some T → T = s.clock := by
    intro T h
    rw [update_self] at h
    exact (Option.some.inj h).symm
  refine ⟨he, LockTable.of_insert hw.valid hvalid, ?_, ?_, ?_⟩
  · intro j hj
    have hji : j ≠ i := by
      rintro rfl
      cases (update_self _ _ _).symm.trans hj
    exact (update_of_ne hji _ _).trans (hw.started j ((update_of_ne hji _ _).symm.trans hj))
  · refine LockTable.of_insert (fun j b hb T hT => ?_) fun T hT => ?_
    · exact lasts_acquired (hw.lasts j b hb T (hbefore j T (hother j b hb) hT)) hnone hfree
    · obtain rfl := hnow T hT
      right
      rcases honTime with heq | ⟨hzero, -⟩
      · right
        exact ⟨i, ⟨config, .held i⟩, taken (lockedBy i) s.clock config, update_self _ _ _, rfl, rfl,
          update_self _ _ _, update_self _ _ _, le_of_eq heq.symm⟩
      · left
        exact le_of_eq (by rw [hzero, add_zero]; rfl)
  · refine LockTable.of_insert (fun j b hb T hT hphase htenant => ?_) fun T hT _ _ => ?_
    · have hname : b.config.name ≠ config.name := by
        intro hname
        have hi : update s.tenant config.name i b.config.name = i := by rw [hname, update_self]
        exact hother j b hb (htenant.symm.trans hi)
      obtain ⟨row, hrow, hle⟩ := hw.ends j b hb T (hbefore j T (hother j b hb) hT) hphase
        ((update_of_ne hname _ _).symm.trans htenant)
      exact ⟨row, (update_of_ne hname _ _).trans hrow, hle⟩
    · obtain rfl := hnow T hT
      exact ⟨_, update_self _ _ _, honTime.stored⟩

theorem wellFormed_unlocked (hw : WellFormed s) (hs : Step lockedBy s (.unlocked i) t) :
    WellFormed t := by
  have he := exclusive_step hs hw.exclusive
  have hlasts : ∀ j config T, Lasts s j config T → Lasts t j config T :=
    fun j config T h => lasts_unlocked h hw.exclusive hs
  obtain ⟨l, root, hl, hp, ht⟩ := unlocked_cases hs
  have hlocks : t.locks = s.locks.setPhase i l (.unlocked root) := by
    rcases ht with rfl | ⟨row, -, -, rfl⟩ <;> rfl
  have hacquired : t.acquired = s.acquired := by
    rcases ht with rfl | ⟨row, -, -, rfl⟩ <;> rfl
  have hends : ∀ j b T, Ends s j b T → Ends t j b T := by
    intro j b T h
    rcases ht with rfl | ⟨row, hrow, hown, rfl⟩
    · exact h
    · intro htenant
      obtain ⟨old, hold, hle⟩ := h htenant
      by_cases hname : b.name = l.config.name
      · rw [hname] at hold ⊢
        cases hrow.symm.trans hold
        refine ⟨_, update_self _ _ _, le_trans ?_ hle⟩
        rw [hown]
        exact unlockTime_le (hw.valid i l hl)
      · exact ⟨old, (update_of_ne hname _ _).trans hold, hle⟩
  refine ⟨he, ?_, ?_, ?_, ?_⟩
  · rw [hlocks]
    exact LockTable.of_setPhase hw.valid (hw.valid i l hl)
  · intro j hj
    rw [hacquired]
    rw [hlocks] at hj
    by_cases hji : j = i
    · subst hji
      cases LockTable.setPhase_self.symm.trans hj
    · exact hw.started j ((update_of_ne hji _ _).symm.trans hj)
  · rw [hlocks, hacquired]
    exact LockTable.of_setPhase (fun j b hb T hT => hlasts j b.config T (hw.lasts j b hb T hT))
      fun T hT => hlasts i l.config T (hw.lasts i l hl T hT)
  · rw [hlocks, hacquired]
    refine LockTable.of_setPhase
      (fun j b hb T hT hphase => hends j b.config T (hw.ends j b hb T hT hphase))
      fun T hT _ => hends i l.config T (hw.ends i l hl T hT ?_)
    rw [hp]
    nofun

theorem wellFormed_extended (hw : WellFormed s) (hs : Step lockedBy s (.extended i config) t)
    (ha : Accurate s (.extended i config)) : WellFormed t := by
  have he := exclusive_step hs hw.exclusive
  have hlasts : ∀ j config' T, Lasts s j config' T → Lasts t j config' T :=
    fun j config' T h => lasts_extended h hw.exclusive hs ha
  obtain ⟨k, l, root, row, hl, hp, hk, hname, hrow, hown, -, rfl⟩ := extended_cases hs
  have hnever : ∀ T, s.acquired k ≠ some T := by
    intro T hT
    cases (hw.started k hk).symm.trans hT
  have hends : ∀ j b T, s.acquired j = some T → Ends s j b T →
      Ends (s.extend i k l root config (update s.table l.config.name
        (some { row with lockUntil := timestampFor config.lockAtMostUntil }))) j b T := by
    intro j b T hT h htenant
    have hother : b.name ≠ config.name := by
      intro hsame
      have hself : update s.tenant config.name k b.name = k := by rw [hsame, update_self]
      obtain rfl := hself.symm.trans htenant
      exact hnever T hT
    obtain ⟨old, hold, hle⟩ := h ((update_of_ne hother _ _).symm.trans htenant)
    exact ⟨old, (update_of_ne (hname ▸ hother) _ _).trans hold, hle⟩
  refine ⟨he, ?_, ?_, ?_, ?_⟩
  · exact LockTable.of_insert (LockTable.of_setPhase hw.valid (hw.valid i l hl)) ha.1
  · intro j hj
    have hjk : j ≠ k := by
      rintro rfl
      cases (update_self _ _ _).symm.trans hj
    have hrest : s.locks.setPhase i l (.extended root) j = none :=
      (update_of_ne hjk _ _).symm.trans hj
    by_cases hji : j = i
    · subst hji
      cases LockTable.setPhase_self.symm.trans hrest
    · exact hw.started j ((update_of_ne hji _ _).symm.trans hrest)
  · refine LockTable.of_insert (LockTable.of_setPhase
      (fun j b hb T hT => hlasts j b.config T (hw.lasts j b hb T hT))
      fun T hT => hlasts i l.config T (hw.lasts i l hl T hT)) fun T hT => absurd hT (hnever T)
  · refine LockTable.of_insert (LockTable.of_setPhase
      (fun j b hb T hT hphase => hends j b.config T hT (hw.ends j b hb T hT hphase))
      fun T hT hphase => absurd rfl (hphase root)) fun T hT => absurd hT (hnever T)

theorem wellFormed_step (hs : Step lockedBy s e t) (ha : Accurate s e) (hw : WellFormed s) :
    WellFormed t := by
  cases e with
  | tick =>
    have he := exclusive_step hs hw.exclusive
    cases hs with
    | tick hle =>
      refine ⟨he, hw.valid, hw.started, fun i l hl T hT => ?_, hw.ends⟩
      rcases hw.lasts i l hl T hT with hunlocked | hover | hcarried
      · exact .inl hunlocked
      · exact .inr (.inl (le_trans hover hle))
      · exact .inr (.inr hcarried)
  | refused => rwa [refused_same hs]
  | locked i config => exact wellFormed_locked hw hs ha
  | unlocked i => exact wellFormed_unlocked hw hs
  | extended i newConfig => exact wellFormed_extended hw hs ha

/-- The runs in which the clocks of the clients show the time of the database. -/
def accurate (lockedBy : ℕ → String) : TransitionSystem System Event :=
  (system lockedBy).guarded Accurate

theorem wellFormed_reachable (h : (accurate lockedBy).Reachable s) : WellFormed s := by
  refine h.invariant ?_ (fun _ _ _ _ hs hw => wellFormed_step hs.1 hs.2 hw)
  rintro s ⟨hacquired, hlocks⟩
  refine ⟨?_, ?_, ?_, ?_, ?_⟩
  · intro i name d ho _
    cases (Tenancy.board_none (hlocks i)).symm.trans ho
  · intro i l hl
    cases (hlocks i).symm.trans hl
  · exact fun i _ => hacquired i
  · intro i l hl
    cases (hlocks i).symm.trans hl
  · intro i l hl
    cases (hlocks i).symm.trans hl

/-- What the option promises of an acquisition at the database time `T`, and when it keeps it: a row
that nothing writes blocks the others exactly until `T + lockAtMostFor` if and only if it was taken
on time; and in the runs in which the clients are, nobody takes a row before that time unless it was
unlocked, and from then on anybody does unless it was extended. -/
theorem serverTime_lease :
    (∀ s i config t, Step lockedBy s (.locked i config) t →
      ((∀ as u, (system lockedBy).Run t as u → u.table config.name = t.table config.name →
        ∀ lockedByValue config', config'.name = config.name →
          ((updateStatement (params lockedByValue u.clock config' none) u.table).2.succeeded =
            true ↔ s.clock + config.lockAtMostFor ≤ u.clock)) ↔ OnTime config s.clock)) ∧
    ∀ s, (accurate lockedBy).Reachable s → ∀ i l T, s.acquired i = some T → s.locks i = some l →
      ((∀ k a, s.locks k = some a → a.phase ≠ .unlocked i) → ∀ j config t,
        Step lockedBy s (.locked j config) t → config.name = l.config.name →
        T + l.config.lockAtMostFor ≤ s.clock) ∧
      ((∀ root, l.phase ≠ .extended root) → s.tenant l.config.name = i →
        T + l.config.lockAtMostFor ≤ s.clock → ∀ lockedByValue config,
        config.name = l.config.name →
        (updateStatement (params lockedByValue s.clock config none) s.table).2.succeeded =
          true) := by
  constructor
  · intro s i config t hs
    exact blocks_iff_onTime hs
  · intro s h i l T hT hl
    have hw := wellFormed_reachable h
    constructor
    · intro hnever j config t hs hname
      obtain ⟨-, -, hfree, -⟩ := acquired_cases hs
      rcases hw.lasts i l hl T hT with ⟨k, a, hk, hunlocked⟩ | hover |
        ⟨_, _, row, _, _, _, _, hrow, hle⟩
      · exact absurd hunlocked (hnever k a hk)
      · exact hover
      · exact le_trans hle (hfree row (hname ▸ hrow))
    · intro hphase htenant hover lockedByValue config hname
      obtain ⟨row, hrow, hle⟩ := hw.ends i l hl T hT hphase htenant
      rw [← hname] at hrow
      exact (updateStatement_succeeded hrow).mpr (le_trans hle hover)

def nightly (createdAt : ℚ) : LockConfiguration ℚ :=
  { name := "nightly", lockAtMostFor := 60000, lockAtLeastFor := 5000, createdAt }

abbrev oneHost : ℕ → String := fun _ => "worker"

/-- The table has no row, and the clock of the database is at one minute. -/
def idle : System := ⟨60000, fun _ => none, fun _ => 0, fun _ => none, fun _ => none⟩

/-- The row has been taken by a client that read `createdAt` off its clock. -/
def takenAt (createdAt : ℚ) : System :=
  idle.acquire 0 (nightly createdAt)
    (update idle.table "nightly" (some (taken "worker" 60000 (nightly createdAt))))

theorem nightly_valid (createdAt : ℚ) : (nightly createdAt).DurationsValid := by
  constructor
  · change (0 : ℚ) ≤ 5000
    decide +kernel
  · change (5000 : ℚ) ≤ 60000
    decide +kernel

theorem takenAt_step {createdAt : ℚ} :
    Step oneHost idle (.locked 0 (nightly createdAt)) (takenAt createdAt) :=
  .inserted rfl (nightly_valid createdAt) rfl rfl

theorem takenOnTime : OnTime (nightly 60000) 60000 := .inl (by decide +kernel)

/-- Another client, whose clock is half a minute behind, asks in vain. -/
theorem takenOnTime_refuses : Step oneHost (takenAt 60000) .refused (takenAt 60000) := by
  have hno : (updateStatement (params "worker" 60000 (nightly 30000) none)
      (takenAt 60000).table).2.succeeded = false := by
    rw [Bool.eq_false_iff, ne_eq, updateStatement_succeeded rfl]
    decide +kernel
  have hs := @Step.updateRefused oneHost (takenAt 60000) 1 (nightly 30000) _ _ rfl hno
  rw [refused_same hs] at hs
  exact hs

/-- The row was taken by a client whose clock is right: a minute later it may be taken by one whose
clock is half a minute behind. -/
theorem takenOnTime_over : (updateStatement (params "other" 120000 (nightly 90000) none)
    (takenAt 60000).table).2.succeeded = true := by
  have h₀ : (accurate oneHost).Reachable idle := .initial ⟨fun _ => rfl, fun _ => rfl⟩
  have h₁ : (accurate oneHost).Reachable (takenAt 60000) := h₀.step ⟨takenAt_step, takenOnTime⟩
  have h₂ : (accurate oneHost).Reachable { takenAt 60000 with clock := 120000 } :=
    (h₁.step ⟨takenOnTime_refuses, trivial⟩).step (a := .tick)
      ⟨.tick (by decide +kernel), trivial⟩
  exact (serverTime_lease.2 _ h₂ 0 ⟨nightly 60000, .held 0⟩ 60000 rfl rfl).2 nofun rfl
    (by decide +kernel) "other" (nightly 90000) rfl

/-- A client whose clock is half a minute behind has taken the row for a minute; half a minute later
another one takes it, and nobody has unlocked it. -/
theorem taken_early : ∃ s t l, (system oneHost).Reachable s ∧ s.acquired 0 = some 60000 ∧
    s.locks 0 = some l ∧ l.config = nightly 30000 ∧
    (∀ k a root, s.locks k = some a → a.phase ≠ .unlocked root) ∧
    Step oneHost s (.locked 1 (nightly 60000)) t ∧
    s.clock < 60000 + (nightly 30000).lockAtMostFor := by
  have h₀ : (system oneHost).Reachable idle := .initial ⟨fun _ => rfl, fun _ => rfl⟩
  have h₁ : (system oneHost).Reachable { takenAt 30000 with clock := 90000 } :=
    (h₀.step takenAt_step).step (a := .tick) (.tick (by decide +kernel))
  have hupdated : (updateStatement (params "worker" 90000 (nightly 60000) none)
      (takenAt 30000).table).2.succeeded = true :=
    (updateStatement_succeeded rfl).mpr (by decide +kernel)
  have hs := @Step.updated oneHost { takenAt 30000 with clock := 90000 } 1 (nightly 60000) _ _ rfl
    (nightly_valid 60000) rfl hupdated
  refine ⟨_, _, ⟨nightly 30000, .held 0⟩, h₁, rfl, rfl, rfl, ?_, hs, by decide +kernel⟩
  intro k a root hk
  rcases k with _ | k
  · cases hk
    nofun
  · cases hk

end Tslock.Sql.ServerTime
