import Mathlib.Tactic.Common
import Tslock.Foundation.Tenancy
import Tslock.Redis.RedisLockProvider

/-! The keys and the acquisitions are leased cells: the UUID in the value of a key is its tenant. -/
namespace Tslock.Redis

open Function Foundation

variable {s t u v : System} {e : Event} {as : List Event} {id : String} {l : RedisLock}

/-- The key an acquisition counts on, and until when. -/
def RedisLock.counts (l : RedisLock) : Option (String × ℚ) :=
  if l.phase.Outstanding then some (l.key, l.config.lockAtMostUntil) else none

def Entry.tenant (e : Entry) : Option (String × ℚ) := some (randomIdOf e.value, e.expiresAt)

def System.register (s : System) : Tenancy.Register String String ℚ where
  now := s.clock
  outstanding := Tenancy.board RedisLock.counts s.locks
  cell := Tenancy.board Entry.tenant s.keys

/-- What was computed from an earlier reading of the clock reaches at least as far when it is added
to a later one. -/
def Phase.Sound (clock : ℚ) (config : LockConfiguration ℚ) : Phase → Prop
  | .locking expireMs => config.lockAtMostUntil ≤ clock + expireMs
  | .extending newConfig => newConfig.DurationsValid
  | .extendSent newConfig expireMs =>
    newConfig.DurationsValid ∧ newConfig.lockAtMostUntil ≤ clock + expireMs
  | .unlocking keepLockFor => config.lockAtLeastUntil ≤ clock + keepLockFor
  | .refused | .rejected | .held | .unlocked => True

structure RedisLock.Sound (clock : ℚ) (id : String) (l : RedisLock) : Prop where
  value : randomIdOf l.value = id
  durations : l.config.DurationsValid
  phase : l.phase.Sound clock l.config

def WellFormed (s : System) : Prop := ∀ id l, s.locks id = some l → l.Sound s.clock id

theorem Phase.Sound.mono {clock later : ℚ} {config : LockConfiguration ℚ} {phase : Phase}
    (h : phase.Sound clock config) (hle : clock ≤ later) : phase.Sound later config := by
  cases phase with
  | locking | unlocking =>
    simp only [Phase.Sound] at h ⊢
    linarith
  | extendSent =>
    refine ⟨h.1, ?_⟩
    linarith [h.2]
  | extending => exact h
  | refused | rejected | held | unlocked => trivial

theorem wellFormed_setLock {keys : Keys} (hw : WellFormed s) (hl : l.Sound s.clock id) :
    WellFormed ({ s with keys }.setLock id l) := by
  intro j k hk
  rcases Tenancy.of_insert hk with ⟨rfl, rfl⟩ | ⟨_, hold⟩
  · exact hl
  · exact hw j k hold

/-- A call keeps its value; only an extension changes the configuration. -/
theorem RedisLock.Sound.set {clock : ℚ} {phase : Phase} (h : l.Sound clock id)
    (hp : phase.Sound clock l.config) : ({ l with phase } : RedisLock).Sound clock id :=
  ⟨h.value, h.durations, hp⟩

theorem sub_reaches {a c : ℚ} : a ≤ c + max 0 (a - c) := by
  have h := le_max_right 0 (a - c)
  linarith

theorem wellFormed_step (hs : Step s e t) (hw : WellFormed s) : WellFormed t := by
  cases hs with
  | tick hle => exact fun id l hl =>
      ⟨(hw id l hl).value, (hw id l hl).durations, (hw id l hl).phase.mono hle⟩
  | expire => exact hw
  | lock hs =>
    cases hs with
    | called _ hid hd =>
      exact wellFormed_setLock hw ⟨randomIdOf_buildValue hid, hd, sub_reaches⟩
    | @replied l _ _ reply hl _ _ =>
      have hsound := hw _ _ hl
      refine wellFormed_setLock hw ?_
      match reply with
      | some true | some false | none => exact hsound.set trivial
    | fails hl => exact wellFormed_setLock hw ((hw _ _ hl).set trivial)
  | extend hs =>
    cases hs with
    | called hl _ hleast hmost => exact wellFormed_setLock hw ((hw _ _ hl).set ⟨hleast, hmost⟩)
    | sent hl hp =>
      have hphase := (hw _ _ hl).phase
      rw [hp] at hphase
      exact wellFormed_setLock hw ((hw _ _ hl).set ⟨hphase, sub_reaches⟩)
    | @replied l newConfig _ _ reply hl hp _ =>
      have hsound := hw _ _ hl
      have hphase := hsound.phase
      rw [hp] at hphase
      refine wellFormed_setLock hw ?_
      match reply with
      | some true => exact ⟨hsound.value, hphase.1, trivial⟩
      | some false | none => exact hsound.set trivial
    | fails hl => exact wellFormed_setLock hw ((hw _ _ hl).set trivial)
  | unlock hs =>
    cases hs with
    | called hl =>
      refine wellFormed_setLock hw ((hw _ _ hl).set ?_)
      simp only [Phase.Sound]
      linarith
    | @replied l _ _ reply hl _ _ =>
      have hsound := hw _ _ hl
      refine wellFormed_setLock hw ?_
      match reply with
      | some _ | none => exact hsound.set trivial
    | fails hl => exact wellFormed_setLock hw ((hw _ _ hl).set trivial)

theorem wellFormed_reachable (h : system.Reachable s) : WellFormed s := by
  refine h.invariant ?_ (fun _ _ _ _ hs hw => wellFormed_step hs hw)
  rintro s ⟨-, hl⟩ id l h
  rw [hl id] at h
  cases h

/-- Each value stored on the server is the one of the acquisition with its UUID. -/
def Values (s : System) : Prop := ∀ key entry, s.keys key = some entry →
  ∃ l, s.locks (randomIdOf entry.value) = some l ∧ l.value = entry.value

theorem values_setLock {keys : Keys} {l' : RedisLock} (hv : Values s) (hw : WellFormed s)
    (hl : s.locks id = some l) (hsame : l'.value = l.value)
    (hkeys : ∀ key entry, keys key = some entry → s.keys key = some entry ∨ entry.value = l.value) :
    Values ({ s with keys }.setLock id l') := by
  intro key entry hk
  have hfound : ∃ k, s.locks (randomIdOf entry.value) = some k ∧ k.value = entry.value := by
    rcases hkeys key entry hk with hold | heq
    · exact hv key entry hold
    · rw [heq, (hw id l hl).value]
      exact ⟨l, hl, rfl⟩
  obtain ⟨k, hk, hvalue⟩ := hfound
  by_cases hid : randomIdOf entry.value = id
  · refine ⟨l', by simp [System.setLock, hid], ?_⟩
    rw [hid] at hk
    cases hl.symm.trans hk
    exact hsame.trans hvalue
  · exact ⟨k, by simpa [System.setLock, hid] using hk, hvalue⟩

/-- What a request may store under a key: what was there, or its own value. -/
theorem of_update_key {keys : Keys} {key value : String} {expiresAt : ℚ} {p : Prop} [Decidable p]
    {k : String} {entry : Entry}
    (h : update keys key (if p then some ⟨value, expiresAt⟩ else none) k = some entry) :
    keys k = some entry ∨ entry.value = value := by
  by_cases hk : k = key
  · subst hk
    split_ifs at h with hp
    · obtain rfl : ⟨value, expiresAt⟩ = entry := by simpa using h
      exact .inr rfl
    · simp at h
  · exact .inl (by simpa [hk] using h)

theorem values_step (hs : Step s e t) (hw : WellFormed s) (hv : Values s) : Values t := by
  cases hs with
  | tick => exact hv
  | expire =>
    intro k entry hk
    exact hv k entry (Tenancy.of_erase hk).2
  | lock hs =>
    cases hs with
    | @called hostname isoNow provider config hnone =>
      intro key entry hk
      obtain ⟨k, hlock, hvalue⟩ := hv key entry hk
      refine ⟨k, ?_, hvalue⟩
      rw [← hlock]
      apply update_of_ne
      rintro heq
      rw [heq, hnone] at hlock
      cases hlock
    | @replied l expireMs keys reply hl hp hset =>
      rcases eq_or_ne reply (some true) with rfl | hne
      · obtain ⟨hfree, rfl⟩ := setIfAbsent_granted hset
        refine values_setLock hv hw hl rfl ?_
        intro k entry hk
        exact of_update_key (p := True) (by simpa using hk)
      · obtain rfl := setIfAbsent_other hset hne
        refine values_setLock hv hw hl ?_ fun _ _ => .inl
        match reply with
        | some true | some false | none => rfl
    | fails hl => exact values_setLock hv hw hl rfl fun _ _ => .inl
  | extend hs =>
    cases hs with
    | called hl | sent hl | fails hl => exact values_setLock hv hw hl rfl fun _ _ => .inl
    | @replied l newConfig expireMs keys reply hl hp hscript =>
      have hvalue : (l.afterExtend newConfig reply).value = l.value := by
        match reply with
        | some true | some false | none => rfl
      refine values_setLock hv hw hl hvalue ?_
      rcases expireIfEquals_cases hscript with ⟨rfl, -, rfl⟩ | ⟨hne, -, rfl⟩
      · intro k entry hk
        rw [← ite_not] at hk
        exact of_update_key hk
      · exact fun _ _ => .inl
  | unlock hs =>
    cases hs with
    | called hl | fails hl => exact values_setLock hv hw hl rfl fun _ _ => .inl
    | @replied l keepLockFor keys reply hl hp hscript =>
      have hvalue : (l.afterUnlock reply).value = l.value := by
        match reply with
        | some _ | none => rfl
      refine values_setLock hv hw hl hvalue ?_
      rcases unlockScript_cases hscript with ⟨rfl, -, rfl⟩ | ⟨hne, -, rfl⟩
      · exact fun _ _ => of_update_key
      · exact fun _ _ => .inl

theorem values_reachable (h : system.Reachable s) : Values s := by
  refine h.invariant ?_ (fun _ _ _ hr hs hv => values_step hs (wellFormed_reachable hr) hv)
  rintro s ⟨hk, -⟩ key entry h
  rw [hk key] at h
  cases h

theorem register_setLock {keys : Keys} : ({ s with keys }.setLock id l).register =
    { s.register with
      outstanding := update s.register.outstanding id l.counts
      cell := Tenancy.board Entry.tenant keys } := by
  simp only [System.register, System.setLock]
  rw [Tenancy.board_update, Option.bind_some]

theorem cell_update {key : String} {x : Option Entry} :
    Tenancy.board Entry.tenant (update s.keys key x) =
      update s.register.cell key (x.bind Entry.tenant) := by
  rw [Tenancy.board_update]
  rfl

theorem outstanding_of (hl : s.locks id = some l) : s.register.outstanding id = l.counts :=
  Tenancy.board_some hl

theorem counts_of (ho : l.phase.Outstanding) :
    l.counts = some (l.key, l.config.lockAtMostUntil) := if_pos ho

theorem counts_none (ho : ¬ l.phase.Outstanding) : l.counts = none := if_neg ho

theorem counts_afterSet (reply : Option Bool) : (l.afterSet reply).counts =
    if reply = some true then some (l.key, l.config.lockAtMostUntil) else none := by
  match reply with
  | some true | some false | none => rfl

theorem counts_afterUnlock (b : Bool) : (l.afterUnlock (some b)).counts = none := rfl

/-- A call that goes on, or ends, without a write and without a change of what it counts on. -/
theorem register_setPhase {phase : Phase} (hl : s.locks id = some l)
    (ho : phase.Outstanding ↔ l.phase.Outstanding) :
    (s.setPhase id l phase).register = s.register := by
  have hcounts : ({ l with phase } : RedisLock).counts = l.counts := by
    simp only [RedisLock.counts, ho]
  simp only [System.register, System.setPhase, System.setLock]
  rw [Tenancy.board_update_same]
  rw [Option.bind_some, hcounts]
  exact outstanding_of hl

/-- A key that holds the value of an acquisition is a cell of that tenant. -/
theorem cell_of_value {entry : Entry} (hl : l.Sound s.clock id) (hk : s.keys l.key = some entry)
    (hv : entry.value = l.value) : s.register.cell l.key = some (id, entry.expiresAt) := by
  have hcell : s.register.cell l.key = entry.tenant := Tenancy.board_some hk
  rw [hcell, Entry.tenant, hv, hl.value]

theorem holds_of_value {entry : Entry} (hw : WellFormed s) (hl : s.locks id = some l)
    (ho : l.phase.Outstanding) (hk : s.keys l.key = some entry) (hv : entry.value = l.value) :
    s.register.Holds id l.key :=
  ⟨_, id, _, (outstanding_of hl).trans (counts_of ho), cell_of_value (hw id l hl) hk hv, .inl rfl⟩

theorem register_lockStep (hw : WellFormed s) (hs : LockStep s id t) :
    t.register = s.register ∨ ∃ b, Tenancy.Step s.register b t.register := by
  cases hs with
  | called hnone =>
    left
    have hnothing : s.register.outstanding id = none := Tenancy.board_none hnone
    rw [register_setLock]
    rw [update_eq_self_iff.mpr hnothing.symm]
    rfl
  | @replied l expireMs keys reply hl hp hset =>
    have hcounts : s.register.outstanding id = none := by
      rw [outstanding_of hl, counts_none]
      rw [hp]
      exact not_false
    rcases eq_or_ne reply (some true) with rfl | hne
    · obtain ⟨hfree, rfl⟩ := setIfAbsent_granted hset
      right
      refine ⟨.grant id l.key, ?_⟩
      rw [register_setLock, cell_update, counts_afterSet, if_pos rfl]
      refine .grant hcounts ?_ ?_
      · intro w t hc
        rw [show s.register.cell l.key = none from Tenancy.board_none hfree] at hc
        cases hc
      · intro _
        have hreach := (hw id l hl).phase
        rw [hp] at hreach
        refine ⟨s.clock + expireMs, ?_, hreach⟩
        rw [Option.bind_some, Entry.tenant, (hw id l hl).value]
    · left
      obtain rfl := setIfAbsent_other hset hne
      rw [register_setLock, counts_afterSet, if_neg hne, ← hcounts, update_eq_self]
      rfl
  | fails hl hp =>
    left
    exact register_setPhase hl (by simp [Phase.Outstanding, hp])

theorem register_extendStep (hw : WellFormed s) (hs : ExtendStep s id t) :
    t.register = s.register ∨ ∃ b, Tenancy.Step s.register b t.register := by
  cases hs with
  | called hl hp | sent hl hp | fails hl hp =>
    left
    exact register_setPhase hl (by simp [Phase.Outstanding, hp])
  | @replied l newConfig expireMs keys reply hl hp hscript =>
    have ho : l.phase.Outstanding := by
      rw [hp]
      trivial
    rcases expireIfEquals_cases hscript with ⟨rfl, ⟨entry, hk, hv⟩, rfl⟩ | ⟨hne, -, rfl⟩
    · right
      refine ⟨.renew id id l.key, ?_⟩
      rw [register_setLock, cell_update]
      have hrenew := Tenancy.Step.renew (d := newConfig.lockAtMostUntil)
        (x := (if expireMs ≤ 0 then none else some ⟨l.value, s.clock + expireMs⟩ :
          Option Entry).bind Entry.tenant)
        (holds_of_value hw hl ho hk hv) (update_self id none s.register.outstanding) ?_
      · rwa [update_idem] at hrenew
      · intro hlive
        have hreach := (hw id l hl).phase
        rw [hp] at hreach
        have hpositive : ¬ expireMs ≤ 0 := by
          intro hle
          have hlive' : s.clock < newConfig.lockAtMostUntil := hlive
          linarith [hreach.2]
        refine ⟨s.clock + expireMs, ?_, hreach.2⟩
        rw [if_neg hpositive, Option.bind_some, Entry.tenant, (hw id l hl).value]
    · left
      have hsame : l.afterExtend newConfig reply = { l with phase := .held } := by
        match reply with
        | some true => exact absurd rfl hne
        | some false | none => rfl
      rw [hsame]
      exact register_setPhase hl (by simp [Phase.Outstanding, hp])

/-- A handle that is unlocked gives its key up, with or without a write. -/
theorem register_unlocked {keys : Keys} {keepLockFor : ℚ} {reply : Option Bool} (hw : WellFormed s)
    (hl : s.locks id = some l) (hp : l.phase = .unlocking keepLockFor)
    (hscript : unlockScript s.clock l.key l.value keepLockFor s.keys = (keys, reply)) :
    ({ s with keys }.setLock id (l.afterUnlock reply)).register = s.register ∨
      ∃ b, Tenancy.Step s.register b
        (({ s with keys }.setLock id (l.afterUnlock reply)).register) := by
  have ho : l.phase.Outstanding := by
    rw [hp]
    trivial
  rcases unlockScript_cases hscript with ⟨rfl, ⟨entry, hk, hv⟩, rfl⟩ | ⟨hne, -, rfl⟩
  · right
    refine ⟨.release id l.key, ?_⟩
    rw [register_setLock, cell_update, counts_afterUnlock]
    exact .release (holds_of_value hw hl ho hk hv)
  · match reply with
    | some _ =>
      right
      refine ⟨.drop id, ?_⟩
      rw [register_setLock, counts_afterUnlock]
      exact .drop
    | none =>
      left
      exact register_setPhase hl (by simp [Phase.Outstanding, hp])

theorem register_unlockStep (hw : WellFormed s) (hs : UnlockStep s id t) :
    t.register = s.register ∨ ∃ b, Tenancy.Step s.register b t.register := by
  cases hs with
  | called hl hp | fails hl hp =>
    left
    exact register_setPhase hl (by simp [Phase.Outstanding, hp])
  | replied hl hp hscript => exact register_unlocked hw hl hp hscript

/-- Keys and acquisitions behave as leased cells in every run. -/
theorem register_abstraction : system.Abstraction Tenancy.system System.register where
  initial s h id := Tenancy.board_none (h.2 id)
  step s e t hr hs := by
    have hw := wellFormed_reachable hr
    cases hs with
    | tick hle => exact .inr ⟨.advance _, .advance hle⟩
    | @expire key entry hk hover =>
      right
      refine ⟨.lapse key, ?_⟩
      have hlapse := Tenancy.Step.lapse (r := s.register) (k := key) ?_
      · have hgone : (none : Option Entry).bind Entry.tenant = none := rfl
        rwa [← hgone, ← cell_update] at hlapse
      · intro w t hc
        rw [show s.register.cell key = entry.tenant from Tenancy.board_some hk] at hc
        cases hc
        exact hover
    | lock hs => exact register_lockStep hw hs
    | extend hs => exact register_extendStep hw hs
    | unlock hs => exact register_unlockStep hw hs

theorem register_exclusive (h : system.Reachable s) : Tenancy.Exclusive s.register :=
  Tenancy.exclusive_reachable (register_abstraction.reachable h)

/-- The current handle of an acquisition, neither unlocked nor extended, whose deadline is still in
the future. -/
structure Live (s : System) (id : String) (l : RedisLock) : Prop where
  lock : s.locks id = some l
  outstanding : l.phase.Outstanding
  unexpired : s.clock < l.config.lockAtMostUntil

theorem Live.register (hl : Live s id l) : s.register.Live id l.key :=
  ⟨_, (outstanding_of hl.lock).trans (counts_of hl.outstanding), hl.unexpired⟩

/-- A live handle finds its value in its key. -/
theorem Live.stored (h : system.Reachable s) (hl : Live s id l) :
    ∃ entry, s.keys l.key = some entry ∧ entry.value = l.value := by
  obtain ⟨t, hc, -⟩ := register_exclusive h id l.key l.config.lockAtMostUntil
    ((outstanding_of hl.lock).trans (counts_of hl.outstanding)) hl.unexpired
  obtain ⟨entry, hk, htenant⟩ := Option.bind_eq_some_iff.mp hc
  obtain ⟨k, hlock, hvalue⟩ := values_reachable h l.key entry hk
  cases htenant
  cases hl.lock.symm.trans hlock
  exact ⟨entry, hk, hvalue.symm⟩

/-- A script of a handle leaves the keys with other values alone. -/
theorem keys_other {key : String} {entry : Entry}
    (hs : Step s (.extend id) t ∨ Step s (.unlock id) t) (hk : s.keys key = some entry)
    (hother : ∀ l, s.locks id = some l → entry.value ≠ l.value) : t.keys key = some entry := by
  have hwrite : ∀ {l x}, s.locks id = some l → (∃ e, s.keys l.key = some e ∧ e.value = l.value) →
      update s.keys l.key x key = some entry := by
    rintro l x hl ⟨e, he, hvalue⟩
    have hne : key ≠ l.key := by
      rintro rfl
      cases he.symm.trans hk
      exact hother l hl hvalue
    simpa [hne] using hk
  rcases hs with hs | hs
  · cases hs with
    | extend hs =>
      cases hs with
      | called | sent | fails => exact hk
      | replied hl hp hscript =>
        rcases expireIfEquals_cases hscript with ⟨-, hfound, rfl⟩ | ⟨-, -, rfl⟩
        · exact hwrite hl hfound
        · exact hk
  · cases hs with
    | unlock hs =>
      cases hs with
      | called | fails => exact hk
      | replied hl hp hscript =>
        rcases unlockScript_cases hscript with ⟨-, hfound, rfl⟩ | ⟨-, -, rfl⟩
        · exact hwrite hl hfound
        · exact hk

/-- The step that completes an `unlock()` leaves the key to its minimum hold. -/
theorem left_of_unlocked {l' : RedisLock} (h : system.Reachable s) (hs : Step s (.unlock id) t)
    (hl : s.locks id = some l) (ho : l.phase.Outstanding) (hl' : t.locks id = some l')
    (hp' : l'.phase = .unlocked) (hmin : s.clock < l.config.lockAtLeastUntil) :
    ∃ expiry, Tenancy.Left t.register id l.key expiry ∧ l.config.lockAtLeastUntil ≤ expiry := by
  have hsound := wellFormed_reachable h id l hl
  have hlive : Live s id l := by
    refine ⟨hl, ho, lt_of_lt_of_le hmin ?_⟩
    have hle := hsound.durations.2
    simp only [LockConfiguration.lockAtLeastUntil, LockConfiguration.lockAtMostUntil]
    linarith
  obtain ⟨entry, hk, hvalue⟩ := hlive.stored h
  cases hs with
  | unlock hs =>
    cases hs with
    | called | fails =>
      cases Option.some.inj (hl'.symm.trans (update_self id _ _))
      cases hp'
    | @replied k keepLockFor keys reply hlock hp hscript =>
      cases hl.symm.trans hlock
      have hphase := hsound.phase
      rw [hp] at hphase
      have hkeep : 0 < keepLockFor := by
        simp only [Phase.Sound] at hphase
        linarith
      rcases unlockScript_cases hscript with ⟨rfl, -, rfl⟩ | ⟨hne, hmissing, rfl⟩
      · refine ⟨s.clock + keepLockFor, ⟨?_, ?_⟩, hphase⟩
        · rw [register_setLock, cell_update, if_pos hkeep, Option.bind_some, Entry.tenant,
            hsound.value]
          exact update_self _ _ _
        · intro d hd
          rw [register_setLock, counts_afterUnlock] at hd
          simp at hd
      · have hreply : reply = some false := by
          match reply with
          | some true => exact absurd rfl hne
          | some false => rfl
          | none =>
            cases Option.some.inj (hl'.symm.trans (update_self id _ _))
            cases hp'
        exact absurd (by rw [hk, Option.map_some, hvalue]) (hmissing hreply)

/-- A cell left behind is a key that refuses every `SET NX`. -/
theorem blocks_of_left {key : String} {expiry : ℚ} (hl : Tenancy.Left s.register id key expiry) :
    (∃ entry, s.keys key = some entry ∧ randomIdOf entry.value = id) ∧
    ∀ value ms, (setIfAbsent s.clock key value ms s.keys).2 ≠ some true := by
  obtain ⟨entry, hk, htenant⟩ := Option.bind_eq_some_iff.mp hl.cell
  cases htenant
  refine ⟨⟨entry, hk, rfl⟩, ?_⟩
  intro value ms hset
  have hnone := (setIfAbsent_granted (Prod.ext rfl hset)).1
  rw [hk] at hnone
  cases hnone

/-- The token protocol: at most one live handle for each key, scripts that leave the keys of other
acquisitions alone, and a minimum hold that blocks every other `lock()`. -/
theorem redis_token_protocol (h : system.Reachable s) :
    (∀ i j a b, Live s i a → Live s j b → a.key = b.key → i = j) ∧
    (∀ id t key entry, Step s (.extend id) t ∨ Step s (.unlock id) t →
      s.keys key = some entry → (∀ l, s.locks id = some l → entry.value ≠ l.value) →
      t.keys key = some entry) ∧
    ∀ id l l' t as u, Step s (.unlock id) t → s.locks id = some l → l.phase.Outstanding →
      t.locks id = some l' → l'.phase = .unlocked → system.Run t as u →
      u.clock < l.config.lockAtLeastUntil →
      (∃ entry, u.keys l.key = some entry ∧ randomIdOf entry.value = id) ∧
      ∀ value ms, (setIfAbsent u.clock l.key value ms u.keys).2 ≠ some true := by
  refine ⟨?_, ?_, ?_⟩
  · intro i j a b ha hb hkey
    exact (register_exclusive h).unique ha.register (hkey ▸ hb.register)
  · intro id t key entry hs hk hother
    exact keys_other hs hk hother
  · intro id l l' t as u hs hl ho hl' hp' hr hmin
    have ht := h.step hs
    obtain ⟨bs, hrun⟩ := register_abstraction.run ht hr
    have hbefore : s.clock ≤ u.clock := by
      have hst : s.clock = t.clock := by
        cases hs with
        | unlock hs => cases hs <;> rfl
      rw [hst]
      exact Tenancy.now_run hrun
    obtain ⟨expiry, hleft, hreach⟩ :=
      left_of_unlocked h hs hl ho hl' hp' (lt_of_le_of_lt hbefore hmin)
    exact blocks_of_left
      (hleft.run (register_exclusive ht) hrun (lt_of_lt_of_le hmin hreach)).1

def nightlyId : String := "00000000-0000-4000-8000-000000000000"

def nightly : RedisLock where
  key := RedisLockProviderConfig.buildKey ⟨none, none⟩ "nightly"
  value := buildValue ⟨"host", "1970-01-01T00:01:00.000Z", nightlyId⟩
  config := { name := "nightly", lockAtMostFor := 60000, lockAtLeastFor := 5000, createdAt := 0 }
  phase := .locking (max 0 (0 + 60000 - 0))

/-- `nightly` has its key, and the script of its `unlock()` is on the way. -/
def nightlyUnlocking : System :=
  let held : System :=
    { clock := 0
      keys := update (fun _ => none) nightly.key (some ⟨nightly.value, 0 + max 0 (0 + 60000 - 0)⟩)
      locks := update (update (fun _ => none) nightlyId (some nightly)) nightlyId
        (some { nightly with phase := .held }) }
  held.setPhase nightlyId { nightly with phase := .held } (.unlocking (0 + 5000 - 0))

theorem nightlyUnlocking_reachable : system.Reachable nightlyUnlocking := by
  let s₀ : System := ⟨0, fun _ => none, fun _ => none⟩
  have h₀ : system.Reachable s₀ := .initial ⟨fun _ => rfl, fun _ => rfl⟩
  have hcalled : LockStep s₀ nightlyId (s₀.setLock nightlyId nightly) :=
    @LockStep.called s₀ nightlyId "host" "1970-01-01T00:01:00.000Z" ⟨none, none⟩ nightly.config
      rfl (by decide) (by decide +kernel) (by decide +kernel) (by decide +kernel)
  have hset : setIfAbsent 0 nightly.key nightly.value (max 0 (0 + 60000 - 0)) (fun _ => none) =
      (update (fun _ => none) nightly.key
        (some ⟨nightly.value, 0 + max 0 (0 + 60000 - 0)⟩), some true) := by
    rw [setIfAbsent, if_neg (by decide +kernel)]
  exact ((h₀.step (.lock hcalled)).step (.lock (.replied rfl rfl hset))).step
    (.unlock (.called rfl rfl))

/-- The key is kept for the minimum hold. -/
def nightlyUnlocked : System :=
  { nightlyUnlocking with
    keys := update nightlyUnlocking.keys nightly.key
      (some ⟨nightly.value, 0 + (0 + 5000 - 0)⟩) }.setLock nightlyId
    { nightly with phase := .unlocked }

theorem nightlyUnlocked_blocks :
    (setIfAbsent 0 nightly.key "other" 1000 nightlyUnlocked.keys).2 ≠ some true := by
  have hscript : unlockScript 0 nightly.key nightly.value (0 + 5000 - 0) nightlyUnlocking.keys =
      (nightlyUnlocked.keys, some true) := by
    rw [unlockScript, if_pos (by decide +kernel), expireIfEquals,
      if_pos (by decide +kernel), if_neg (by decide +kernel), if_neg (by decide +kernel)]
    rfl
  have hstep : Step nightlyUnlocking (.unlock nightlyId) nightlyUnlocked :=
    .unlock (.replied (l := { nightly with phase := .unlocking (0 + 5000 - 0) }) rfl rfl hscript)
  exact ((redis_token_protocol nightlyUnlocking_reachable).2.2 nightlyId _ _ _ [] _ hstep rfl
    trivial rfl rfl .refl (by decide +kernel)).2 "other" 1000

end Tslock.Redis
