import Tslock.Etcd.EtcdAccessor

/-! Keys and handles as leased cells: the tenant of a name is the call whose lease its key is
attached to, and each lease is put under a key once. -/
namespace Tslock.Etcd

open Function Foundation

variable {setup : Setup} {s t u : System} {e : Event} {as : List Event} {i j x y : ℕ}
  {l : LockCall Phase ℚ} {config : LockConfiguration ℚ} {name k : String} {grant : LeaseGrant}

def System.cell (setup : Setup) (s : System) (name : String) : Option (ℕ × ℚ) :=
  (s.store.tenant (setup.key name)).map fun grant => (grant.owner, grant.ttlEnd)

def System.register (setup : Setup) (s : System) : Tenancy.Register ℕ String ℚ :=
  LockTable.register Phase.Outstanding s.clock s.locks (s.cell setup)

/-- A lease of the call, for its name, with a time to live that reaches the given instant. -/
def Owned (s : System) (i : ℕ) (config : LockConfiguration ℚ) (x : ℕ) (instant : ℚ) : Prop :=
  ∃ grant, s.store.granted x = some grant ∧ grant.owner = i ∧ grant.name = config.name ∧
    instant ≤ grant.ttlEnd

/-- Some key is attached to this lease of the call. -/
def Attached (s : System) (i x : ℕ) : Prop :=
  ∃ k grant, s.store.Attached k x ∧ s.store.granted x = some grant ∧ grant.owner = i

/-- What `unlock()` relies on between its requests. -/
def UnlockStage.Sound (s : System) (i : ℕ) (config : LockConfiguration ℚ) (lease : ℕ) :
    UnlockStage → Prop
  | .valid => True
  | .granting _ ttlSeconds => config.lockAtLeastUntil ≤ s.clock + 1000 * ttlSeconds
  | .committing _ newLease =>
    Owned s i config newLease config.lockAtLeastUntil ∧ newLease ≠ lease ∧ ¬ Attached s i newLease
  | .failing newLease =>
    Owned s i config newLease config.lockAtLeastUntil ∧ ¬ Attached s i newLease
  | .dropping newLease =>
    Owned s i config newLease config.lockAtLeastUntil ∧ ¬ Attached s i newLease ∧
      ¬ Attached s i lease
  | .revoking => config.lockAtLeastUntil ≤ s.clock ∨ ¬ Attached s i lease

/-- What a call relies on between its requests. A handle is attached to its own lease and to no
other, until it has released its key. -/
def Phase.Sound (s : System) (i : ℕ) (config : LockConfiguration ℚ) : Phase → Prop
  | .granting _ => ∀ x, ¬ Attached s i x
  | .committing _ lease | .losing lease | .failing lease =>
    Owned s i config lease config.lockAtMostUntil ∧ ∀ x, ¬ Attached s i x
  | .handle lease released stage =>
    Owned s i config lease config.lockAtMostUntil ∧
      (∀ x, Attached s i x → (x = lease ↔ released = false)) ∧ stage.Sound s i config lease
  | .skipped | .rejected | .unlocked => True

structure WellFormed (setup : Setup) (s : System) : Prop where
  sound : ∀ i l, s.locks i = some l → l.phase.Sound s i l.config
  created : ∀ i l, s.locks i = some l → l.config.createdAt ≤ s.clock
  idle : ∀ i x, s.locks i = none → ¬ Attached s i x
  named : ∀ k x grant, s.store.Attached k x → s.store.granted x = some grant →
    k = setup.key grant.name

theorem WellFormed.sound_of {phase : Phase} (hw : WellFormed setup s) (hl : s.locks i = some l)
    (hp : l.phase = phase) : phase.Sound s i l.config := by
  rw [← hp]
  exact hw.sound i l hl

/-- A later state, in which a call has no attachments it did not have. -/
structure Extends (i : ℕ) (s t : System) : Prop where
  clock : s.clock ≤ t.clock
  granted : ∀ x grant, s.store.granted x = some grant → t.store.granted x = some grant
  attached : ∀ x, Attached t i x → Attached s i x

theorem key_injective : Injective setup.key := by
  intro a b h
  have hlist := congrArg String.toList h
  simp only [Setup.key, String.toList_append] at hlist
  exact String.toList_inj.mp (List.append_cancel_left hlist)

theorem Owned.mono {instant : ℚ} (h : Owned s i config x instant) (hst : Extends j s t) :
    Owned t i config x instant := by
  obtain ⟨grant, hgrant, hrest⟩ := h
  exact ⟨grant, hst.granted x grant hgrant, hrest⟩

theorem UnlockStage.Sound.mono {stage : UnlockStage} (h : stage.Sound s i config x)
    (hst : Extends i s t) : stage.Sound t i config x := by
  have hnot : ∀ {y}, ¬ Attached s i y → ¬ Attached t i y := fun hn ha => hn (hst.attached _ ha)
  cases stage with
  | valid => trivial
  | granting =>
    have hclock := hst.clock
    simp only [UnlockStage.Sound] at h ⊢
    linarith
  | committing => exact ⟨h.1.mono hst, h.2.1, hnot h.2.2⟩
  | failing => exact ⟨h.1.mono hst, hnot h.2⟩
  | dropping => exact ⟨h.1.mono hst, hnot h.2.1, hnot h.2.2⟩
  | revoking =>
    rcases h with hover | hgone
    · exact .inl (le_trans hover hst.clock)
    · exact .inr (hnot hgone)

theorem Phase.Sound.mono {phase : Phase} (h : phase.Sound s i config) (hst : Extends i s t) :
    phase.Sound t i config := by
  have hnot : (∀ x, ¬ Attached s i x) → ∀ x, ¬ Attached t i x :=
    fun hn x ha => hn x (hst.attached x ha)
  cases phase with
  | granting => exact hnot h
  | committing | losing | failing => exact ⟨Owned.mono h.1 hst, hnot h.2⟩
  | handle => exact ⟨h.1.mono hst, fun x hx => h.2.1 x (hst.attached x hx), h.2.2.mono hst⟩
  | skipped | rejected | unlocked => trivial

theorem extends_clock {now : ℚ} (h : s.clock ≤ now) : Extends i s { s with clock := now } :=
  ⟨h, fun _ _ hx => hx, fun _ hx => hx⟩

theorem extends_grant (hx : s.store.granted x = none) :
    Extends i s { s with store := s.store.grant x grant } := by
  refine ⟨le_refl _, fun y info hy => LeaseStore.granted_grant hx hy, ?_⟩
  rintro y ⟨k, info, hy, hinfo, hown⟩
  have hbefore : s.store.Attached k y := hy
  obtain ⟨old, hold⟩ := hbefore.granted
  cases (LeaseStore.granted_grant hx hold).symm.trans hinfo
  exact ⟨k, _, hbefore, hold, hown⟩

theorem extends_revoke : Extends i s { s with store := s.store.revoke x } := by
  refine ⟨le_refl _, fun _ _ hx => hx, ?_⟩
  rintro y ⟨k, info, hy, hinfo, hown⟩
  exact ⟨k, info, (LeaseStore.attached_revoke.mp hy).1, hinfo, hown⟩

/-- Another call does not notice a put. -/
theorem extends_put {v : String} {hlive : s.store.live x = true} {instant : ℚ}
    (hx : Owned s i config x instant) (hij : j ≠ i) :
    Extends j s { s with store := s.store.put k v x hlive } := by
  refine ⟨le_refl _, fun _ _ hx => hx, ?_⟩
  rintro y ⟨k', info, hy, hinfo, hown⟩
  have hput : (s.store.put k v x hlive).Attached k' y := hy
  rcases LeaseStore.attached_put.mp hput with ⟨-, rfl⟩ | ⟨-, hbefore⟩
  · obtain ⟨grant, hgrant, howner, -⟩ := hx
    cases hgrant.symm.trans hinfo
    exact absurd (hown.symm.trans howner) hij
  · exact ⟨k', info, hbefore, hinfo, hown⟩

/-- A step that moves one call, with what it has just changed in the store. -/
theorem WellFormed.moved {phase : Phase} (hw : WellFormed setup s) (hl : s.locks i = some l)
    (hst : ∀ j, j ≠ i → Extends j s t) (hclock : s.clock ≤ t.clock) (hlocks : t.locks = s.locks)
    (hnamed : ∀ k x grant, t.store.Attached k x → t.store.granted x = some grant →
      k = setup.key grant.name)
    (hp : phase.Sound t i l.config) : WellFormed setup (t.setPhase i l phase) := by
  refine ⟨?_, ?_, ?_, hnamed⟩
  · refine LockTable.of_setPhase_ne (fun j b hj hb => ?_) ?_
    · rw [hlocks] at hb
      have hsound := (hw.sound j b hb).mono (hst j hj)
      exact hsound.mono ⟨le_refl _, fun _ _ hx => hx, fun _ hx => hx⟩
    · exact hp.mono ⟨le_refl _, fun _ _ hx => hx, fun _ hx => hx⟩
  · refine LockTable.of_setPhase (fun j b hb => ?_) (le_trans (hw.created i l hl) hclock)
    rw [hlocks] at hb
    exact le_trans (hw.created j b hb) hclock
  · intro j x hnone hx
    have hj : j ≠ i := by
      rintro rfl
      exact Option.some_ne_none _ (LockTable.setPhase_self.symm.trans hnone)
    have hbefore : t.locks j = none := (update_of_ne hj _ _).symm.trans hnone
    rw [hlocks] at hbefore
    exact hw.idle j x hbefore ((hst j hj).attached x hx)

/-- A step that moves one call and leaves the store alone. -/
theorem WellFormed.moved_only {phase : Phase} (hw : WellFormed setup s) (hl : s.locks i = some l)
    (hp : phase.Sound s i l.config) : WellFormed setup (s.setPhase i l phase) :=
  hw.moved hl (fun _ _ => ⟨le_refl _, fun _ _ hx => hx, fun _ hx => hx⟩) (le_refl _) rfl hw.named hp

theorem named_grant (hw : WellFormed setup s) (hx : s.store.granted x = none) {y : ℕ}
    {info : LeaseGrant} (hy : (s.store.grant x grant).Attached k y)
    (hinfo : (s.store.grant x grant).granted y = some info) : k = setup.key info.name := by
  have hbefore : s.store.Attached k y := hy
  obtain ⟨old, hold⟩ := hbefore.granted
  cases (LeaseStore.granted_grant hx hold).symm.trans hinfo
  exact hw.named k y _ hbefore hold

theorem named_revoke (hw : WellFormed setup s) {y : ℕ} {info : LeaseGrant}
    (hy : (s.store.revoke x).Attached k y) (hinfo : (s.store.revoke x).granted y = some info) :
    k = setup.key info.name :=
  hw.named k y info (LeaseStore.attached_revoke.mp hy).1 hinfo

theorem named_put (hw : WellFormed setup s) (v : String) (hlive : s.store.live x = true)
    {instant : ℚ} (hx : Owned s i config x instant) : ∀ k y info,
    (s.store.put (setup.key config.name) v x hlive).Attached k y →
    s.store.granted y = some info → k = setup.key info.name := by
  intro k y info hy hinfo
  rcases LeaseStore.attached_put.mp hy with ⟨rfl, rfl⟩ | ⟨-, hbefore⟩
  · obtain ⟨grant, hgrant, -, hname, -⟩ := hx
    cases hgrant.symm.trans hinfo
    rw [hname]
  · exact hw.named k y info hbefore hinfo

/-- A lease of the call is under the key of its name, if it is under any. -/
theorem attached_iff (hw : WellFormed setup s) {instant : ℚ} (hx : Owned s i config x instant) :
    Attached s i x ↔ s.store.Attached (setup.key config.name) x := by
  obtain ⟨grant, hgrant, howner, hname, -⟩ := hx
  constructor
  · rintro ⟨k, info, hk, hinfo, -⟩
    cases hgrant.symm.trans hinfo
    rwa [hw.named k x grant hk hgrant, hname] at hk
  · intro hk
    exact ⟨_, grant, hk, hgrant, howner⟩

/-- What a call is attached to after it has put one of its leases. -/
theorem attached_put {v : String} {hlive : s.store.live x = true} (hw : WellFormed setup s)
    {y : ℕ} (hy : Attached { s with
      store := s.store.put (setup.key config.name) v x hlive } i y) :
    y = x ∨ Attached s i y ∧ ¬ s.store.Attached (setup.key config.name) y := by
  obtain ⟨k, info, hk, hinfo, hown⟩ := hy
  have hput : (s.store.put (setup.key config.name) v x hlive).Attached k y := hk
  rcases LeaseStore.attached_put.mp hput with ⟨-, rfl⟩ | ⟨hne, hbefore⟩
  · exact .inl rfl
  · refine .inr ⟨⟨k, info, hbefore, hinfo, hown⟩, fun hkey => hne ?_⟩
    rw [hw.named _ _ info hbefore hinfo, hw.named _ _ info hkey hinfo]

/-- `unlock()` revokes its lease straight away only if the minimum hold is over. -/
theorem sound_unlockStage {hostname : String} {stage : UnlockStage}
    (hcreated : config.createdAt ≤ s.clock)
    (hstage : unlockStage hostname config s.clock = some stage) : stage.Sound s i config x := by
  simp only [unlockStage] at hstage
  split_ifs at hstage with hleast hremaining
  · cases hstage
    left
    simp only [LockConfiguration.lockAtLeastUntil]
    linarith
  · cases hstage
    left
    simp only [LockConfiguration.lockAtLeastUntil]
    linarith
  · obtain ⟨value, -, rfl⟩ := Option.map_eq_some_iff.mp hstage
    have httl := Utils.lt_toTtlSeconds (config.createdAt + config.lockAtLeastFor - s.clock)
    simp only [UnlockStage.Sound, LockConfiguration.lockAtLeastUntil]
    linarith

theorem sound_afterRevoke {phase : Phase} (h : phase.Sound s i config)
    (hrevokes : phase.revokes = some x) : (afterRevoke phase).Sound s i config := by
  cases phase with
  | losing | failing => trivial
  | handle lease released stage =>
    cases stage with
    | dropping => exact ⟨h.1, h.2.1, .inr h.2.2.2.2⟩
    | revoking => trivial
    | failing => exact ⟨h.1, h.2.1, trivial⟩
    | valid | granting | committing => cases hrevokes
  | granting | committing | skipped | rejected | unlocked => cases hrevokes

theorem sound_afterError {phase : Phase} (h : phase.Sound s i config) :
    (afterError phase).Sound s i config := by
  cases phase with
  | granting | failing | skipped | rejected | unlocked => trivial
  | committing | losing => exact h
  | handle lease released stage =>
    cases stage with
    | committing => exact ⟨h.1, h.2.1, h.2.2.1, h.2.2.2.2⟩
    | valid | granting | failing | dropping | revoking => exact ⟨h.1, h.2.1, trivial⟩

theorem wellFormed_step (hs : Step setup s e t) (hw : WellFormed setup s) : WellFormed setup t := by
  cases hs with
  | tick hle =>
    refine ⟨fun j b hb => (hw.sound j b hb).mono (extends_clock hle),
      fun j b hb => le_trans (hw.created j b hb) hle, hw.idle, hw.named⟩
  | @lockCalled i config value hnone hcreated =>
    refine ⟨?_, LockTable.of_insert (fun j b hb => hw.created j b hb) hcreated, ?_, hw.named⟩
    · exact LockTable.of_insert (fun j b hb => hw.sound j b hb) (hw.idle i · hnone)
    · intro j x hj
      have hafter : update s.locks i (some ⟨config, .granting value⟩) j = none := hj
      by_cases hij : j = i
      · subst hij
        rw [update_self] at hafter
        cases hafter
      · exact hw.idle j x ((update_of_ne hij _ _).symm.trans hafter)
  | @lockGranted i lease l value ttlEnd hl hp hfresh hend =>
    have hsound := hw.sound_of hl hp
    have hcreated := hw.created i l hl
    have httl := Utils.lt_toTtlSeconds l.config.lockAtMostFor
    refine hw.moved hl (fun j _ => extends_grant hfresh) (le_refl _) rfl
      (fun _ _ _ => named_grant hw hfresh) ⟨⟨_, update_self _ _ _, rfl, rfl, ?_⟩, ?_⟩
    · simp only [LockConfiguration.lockAtMostUntil]
      linarith
    · exact fun x hx => hsound x ((extends_grant hfresh).attached x hx)
  | @lockCommitted i lease l value hlive hl hp _ =>
    have hsound := hw.sound_of hl hp
    refine hw.moved hl (fun j hj => extends_put hsound.1 hj) (le_refl _) rfl
      (named_put hw value hlive hsound.1) ⟨hsound.1, ?_, trivial⟩
    intro x hx
    rcases attached_put hw hx with rfl | ⟨hbefore, -⟩
    · exact ⟨fun _ => rfl, fun _ => rfl⟩
    · exact absurd hbefore (hsound.2 x)
  | @lockLost i lease l value hl hp =>
    have hsound := hw.sound_of hl hp
    exact hw.moved_only hl hsound
  | @unlockCalled i lease l released stage hl hp hstage =>
    have hsound := hw.sound_of hl hp
    exact hw.moved_only hl ⟨hsound.1, hsound.2.1, sound_unlockStage (hw.created i l hl) hstage⟩
  | @unlockGranted i lease newLease l released value ttlSeconds ttlEnd hl hp hfresh hend =>
    have hsound := hw.sound_of hl hp
    obtain ⟨howned, hattached, httl⟩ := hsound
    have hst : Extends i s { s with store := s.store.grant newLease ⟨i, l.config.name, ttlEnd⟩ } :=
      extends_grant hfresh
    refine hw.moved hl (fun j _ => extends_grant hfresh) (le_refl _) rfl
      (fun _ _ _ => named_grant hw hfresh)
      ⟨howned.mono hst, fun x hx => hattached x (hst.attached x hx),
        ⟨_, update_self _ _ _, rfl, rfl, le_trans httl hend⟩, ?_, ?_⟩
    · rintro rfl
      obtain ⟨grant, hgrant, -⟩ := howned
      exact Option.some_ne_none _ (hgrant.symm.trans hfresh)
    · rintro hx
      obtain ⟨k, grant, -, hgrant, -⟩ := hst.attached newLease hx
      exact Option.some_ne_none _ (hgrant.symm.trans hfresh)
  | @unlockCommitted i lease newLease l released value hlive hl hp hkey =>
    have hsound := hw.sound_of hl hp
    obtain ⟨howned, hattached, hnew, hne, -⟩ := hsound
    have hgone : ∀ x, Attached { s with
        store := s.store.put (setup.key l.config.name) value newLease hlive } i x → x ≠ lease := by
      rintro x hx rfl
      rcases attached_put hw hx with heq | ⟨-, hnot⟩
      · exact hne heq.symm
      · exact hnot hkey
    refine hw.moved hl (fun j hj => extends_put hnew hj) (le_refl _) rfl
      (named_put hw value hlive hnew) ⟨howned, ?_, .inr fun hx => hgone lease hx rfl⟩
    exact fun x hx => ⟨fun heq => absurd heq (hgone x hx), nofun⟩
  | @unlockLost i lease newLease l released value hl hp hkey =>
    have hsound := hw.sound_of hl hp
    obtain ⟨howned, hattached, hnew, -, hfree⟩ := hsound
    exact hw.moved_only hl ⟨howned, hattached, hnew, hfree,
      fun hx => hkey ((attached_iff hw howned).mp hx)⟩
  | @revoked i lease l hl hrevokes _ =>
    exact hw.moved hl (fun j _ => extends_revoke) (le_refl _) rfl (fun _ _ _ => named_revoke hw)
      (sound_afterRevoke ((hw.sound i l hl).mono extends_revoke) hrevokes)
  | @failed i l hl => exact hw.moved_only hl (sound_afterError (hw.sound i l hl))
  | expired =>
    exact ⟨fun j b hb => (hw.sound j b hb).mono extends_revoke, hw.created,
      fun j x hj hx => hw.idle j x hj (extends_revoke.attached x hx),
      fun _ _ _ => named_revoke hw⟩

theorem wellFormed_reachable (h : (system setup).Reachable s) : WellFormed setup s := by
  refine h.invariant ?_ (fun _ _ _ _ hs hw => wellFormed_step hs hw)
  rintro s ⟨hstore, hlocks⟩
  have hempty : ∀ k x, ¬ s.store.Attached k x := by
    rintro k x ⟨v, hv⟩
    rw [hstore] at hv
    cases hv
  refine ⟨?_, ?_, ?_, fun k x _ hk => absurd hk (hempty k x)⟩
  · intro i l hl
    rw [hlocks i] at hl
    cases hl
  · intro i l hl
    rw [hlocks i] at hl
    cases hl
  · rintro i x - ⟨k, _, hk, -⟩
    exact hempty k x hk

/-! What the cell of a name says of its key. -/

theorem cell_congr {s t : System} (h : t.store.tenant = s.store.tenant) :
    t.cell setup = s.cell setup := by
  funext n
  simp only [System.cell, h]

theorem cell_update {s t : System} {lease : Option LeaseGrant}
    (h : t.store.tenant = update s.store.tenant (setup.key name) lease) :
    t.cell setup = update (s.cell setup) name
      (lease.map fun grant => (grant.owner, grant.ttlEnd)) := by
  funext n
  by_cases hn : n = name
  · subst hn
    simp only [System.cell, h, update_self]
  · have hkey : setup.key n ≠ setup.key name := fun heq => hn (key_injective heq)
    simp only [System.cell, h, update_of_ne hkey, update_of_ne hn]

theorem cell_of_attached {instant : ℚ} (hx : Owned s i config x instant)
    (hk : s.store.Attached (setup.key config.name) x) :
    ∃ ttlEnd, s.cell setup config.name = some (i, ttlEnd) ∧ instant ≤ ttlEnd := by
  obtain ⟨grant, hgrant, rfl, -, hinstant⟩ := hx
  exact ⟨grant.ttlEnd, by rw [System.cell, hk.tenant hgrant, Option.map_some], hinstant⟩

/-- A name whose cell has a tenant is attached to a lease of it. -/
theorem attached_of_cell {d : ℚ} (hc : s.cell setup name = some (i, d)) :
    ∃ x, s.store.Attached (setup.key name) x ∧ Attached s i x := by
  obtain ⟨grant, htenant, heq⟩ := Option.map_eq_some_iff.mp hc
  obtain ⟨x, hk, hgrant⟩ := LeaseStore.attached_of_tenant htenant
  cases heq
  exact ⟨x, hk, _, grant, hk, hgrant, rfl⟩

/-- The end of a lease under the key of its name, or under none. -/
theorem cell_revoke (hw : WellFormed setup s) (hgrant : s.store.granted x = some grant) :
    (¬ s.store.Attached (setup.key grant.name) x ∧
      ({ s with store := s.store.revoke x } : System).cell setup = s.cell setup) ∨
    (s.store.Attached (setup.key grant.name) x ∧
      ({ s with store := s.store.revoke x } : System).cell setup =
        update (s.cell setup) grant.name none) := by
  have hone : ∀ k, s.store.Attached k x → k = setup.key grant.name :=
    fun k hk => hw.named k x grant hk hgrant
  by_cases hk : s.store.Attached (setup.key grant.name) x
  · have hcell := cell_update (s := s) (t := { s with store := s.store.revoke x })
      (LeaseStore.tenant_revoke hk hone)
    exact .inr ⟨hk, hcell⟩
  · refine .inl ⟨hk, cell_congr (LeaseStore.tenant_revoke_none fun k h => hk ?_)⟩
    exact hone k h ▸ h

theorem outstanding_afterError {phase : Phase} (h : (afterError phase).Outstanding) :
    phase.Outstanding := by
  cases phase with
  | handle lease released stage => cases stage <;> exact h
  | granting | committing | losing | failing | skipped | rejected | unlocked => exact h

theorem outstanding_afterRevoke {phase : Phase} (h : (afterRevoke phase).Outstanding) :
    phase.Outstanding := by
  cases phase with
  | handle lease released stage =>
    cases stage with
    | revoking => exact h.elim
    | valid | granting | committing | failing | dropping => exact h
  | granting | committing | losing | failing | skipped | rejected | unlocked => exact h

/-- A call whose revoke takes a key along revokes the lease of a handle that has not released it. -/
theorem revokes_attached (hw : WellFormed setup s) (hl : s.locks i = some l)
    (hrevokes : l.phase.revokes = some x) :
    Owned s i l.config x (min l.config.lockAtMostUntil l.config.lockAtLeastUntil) ∧
      (Attached s i x → l.phase = .handle x false .revoking) := by
  have hsound := hw.sound i l hl
  have hmost : ∀ {y}, Owned s i l.config y l.config.lockAtMostUntil →
      Owned s i l.config y (min l.config.lockAtMostUntil l.config.lockAtLeastUntil) := by
    rintro y ⟨grant, hgrant, howner, hname, hend⟩
    exact ⟨grant, hgrant, howner, hname, le_trans (min_le_left _ _) hend⟩
  have hleast : ∀ {y}, Owned s i l.config y l.config.lockAtLeastUntil →
      Owned s i l.config y (min l.config.lockAtMostUntil l.config.lockAtLeastUntil) := by
    rintro y ⟨grant, hgrant, howner, hname, hend⟩
    exact ⟨grant, hgrant, howner, hname, le_trans (min_le_right _ _) hend⟩
  generalize l.phase = phase at hsound hrevokes ⊢
  cases phase with
  | losing | failing =>
    cases hrevokes
    exact ⟨hmost hsound.1, fun hx => absurd hx (hsound.2 _)⟩
  | handle lease released stage =>
    cases stage with
    | failing =>
      cases hrevokes
      exact ⟨hleast hsound.2.2.1, fun hx => absurd hx hsound.2.2.2⟩
    | dropping =>
      cases hrevokes
      exact ⟨hleast hsound.2.2.1, fun hx => absurd hx hsound.2.2.2.1⟩
    | revoking =>
      cases hrevokes
      refine ⟨hmost hsound.1, fun hx => ?_⟩
      rw [(hsound.2.1 _ hx).mp rfl]
    | valid | granting | committing => cases hrevokes
  | granting | committing | skipped | rejected | unlocked => cases hrevokes

theorem holds_of_attached (hw : WellFormed setup s) (hl : s.locks i = some l) {stage : UnlockStage}
    (hp : l.phase = .handle x false stage)
    (hk : s.store.Attached (setup.key l.config.name) x) :
    (s.register setup).Holds i l.config.name := by
  have hsound := hw.sound_of hl hp
  obtain ⟨ttlEnd, hcell, -⟩ := cell_of_attached hsound.1 hk
  have hout : l.phase.Outstanding := by
    rw [hp]
    rfl
  exact ⟨_, i, ttlEnd, (LockTable.outstanding_of hl).trans (LockTable.counts_of hout), hcell,
    .inl rfl⟩

theorem register_revoked (hw : WellFormed setup s) (hl : s.locks i = some l)
    (hrevokes : l.phase.revokes = some x) :
    (({ s with store := s.store.revoke x }.setPhase i l (afterRevoke l.phase)).register setup =
      s.register setup) ∨
    ∃ a, Tenancy.Step (s.register setup) a
      (({ s with store := s.store.revoke x }.setPhase i l (afterRevoke l.phase)).register
        setup) := by
  obtain ⟨howned, hattached⟩ := revokes_attached hw hl hrevokes
  have hiff := attached_iff hw howned
  obtain ⟨grant, hgrant, howner, hname, -⟩ := howned
  rcases cell_revoke hw hgrant with ⟨-, hcell⟩ | ⟨hk, hcell⟩
  · have hregister : ({ s with store := s.store.revoke x }.setPhase i l
        (afterRevoke l.phase)).register setup = LockTable.register Phase.Outstanding s.clock
          (s.locks.setPhase i l (afterRevoke l.phase)) (s.cell setup) := by
      rw [← hcell]
      rfl
    rw [hregister]
    exact LockTable.register_quiet hl outstanding_afterRevoke
  · right
    rw [hname] at hk hcell
    have hp := hattached (hiff.mpr hk)
    have hregister : ({ s with store := s.store.revoke x }.setPhase i l
        (afterRevoke l.phase)).register setup = LockTable.register Phase.Outstanding s.clock
          (s.locks.setPhase i l (afterRevoke l.phase))
          (update (s.cell setup) l.config.name none) := by
      rw [← hcell]
      rfl
    rw [hregister, hp]
    exact ⟨_, LockTable.register_released not_false (holds_of_attached hw hl hp hk)⟩

/-- A put of a lease of the call under the key of its name. -/
theorem register_put (setup : Setup) (phase : Phase) {v : String} {hlive : s.store.live x = true}
    {instant : ℚ} (hx : Owned s i l.config x instant) :
    ∃ ttlEnd, instant ≤ ttlEnd ∧
      ({ s with store := s.store.put (setup.key l.config.name) v x hlive }.setPhase i l
        phase).register setup =
      LockTable.register Phase.Outstanding s.clock (s.locks.setPhase i l phase)
        (update (s.cell setup) l.config.name (some (i, ttlEnd))) := by
  obtain ⟨grant, hgrant, rfl, -, hinstant⟩ := hx
  have htenant : (s.store.put (setup.key l.config.name) v x hlive).tenant =
      update s.store.tenant (setup.key l.config.name) (some grant) := LeaseStore.tenant_put hgrant
  have hcell := cell_update (s := s)
    (t := { s with store := s.store.put (setup.key l.config.name) v x hlive }) htenant
  exact ⟨grant.ttlEnd, hinstant, congrArg (LockTable.register Phase.Outstanding s.clock _) hcell⟩

/-- A new lease does not show. -/
theorem register_lease {phase : Phase} (hl : s.locks i = some l) (hx : s.store.granted x = none)
    (ho : phase.Outstanding → l.phase.Outstanding) :
    ({ s with store := s.store.grant x grant }.setPhase i l phase).register setup =
      s.register setup ∨
    ∃ a, Tenancy.Step (s.register setup) a
      (({ s with store := s.store.grant x grant }.setPhase i l phase).register setup) := by
  have hcell : ({ s with store := s.store.grant x grant } : System).cell setup = s.cell setup :=
    cell_congr (LeaseStore.tenant_grant hx)
  have hregister : ({ s with store := s.store.grant x grant }.setPhase i l phase).register setup =
      LockTable.register Phase.Outstanding s.clock (s.locks.setPhase i l phase) (s.cell setup) :=
    congrArg (LockTable.register Phase.Outstanding s.clock _) hcell
  rw [hregister]
  exact LockTable.register_quiet hl ho

/-- The transaction of `lock()` finds its name free. -/
theorem free_of_absent (h : s.store.kv (setup.key name) = none) : (s.register setup).Free name := by
  intro w d hc
  have hcell : s.cell setup name = none := by
    rw [System.cell, LeaseStore.tenant_of_absent h, Option.map_none]
  exact absurd (hc.symm.trans hcell) (Option.some_ne_none _)

/-- Only a handle that has not released its key finds it attached to its lease. -/
theorem unreleased_of_attached (hw : WellFormed setup s) (hl : s.locks i = some l)
    {released : Bool} {stage : UnlockStage} (hp : l.phase = .handle x released stage)
    (hk : s.store.Attached (setup.key l.config.name) x) : released = false := by
  have hsound := hw.sound_of hl hp
  exact (hsound.2.1 x ((attached_iff hw hsound.1).mpr hk)).mp rfl

/-- The end of a lease whose time to live is over. -/
theorem register_expired (hw : WellFormed setup s) (hgrant : s.store.granted x = some grant)
    (hend : grant.ttlEnd ≤ s.clock) :
    ({ s with store := s.store.revoke x } : System).register setup = s.register setup ∨
    ∃ a, Tenancy.Step (s.register setup) a
      (({ s with store := s.store.revoke x } : System).register setup) := by
  rcases cell_revoke hw hgrant with ⟨-, hcell⟩ | ⟨hk, hcell⟩
  · exact .inl (congrArg (LockTable.register Phase.Outstanding s.clock s.locks) hcell)
  · have hregister : ({ s with store := s.store.revoke x } : System).register setup =
        { s.register setup with cell := update (s.register setup).cell grant.name none } :=
      congrArg (LockTable.register Phase.Outstanding s.clock s.locks) hcell
    rw [hregister]
    refine .inr ⟨_, .lapse fun w d hc => ?_⟩
    have hnow : s.cell setup grant.name = some (grant.owner, grant.ttlEnd) := by
      rw [System.cell, hk.tenant hgrant, Option.map_some]
    cases hnow.symm.trans hc
    exact hend

/-- Keys and handles behave as leased cells in every run. -/
theorem register_abstraction :
    (system setup).Abstraction Tenancy.system (System.register setup) where
  initial s h i := Tenancy.board_none (h.2 i)
  step s e t hr hs := by
    have hw := wellFormed_reachable hr
    cases hs with
    | tick hle => exact .inr ⟨.advance _, .advance hle⟩
    | lockCalled hnone => exact .inl (LockTable.register_called hnone not_false)
    | lockGranted hl _ hfresh => exact register_lease hl hfresh fun ho => ho.elim
    | @lockCommitted i lease l value hlive hl hp habsent =>
      have hsound := hw.sound_of hl hp
      obtain ⟨ttlEnd, hend, hregister⟩ :=
        register_put setup (.handle lease false .valid) hsound.1
      rw [hregister]
      have hout : ¬ l.phase.Outstanding := by
        rw [hp]
        exact not_false
      exact .inr ⟨_, LockTable.register_granted hl hout rfl (free_of_absent habsent)
        ⟨ttlEnd, rfl, hend⟩⟩
    | lockLost hl => exact LockTable.register_quiet hl fun ho => ho.elim
    | unlockCalled hl hp =>
      refine LockTable.register_quiet hl fun ho => ?_
      rw [hp]
      exact ho
    | unlockGranted hl hp hfresh =>
      refine register_lease hl hfresh fun ho => ?_
      rw [hp]
      exact ho
    | @unlockCommitted i lease newLease l released value hlive hl hp hk =>
      have hsound := hw.sound_of hl hp
      obtain rfl := unreleased_of_attached hw hl hp hk
      obtain ⟨ttlEnd, -, hregister⟩ :=
        register_put setup (.handle lease true .revoking) hsound.2.2.1
      rw [hregister]
      exact .inr ⟨_, LockTable.register_released nofun (holds_of_attached hw hl hp hk)⟩
    | unlockLost hl hp =>
      refine LockTable.register_quiet hl fun ho => ?_
      rw [hp]
      exact ho
    | revoked hl hrevokes => exact register_revoked hw hl hrevokes
    | failed hl => exact LockTable.register_quiet hl outstanding_afterError
    | expired _ hgrant hend => exact register_expired hw hgrant hend

theorem register_exclusive (h : (system setup).Reachable s) :
    Tenancy.Exclusive (s.register setup) :=
  Tenancy.exclusive_reachable (register_abstraction.reachable h)

/-- A handle not yet unlocked whose deadline is still in the future. -/
abbrev Live (s : System) : ℕ → LockCall Phase ℚ → Prop :=
  LockTable.Live Phase.Outstanding s.clock s.locks

/-- The key of a live handle is attached to its lease. -/
theorem live_attached (h : (system setup).Reachable s) (hl : Live s i l) :
    ∃ lease stage, l.phase = .handle lease false stage ∧
      s.store.Attached (setup.key l.config.name) lease := by
  have hsound := (wellFormed_reachable h).sound i l hl.lock
  have hout := hl.outstanding
  obtain ⟨d, hcell, -⟩ := register_exclusive h i l.config.name _
    ((LockTable.outstanding_of hl.lock).trans (LockTable.counts_of hout)) hl.unexpired
  obtain ⟨x, hk, hx⟩ := attached_of_cell hcell
  generalize l.phase = phase at hsound hout ⊢
  cases phase with
  | handle lease released stage =>
    obtain rfl : released = false := hout
    obtain rfl := (hsound.2.1 x hx).mpr rfl
    exact ⟨x, stage, rfl, hk⟩
  | granting | committing | losing | failing | skipped | rejected | unlocked => exact hout.elim

/-- The call a step belongs to. -/
def Event.call : Event → Option ℕ
  | .called i | .granted i | .committed i _ | .revoked i | .failed i => some i
  | .tick | .expired _ => none

/-- A call deletes or attaches anew only what is attached to a lease of its own. -/
theorem changed_own (h : (system setup).Reachable s) (hs : Step setup s e t)
    (he : e.call = some i) (hk : s.store.Attached k x) (hgrant : s.store.granted x = some grant)
    (hchanged : t.store.kv k ≠ s.store.kv k) : grant.owner = i := by
  have hw := wellFormed_reachable h
  have howner : ∀ {config instant}, Owned s i config x instant → grant.owner = i := by
    rintro config instant ⟨info, hinfo, hown, -⟩
    cases hinfo.symm.trans hgrant
    exact hown
  cases hs with
  | tick | expired => cases he
  | lockCalled | lockGranted | lockLost | unlockCalled | unlockGranted | unlockLost | failed =>
    exact absurd rfl hchanged
  | lockCommitted hlive _ _ habsent =>
    obtain ⟨v, hv⟩ := hk
    obtain rfl : k = _ := by
      by_contra hother
      exact hchanged (LeaseStore.kv_put_of_ne hlive hother)
    cases habsent.symm.trans hv
  | unlockCommitted hlive hl hp hattached =>
    cases he
    have hsound := hw.sound_of hl hp
    obtain rfl : k = _ := by
      by_contra hother
      exact hchanged (LeaseStore.kv_put_of_ne hlive hother)
    obtain rfl := hk.unique hattached
    exact howner hsound.1
  | revoked hl hrevokes =>
    cases he
    obtain rfl := hk.unique (LeaseStore.attached_of_kv_revoke_ne hchanged)
    exact howner (revokes_attached hw hl hrevokes).1

/-- A step with which `unlock()` takes effect on a key that is still attached to the lease. -/
structure Unlocks (setup : Setup) (s : System) (e : Event) (t : System) (i : ℕ)
    (l : LockCall Phase ℚ) : Prop where
  step : Step setup s e t
  call : e.call = some i
  lock : s.locks i = some l
  attached : ∃ lease stage, l.phase = .handle lease false stage ∧
    s.store.Attached (setup.key l.config.name) lease
  ended : ∀ l', t.locks i = some l' → ¬ l'.phase.Outstanding

/-- Then the minimum hold is over, or the key stays with a lease that reaches its end. -/
theorem Unlocks.left (hu : Unlocks setup s e t i l) (h : (system setup).Reachable s) :
    l.config.lockAtLeastUntil ≤ s.clock ∨ ∃ d, l.config.lockAtLeastUntil ≤ d ∧
      Tenancy.Left (t.register setup) i l.config.name d := by
  obtain ⟨hs, he, hl, ⟨lease, stage, hp, hk⟩, hended⟩ := hu
  have hw := wellFormed_reachable h
  have hsound := hw.sound_of hl hp
  -- a step after which the handle still counts on its key is none of these
  have hstill : ∀ {r : System} {phase : Phase}, phase.Outstanding →
      t = r.setPhase i l phase → False := by
    rintro r phase ho rfl
    exact hended _ LockTable.setPhase_self ho
  cases hs with
  | tick | expired => cases he
  | lockCalled hnone =>
    cases he
    exact absurd (hl.symm.trans hnone) (Option.some_ne_none _)
  | lockGranted hl' hp' | lockCommitted _ hl' hp' | lockLost hl' hp' =>
    cases he
    cases hl'.symm.trans hl
    rw [hp] at hp'
    cases hp'
  | unlockCalled hl' hp' | unlockGranted hl' hp' | unlockLost hl' hp' =>
    cases he
    cases hl'.symm.trans hl
    cases hp'.symm.trans hp
    refine (hstill ?_ rfl).elim
    rfl
  | unlockCommitted hlive hl' hp' =>
    cases he
    cases hl'.symm.trans hl
    cases hp'.symm.trans hp
    obtain ⟨ttlEnd, hend, hregister⟩ :=
      register_put setup (.handle lease true .revoking) hsound.2.2.1
    rw [hregister]
    exact .inr ⟨ttlEnd, hend, LockTable.left_released nofun⟩
  | failed hl' =>
    cases he
    cases hl'.symm.trans hl
    refine (hstill ?_ rfl).elim
    rw [hp]
    cases stage <;> rfl
  | revoked hl' hrevokes =>
    cases he
    cases hl'.symm.trans hl
    cases stage with
    | revoking =>
      rcases hsound.2.2 with hover | hgone
      · exact .inl hover
      · exact absurd ((attached_iff hw hsound.1).mpr hk) hgone
    | failing | dropping =>
      refine (hstill ?_ rfl).elim
      rw [hp]
      rfl
    | valid | granting | committing =>
      rw [hp] at hrevokes
      cases hrevokes

theorem Unlocks.clock (hu : Unlocks setup s e t i l) : t.clock = s.clock := by
  obtain ⟨hs, he, -⟩ := hu
  cases hs with
  | tick => cases he
  | lockCalled | lockGranted | lockCommitted | lockLost | unlockCalled | unlockGranted
  | unlockCommitted | unlockLost | revoked | failed | expired => rfl

/-- When the minimum hold is over `unlock()` has nothing to do but to revoke its lease. -/
theorem unlockStage_over {hostname : String} {now : ℚ} (hover : config.lockAtLeastUntil ≤ now) :
    unlockStage hostname config now = some .revoking := by
  have hremaining : config.createdAt + config.lockAtLeastFor - now ≤ 0 := by
    simp only [LockConfiguration.lockAtLeastUntil] at hover
    linarith
  simp only [unlockStage, hremaining, if_true, ite_self]

/-- A request of `unlock()` has been sent, and none of them has failed. -/
def UnlockStage.Waiting : UnlockStage → Prop
  | .granting .. | .committing .. | .dropping _ | .revoking => True
  | .valid | .failing _ => False

/-- An `unlock()` that goes on, or that has finished with the end of the lease. If it is `late`, it
has only the lease to revoke, and then nothing is left of a key that was not released before. -/
inductive UnlockGoes (s : System) (i : ℕ) (config : LockConfiguration ℚ) (lease : ℕ)
    (released : Bool) (late : Prop) : Prop where
  | waiting {stage : UnlockStage} {kept : Bool} :
      s.locks i = some ⟨config, .handle lease kept stage⟩ → stage.Waiting →
      (late → stage = .revoking ∧ kept = released) → UnlockGoes s i config lease released late
  | finished :
      s.locks i = some ⟨config, .unlocked⟩ → s.store.granted lease ≠ none →
      s.store.live lease = false → (late → released = false → ∀ y, ¬ Attached s i y) →
      UnlockGoes s i config lease released late

section Unlocking

variable {released : Bool} {late : Prop}

theorem Extends.setPhase {phase : Phase} (h : Extends i s t) :
    Extends i s (t.setPhase j l phase) :=
  ⟨h.clock, h.granted, h.attached⟩

/-- A call does not notice the steps of others. -/
theorem extends_other (hw : WellFormed setup s) (hs : Step setup s e t) (he : e.call ≠ some i) :
    Extends i s t := by
  have hne : ∀ {j}, e.call = some j → i ≠ j := by
    rintro j hj rfl
    exact he hj
  cases hs with
  | tick hle => exact extends_clock hle
  | lockCalled | lockLost | unlockCalled | unlockLost | failed =>
    exact ⟨le_refl _, fun _ _ hx => hx, fun _ hx => hx⟩
  | lockGranted _ _ hfresh | unlockGranted _ _ hfresh => exact (extends_grant hfresh).setPhase
  | lockCommitted _ hl hp =>
    have hsound := hw.sound_of hl hp
    exact (extends_put hsound.1 (hne rfl)).setPhase
  | unlockCommitted _ hl hp =>
    have hsound := hw.sound_of hl hp
    exact (extends_put hsound.2.2.1 (hne rfl)).setPhase
  | revoked => exact extends_revoke.setPhase
  | expired => exact extends_revoke

/-- A lease that has ended stays so. -/
theorem ended_step (hs : Step setup s e t) (hgranted : s.store.granted x ≠ none)
    (hlive : s.store.live x = false) : t.store.granted x ≠ none ∧ t.store.live x = false := by
  have hgrant : ∀ {y : ℕ} {info : LeaseGrant}, s.store.granted y = none →
      (s.store.grant y info).granted x ≠ none ∧ (s.store.grant y info).live x = false := by
    intro y info hfresh
    have hxy : x ≠ y := by
      rintro rfl
      exact hgranted hfresh
    exact ⟨fun hnone => hgranted ((update_of_ne hxy _ _).symm.trans hnone),
      (update_of_ne hxy _ _).trans hlive⟩
  have hrevoke : ∀ {y : ℕ}, (s.store.revoke y).granted x ≠ none ∧
      (s.store.revoke y).live x = false := by
    intro y
    refine ⟨hgranted, ?_⟩
    by_cases hxy : x = y
    · subst hxy
      exact update_self _ _ _
    · exact (update_of_ne hxy _ _).trans hlive
  cases hs with
  | tick | lockCalled | lockLost | unlockCalled | unlockLost | failed | lockCommitted
  | unlockCommitted => exact ⟨hgranted, hlive⟩
  | lockGranted _ _ hfresh | unlockGranted _ _ hfresh => exact hgrant hfresh
  | revoked | expired => exact hrevoke

/-- Where the call of another step leaves this one. -/
theorem locks_other (hs : Step setup s e t) (he : e.call ≠ some i) : t.locks i = s.locks i := by
  cases hs with
  | tick | expired => rfl
  | lockCalled | lockGranted | lockCommitted | lockLost | unlockCalled | unlockGranted
  | unlockCommitted | unlockLost | revoked | failed =>
    exact update_of_ne (fun heq => he (congrArg some heq.symm)) _ _

theorem unlockGoes_other (hw : WellFormed setup s) (hs : Step setup s e t) (he : e.call ≠ some i)
    (hg : UnlockGoes s i config x released late) : UnlockGoes t i config x released late := by
  have hlocks := locks_other hs he
  cases hg with
  | waiting hl hwaiting hlate => exact .waiting (hlocks.trans hl) hwaiting hlate
  | finished hl hgranted hlive hgone =>
    obtain ⟨hgranted', hlive'⟩ := ended_step hs hgranted hlive
    exact .finished (hlocks.trans hl) hgranted' hlive' fun hl hr y hy =>
      hgone hl hr y ((extends_other hw hs he).attached y hy)

/-- The end of the lease leaves nothing of a key that was not released. -/
theorem gone_of_revoke (hw : WellFormed setup s) (hl : s.locks i = some l)
    (hp : l.phase = .handle x false .revoking) {y : ℕ} :
    ¬ Attached { s with store := s.store.revoke x } i y := by
  rintro ⟨k, grant, hk, hgrant, howner⟩
  have hsound := hw.sound_of hl hp
  obtain ⟨hbefore, hne⟩ := LeaseStore.attached_revoke.mp hk
  exact hne ((hsound.2.1 y ⟨k, grant, hbefore, hgrant, howner⟩).mpr rfl)

/-- A finished call sends nothing. -/
theorem no_step_of_unlocked (hi : s.locks i = some ⟨config, .unlocked⟩) (hs : Step setup s e t)
    (he : e.call = some i) (hcalled : e ≠ .called i) : e = .failed i := by
  have hno : ∀ {l phase}, s.locks i = some l → l.phase = phase → phase = .unlocked := by
    rintro l phase hl rfl
    cases hi.symm.trans hl
    rfl
  cases hs with
  | tick | expired => cases he
  | lockCalled | unlockCalled => cases he; exact absurd rfl hcalled
  | failed => cases he; rfl
  | lockGranted hl hp | lockCommitted _ hl hp | lockLost hl hp | unlockGranted hl hp
  | unlockCommitted _ hl hp | unlockLost hl hp =>
    cases he
    cases hno hl hp
  | revoked hl hrevokes =>
    cases he
    rw [hno hl rfl] at hrevokes
    cases hrevokes

/-- An answered request sends the next one, or is the end of the lease. -/
theorem unlockGoes_answered {stage : UnlockStage} {kept : Bool} (hw : WellFormed setup s)
    (hi : s.locks i = some ⟨config, .handle x kept stage⟩) (hwaiting : stage.Waiting)
    (hlate : late → stage = .revoking ∧ kept = released) (hs : Step setup s e t)
    (he : e.call = some i) (hcalled : e ≠ .called i) (hfailed : e ≠ .failed i) :
    UnlockGoes t i config x released late := by
  have hphase : ∀ {l phase}, s.locks i = some l → l.phase = phase →
      l = ⟨config, .handle x kept stage⟩ ∧ phase = .handle x kept stage := by
    rintro l phase hl rfl
    cases hi.symm.trans hl
    exact ⟨rfl, rfl⟩
  cases hs with
  | tick | expired => cases he
  | lockCalled | unlockCalled => cases he; exact absurd rfl hcalled
  | failed => cases he; exact absurd rfl hfailed
  | lockGranted hl hp | lockCommitted _ hl hp | lockLost hl hp =>
    cases he
    cases (hphase hl hp).2
  | unlockGranted hl hp | unlockCommitted _ hl hp | unlockLost hl hp =>
    cases he
    obtain ⟨rfl, heq⟩ := hphase hl hp
    cases heq
    exact .waiting LockTable.setPhase_self trivial fun h => nomatch (hlate h).1
  | @revoked _ lease l hl hrevokes hlive =>
    cases he
    obtain ⟨rfl, -⟩ := hphase hl rfl
    cases stage with
    | valid | granting | committing => cases hrevokes
    | failing => exact hwaiting.elim
    | dropping =>
      exact .waiting LockTable.setPhase_self trivial fun h => nomatch (hlate h).1
    | revoking =>
      cases hrevokes
      refine .finished LockTable.setPhase_self (s.store.granted_of_live x hlive)
        (update_self _ _ _) fun h hr y => ?_
      obtain rfl := (hlate h).2.trans hr
      exact gone_of_revoke hw hl rfl

theorem unlockGoes_self (hw : WellFormed setup s) (hs : Step setup s e t) (he : e.call = some i)
    (hcalled : e ≠ .called i) (hfailed : e ≠ .failed i)
    (hg : UnlockGoes s i config x released late) : UnlockGoes t i config x released late := by
  cases hg with
  | finished hi => exact absurd (no_step_of_unlocked hi hs he hcalled) hfailed
  | waiting hi hwaiting hlate =>
    exact unlockGoes_answered hw hi hwaiting hlate hs he hcalled hfailed

theorem unlockGoes_run (h : (system setup).Reachable s) (hrun : (system setup).Run s as t)
    (hcalled : .called i ∉ as) (hfailed : .failed i ∉ as)
    (hg : UnlockGoes s i config x released late) : UnlockGoes t i config x released late := by
  induction hrun with
  | refl => exact hg
  | @step s u t e as hs _ ih =>
    rw [List.mem_cons, not_or] at hcalled hfailed
    refine ih (h.step hs) hcalled.2 hfailed.2 ?_
    by_cases he : e.call = some i
    · have hw := wellFormed_reachable h
      exact unlockGoes_self hw hs he (Ne.symm hcalled.1) (Ne.symm hfailed.1) hg
    · exact unlockGoes_other (wellFormed_reachable h) hs he hg

/-- `unlock()` sends a request straight away; after the minimum hold that is the revoke. -/
theorem waiting_unlockStage {hostname : String} {now : ℚ} {stage : UnlockStage}
    (h : unlockStage hostname config now = some stage) : stage.Waiting := by
  simp only [unlockStage] at h
  split_ifs at h
  · cases h
    trivial
  · cases h
    trivial
  · obtain ⟨value, -, rfl⟩ := Option.map_eq_some_iff.mp h
    trivial

theorem unlockGoes_called (hl : s.locks i = some l) (hp : l.phase = .handle x released .valid)
    (hs : Step setup s (.called i) t) :
    UnlockGoes t i l.config x released (l.config.lockAtLeastUntil ≤ s.clock) := by
  cases hs with
  | lockCalled hnone => exact absurd (hl.symm.trans hnone) (Option.some_ne_none _)
  | unlockCalled hl' hp' hstage =>
    cases hl'.symm.trans hl
    cases hp'.symm.trans hp
    refine .waiting LockTable.setPhase_self (waiting_unlockStage hstage) fun hover => ⟨?_, rfl⟩
    rw [unlockStage_over hover] at hstage
    cases hstage
    rfl

end Unlocking

/-- The lock protocol over leases: one live handle for each name, whose key is attached to its
lease; calls that touch only what is attached to their own leases; an unlock that keeps the minimum
hold; and an `unlock()` that, unless a request of it fails, waits for one or has finished with no
key on the lease of its handle, nor after the minimum hold on any other of its leases. -/
theorem etcd_lock_protocol (h : (system setup).Reachable s) :
    (∀ i j a b, Live s i a → Live s j b → a.config.name = b.config.name → i = j) ∧
    (∀ i l, Live s i l → ∃ lease stage, l.phase = .handle lease false stage ∧
      s.store.Attached (setup.key l.config.name) lease) ∧
    (∀ e t i k x grant, Step setup s e t → e.call = some i → s.store.Attached k x →
      s.store.granted x = some grant → t.store.kv k ≠ s.store.kv k → grant.owner = i) ∧
    (∀ e t i l as u, Unlocks setup s e t i l → (system setup).Run t as u →
      u.clock < l.config.lockAtLeastUntil → ∀ j a, u.locks j = some a → a.phase.Outstanding →
        a.config.name = l.config.name →
        ∃ b, t.locks j = some b ∧ b.phase.Outstanding ∧ b.config.name = l.config.name) ∧
    ∀ i l x released t as u, s.locks i = some l → l.phase = .handle x released .valid →
      Step setup s (.called i) t → (system setup).Run t as u → .called i ∉ as → .failed i ∉ as →
      (∃ kept stage, u.locks i = some ⟨l.config, .handle x kept stage⟩ ∧ stage.Waiting) ∨
      u.locks i = some ⟨l.config, .unlocked⟩ ∧ (∀ k, ¬ u.store.Attached k x) ∧
        (l.config.lockAtLeastUntil ≤ s.clock → released = false → ∀ y, ¬ Attached u i y) := by
  refine ⟨?_, ?_, ?_, ?_, ?_⟩
  · intro i j a b ha hb hname
    exact LockTable.Live.unique (register_exclusive h) ha hb hname
  · intro i l hl
    exact live_attached h hl
  · intro e t i k x grant hs he hk hgrant hchanged
    exact changed_own h hs he hk hgrant hchanged
  · intro e t i l as u hu hr hmin j a ha hoa hname
    have ht := h.step hu.step
    obtain ⟨bs, hrun⟩ := register_abstraction.run ht hr
    have hbefore : t.clock ≤ u.clock := Tenancy.now_run hrun
    rcases hu.left h with hover | ⟨d, hd, hleft⟩
    · rw [hu.clock] at hbefore
      exact absurd (lt_of_le_of_lt hbefore hmin) (not_lt_of_ge hover)
    · exact LockTable.outstanding_of_left (register_exclusive ht) hleft hrun
        (lt_of_lt_of_le hmin hd) ha hoa hname
  · intro i l x released t as u hl hp hs hr hcalled hfailed
    have hgoes := unlockGoes_run (h.step hs) hr hcalled hfailed (unlockGoes_called hl hp hs)
    cases hgoes with
    | waiting hi hwaiting => exact .inl ⟨_, _, hi, hwaiting⟩
    | finished hi hgranted hlive hgone =>
      refine .inr ⟨hi, ?_, hgone⟩
      rintro k ⟨v, hv⟩
      exact absurd ((u.store.live_of_attached k v x hv).symm.trans hlive) (by decide)

def nightly : LockConfiguration ℚ :=
  { name := "nightly", lockAtMostFor := 60000, lockAtLeastFor := 5000, createdAt := 0 }

def oneHost : Setup := ⟨"default", fun _ => "worker"⟩

def nightlyValue : String := "ADDED:1970-01-01T00:00:00.000Z@worker"

/-- The one call of a store, in the given phase. -/
def nightlyIn (store : LeaseStore String String LeaseGrant) (phase : Phase) : System :=
  ⟨0, store, update (fun _ => none) 0 (some ⟨nightly, phase⟩)⟩

def nightlyGranted : LeaseStore String String LeaseGrant := .grant .empty 7 ⟨0, "nightly", 61000⟩

def nightlyAttached : LeaseStore String String LeaseGrant :=
  nightlyGranted.put "shedlock:default:nightly" nightlyValue 7 rfl

theorem nightlyIn_step {store store' : LeaseStore String String LeaseGrant} {phase next : Phase}
    (hs : Step oneHost (nightlyIn store phase) e
      ({ nightlyIn store phase with store := store' }.setPhase 0 ⟨nightly, phase⟩ next)) :
    Step oneHost (nightlyIn store phase) e (nightlyIn store' next) := by
  simpa [nightlyIn, System.setPhase, LockTable.setPhase] using hs

theorem nightlyHeld_reachable :
    (system oneHost).Reachable (nightlyIn nightlyAttached (.handle 7 false .valid)) := by
  have h₀ : (system oneHost).Reachable ⟨0, .empty, fun _ => none⟩ := .initial ⟨rfl, fun _ => rfl⟩
  have hcalled : Step oneHost ⟨0, .empty, fun _ => none⟩ (.called 0)
      (nightlyIn .empty (.granting nightlyValue)) :=
    .lockCalled rfl (by decide +kernel) (by decide +kernel)
  have httl : (0 : ℚ) + 1000 * Utils.toTtlSeconds 60000 ≤ 61000 := by decide +kernel
  have hgranted : Step oneHost (nightlyIn .empty (.granting nightlyValue)) (.granted 0)
      (nightlyIn nightlyGranted (.committing nightlyValue 7)) :=
    nightlyIn_step
      (@Step.lockGranted oneHost _ 0 7 ⟨nightly, _⟩ nightlyValue 61000 rfl rfl rfl httl)
  have hcommitted : Step oneHost (nightlyIn nightlyGranted (.committing nightlyValue 7))
      (.committed 0 true) (nightlyIn nightlyAttached (.handle 7 false .valid)) :=
    nightlyIn_step (@Step.lockCommitted oneHost _ 0 7 ⟨nightly, _⟩ nightlyValue rfl rfl rfl rfl)
  exact ((h₀.step hcalled).step hgranted).step hcommitted

/-- The handle at six seconds, when its minimum hold is over. -/
def nightlyLate (store : LeaseStore String String LeaseGrant) (stage : UnlockStage) : System :=
  { nightlyIn store (.handle 7 false stage) with clock := 6000 }

theorem nightlyLate_reachable :
    (system oneHost).Reachable (nightlyLate nightlyAttached .valid) :=
  nightlyHeld_reachable.step (.tick (by decide +kernel))

/-- The key of the handle is attached to its lease, and `unlock()` at six seconds deletes it. -/
theorem nightlyLate_unlocks : (∃ lease stage,
    Phase.handle 7 false .valid = .handle lease false stage ∧
      nightlyAttached.Attached (oneHost.key "nightly") lease) ∧
    ¬ (nightlyAttached.revoke 7).Attached (oneHost.key "nightly") 7 := by
  obtain ⟨-, hattached, -, -, hfinished⟩ := etcd_lock_protocol nightlyLate_reachable
  refine ⟨hattached 0 ⟨nightly, .handle 7 false .valid⟩ ⟨rfl, rfl, by decide +kernel⟩, ?_⟩
  have hcalled : Step oneHost (nightlyLate nightlyAttached .valid) (.called 0)
      ((nightlyLate nightlyAttached .valid).setPhase 0 ⟨nightly, .handle 7 false .valid⟩
        (.handle 7 false .revoking)) :=
    .unlockCalled rfl rfl (by decide +kernel)
  have hrevoked := @Step.revoked oneHost ((nightlyLate nightlyAttached .valid).setPhase 0
    ⟨nightly, .handle 7 false .valid⟩ (.handle 7 false .revoking)) 0 7
    ⟨nightly, .handle 7 false .revoking⟩ rfl rfl rfl
  rcases hfinished 0 ⟨nightly, .handle 7 false .valid⟩ 7 false _ _ _ rfl rfl hcalled
    (.single hrevoked) (by decide) (by decide) with ⟨kept, stage, hwaiting, -⟩ | ⟨-, hgone, -⟩
  · exact absurd hwaiting (by simp [System.setPhase, LockTable.setPhase, afterRevoke])
  · exact hgone (oneHost.key "nightly")

end Tslock.Etcd
