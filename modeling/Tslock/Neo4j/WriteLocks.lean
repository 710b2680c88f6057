import Tslock.Neo4j.Neo4jStorageAccessor

/-! Nodes and handles as leased cells, and contenders for one node, in the runs in which SET finds
what MATCH has found; and a run in which it does not. -/
namespace Tslock.Neo4j

open Function Foundation

variable {lockedBy : ℕ → String} {s t u : System} {e : Event} {as : List Event} {i j : ℕ}
  {l : LockCall Phase ℚ} {config : LockConfiguration ℚ} {name : String} {node : Neo4jNode}
  {cypher : Cypher} {operation : Operation} {phase : Phase}

def System.cell (s : System) (name : String) : Option (ℕ × ℚ) :=
  (s.node name).map fun node => (node.writer, node.lockUntil)

def System.register (s : System) : Tenancy.Register ℕ String ℚ :=
  LockTable.register Phase.Outstanding s.clock s.locks s.cell

def Phase.Created (phase : Phase) : Prop := ∃ lockedAt, phase = .created lockedAt

def Phase.Wrote (phase : Phase) : Prop := ∃ cypher, phase = .wrote cypher

/-- What a transaction that holds a write lock relies on until its commit. -/
structure WellFormed (lockedBy : ℕ → String) (s : System) : Prop where
  named : ∀ i l, s.locks i = some l → ∀ newConfig,
    l.phase.operation = some (.extend newConfig) → newConfig.name = l.config.name
  created : ∀ i l, s.locks i = some l → l.phase.Created → s.node l.config.name = none
  wrote : ∀ i l, s.locks i = some l → ∀ cypher, l.phase = .wrote cypher →
    ∃ node, s.node l.config.name = some node ∧ cypher.Matches (lockedBy i) l.config node
  creator : s.locks.Sole Phase.Created
  writer : s.locks.Sole Phase.Wrote

theorem operation_begin {now : ℚ} : (operation.begin config now).operation = some operation := by
  cases operation <;> rfl

theorem outstanding_iff (h : phase.operation = some operation) :
    phase.Outstanding ↔ operation.Outstanding := by
  have hheld : phase ≠ .held := by
    rintro rfl
    cases h
  simp [Phase.Outstanding, h, hheld]

theorem held_of_outstanding (h : phase.operation = none) (ho : phase.Outstanding) :
    phase = .held := by
  simpa [Phase.Outstanding, h] using ho

theorem not_created (h : phase.operation = none) : ¬ phase.Created := by
  rintro ⟨lockedAt, rfl⟩
  cases h

theorem not_wrote (h : phase.operation = none) : ¬ phase.Wrote := by
  rintro ⟨cypher, rfl⟩
  cases h

/-- A call that goes on while the nodes stay as they are. -/
theorem WellFormed.moved (hw : WellFormed lockedBy s) (hl : s.locks i = some l)
    (hnamed : ∀ newConfig, phase.operation = some (.extend newConfig) →
      newConfig.name = l.config.name)
    (hcreated : phase.Created → s.node l.config.name = none ∧ ¬ s.EntryLocked l.config.name)
    (hwrote : ∀ cypher, phase = .wrote cypher →
      (∃ node, s.node l.config.name = some node ∧ cypher.Matches (lockedBy i) l.config node) ∧
        ¬ s.WriteLocked l.config.name) :
    WellFormed lockedBy (s.setPhase i l phase) where
  named := LockTable.of_setPhase (fun j b hb => hw.named j b hb) hnamed
  created := LockTable.of_setPhase (fun j b hb => hw.created j b hb) fun h => (hcreated h).1
  wrote := LockTable.of_setPhase (fun j b hb => hw.wrote j b hb) fun c hc => (hwrote c hc).1
  creator := by
    refine hw.creator.setPhase hl fun h => .inr fun j b hb hname hcreator => ?_
    obtain ⟨lockedAt, hphase⟩ := hcreator
    exact (hcreated h).2 ⟨j, b, lockedAt, hb, hname, hphase⟩
  writer := by
    refine hw.writer.setPhase hl fun h => .inr fun j b hb hname hwriter => ?_
    obtain ⟨c, hphase⟩ := h
    obtain ⟨c', hphase'⟩ := hwriter
    exact (hwrote c hphase).2 ⟨j, b, c', hb, hname, hphase'⟩

/-- A call that goes on without a lock of its own. -/
theorem WellFormed.unlocked (hw : WellFormed lockedBy s) (hl : s.locks i = some l)
    (hnamed : ∀ newConfig, phase.operation = some (.extend newConfig) →
      newConfig.name = l.config.name)
    (hcreated : ¬ phase.Created) (hwrote : ¬ phase.Wrote) :
    WellFormed lockedBy (s.setPhase i l phase) :=
  hw.moved hl hnamed (fun h => absurd h hcreated) fun c hc => absurd ⟨c, hc⟩ hwrote

/-- A new call or handle. -/
theorem WellFormed.insert {a : LockCall Phase ℚ} (hw : WellFormed lockedBy s)
    (hnamed : ∀ newConfig, a.phase.operation ≠ some (.extend newConfig))
    (hcreated : ¬ a.phase.Created) (hwrote : ¬ a.phase.Wrote) :
    WellFormed lockedBy { s with locks := update s.locks i (some a) } where
  named := LockTable.of_insert (fun j b hb => hw.named j b hb) fun c hc => absurd hc (hnamed c)
  created := LockTable.of_insert (fun j b hb => hw.created j b hb) fun h => absurd h hcreated
  wrote := LockTable.of_insert (fun j b hb => hw.wrote j b hb) fun c hc => absurd ⟨c, hc⟩ hwrote
  creator := hw.creator.insert hcreated
  writer := hw.writer.insert hwrote

/-- A commit, while no other transaction holds a lock on the name. -/
theorem WellFormed.write {node' : Neo4jNode} (hw : WellFormed lockedBy s)
    (hl : s.locks i = some l) (hphase : phase.operation = none)
    (hothers : ∀ j b, j ≠ i → s.locks j = some b → b.config.name = l.config.name →
      ¬ b.phase.Created ∧ ¬ b.phase.Wrote) :
    WellFormed lockedBy ((s.write l.config.name node').setPhase i l phase) where
  named := by
    refine LockTable.of_setPhase (fun j b hb => hw.named j b hb) fun c hc => ?_
    exact absurd (hphase.symm.trans hc) nofun
  created := by
    refine LockTable.of_setPhase_ne (fun j b hj hb h => ?_) fun h => absurd h (not_created hphase)
    have hname : b.config.name ≠ l.config.name := fun hname => (hothers j b hj hb hname).1 h
    exact (update_of_ne hname _ _).trans (hw.created j b hb h)
  wrote := by
    refine LockTable.of_setPhase_ne (fun j b hj hb c hc => ?_) fun c hc =>
      absurd ⟨c, hc⟩ (not_wrote hphase)
    have hname : b.config.name ≠ l.config.name := fun hname => (hothers j b hj hb hname).2 ⟨c, hc⟩
    obtain ⟨node, hnode, hmatches⟩ := hw.wrote j b hb c hc
    exact ⟨node, (update_of_ne hname _ _).trans hnode, hmatches⟩
  creator := hw.creator.setPhase hl fun h => absurd h (not_created hphase)
  writer := hw.writer.setPhase hl fun h => absurd h (not_wrote hphase)

/-- The one who has written a node is the only one with a lock on its name. -/
theorem WellFormed.alone (hw : WellFormed lockedBy s) (hl : s.locks i = some l)
    (hp : l.phase.Wrote) {b : LockCall Phase ℚ} (hj : j ≠ i) (hb : s.locks j = some b)
    (hname : b.config.name = l.config.name) : ¬ b.phase.Created ∧ ¬ b.phase.Wrote := by
  constructor
  · intro h
    obtain ⟨c, hc⟩ := hp
    obtain ⟨node, hnode, -⟩ := hw.wrote i l hl c hc
    have hnone := hw.created j b hb h
    rw [hname, hnode] at hnone
    cases hnone
  · intro h
    exact hj (hw.writer j i b l hb hl h hp hname)

theorem WellFormed.onlyCreator (hw : WellFormed lockedBy s) (hl : s.locks i = some l)
    (hp : l.phase.Created) {b : LockCall Phase ℚ} (hj : j ≠ i) (hb : s.locks j = some b)
    (hname : b.config.name = l.config.name) : ¬ b.phase.Created ∧ ¬ b.phase.Wrote := by
  constructor
  · intro h
    exact hj (hw.creator j i b l hb hl h hp hname)
  · rintro ⟨c, hc⟩
    obtain ⟨node, hnode, -⟩ := hw.wrote j b hb c hc
    have hnone := hw.created i l hl hp
    rw [← hname, hnode] at hnone
    cases hnone

theorem WellFormed.name_of (hw : WellFormed lockedBy s) (hl : s.locks i = some l)
    (hop : l.phase.operation = some operation) (newConfig : LockConfiguration ℚ)
    (h : operation = .extend newConfig) : newConfig.name = l.config.name :=
  hw.named i l hl newConfig (hop.trans (congrArg some h))

theorem operation_afterMatch {found : Option Neo4jNode} {b : String} :
    (afterMatch b config cypher found = .setting cypher) ∨
      afterMatch b config cypher found = cypher.unmatched := by
  unfold afterMatch
  split_ifs
  · exact .inl rfl
  · exact .inr rfl

theorem operation_unmatched : cypher.unmatched.operation = none := by
  cases cypher <;> rfl

theorem operation_onError : operation.onError.operation = none := by
  cases operation <;> rfl

theorem afterProbe_cases {now lockedAt : ℚ} {found : Option Neo4jNode} :
    afterProbe now lockedAt found = .matching (.update now lockedAt) ∨
      afterProbe now lockedAt found = .refused ∨ afterProbe now lockedAt found = .rejected := by
  cases found with
  | none => exact .inr (.inr rfl)
  | some node =>
    simp only [afterProbe]
    split_ifs
    · exact .inl rfl
    · exact .inr (.inl rfl)

theorem wellFormed_step (hs : Step lockedBy s e t) (hr : Rechecked lockedBy s e)
    (hw : WellFormed lockedBy s) : WellFormed lockedBy t := by
  cases hs with
  | tick => exact ⟨hw.named, hw.created, hw.wrote, hw.creator, hw.writer⟩
  | lockCalled _ hop =>
    refine hw.insert (fun c hc => ?_) nofun nofun
    rcases hop with rfl | rfl <;> cases hc
  | handleCalled hl _ hop =>
    refine hw.unlocked hl (fun c hc => ?_) nofun nofun
    rcases hop with rfl | ⟨_, _, _, rfl⟩
    · cases hc
    · cases hc
      rfl
  | @began i l operation now hl hp =>
    refine hw.unlocked hl (fun c hc => ?_) ?_ ?_
    · rw [operation_begin] at hc
      exact hw.name_of hl (by rw [hp]; rfl) c (Option.some.inj hc)
    · rintro ⟨_, h⟩
      cases operation <;> cases h
    · rintro ⟨_, h⟩
      cases operation <;> cases h
  | @created i l lockedAt hl hp hfree =>
    cases hnode : s.node l.config.name with
    | none => exact hw.moved hl nofun (fun _ => ⟨hnode, hfree⟩) nofun
    | some => exact hw.unlocked hl nofun nofun nofun
  | probed hl =>
    rcases afterProbe_cases with heq | heq | heq <;> rw [heq] <;>
      exact hw.unlocked hl nofun nofun nofun
  | matched hl hp =>
    rcases operation_afterMatch with heq | heq <;> rw [heq]
    · exact hw.unlocked hl (fun c hc => hw.name_of hl (by rw [hp]; rfl) c (Option.some.inj hc))
        nofun nofun
    · refine hw.unlocked hl (fun c hc => ?_) (not_created operation_unmatched)
        (not_wrote operation_unmatched)
      rw [operation_unmatched] at hc
      cases hc
  | set hl hp hfree =>
    refine hw.moved hl ?_ nofun ?_
    · exact fun c hc => hw.name_of hl (by rw [hp]; rfl) c (Option.some.inj hc)
    · rintro _ ⟨⟩
      exact ⟨hr _ _ hl hp, hfree⟩
  | insertCommitted hl hp =>
    exact hw.write hl rfl fun j b hj hb hname => hw.onlyCreator hl ⟨_, hp⟩ hj hb hname
  | updateCommitted hl hp | unlockCommitted hl hp =>
    exact hw.write hl rfl fun j b hj hb hname => hw.alone hl ⟨_, hp⟩ hj hb hname
  | extendCommitted hl hp =>
    have hwritten := fun node' => @WellFormed.write _ _ _ _ .extended node' hw hl rfl
      fun j b hj hb hname => hw.alone hl ⟨_, hp⟩ hj hb hname
    exact (hwritten _).insert nofun nofun nofun
  | retried hl hop =>
    exact hw.unlocked hl (fun c hc => hw.name_of hl hop c (Option.some.inj hc)) nofun nofun
  | failed hl =>
    refine hw.unlocked hl (fun c hc => ?_) (not_created operation_onError)
      (not_wrote operation_onError)
    rw [operation_onError] at hc
    cases hc

/-- The runs in which SET finds what MATCH has found. -/
def undisturbed (lockedBy : ℕ → String) : TransitionSystem System Event :=
  (system lockedBy).guarded (Rechecked lockedBy)

theorem wellFormed_reachable (h : (undisturbed lockedBy).Reachable s) : WellFormed lockedBy s := by
  refine h.invariant ?_ (fun _ _ _ _ hs hw => wellFormed_step hs.1 hs.2 hw)
  intro s hi
  have hnone : ∀ i l, s.locks i ≠ some l := by
    intro i l hl
    rw [hi i] at hl
    cases hl
  refine ⟨?_, ?_, ?_, ?_, ?_⟩
  · exact fun i l hl => absurd hl (hnone i l)
  · exact fun i l hl => absurd hl (hnone i l)
  · exact fun i l hl => absurd hl (hnone i l)
  · exact fun i j a b ha => absurd ha (hnone i a)
  · exact fun i j a b ha => absurd ha (hnone i a)

section Contest

variable {Now : ℚ → Prop}

/-- A transaction of `updateRecord`, and its readings of the clock. -/
def Phase.Contends (Now : ℚ → Prop) : Phase → Prop
  | .opening operation => operation = .updateRecord
  | .probing now => Now now
  | .matching cypher | .setting cypher | .wrote cypher =>
    ∃ now lockedAt, cypher = .update now lockedAt ∧ Now now
  | .held | .refused | .rejected => True
  | .creating _ | .created _ | .unlocked | .extended => False

/-- The contenders for one node: the one that has taken it over is the one that has written it, and
its deadline is later than what the others have read off their clocks. -/
structure Contest (Now : ℚ → Prop) (name : String) (s : System) : Prop where
  contends : ∀ i l, s.locks i = some l → l.config.name = name → l.phase.Contends Now
  taken : ∀ i l, s.locks i = some l → l.config.name = name → l.phase = .held →
    ∃ node, s.node name = some node ∧ node.writer = i ∧ ∀ now, Now now → now < node.lockUntil
  alone : ∀ i l, s.locks i = some l → l.config.name = name → l.phase.Wrote →
    ∀ j a, s.locks j = some a → a.config.name = name → a.phase ≠ .held

/-- A call that goes on and, if it is a contender, does so without a commit. -/
theorem Contest.moved {a : LockCall Phase ℚ} (hc : Contest Now name s)
    (hnode : t.node name = s.node name) (hlocks : t.locks = update s.locks i (some a))
    (ha : a.config.name = name → a.phase.Contends Now ∧ a.phase ≠ .held ∧
      (a.phase.Wrote → ∀ j b, s.locks j = some b → b.config.name = name → b.phase ≠ .held)) :
    Contest Now name t := by
  have hothers : (∀ j b, s.locks j = some b → b.config.name = name → b.phase ≠ .held) →
      ∀ j b, t.locks j = some b → b.config.name = name → b.phase ≠ .held := by
    rw [hlocks]
    exact fun h => LockTable.of_insert h fun hname => (ha hname).2.1
  refine ⟨?_, ?_, ?_⟩
  · rw [hlocks]
    exact LockTable.of_insert hc.contends fun hname => (ha hname).1
  · rw [hlocks, hnode]
    exact LockTable.of_insert hc.taken fun hname hheld => absurd hheld (ha hname).2.1
  · intro j b hb hname hw
    apply hothers
    rw [hlocks] at hb
    revert hb hname hw
    refine LockTable.of_insert (P := fun j b => b.config.name = name → b.phase.Wrote → _)
      (fun j b hb => hc.alone j b hb) (fun hname => (ha hname).2.2) j b

/-- A commit to another node. -/
theorem Contest.written {n : String} {node : Neo4jNode} (hc : Contest Now name s)
    (hname : name ≠ n) (hn : l.config.name = n) :
    Contest Now name ((s.write n node).setPhase i l phase) :=
  hc.moved (update_of_ne hname _ _) rfl fun h => absurd (h.symm.trans hn) hname

/-- The contender that commits has taken the node over. -/
theorem Contest.committed {now lockedAt : ℚ} (hc : Contest Now name s)
    (hw : WellFormed lockedBy s) (hl : s.locks i = some l)
    (hp : l.phase = .wrote (.update now lockedAt)) (hname : l.config.name = name)
    (hlate : ∀ now, Now now → now < l.config.lockAtMostUntil) :
    Contest Now name ((s.write l.config.name
      ((Cypher.update now lockedAt).set (lockedBy i) l.config i node)).setPhase i l .held) := by
  subst hname
  have hwrote : l.phase.Wrote := ⟨_, hp⟩
  refine ⟨?_, ?_, ?_⟩
  · exact LockTable.of_setPhase hc.contends fun _ => trivial
  · refine LockTable.of_setPhase (fun j b hb hbname hheld => ?_) fun _ _ => ?_
    · exact absurd hheld (hc.alone i l hl rfl hwrote j b hb hbname)
    · exact ⟨_, update_self _ _ _, rfl, hlate⟩
  · refine LockTable.of_setPhase_ne (fun j b hj hb hbname hbwrote => ?_) fun _ h =>
      absurd h (not_wrote rfl)
    exact absurd hbwrote (hw.alone hl hwrote hj hb hbname).2

end Contest

/-- What `updateRecord` has read off the clock is not later than the clock is. -/
def Phase.ReadBy (clock : ℚ) : Phase → Prop
  | .probing now => now ≤ clock
  | .matching (.update now _) | .setting (.update now _) | .wrote (.update now _) => now ≤ clock
  | .matching (.unlock _) | .setting (.unlock _) | .wrote (.unlock _) => True
  | .matching (.extend ..) | .setting (.extend ..) | .wrote (.extend ..) => True
  | .opening _ | .creating _ | .created _ | .held | .refused | .rejected | .unlocked
  | .extended => True

def Read (s : System) : Prop := ∀ i l, s.locks i = some l → l.phase.ReadBy s.clock

theorem Phase.ReadBy.mono {clock clock' : ℚ} (h : phase.ReadBy clock) (hle : clock ≤ clock') :
    phase.ReadBy clock' := by
  cases phase with
  | probing => exact le_trans h hle
  | matching cypher | setting cypher | wrote cypher =>
    cases cypher with
    | update => exact le_trans h hle
    | unlock | extend => trivial
  | opening | creating | created | held | refused | rejected | unlocked | extended => trivial

theorem readBy_of_operation {clock : ℚ} (h : phase.operation = none) : phase.ReadBy clock := by
  cases phase with
  | held | refused | rejected | unlocked | extended => trivial
  | opening | creating | created | probing | matching | setting | wrote => cases h

theorem read_step (hs : Step lockedBy s e t) (ho : OnTime s e) (hread : Read s) : Read t := by
  cases hs with
  | tick hle => exact fun i l hl => (hread i l hl).mono hle
  | lockCalled => exact LockTable.of_insert hread trivial
  | handleCalled | retried => exact LockTable.of_setPhase hread trivial
  | @began i l operation now =>
    refine LockTable.of_setPhase hread ?_
    cases operation with
    | updateRecord => exact le_of_eq ho
    | insertRecord | unlock | extend => trivial
  | @created i l lockedAt =>
    refine LockTable.of_setPhase hread ?_
    cases s.node l.config.name <;> trivial
  | @probed i l now lockedAt hl hp =>
    have hnow := hread i l hl
    rw [hp] at hnow
    refine LockTable.of_setPhase hread ?_
    rcases afterProbe_cases with heq | heq | heq <;> rw [heq]
    · exact hnow
    · trivial
    · trivial
  | @matched i l cypher hl hp =>
    have hnow := hread i l hl
    rw [hp] at hnow
    refine LockTable.of_setPhase hread ?_
    rcases operation_afterMatch with heq | heq <;> rw [heq]
    · cases cypher <;> exact hnow
    · exact readBy_of_operation operation_unmatched
  | @set i l cypher hl hp =>
    have hnow := hread i l hl
    rw [hp] at hnow
    refine LockTable.of_setPhase hread ?_
    cases cypher <;> exact hnow
  | insertCommitted | updateCommitted | unlockCommitted =>
    exact LockTable.of_setPhase hread trivial
  | extendCommitted =>
    exact LockTable.of_insert (LockTable.of_setPhase hread trivial) trivial
  | failed => exact LockTable.of_setPhase hread (readBy_of_operation operation_onError)

theorem cell_write {node' : Neo4jNode} : (s.write name node').cell =
    update s.cell name (some (node'.writer, node'.lockUntil)) := by
  funext n
  by_cases hn : n = name
  · subst hn
    simp only [System.cell, System.write, update_self, Option.map_some]
  · simp only [System.cell, System.write, update_of_ne hn]

theorem register_write {locks : LockTable Phase ℚ} {node' : Neo4jNode} :
    ({ s.write name node' with locks } : System).register =
      LockTable.register Phase.Outstanding s.clock locks
        (update s.cell name (some (node'.writer, node'.lockUntil))) :=
  congrArg (LockTable.register Phase.Outstanding s.clock locks) cell_write

/-- The node a handle is about to write carries its deadline. -/
theorem holds_of_wrote (hw : WellFormed lockedBy s) (hl : s.locks i = some l)
    (hp : l.phase = .wrote cypher) (ho : cypher.operation.Outstanding) :
    s.register.Holds i l.config.name := by
  obtain ⟨node, hnode, hmatches⟩ := hw.wrote i l hl cypher hp
  have hout : l.phase.Outstanding := (outstanding_iff (by rw [hp]; rfl)).mpr ho
  have hcell : s.cell l.config.name = some (node.writer, node.lockUntil) := by
    rw [System.cell, hnode, Option.map_some]
  refine LockTable.holds_of hl hout hcell ?_
  cases cypher with
  | update => exact ho.elim
  | unlock => exact hmatches.2
  | extend => exact hmatches.2.1

theorem not_outstanding_afterProbe {now lockedAt : ℚ} {found : Option Neo4jNode} :
    ¬ (afterProbe now lockedAt found).Outstanding := by
  intro ho
  rcases afterProbe_cases with heq | heq | heq <;> rw [heq] at ho
  · exact (outstanding_iff rfl).mp ho
  · cases held_of_outstanding rfl ho
  · cases held_of_outstanding rfl ho

theorem free_of_created (hw : WellFormed lockedBy s) (hl : s.locks i = some l)
    (hp : l.phase.Created) : s.register.Free l.config.name := by
  intro w d hc
  obtain ⟨node, hnode, -⟩ := Option.map_eq_some_iff.mp hc
  cases (hw.created i l hl hp).symm.trans hnode

/-- The node that `updateRecord` is about to write is over by the one clock. -/
theorem free_of_wrote {now lockedAt : ℚ} (hw : WellFormed lockedBy s) (hread : Read s)
    (hl : s.locks i = some l) (hp : l.phase = .wrote (.update now lockedAt)) :
    s.register.Free l.config.name := by
  have hnow := hread i l hl
  rw [hp] at hnow
  intro w d hc
  obtain ⟨node, hnode, hover⟩ := hw.wrote i l hl _ hp
  obtain ⟨node', hnode', heq⟩ := Option.map_eq_some_iff.mp hc
  cases hnode.symm.trans hnode'
  cases heq
  exact le_trans hover hnow

/-- A commit that turns a call into a handle. -/
theorem exclusive_granted {node : Neo4jNode} (hl : s.locks i = some l)
    (hop : l.phase.operation = some operation) (hnothing : ¬ operation.Outstanding)
    (hfree : s.register.Free l.config.name) (hwriter : node.writer = i)
    (huntil : node.lockUntil = l.config.lockAtMostUntil) (he : Tenancy.Exclusive s.register) :
    Tenancy.Exclusive ((s.write l.config.name node).setPhase i l .held).register := by
  have hbefore : ¬ l.phase.Outstanding := mt (outstanding_iff hop).mp hnothing
  rw [System.setPhase, register_write]
  refine Tenancy.exclusive_step (LockTable.register_granted hl hbefore (.inl rfl) hfree
    ⟨node.lockUntil, ?_, le_of_eq huntil.symm⟩) he
  rw [hwriter]

theorem exclusive_step (hs : Step lockedBy s e t) (hw : WellFormed lockedBy s) (hread : Read s)
    (he : Tenancy.Exclusive s.register) : Tenancy.Exclusive t.register := by
  cases hs with
  | tick hle => exact Tenancy.exclusive_step (.advance hle) he
  | @lockCalled i config operation hnone hop =>
    have hnothing : ¬ (Phase.opening operation).Outstanding := by
      rcases hop with rfl | rfl <;> decide
    rw [System.register, ← LockTable.register_called (a := ⟨config, .opening operation⟩) hnone
      hnothing] at he
    exact he
  | handleCalled hl hp =>
    refine LockTable.exclusive_quiet hl (fun _ => ?_) he
    rw [hp]
    decide
  | began hl hp =>
    refine LockTable.exclusive_quiet hl (fun ho => ?_) he
    rw [outstanding_iff operation_begin] at ho
    exact (outstanding_iff (by rw [hp]; rfl)).mpr ho
  | @created i l lockedAt hl hp =>
    refine LockTable.exclusive_quiet hl (fun ho => ?_) he
    cases hnode : s.node l.config.name with
    | none =>
      rw [hnode] at ho
      have hop : (afterCreate lockedAt none).operation = some .insertRecord := rfl
      exact ((outstanding_iff hop).mp ho).elim
    | some =>
      rw [hnode] at ho
      cases held_of_outstanding rfl ho
  | probed hl =>
    exact LockTable.exclusive_quiet hl (fun ho => absurd ho not_outstanding_afterProbe) he
  | @matched i l cypher hl hp =>
    have hop : l.phase.operation = some cypher.operation := by
      rw [hp]
      rfl
    refine LockTable.exclusive_quiet hl (fun ho => ?_) he
    rw [outstanding_iff hop]
    rcases operation_afterMatch with heq | heq <;> rw [heq] at ho
    · exact (outstanding_iff rfl).mp ho
    · have hheld := held_of_outstanding operation_unmatched ho
      cases cypher with
      | update | unlock => cases hheld
      | extend => trivial
  | set hl hp =>
    refine LockTable.exclusive_quiet hl (fun ho => ?_) he
    rw [outstanding_iff rfl] at ho
    exact (outstanding_iff (by rw [hp]; rfl)).mpr ho
  | insertCommitted hl hp =>
    exact exclusive_granted hl (by rw [hp]; rfl) id (free_of_created hw hl ⟨_, hp⟩) rfl rfl he
  | updateCommitted hl hp _ =>
    exact exclusive_granted hl (by rw [hp]; rfl) id (free_of_wrote hw hread hl hp) rfl rfl he
  | @unlockCommitted i l node unlockTime hl hp hnode =>
    have hgone : ¬ Phase.unlocked.Outstanding := by decide
    rw [System.setPhase, register_write]
    exact Tenancy.exclusive_step
      (LockTable.register_released hgone (holds_of_wrote hw hl hp trivial)) he
  | @extendCommitted i j l node newConfig now hl hp hnode hnone =>
    have hgone : ¬ Phase.extended.Outstanding := by decide
    have hij : j ≠ i := by
      rintro rfl
      cases hnone.symm.trans hl
    have hname : newConfig.name = l.config.name := hw.named i l hl newConfig (by rw [hp]; rfl)
    rw [register_write]
    exact Tenancy.exclusive_step (LockTable.register_renewed hnone hij hgone (.inl rfl) hname
      (holds_of_wrote hw hl hp trivial) ⟨_, rfl, le_refl _⟩) he
  | @retried i l operation hl hop =>
    refine LockTable.exclusive_quiet hl (fun ho => ?_) he
    have hagain : (Phase.opening operation).operation = some operation := rfl
    exact (outstanding_iff hop).mpr ((outstanding_iff hagain).mp ho)
  | @failed i l operation hl hop =>
    refine LockTable.exclusive_quiet hl (fun ho => (outstanding_iff hop).mpr ?_) he
    cases operation with
    | insertRecord | updateRecord => exact absurd ho (by decide)
    | unlock | extend => trivial

/-- The runs in which moreover the clocks of the accessors show the one time. -/
def synchronous (lockedBy : ℕ → String) : TransitionSystem System Event :=
  (undisturbed lockedBy).guarded OnTime

theorem exclusive_reachable (h : (synchronous lockedBy).Reachable s) :
    Tenancy.Exclusive s.register := by
  have hall : Read s ∧ Tenancy.Exclusive s.register := by
    refine h.invariant (P := fun s => Read s ∧ Tenancy.Exclusive s.register) ?_ ?_
    · intro s hi
      constructor
      · intro i l hl
        cases (hi i).symm.trans hl
      · intro i name d ho _
        obtain ⟨a, ha, -⟩ := LockTable.outstanding_some ho
        cases (hi i).symm.trans ha
    · rintro s e t hreach ⟨⟨hs, -⟩, honTime⟩ ⟨hread, he⟩
      have hw := wellFormed_reachable hreach.of_guarded
      exact ⟨read_step hs honTime hread, exclusive_step hs hw hread he⟩
  exact hall.2

/-- A handle not yet unlocked or extended whose deadline is still in the future. -/
abbrev Live (s : System) (i : ℕ) (l : LockCall Phase ℚ) : Prop :=
  LockTable.Live Phase.Outstanding s.clock s.locks i l

def nightly : LockConfiguration ℚ :=
  { name := "nightly", lockAtMostFor := 60000, lockAtLeastFor := 5000, createdAt := 0 }

/-- What an earlier holder has left. -/
def expired : Neo4jNode := ⟨0, 0, "other", 2⟩

abbrev oneHost : ℕ → String := fun _ => "worker"

variable {node' : Neo4jNode} {p q r : Phase}

def idle : System := ⟨0, update (fun _ => none) "nightly" (some expired), fun _ => none⟩

end Tslock.Neo4j
