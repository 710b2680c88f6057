import Tslock.Core.LockConfiguration
import Tslock.Foundation.Tenancy

/-! The `lock()` calls of a provider and the handles they return, as tenants of the records of its
store. -/
namespace Tslock

open Function Foundation

/-- A `lock()` call, or the handle it has returned. -/
structure LockCall (Phase τ : Type*) where
  config : LockConfiguration τ
  phase : Phase
deriving DecidableEq, Repr

/-- The calls, each known by a number. -/
abbrev LockTable (Phase τ : Type*) := ℕ → Option (LockCall Phase τ)

namespace LockTable

variable {Phase τ : Type*}

def setPhase (table : LockTable Phase τ) (i : ℕ) (a : LockCall Phase τ) (phase : Phase) :
    LockTable Phase τ :=
  update table i (some { a with phase })

theorem setPhase_self {table : LockTable Phase τ} {i : ℕ} {a : LockCall Phase τ}
    {phase : Phase} : table.setPhase i a phase i = some { a with phase } := update_self i _ _

/-- The other calls are left alone. -/
theorem of_setPhase_ne {P : ℕ → LockCall Phase τ → Prop} {table : LockTable Phase τ} {i : ℕ}
    {a : LockCall Phase τ} {phase : Phase} (hother : ∀ j b, j ≠ i → table j = some b → P j b)
    (hself : P i { a with phase }) :
    ∀ j b, table.setPhase i a phase j = some b → P j b := by
  intro j b hb
  by_cases hj : j = i
  · subst hj
    obtain rfl := Option.some.inj (setPhase_self.symm.trans hb)
    exact hself
  · exact hother j b hj ((update_of_ne hj _ _).symm.trans hb)

theorem of_setPhase {P : ℕ → LockCall Phase τ → Prop} {table : LockTable Phase τ} {i : ℕ}
    {a : LockCall Phase τ} {phase : Phase} (hother : ∀ j b, table j = some b → P j b)
    (hself : P i { a with phase }) :
    ∀ j b, table.setPhase i a phase j = some b → P j b :=
  of_setPhase_ne (fun j b _ hb => hother j b hb) hself

theorem of_insert {P : ℕ → LockCall Phase τ → Prop} {table : LockTable Phase τ} {i : ℕ}
    {a : LockCall Phase τ} (hother : ∀ j b, table j = some b → P j b) (hself : P i a) :
    ∀ j b, update table i (some a) j = some b → P j b :=
  of_setPhase hother hself

/-- At most one call of each name is in a phase of this kind. -/
def Sole (P : Phase → Prop) (table : LockTable Phase τ) : Prop :=
  ∀ i j a b, table i = some a → table j = some b → P a.phase → P b.phase →
    a.config.name = b.config.name → i = j

section Sole

variable {P : Phase → Prop} {table : LockTable Phase τ} {i : ℕ} {a : LockCall Phase τ}
  {phase : Phase}

theorem Sole.setPhase (hs : Sole P table) (ha : table i = some a)
    (hp : P phase → P a.phase ∨
      ∀ j b, table j = some b → b.config.name = a.config.name → ¬ P b.phase) :
    Sole P (table.setPhase i a phase) := by
  have hother : ∀ k c, k ≠ i → table.setPhase i a phase k = some c → P c.phase → P phase →
      c.config.name ≠ a.config.name := by
    intro k c hk hc hpc hphase hname
    have hbefore : table k = some c := (update_of_ne hk _ _).symm.trans hc
    rcases hp hphase with hold | hnone
    · exact hk (hs k i c a hbefore ha hpc hold hname)
    · exact hnone k c hbefore hname hpc
  intro j k b c hb hc hpb hpc hname
  by_cases hj : j = i
  · subst hj
    obtain rfl := Option.some.inj (setPhase_self.symm.trans hb)
    by_cases hk : k = j
    · exact hk.symm
    · exact absurd hname.symm (hother k c hk hc hpc hpb)
  · by_cases hk : k = i
    · subst hk
      obtain rfl := Option.some.inj (setPhase_self.symm.trans hc)
      exact absurd hname (hother j b hj hb hpb hpc)
    · exact hs j k b c ((update_of_ne hj _ _).symm.trans hb) ((update_of_ne hk _ _).symm.trans hc)
        hpb hpc hname

theorem Sole.insert (hs : Sole P table) (hp : ¬ P a.phase) : Sole P (update table i (some a)) := by
  have hother : ∀ k c, update table i (some a) k = some c → P c.phase → table k = some c := by
    intro k c hc hpc
    by_cases hk : k = i
    · subst hk
      rw [update_self] at hc
      cases hc
      exact absurd hpc hp
    · exact (update_of_ne hk _ _).symm.trans hc
  intro j k b c hb hc hpb hpc hname
  exact hs j k b c (hother j b hb hpb) (hother k c hc hpc) hpb hpc hname

end Sole

section Register

variable [Add τ] (Outstanding : Phase → Prop) [DecidablePred Outstanding]

/-- The name a handle counts on, and until when. -/
def counts (a : LockCall Phase τ) : Option (String × τ) :=
  if Outstanding a.phase then some (a.config.name, a.config.lockAtMostUntil) else none

def register (clock : τ) (table : LockTable Phase τ) (cell : String → Option (ℕ × τ)) :
    Tenancy.Register ℕ String τ where
  now := clock
  outstanding := Tenancy.board (counts Outstanding) table
  cell := cell

variable {Outstanding} {clock : τ} {table : LockTable Phase τ} {cell : String → Option (ℕ × τ)}
  {i j : ℕ} {a b : LockCall Phase τ} {phase : Phase} {x : Option (ℕ × τ)} {name : String} {d : τ}

theorem counts_of (ho : Outstanding a.phase) :
    counts Outstanding a = some (a.config.name, a.config.lockAtMostUntil) := if_pos ho

theorem counts_none (ho : ¬ Outstanding a.phase) : counts Outstanding a = none := if_neg ho

theorem outstanding_of (ha : table i = some a) :
    (register Outstanding clock table cell).outstanding i = counts Outstanding a :=
  Tenancy.board_some ha

theorem register_update : register Outstanding clock (update table i (some a)) cell =
    { register Outstanding clock table cell with
      outstanding := update (register Outstanding clock table cell).outstanding i
        (counts Outstanding a) } := by
  simp only [register]
  rw [Tenancy.board_update, Option.bind_some]

/-- A new call does not count on anything. -/
theorem register_called (hnone : table i = none) (ho : ¬ Outstanding a.phase) :
    register Outstanding clock (update table i (some a)) cell =
      register Outstanding clock table cell := by
  have hnothing : (register Outstanding clock table cell).outstanding i = none :=
    Tenancy.board_none hnone
  rw [register_update, counts_none ho, ← hnothing, update_eq_self]

theorem outstanding_some
    (h : (register Outstanding clock table cell).outstanding i = some (name, d)) :
    ∃ a, table i = some a ∧ Outstanding a.phase ∧ a.config.name = name ∧
      a.config.lockAtMostUntil = d := by
  obtain ⟨a, ha, hcounts⟩ := Option.bind_eq_some_iff.mp h
  by_cases ho : Outstanding a.phase
  · rw [counts_of ho] at hcounts
    cases hcounts
    exact ⟨a, ha, ho, rfl, rfl⟩
  · rw [counts_none ho] at hcounts
    cases hcounts

variable (Outstanding) in
/-- A handle not yet given up whose deadline is still in the future. -/
structure Live [LT τ] (clock : τ) (table : LockTable Phase τ) (i : ℕ) (a : LockCall Phase τ) :
    Prop where
  lock : table i = some a
  outstanding : Outstanding a.phase
  unexpired : clock < a.config.lockAtMostUntil

theorem Live.register [LT τ] (hl : Live Outstanding clock table i a) :
    (register Outstanding clock table cell).Live i a.config.name :=
  ⟨_, (outstanding_of hl.lock).trans (counts_of hl.outstanding), hl.unexpired⟩

/-- Two live handles of one name are the same handle. -/
theorem Live.unique [LinearOrder τ]
    (he : Tenancy.Exclusive (LockTable.register Outstanding clock table cell))
    (ha : Live Outstanding clock table i a) (hb : Live Outstanding clock table j b)
    (hname : a.config.name = b.config.name) : i = j := by
  have hl : (LockTable.register Outstanding clock table cell).Live j b.config.name := hb.register
  rw [← hname] at hl
  exact he.unique ha.register hl

/-- The cell still carries the deadline of the handle. -/
theorem holds_of {w : ℕ} (ha : table i = some a) (ho : Outstanding a.phase)
    (hc : cell a.config.name = some (w, d)) (hown : d = a.config.lockAtMostUntil) :
    (register Outstanding clock table cell).Holds i a.config.name :=
  ⟨_, _, _, (outstanding_of ha).trans (counts_of ho), hc, .inr hown⟩

/-- What a handle that has ended leaves behind in its cell. -/
theorem left_released {t : τ} (hphase : ¬ Outstanding phase) :
    Tenancy.Left (register Outstanding clock (table.setPhase i a phase)
      (update cell name (some (i, t)))) i name t where
  cell := update_self name _ _
  released d hd := by
    rw [outstanding_of setPhase_self, counts_none (a := { a with phase }) hphase] at hd
    cases hd

variable [LinearOrder τ]

/-- A call that goes on, or a handle that is given up, without a write. -/
theorem register_quiet (ha : table i = some a) (ho : Outstanding phase → Outstanding a.phase) :
    register Outstanding clock (table.setPhase i a phase) cell =
      register Outstanding clock table cell ∨
    ∃ e, Tenancy.Step (register Outstanding clock table cell) e
      (register Outstanding clock (table.setPhase i a phase) cell) := by
  rw [setPhase, register_update]
  by_cases hphase : Outstanding phase
  · left
    have hsame : counts Outstanding { a with phase } = counts Outstanding a :=
      (counts_of (a := { a with phase }) hphase).trans (counts_of (ho hphase)).symm
    rw [hsame, ← outstanding_of ha, update_eq_self]
  · right
    rw [counts_none (a := { a with phase }) hphase]
    exact ⟨_, .drop⟩

theorem exclusive_quiet (ha : table i = some a) (ho : Outstanding phase → Outstanding a.phase)
    (he : Tenancy.Exclusive (register Outstanding clock table cell)) :
    Tenancy.Exclusive (register Outstanding clock (table.setPhase i a phase) cell) := by
  rcases register_quiet ha ho with heq | ⟨e, hstep⟩
  · rwa [heq]
  · exact Tenancy.exclusive_step hstep he

/-- A write that turns a call into a handle. -/
theorem register_granted (ha : table i = some a) (ho : ¬ Outstanding a.phase)
    (hphase : Outstanding phase)
    (hfree : (register Outstanding clock table cell).Free a.config.name)
    (hx : ∃ t, x = some (i, t) ∧ a.config.lockAtMostUntil ≤ t) :
    Tenancy.Step (register Outstanding clock table cell) (.grant i a.config.name)
      (register Outstanding clock (table.setPhase i a phase) (update cell a.config.name x)) := by
  have hnothing : (register Outstanding clock table cell).outstanding i = none :=
    (outstanding_of ha).trans (counts_none ho)
  rw [setPhase, register_update, counts_of (a := { a with phase }) hphase]
  exact .grant hnothing hfree fun _ => hx

/-- A write with which a handle ends. -/
theorem register_released (hphase : ¬ Outstanding phase)
    (hh : (register Outstanding clock table cell).Holds i name) :
    Tenancy.Step (register Outstanding clock table cell) (.release i name)
      (register Outstanding clock (table.setPhase i a phase) (update cell name x)) := by
  rw [setPhase, register_update, counts_none (a := { a with phase }) hphase]
  exact .release hh

/-- A handle that ends and leaves something in a free cell. -/
theorem exclusive_settled (hphase : ¬ Outstanding phase)
    (he : Tenancy.Exclusive (register Outstanding clock table cell))
    (hfree : (register Outstanding clock table cell).Free name) :
    Tenancy.Exclusive (register Outstanding clock (table.setPhase i a phase)
      (update cell name x)) := by
  rw [setPhase, register_update, counts_none (a := { a with phase }) hphase]
  exact he.settle hfree

/-- A write with which a handle ends and its successor begins. -/
theorem register_renewed (hj : table j = none) (hij : j ≠ i) (hphase : ¬ Outstanding phase)
    (hb : Outstanding b.phase) (hname : b.config.name = name)
    (hh : (register Outstanding clock table cell).Holds i name)
    (hx : ∃ t, x = some (j, t) ∧ b.config.lockAtMostUntil ≤ t) :
    Tenancy.Step (register Outstanding clock table cell) (.renew i j name)
      (register Outstanding clock (update (table.setPhase i a phase) j (some b))
        (update cell name x)) := by
  have hnothing : (register Outstanding clock table cell).outstanding j = none :=
    Tenancy.board_none hj
  rw [register_update, setPhase, register_update, counts_none (a := { a with phase }) hphase,
    counts_of hb, hname]
  exact .renew hh ((update_of_ne hij _ _).trans hnothing) fun _ => hx

/-- As long as a cell left behind blocks its name, each handle of that name was one before. -/
theorem outstanding_of_left {clock' t : τ} {table' : LockTable Phase τ}
    {cell' : String → Option (ℕ × τ)} {w : ℕ} {as : List (Tenancy.Action ℕ String τ)}
    (he : Tenancy.Exclusive (register Outstanding clock table cell))
    (hl : Tenancy.Left (register Outstanding clock table cell) w name t)
    (hr : Tenancy.system.Run (register Outstanding clock table cell) as
      (register Outstanding clock' table' cell')) (hn : clock' < t)
    (ha : table' i = some a) (ho : Outstanding a.phase) (hname : a.config.name = name) :
    ∃ b, table i = some b ∧ Outstanding b.phase ∧ b.config.name = name := by
  subst hname
  have hlater : (register Outstanding clock' table' cell').outstanding i =
      some (a.config.name, a.config.lockAtMostUntil) :=
    (outstanding_of ha).trans (counts_of ho)
  have hbefore := (hl.run he hr hn).2 i _ hlater
  obtain ⟨b, hb, hob, hbname, -⟩ := outstanding_some hbefore
  exact ⟨b, hb, hob, hbname⟩

end Register

end LockTable

end Tslock
