import Mathlib.Data.List.Nodup
import Mathlib.Logic.Function.Basic
import Tslock.Foundation.Runs

/-! One stored object, read by one request and replaced by another one that is conditional on the
tag that was read. If tags tell the objects apart, each applied write acts on the object it
read. -/
namespace Foundation

open Function

/-- What a write demands of the stored object. -/
inductive Condition (ε : Type*) where
  | absent
  | tagged (tag : ε)
deriving DecidableEq, Repr

/-- What a client does with what it read: it is done, or it sends a conditional write. -/
inductive Plan (ω ε ρ : Type*) where
  | finish (reply : ρ)
  | write (condition : Condition ε) (value : ω)
deriving DecidableEq, Repr

/-- The code of the clients. `κ` are their requests, `γ` is what they learn besides the object. -/
structure Client (ω ε η κ γ ρ : Type*) where
  tag : ω → ε
  view : ω → η
  plan : κ → γ → Option η → Plan ω ε ρ
  applied : κ → ρ
  refused : κ → ρ

variable {ω ε η κ γ ρ : Type*}

def Condition.Holds (tag : ω → ε) : Condition ε → Option ω → Prop
  | .absent, stored => stored = none
  | .tagged e, stored => stored.map tag = some e

/-- The condition under which nothing was changed since `seen` was read. -/
def Condition.unchanged (tag : ω → ε) : Option ω → Condition ε
  | none => .absent
  | some x => .tagged (tag x)

namespace Client

/-- `seen` is the object the read was answered with. `applied` has returned after its write,
`returned` without one. -/
inductive Phase (ω ε γ ρ : Type*) where
  | called
  | inspected (seen : Option ω)
  | writing (seen : Option ω) (now : γ) (condition : Condition ε) (value : ω)
  | applied
  | returned (reply : ρ)
  | failed

structure Call (ω ε κ γ ρ : Type*) where
  request : κ
  phase : Phase ω ε γ ρ

/-- What a call has returned. -/
def Call.reply? (P : Client ω ε η κ γ ρ) (call : Call ω ε κ γ ρ) : Option ρ :=
  match call.phase with
  | .returned r => some r
  | .applied => some (P.applied call.request)
  | _ => none

structure State (ω ε κ γ ρ : Type*) where
  stored : Option ω
  calls : ℕ → Option (Call ω ε κ γ ρ)

/-- The events of one call. -/
inductive Action (κ γ : Type*) where
  | called
  | inspected
  | decided
  | applied (request : κ) (now : γ)
  | unanswered (request : κ) (now : γ)
  | refused
  | failed

structure Event (κ γ : Type*) where
  call : ℕ
  action : Action κ γ

/-- The write an event applies, with the call, its request and what it had learnt. -/
def Event.effect : Event κ γ → Option (ℕ × κ × γ)
  | ⟨i, .applied q now⟩ | ⟨i, .unanswered q now⟩ => some (i, q, now)
  | _ => none

theorem Event.call_of_effect {e : Event κ γ} {i : ℕ} {q : κ} {now : γ}
    (h : e.effect = some (i, q, now)) : e.call = i := by
  obtain ⟨k, action⟩ := e
  cases action with
  | applied | unanswered => exact (Prod.mk.inj (Option.some.inj h)).1
  | called | inspected | decided | refused | failed => cases h

namespace Phase

/-- The call waits for an answer of the store. -/
def Pending : Phase ω ε γ ρ → Prop
  | .called | .writing .. => True
  | _ => False

def Settled : Phase ω ε γ ρ → Prop
  | .applied | .returned _ | .failed => True
  | _ => False

theorem Pending.not_settled {phase : Phase ω ε γ ρ} (h : phase.Pending) : ¬ phase.Settled := by
  cases phase with
  | called | writing => exact not_false
  | inspected | applied | returned | failed => exact h.elim

end Phase

def State.setCall (s : State ω ε κ γ ρ) (i : ℕ) (call : Call ω ε κ γ ρ) : State ω ε κ γ ρ :=
  { s with calls := update s.calls i (some call) }

def State.put (s : State ω ε κ γ ρ) (value : ω) : State ω ε κ γ ρ := { s with stored := some value }

theorem State.calls_setCall (s : State ω ε κ γ ρ) (i j : ℕ) (call : Call ω ε κ γ ρ) :
    (s.setCall i call).calls j = if j = i then some call else s.calls j := by
  simp [State.setCall, update_apply]

@[simp] theorem State.calls_put (s : State ω ε κ γ ρ) (value : ω) :
    (s.put value).calls = s.calls := rfl

variable (P : Client ω ε η κ γ ρ)

/-- A read and a write are atomic. A write may be refused whether its condition holds or not, and
the answer to a request may be lost, after its effect or before. -/
inductive Step : State ω ε κ γ ρ → Event κ γ → State ω ε κ γ ρ → Prop where
  | called {s : State ω ε κ γ ρ} {i : ℕ} {q : κ} :
      s.calls i = none → Step s ⟨i, .called⟩ (s.setCall i ⟨q, .called⟩)
  | inspected {s : State ω ε κ γ ρ} {i : ℕ} {q : κ} :
      s.calls i = some ⟨q, .called⟩ →
      Step s ⟨i, .inspected⟩ (s.setCall i ⟨q, .inspected s.stored⟩)
  | finished {s : State ω ε κ γ ρ} {i : ℕ} {q : κ} {seen : Option ω} {now : γ} {r : ρ} :
      s.calls i = some ⟨q, .inspected seen⟩ →
      P.plan q now (seen.map P.view) = .finish r →
      Step s ⟨i, .decided⟩ (s.setCall i ⟨q, .returned r⟩)
  | sent {s : State ω ε κ γ ρ} {i : ℕ} {q : κ} {seen : Option ω} {now : γ} {c : Condition ε}
      {v : ω} :
      s.calls i = some ⟨q, .inspected seen⟩ →
      P.plan q now (seen.map P.view) = .write c v →
      Step s ⟨i, .decided⟩ (s.setCall i ⟨q, .writing seen now c v⟩)
  | applied {s : State ω ε κ γ ρ} {i : ℕ} {q : κ} {seen : Option ω} {now : γ} {c : Condition ε}
      {v : ω} :
      s.calls i = some ⟨q, .writing seen now c v⟩ → c.Holds P.tag s.stored →
      Step s ⟨i, .applied q now⟩ ((s.put v).setCall i ⟨q, .applied⟩)
  | unanswered {s : State ω ε κ γ ρ} {i : ℕ} {q : κ} {seen : Option ω} {now : γ}
      {c : Condition ε} {v : ω} :
      s.calls i = some ⟨q, .writing seen now c v⟩ → c.Holds P.tag s.stored →
      Step s ⟨i, .unanswered q now⟩ ((s.put v).setCall i ⟨q, .failed⟩)
  | refused {s : State ω ε κ γ ρ} {i : ℕ} {q : κ} {seen : Option ω} {now : γ} {c : Condition ε}
      {v : ω} :
      s.calls i = some ⟨q, .writing seen now c v⟩ →
      Step s ⟨i, .refused⟩ (s.setCall i ⟨q, .returned (P.refused q)⟩)
  | failed {s : State ω ε κ γ ρ} {i : ℕ} {q : κ} {phase : Phase ω ε γ ρ} :
      s.calls i = some ⟨q, phase⟩ → phase.Pending →
      Step s ⟨i, .failed⟩ (s.setCall i ⟨q, .failed⟩)

/-- From any stored object that `Valid` admits, and no call. -/
def system (Valid : ω → Prop) : TransitionSystem (State ω ε κ γ ρ) (Event κ γ) where
  Initial s := (∀ x ∈ s.stored, Valid x) ∧ ∀ i, s.calls i = none
  Step := P.Step

/-- What the code of the clients has to keep: writes are conditional on what was read, valid
objects lead to valid ones, and tags tell these apart. -/
structure Sound (Valid : ω → Prop) : Prop where
  write : ∀ (q : κ) (now : γ) (seen : Option ω) (c : Condition ε) (v : ω),
    (∀ x ∈ seen, Valid x) → P.plan q now (seen.map P.view) = .write c v →
    c = .unchanged P.tag seen ∧ Valid v
  tag_injective : ∀ x y, Valid x → Valid y → P.tag x = P.tag y → x = y

variable {P} {Valid : ω → Prop} {s t u : State ω ε κ γ ρ} {e : Event κ γ} {as bs : List (Event κ γ)}

/-- A step moves its own call only. -/
theorem Step.calls_of_ne {j : ℕ} (h : P.Step s e t) (hne : j ≠ e.call) : t.calls j = s.calls j := by
  cases h <;> simp [State.calls_setCall, hne]

theorem Step.not_settled {call : Call ω ε κ γ ρ} (h : P.Step s e t)
    (hc : s.calls e.call = some call) : ¬ call.phase.Settled := by
  cases h with
  | called hn =>
    rw [hn] at hc
    cases hc
  | inspected hi | finished hi _ | sent hi _ | applied hi _ | unanswered hi _ | refused hi =>
    obtain rfl := Option.some.inj (hi.symm.trans hc)
    exact not_false
  | failed hi hp =>
    obtain rfl := Option.some.inj (hi.symm.trans hc)
    exact hp.not_settled

/-- A step that applies no write leaves the object alone. -/
theorem Step.stored_of_no_effect (h : P.Step s e t) (he : e.effect = none) :
    t.stored = s.stored := by
  cases h with
  | applied | unanswered => cases he
  | called | inspected | finished | sent | refused | failed => rfl

/-- The call whose write was applied is over, and was answered that way or not at all. -/
theorem Step.effect_settles {i : ℕ} {q : κ} {now : γ} (h : P.Step s e t)
    (he : e.effect = some (i, q, now)) :
    e.call = i ∧ (t.calls i = some ⟨q, .applied⟩ ∨ t.calls i = some ⟨q, .failed⟩) := by
  cases h with
  | applied =>
    obtain ⟨rfl, rfl, rfl⟩ := he
    exact ⟨rfl, .inl (by simp [State.calls_setCall])⟩
  | unanswered =>
    obtain ⟨rfl, rfl, rfl⟩ := he
    exact ⟨rfl, .inr (by simp [State.calls_setCall])⟩
  | called | inspected | finished | sent | refused | failed => cases he

theorem Step.effect_of_applied {i : ℕ} {q : κ} (h : P.Step s e t)
    (ht : t.calls i = some ⟨q, .applied⟩) :
    s.calls i = some ⟨q, .applied⟩ ∨ ∃ now, e.effect = some (i, q, now) := by
  rcases eq_or_ne i e.call with rfl | hne
  · right
    cases h with
    | @applied i q' seen now c v hi hc =>
      obtain ⟨rfl, -⟩ : q' = q ∧ True := by simpa [State.calls_setCall] using ht
      exact ⟨now, rfl⟩
    | failed | called | inspected | finished | sent | unanswered | refused =>
      simp [State.calls_setCall] at ht
  · exact .inl ((h.calls_of_ne hne).symm.trans ht)

/-- Nothing happens in a call that is over. -/
theorem settled_stays {i : ℕ} {call : Call ω ε κ γ ρ} (h : (P.system Valid).Run s as t)
    (hc : s.calls i = some call) (hset : call.phase.Settled) :
    t.calls i = some call ∧ ∀ e ∈ as, e.call ≠ i := by
  induction h with
  | refl => exact ⟨hc, nofun⟩
  | @step s t u e as hs _ ih =>
    have hne : i ≠ e.call := by
      rintro rfl
      exact hs.not_settled hc hset
    obtain ⟨ht, hrest⟩ := ih ((hs.calls_of_ne hne).trans hc)
    exact ⟨ht, List.forall_mem_cons.mpr ⟨hne.symm, hrest⟩⟩

/-- A call that returned without a write changed nothing in any of its steps. -/
theorem unchanged_of_returned {call : Call ω ε κ γ ρ} {r : ρ} (hs : P.Step s e t)
    (hr : (P.system Valid).Run t as u) (hc : u.calls e.call = some call)
    (hret : call.phase = .returned r) : t.stored = s.stored := by
  rcases heff : e.effect with _ | ⟨i, q, now⟩
  · exact hs.stored_of_no_effect heff
  · obtain ⟨rfl, ht | ht⟩ := hs.effect_settles heff
    · obtain rfl := Option.some.inj ((settled_stays hr ht trivial).1.symm.trans hc)
      cases hret
    · obtain rfl := Option.some.inj ((settled_stays hr ht trivial).1.symm.trans hc)
      cases hret

/-- A call whose write was applied has no other one. -/
theorem effects_nodup (h : (P.system Valid).Run s as t) :
    ((as.filterMap Event.effect).map Prod.fst).Nodup := by
  induction h with
  | refl => exact .nil
  | @step s t u e as hs hr ih =>
    rcases heff : e.effect with _ | ⟨i, q, now⟩
    · rwa [List.filterMap_cons_none heff]
    · rw [List.filterMap_cons_some heff, List.map_cons, List.nodup_cons]
      refine ⟨?_, ih⟩
      intro hmem
      obtain ⟨⟨j, q', now'⟩, hx, rfl⟩ := List.mem_map.mp hmem
      obtain ⟨e', he', heff'⟩ := List.mem_filterMap.mp hx
      obtain ⟨-, ht⟩ := hs.effect_settles heff
      have hquiet : ∀ e ∈ as, e.call ≠ j := by
        rcases ht with ht | ht
        · exact (settled_stays hr ht trivial).2
        · exact (settled_stays hr ht trivial).2
      exact hquiet e' he' (Event.call_of_effect heff')

/-- A call answered for its write had it applied in the run. -/
theorem effect_of_applied {i : ℕ} {q : κ} (h : (P.system Valid).Run s as t)
    (hs : s.calls i = none) (ht : t.calls i = some ⟨q, .applied⟩) :
    ∃ now, (i, q, now) ∈ as.filterMap Event.effect := by
  have key : s.calls i = some ⟨q, .applied⟩ ∨ ∃ now, (i, q, now) ∈ as.filterMap Event.effect := by
    clear hs
    induction h with
    | refl => exact .inl ht
    | @step s t u e as hs _ ih =>
      rcases ih ht with hmid | ⟨now, hmem⟩
      · rcases hs.effect_of_applied hmid with hbefore | ⟨now, heff⟩
        · exact .inl hbefore
        · exact .inr ⟨now, List.mem_filterMap.mpr ⟨e, List.mem_cons_self, heff⟩⟩
      · right
        obtain ⟨e', he', heff⟩ := List.mem_filterMap.mp hmem
        exact ⟨now, List.mem_filterMap.mpr ⟨e', List.mem_cons_of_mem e he', heff⟩⟩
  rw [hs] at key
  exact key.resolve_left nofun

/-- What the plans and the refusals reply is all that calls without a write return. -/
theorem returned_run {R : ρ → Prop}
    (hplan : ∀ (q : κ) (now : γ) (head : Option η) (r : ρ), P.plan q now head = .finish r → R r)
    (hrefused : ∀ q, R (P.refused q)) (h : (P.system Valid).Run s as t)
    (hs : ∀ i q r, s.calls i = some ⟨q, .returned r⟩ → R r) :
    ∀ i q r, t.calls i = some ⟨q, .returned r⟩ → R r := by
  refine h.preserves (P := fun s => ∀ i q r, s.calls i = some ⟨q, .returned r⟩ → R r) ?_ hs
  intro s e t h hs i q r ht
  rcases eq_or_ne i e.call with rfl | hne
  · cases h with
    | finished hi hfinish =>
      obtain ⟨-, rfl⟩ : _ ∧ _ = r := by simpa [State.calls_setCall] using ht
      exact hplan _ _ _ _ hfinish
    | refused hi =>
      obtain ⟨-, rfl⟩ : _ ∧ _ = r := by simpa [State.calls_setCall] using ht
      exact hrefused _
    | called | inspected | sent | applied | unanswered | failed =>
      simp [State.calls_setCall] at ht
  · exact hs i q r ((h.calls_of_ne hne).symm.trans ht)

/-- The stored object and each object read are valid, and a write in flight was planned on the
object its call has read. -/
structure State.Coherent (P : Client ω ε η κ γ ρ) (Valid : ω → Prop) (s : State ω ε κ γ ρ) :
    Prop where
  stored : ∀ x ∈ s.stored, Valid x
  inspected : ∀ i q seen, s.calls i = some ⟨q, .inspected seen⟩ → ∀ x ∈ seen, Valid x
  writing : ∀ i q seen now c v, s.calls i = some ⟨q, .writing seen now c v⟩ →
    (∀ x ∈ seen, Valid x) ∧ P.plan q now (seen.map P.view) = .write c v

theorem State.Coherent.initial (h : (P.system Valid).Initial s) : s.Coherent P Valid where
  stored := h.1
  inspected i _ _ hi := by
    rw [h.2 i] at hi
    cases hi
  writing i _ _ _ _ _ hi := by
    rw [h.2 i] at hi
    cases hi

/-- A condition that holds of the stored object says that it is the one read. -/
theorem Sound.stored_eq_seen (hP : P.Sound Valid) {stored seen : Option ω}
    (hstored : ∀ x ∈ stored, Valid x) (hseen : ∀ x ∈ seen, Valid x)
    (h : (Condition.unchanged P.tag seen).Holds P.tag stored) : stored = seen := by
  cases seen with
  | none => exact h
  | some x =>
    obtain ⟨y, rfl, htag⟩ := Option.map_eq_some_iff.mp h
    rw [hP.tag_injective y x (hstored y rfl) (hseen x rfl) htag]

theorem State.Coherent.step (hP : P.Sound Valid) (hs : s.Coherent P Valid) (h : P.Step s e t) :
    t.Coherent P Valid := by
  have hold : ∀ i, i ≠ e.call → t.calls i = s.calls i := fun i hi => h.calls_of_ne hi
  cases h with
  | called | finished | refused | failed =>
    refine ⟨hs.stored, ?_, ?_⟩
    · intro j q' seen hj
      exact hs.inspected j q' seen (by grind [State.calls_setCall])
    · intro j q' seen now c v hj
      exact hs.writing j q' seen now c v (by grind [State.calls_setCall])
  | @inspected i q hi =>
    refine ⟨hs.stored, ?_, ?_⟩
    · intro j q' seen hj
      rcases eq_or_ne j i with rfl | hne
      · simp only [State.calls_setCall, if_true, Option.some.injEq, Call.mk.injEq,
          Phase.inspected.injEq] at hj
        obtain ⟨-, rfl⟩ := hj
        exact hs.stored
      · exact hs.inspected j q' seen ((hold j hne).symm.trans hj)
    · intro j q' seen now c v hj
      exact hs.writing j q' seen now c v (by grind [State.calls_setCall])
  | @sent i q seen now c v hi hplan =>
    refine ⟨hs.stored, ?_, ?_⟩
    · intro j q' seen' hj
      exact hs.inspected j q' seen' (by grind [State.calls_setCall])
    · intro j q' seen' now' c' v' hj
      rcases eq_or_ne j i with rfl | hne
      · simp only [State.calls_setCall, if_true, Option.some.injEq, Call.mk.injEq,
          Phase.writing.injEq] at hj
        obtain ⟨rfl, rfl, rfl, rfl, rfl⟩ := hj
        exact ⟨hs.inspected j q seen hi, hplan⟩
      · exact hs.writing j q' seen' now' c' v' ((hold j hne).symm.trans hj)
  | @applied i q seen now c v hi _ | @unanswered i q seen now c v hi _ =>
    obtain ⟨hseen, hplan⟩ := hs.writing i q seen now c v hi
    refine ⟨?_, ?_, ?_⟩
    · intro x hx
      obtain rfl := Option.mem_some.mp hx
      exact (hP.write q now seen c v hseen hplan).2
    · intro j q' seen' hj
      exact hs.inspected j q' seen' (by grind [State.calls_setCall, State.calls_put])
    · intro j q' seen' now' c' v' hj
      exact hs.writing j q' seen' now' c' v' (by grind [State.calls_setCall, State.calls_put])

theorem coherent_run (hP : P.Sound Valid) (hs : s.Coherent P Valid)
    (h : (P.system Valid).Run s as t) : t.Coherent P Valid :=
  h.preserves (fun _ _ _ hstep hs => hs.step hP hstep) hs

/-- An applied write was planned on the object it replaces. -/
theorem Step.effect_serial {i : ℕ} {q : κ} {now : γ} (hP : P.Sound Valid)
    (hs : s.Coherent P Valid) (h : P.Step s e t) (he : e.effect = some (i, q, now)) :
    ∃ c v, s.calls i = some ⟨q, .writing s.stored now c v⟩ ∧
      P.plan q now (s.stored.map P.view) = .write c v ∧ t.stored = some v := by
  have key : ∀ seen c v, s.calls i = some ⟨q, .writing seen now c v⟩ → c.Holds P.tag s.stored →
      s.calls i = some ⟨q, .writing s.stored now c v⟩ ∧
        P.plan q now (s.stored.map P.view) = .write c v := by
    intro seen c v hi hc
    obtain ⟨hseen, hplan⟩ := hs.writing i q seen now c v hi
    rw [(hP.write q now seen c v hseen hplan).1] at hc
    obtain rfl := hP.stored_eq_seen hs.stored hseen hc
    exact ⟨hi, hplan⟩
  cases h with
  | applied hi hc | unanswered hi hc =>
    obtain ⟨rfl, rfl, rfl⟩ := he
    obtain ⟨hwriting, hplan⟩ := key _ _ _ hi hc
    exact ⟨_, _, hwriting, hplan, rfl⟩
  | called | inspected | finished | sent | refused | failed => cases he

/-- Each run is a serial run of the writes it applies, each at the step that applied it, in any
system `U` whose steps cover the writes planned on valid objects. -/
theorem run_serial {σ : Type*} {U : TransitionSystem σ (ℕ × κ × γ)} {f : Option ω → σ}
    (hU : ∀ stored i q now c v, (∀ x ∈ stored, Valid x) →
      P.plan q now (stored.map P.view) = .write c v → U.Step (f stored) (i, q, now) (f (some v)))
    (hP : P.Sound Valid) (hs : s.Coherent P Valid) (h : (P.system Valid).Run s as t) :
    U.Run (f s.stored) (as.filterMap Event.effect) (f t.stored) := by
  induction h with
  | refl => exact .refl
  | @step s t u e as hstep _ ih =>
    have hrest := ih (hs.step hP hstep)
    rcases heff : e.effect with _ | ⟨i, q, now⟩
    · rw [List.filterMap_cons_none heff, ← hstep.stored_of_no_effect heff]
      exact hrest
    · obtain ⟨c, v, -, hplan, ht⟩ := hstep.effect_serial hP hs heff
      rw [List.filterMap_cons_some heff]
      rw [ht] at hrest
      exact .step (hU s.stored i q now c v hs.stored hplan) hrest

end Client

end Foundation
