import Mathlib.Order.Basic

/-! Labelled runs, the invariant rule, guarded systems and abstraction maps. -/
namespace Foundation

/-- A labelled transition system together with its initial states. -/
structure TransitionSystem (σ α : Type*) where
  Initial : σ → Prop
  Step : σ → α → σ → Prop

namespace TransitionSystem

variable {σ σ' α β : Type*} {T : TransitionSystem σ α} {U : TransitionSystem σ' β}
  {s t u : σ} {a : α} {as bs : List α}

/-- Finite runs, one label for each step. -/
inductive Run (T : TransitionSystem σ α) : σ → List α → σ → Prop where
  | refl {s : σ} : Run T s [] s
  | step {s t u : σ} {a : α} {as : List α} :
      T.Step s a t → Run T t as u → Run T s (a :: as) u

theorem Run.single (h : T.Step s a t) : T.Run s [a] t := .step h .refl

theorem Run.append (h : T.Run s as t) (h' : T.Run t bs u) : T.Run s (as ++ bs) u := by
  induction h with
  | refl => exact h'
  | step hs _ ih => exact .step hs (ih h')

/-- A state predicate kept by each step is kept by each run. -/
theorem Run.preserves {P : σ → Prop} (hP : ∀ s a t, T.Step s a t → P s → P t)
    (h : T.Run s as t) (hs : P s) : P t := by
  induction h with
  | refl => exact hs
  | step h _ ih => exact ih (hP _ _ _ h hs)

/-- The states a run from an initial state ends in. -/
def Reachable (T : TransitionSystem σ α) (s : σ) : Prop :=
  ∃ s₀ as, T.Initial s₀ ∧ T.Run s₀ as s

theorem Reachable.initial (h : T.Initial s) : T.Reachable s := ⟨s, [], h, .refl⟩

theorem Reachable.run (h : T.Reachable s) (hr : T.Run s as t) : T.Reachable t := by
  obtain ⟨s₀, bs, hi, hb⟩ := h
  exact ⟨s₀, bs ++ as, hi, hb.append hr⟩

theorem Reachable.step (h : T.Reachable s) (hs : T.Step s a t) : T.Reachable t :=
  h.run (.single hs)

/-- Holds initially, kept by each step from a reachable state: holds in every reachable state. -/
theorem Reachable.invariant {P : σ → Prop} (h : T.Reachable s) (hi : ∀ s, T.Initial s → P s)
    (hP : ∀ s a t, T.Reachable s → T.Step s a t → P s → P t) : P s := by
  obtain ⟨s₀, as, h₀, hr⟩ := h
  have hs₀ := Reachable.initial h₀
  have hp₀ := hi s₀ h₀
  clear h₀
  induction hr with
  | refl => exact hp₀
  | step hs _ ih => exact ih (hs₀.step hs) (hP _ _ _ hs₀ hs hp₀)

/-- The system whose steps also meet a guard on the state before and the label. -/
def guarded (T : TransitionSystem σ α) (G : σ → α → Prop) : TransitionSystem σ α where
  Initial := T.Initial
  Step s a t := T.Step s a t ∧ G s a

theorem Run.of_guarded {G : σ → α → Prop} (h : (T.guarded G).Run s as t) : T.Run s as t := by
  induction h with
  | refl => exact .refl
  | step hs _ ih => exact .step hs.1 ih

theorem Reachable.of_guarded {G : σ → α → Prop} (h : (T.guarded G).Reachable s) :
    T.Reachable s := by
  obtain ⟨s₀, as, hi, hr⟩ := h
  exact ⟨s₀, as, hi, hr.of_guarded⟩

/-- A map under which each step is an abstract step or leaves the abstract state alone. -/
structure Abstraction (T : TransitionSystem σ α) (U : TransitionSystem σ' β) (f : σ → σ') :
    Prop where
  initial : ∀ s, T.Initial s → U.Initial (f s)
  step : ∀ s a t, T.Reachable s → T.Step s a t → f t = f s ∨ ∃ b, U.Step (f s) b (f t)

theorem Abstraction.reachable {f : σ → σ'} (hf : Abstraction T U f) (h : T.Reachable s) :
    U.Reachable (f s) := by
  refine h.invariant (P := fun s => U.Reachable (f s))
    (fun s hi => Reachable.initial (hf.initial s hi)) ?_
  intro s a t hr hs hu
  rcases hf.step s a t hr hs with heq | ⟨b, hb⟩
  · rw [heq]
    exact hu
  · exact hu.step hb

/-- A run from a reachable state, seen through the map. -/
theorem Abstraction.run {f : σ → σ'} (hf : Abstraction T U f) (h : T.Reachable s)
    (hr : T.Run s as t) : ∃ bs, U.Run (f s) bs (f t) := by
  induction hr with
  | refl => exact ⟨[], .refl⟩
  | step hs _ ih =>
    obtain ⟨bs, hrest⟩ := ih (h.step hs)
    rcases hf.step _ _ _ h hs with heq | ⟨b, hb⟩
    · exact ⟨bs, heq ▸ hrest⟩
    · exact ⟨b :: bs, .step hb hrest⟩

end TransitionSystem

end Foundation
