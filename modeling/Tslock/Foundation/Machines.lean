import Mathlib.Data.List.Basic

/-! Deterministic machines: what holds at each step of a finite input. -/
namespace Foundation

variable {σ α : Type*}

/-- `P` holds at each step the machine takes on the input. -/
def Along (step : σ → α → σ) (P : σ → α → Prop) : σ → List α → Prop
  | _, [] => True
  | s, a :: as => P s a ∧ Along step P (step s a) as

variable {step : σ → α → σ} {P Q : σ → α → Prop} {I : σ → Prop} {s : σ} {as : List α}

/-- A property of each step follows from another one under an invariant that is kept as long as
that one holds. `A` restricts the inputs. -/
theorem Along.imp {A : α → Prop} (hPQ : ∀ s a, I s → A a → P s a → Q s a)
    (hI : ∀ s a, I s → A a → P s a → I (step s a)) (hs : I s) (ha : ∀ a ∈ as, A a)
    (h : Along step P s as) : Along step Q s as := by
  induction as generalizing s with
  | nil => trivial
  | cons a as ih =>
    obtain ⟨hp, hrest⟩ := h
    have hhead := ha a List.mem_cons_self
    exact ⟨hPQ s a hs hhead hp,
      ih (hI s a hs hhead hp) (fun b hb => ha b (List.mem_cons_of_mem a hb)) hrest⟩

theorem along_true : Along step (fun _ _ => True) s as := by
  induction as generalizing s with
  | nil => trivial
  | cons a as ih => exact ⟨trivial, ih⟩

/-- An invariant that each step keeps gives what it implies at each step. -/
theorem along_of_invariant {A : α → Prop} (hP : ∀ s a, I s → A a → P s a)
    (hI : ∀ s a, I s → A a → I (step s a)) (hs : I s) (ha : ∀ a ∈ as, A a) : Along step P s as :=
  along_true.imp (fun s a h h' _ => hP s a h h') (fun s a h h' _ => hI s a h h') hs ha

theorem foldl_invariant {A : α → Prop} (hI : ∀ s a, I s → A a → I (step s a)) (hs : I s)
    (ha : ∀ a ∈ as, A a) : I (as.foldl step s) := by
  induction as generalizing s with
  | nil => exact hs
  | cons a as ih =>
    exact ih (hI s a hs (ha a List.mem_cons_self)) fun b hb => ha b (List.mem_cons_of_mem a hb)

/-- Two properties of steps agree along an input if they agree under an invariant that is kept as
long as they hold. -/
theorem along_congr {A : α → Prop} (hPQ : ∀ s a, I s → A a → (P s a ↔ Q s a))
    (hI : ∀ s a, I s → A a → Q s a → I (step s a)) (hs : I s) (ha : ∀ a ∈ as, A a) :
    Along step P s as ↔ Along step Q s as := by
  induction as generalizing s with
  | nil => exact Iff.rfl
  | cons a as ih =>
    have hhead := ha a List.mem_cons_self
    have htail : ∀ b ∈ as, A b := fun b hb => ha b (List.mem_cons_of_mem a hb)
    constructor
    · rintro ⟨hp, hrest⟩
      have hq := (hPQ s a hs hhead).mp hp
      exact ⟨hq, (ih (hI s a hs hhead hq) htail).mp hrest⟩
    · rintro ⟨hq, hrest⟩
      exact ⟨(hPQ s a hs hhead).mpr hq, (ih (hI s a hs hhead hq) htail).mpr hrest⟩

end Foundation
