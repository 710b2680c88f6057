import Mathlib.Logic.Function.Basic
import Tslock.Foundation.Runs

/-! Programs that await the answers of a shared service, any number of them at a time. What one of
them meets is proved against all that the others may do between its requests. -/
namespace Foundation

open Function

/-- A result, something thrown, or a request and how the program goes on with each answer. -/
inductive Program (Q : Type) (A : Q → Type) (ε α : Type) where
  | done (a : α)
  | throw (e : ε)
  | await (q : Q) (next : A q → Program Q A ε α)

namespace Program

variable {Q : Type} {A : Q → Type} {ε α β : Type}

def bind : Program Q A ε α → (α → Program Q A ε β) → Program Q A ε β
  | done a, f => f a
  | throw e, _ => throw e
  | await q next, f => await q fun x => (next x).bind f

def tryCatch : Program Q A ε α → (ε → Program Q A ε α) → Program Q A ε α
  | done a, _ => done a
  | throw e, handle => handle e
  | await q next, handle => await q fun x => (next x).tryCatch handle

instance : Monad (Program Q A ε) where
  pure := done
  bind := bind

instance : MonadExceptOf ε (Program Q A ε) where
  throw := throw
  tryCatch := tryCatch

def ask (q : Q) : Program Q A ε (A q) := await q done

/-- What is computed without requests. -/
def ofExcept : Except ε α → Program Q A ε α
  | .ok a => done a
  | .error e => throw e

/-- What is read, if it is there. -/
def ifPresent (isNotFound : ε → Bool) (read : Program Q A ε α) : Program Q A ε (Option α) :=
  MonadExcept.tryCatch (do return some (← read)) fun e =>
    if isNotFound e then return none else MonadExcept.throw e

/-- `true` if the write succeeds, `false` if it meets a conflict. -/
def succeeds (isConflict : ε → Bool) (write : Program Q A ε Unit) : Program Q A ε Bool :=
  MonadExcept.tryCatch (do write; return true) fun e =>
    if isConflict e then return false else MonadExcept.throw e

/-- A conflict of the write is left alone. -/
def ignoring (isConflict : ε → Bool) (write : Program Q A ε Unit) : Program Q A ε Unit :=
  MonadExcept.tryCatch write fun e =>
    if isConflict e then return () else MonadExcept.throw e

/-- How a program that awaits nothing settles. -/
def outcome : Program Q A ε α → Option (Except ε α)
  | done a => some (.ok a)
  | throw e => some (.error e)
  | await _ _ => none

end Program

/-- What calls share: how they start with a program, how a request of call `i` is answered, what
happens besides, and what becomes of a call that settles. -/
structure Service (σ Q : Type) (A : Q → Type) (ε α : Type) where
  Initial : σ → Prop
  Internal : σ → σ → Prop
  Start : ℕ → σ → Program Q A ε α → σ → Prop
  Serve : ℕ → σ → (q : Q) → A q → σ → Prop
  Settle : ℕ → σ → Except ε α → σ → Prop

namespace Service

variable {σ Q : Type} {A : Q → Type} {ε α β : Type}

/-- The shared state and what is left of the calls under way. -/
structure State (σ Q : Type) (A : Q → Type) (ε α : Type) where
  shared : σ
  running : ℕ → Option (Program Q A ε α)

inductive Event where
  | internal
  | started (i : ℕ)
  | served (i : ℕ)
  | settled (i : ℕ)
deriving DecidableEq, Repr

variable (S : Service σ Q A ε α)

/-- Each request is answered in one step, whatever the other calls are at. -/
inductive Step : State σ Q A ε α → Event → State σ Q A ε α → Prop where
  | internal {s : State σ Q A ε α} {shared : σ} :
      S.Internal s.shared shared → Step s .internal { s with shared }
  | started {s : State σ Q A ε α} {i : ℕ} {p : Program Q A ε α} {shared : σ} :
      s.running i = none → S.Start i s.shared p shared →
      Step s (.started i) ⟨shared, update s.running i (some p)⟩
  | served {s : State σ Q A ε α} {i : ℕ} {q : Q} {next : A q → Program Q A ε α} {a : A q}
      {shared : σ} :
      s.running i = some (.await q next) → S.Serve i s.shared q a shared →
      Step s (.served i) ⟨shared, update s.running i (some (next a))⟩
  | settled {s : State σ Q A ε α} {i : ℕ} {p : Program Q A ε α} {r : Except ε α} {shared : σ} :
      s.running i = some p → p.outcome = some r → S.Settle i s.shared r shared →
      Step s (.settled i) ⟨shared, update s.running i none⟩

/-- No call is under way. -/
def system : TransitionSystem (State σ Q A ε α) Event where
  Initial s := S.Initial s.shared ∧ ∀ i, s.running i = none
  Step := S.Step

/-- What calls count on and owe each other: a state invariant, what call `i` relies on between its
steps, what each of its steps guarantees, and what holds where it settles. -/
structure Contract (σ ε α : Type) where
  Inv : σ → Prop
  Rely : ℕ → σ → σ → Prop
  Guarantee : ℕ → σ → σ → Prop
  Post : ℕ → Except ε α → σ → Prop

variable (C : Contract σ ε α)

/-- From a state on, the requests of a program keep the guarantee of its call, and it settles with
the postcondition. -/
def Meets (i : ℕ) (post : Except ε β → σ → Prop) : Program Q A ε β → σ → Prop
  | .done b, s => ∀ t, C.Inv t → C.Rely i s t → post (.ok b) t
  | .throw e, s => ∀ t, C.Inv t → C.Rely i s t → post (.error e) t
  | .await q next, s => ∀ t, C.Inv t → C.Rely i s t → ∀ a u, S.Serve i t q a u →
      C.Guarantee i t u ∧ Meets i post (next a) u

/-- What a call guarantees keeps the invariant and what the others rely on. -/
structure Contract.Coherent : Prop where
  refl : ∀ i s, C.Rely i s s
  trans : ∀ i s t u, C.Rely i s t → C.Rely i t u → C.Rely i s u
  inv : ∀ i s t, C.Guarantee i s t → C.Inv t
  others : ∀ i j s t, C.Guarantee i s t → j ≠ i → C.Rely j s t

/-- The calls start and settle under the contract, and each starts with a program that meets it. -/
structure Keeps : Prop extends C.Coherent where
  initial : ∀ s, S.Initial s → C.Inv s
  internal : ∀ s t, C.Inv s → S.Internal s t → C.Inv t ∧ ∀ i, C.Rely i s t
  start : ∀ i s p t, C.Inv s → S.Start i s p t → C.Guarantee i s t ∧ S.Meets C i (C.Post i) p t
  settle : ∀ i s r t, C.Inv s → C.Post i r s → S.Settle i s r t → C.Guarantee i s t

section Paths

variable {S} {i : ℕ} {shared shared' : σ} {running : ℕ → Option (Program Q A ε α)}

theorem reachable_started {p : Program Q A ε α} (h : S.system.Reachable ⟨shared, running⟩)
    (hi : running i = none) (hs : S.Start i shared p shared') :
    S.system.Reachable ⟨shared', update running i (some p)⟩ := h.step (.started hi hs)

theorem reachable_served {q : Q} {next : A q → Program Q A ε α} {a : A q}
    (h : S.system.Reachable ⟨shared, update running i (some (.await q next))⟩)
    (hs : S.Serve i shared q a shared') :
    S.system.Reachable ⟨shared', update running i (some (next a))⟩ := by
  have hstep := h.step (.served (update_self _ _ _) hs)
  rwa [update_idem] at hstep

end Paths

section Rules

variable {S C} {i : ℕ} {post post' : Except ε β → σ → Prop} {p : Program Q A ε β} {s t : σ}

theorem meets_ask_bind {q : Q} {f : A q → Program Q A ε β} :
    S.Meets C i post (Program.ask q >>= f) s ↔
      ∀ t, C.Inv t → C.Rely i s t → ∀ a u, S.Serve i t q a u →
        C.Guarantee i t u ∧ S.Meets C i post (f a) u := Iff.rfl

theorem meets_pure {b : β} : S.Meets C i post (pure b : Program Q A ε β) s ↔
    ∀ t, C.Inv t → C.Rely i s t → post (.ok b) t := Iff.rfl

theorem meets_throw {e : ε} : S.Meets C i post (throw e : Program Q A ε β) s ↔
    ∀ t, C.Inv t → C.Rely i s t → post (.error e) t := Iff.rfl

theorem Meets.rely (hC : C.Coherent) (hr : C.Rely i s t) (h : S.Meets C i post p s) :
    S.Meets C i post p t := by
  cases p with
  | done | throw | await => exact fun u hu htu => h u hu (hC.trans i _ _ _ hr htu)

theorem Meets.mono (h : S.Meets C i post p s) (hpost : ∀ r u, post r u → post' r u) :
    S.Meets C i post' p s := by
  induction p generalizing s with
  | done | throw => exact fun t ht hst => hpost _ _ (h t ht hst)
  | await q next ih =>
    intro t ht hst a u hserve
    obtain ⟨hg, hrest⟩ := h t ht hst a u hserve
    exact ⟨hg, ih a hrest⟩

/-- The first program settles in a state from which the rest meets the postcondition. -/
theorem Meets.bind (hC : C.Coherent) {γ : Type} {q : Program Q A ε γ} {f : γ → Program Q A ε β}
    {m : Except ε γ → σ → Prop} (hs : C.Inv s) (h : S.Meets C i m q s)
    (hok : ∀ c u, C.Inv u → m (.ok c) u → S.Meets C i post (f c) u)
    (herror : ∀ e u, m (.error e) u → post (.error e) u) :
    S.Meets C i post (q >>= f) s := by
  change S.Meets C i post (q.bind f) s
  induction q generalizing s with
  | done c => exact hok c s hs (h s hs (hC.refl i s))
  | throw e => exact fun t ht hst => herror e t (h t ht hst)
  | await q next ih =>
    intro t ht hst a u hserve
    obtain ⟨hg, hrest⟩ := h t ht hst a u hserve
    exact ⟨hg, ih a (hC.inv i _ _ hg) hrest⟩

theorem Meets.tryCatch (hC : C.Coherent) {handle : ε → Program Q A ε β}
    {m : Except ε β → σ → Prop} (hs : C.Inv s) (h : S.Meets C i m p s)
    (hok : ∀ b u, m (.ok b) u → post (.ok b) u)
    (herror : ∀ e u, C.Inv u → m (.error e) u → S.Meets C i post (handle e) u) :
    S.Meets C i post (tryCatch p handle) s := by
  change S.Meets C i post (p.tryCatch handle) s
  induction p generalizing s with
  | done b => exact fun t ht hst => hok b t (h t ht hst)
  | throw e => exact herror e s hs (h s hs (hC.refl i s))
  | await q next ih =>
    intro t ht hst a u hserve
    obtain ⟨hg, hrest⟩ := h t ht hst a u hserve
    exact ⟨hg, ih a (hC.inv i _ _ hg) hrest⟩

/-- A program is where its postcondition holds of what it settles with. -/
theorem Meets.settled (hC : C.Coherent) {r : Except ε β} (hs : C.Inv s) (h : S.Meets C i post p s)
    (hr : p.outcome = some r) : post r s := by
  cases p with
  | done | throw =>
    obtain rfl := Option.some.inj hr
    exact h s hs (hC.refl i s)
  | await => cases hr

end Rules

/-- The invariant holds, and each call under way meets the contract from here on. -/
def State.Kept (s : State σ Q A ε α) : Prop :=
  C.Inv s.shared ∧ ∀ i p, s.running i = some p → S.Meets C i (C.Post i) p s.shared

variable {S C} {s t : State σ Q A ε α} {e : Event}

/-- What a step does to the shared state. -/
theorem Step.guarantee (hC : S.Keeps C) (hs : s.Kept S C) (h : S.Step s e t) :
    S.Internal s.shared t.shared ∨ ∃ i, C.Guarantee i s.shared t.shared := by
  obtain ⟨hinv, hmeets⟩ := hs
  cases h with
  | internal h => exact .inl h
  | started _ h => exact .inr ⟨_, (hC.start _ _ _ _ hinv h).1⟩
  | served hi h => exact .inr ⟨_, (hmeets _ _ hi _ hinv (hC.refl _ _) _ _ h).1⟩
  | settled hi hr h =>
    exact .inr ⟨_, hC.settle _ _ _ _ hinv ((hmeets _ _ hi).settled hC.toCoherent hinv hr) h⟩

theorem Step.kept (hC : S.Keeps C) (hs : s.Kept S C) (h : S.Step s e t) : t.Kept S C := by
  obtain ⟨hinv, hmeets⟩ := hs
  -- the calls that did not move rely on what the step guarantees
  have others : ∀ {i : ℕ} {p : Option (Program Q A ε α)} {shared : σ},
      C.Guarantee i s.shared shared →
      (∀ q, p = some q → S.Meets C i (C.Post i) q shared) →
      State.Kept S C ⟨shared, update s.running i p⟩ := by
    intro i p shared hg hself
    refine ⟨hC.inv i _ _ hg, ?_⟩
    intro j q hq
    change update s.running i p j = some q at hq
    rcases eq_or_ne j i with rfl | hne
    · exact hself q ((update_self j p s.running).symm.trans hq)
    · exact (hmeets j q ((update_of_ne hne p s.running).symm.trans hq)).rely hC.toCoherent
        (hC.others i j _ _ hg hne)
  cases h with
  | internal h =>
    obtain ⟨ht, hrely⟩ := hC.internal _ _ hinv h
    exact ⟨ht, fun i p hi => (hmeets i p hi).rely hC.toCoherent (hrely i)⟩
  | started _ h =>
    obtain ⟨hg, hstart⟩ := hC.start _ _ _ _ hinv h
    refine others hg ?_
    rintro q ⟨⟩
    exact hstart
  | served hi h =>
    obtain ⟨hg, hrest⟩ := hmeets _ _ hi _ hinv (hC.refl _ _) _ _ h
    refine others hg ?_
    rintro q ⟨⟩
    exact hrest
  | settled hi hr h =>
    exact others (hC.settle _ _ _ _ hinv ((hmeets _ _ hi).settled hC.toCoherent hinv hr) h) nofun

/-- Calls whose programs meet the contract one by one meet it together, in every run. -/
theorem kept_reachable (hC : S.Keeps C) (h : S.system.Reachable s) : s.Kept S C := by
  refine h.invariant ?_ (fun _ _ _ _ hs hk => hs.kept hC hk)
  rintro s ⟨hi, hnone⟩
  refine ⟨hC.initial _ hi, ?_⟩
  intro i p hp
  rw [hnone i] at hp
  cases hp

end Service

end Foundation
