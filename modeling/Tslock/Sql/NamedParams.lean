import Mathlib.Logic.Function.Basic
import Tslock.Foundation.GlobalRegExp

/-! `sql-statements.ts` of `sql-support`: named parameters and their placeholders. -/
namespace Tslock.NamedParams

open Function Foundation

abbrev Text := List Char

/-- `[a-zA-Z_]` -/
def nameStart (c : Char) : Bool :=
  'a' ≤ c ∧ c ≤ 'z' ∨ 'A' ≤ c ∧ c ≤ 'Z' ∨ c = '_'

/-- `[a-zA-Z0-9_]` -/
def nameChar (c : Char) : Bool := nameStart c ∨ '0' ≤ c ∧ c ≤ '9'

/-- `:([a-zA-Z_][a-zA-Z0-9_]*)` at the head of a text. -/
def matchName : Text → Option (ℕ × Text)
  | ':' :: c :: s =>
    if nameStart c then some ((s.takeWhile nameChar).length + 2, c :: s.takeWhile nameChar)
    else none
  | _ => none

theorem matchName_some {s : Text} {n : ℕ} {name : Text} (h : matchName s = some (n, name)) :
    0 < n ∧ n ≤ s.length ∧ s.take n = ':' :: name := by
  unfold matchName at h
  split at h
  case h_2 => cases h
  case h_1 c s =>
    split_ifs at h
    obtain ⟨rfl, rfl⟩ := Prod.mk.inj (Option.some.inj h)
    have hsplit : s.takeWhile nameChar ++ s.dropWhile nameChar = s :=
      List.takeWhile_append_dropWhile
    have hlength := congrArg List.length hsplit
    rw [List.length_append] at hlength
    refine ⟨by omega, by simp only [List.length_cons]; omega, ?_⟩
    rw [List.take_succ_cons, List.take_succ_cons]
    nth_rewrite 2 [← hsplit]
    rw [List.take_left]

def namedParamPattern : GlobalRegExp Char Text where
  matchHere := matchName
  pos _ _ _ h := (matchName_some h).1
  le_length _ _ _ h := (matchName_some h).2.1

abbrev Token := Char ⊕ Text

def tokens (sql : Text) : List Token := namedParamPattern.parts sql

/-- The parameters a text uses, in order, with repetitions. -/
def names (toks : List Token) : List Text := toks.filterMap Sum.getRight?

/-- A text in which each use of a parameter is rewritten. -/
def rendered (render : Text → Text) (toks : List Token) : Text :=
  toks.flatMap (Sum.elim (fun c => [c]) render)

/-- A record of parameters: its own properties and those of its prototype. -/
structure ParamRecord (V : Type*) where
  own : Text → Option V
  inherited : Text → Option V

variable {V : Type*}

/-- `params[name]` where `name in params`. -/
def ParamRecord.lookup (params : ParamRecord V) (name : Text) : Option V :=
  params.own name <|> params.inherited name

structure LockException where
  message : String
deriving DecidableEq

def missingParam (name : Text) : LockException := ⟨"Missing param: " ++ String.ofList name⟩

/-- The variables of `replaceNamedParams`, and the text replaced so far. -/
structure Replacement (V : Type*) where
  result : Text
  seen : Text → Option ℕ
  values : List V
  counter : ℕ

namespace Replacement

variable (s : Replacement V) (c : Char) (placeholder name : Text) (value : V)

def start : Replacement V := ⟨[], fun _ => none, [], 0⟩

def literal : Replacement V := { s with result := s.result ++ [c] }

/-- The first use of a name. -/
def first : Replacement V :=
  { result := s.result ++ placeholder, seen := update s.seen name (some (s.counter + 1)),
    values := s.values ++ [value], counter := s.counter + 1 }

/-- A later use. -/
def again : Replacement V :=
  { s with result := s.result ++ placeholder,
           values := if placeholder = ['?'] then s.values ++ [value] else s.values }

def use (render : Text → ℕ → Text) : Replacement V :=
  match s.seen name with
  | none => s.first (render name (s.counter + 1)) name value
  | some index => s.again (render name index) value

end Replacement

/-- One part of the text. -/
def replaceToken (params : ParamRecord V) (render : Text → ℕ → Text) (s : Replacement V) :
    Token → Except LockException (Replacement V)
  | .inl c => .ok (s.literal c)
  | .inr name =>
    match params.lookup name with
    | none => .error (missingParam name)
    | some value => .ok (s.use name value render)

def replaceTokens (params : ParamRecord V) (render : Text → ℕ → Text) :
    List Token → Replacement V → Except LockException (Replacement V)
  | [], s => .ok s
  | tok :: toks, s =>
    match replaceToken params render s tok with
    | .error e => .error e
    | .ok t => replaceTokens params render toks t

def replaceNamedParams (sql : Text) (params : ParamRecord V) (render : Text → ℕ → Text) :
    Except LockException (Text × List V) :=
  (replaceTokens params render (tokens sql) .start).map fun s => (s.result, s.values)

def translateNamedParams (sql : Text) (params : ParamRecord V) (placeholder : ℕ → Text) :
    Except LockException (Text × List V) :=
  replaceNamedParams sql params fun _ index => placeholder index

def prefixNamedParams (sql : Text) (params : ParamRecord V) (marker : Text) :
    Except LockException (Text × ParamRecord V) :=
  (replaceNamedParams sql params fun name _ => marker ++ name).map fun r => (r.1, params)

/-- `$1`, `$2` and so on. -/
def numbered (index : ℕ) : Text := '$' :: Nat.toDigits 10 index

def questionMark (_ : ℕ) : Text := ['?']

/-- The first used name that the record lacks. -/
def ParamRecord.firstMissing (params : ParamRecord V) (toks : List Token) : Option Text :=
  (names toks).find? fun name => (params.lookup name).isNone

def Replacement.index (s : Replacement V) (name : Text) : ℕ := (s.seen name).getD 0

/-- The text replaced so far, and the names that have an index. -/
structure Replacement.Written (render : Text → ℕ → Text) (done : List Token)
    (s : Replacement V) : Prop where
  result : s.result = rendered (fun name => render name (s.index name)) done
  seen : ∀ name, (s.seen name).isSome ↔ name ∈ names done

/-- Each index counts a value, which is that of its name. -/
structure Replacement.Counted (params : ParamRecord V) (s : Replacement V) : Prop where
  counter : s.values.length = s.counter
  value : ∀ name i, s.seen name = some i →
    0 < i ∧ ∃ value, s.values[i - 1]? = some value ∧ params.lookup name = some value
  onto : ∀ i, i < s.counter → ∃ name, s.seen name = some (i + 1)

variable {params : ParamRecord V} {render : Text → ℕ → Text} {s t : Replacement V}
  {name : Text} {value : V} {toks done : List Token} {c : Char} {i : ℕ}

@[simp] theorem names_nil : names [] = [] := rfl

@[simp] theorem names_inl : names (.inl c :: toks) = names toks := rfl

@[simp] theorem names_inr : names (.inr name :: toks) = name :: names toks := rfl

@[simp] theorem rendered_inl {f : Text → Text} :
    rendered f (.inl c :: toks) = c :: rendered f toks := rfl

@[simp] theorem rendered_inr {f : Text → Text} :
    rendered f (.inr name :: toks) = f name ++ rendered f toks := rfl

/-- The parts of a text, with their colons, are the text. -/
theorem rendered_tokens (sql : Text) : rendered (List.cons ':') (tokens sql) = sql :=
  GlobalRegExp.flatMap_parts (fun _ _ _ h => (matchName_some h).2.2) sql

theorem firstMissing_none : params.firstMissing toks = none ↔
    ∀ name ∈ names toks, (params.lookup name).isSome := by
  simp [ParamRecord.firstMissing, Option.isSome_iff_ne_none]

theorem firstMissing_inr : params.firstMissing (.inr name :: toks) =
    if params.lookup name = none then some name else params.firstMissing toks := by
  rw [ParamRecord.firstMissing, names_inr, List.find?_cons]
  cases params.lookup name with
  | none => rfl
  | some value => rfl

theorem replaceTokens_inr (h : params.lookup name = some value) :
    replaceTokens params render (.inr name :: toks) s =
      replaceTokens params render toks (s.use name value render) := by
  simp only [replaceTokens, replaceToken, h]

theorem replaceTokens_missing (h : params.lookup name = none) :
    replaceTokens params render (.inr name :: toks) s = .error (missingParam name) := by
  simp only [replaceTokens, replaceToken, h]

/-- The first missing name stops the loop, and nothing else does. -/
theorem replaceTokens_cases (params : ParamRecord V) (render : Text → ℕ → Text)
    (toks : List Token) (s : Replacement V) :
    (∃ name, params.firstMissing toks = some name ∧
      replaceTokens params render toks s = .error (missingParam name)) ∨
    (params.firstMissing toks = none ∧ ∃ t, replaceTokens params render toks s = .ok t) := by
  induction toks generalizing s with
  | nil => exact .inr ⟨rfl, s, rfl⟩
  | cons tok toks ih =>
    cases tok with
    | inl c => exact ih (s.literal c)
    | inr n =>
      rw [firstMissing_inr]
      cases hn : params.lookup n with
      | none => exact .inl ⟨n, if_pos rfl, replaceTokens_missing hn⟩
      | some value =>
        rw [if_neg (Option.some_ne_none value), replaceTokens_inr hn]
        exact ih (s.use n value render)

theorem replaceTokens_error (h : params.firstMissing toks = some name) (s : Replacement V) :
    replaceTokens params render toks s = .error (missingParam name) := by
  rcases replaceTokens_cases params render toks s with ⟨n, hn, hrun⟩ | ⟨hnone, -⟩
  · rw [hrun, Option.some.inj (hn.symm.trans h)]
  · rw [h] at hnone
    cases hnone

theorem replaceTokens_total (h : params.firstMissing toks = none) (render : Text → ℕ → Text)
    (s : Replacement V) : ∃ t, replaceTokens params render toks s = .ok t := by
  rcases replaceTokens_cases params render toks s with ⟨n, hn, -⟩ | ⟨-, hrun⟩
  · rw [h] at hn
    cases hn
  · exact hrun

/-- What holds at the start, and is kept by each part, holds of the whole text. -/
theorem replaceTokens_induction {P : List Token → Replacement V → Prop}
    (hinl : ∀ done c s, P done s → P (done ++ [.inl c]) (s.literal c))
    (hinr : ∀ done name s value, params.lookup name = some value → P done s →
      P (done ++ [.inr name]) (s.use name value render))
    (h : replaceTokens params render toks .start = .ok t) (hstart : P [] .start) : P toks t := by
  suffices hrun : ∀ toks done s, P done s → replaceTokens params render toks s = .ok t →
      P (done ++ toks) t from hrun toks [] _ hstart h
  intro toks
  induction toks with
  | nil =>
    intro done s hs h
    cases h
    rwa [List.append_nil]
  | cons tok toks ih =>
    intro done s hs h
    rw [List.append_cons]
    cases tok with
    | inl c => exact ih _ _ (hinl done c s hs) h
    | inr n =>
      cases hn : params.lookup n with
      | none =>
        rw [replaceTokens_missing hn] at h
        cases h
      | some value =>
        rw [replaceTokens_inr hn] at h
        exact ih _ _ (hinr done n s value hn hs) h

theorem names_append (xs ys : List Token) : names (xs ++ ys) = names xs ++ names ys :=
  List.filterMap_append

theorem rendered_append (f : Text → Text) (xs ys : List Token) :
    rendered f (xs ++ ys) = rendered f xs ++ rendered f ys :=
  List.flatMap_append

theorem rendered_congr {f g : Text → Text} (h : ∀ name ∈ names toks, f name = g name) :
    rendered f toks = rendered g toks := by
  induction toks with
  | nil => rfl
  | cons tok toks ih =>
    cases tok with
    | inl c => rw [rendered_inl, rendered_inl, ih h]
    | inr n =>
      rw [rendered_inr, rendered_inr, h n List.mem_cons_self,
        ih fun name hname => h name (List.mem_cons_of_mem n hname)]

namespace Replacement

@[simp] theorem seen_literal (c : Char) : (s.literal c).seen = s.seen := rfl

@[simp] theorem values_literal (c : Char) : (s.literal c).values = s.values := rfl

theorem index_of_seen (h : s.seen name = some i) : s.index name = i := by
  rw [index, h, Option.getD_some]

/-- The name has its index after a use, and the other names keep theirs. -/
theorem seen_use (name n : Text) (value : V) : (s.use name value render).seen n =
    if n = name then some ((s.seen name).getD (s.counter + 1)) else s.seen n := by
  cases h : s.seen name with
  | none =>
    simp only [use, h, first, update_apply, Option.getD_none]
  | some i =>
    simp only [use, h, again, Option.getD_some]
    split_ifs with hn
    · rw [hn, h]
    · rfl

theorem result_use (name : Text) (value : V) : (s.use name value render).result =
    s.result ++ render name ((s.use name value render).index name) := by
  cases h : s.seen name with
  | none => simp [use, index, h, first]
  | some i => simp [use, index, h, again]

theorem Written.start : (start : Replacement V).Written render [] :=
  ⟨rfl, fun _ => by simp [Replacement.start, names]⟩

theorem Written.literal (hs : s.Written render done) (c : Char) :
    (s.literal c).Written render (done ++ [.inl c]) where
  result := by
    rw [rendered_append]
    exact congrArg (· ++ [c]) hs.result
  seen n := by simpa [names_append] using hs.seen n

theorem Written.use (hs : s.Written render done) (name : Text) (value : V) :
    (s.use name value render).Written render (done ++ [.inr name]) where
  result := by
    have hkept : ∀ n ∈ names done, (s.use name value render).index n = s.index n := by
      intro n hn
      obtain ⟨i, hi⟩ := Option.isSome_iff_exists.mp ((hs.seen n).mpr hn)
      rw [index, index, seen_use]
      split_ifs with heq
      · rw [← heq, hi]
        rfl
      · rfl
    rw [rendered_append, result_use, hs.result]
    congr 1
    · exact rendered_congr fun n hn => by rw [hkept n hn]
    · exact (List.append_nil _).symm
  seen n := by
    rw [seen_use, names_append, List.mem_append, ← hs.seen]
    split_ifs with heq
    · simp [heq, names]
    · simp [heq, names]

theorem Counted.start : (start : Replacement V).Counted params :=
  ⟨rfl, fun _ _ h => (nomatch h), fun _ h => absurd h (Nat.not_lt_zero _)⟩

/-- The first use of a name gets the next index. -/
theorem Counted.first (hs : s.Counted params) (hname : s.seen name = none)
    (hvalue : params.lookup name = some value) (placeholder : Text) :
    (s.first placeholder name value).Counted params where
  counter := by simp [Replacement.first, hs.counter]
  value n i hi := by
    simp only [Replacement.first, update_apply] at hi ⊢
    split_ifs at hi with heq
    · cases hi
      exact ⟨Nat.succ_pos _, value, by simp [← hs.counter], heq ▸ hvalue⟩
    · obtain ⟨hpos, v, hv, hlookup⟩ := hs.value n i hi
      obtain ⟨hlt, -⟩ := List.getElem?_eq_some_iff.mp hv
      exact ⟨hpos, v, by rw [List.getElem?_append_left hlt, hv], hlookup⟩
  onto i hi := by
    simp only [Replacement.first, update_apply] at hi ⊢
    rcases Nat.lt_succ_iff_lt_or_eq.mp hi with hlt | rfl
    · obtain ⟨n, hn⟩ := hs.onto i hlt
      have hne : n ≠ name := fun heq => by simp [heq, hname] at hn
      exact ⟨n, by rw [if_neg hne, hn]⟩
    · exact ⟨name, if_pos rfl⟩

theorem Counted.use (hs : s.Counted params) (hrender : ∀ n i, render n i ≠ ['?'])
    (hvalue : params.lookup name = some value) : (s.use name value render).Counted params := by
  cases hname : s.seen name with
  | none =>
    simp only [Replacement.use, hname]
    exact hs.first hname hvalue _
  | some i =>
    simp only [Replacement.use, hname, again, if_neg (hrender name i)]
    exact ⟨hs.counter, hs.value, hs.onto⟩

/-- Each use of a name pushes its value when every placeholder is a question mark. -/
theorem values_use (hrender : ∀ n i, render n i = ['?']) :
    (s.use name value render).values = s.values ++ [value] := by
  cases hname : s.seen name with
  | none => simp only [use, hname, first]
  | some i => simp only [use, hname, again, if_pos (hrender name i)]

end Replacement

theorem written_of_ok (h : replaceTokens params render toks .start = .ok t) :
    t.Written render toks :=
  replaceTokens_induction (P := fun done s => s.Written render done)
    (fun _ c _ hs => hs.literal c) (fun _ name _ value _ hs => hs.use name value) h .start

theorem counted_of_ok (hrender : ∀ n i, render n i ≠ ['?'])
    (h : replaceTokens params render toks .start = .ok t) : t.Counted params :=
  replaceTokens_induction (P := fun _ s => s.Counted params)
    (fun _ _ _ hs => ⟨hs.counter, hs.value, hs.onto⟩)
    (fun _ _ _ _ hvalue hs => hs.use hrender hvalue) h .start

theorem values_of_ok (hrender : ∀ n i, render n i = ['?'])
    (h : replaceTokens params render toks .start = .ok t) :
    t.values.map some = (names toks).map params.lookup := by
  refine replaceTokens_induction
    (P := fun done s => s.values.map some = (names done).map params.lookup) ?_ ?_ h rfl
  · intro done c s hs
    simpa [names_append] using hs
  · intro done name s value hvalue hs
    simp [Replacement.values_use hrender, names_append, hs, hvalue]

end Tslock.NamedParams
