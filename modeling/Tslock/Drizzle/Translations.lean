import Tslock.Drizzle.QueryBuilder

/-! The four translations of named parameters side by side. -/
namespace Tslock.Drizzle

open NamedParams

variable {V : Type*}

/-- Every use of a name is bound to what `values` gives for it, and the rest of the text stays. -/
structure Agree (sql : Text) (params : ParamRecord V) (marker : Text)
    (values : Text → Option V) : Prop where
  numbered : ∃ list, ∃ index : Text → ℕ,
    translateNamedParams sql params numbered =
      .ok (rendered (fun name => numbered (index name)) (tokens sql), list) ∧
    (∀ name ∈ names (tokens sql), 0 < index name ∧ list[index name - 1]? = values name) ∧
    ∀ i, i < list.length → ∃ name ∈ names (tokens sql), index name = i + 1
  questionMarks : ∃ list,
    translateNamedParams sql params questionMark =
      .ok (rendered (fun _ => ['?']) (tokens sql), list) ∧
    list.map some = (names (tokens sql)).map values
  prefixed : prefixNamedParams sql params marker =
      .ok (rendered (fun name => marker ++ name) (tokens sql), params) ∧
    ∀ name ∈ names (tokens sql), params.lookup name = values name
  chunks : ∃ query, buildDrizzleQuery sql params = .ok query ∧
    query.bound.map (Sum.map id some) = bindings values (tokens sql)

/-- All of them throw, with one message. -/
structure Throws (sql : Text) (params : ParamRecord V) (marker : Text) (e : LockException) :
    Prop where
  numbered : translateNamedParams sql params numbered = .error e
  questionMarks : translateNamedParams sql params questionMark = .error e
  prefixed : prefixNamedParams sql params marker = .error e
  chunks : buildDrizzleQuery sql params = .error e

/-- What a record defines are its own properties. -/
structure Faithful (sql : Text) (params : ParamRecord V) (marker : Text) : Prop where
  parts : rendered (List.cons ':') (tokens sql) = sql
  defined : (∀ name ∈ names (tokens sql), params.own name ≠ none) →
    Agree sql params marker params.own
  lacking : ∀ name ∈ names (tokens sql), params.own name = none →
    ∃ e, Throws sql params marker e

variable {sql marker name : Text} {params : ParamRecord V} {e : LockException}

theorem replaceNamedParams_error (h : params.firstMissing (tokens sql) = some name)
    (render : Text → ℕ → Text) :
    replaceNamedParams sql params render = .error (missingParam name) := by
  rw [replaceNamedParams, replaceTokens_error h]
  rfl

theorem throws_of_missing (h : params.firstMissing (tokens sql) = some name) :
    Throws sql params marker (missingParam name) where
  numbered := replaceNamedParams_error h _
  questionMarks := replaceNamedParams_error h _
  prefixed := by
    rw [prefixNamedParams, replaceNamedParams_error h]
    rfl
  chunks := buildDrizzleQuery_error h

theorem numbered_ne_questionMark (i : ℕ) : numbered i ≠ ['?'] := by
  intro h
  exact absurd (List.cons.inj h).1 (by decide)

theorem numbered_agrees (h : params.firstMissing (tokens sql) = none) :
    ∃ list, ∃ index : Text → ℕ,
      translateNamedParams sql params numbered =
        .ok (rendered (fun name => numbered (index name)) (tokens sql), list) ∧
      (∀ name ∈ names (tokens sql),
        0 < index name ∧ list[index name - 1]? = params.lookup name) ∧
      ∀ i, i < list.length → ∃ name ∈ names (tokens sql), index name = i + 1 := by
  obtain ⟨t, ht⟩ := replaceTokens_total h (fun _ index => numbered index) .start
  have hwritten := written_of_ok ht
  have hcounted := counted_of_ok (fun _ i => numbered_ne_questionMark i) ht
  refine ⟨t.values, t.index, ?_, ?_, ?_⟩
  · rw [translateNamedParams, replaceNamedParams, ht, ← hwritten.result]
    rfl
  · intro name hname
    obtain ⟨i, hi⟩ := Option.isSome_iff_exists.mp ((hwritten.seen name).mpr hname)
    obtain ⟨hpos, value, hvalue, hlookup⟩ := hcounted.value name i hi
    rw [Replacement.index_of_seen hi, hvalue, hlookup]
    exact ⟨hpos, rfl⟩
  · intro i hi
    obtain ⟨name, hname⟩ := hcounted.onto i (hcounted.counter ▸ hi)
    have hused : name ∈ names (tokens sql) :=
      (hwritten.seen name).mp (Option.isSome_iff_exists.mpr ⟨_, hname⟩)
    exact ⟨name, hused, Replacement.index_of_seen hname⟩

theorem questionMarks_agree (h : params.firstMissing (tokens sql) = none) :
    ∃ list, translateNamedParams sql params questionMark =
        .ok (rendered (fun _ => ['?']) (tokens sql), list) ∧
      list.map some = (names (tokens sql)).map params.lookup := by
  obtain ⟨t, ht⟩ := replaceTokens_total h (fun _ index => questionMark index) .start
  refine ⟨t.values, ?_, values_of_ok (fun _ _ => rfl) ht⟩
  rw [translateNamedParams, replaceNamedParams, ht]
  exact congrArg (fun text => Except.ok (text, t.values)) (written_of_ok ht).result

theorem prefixed_agrees (h : params.firstMissing (tokens sql) = none) (marker : Text) :
    prefixNamedParams sql params marker =
      .ok (rendered (fun name => marker ++ name) (tokens sql), params) := by
  obtain ⟨t, ht⟩ := replaceTokens_total h (fun name _ => marker ++ name) .start
  rw [prefixNamedParams, replaceNamedParams, ht]
  exact congrArg (fun text => Except.ok (text, params)) (written_of_ok ht).result

/-- With every name found, on the record or behind it, the translations agree. -/
theorem agree_lookup (h : params.firstMissing (tokens sql) = none) :
    Agree sql params marker params.lookup where
  numbered := numbered_agrees h
  questionMarks := questionMarks_agree h
  prefixed := ⟨prefixed_agrees h marker, fun _ _ => rfl⟩
  chunks := buildDrizzleQuery_ok h

theorem bindings_congr {f g : Text → Option V} {toks : List Token}
    (h : ∀ name ∈ names toks, f name = g name) : bindings f toks = bindings g toks := by
  refine List.map_congr_left fun tok htok => ?_
  cases tok with
  | inl c => rfl
  | inr name => exact congrArg Sum.inr (h name (List.mem_filterMap.mpr ⟨_, htok, rfl⟩))

theorem Agree.congr {f g : Text → Option V} (hs : Agree sql params marker f)
    (h : ∀ name ∈ names (tokens sql), f name = g name) : Agree sql params marker g where
  numbered := by
    obtain ⟨list, index, htext, hvalue, honto⟩ := hs.numbered
    refine ⟨list, index, htext, fun name hname => ?_, honto⟩
    rw [← h name hname]
    exact hvalue name hname
  questionMarks := by
    obtain ⟨list, htext, hlist⟩ := hs.questionMarks
    exact ⟨list, htext, hlist.trans (List.map_congr_left h)⟩
  prefixed := ⟨hs.prefixed.1, fun name hname => (hs.prefixed.2 name hname).trans (h name hname)⟩
  chunks := by
    obtain ⟨query, hquery, hbound⟩ := hs.chunks
    exact ⟨query, hquery, hbound.trans (bindings_congr h)⟩

theorem Agree.not_throws (hs : Agree sql params marker params.lookup) :
    ¬ Throws sql params marker e := by
  intro ht
  cases hs.prefixed.1.symm.trans ht.prefixed

theorem lookup_of_own (h : params.own name ≠ none) : params.lookup name = params.own name := by
  obtain ⟨value, hvalue⟩ := Option.ne_none_iff_exists'.mp h
  rw [ParamRecord.lookup, hvalue]
  rfl

/-- The translations are faithful if and only if no used name is found on the prototype alone, or
another one is not found at all. -/
theorem faithful_iff (sql : Text) (params : ParamRecord V) (marker : Text) :
    Faithful sql params marker ↔
      ((∃ name ∈ names (tokens sql), params.own name = none) →
        ∃ name ∈ names (tokens sql), params.lookup name = none) := by
  cases h : params.firstMissing (tokens sql) with
  | none =>
    have hfound := firstMissing_none.mp h
    constructor
    · rintro hs ⟨name, hname, hown⟩
      obtain ⟨e, he⟩ := hs.lacking name hname hown
      exact absurd he (agree_lookup h).not_throws
    · intro hcond
      have hown : ∀ name ∈ names (tokens sql), params.own name ≠ none := by
        intro name hname hnone
        obtain ⟨other, hother, hmissing⟩ := hcond ⟨name, hname, hnone⟩
        have hsome := hfound other hother
        rw [hmissing] at hsome
        cases hsome
      refine ⟨rendered_tokens sql, fun _ => ?_, fun name hname hnone => ?_⟩
      · exact (agree_lookup h).congr fun name hname => lookup_of_own (hown name hname)
      · exact absurd hnone (hown name hname)
  | some missing =>
    have hmem : missing ∈ names (tokens sql) := List.mem_of_find?_eq_some h
    have hmissing : params.lookup missing = none := by simpa using List.find?_some h
    refine iff_of_true ⟨rendered_tokens sql, fun hown => ?_, fun _ _ _ => ?_⟩ ?_
    · have hfound := lookup_of_own (hown missing hmem)
      exact absurd (hfound.symm.trans hmissing) (hown missing hmem)
    · exact ⟨_, throws_of_missing h⟩
    · exact fun _ => ⟨missing, hmem, hmissing⟩

/-- `{}` and the method of its prototype. -/
def emptyObject : ParamRecord String where
  own _ := none
  inherited name := if name = "toString".toList then some "function toString()" else none

/-- The text `:toString` with an empty record is translated, with the method for its value. -/
theorem toString_bound :
    translateNamedParams ":toString".toList emptyObject numbered =
      .ok ("$1".toList, ["function toString()"]) ∧
    ¬ Faithful ":toString".toList emptyObject [] := by
  refine ⟨by decide, fun h => ?_⟩
  obtain ⟨e, he⟩ := h.lacking "toString".toList (by decide) rfl
  have hok : translateNamedParams ":toString".toList emptyObject numbered =
      .ok ("$1".toList, ["function toString()"]) := by decide
  cases hok.symm.trans he.numbered

end Tslock.Drizzle
