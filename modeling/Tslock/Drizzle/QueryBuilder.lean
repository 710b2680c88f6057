import Tslock.Sql.NamedParams

/-! `query-builder.ts` of `drizzle`: raw chunks and parameter chunks. -/
namespace Tslock.Drizzle

open Foundation NamedParams

variable {V : Type*}

/-- `sql.raw(text)` and `param(value)` -/
inductive Chunk (V : Type*) where
  | raw (text : Text)
  | param (value : V)

/-- A chunk alone, or `sql.join(chunks, separator)`. -/
inductive SQL (V : Type*) where
  | chunk (c : Chunk V)
  | join (chunks : List (Chunk V)) (separator : Chunk V)

/-- The loop of `buildDrizzleQuery` with the text that follows it. -/
def buildChunks (rawSql : Text) (params : ParamRecord V) (chunks : List (Chunk V))
    (lastIndex : ℕ) : Except LockException (List (Chunk V)) :=
  match h : namedParamPattern.exec rawSql lastIndex with
  | none =>
    if lastIndex < rawSql.length then .ok (chunks ++ [.raw (rawSql.drop lastIndex)])
    else .ok chunks
  | some m =>
    match params.lookup m.group with
    | none => .error (missingParam m.group)
    | some value =>
      if lastIndex < m.index then
        buildChunks rawSql params
          (chunks ++ [.raw (slice rawSql lastIndex m.index), .param value]) m.lastIndex
      else buildChunks rawSql params (chunks ++ [.param value]) m.lastIndex
termination_by rawSql.length - lastIndex
decreasing_by
  all_goals
    have hbounds := GlobalRegExp.exec_bounds h
    omega

def buildDrizzleQuery (rawSql : Text) (params : ParamRecord V) : Except LockException (SQL V) :=
  (buildChunks rawSql params [] 0).map fun chunks =>
    match chunks with
    | [] => .chunk (.raw rawSql)
    | [c] => .chunk c
    | chunks => .join chunks (.raw [])

/-- The characters and the values of a chunk. -/
def Chunk.bound : Chunk V → List (Char ⊕ V)
  | .raw text => text.map .inl
  | .param value => [.inr value]

def SQL.bound : SQL V → List (Char ⊕ V)
  | .chunk c => c.bound
  | .join chunks separator => (chunks.intersperse separator).flatMap Chunk.bound

/-- The parts of a text with the values of its parameters. -/
def bindings (lookup : Text → Option V) (toks : List Token) : List (Char ⊕ Option V) :=
  toks.map (Sum.map id lookup)

variable {params : ParamRecord V} {rawSql text : Text} {name : Text} {toks : List Token}
  {chunks : List (Chunk V)} {lastIndex : ℕ}

theorem names_map_inl (text : Text) (toks : List Token) :
    names (text.map .inl ++ toks) = names toks := by
  induction text with
  | nil => rfl
  | cons c text ih => exact ih

theorem firstMissing_map_inl (text : Text) (toks : List Token) :
    params.firstMissing (text.map .inl ++ toks) = params.firstMissing toks := by
  rw [ParamRecord.firstMissing, names_map_inl, ParamRecord.firstMissing]

/-- The name of a match is the next one that is looked up. -/
theorem firstMissing_of_exec {m : GlobalRegExp.Match Text}
    (h : namedParamPattern.exec rawSql lastIndex = some m) :
    params.firstMissing (tokens (rawSql.drop lastIndex)) =
      if params.lookup m.group = none then some m.group
      else params.firstMissing (tokens (rawSql.drop m.lastIndex)) := by
  rw [tokens, GlobalRegExp.exec_some h, firstMissing_map_inl, firstMissing_inr, tokens]

theorem buildChunks_error
    (h : params.firstMissing (tokens (rawSql.drop lastIndex)) = some name) :
    buildChunks rawSql params chunks lastIndex = .error (missingParam name) := by
  fun_induction buildChunks rawSql params chunks lastIndex with
  | case1 chunks i hexec hlt | case2 chunks i hexec hlt =>
    rw [tokens, GlobalRegExp.exec_none hexec, ← List.append_nil (List.map _ _),
      firstMissing_map_inl] at h
    cases h
  | case3 chunks i m hexec hm =>
    rw [firstMissing_of_exec hexec, if_pos hm] at h
    rw [Option.some.inj h]
  | case4 chunks i m hexec value hm hlt ih | case5 chunks i m hexec value hm hlt ih =>
    rw [firstMissing_of_exec hexec, hm, if_neg (Option.some_ne_none value)] at h
    exact ih h

/-- The values bound by some chunks, up to their definedness. -/
def boundBy (chunks : List (Chunk V)) : List (Char ⊕ Option V) :=
  (chunks.flatMap Chunk.bound).map (Sum.map id some)

theorem boundBy_append (xs ys : List (Chunk V)) :
    boundBy (xs ++ ys) = boundBy xs ++ boundBy ys := by
  simp [boundBy]

theorem boundBy_raw (text : Text) : boundBy [(.raw text : Chunk V)] = text.map .inl := by
  simp [boundBy, Chunk.bound]

theorem bindings_map_inl (lookup : Text → Option V) (text : Text) :
    bindings lookup (text.map .inl) = text.map .inl := by
  simp [bindings]

/-- The chunks of one round are the parts up to the end of the match. -/
theorem bindings_of_exec {m : GlobalRegExp.Match Text} {value : V}
    (h : namedParamPattern.exec rawSql lastIndex = some m)
    (hm : params.lookup m.group = some value) :
    bindings params.lookup (tokens (rawSql.drop lastIndex)) =
      boundBy [.raw (slice rawSql lastIndex m.index), .param value] ++
        bindings params.lookup (tokens (rawSql.drop m.lastIndex)) := by
  rw [tokens, GlobalRegExp.exec_some h]
  simp [bindings, boundBy, Chunk.bound, hm, tokens]

theorem buildChunks_ok (h : params.firstMissing (tokens (rawSql.drop lastIndex)) = none) :
    ∃ result, buildChunks rawSql params chunks lastIndex = .ok result ∧
      boundBy result =
        boundBy chunks ++ bindings params.lookup (tokens (rawSql.drop lastIndex)) := by
  fun_induction buildChunks rawSql params chunks lastIndex with
  | case1 chunks i hexec hlt =>
    refine ⟨_, rfl, ?_⟩
    rw [tokens, GlobalRegExp.exec_none hexec, bindings_map_inl, boundBy_append, boundBy_raw]
  | case2 chunks i hexec hlt =>
    refine ⟨_, rfl, ?_⟩
    rw [tokens, GlobalRegExp.exec_none hexec, bindings_map_inl,
      List.drop_eq_nil_of_le (Nat.le_of_not_lt hlt)]
    exact (List.append_nil _).symm
  | case3 chunks i m hexec hm =>
    rw [firstMissing_of_exec hexec, if_pos hm] at h
    cases h
  | case4 chunks i m hexec value hm hlt ih =>
    rw [firstMissing_of_exec hexec, hm, if_neg (Option.some_ne_none value)] at h
    obtain ⟨result, hresult, hbound⟩ := ih h
    refine ⟨result, hresult, ?_⟩
    rw [hbound, bindings_of_exec hexec hm, boundBy_append, List.append_assoc]
  | case5 chunks i m hexec value hm hlt ih =>
    rw [firstMissing_of_exec hexec, hm, if_neg (Option.some_ne_none value)] at h
    obtain ⟨result, hresult, hbound⟩ := ih h
    refine ⟨result, hresult, ?_⟩
    have hslice : slice rawSql i m.index = [] := by
      rw [slice, Nat.sub_eq_zero_of_le (Nat.le_of_not_lt hlt), List.take_zero]
    rw [hbound, bindings_of_exec hexec hm, hslice, boundBy_append, List.append_assoc]
    rfl

/-- The empty chunks between the others bind nothing. -/
theorem flatMap_intersperse (chunks : List (Chunk V)) :
    (chunks.intersperse (.raw [])).flatMap Chunk.bound = chunks.flatMap Chunk.bound := by
  induction chunks with
  | nil => rfl
  | cons c cs ih =>
    cases cs with
    | nil => rfl
    | cons d ds =>
      rw [List.intersperse_cons_cons, List.flatMap_cons, List.flatMap_cons, ih, List.flatMap_cons]
      rfl

theorem buildDrizzleQuery_error (h : params.firstMissing (tokens rawSql) = some name) :
    buildDrizzleQuery rawSql params = .error (missingParam name) := by
  rw [buildDrizzleQuery, buildChunks_error h]
  rfl

theorem buildDrizzleQuery_ok (h : params.firstMissing (tokens rawSql) = none) :
    ∃ query, buildDrizzleQuery rawSql params = .ok query ∧
      query.bound.map (Sum.map id some) = bindings params.lookup (tokens rawSql) := by
  obtain ⟨chunks, hchunks, hbound⟩ : ∃ chunks, buildChunks rawSql params [] 0 = .ok chunks ∧
      boundBy chunks = bindings params.lookup (tokens rawSql) := buildChunks_ok h
  rw [buildDrizzleQuery, hchunks]
  refine ⟨_, rfl, ?_⟩
  rw [← hbound]
  match chunks, hbound with
  | [], hnone =>
    -- a text without parts is empty
    have htokens : tokens rawSql = [] := List.map_eq_nil_iff.mp hnone.symm
    have hraw := rendered_tokens rawSql
    rw [htokens] at hraw
    rw [← hraw]
    rfl
  | [c], _ =>
    rw [boundBy, List.flatMap_singleton]
    rfl
  | c :: d :: cs, _ => exact congrArg _ (flatMap_intersperse _)

end Tslock.Drizzle
