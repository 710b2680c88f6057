import Tslock.Sql.Timestamp

/-! When `timestamp` with a time zone gives the instant it was made from. -/
namespace Tslock.Sql

open Foundation

section Offset

theorem padStart_numeric {n : ℕ} (h : n < 100) : padStart (Intl.numeric n) = decimal 2 n := by
  rcases lt_or_ge n 10 with hlt | hge
  · have hdiv : n / 10 = 0 := by omega
    rw [Intl.numeric_eq_decimal 0 (by omega) (.inl rfl)]
    simp [padStart, decimal, hdiv]
  · rw [Intl.numeric_eq_decimal 1 (by omega) (.inr (by omega))]
    simp [padStart]

/-- The minutes of a `shortOffset`, with their colon. -/
def offsetTail (minutes : ℕ) : List Char := if minutes = 0 then [] else ':' :: decimal 2 minutes

theorem matchGmt_offset {c : Char} {h m : ℕ} (hc : c = '+' ∨ c = '-') (hh : h < 100) :
    matchGmt ('G' :: 'M' :: 'T' :: c :: (Intl.numeric h ++ offsetTail m)) =
      some (c, Intl.numeric h, if m = 0 then none else some (decimal 2 m)) := by
  have htail : (offsetTail m).takeWhile Char.isDigit = [] := by
    unfold offsetTail
    split_ifs
    · rfl
    · rfl
  have htake : ((Intl.numeric h ++ offsetTail m).takeWhile Char.isDigit).take 2 =
      Intl.numeric h := by
    rw [Intl.takeWhile_numeric htail, List.take_of_length_le (Intl.length_numeric_le hh)]
  have hne : Intl.numeric h ≠ [] := Nat.toDigits_ne_nil
  have hwhile : (decimal 2 m).takeWhile Char.isDigit = decimal 2 m := by
    rw [← List.append_nil (decimal 2 m),
      List.takeWhile_append_of_pos fun c hc => isDigit_of_mem_decimal hc]
    rfl
  have hminutes : ((decimal 2 m).takeWhile Char.isDigit).take 2 = decimal 2 m := by
    rw [hwhile, List.take_of_length_le (by simp)]
  simp only [matchGmt, List.drop_succ_cons, List.drop_zero, htake, List.take_succ_cons,
    List.take_zero]
  rw [if_pos ⟨trivial, hc, hne⟩, List.drop_left]
  by_cases hm : m = 0
  · simp [offsetTail, hm]
  · simp [offsetTail, hm, hminutes]

theorem execGmt_shortOffset (zone : TimeZone) (t : ℤ) (h : zone.offsetMinutes t ≠ 0) :
    execGmt (zone.shortOffset t) = some (zone.sign t,
      Intl.numeric ((zone.offsetMinutes t).natAbs / 60),
      if (zone.offsetMinutes t).natAbs % 60 = 0 then none
      else some (decimal 2 ((zone.offsetMinutes t).natAbs % 60))) := by
  have hbound := zone.bounded t
  have hsign : zone.sign t = '+' ∨ zone.sign t = '-' := by
    unfold TimeZone.sign
    split_ifs
    · exact .inr rfl
    · exact .inl rfl
  have hmatch := matchGmt_offset (m := (zone.offsetMinutes t).natAbs % 60) hsign
    (by omega : (zone.offsetMinutes t).natAbs / 60 < 100)
  have hshort : zone.shortOffset t = 'G' :: 'M' :: 'T' :: zone.sign t ::
      (Intl.numeric ((zone.offsetMinutes t).natAbs / 60) ++
        offsetTail ((zone.offsetMinutes t).natAbs % 60)) := by
    simp [TimeZone.shortOffset, offsetTail, h]
  simp only [hshort, execGmt, List.tails, List.findSome?_cons, hmatch]

theorem readOffset_fields {c : Char} {h m : ℕ} (hh : h < 24) (hm : m < 60) :
    JsDate.readOffset (c :: (decimal 2 h ++ ':' :: decimal 2 m)) =
      if c = '+' then some ((60 * h + m : ℕ) : ℤ)
      else if c = '-' then some (-((60 * h + m : ℕ) : ℤ)) else none := by
  have hminutes := readDecimal_decimal 2 0 m [] (by omega)
  rw [List.append_nil] at hminutes
  simp only [JsDate.readOffset, readDecimal_decimal 2 0 h _ (by omega), expect_cons, hminutes,
    Option.bind_eq_bind, Option.bind_some, Nat.mul_zero, Nat.zero_add]
  rw [if_pos ⟨trivial, hh, hm⟩]

/-- The offset is written so that it is read back. -/
theorem readOffset_getOffset (zone : TimeZone) (t : ℤ) :
    JsDate.readOffset (getOffset zone t) = some (zone.offsetMinutes t) := by
  have hpart : Intl.partValue "timeZoneName" (zone.formatOffsetToParts t) =
      some (zone.shortOffset t) := by
    simp [Intl.partValue, TimeZone.formatOffsetToParts]
  simp only [getOffset, hpart, Option.getD_some]
  by_cases hzero : zone.offsetMinutes t = 0
  · have hexec : execGmt (zone.shortOffset t) = none := by
      have hshort : zone.shortOffset t = ['G', 'M', 'T'] := by simp [TimeZone.shortOffset, hzero]
      rw [hshort]
      decide
    rw [hexec, hzero]
    decide
  · have hbound := zone.bounded t
    have hhours : (zone.offsetMinutes t).natAbs / 60 < 24 := by omega
    have hminutes : (zone.offsetMinutes t).natAbs % 60 < 60 := by omega
    have htail : (if (zone.offsetMinutes t).natAbs % 60 = 0 then none
        else some (decimal 2 ((zone.offsetMinutes t).natAbs % 60))).getD ['0', '0'] =
          decimal 2 ((zone.offsetMinutes t).natAbs % 60) := by
      split_ifs with hm
      · rw [hm]
        rfl
      · rfl
    simp only [execGmt_shortOffset zone t hzero, htail, padStart_numeric (by omega :
      (zone.offsetMinutes t).natAbs / 60 < 100), readOffset_fields hhours hminutes]
    rw [Nat.div_add_mod]
    by_cases hneg : zone.offsetMinutes t < 0
    · have habs : -((zone.offsetMinutes t).natAbs : ℤ) = zone.offsetMinutes t := by omega
      simp only [TimeZone.sign, if_pos hneg, if_neg (by decide : ¬ '-' = '+'), if_true, habs]
    · have habs : ((zone.offsetMinutes t).natAbs : ℤ) = zone.offsetMinutes t := by omega
      simp only [TimeZone.sign, if_neg hneg, if_neg (by decide : ¬ '+' = '-'), if_true, habs]

end Offset

section Fields

variable {zone : TimeZone} {t : ℤ}

/-- The year on the wall clock is one of those that are read as they are written. -/
def InYears (zone : TimeZone) (t : ℤ) : Prop :=
  1970 ≤ (zone.date t).year ∧ (zone.date t).year ≤ 9999

instance (zone : TimeZone) (t : ℤ) : Decidable (InYears zone t) :=
  inferInstanceAs (Decidable (_ ∧ _))

theorem yearField_eq (h : InYears zone t) : zone.yearField t = yearText (zone.date t).year := by
  obtain ⟨hlow, hhigh⟩ := h
  unfold TimeZone.yearField yearText
  rw [if_pos (by omega), if_pos (by omega)]
  exact Intl.numeric_eq_decimal 3 (by omega) (.inr (by omega))

theorem isoOf_eq (h : InYears zone t) : isoOf zone t =
    yearText (zone.date t).year ++ '-' :: (decimal 2 (zone.date t).month ++ '-' ::
      (decimal 2 (zone.date t).day ++ 'T' :: (zone.hourField t ++ ':' ::
        (decimal 2 (zone.minute t) ++ ':' :: (decimal 2 (zone.second t) ++ '.' ::
          (decimal 3 (zone.milli t) ++ getOffset zone t)))))) := by
  rw [← yearField_eq h]
  simp [isoOf, Intl.partValue, TimeZone.formatToParts]

theorem hour_lt (zone : TimeZone) (t : ℤ) : zone.hour t < 24 := by
  unfold TimeZone.hour TimeZone.timeOfDay
  omega

/-- The text is read into the fields it was made of. -/
theorem ofText_isoOf (h : InYears zone t) : JsDate.ofText (isoOf zone t) =
    JsDate.ofFields (zone.date t) (zone.shownHour t) (zone.minute t) (zone.second t) (zone.milli t)
      (zone.offsetMinutes t) := by
  have hyear : (zone.date t).year.natAbs < 1000000 := by
    obtain ⟨hlow, hhigh⟩ := h
    omega
  have hmonth : (zone.date t).month < 100 := (CivilDate.ofDays_bounds _).1
  have hday : (zone.date t).day < 100 := (CivilDate.ofDays_bounds _).2
  have hhour : zone.shownHour t < 100 := by
    have hhours := hour_lt zone t
    unfold TimeZone.shownHour
    split
    · omega
    · split_ifs <;> omega
  have hminute : zone.minute t < 100 := by
    unfold TimeZone.minute
    omega
  have hsecond : zone.second t < 100 := by
    unfold TimeZone.second
    omega
  have hread : ∀ n < 100, ∀ rest, readDecimal 2 0 (decimal 2 n ++ rest) = some (n, rest) := by
    intro n hn rest
    simpa using readDecimal_decimal 2 0 n rest hn
  have hmilli : ∀ rest, readDecimal 3 0 (decimal 3 (zone.milli t) ++ rest) =
      some (zone.milli t, rest) := by
    intro rest
    simpa using readDecimal_decimal 3 0 (zone.milli t) rest (Nat.mod_lt _ (by decide))
  have hbind : ∀ {α β : Type} {x : Option α} {a : α} {f : α → Option β},
      x = some a → (x >>= f) = f a := by
    rintro α β x a f rfl
    rfl
  rw [isoOf_eq h]
  unfold JsDate.ofText
  -- each field is read in front of the rest of the text, then the character after it
  refine (hbind (readYear_yearText _ hyear)).trans ?_
  refine (hbind (expect_cons _ _)).trans ?_
  refine (hbind (hread _ hmonth _)).trans ?_
  refine (hbind (expect_cons _ _)).trans ?_
  refine (hbind (hread _ hday _)).trans ?_
  refine (hbind (expect_cons _ _)).trans ?_
  refine (hbind (hread _ hhour _)).trans ?_
  refine (hbind (expect_cons _ _)).trans ?_
  refine (hbind (hread _ hminute _)).trans ?_
  refine (hbind (expect_cons _ _)).trans ?_
  refine (hbind (hread _ hsecond _)).trans ?_
  refine (hbind (expect_cons _ _)).trans ?_
  refine (hbind (hmilli _)).trans ?_
  exact hbind (readOffset_getOffset zone t)

/-- The instants of these years, in any zone, are ones a `Date` can hold. -/
theorem inRange_of_inYears (h : InYears zone t) :
    JsDate.InRange t ∧ JsDate.InRange (t + 86400000) := by
  obtain ⟨hlow, hhigh⟩ := h
  have hfirst := CivilDate.ofDays_year_nonneg_iff.mp (by omega : 0 ≤ (zone.date t).year)
  have hlast := CivilDate.ofDays_year_le_iff.mp hhigh
  have hbound := zone.bounded t
  unfold TimeZone.wallClock at hfirst hlast
  constructor <;> constructor <;> omega

theorem ofNumber_intCast (h : JsDate.InRange t) : JsDate.ofNumber (.finite t) = some t := by
  have hq : (-8640000000000000 : ℚ) ≤ t ∧ (t : ℚ) ≤ 8640000000000000 := by
    exact_mod_cast h
  simp [JsDate.ofNumber, hq]

/-- The instant is not in the hour after midnight, or that hour is shown as `00`. -/
def HourShown (zone : TimeZone) (t : ℤ) : Prop := zone.hourCycle = .h23 ∨ zone.hour t ≠ 0

instance (zone : TimeZone) (t : ℤ) : Decidable (HourShown zone t) :=
  inferInstanceAs (Decidable (_ ∨ _))

theorem shownHour_of_shown (h : HourShown zone t) : zone.shownHour t = zone.hour t := by
  unfold TimeZone.shownHour
  split
  · rfl
  · next hcycle =>
    rcases h with h23 | hhour
    · rw [hcycle] at h23
      cases h23
    · exact if_neg hhour

theorem shownHour_of_not_shown (h : ¬ HourShown zone t) :
    zone.shownHour t = 24 ∧ zone.hour t = 0 := by
  have hhour : zone.hour t = 0 := by
    by_contra hne
    exact h (.inr hne)
  unfold TimeZone.shownHour
  split
  · next hcycle => exact absurd (.inl hcycle) h
  · exact ⟨if_pos hhour, hhour⟩

/-- The fields of the wall clock make up the instant; with hour 24 in place of 0 they are a day
later, and legal only on the stroke of midnight. -/
theorem ofFields_wallClock (h : InYears zone t) :
    JsDate.ofFields (zone.date t) (zone.shownHour t) (zone.minute t) (zone.second t)
      (zone.milli t) (zone.offsetMinutes t) =
    if HourShown zone t then some t
    else if zone.timeOfDay t = 0 then some (t + 86400000) else none := by
  obtain ⟨hrange, hrange'⟩ := inRange_of_inYears h
  have hdays : (zone.date t).toDays = zone.wallClock t / 86400000 := CivilDate.toDays_ofDays _
  have hexists : CivilDate.ofDays (zone.date t).toDays = zone.date t := by
    rw [hdays]
    rfl
  have htime : 86400000 * (zone.wallClock t / 86400000) + (zone.timeOfDay t : ℤ) -
      60000 * zone.offsetMinutes t = t := by
    unfold TimeZone.timeOfDay TimeZone.wallClock
    omega
  have hday : zone.timeOfDay t < 86400000 := by
    unfold TimeZone.timeOfDay
    omega
  unfold JsDate.ofFields
  rw [hexists, hdays]
  by_cases hshown : HourShown zone t
  · rw [shownHour_of_shown hshown, if_pos hshown]
    unfold JsDate.LegalTime TimeZone.hour TimeZone.minute TimeZone.second TimeZone.milli
    generalize zone.timeOfDay t = ms at *
    have hsum : 86400000 * (zone.wallClock t / 86400000) + ((3600000 * (ms / 3600000) +
        60000 * (ms / 60000 % 60) + 1000 * (ms / 1000 % 60) + ms % 1000 : ℕ) : ℤ) -
          60000 * zone.offsetMinutes t = t := by
      omega
    have hlegal : ms / 3600000 < 24 ∧ ms / 60000 % 60 < 60 ∧ ms / 1000 % 60 < 60 ∧
        ms % 1000 < 1000 := by
      omega
    rw [hsum, if_pos ⟨rfl, .inl hlegal, hrange⟩]
  · obtain ⟨h24, hhour⟩ := shownHour_of_not_shown hshown
    rw [h24, if_neg hshown]
    unfold TimeZone.hour at hhour
    unfold JsDate.LegalTime TimeZone.minute TimeZone.second TimeZone.milli
    generalize zone.timeOfDay t = ms at *
    by_cases hms : ms = 0
    · have hsum : 86400000 * (zone.wallClock t / 86400000) + 86400000 -
          60000 * zone.offsetMinutes t = t + 86400000 := by
        omega
      simp [hms, hsum, hrange']
    · have hillegal : ¬ (ms / 60000 % 60 = 0 ∧ ms / 1000 % 60 = 0 ∧ ms % 1000 = 0) := by omega
      simp [hms, hillegal]

/-- What `timestamp` gives: the instant, or where the hour is shown as `24` one a day later or
none. -/
theorem timestamp_zone {x : JsNumber} (hx : JsDate.ofNumber x = some t) (h : InYears zone t) :
    timestamp x (some zone) = .ok (if HourShown zone t then some t
      else if zone.timeOfDay t = 0 then some (t + 86400000) else none) := by
  unfold timestamp
  rw [hx]
  simp only
  rw [ofText_isoOf h, ofFields_wallClock h]

/-- The instant is kept, or the time value is another one or none. -/
theorem timestamp_zone_cases {x : JsNumber} (hx : JsDate.ofNumber x = some t) (h : InYears zone t) :
    ∃ value, timestamp x (some zone) = .ok value ∧ (value = some t ↔ HourShown zone t) := by
  refine ⟨_, timestamp_zone hx h, ?_⟩
  split_ifs with hshown hmidnight
  · simp [hshown]
  · simp [hshown]
  · simp [hshown]

end Fields

variable {zone : TimeZone} {lockedByValue : String} {now unlockNow : JsNumber}
  {lockConfig : LockConfiguration JsNumber} {previous : Option JsNumber}

theorem timestamp_none {x : JsNumber} : timestamp x none = .ok (JsDate.ofNumber x) := rfl

theorem zonedParams_ok {timeZone : Option TimeZone} {v₁ v₂ v₃ : Option ℤ} {v₄ : Option (Option ℤ)}
    (h₁ : timestamp lockConfig.lockAtMostUntil timeZone = .ok v₁)
    (h₂ : timestamp now timeZone = .ok v₂)
    (h₃ : timestamp (lockConfig.unlockTime unlockNow) timeZone = .ok v₃)
    (h₄ : timestampIfAny timeZone previous = .ok v₄) :
    zonedParams timeZone lockedByValue now unlockNow lockConfig previous =
      .ok ⟨lockConfig.name, v₁, v₂, lockedByValue, v₃, v₄⟩ := by
  simp only [zonedParams, params, h₁, h₂, h₃, h₄]
  rfl

theorem timestampIfAny_cases (zone : TimeZone)
    (h : ∀ x ∈ previous, ∃ t, JsDate.ofNumber x = some t ∧ InYears zone t) :
    ∃ v w, timestampIfAny (some zone) previous = .ok v ∧ timestampIfAny none previous = .ok w ∧
      (v = w ↔ ∀ x ∈ previous, ∀ t, JsDate.ofNumber x = some t → HourShown zone t) := by
  cases previous with
  | none => exact ⟨none, none, rfl, rfl, by simp⟩
  | some x =>
    obtain ⟨t, hx, hyears⟩ := h x rfl
    obtain ⟨v, hv, hiff⟩ := timestamp_zone_cases hx hyears
    refine ⟨some v, some (some t), ?_, ?_, ?_⟩
    · simp [timestampIfAny, hv, Except.map]
    · simp [timestampIfAny, timestamp_none, hx, Except.map]
    · simp [hx, hiff]

theorem zonedParams_eq_iff
    (h : ∀ x ∈ (params lockedByValue now unlockNow lockConfig previous).instants,
      ∃ t, JsDate.ofNumber x = some t ∧ InYears zone t) :
    zonedParams (some zone) lockedByValue now unlockNow lockConfig previous =
      zonedParams none lockedByValue now unlockNow lockConfig previous ↔
    ∀ x ∈ (params lockedByValue now unlockNow lockConfig previous).instants,
      ∀ t, JsDate.ofNumber x = some t → HourShown zone t := by
  obtain ⟨t₁, hx₁, hy₁⟩ := h lockConfig.lockAtMostUntil (by simp [params, Params.instants])
  obtain ⟨t₂, hx₂, hy₂⟩ := h now (by simp [params, Params.instants])
  obtain ⟨t₃, hx₃, hy₃⟩ := h (lockConfig.unlockTime unlockNow) (by simp [params, Params.instants])
  obtain ⟨v₁, hv₁, hiff₁⟩ := timestamp_zone_cases hx₁ hy₁
  obtain ⟨v₂, hv₂, hiff₂⟩ := timestamp_zone_cases hx₂ hy₂
  obtain ⟨v₃, hv₃, hiff₃⟩ := timestamp_zone_cases hx₃ hy₃
  have hprevious : ∀ x ∈ previous, ∃ t, JsDate.ofNumber x = some t ∧ InYears zone t := by
    intro x hx
    exact h x (by simp [params, Params.instants, Option.mem_def.mp hx])
  obtain ⟨v₄, w₄, hv₄, hw₄, hiff₄⟩ := timestampIfAny_cases zone hprevious
  rw [zonedParams_ok hv₁ hv₂ hv₃ hv₄, zonedParams_ok (timestamp_none.trans (congrArg _ hx₁))
    (timestamp_none.trans (congrArg _ hx₂)) (timestamp_none.trans (congrArg _ hx₃)) hw₄]
  simp [params, Params.instants, hx₁, hx₂, hx₃, hiff₁, hiff₂, hiff₃, hiff₄, or_imp, forall_and]

/-- A timestamp with a time zone is the instant it was made from, and `params` binds the instants
it binds without one: at every instant on a runtime that shows midnight as `00`, and on one that
shows it as `24` exactly outside the hour after it. -/
theorem timestamp_kept_iff (zone : TimeZone) :
    (∀ t : ℤ, InYears zone t →
      (timestamp (.finite t) (some zone) = .ok (some t) ↔ HourShown zone t)) ∧
    ∀ lockedByValue now unlockNow lockConfig previous,
      (∀ x ∈ (params lockedByValue now unlockNow lockConfig previous).instants,
        ∃ t, JsDate.ofNumber x = some t ∧ InYears zone t) →
      (zonedParams (some zone) lockedByValue now unlockNow lockConfig previous =
          zonedParams none lockedByValue now unlockNow lockConfig previous ↔
        ∀ x ∈ (params lockedByValue now unlockNow lockConfig previous).instants,
          ∀ t, JsDate.ofNumber x = some t → HourShown zone t) := by
  constructor
  · intro t h
    obtain ⟨value, hvalue, hiff⟩ :=
      timestamp_zone_cases (ofNumber_intCast (inRange_of_inYears h).1) h
    rw [hvalue, Except.ok.injEq]
    exact hiff
  · intro lockedByValue now unlockNow lockConfig previous h
    exact zonedParams_eq_iff h

section Midnight

def utc (hourCycle : HourCycle) : TimeZone := ⟨hourCycle, fun _ => 0, fun _ => by decide⟩

/-- A minute of a lock from midnight of January 1, 2024 in UTC. -/
def midnightLock : LockConfiguration JsNumber :=
  ⟨"nightly", .finite 60000, .finite 0, .finite 1704067200000⟩

def midnightParams : Params JsNumber :=
  params "host" (.finite 1704067200000) (.finite 1704067200000) midnightLock none

def midnightZoned (timeZone : Option TimeZone) : Except String (Params (Option ℤ)) :=
  zonedParams timeZone "host" (.finite 1704067200000) (.finite 1704067200000) midnightLock none

theorem midnightLock_instants {x : JsNumber} (h : x ∈ midnightParams.instants) : ∃ t,
    JsDate.ofNumber x = some t ∧ InYears (utc .h23) t := by
  have hinstants : midnightParams.instants =
      [.finite 1704067260000, .finite 1704067200000, .finite 1704067200000] := by decide +kernel
  rw [hinstants] at h
  simp only [List.mem_cons, List.not_mem_nil, or_false, or_self] at h
  rcases h with rfl | rfl
  · exact ⟨1704067260000, by decide +kernel, by decide +kernel⟩
  · exact ⟨1704067200000, by decide +kernel, by decide +kernel⟩

theorem midnight_kept :
    timestamp (.finite (1704067200000 : ℤ)) (some (utc .h23)) = .ok (some 1704067200000) ∧
    midnightZoned (some (utc .h23)) = midnightZoned none := by
  have hkept := timestamp_kept_iff (utc .h23)
  refine ⟨(hkept.1 _ (by decide +kernel)).mpr (.inl rfl), (hkept.2 _ _ _ _ _ ?_).mpr ?_⟩
  · intro x hx
    exact midnightLock_instants hx
  · intro x hx t ht
    exact .inl rfl

/-- Where midnight is shown as `24`, the date on the stroke of it is that of the next midnight, and
a minute later it is invalid. So the lock of a minute is bound with a clock that is a day ahead and
an invalid deadline. -/
theorem midnight_lost : InYears (utc .h24) 1704067200000 ∧ InYears (utc .h24) 1704067260000 ∧
    timestamp (.finite 1704067200000) (some (utc .h24)) = .ok (some 1704153600000) ∧
    timestamp (.finite 1704067260000) (some (utc .h24)) = .ok none ∧
    midnightZoned (some (utc .h24)) =
      .ok ⟨"nightly", none, some 1704153600000, "host", some 1704153600000, none⟩ ∧
    midnightZoned none =
      .ok ⟨"nightly", some 1704067260000, some 1704067200000, "host", some 1704067200000,
        none⟩ := by
  decide +kernel

end Midnight

end Tslock.Sql
