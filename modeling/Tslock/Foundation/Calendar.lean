import Tslock.Foundation.JsDate
/-! The order of days in the calendar. -/
namespace Foundation
namespace MarchDate

variable {days days' : ℤ}

/-- The days before March 1 of a year. -/
def startOfYear (year : ℤ) : ℤ := 365 * year + year / 4 - year / 100 + year / 400

def yearNumber (d : MarchDate) : ℤ := 400 * d.era + 100 * d.century + 4 * d.cycle + d.year

theorem toDays_eq {d : MarchDate} (h : d.Valid) : d.toDays = startOfYear d.yearNumber + d.day := by
  obtain ⟨hcentury, hcycle, hyear, -⟩ := h
  simp only [toDays, startOfYear, yearNumber]
  omega

theorem startOfYear_mono {a b : ℤ} (h : a ≤ b) : startOfYear a ≤ startOfYear b := by
  simp only [startOfYear]
  omega

/-- Only leap years have a last day. -/
theorem lt_startOfYear (days : ℤ) : days < startOfYear ((ofDays days).yearNumber + 1) := by
  have hback := toDays_ofDays days
  obtain ⟨hcentury, hcycle, hyear, hday⟩ := valid_ofDays days
  have hleap : (ofDays days).day = 365 → (ofDays days).year = 3 ∧
      ((ofDays days).cycle = 24 → (ofDays days).century = 3) := by
    simp only [ofDays]
    omega
  simp only [toDays, startOfYear, yearNumber] at *
  omega

/-- A later day is in a later year, or later in the same. -/
theorem ofDays_lt (h : days < days') :
    (ofDays days).yearNumber < (ofDays days').yearNumber ∨
      ((ofDays days).yearNumber = (ofDays days').yearNumber ∧
        (ofDays days).day < (ofDays days').day) := by
  have heq := (toDays_eq (valid_ofDays days)).symm.trans (toDays_ofDays days)
  have heq' := (toDays_eq (valid_ofDays days')).symm.trans (toDays_ofDays days')
  rcases lt_trichotomy (ofDays days).yearNumber (ofDays days').yearNumber with hlt | hsame | hgt
  · exact .inl hlt
  · rw [hsame] at heq
    exact .inr ⟨hsame, by omega⟩
  · exfalso
    have hend := lt_startOfYear days'
    have hmono := startOfYear_mono (Int.add_one_le_iff.mpr hgt)
    have hday := (valid_ofDays days).day.1
    omega

end MarchDate

variable {days days' : ℤ}

/-- A later day is in a later year, or in a later month of the same, or later in the same month. -/
theorem CivilDate.ofDays_lt (h : days < days') :
    (ofDays days).year < (ofDays days').year ∨ ((ofDays days).year = (ofDays days').year ∧
      ((ofDays days).month < (ofDays days').month ∨ ((ofDays days).month = (ofDays days').month ∧
        (ofDays days).day < (ofDays days').day))) := by
  have hlt := MarchDate.ofDays_lt (by omega : days + 719468 < days' + 719468)
  have hday := (MarchDate.valid_ofDays (days + 719468)).day
  have hday' := (MarchDate.valid_ofDays (days' + 719468)).day
  unfold CivilDate.ofDays
  generalize MarchDate.ofDays (days + 719468) = d at *
  generalize MarchDate.ofDays (days' + 719468) = d' at *
  simp only [MarchDate.toCivil, MarchDate.yearNumber] at *
  split_ifs <;> omega

theorem CivilDate.ofDays_year_mono (h : days ≤ days') :
    (ofDays days).year ≤ (ofDays days').year := by
  rcases h.lt_or_eq with hlt | rfl
  · rcases ofDays_lt hlt with hyear | ⟨hyear, -⟩
    · exact hyear.le
    · exact hyear.le
  · exact le_refl _

/-- The day after December 31 of the year 9999 is day 2932897. -/
theorem CivilDate.ofDays_year_le_iff : (ofDays days).year ≤ 9999 ↔ days < 2932897 := by
  constructor
  · intro hyear
    by_contra hlate
    have hmono := ofDays_year_mono (not_lt.mp hlate)
    have hfirst : (ofDays 2932897).year = 10000 := by decide +kernel
    omega
  · intro hearly
    have hmono := ofDays_year_mono (by omega : days ≤ 2932896)
    have hlast : (ofDays 2932896).year = 9999 := by decide +kernel
    omega

theorem CivilDate.ofDays_year_nonneg_iff : 0 ≤ (ofDays days).year ↔ -719528 ≤ days := by
  constructor
  · intro hyear
    by_contra hearly
    have hmono := ofDays_year_mono (by omega : days ≤ -719529)
    have hlast : (ofDays (-719529)).year = -1 := by decide +kernel
    omega
  · intro hlate
    have hmono := ofDays_year_mono hlate
    have hfirst : (ofDays (-719528)).year = 0 := by decide +kernel
    omega

end Foundation
