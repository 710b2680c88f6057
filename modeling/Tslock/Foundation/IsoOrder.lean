import Mathlib.Data.String.Basic
import Tslock.Foundation.Calendar

/-! The order of the texts of `toISOString` as strings. Their characters are ASCII, so that the
order of the bytes is that of the characters. -/
namespace Foundation

variable {a b width : ℕ} {x y : List Char}

theorem digitChar_lt (h : a < b) (hb : b < 10) : Nat.digitChar a < Nat.digitChar b := by
  interval_cases b <;> interval_cases a <;> decide

theorem sign_lt_digitChar (h : a < 10) : '-' < Nat.digitChar a ∧ '+' < Nat.digitChar a := by
  interval_cases a <;> decide

theorem cons_lt_cons (c : Char) (h : x < y) : c :: x < c :: y :=
  List.cons_lt_cons_iff.mpr (.inr ⟨rfl, h⟩)

/-- Numbers of one width are ordered as their digits, before anything that follows them. -/
theorem decimal_lt_of_lt (h : a < b) (hb : b < 10 ^ width) :
    decimal width a ++ x < decimal width b ++ y := by
  induction width generalizing a b x y with
  | zero => omega
  | succ width ih =>
    rw [pow_succ] at hb
    rw [decimal, decimal, List.append_assoc, List.append_assoc]
    rcases Nat.lt_or_eq_of_le (Nat.div_le_div_right h.le : a / 10 ≤ b / 10) with hlt | heq
    · exact ih hlt (by omega)
    · rw [heq]
      exact List.append_left_lt (List.cons_lt_cons_iff.mpr
        (.inl (digitChar_lt (by omega) (Nat.mod_lt _ (by decide)))))

/-- A field and what follows it, compared one after the other. -/
theorem decimal_lt (hb : b < 10 ^ width) (h : a < b ∨ (a = b ∧ x < y)) :
    decimal width a ++ x < decimal width b ++ y := by
  rcases h with hlt | ⟨rfl, hxy⟩
  · exact decimal_lt_of_lt hlt hb
  · exact List.append_left_lt hxy

namespace JsDate

variable {t t' : ℤ}

/-- January 1 of the year 10000. -/
def yearTenThousand : ℤ := 253402300800000

theorem year_le_iff : (CivilDate.ofDays (t / 86400000)).year ≤ 9999 ↔ t < yearTenThousand := by
  rw [CivilDate.ofDays_year_le_iff]
  unfold yearTenThousand
  omega

/-- Within the years of four digits, a later time has a later text. -/
theorem isoText_lt (h : t < t') (hyear : 0 ≤ (CivilDate.ofDays (t / 86400000)).year)
    (hyear' : (CivilDate.ofDays (t' / 86400000)).year ≤ 9999) : isoText t < isoText t' := by
  have hdays : t / 86400000 ≤ t' / 86400000 := Int.ediv_le_ediv (by decide) h.le
  have hmono := CivilDate.ofDays_year_mono hdays
  obtain ⟨hmonth, hday⟩ := CivilDate.ofDays_bounds (t' / 86400000)
  simp only [isoText, yearText]
  rw [if_pos ⟨hyear, by omega⟩, if_pos ⟨by omega, hyear'⟩]
  rcases hdays.lt_or_eq with hlt | heq
  · -- the days decide
    rcases CivilDate.ofDays_lt hlt with hy | ⟨hy, hm | ⟨hm, hd⟩⟩
    · exact decimal_lt (by omega) (.inl (by omega))
    · rw [hy]
      refine List.append_left_lt (cons_lt_cons _ ?_)
      exact decimal_lt hmonth (.inl hm)
    · rw [hy, hm]
      refine List.append_left_lt (cons_lt_cons _ (List.append_left_lt (cons_lt_cons _ ?_)))
      exact decimal_lt hday (.inl hd)
  · -- the times of the day decide
    rw [heq]
    refine List.append_left_lt (cons_lt_cons _ (List.append_left_lt (cons_lt_cons _
      (List.append_left_lt (cons_lt_cons _ ?_)))))
    obtain ⟨ms, hms⟩ : ∃ ms, ms = (t % 86400000).toNat := ⟨_, rfl⟩
    obtain ⟨ms', hms'⟩ : ∃ ms, ms = (t' % 86400000).toNat := ⟨_, rfl⟩
    have hlt : ms < ms' := by omega
    have hbound : ms' < 86400000 := by omega
    rw [← hms, ← hms']
    refine decimal_lt (by omega) ?_
    rcases Nat.lt_or_eq_of_le (Nat.div_le_div_right hlt.le : ms / 3600000 ≤ ms' / 3600000)
      with hhour | hhour
    · exact .inl hhour
    · refine .inr ⟨hhour, cons_lt_cons _ (decimal_lt (by omega) ?_)⟩
      rcases lt_trichotomy (ms / 60000 % 60) (ms' / 60000 % 60) with hminute | hminute | hminute
      · exact .inl hminute
      · refine .inr ⟨hminute, cons_lt_cons _ (decimal_lt (by omega) ?_)⟩
        rcases lt_trichotomy (ms / 1000 % 60) (ms' / 1000 % 60) with hsecond | hsecond | hsecond
        · exact .inl hsecond
        · refine .inr ⟨hsecond, cons_lt_cons _ (decimal_lt (by omega) (.inl ?_))⟩
          omega
        · omega
      · omega

/-- A text that starts with a sign is before those that start with a digit. -/
theorem isoText_lt_of_signed
    (h : ¬ (0 ≤ (CivilDate.ofDays (t / 86400000)).year ∧
      (CivilDate.ofDays (t / 86400000)).year ≤ 9999))
    (h' : 0 ≤ (CivilDate.ofDays (t' / 86400000)).year ∧
      (CivilDate.ofDays (t' / 86400000)).year ≤ 9999) : isoText t < isoText t' := by
  simp only [isoText, yearText]
  rw [if_neg h, if_pos h']
  simp only [decimal, List.nil_append, List.cons_append]
  refine List.cons_lt_cons_iff.mpr (.inl ?_)
  obtain ⟨hminus, hplus⟩ := sign_lt_digitChar (Nat.mod_lt
    ((CivilDate.ofDays (t' / 86400000)).year.toNat / 10 / 10 / 10) (show 0 < 10 by decide))
  split_ifs
  · exact hminus
  · exact hplus

/-- Against a clock of the years 1970 to 9999, the order of the texts is that of the times, but for
the times from the year 10000 on, which all come first. -/
theorem isoText_le_iff {now : ℤ} (hlow : 0 ≤ now) (hhigh : now < yearTenThousand) :
    isoText t ≤ isoText now ↔ t ≤ now ∨ yearTenThousand ≤ t := by
  have hyear := year_le_iff.mpr hhigh
  have hyear' : 0 ≤ (CivilDate.ofDays (now / 86400000)).year :=
    CivilDate.ofDays_year_nonneg_iff.mpr (by omega)
  constructor
  · intro hle
    by_contra hnot
    obtain ⟨hafter, hbefore⟩ := not_or.mp hnot
    have hlt := isoText_lt (not_le.mp hafter) hyear' (year_le_iff.mpr (not_le.mp hbefore))
    exact hle.not_gt hlt
  · rintro (hle | hlate)
    · rcases hle.lt_or_eq with hlt | rfl
      · by_cases hsigned : 0 ≤ (CivilDate.ofDays (t / 86400000)).year
        · exact (isoText_lt hlt hsigned hyear).le
        · exact (isoText_lt_of_signed (fun h => hsigned h.1) ⟨hyear', hyear⟩).le
      · exact le_refl _
    · have hsigned : ¬ (CivilDate.ofDays (t / 86400000)).year ≤ 9999 := fun h =>
        not_le.mpr (year_le_iff.mp h) hlate
      exact (isoText_lt_of_signed (fun h => hsigned h.2) ⟨hyear', hyear⟩).le

end JsDate

end Foundation
