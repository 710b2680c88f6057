import Mathlib.Algebra.Order.Floor.Ring
import Mathlib.Data.Int.Log
import Mathlib.Data.Rat.Floor
import Mathlib.Tactic.Linarith

/-! JavaScript numbers: binary64 addition by rounding the exact sum to nearest, ties to even, and
the comparisons and maximum that treat `NaN` apart. The two zeros are one number here. -/
namespace Foundation

inductive JsNumber where
  | nan
  | negInf
  | finite (q : ℚ)
  | posInf
deriving DecidableEq

namespace JsNumber

/-- The integer next to `q`, the even one if `q` lies between two. -/
def roundHalfEven (q : ℚ) : ℤ :=
  if q - ⌊q⌋ < 1 / 2 then ⌊q⌋
  else if 1 / 2 < q - ⌊q⌋ then ⌊q⌋ + 1
  else if Even ⌊q⌋ then ⌊q⌋ else ⌊q⌋ + 1

/-- The exponent of the last place of a double next to `q`. -/
def ulpExponent (q : ℚ) : ℤ :=
  if q = 0 then -1074 else max (Int.log 2 |q| - 52) (-1074)

/-- `q` rounded to a multiple of `2 ^ e`. -/
def roundAt (e : ℤ) (q : ℚ) : ℚ := roundHalfEven (q / 2 ^ e) * 2 ^ e

/-- `q` rounded to 53 significant bits, above the subnormal range. -/
def roundToDouble (q : ℚ) : ℚ := roundAt (ulpExponent q) q

/-- From here on a rounded sum overflows. -/
def overflowBound : ℚ := 2 ^ 1024

def ofRat (q : ℚ) : JsNumber :=
  if overflowBound ≤ roundToDouble q then posInf
  else if roundToDouble q ≤ -overflowBound then negInf
  else finite (roundToDouble q)

def add : JsNumber → JsNumber → JsNumber
  | nan, _ | _, nan => nan
  | posInf, negInf | negInf, posInf => nan
  | posInf, _ | _, posInf => posInf
  | negInf, _ | _, negInf => negInf
  | finite a, finite b => ofRat (a + b)

instance : Add JsNumber := ⟨add⟩

/-- `a <= b` -/
def ble : JsNumber → JsNumber → Bool
  | nan, _ | _, nan => false
  | negInf, _ | _, posInf => true
  | finite a, finite b => a ≤ b
  | posInf, _ | _, negInf => false

/-- `a < b` -/
def blt : JsNumber → JsNumber → Bool
  | nan, _ | _, nan => false
  | negInf, negInf | posInf, posInf => false
  | negInf, _ | _, posInf => true
  | finite a, finite b => a < b
  | posInf, _ | _, negInf => false

instance : LE JsNumber := ⟨fun a b => ble a b = true⟩
instance : LT JsNumber := ⟨fun a b => blt a b = true⟩
instance : DecidableLE JsNumber := fun a b => inferInstanceAs (Decidable (ble a b = true))
instance : DecidableLT JsNumber := fun a b => inferInstanceAs (Decidable (blt a b = true))

/-- `Math.max(a, b)` -/
instance : Max JsNumber := ⟨fun a b =>
  if a = nan ∨ b = nan then nan else if a < b then b else a⟩

/-- `Number.isFinite` -/
def isFinite : JsNumber → Bool
  | finite _ => true
  | _ => false

variable {a b c : JsNumber} {x y : ℚ}

@[simp] theorem finite_le : finite x ≤ finite y ↔ x ≤ y := by
  change ble (finite x) (finite y) = true ↔ _
  simp [ble]

theorem le_trans (hab : a ≤ b) (hbc : b ≤ c) : a ≤ c := by
  change ble a b = true at hab
  change ble b c = true at hbc
  change ble a c = true
  cases a <;> cases b <;> cases c <;> simp_all [ble]
  linarith

theorem not_lt_of_le (h : a ≤ b) : ¬ b < a := by
  change ble a b = true at h
  change ¬ blt b a = true
  cases a <;> cases b <;> simp_all [ble, blt]

theorem not_lt_self (a : JsNumber) : ¬ a < a := by
  change ¬ blt a a = true
  cases a <;> simp [blt]

theorem not_nan_lt (a : JsNumber) : ¬ nan < a := by
  change ¬ blt nan a = true
  simp [blt]

theorem lt_of_not_le (ha : a ≠ nan) (hb : b ≠ nan) (h : ¬ a ≤ b) : b < a := by
  change ¬ ble a b = true at h
  change blt b a = true
  cases a <;> cases b <;> simp_all [ble, blt]

theorem isFinite_iff : a.isFinite = true ↔ ∃ q, a = finite q := by
  cases a <;> simp [isFinite]

theorem floor_le_roundHalfEven (q : ℚ) : ⌊q⌋ ≤ roundHalfEven q := by
  unfold roundHalfEven
  split_ifs <;> omega

theorem roundHalfEven_le_floor_add_one (q : ℚ) : roundHalfEven q ≤ ⌊q⌋ + 1 := by
  unfold roundHalfEven
  split_ifs <;> omega

@[simp] theorem roundHalfEven_intCast (n : ℤ) : roundHalfEven n = n := by
  simp [roundHalfEven]

/-- Rounding is monotone: across integers by the bounds above, within one by the three cases. -/
theorem roundHalfEven_mono (h : x ≤ y) : roundHalfEven x ≤ roundHalfEven y := by
  rcases (Int.floor_le_floor h).lt_or_eq with hlt | heq
  · have hx := roundHalfEven_le_floor_add_one x
    have hy := floor_le_roundHalfEven y
    omega
  · unfold roundHalfEven
    rw [heq]
    split_ifs <;> first | omega | (exfalso; linarith)

theorem two_zpow_pos (e : ℤ) : (0 : ℚ) < 2 ^ e := zpow_pos (by norm_num) e

/-- The significand of a double has at most 53 bits, with equality only after rounding up. -/
theorem abs_lt_of_ulpExponent (q : ℚ) : |q| < 2 ^ (ulpExponent q + 53) := by
  unfold ulpExponent
  split_ifs with hq
  · subst hq
    rw [abs_zero]
    exact two_zpow_pos _
  · have hlog : |q| < 2 ^ (Int.log 2 |q| + 1) := by
      exact_mod_cast Int.lt_zpow_succ_log_self (by norm_num : 1 < 2) |q|
    refine hlog.trans_le (zpow_le_zpow_right₀ (by norm_num) ?_)
    omega

/-- Above the subnormal range the significand has 53 bits. -/
theorem le_abs_of_ulpExponent {q : ℚ} (h : -1074 < ulpExponent q) :
    2 ^ (ulpExponent q + 52) ≤ |q| := by
  unfold ulpExponent at h ⊢
  split_ifs at h ⊢ with hq
  · exact absurd h (lt_irrefl _)
  · have hlog : (2 : ℚ) ^ Int.log 2 |q| ≤ |q| := by
      exact_mod_cast Int.zpow_log_le_self (by norm_num : 1 < 2) (abs_pos.mpr hq)
    have he : max (Int.log 2 |q| - 52) (-1074) + 52 = Int.log 2 |q| := by omega
    rw [he]
    exact hlog

theorem neg_1074_le_ulpExponent (q : ℚ) : -1074 ≤ ulpExponent q := by
  unfold ulpExponent
  split_ifs <;> omega

theorem roundAt_mono (e : ℤ) (h : x ≤ y) : roundAt e x ≤ roundAt e y := by
  have hdiv : x / 2 ^ e ≤ y / 2 ^ e := div_le_div_of_nonneg_right h (two_zpow_pos e).le
  have hround : (roundHalfEven (x / 2 ^ e) : ℚ) ≤ roundHalfEven (y / 2 ^ e) := by
    exact_mod_cast roundHalfEven_mono hdiv
  exact mul_le_mul_of_nonneg_right hround (two_zpow_pos e).le

/-- Multiples of `2 ^ e` are rounded to themselves. -/
theorem roundAt_mul (e n : ℤ) : roundAt e (n * 2 ^ e) = n * 2 ^ e := by
  unfold roundAt
  rw [mul_div_cancel_right₀ _ (two_zpow_pos e).ne', roundHalfEven_intCast]

theorem two_zpow_add_nat (e : ℤ) (k : ℕ) : (2 : ℚ) ^ (e + k) = ((2 ^ k : ℕ) : ℤ) * 2 ^ e := by
  rw [zpow_add₀ (by norm_num), zpow_natCast, mul_comm]
  push_cast
  rfl

theorem roundAt_two_zpow (e : ℤ) (k : ℕ) : roundAt e (2 ^ (e + k)) = 2 ^ (e + k) := by
  rw [two_zpow_add_nat, roundAt_mul]

theorem roundAt_neg_two_zpow (e : ℤ) (k : ℕ) : roundAt e (-2 ^ (e + k)) = -2 ^ (e + k) := by
  rw [two_zpow_add_nat, ← neg_mul, ← Int.cast_neg, roundAt_mul]

/-- A number of a smaller binade stays below the binades above it, on either side of zero. -/
theorem abs_roundToDouble_le (q : ℚ) : roundToDouble q ≤ 2 ^ (ulpExponent q + 53) ∧
    -2 ^ (ulpExponent q + 53) ≤ roundToDouble q := by
  obtain ⟨hlo, hhi⟩ := abs_lt.mp (abs_lt_of_ulpExponent q)
  have htop := roundAt_mono (ulpExponent q) hhi.le
  have hbot := roundAt_mono (ulpExponent q) hlo.le
  rw [show (53 : ℤ) = ((53 : ℕ) : ℤ) from rfl] at htop hbot ⊢
  rw [roundAt_two_zpow] at htop
  rw [roundAt_neg_two_zpow] at hbot
  exact ⟨htop, hbot⟩

theorem two_zpow_le_two_zpow {e e' : ℤ} (h : e < e') : (2 : ℚ) ^ (e + 53) ≤ 2 ^ (e' + 52) :=
  zpow_le_zpow_right₀ (by norm_num) (by omega)

/-- A positive number above the subnormal range is rounded to at least its binade. -/
theorem le_roundToDouble {q : ℚ} (h : 2 ^ (ulpExponent q + 52) ≤ q) :
    2 ^ (ulpExponent q + 52) ≤ roundToDouble q := by
  have hmono := roundAt_mono (ulpExponent q) h
  rw [show (52 : ℤ) = ((52 : ℕ) : ℤ) from rfl] at hmono ⊢
  rwa [roundAt_two_zpow] at hmono

theorem roundToDouble_le {q : ℚ} (h : q ≤ -2 ^ (ulpExponent q + 52)) :
    roundToDouble q ≤ -2 ^ (ulpExponent q + 52) := by
  have hmono := roundAt_mono (ulpExponent q) h
  rw [show (52 : ℤ) = ((52 : ℕ) : ℤ) from rfl] at hmono ⊢
  rwa [roundAt_neg_two_zpow] at hmono

/-- Rounding to a double is monotone: within a binade on one grid, across binades by the powers
of two between them. -/
theorem roundToDouble_mono (h : x ≤ y) : roundToDouble x ≤ roundToDouble y := by
  have hx := abs_lt_of_ulpExponent x
  have hy := abs_lt_of_ulpExponent y
  rcases lt_trichotomy (ulpExponent x) (ulpExponent y) with hlt | heq | hgt
  · have hbig := le_abs_of_ulpExponent ((neg_1074_le_ulpExponent x).trans_lt hlt)
    have hgap := two_zpow_le_two_zpow hlt
    have hpos : 2 ^ (ulpExponent y + 52) ≤ y := by
      rcases le_abs.mp hbig with hp | hn
      · exact hp
      · -- a negative `y` would be farther from zero than `x ≤ y`
        have := (abs_lt.mp hx).1
        linarith
    exact (abs_roundToDouble_le x).1.trans (hgap.trans (le_roundToDouble hpos))
  · unfold roundToDouble
    rw [heq]
    exact roundAt_mono _ h
  · have hbig := le_abs_of_ulpExponent ((neg_1074_le_ulpExponent y).trans_lt hgt)
    have hgap := two_zpow_le_two_zpow hgt
    have hneg : x ≤ -2 ^ (ulpExponent x + 52) := by
      rcases le_abs.mp hbig with hp | hn
      · have := (abs_lt.mp hy).2
        linarith
      · linarith
    exact (roundToDouble_le hneg).trans ((neg_le_neg hgap).trans (abs_roundToDouble_le y).2)

theorem ofRat_mono (h : x ≤ y) : ofRat x ≤ ofRat y := by
  have hr := roundToDouble_mono h
  unfold ofRat
  split_ifs <;> first | rfl | (rw [finite_le]; exact hr) | (exfalso; linarith)

theorem ofRat_ne_nan : ofRat x ≠ nan := by
  unfold ofRat
  split_ifs <;> simp

theorem negInf_le (h : a ≠ nan) : negInf ≤ a := by
  cases a with
  | nan => exact absurd rfl h
  | _ => rfl

theorem le_posInf (h : a ≠ nan) : a ≤ posInf := by
  cases a with
  | nan => exact absurd rfl h
  | _ => rfl

/-- Adding a finite number is monotone. -/
theorem add_le_add_left (ha : a.isFinite = true) (h : b ≤ c) : a + b ≤ a + c := by
  obtain ⟨q, rfl⟩ := isFinite_iff.mp ha
  cases b with
  | nan => cases h
  | negInf =>
    cases c with
    | nan => cases h
    | negInf => rfl
    | finite z => exact negInf_le ofRat_ne_nan
    | posInf => rfl
  | finite y =>
    cases c with
    | nan => cases h
    | negInf => cases h
    | finite z =>
      have hyz : y ≤ z := finite_le.mp h
      exact ofRat_mono (by linarith)
    | posInf => exact le_posInf ofRat_ne_nan
  | posInf =>
    cases c with
    | nan => cases h
    | negInf => cases h
    | finite z => cases h
    | posInf => rfl

/-- A finite sum has finite summands. -/
theorem isFinite_of_add (h : (a + b).isFinite = true) : a.isFinite = true ∧ b.isFinite = true := by
  change (add a b).isFinite = true at h
  cases a <;> cases b <;> simp_all [add, isFinite]

theorem ne_nan_of_isFinite (h : a.isFinite = true) : a ≠ nan := by
  rintro rfl
  cases h

theorem max_def (a b : JsNumber) :
    max a b = if a = nan ∨ b = nan then nan else if a < b then b else a := rfl

theorem le_refl_of_ne_nan (h : a ≠ nan) : a ≤ a := by
  change ble a a = true
  cases a <;> simp_all [ble]

theorem le_of_lt (h : a < b) : a ≤ b := by
  change blt a b = true at h
  change ble a b = true
  cases a <;> cases b <;> simp_all [ble, blt]
  exact h.le

theorem lt_of_lt_of_le (hab : a < b) (hbc : b ≤ c) : a < c := by
  change blt a b = true at hab
  change ble b c = true at hbc
  change blt a c = true
  cases a <;> cases b <;> cases c <;> simp_all [ble, blt]
  linarith

theorem le_of_not_lt (ha : a ≠ nan) (hb : b ≠ nan) (h : ¬ a < b) : b ≤ a := by
  by_contra hle
  exact h (lt_of_not_le hb ha hle)

theorem nan_max (a : JsNumber) : max nan a = nan := by
  rw [max_def, if_pos (.inl rfl)]

theorem max_cases (ha : a ≠ nan) (hb : b ≠ nan) :
    (a < b ∧ max a b = b) ∨ (¬ a < b ∧ max a b = a) := by
  rw [max_def, if_neg (by simp [ha, hb])]
  by_cases h : a < b
  · exact .inl ⟨h, if_pos h⟩
  · exact .inr ⟨h, if_neg h⟩

theorem max_ne_nan (ha : a ≠ nan) (hb : b ≠ nan) : max a b ≠ nan := by
  rcases max_cases ha hb with ⟨-, h⟩ | ⟨-, h⟩
  · rwa [h]
  · rwa [h]

/-- A maximum that is a number is one of numbers. -/
theorem ne_nan_of_max (h : max a b ≠ nan) : a ≠ nan ∧ b ≠ nan := by
  rw [max_def] at h
  split_ifs at h with hnan
  · exact absurd rfl h
  · exact not_or.mp hnan
  · exact not_or.mp hnan

theorem le_max_left (ha : a ≠ nan) (hb : b ≠ nan) : a ≤ max a b := by
  rcases max_cases ha hb with ⟨hlt, h⟩ | ⟨-, h⟩
  · rw [h]
    exact le_of_lt hlt
  · rw [h]
    exact le_refl_of_ne_nan ha

theorem le_max_right (ha : a ≠ nan) (hb : b ≠ nan) : b ≤ max a b := by
  rcases max_cases ha hb with ⟨-, h⟩ | ⟨hlt, h⟩
  · rw [h]
    exact le_refl_of_ne_nan hb
  · rw [h]
    exact le_of_not_lt ha hb hlt

theorem max_le (ha : a ≤ c) (hb : b ≤ c) : max a b ≤ c := by
  rw [max_def]
  split_ifs with hnan
  · rcases hnan with rfl | rfl
    · exact ha
    · exact hb
  · exact hb
  · exact ha

end JsNumber

end Foundation
