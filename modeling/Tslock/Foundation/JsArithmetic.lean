import Tslock.Foundation.JsNumber

/-! More operations on JavaScript numbers, and the whole numbers that doubles hold exactly. -/
namespace Foundation

namespace JsNumber

instance : Zero JsNumber := ⟨finite 0⟩

/-- `-a` -/
def neg : JsNumber → JsNumber
  | nan => nan
  | negInf => posInf
  | finite q => finite (-q)
  | posInf => negInf

/-- `a - b` -/
instance : Sub JsNumber := ⟨fun a b => a + b.neg⟩

/-- The sign of a number other than `NaN`. -/
def sign : JsNumber → ℤ
  | nan => 0
  | negInf => -1
  | finite q => if q = 0 then 0 else if q < 0 then -1 else 1
  | posInf => 1

/-- An infinity of the given sign; `NaN` where an infinity meets a zero. -/
def infinity (sign : ℤ) : JsNumber :=
  if sign = 0 then nan else if sign < 0 then negInf else posInf

/-- `a * b` -/
def mul : JsNumber → JsNumber → JsNumber
  | nan, _ | _, nan => nan
  | finite a, finite b => ofRat (a * b)
  | a, b => infinity (a.sign * b.sign)

instance : Mul JsNumber := ⟨mul⟩

/-- `a / n` for a positive whole number `n`. -/
def divNat (a : JsNumber) (n : ℕ) : JsNumber :=
  match a with
  | finite q => ofRat (q / n)
  | a => a

/-- `a === b` -/
def strictEquals (a b : JsNumber) : Bool := a ≠ nan ∧ a = b

/-- `Math.floor(a)` -/
def floor : JsNumber → JsNumber
  | finite q => finite ⌊q⌋
  | a => a

variable {a b c : JsNumber} {x y : ℚ} {n : ℤ}

theorem lt_of_le_of_lt (hab : a ≤ b) (hbc : b < c) : a < c := by
  change ble a b = true at hab
  change blt b c = true at hbc
  change blt a c = true
  cases a <;> cases b <;> cases c <;> simp_all [ble, blt]
  linarith

theorem add_nan (a : JsNumber) : a + nan = nan := by
  cases a <;> rfl

theorem max_nan (a : JsNumber) : max a nan = nan := by
  rw [max_def, if_pos (.inr rfl)]

theorem isFinite_max (ha : a.isFinite = true) (hb : b.isFinite = true) :
    (max a b).isFinite = true := by
  rcases max_cases (ne_nan_of_isFinite ha) (ne_nan_of_isFinite hb) with ⟨-, h⟩ | ⟨-, h⟩
  · rwa [h]
  · rwa [h]

theorem ulpExponent_intCast (h : |n| < 2 ^ 53) : ulpExponent n ≤ 0 := by
  unfold ulpExponent
  split_ifs with hn
  · norm_num
  · have hpos : (0 : ℚ) < |(n : ℚ)| := abs_pos.mpr hn
    have hlt : |(n : ℚ)| < ((2 : ℕ) : ℚ) ^ (53 : ℤ) := by exact_mod_cast h
    have hlog := (Int.lt_zpow_iff_log_lt (by norm_num) hpos).mp hlt
    omega

/-- The doubles hold all whole numbers of 53 bits. -/
theorem roundToDouble_intCast (h : |n| < 2 ^ 53) : roundToDouble n = n := by
  obtain ⟨k, hk⟩ := Int.eq_ofNat_of_zero_le (neg_nonneg.mpr (ulpExponent_intCast h))
  have hgrid : (n : ℚ) = (n * 2 ^ k : ℤ) * 2 ^ ulpExponent n := by
    have he : ulpExponent n = -(k : ℤ) := by omega
    rw [he, zpow_neg, zpow_natCast]
    push_cast
    field_simp
  have hround := roundAt_mul (ulpExponent n) (n * 2 ^ k)
  rw [← hgrid] at hround
  exact hround

theorem ofRat_intCast (h : |n| < 2 ^ 53) : ofRat n = finite n := by
  have hbound : |(n : ℚ)| < overflowBound := by
    have hlt : |(n : ℚ)| < 2 ^ 53 := by exact_mod_cast h
    exact hlt.trans (pow_lt_pow_right₀ (by norm_num) (by norm_num))
  obtain ⟨hlow, hhigh⟩ := abs_lt.mp hbound
  rw [ofRat, roundToDouble_intCast h, if_neg hhigh.not_ge, if_neg hlow.not_ge]

/-- Below a whole number that doubles hold, rounding stays at most at it. -/
theorem ofRat_le_intCast (h : |n| < 2 ^ 53) (hx : x ≤ n) : ofRat x ≤ finite n := by
  rw [← ofRat_intCast h]
  exact ofRat_mono hx

/-- What is rounded below such a number was below it. -/
theorem lt_of_ofRat_lt (h : |n| < 2 ^ 53) (hx : ofRat x < finite n) : x < n := by
  by_contra hle
  have hmono := ofRat_mono (not_lt.mp hle)
  rw [ofRat_intCast h] at hmono
  exact not_lt_of_le hmono hx

end JsNumber

end Foundation
