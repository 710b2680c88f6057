import Mathlib.Tactic.FieldSimp
import Tslock.Foundation.JsArithmetic

/-! The doubles among the numbers: rounding leaves them alone, and a sum or a product goes past the
largest of them from half a unit of its last place on. -/
namespace Foundation

namespace JsNumber

variable {a b : JsNumber} {x q : ℚ} {e n : ℤ}

/-- A number on a grid that is at least as coarse as its own is rounded to itself. -/
theorem roundToDouble_of_grid (hx : x = n * 2 ^ e) (h : ulpExponent x ≤ e) :
    roundToDouble x = x := by
  obtain ⟨k, hk⟩ := Int.eq_ofNat_of_zero_le (sub_nonneg.mpr h)
  have hgrid : x = (n * 2 ^ k : ℤ) * 2 ^ ulpExponent x := by
    have he : e = ulpExponent x + k := by omega
    have hpow : (2 : ℚ) ^ e = ((2 ^ k : ℕ) : ℤ) * 2 ^ ulpExponent x := by
      rw [← two_zpow_add_nat, ← he]
    rw [hpow] at hx
    push_cast at hx ⊢
    linarith
  have hround := roundAt_mul (ulpExponent x) (n * 2 ^ k)
  rw [← hgrid] at hround
  exact hround

theorem ulpExponent_grid_le (hn : |n| < 2 ^ 53) (he : -1074 ≤ e) :
    ulpExponent (n * 2 ^ e) ≤ e := by
  unfold ulpExponent
  split_ifs with hzero
  · exact he
  · have hlt : |(n : ℚ) * 2 ^ e| < ((2 : ℕ) : ℚ) ^ (e + 53) := by
      have hcast : |(n : ℚ)| < 2 ^ (53 : ℤ) := by exact_mod_cast hn
      rw [abs_mul, abs_of_pos (two_zpow_pos e), add_comm e, Nat.cast_ofNat,
        zpow_add₀ (by norm_num)]
      exact mul_lt_mul_of_pos_right hcast (two_zpow_pos e)
    have hlog := (Int.lt_zpow_iff_log_lt (by norm_num) (abs_pos.mpr hzero)).mp hlt
    omega

/-- The numbers of 53 significant bits; the next power of two is one of the coarser grid. -/
theorem roundToDouble_repr (hn : |n| ≤ 2 ^ 53) (he : -1074 ≤ e) :
    roundToDouble (n * 2 ^ e) = n * 2 ^ e := by
  rcases hn.lt_or_eq with hlt | heq
  · exact roundToDouble_of_grid rfl (ulpExponent_grid_le hlt he)
  · obtain ⟨m, hm, hm'⟩ : ∃ m : ℤ, n = m * 2 ∧ |m| < 2 ^ 53 := by
      rcases abs_choice n with hpos | hneg
      · exact ⟨2 ^ 52, by omega, by norm_num⟩
      · exact ⟨-2 ^ 52, by omega, by norm_num⟩
    have hgrid : (n : ℚ) * 2 ^ e = m * 2 ^ (e + 1) := by
      rw [hm, zpow_add_one₀ (by norm_num)]
      push_cast
      ring
    rw [hgrid]
    exact roundToDouble_of_grid rfl (ulpExponent_grid_le hm' (by omega))

theorem abs_roundHalfEven_le (h : |x| ≤ 2 ^ 53) : |roundHalfEven x| ≤ 2 ^ 53 := by
  obtain ⟨hlow, hhigh⟩ := abs_le.mp h
  have hfirst : roundHalfEven ((-2 ^ 53 : ℤ) : ℚ) ≤ roundHalfEven x :=
    roundHalfEven_mono (by exact_mod_cast hlow)
  have hlast : roundHalfEven x ≤ roundHalfEven ((2 ^ 53 : ℤ) : ℚ) :=
    roundHalfEven_mono (by exact_mod_cast hhigh)
  rw [roundHalfEven_intCast] at hfirst hlast
  exact abs_le.mpr ⟨hfirst, hlast⟩

theorem roundToDouble_idem (x : ℚ) : roundToDouble (roundToDouble x) = roundToDouble x := by
  have hscaled : |x / 2 ^ ulpExponent x| ≤ 2 ^ 53 := by
    rw [abs_div, abs_of_pos (two_zpow_pos _), div_le_iff₀ (two_zpow_pos _)]
    have hlt := abs_lt_of_ulpExponent x
    rw [zpow_add₀ (by norm_num), mul_comm] at hlt
    exact_mod_cast hlt.le
  exact roundToDouble_repr (abs_roundHalfEven_le hscaled) (neg_1074_le_ulpExponent x)

theorem ofRat_idem (h : ofRat x = finite q) : ofRat q = finite q := by
  unfold ofRat at h
  split_ifs at h with hhigh hlow
  cases h
  rw [ofRat, roundToDouble_idem, if_neg hhigh, if_neg hlow]

/-- A number the language has: if it is finite, it is rounded to itself. -/
def IsDouble (a : JsNumber) : Prop := ∀ q, a = finite q → ofRat q = finite q

theorem isDouble_ofRat (x : ℚ) : (ofRat x).IsDouble := fun _ => ofRat_idem

theorem isDouble_add (a b : JsNumber) : (a + b).IsDouble := by
  change (add a b).IsDouble
  cases a <;> cases b
  case finite.finite x y => exact isDouble_ofRat (x + y)
  all_goals
    intro q h
    cases h

theorem isDouble_mul (a b : JsNumber) : (a * b).IsDouble := by
  intro q h
  change mul a b = finite q at h
  cases a <;> cases b <;> simp only [mul, infinity] at h <;>
    first | cases h | exact ofRat_idem h | (split_ifs at h)

/-- A half is rounded up to an even number. -/
theorem roundHalfEven_lt_iff (hn : Even n) : roundHalfEven x < n ↔ x < n - 1 / 2 := by
  constructor
  · intro h
    by_contra hle
    have hfloor : ⌊(n : ℚ) - 1 / 2⌋ = n - 1 := by
      rw [Int.floor_eq_iff]
      push_cast
      constructor <;> linarith
    have hodd : ¬ Even (n - 1) := Int.not_even_iff_odd.mpr (hn.sub_odd odd_one)
    have hhalf : roundHalfEven ((n : ℚ) - 1 / 2) = n := by
      unfold roundHalfEven
      rw [hfloor]
      push_cast
      rw [if_neg (by linarith), if_neg (by linarith), if_neg hodd]
      ring
    have hmono := roundHalfEven_mono (not_lt.mp hle)
    omega
  · intro h
    have hfloor : ⌊x⌋ ≤ n - 1 := by
      rw [← Int.lt_add_one_iff, sub_add_cancel, Int.floor_lt]
      linarith
    rcases hfloor.lt_or_eq with hlt | heq
    · have hle := roundHalfEven_le_floor_add_one x
      omega
    · have hnear : x - ⌊x⌋ < 1 / 2 := by
        rw [heq]
        push_cast
        linarith
      rw [roundHalfEven, if_pos hnear]
      omega

/-- Half a unit past the largest double. -/
def overflowStart : ℚ := 2 ^ 1024 - 2 ^ 970

theorem overflowBound_eq : overflowBound = 2 ^ 53 * 2 ^ 971 := by
  rw [overflowBound, ← pow_add]

theorem overflowStart_eq : overflowStart = (2 ^ 53 - 1 / 2) * 2 ^ 971 := by
  have hhalf : (2 : ℚ) ^ 971 = 2 ^ 970 * 2 := pow_succ 2 970
  have htop : (2 : ℚ) ^ 1024 = 2 ^ 53 * 2 ^ 971 := overflowBound_eq
  rw [overflowStart, htop, hhalf]
  generalize (2 : ℚ) ^ 970 = unit
  ring

theorem two_pow_lt_overflowStart : (2 : ℚ) ^ 1023 < overflowStart := by
  have htop : (2 : ℚ) ^ 1023 = 2 ^ 52 * 2 ^ 971 := by rw [← pow_add]
  rw [overflowStart_eq, htop]
  exact mul_lt_mul_of_pos_right (by norm_num) (by positivity)

theorem overflowStart_lt : overflowStart < overflowBound := sub_lt_self _ (by positivity)

theorem roundToDouble_two_pow (k : ℕ) : roundToDouble (2 ^ k) = 2 ^ k := by
  have hrepr := @roundToDouble_repr k 1 (by norm_num) (by omega)
  rwa [Int.cast_one, one_mul, zpow_natCast] at hrepr

theorem ulpExponent_top (hlow : 2 ^ 1023 ≤ x) (hhigh : x < 2 ^ 1024) : ulpExponent x = 971 := by
  have hpower : (0 : ℚ) < 2 ^ 1023 := pow_pos two_pos 1023
  have hpos : 0 < x := hpower.trans_le hlow
  have habs : |x| = x := abs_of_pos hpos
  have hle : 1023 ≤ Int.log 2 |x| := by
    rw [← Int.zpow_le_iff_le_log (by norm_num) (abs_pos.mpr hpos.ne'), habs]
    exact hlow
  have hlt : Int.log 2 |x| < 1024 := by
    rw [← Int.lt_zpow_iff_log_lt (by norm_num) (abs_pos.mpr hpos.ne'), habs]
    exact hhigh
  rw [ulpExponent, if_neg hpos.ne']
  omega

/-- Above the top binade everything overflows, below it nothing does. -/
theorem roundToDouble_lt_iff : roundToDouble x < overflowBound ↔ x < overflowStart := by
  rcases lt_or_ge x (2 ^ 1023) with hsmall | hlow
  · have hmono := roundToDouble_mono hsmall.le
    rw [roundToDouble_two_pow] at hmono
    have hbefore := two_pow_lt_overflowStart
    exact ⟨fun _ => hsmall.trans hbefore,
      fun _ => hmono.trans_lt (hbefore.trans overflowStart_lt)⟩
  · rcases lt_or_ge x (2 ^ 1024) with hhigh | hlarge
    · have hcast : ((2 ^ 53 : ℤ) : ℚ) = 2 ^ 53 := by norm_num
      have hround := @roundHalfEven_lt_iff (x / 2 ^ (971 : ℤ)) (2 ^ 53) (by decide)
      rw [roundToDouble, ulpExponent_top hlow hhigh, roundAt, overflowBound_eq, overflowStart_eq,
        ← zpow_natCast 2 971, Nat.cast_ofNat, mul_lt_mul_iff_of_pos_right (two_zpow_pos _),
        ← div_lt_iff₀ (two_zpow_pos _), ← hcast, Int.cast_lt]
      exact hround
    · have hmono := roundToDouble_mono hlarge
      rw [roundToDouble_two_pow] at hmono
      constructor
      · intro h
        exact absurd h (not_lt.mpr hmono)
      · intro h
        exact absurd (h.trans overflowStart_lt) (not_lt.mpr hlarge)

/-- The largest double. -/
theorem le_largest (h : ofRat q = finite q) : q ≤ (2 ^ 53 - 1) * 2 ^ 971 := by
  have htop : (2 : ℚ) ^ 1023 = 2 ^ 52 * 2 ^ 971 := by rw [← pow_add]
  rcases lt_or_ge q (2 ^ 1023) with hsmall | hlow
  · refine hsmall.le.trans ?_
    rw [htop]
    exact mul_le_mul_of_nonneg_right (by norm_num) (by positivity)
  · unfold ofRat at h
    split_ifs at h with hhigh hneg
    have hround := finite.inj h
    have hlt : q < 2 ^ 1024 := by
      rw [hround] at hhigh
      exact not_le.mp hhigh
    rw [roundToDouble, ulpExponent_top hlow hlt, roundAt] at hround
    have hunit : (2 : ℚ) ^ (971 : ℤ) = 2 ^ 971 := zpow_natCast 2 971
    rw [hunit] at hround
    have hbound : (2 : ℚ) ^ 1024 = 2 ^ 53 * 2 ^ 971 := overflowBound_eq
    rw [hbound] at hlt
    conv_lhs at hlt => rw [← hround]
    have hdigits := lt_of_mul_lt_mul_right hlt (by positivity)
    have hint : roundHalfEven (q / 2 ^ 971) ≤ 2 ^ 53 - 1 := by
      have hcast : roundHalfEven (q / 2 ^ 971) < 2 ^ 53 := by exact_mod_cast hdigits
      omega
    conv_lhs => rw [← hround]
    refine mul_le_mul_of_nonneg_right ?_ (by positivity)
    exact_mod_cast hint

theorem lt_posInf_iff : a < posInf ↔ a ≠ nan ∧ a ≠ posInf := by
  change blt a posInf = true ↔ _
  cases a <;> simp [blt]

theorem ofRat_lt_posInf_iff : ofRat x < posInf ↔ x < overflowStart := by
  rw [← roundToDouble_lt_iff, lt_posInf_iff, ← not_le]
  unfold ofRat
  split_ifs with hhigh <;> simp [hhigh]

/-- The sum of two numbers does not overflow upwards. -/
def Adds : JsNumber → JsNumber → Prop
  | finite x, finite y => x + y < overflowStart
  | _, _ => True

theorem add_lt_posInf_iff : a + b < posInf ↔ a < posInf ∧ b < posInf ∧ Adds a b := by
  change add a b < posInf ↔ _
  cases a with
  | finite x =>
    cases b with
    | finite y => simpa [add, Adds, lt_posInf_iff] using ofRat_lt_posInf_iff (x := x + y)
    | _ => simp [add, Adds, lt_posInf_iff]
  | _ => cases b <;> simp [add, Adds, lt_posInf_iff]

/-- A positive multiple of a number does not overflow upwards. -/
def Scales (unit : ℕ) : JsNumber → Prop
  | nan | posInf => False
  | negInf => True
  | finite x => x * unit < overflowStart

section Scaled
variable {unit : ℕ}

theorem infinity_mul (h : 0 < unit) :
    negInf * finite unit = negInf ∧ posInf * finite unit = posInf := by
  have hpos : (0 : ℚ) < unit := by exact_mod_cast h
  have hsign : sign (finite unit) = 1 := by
    rw [sign, if_neg hpos.ne', if_neg hpos.not_gt]
  constructor
  · change infinity (sign negInf * sign (finite unit)) = negInf
    rw [hsign]
    rfl
  · change infinity (sign posInf * sign (finite unit)) = posInf
    rw [hsign]
    rfl

theorem mul_lt_posInf_iff (h : 0 < unit) : a * finite unit < posInf ↔ Scales unit a := by
  cases a with
  | nan =>
    change nan < posInf ↔ False
    simp [lt_posInf_iff]
  | negInf => simp [(infinity_mul h).1, Scales, lt_posInf_iff]
  | finite x => exact ofRat_lt_posInf_iff
  | posInf => simp [(infinity_mul h).2, Scales, lt_posInf_iff]

theorem ofRat_nonneg (h : 0 ≤ x) : 0 ≤ ofRat x := by
  have hmono := ofRat_mono h
  have hzero : ofRat ((0 : ℤ) : ℚ) = finite ((0 : ℤ) : ℚ) := ofRat_intCast (by norm_num)
  rw [Int.cast_zero] at hzero
  rwa [hzero] at hmono

theorem mul_nonneg (ha : 0 ≤ a) (h : 0 < unit) : 0 ≤ a * finite unit := by
  cases a with
  | nan => cases ha
  | negInf => cases ha
  | finite x =>
    have hx : (0 : ℚ) ≤ x := finite_le.mp ha
    exact ofRat_nonneg (by positivity)
  | posInf =>
    rw [(infinity_mul h).2]
    rfl

end Scaled

theorem lt_posInf_of_isFinite (h : a.isFinite = true) : a < posInf := by
  obtain ⟨q, rfl⟩ := isFinite_iff.mp h
  rfl

theorem lt_posInf_of_neg (h : a < 0) : a < posInf :=
  lt_of_lt_of_le h rfl

theorem isFinite_of_bounds (hlow : finite x ≤ a) (hhigh : a < posInf) : a.isFinite = true := by
  obtain ⟨hnan, hinf⟩ := lt_posInf_iff.mp hhigh
  cases a with
  | nan => exact absurd rfl hnan
  | negInf => cases hlow
  | finite q => rfl
  | posInf => exact absurd rfl hinf

/-- A number that is not negative is finite unless it has overflowed. -/
theorem finite_of_lt_posInf (h : a < posInf) (h0 : ¬ a < 0) : a.isFinite = true ∧ 0 ≤ a := by
  have hle : 0 ≤ a := le_of_not_lt (lt_posInf_iff.mp h).1 nofun h0
  exact ⟨isFinite_of_bounds hle h, hle⟩

/-- Adding a whole number that doubles hold to a double that is not negative. -/
theorem isFinite_intCast_add (hn : |n| < 2 ^ 53) (hq : ofRat q = finite q) (h0 : 0 ≤ q) :
    (finite n + finite q).isFinite = true ∧ finite n ≤ finite n + finite q := by
  have hle : ofRat n ≤ finite n + finite q := ofRat_mono (by linarith)
  rw [ofRat_intCast hn] at hle
  have hlt : finite n + finite q < posInf := by
    have hlarge := le_largest hq
    have hsmall : (n : ℚ) < 2 ^ 53 := by exact_mod_cast (abs_lt.mp hn).2
    have hpow : (2 : ℚ) ^ 53 * 2 ≤ 2 ^ 971 := by
      rw [← pow_succ]
      exact pow_le_pow_right₀ (by norm_num) (by norm_num)
    refine ofRat_lt_posInf_iff.mpr ?_
    rw [overflowStart_eq]
    generalize (2 : ℚ) ^ 971 = unit at hlarge hpow ⊢
    linarith
  exact ⟨isFinite_of_bounds hle hlt, hle⟩

end JsNumber

end Foundation
