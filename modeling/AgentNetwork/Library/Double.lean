import Mathlib.Data.Int.Log
import Mathlib.Data.Rat.Floor
import Mathlib.Tactic.Linarith
import Mathlib.Tactic.Ring
import Mathlib.Tactic.FieldSimp
import Mathlib.Tactic.Positivity

/-! Binary64 arithmetic on the rationals, for magnitudes in the normal range. -/

namespace Double

/-- The nearest integer, ties to the even one. -/
def roundHalfEven (q : ℚ) : ℤ :=
  if q - ⌊q⌋ < 1 / 2 then ⌊q⌋
  else if 1 / 2 < q - ⌊q⌋ then ⌊q⌋ + 1
  else if Even ⌊q⌋ then ⌊q⌋
  else ⌊q⌋ + 1

/-- The spacing of the 53-bit significands around `x`. -/
def ulp (x : ℚ) : ℚ := 2 ^ (Int.log 2 |x| - 52)

def nearest (x : ℚ) : ℚ := roundHalfEven (x / ulp x) * ulp x

/-- `int(x)`: truncation towards zero. -/
def trunc (x : ℚ) : ℤ := if 0 ≤ x then ⌊x⌋ else ⌈x⌉

/-- `n * p` of an integer and a float. -/
def scale (n : ℤ) (p : ℚ) : ℚ := nearest (nearest n * p)

theorem roundHalfEven_intCast (n : ℤ) : roundHalfEven (n : ℚ) = n := by
  unfold roundHalfEven
  rw [if_pos]
  · exact Int.floor_intCast n
  · simp

theorem roundHalfEven_error (q : ℚ) : |roundHalfEven q - q| ≤ 1 / 2 := by
  have hlow := Int.floor_le q
  have hhigh := Int.lt_floor_add_one q
  unfold roundHalfEven
  split
  next h =>
    rw [abs_le]
    constructor <;> linarith
  next h =>
    split
    · push_cast
      rw [abs_le]
      constructor <;> linarith
    · split
      · rw [abs_le]
        constructor <;> linarith
      · push_cast
        rw [abs_le]
        constructor <;> linarith

theorem ulp_pos (x : ℚ) : 0 < ulp x := zpow_pos (by norm_num) _

theorem ulp_le {x : ℚ} (h : 0 < |x|) : ulp x ≤ |x| * 2 ^ (-52 : ℤ) := by
  have hlog := Int.zpow_log_le_self (b := 2) (by norm_num) h
  have hsplit : ulp x = 2 ^ Int.log 2 |x| * 2 ^ (-52 : ℤ) := by
    rw [ulp, sub_eq_add_neg, zpow_add₀ (by norm_num)]
  rw [hsplit]
  exact mul_le_mul_of_nonneg_right (by exact_mod_cast hlog) (by positivity)

/-- Rounding errs by at most half a unit in the last of 53 places. -/
theorem nearest_error (x : ℚ) : |nearest x - x| ≤ |x| * 2 ^ (-53 : ℤ) := by
  have hulp := ulp_pos x
  have hmul : nearest x - x = (roundHalfEven (x / ulp x) - x / ulp x) * ulp x := by
    rw [nearest, sub_mul, div_mul_cancel₀ x hulp.ne']
  have hhalf : |nearest x - x| ≤ 1 / 2 * ulp x := by
    rw [hmul, abs_mul, abs_of_pos hulp]
    exact mul_le_mul_of_nonneg_right (roundHalfEven_error _) hulp.le
  rcases (abs_nonneg x).eq_or_lt with h0 | h0
  · have hx : x = 0 := abs_eq_zero.mp h0.symm
    subst hx
    simp [nearest, show roundHalfEven 0 = 0 from roundHalfEven_intCast 0]
  · have hle := ulp_le h0
    have hpow : (2 : ℚ) ^ (-53 : ℤ) = 1 / 2 * 2 ^ (-52 : ℤ) := by norm_num
    calc |nearest x - x| ≤ 1 / 2 * ulp x := hhalf
      _ ≤ 1 / 2 * (|x| * 2 ^ (-52 : ℤ)) := mul_le_mul_of_nonneg_left hle (by norm_num)
      _ = |x| * 2 ^ (-53 : ℤ) := by rw [hpow]; ring

/-- An integer of at most 53 bits is a float. -/
theorem nearest_intCast {n : ℤ} (h : |n| < 2 ^ 53) : nearest (n : ℚ) = n := by
  rcases eq_or_ne n 0 with rfl | hne
  · simp [nearest, show roundHalfEven 0 = 0 from roundHalfEven_intCast 0]
  · have hpositive : (0 : ℚ) < |(n : ℚ)| := abs_pos.mpr (by exact_mod_cast hne)
    have hlog : Int.log 2 |(n : ℚ)| < 53 := by
      rw [← Int.lt_zpow_iff_log_lt (by norm_num) hpositive]
      exact_mod_cast h
    obtain ⟨m, hm⟩ := Int.eq_ofNat_of_zero_le (show 0 ≤ 52 - Int.log 2 |(n : ℚ)| by omega)
    have hulp : ulp n = ((2 : ℚ) ^ m)⁻¹ := by
      rw [ulp, show Int.log 2 |(n : ℚ)| - 52 = -(m : ℤ) by omega, zpow_neg, zpow_natCast]
    have hscaled : (n : ℚ) / ulp n = ((n * 2 ^ m : ℤ) : ℚ) := by
      rw [hulp, div_inv_eq_mul]
      push_cast
      rfl
    rw [nearest, hscaled, roundHalfEven_intCast, ← hscaled, div_mul_cancel₀ _ (ulp_pos _).ne']

@[simp] theorem nearest_zero : nearest 0 = 0 := nearest_intCast (n := 0) (by norm_num)

@[simp] theorem nearest_one : nearest 1 = 1 := by exact_mod_cast nearest_intCast (n := 1) (by norm_num)

/-- Rounding is within one part in `2 ^ 53`, so it keeps the sign. -/
theorem nearest_nonneg {x : ℚ} (h : 0 ≤ x) : 0 ≤ nearest x := by
  have herr := (abs_le.mp (nearest_error x)).1
  rw [abs_of_nonneg h] at herr
  have hpow : (2 : ℚ) ^ (-53 : ℤ) ≤ 1 := by norm_num
  nlinarith

theorem nearest_le {x : ℚ} (h : 0 ≤ x) : nearest x ≤ x * (1 + 2 ^ (-53 : ℤ)) := by
  have herr := (abs_le.mp (nearest_error x)).2
  rw [abs_of_nonneg h] at herr
  linarith

theorem scale_nonneg {n : ℤ} {p : ℚ} (hn : 0 ≤ n) (hp : 0 ≤ p) : 0 ≤ scale n p :=
  nearest_nonneg (mul_nonneg (nearest_nonneg (by exact_mod_cast hn)) hp)

theorem scale_le {n : ℤ} {p : ℚ} (hn : 0 ≤ n) (hp : 0 ≤ p) :
    scale n p ≤ n * p * (1 + 2 ^ (-53 : ℤ)) ^ 2 := by
  have hn' : (0 : ℚ) ≤ n := by exact_mod_cast hn
  have hfactor : (0 : ℚ) ≤ 1 + 2 ^ (-53 : ℤ) := by positivity
  have hinner := mul_le_mul_of_nonneg_right (nearest_le hn') hp
  have houter := nearest_le (mul_nonneg (nearest_nonneg hn') hp)
  calc scale n p ≤ nearest n * p * (1 + 2 ^ (-53 : ℤ)) := houter
    _ ≤ n * (1 + 2 ^ (-53 : ℤ)) * p * (1 + 2 ^ (-53 : ℤ)) := mul_le_mul_of_nonneg_right hinner hfactor
    _ = n * p * (1 + 2 ^ (-53 : ℤ)) ^ 2 := by ring

theorem trunc_nonneg {x : ℚ} (h : 0 ≤ x) : 0 ≤ trunc x := by
  rw [trunc, if_pos h]
  exact Int.floor_nonneg.mpr h

theorem trunc_le {x : ℚ} (h : 0 ≤ x) : (trunc x : ℚ) ≤ x := by
  rw [trunc, if_pos h]
  exact Int.floor_le x

theorem roundHalfEven_floor (q : ℚ) : roundHalfEven q = ⌊q⌋ ∨ roundHalfEven q = ⌊q⌋ + 1 := by
  unfold roundHalfEven
  split
  next => exact .inl rfl
  next =>
    split
    next => exact .inr rfl
    next =>
      split
      next => exact .inl rfl
      next => exact .inr rfl

theorem roundHalfEven_mono {p q : ℚ} (h : p ≤ q) : roundHalfEven p ≤ roundHalfEven q := by
  rcases (Int.floor_mono h).lt_or_eq with hfloor | hfloor
  · have hp := roundHalfEven_floor p
    have hq := roundHalfEven_floor q
    omega
  · unfold roundHalfEven
    rw [hfloor]
    split
    next hlow =>
      have hle : ∀ c : Prop, [Decidable c] → ⌊q⌋ ≤ if c then ⌊q⌋ else ⌊q⌋ + 1 := fun c _ => by split <;> omega
      split
      · exact le_rfl
      · split
        · omega
        · exact hle _
    next hhigh =>
      have hq : ¬q - ⌊q⌋ < 1 / 2 := fun hlow => hhigh (by linarith)
      rw [if_neg hq]
      split
      next hup => rw [if_pos (by linarith)]
      next =>
        split
        · split
          · omega
          · exact le_rfl
        · split
          · exact le_rfl
          · exact le_rfl

theorem nearest_le_zpow {x : ℚ} (h : 0 < x) : nearest x ≤ 2 ^ (Int.log 2 |x| + 1) := by
  have hulp := ulp_pos x
  have hsplit : (2 : ℚ) ^ (Int.log 2 |x| + 1) = (2 ^ 53 : ℤ) * ulp x := by
    rw [ulp, show Int.log 2 |x| + 1 = 53 + (Int.log 2 |x| - 52) by ring, zpow_add₀ (by norm_num)]
    norm_num
  have hbelow : x < 2 ^ (Int.log 2 |x| + 1) := by
    have hlog := Int.lt_zpow_succ_log_self (b := 2) (by norm_num) |x|
    rw [abs_of_pos h] at hlog ⊢
    exact_mod_cast hlog
  rw [hsplit] at hbelow ⊢
  have hround := roundHalfEven_mono ((div_lt_iff₀ hulp).mpr hbelow).le
  rw [roundHalfEven_intCast] at hround
  exact mul_le_mul_of_nonneg_right (by exact_mod_cast hround) hulp.le

theorem zpow_le_nearest {x : ℚ} (h : 0 < x) : 2 ^ Int.log 2 |x| ≤ nearest x := by
  have hulp := ulp_pos x
  have hsplit : (2 : ℚ) ^ Int.log 2 |x| = (2 ^ 52 : ℤ) * ulp x := by
    rw [ulp, show Int.log 2 |x| = 52 + (Int.log 2 |x| - 52) by ring, zpow_add₀ (by norm_num)]
    norm_num
  have hbelow : 2 ^ Int.log 2 |x| ≤ x := by
    have hlog := Int.zpow_log_le_self (b := 2) (by norm_num) h
    rw [abs_of_pos h]
    exact_mod_cast hlog
  rw [hsplit] at hbelow ⊢
  have hround := roundHalfEven_mono ((le_div_iff₀ hulp).mpr hbelow)
  rw [roundHalfEven_intCast] at hround
  exact mul_le_mul_of_nonneg_right (by exact_mod_cast hround) hulp.le

theorem roundHalfEven_neg (q : ℚ) : roundHalfEven (-q) = -roundHalfEven q := by
  have hlow := Int.floor_le q
  have hhigh := Int.lt_floor_add_one q
  rcases hlow.eq_or_lt with heq | hlt
  · rw [← heq, ← Int.cast_neg, roundHalfEven_intCast, roundHalfEven_intCast]
  · have hfloor : ⌊-q⌋ = -⌊q⌋ - 1 := by
      rw [Int.floor_eq_iff]
      push_cast
      constructor <;> linarith
    unfold roundHalfEven
    rw [hfloor]
    push_cast
    rcases lt_trichotomy (q - ⌊q⌋) (1 / 2) with h | h | h
    · rw [if_pos h, if_neg (by linarith), if_pos (by linarith)]
      ring
    · rw [if_neg (not_lt.mpr h.ge), if_neg (not_lt.mpr h.le), if_neg (by linarith), if_neg (by linarith)]
      by_cases heven : Even ⌊q⌋
      · rw [if_pos heven, if_neg (by grind)]
        ring
      · rw [if_neg heven, if_pos (by grind)]
        ring
    · rw [if_neg (not_lt.mpr h.le), if_pos h, if_pos (by linarith)]
      ring

theorem nearest_neg (x : ℚ) : nearest (-x) = -nearest x := by
  have hulp : ulp (-x) = ulp x := by rw [ulp, ulp, abs_neg]
  rw [nearest, nearest, hulp, neg_div, roundHalfEven_neg]
  push_cast
  ring

theorem nearest_mono_of_nonneg {x y : ℚ} (hx : 0 ≤ x) (h : x ≤ y) : nearest x ≤ nearest y := by
  rcases hx.eq_or_lt with rfl | hpos
  · rw [nearest_zero]
    exact nearest_nonneg h
  · have hpos' := hpos.trans_le h
    have hlog : Int.log 2 |x| ≤ Int.log 2 |y| := by
      rw [abs_of_pos hpos, abs_of_pos hpos']
      exact Int.log_mono_right hpos h
    rcases hlog.lt_or_eq with hlt | heq
    · calc nearest x ≤ 2 ^ (Int.log 2 |x| + 1) := nearest_le_zpow hpos
        _ ≤ 2 ^ Int.log 2 |y| := zpow_le_zpow_right₀ (by norm_num) hlt
        _ ≤ nearest y := zpow_le_nearest hpos'
    · have hulp : ulp x = ulp y := by rw [ulp, ulp, heq]
      have hround := roundHalfEven_mono (div_le_div_of_nonneg_right h (ulp_pos y).le)
      rw [nearest, nearest, hulp]
      exact mul_le_mul_of_nonneg_right (by exact_mod_cast hround) (ulp_pos y).le

/-- Rounding keeps the order. -/
theorem nearest_mono {x y : ℚ} (h : x ≤ y) : nearest x ≤ nearest y := by
  rcases le_total 0 x with hx | hx
  · exact nearest_mono_of_nonneg hx h
  · have hneg := nearest_nonneg (neg_nonneg.mpr hx)
    rw [nearest_neg] at hneg
    rcases le_total 0 y with hy | hy
    · have hpos := nearest_nonneg hy
      linarith
    · have hflip := nearest_mono_of_nonneg (neg_nonneg.mpr hy) (neg_le_neg h)
      rw [nearest_neg, nearest_neg] at hflip
      linarith

theorem scale_mono {m n : ℤ} {p : ℚ} (h : m ≤ n) (hp : 0 ≤ p) : scale m p ≤ scale n p :=
  nearest_mono (mul_le_mul_of_nonneg_right (nearest_mono (by exact_mod_cast h)) hp)

theorem trunc_mono {x y : ℚ} (h : x ≤ y) : trunc x ≤ trunc y := by
  unfold trunc
  split
  next hx => rw [if_pos (hx.trans h)]; exact Int.floor_mono h
  next hx =>
    split
    next hy => exact (Int.ceil_nonpos.mpr (not_le.mp hx).le).trans (Int.floor_nonneg.mpr hy)
    next => exact Int.ceil_mono h

theorem nearest_pos {x : ℚ} (h : 0 < x) : 0 < nearest x := lt_of_lt_of_le (zpow_pos (by norm_num) _) (zpow_le_nearest h)

theorem nearest_nonpos {x : ℚ} (h : x ≤ 0) : nearest x ≤ 0 := by
  have hmono := nearest_mono h
  rwa [nearest_zero] at hmono

end Double
