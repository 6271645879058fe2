import Kvl.Lib.CNumber
import Kvl.Lib.Rounding
import Mathlib

/-!
# Binary floating-point formats

Rounding to the nearest number with so many binary digits, as exact fractions. No exponent is too
large here, so what overflows a format keeps its value.
-/

namespace Kvl.BinaryFormat

set_option autoImplicit false

open CText (TextNumber)
open Rounding (halfEven halfEven_near)

/-- The exponent of the last of `digits` binary digits, at least `least`. -/
def lastPlace (digits : Nat) (least : Int) (q : ℚ) : Int := max (Int.log 2 q - digits + 1) least

def roundTo (digits : Nat) (least : Int) (q : ℚ) : ℚ :=
  halfEven (q / 2 ^ lastPlace digits least q) * 2 ^ lastPlace digits least q

/-- What a number read from a text is in a format; `none` is no finite number. -/
def toFormat (digits : Nat) (least : Int) : TextNumber → Option ℚ
  | .finite neg q => some (if neg then -roundTo digits least q else roundTo digits least q)
  | .infinity _ => none
  | .nan => none

theorem lastPlace_le {digits : Nat} {least : Int} (hdigits : 1 ≤ digits) (hleast : least ≤ 0) {q : ℚ}
    (hq : 0 ≤ q) (h : q ≤ 1) : lastPlace digits least q ≤ 0 := by
  have hlog : Int.log 2 q ≤ 0 := by
    rcases hq.eq_or_lt with rfl | hpos
    · rw [Int.log_zero_right]
    · have hmono := Int.log_mono_right (b := 2) hpos h
      rwa [Int.log_one_right] at hmono
  unfold lastPlace
  omega

/-- A number of the unit interval stays in it. -/
theorem roundTo_mem {digits : Nat} {least : Int} (hdigits : 1 ≤ digits) (hleast : least ≤ 0) {q : ℚ}
    (hq : 0 ≤ q) (h : q ≤ 1) : 0 ≤ roundTo digits least q ∧ roundTo digits least q ≤ 1 := by
  obtain ⟨n, hn⟩ := Int.eq_ofNat_of_zero_le
    (Int.neg_nonneg.mpr (lastPlace_le hdigits hleast hq h))
  have hplace : lastPlace digits least q = -(n : Int) := by omega
  have hpow : (0 : ℚ) < 2 ^ n := by positivity
  unfold roundTo
  rw [hplace, zpow_neg, zpow_natCast, div_inv_eq_mul]
  have hnear := abs_le.mp (halfEven_near (q * 2 ^ n))
  have hscaled : 0 ≤ q * 2 ^ n := mul_nonneg hq hpow.le
  have hlo : (0 : Int) ≤ halfEven (q * 2 ^ n) := by
    have : ((-1 : Int) : ℚ) < halfEven (q * 2 ^ n) := by push_cast; linarith
    have := Int.cast_lt.mp this
    omega
  have hhi : halfEven (q * 2 ^ n) ≤ 2 ^ n := by
    have hle : q * 2 ^ n ≤ 2 ^ n := by nlinarith
    have : (halfEven (q * 2 ^ n) : ℚ) < ((2 ^ n + 1 : Int) : ℚ) := by push_cast; linarith
    have := Int.cast_lt.mp this
    omega
  constructor
  · exact mul_nonneg (Int.cast_nonneg hlo) (inv_nonneg.mpr hpow.le)
  · rw [← div_eq_mul_inv, div_le_one hpow]
    exact_mod_cast hhi

theorem roundTo_zero (digits : Nat) (least : Int) : roundTo digits least 0 = 0 := by
  have hzero : halfEven (0 : ℚ) = 0 := by
    unfold halfEven
    rw [Int.floor_zero, Int.cast_zero, sub_zero, if_pos (by norm_num)]
  rw [roundTo, zero_div, hzero, Int.cast_zero, zero_mul]

/-- One is a number of every format that reaches down to its last place. -/
theorem roundTo_one {digits : Nat} {least : Int} (hdigits : 1 ≤ digits)
    (hleast : least ≤ 1 - digits) : roundTo digits least 1 = 1 := by
  obtain ⟨n, rfl⟩ := Nat.exists_eq_add_of_le' hdigits
  have hplace : lastPlace (n + 1) least 1 = -(n : Int) := by
    rw [lastPlace, Int.log_one_right]
    push_cast at hleast ⊢
    omega
  have hpow : (2 : ℚ) ^ n ≠ 0 := by positivity
  have hhalf : halfEven ((2 : ℚ) ^ n) = 2 ^ n := by
    have hcast : (2 : ℚ) ^ n = ((2 ^ n : Int) : ℚ) := by push_cast; rfl
    rw [hcast]
    unfold halfEven
    rw [Int.floor_intCast, sub_self, if_pos (by norm_num)]
  rw [roundTo, hplace, zpow_neg, zpow_natCast, one_div, inv_inv, hhalf]
  push_cast
  exact mul_inv_cancel₀ hpow

end Kvl.BinaryFormat
