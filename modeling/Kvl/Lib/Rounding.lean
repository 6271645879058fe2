import Mathlib.Algebra.Order.Floor.Ring
import Mathlib.Tactic.Linarith
import Mathlib.Tactic.Ring

/-!
# Rounding to the nearest integer

Two ways of breaking ties, and what any rounding to a nearest integer does to a scaled value: the
error is half of the scale, and a value inside of an integer range stays inside.
-/

namespace Kvl.Rounding

set_option autoImplicit false

variable {K : Type*} [Field K] [LinearOrder K] [FloorRing K]

/-- To the nearest integer, ties to the even one. -/
def halfEven (x : K) : Int :=
  if x - ⌊x⌋ < 1 / 2 then ⌊x⌋
  else if 1 / 2 < x - ⌊x⌋ then ⌊x⌋ + 1
  else if ⌊x⌋ % 2 = 0 then ⌊x⌋ else ⌊x⌋ + 1

/-- To the nearest integer, ties away from zero. -/
def halfAway (x : K) : Int := if 0 ≤ x then ⌊x + 1 / 2⌋ else -⌊-x + 1 / 2⌋

variable [IsStrictOrderedRing K] {x w s : K} {r : Int}

theorem halfEven_near (x : K) : |x - (halfEven x : K)| ≤ 1 / 2 := by
  have hlo := Int.floor_le x
  have hhi := Int.lt_floor_add_one x
  unfold halfEven
  split_ifs <;> push_cast <;> rw [abs_le] <;> constructor <;> linarith

theorem floor_add_half_near (x : K) : |x - (⌊x + 1 / 2⌋ : K)| ≤ 1 / 2 := by
  have hlo := Int.floor_le (x + 1 / 2)
  have hhi := Int.lt_floor_add_one (x + 1 / 2)
  rw [abs_le]
  constructor <;> linarith

theorem halfAway_near (x : K) : |x - (halfAway x : K)| ≤ 1 / 2 := by
  unfold halfAway
  split
  · exact floor_add_half_near x
  · have h := floor_add_half_near (-x)
    push_cast
    rwa [sub_neg_eq_add, ← abs_neg, neg_add, ← sub_eq_add_neg]

omit [FloorRing K] in
/-- A value of at most `n` rounds to at most `n`. -/
theorem near_le {n : Nat} (h : |x - (r : K)| ≤ 1 / 2) (hx : |x| ≤ (n : K)) :
    -(n : Int) ≤ r ∧ r ≤ n := by
  rw [abs_le] at h hx
  constructor
  · have hlt : -((n : Int) : K) - 1 < (r : K) := by push_cast; linarith
    have : -(n : Int) - 1 < r := by exact_mod_cast hlt
    omega
  · have hlt : (r : K) < ((n : Int) : K) + 1 := by push_cast; linarith
    have : r < (n : Int) + 1 := by exact_mod_cast hlt
    omega

omit [FloorRing K] in
theorem near_error (hs : 0 < s) (h : |w / s - (r : K)| ≤ 1 / 2) : |w - (r : K) * s| ≤ s / 2 := by
  have hscaled : w - (r : K) * s = (w / s - (r : K)) * s := by
    rw [sub_mul, div_mul_cancel₀ w hs.ne']
  rw [hscaled, abs_mul, abs_of_pos hs]
  calc |w / s - (r : K)| * s ≤ 1 / 2 * s := mul_le_mul_of_nonneg_right h hs.le
    _ = s / 2 := by ring

omit [FloorRing K] in
/-- Divided by its share of a bound, a value is at most the number of shares. -/
theorem abs_div_le {m : K} {n : Nat} (hm : 0 < m) (hn : 0 < n) (hw : |w| ≤ m) :
    |w / (m / n)| ≤ (n : K) := by
  have hn' : (0 : K) < n := by exact_mod_cast hn
  rw [abs_div, abs_of_pos (div_pos hm hn'), div_le_iff₀ (div_pos hm hn'),
    mul_div_cancel₀ m hn'.ne']
  exact hw

end Kvl.Rounding
