/-
  Be300.Lib.Interpolate — linear interpolation between samples, and truncation.

  `linear x p` is the value at the position `p` of the line through the samples on either
  side of it, `truncate` rounds towards zero. `linear_between` gives the value at a fraction
  of a step from its two samples, `truncate_div` truncation as a division of integers.
-/

import Mathlib.Algebra.Order.Floor.Semifield
import Mathlib.Algebra.Order.Floor.Ring
import Mathlib.Data.Rat.Floor
import Mathlib.Tactic.FieldSimp
import Mathlib.Tactic.Ring

namespace Be300.Lib

variable {K : Type} [Field K] [LinearOrder K] [IsStrictOrderedRing K] [FloorRing K]

def linear (x : Nat → K) (p : K) : K := x ⌊p⌋₊ + (x (⌊p⌋₊ + 1) - x ⌊p⌋₊) * Int.fract p

/-- Rounded towards zero. -/
def truncate (a : K) : Int := if 0 ≤ a then ⌊a⌋ else ⌈a⌉

/-- `f` parts of `d` from sample `q` to the next, either of them included. -/
theorem linear_between (x : Nat → K) (q f d : Nat) (hd : 0 < d) (hf : f ≤ d) :
    linear x ((q * d + f : Nat) / d) = (x q * (d - f) + x (q + 1) * f) / d := by
  have hd0 : (d : K) ≠ 0 := Nat.cast_ne_zero.mpr (by omega)
  unfold linear
  rw [Nat.floor_div_eq_div, Int.fract_div_natCast_eq_div_natCast_mod]
  rcases Nat.lt_or_eq_of_le hf with hlt | rfl
  · rw [show (q * d + f) / d = q by
      rw [Nat.add_comm, Nat.add_mul_div_right _ _ hd, Nat.div_eq_of_lt hlt, Nat.zero_add],
      show (q * d + f) % d = f by rw [Nat.add_comm, Nat.add_mul_mod_self_right, Nat.mod_eq_of_lt hlt]]
    field_simp
    ring
  · rw [show (q * f + f) / f = q + 1 by rw [← Nat.succ_mul, Nat.mul_div_cancel _ hd],
      show (q * f + f) % f = 0 by rw [← Nat.succ_mul, Nat.mul_mod_left]]
    rw [Nat.cast_zero, zero_div, mul_zero, add_zero, sub_self, mul_zero, zero_add, mul_div_cancel_right₀ _ hd0]

theorem truncate_div (a : Int) (d : Nat) : truncate ((a : K) / d) = a.tdiv d := by
  have hrat : (a : K) / d = (((a : ℚ) / d : ℚ) : K) := by norm_cast
  have hcast : truncate ((a : K) / d) = truncate ((a : ℚ) / d) := by
    unfold truncate
    rw [hrat, Rat.floor_cast, Rat.ceil_cast]
    exact if_congr Rat.cast_nonneg rfl rfl
  rw [hcast]
  unfold truncate
  rw [Rat.floor_intCast_div_natCast, Rat.ceil_intCast_div_natCast]
  rcases le_or_gt 0 a with ha | ha
  · rw [if_pos (div_nonneg (Int.cast_nonneg ha) (Nat.cast_nonneg d)), Int.tdiv_eq_ediv_of_nonneg ha]
  · rcases Nat.eq_zero_or_pos d with rfl | hd
    · simp
    · have hneg : ¬ (0 : ℚ) ≤ (a : ℚ) / d := not_le.mpr (div_neg_of_neg_of_pos (Int.cast_lt_zero.mpr ha) (Nat.cast_pos.mpr hd))
      rw [if_neg hneg, ← Int.tdiv_eq_ediv_of_nonneg (by omega), Int.neg_tdiv, neg_neg]

end Be300.Lib
