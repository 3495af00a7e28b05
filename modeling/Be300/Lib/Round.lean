/-
  Be300.Lib.Round — the nearest natural number of `p` significant bits, ties to even.

  Numbers below `2 ^ p` are left alone. Rounding is monotone and less than doubles.
-/

import Mathlib.Data.Nat.Log
import Mathlib.Tactic.Common
import Mathlib.Algebra.Ring.Nat
import Mathlib.Algebra.Ring.Int.Defs

namespace Be300.Lib.Round

variable {p e m n : Nat}

/-- The nearest multiple of `2 ^ e`. -/
def roundAt (e n : Nat) : Nat :=
  if 2 ^ e < 2 * (n % 2 ^ e) ∨ 2 ^ e = 2 * (n % 2 ^ e) ∧ n / 2 ^ e % 2 = 1 then (n / 2 ^ e + 1) * 2 ^ e else n / 2 ^ e * 2 ^ e

/-- The bits that are rounded off. -/
def cut (p n : Nat) : Nat := Nat.log 2 n + 1 - p

def round (p n : Nat) : Nat := roundAt (cut p n) n

theorem cut_mono (h : m ≤ n) : cut p m ≤ cut p n := by
  have hlog : Nat.log 2 m ≤ Nat.log 2 n := Nat.log_mono_right h
  unfold cut
  omega

theorem round_of_lt (hp : 0 < p) (h : n < 2 ^ p) : round p n = n := by
  have hcut : cut p n = 0 := by
    unfold cut
    rcases Nat.eq_zero_or_pos n with rfl | hpos
    · rw [Nat.log_zero_right]
      omega
    · have hlog := Nat.log_lt_of_lt_pow (by omega) h
      omega
  unfold round roundAt
  rw [hcut, if_neg (by omega)]
  omega

theorem roundAt_bounds (e n : Nat) : n / 2 ^ e * 2 ^ e ≤ roundAt e n ∧ roundAt e n ≤ (n / 2 ^ e + 1) * 2 ^ e := by
  unfold roundAt
  split
  · exact ⟨Nat.mul_le_mul_right _ (Nat.le_succ _), Nat.le_refl _⟩
  · exact ⟨Nat.le_refl _, Nat.mul_le_mul_right _ (Nat.le_succ _)⟩

theorem roundAt_mono (h : m ≤ n) : roundAt e m ≤ roundAt e n := by
  rcases Nat.lt_or_eq_of_le (Nat.div_le_div_right (c := 2 ^ e) h) with hlt | heq
  · calc roundAt e m ≤ (m / 2 ^ e + 1) * 2 ^ e := (roundAt_bounds e m).2
      _ ≤ n / 2 ^ e * 2 ^ e := Nat.mul_le_mul_right _ hlt
      _ ≤ roundAt e n := (roundAt_bounds e n).1
  · have hm := Nat.div_add_mod m (2 ^ e)
    have hn := Nat.div_add_mod n (2 ^ e)
    rw [heq] at hm
    have hmod : m % 2 ^ e ≤ n % 2 ^ e := by omega
    unfold roundAt
    rw [heq]
    split
    · rename_i hup
      rw [if_pos]
      omega
    · split
      · exact Nat.mul_le_mul_right _ (Nat.le_succ _)
      · exact Nat.le_refl _

theorem pow_cut_le (hp : 0 < p) (hn : n ≠ 0) : 2 ^ cut p n ≤ n := by
  have hpow := Nat.pow_log_le_self 2 hn
  refine Nat.le_trans (Nat.pow_le_pow_right (by omega) ?_) hpow
  unfold cut
  omega

theorem round_lt_double (hp : 0 < p) (n : Nat) : round p n ≤ 2 * n := by
  rcases Nat.eq_zero_or_pos n with rfl | hpos
  · rw [round_of_lt hp (Nat.pow_pos (by omega))]
  · have hup : round p n ≤ (n / 2 ^ cut p n + 1) * 2 ^ cut p n := (roundAt_bounds _ n).2
    have hcut : 2 ^ cut p n ≤ n := pow_cut_le hp (by omega)
    have hfloor := Nat.div_mul_le_self n (2 ^ cut p n)
    rw [Nat.add_mul, Nat.one_mul] at hup
    omega

theorem round_mono (hp : 0 < p) (h : m ≤ n) : round p m ≤ round p n := by
  rcases Nat.eq_zero_or_pos m with rfl | hpos
  · rw [round_of_lt hp (Nat.pow_pos (by omega))]
    exact Nat.zero_le _
  rcases Nat.lt_or_eq_of_le (cut_mono (p := p) h) with hlt | heq
  · -- the power of two between them is kept by both
    have hlog : Nat.log 2 m < Nat.log 2 n := by
      unfold cut at hlt
      omega
    have hm : m < 2 ^ (Nat.log 2 m + 1) := Nat.lt_pow_succ_log_self (by omega) m
    have hn : 2 ^ Nat.log 2 n ≤ n := Nat.pow_log_le_self 2 (by omega)
    have hbelow : round p m ≤ 2 ^ (Nat.log 2 m + 1) := by
      have hdvd : 2 ^ cut p m ∣ 2 ^ (Nat.log 2 m + 1) := Nat.pow_dvd_pow 2 (by unfold cut; omega)
      have hq : m / 2 ^ cut p m < 2 ^ (Nat.log 2 m + 1) / 2 ^ cut p m :=
        Nat.div_lt_div_of_lt_of_dvd hdvd hm
      calc round p m ≤ (m / 2 ^ cut p m + 1) * 2 ^ cut p m := (roundAt_bounds _ m).2
        _ ≤ 2 ^ (Nat.log 2 m + 1) / 2 ^ cut p m * 2 ^ cut p m := Nat.mul_le_mul_right _ hq
        _ = 2 ^ (Nat.log 2 m + 1) := Nat.div_mul_cancel hdvd
    have habove : 2 ^ Nat.log 2 n ≤ round p n := by
      have hdvd : 2 ^ cut p n ∣ 2 ^ Nat.log 2 n := Nat.pow_dvd_pow 2 (by unfold cut; omega)
      calc 2 ^ Nat.log 2 n = 2 ^ Nat.log 2 n / 2 ^ cut p n * 2 ^ cut p n := (Nat.div_mul_cancel hdvd).symm
        _ ≤ n / 2 ^ cut p n * 2 ^ cut p n := Nat.mul_le_mul_right _ (Nat.div_le_div_right hn)
        _ ≤ round p n := (roundAt_bounds _ n).1
    exact Nat.le_trans hbelow (Nat.le_trans (Nat.pow_le_pow_right (by omega) hlog) habove)
  · unfold round
    rw [heq]
    exact roundAt_mono h

end Be300.Lib.Round
