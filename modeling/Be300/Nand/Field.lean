/-
  Be300.Nand.Field — the field the ECC of a page is computed in.

  A number of 10 bits is an element of the ring of binary polynomials modulo 0x409
  (`toGf`); `^^^` adds, `xtime` multiplies by `alpha` and `gmul` multiplies. The powers of
  `alpha` come back to 1 after 1023 steps and no earlier (`orderOf_alpha`), so the ring is
  a field.
-/

import Be300.Nand.Chip
import Be300.Lib.BinaryField

namespace Be300.Nand

open Polynomial
open Lib

/-- The bits of 0x409. -/
noncomputable def eccModulus : (ZMod 2)[X] := X ^ 10 + X ^ 3 + 1

abbrev Gf := AdjoinRoot eccModulus

noncomputable def toGf (n : Nat) : Gf := ofBits eccModulus n

noncomputable def alpha : Gf := AdjoinRoot.root eccModulus

theorem eccModulus_monic : eccModulus.Monic := by
  unfold eccModulus
  monicity!

theorem eccModulus_natDegree : eccModulus.natDegree = 10 := by
  unfold eccModulus
  compute_degree!

theorem eccModulus_degree : eccModulus.degree = (10 : Nat) := by
  rw [degree_eq_natDegree eccModulus_monic.ne_zero, eccModulus_natDegree]

theorem bitsPoly_eccModulus : bitsPoly 0x409 = eccModulus := by
  rw [show 0x409 = 2 ^ 10 ^^^ 2 ^ 3 ^^^ 2 ^ 0 by decide, bitsPoly_xor, bitsPoly_xor, bitsPoly_two_pow, bitsPoly_two_pow,
    bitsPoly_two_pow, pow_zero]
  rfl

@[simp] theorem toGf_zero : toGf 0 = 0 := ofBits_zero _

@[simp] theorem toGf_one : toGf 1 = 1 := ofBits_one _

theorem toGf_xor (a b : Nat) : toGf (a ^^^ b) = toGf a + toGf b := ofBits_xor _ a b

theorem toGf_injOn : Set.InjOn toGf {n | n < 1024} := ofBits_injOn (w := 10) _ eccModulus_monic eccModulus_degree

theorem toGf_xtime (a : Nat) : toGf (xtime a) = alpha * toGf a := by
  have hmodulus : toGf 0x409 = 0 := ofBits_self _ bitsPoly_eccModulus
  have hdouble : toGf (2 * a) = alpha * toGf a := ofBits_two_mul _ a
  unfold xtime
  split
  · rw [toGf_xor, hmodulus, add_zero, hdouble]
  · exact hdouble

/-- The product after `n` bits of `b`, and `a` shifted as often. -/
def gmulLoop (a b n : Nat) : Nat × Nat :=
  (List.range n).foldl (fun (x : Nat × Nat) i => (if b.testBit i then x.1 ^^^ x.2 else x.1, xtime x.2)) (0, a)

theorem gmulLoop_succ (a b n : Nat) :
    gmulLoop a b (n + 1) =
      (if b.testBit n then (gmulLoop a b n).1 ^^^ (gmulLoop a b n).2 else (gmulLoop a b n).1, xtime (gmulLoop a b n).2) := by
  rw [gmulLoop, List.range_succ, List.foldl_append]
  rfl

theorem gmulLoop_spec (a b n : Nat) :
    toGf (gmulLoop a b n).1 = toGf a * toGf (b % 2 ^ n) ∧ toGf (gmulLoop a b n).2 = alpha ^ n * toGf a := by
  induction n with
  | zero => simp [gmulLoop, Nat.mod_one]
  | succ n ih =>
    obtain ⟨hproduct, hshifted⟩ := ih
    have hbit : toGf (b % 2 ^ (n + 1)) = toGf (b % 2 ^ n) + if b.testBit n then alpha ^ n else 0 := ofBits_mod_succ _ b n
    rw [gmulLoop_succ, hbit]
    constructor
    · dsimp only
      split
      · rw [toGf_xor, hproduct, hshifted]
        ring
      · rw [hproduct, add_zero]
    · rw [toGf_xtime, hshifted, pow_succ]
      ring

theorem toGf_gmul (a : Nat) {b : Nat} (hb : b < 1024) : toGf (gmul a b) = toGf a * toGf b := by
  have hspec := (gmulLoop_spec a b 10).1
  rw [Nat.mod_eq_of_lt (show b < 2 ^ 10 from hb)] at hspec
  exact hspec

/-! ## The powers of alpha -/

theorem alpha_pow_add {m n a b : Nat} (ha : alpha ^ m = toGf a) (hb : alpha ^ n = toGf b) (hlt : b < 1024) (k c : Nat)
    (hk : m + n = k) (hc : gmul a b = c) : alpha ^ k = toGf c := by
  rw [← hk, pow_add, ha, hb, ← toGf_gmul a hlt, hc]

theorem toGf_ne_one {c : Nat} (hc : c < 1024) (hne : c ≠ 1) : toGf c ≠ 1 := by
  intro h
  rw [← toGf_one] at h
  exact hne (toGf_injOn hc (show 1 < 1024 by decide) h)

theorem alpha_pow_1 : alpha ^ 1 = toGf 2 := (ofBits_two_pow _ 1).symm

theorem alpha_pow_4 : alpha ^ 4 = toGf 16 := (ofBits_two_pow _ 4).symm

theorem alpha_pow_16 : alpha ^ 16 = toGf 576 := by
  have h8 := alpha_pow_add alpha_pow_4 alpha_pow_4 (by decide) 8 256 (by decide) (by decide)
  exact alpha_pow_add h8 h8 (by decide) 16 576 (by decide) (by decide)

theorem alpha_pow_32 : alpha ^ 32 = toGf 310 := alpha_pow_add alpha_pow_16 alpha_pow_16 (by decide) 32 310 (by decide) (by decide)

theorem alpha_pow_33 : alpha ^ 33 = toGf 620 := alpha_pow_add alpha_pow_32 alpha_pow_1 (by decide) 33 620 (by decide) (by decide)

theorem alpha_pow_64 : alpha ^ 64 = toGf 861 := alpha_pow_add alpha_pow_32 alpha_pow_32 (by decide) 64 861 (by decide) (by decide)

theorem alpha_pow_93 : alpha ^ 93 = toGf 713 := by
  have h8 : alpha ^ 8 = toGf 256 := (ofBits_two_pow _ 8).symm
  have h80 := alpha_pow_add alpha_pow_64 alpha_pow_16 (by decide) 80 24 (by decide) (by decide)
  have h88 := alpha_pow_add h80 h8 (by decide) 88 54 (by decide) (by decide)
  have h92 := alpha_pow_add h88 alpha_pow_4 (by decide) 92 864 (by decide) (by decide)
  exact alpha_pow_add h92 alpha_pow_1 (by decide) 93 713 (by decide) (by decide)

theorem alpha_pow_341 : alpha ^ 341 = toGf 237 := by
  have h128 := alpha_pow_add alpha_pow_64 alpha_pow_64 (by decide) 128 551 (by decide) (by decide)
  have h256 := alpha_pow_add h128 h128 (by decide) 256 270 (by decide) (by decide)
  have h320 := alpha_pow_add h256 alpha_pow_64 (by decide) 320 612 (by decide) (by decide)
  have h336 := alpha_pow_add h320 alpha_pow_16 (by decide) 336 166 (by decide) (by decide)
  have h340 := alpha_pow_add h336 alpha_pow_4 (by decide) 340 626 (by decide) (by decide)
  exact alpha_pow_add h340 alpha_pow_1 (by decide) 341 237 (by decide) (by decide)

theorem alpha_pow_1023 : alpha ^ 1023 = 1 := by
  have h682 := alpha_pow_add alpha_pow_341 alpha_pow_341 (by decide) 682 236 (by decide) (by decide)
  have h1023 := alpha_pow_add h682 alpha_pow_341 (by decide) 1023 1 (by decide) (by decide)
  rw [toGf_one] at h1023
  exact h1023

theorem orderOf_alpha : orderOf alpha = 1023 := by
  apply orderOf_eq_of_pow_and_pow_div_prime (show 0 < 1023 by decide) alpha_pow_1023
  intro p hp hdvd
  have hfactor : (p ∣ 3 ∨ p ∣ 11) ∨ p ∣ 31 := by
    rw [show 1023 = 3 * 11 * 31 by decide, hp.dvd_mul, hp.dvd_mul] at hdvd
    exact hdvd
  -- 341, 93 and 33
  rcases hfactor with (h | h) | h
  · rw [(Nat.prime_dvd_prime_iff_eq hp (by decide)).mp h, alpha_pow_341]
    exact toGf_ne_one (by decide) (by decide)
  · rw [(Nat.prime_dvd_prime_iff_eq hp (by decide)).mp h, alpha_pow_93]
    exact toGf_ne_one (by decide) (by decide)
  · rw [(Nat.prime_dvd_prime_iff_eq hp (by decide)).mp h, alpha_pow_33]
    exact toGf_ne_one (by decide) (by decide)

theorem gf_isField : IsField Gf := by
  have hnontrivial : Nontrivial Gf := ⟨0, 1, fun h => by
    rw [← toGf_zero, ← toGf_one] at h
    exact absurd (toGf_injOn (show 0 < 1024 by decide) (show 1 < 1024 by decide) h) (by decide)⟩
  exact isField_of_orderOf (natCard_adjoinRoot _ eccModulus_monic eccModulus_natDegree) orderOf_alpha

noncomputable instance : Field Gf := gf_isField.toField

theorem gf_add_self (x : Gf) : x + x = 0 := by
  have htwo : (2 : (ZMod 2)[X]) = 0 := by
    have hzmod : (2 : ZMod 2) = 0 := by decide
    rw [← C_ofNat, hzmod, C_0]
  have hgf := congrArg (AdjoinRoot.mk eccModulus) htwo
  rw [map_ofNat, map_zero] at hgf
  rw [← two_mul, hgf, zero_mul]

theorem alpha_injOn : Set.InjOn (alpha ^ ·) (Set.Iio 1023) := by
  have hinj := pow_injOn_Iio_orderOf (x := alpha)
  rw [orderOf_alpha] at hinj
  exact hinj

end Be300.Nand
