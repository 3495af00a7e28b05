/-
  Be300.Lib.BinaryField — numbers as elements of a ring of polynomials over two elements.

  `bitsPoly n` has the bits of `n` for coefficients, so `^^^` is addition and doubling is
  multiplication by `X`. In the quotient by a polynomial of degree `w` the numbers below
  2^w are different elements (`ofBits_injOn`). Where some element's powers are all the
  elements but 0 (`isField_of_orderOf`), the ring is a field.
-/

import Mathlib.Algebra.CharP.Two
import Mathlib.Algebra.Field.IsField
import Mathlib.Algebra.Field.ZMod
import Mathlib.Data.Nat.Bitwise
import Mathlib.Data.ZMod.Basic
import Mathlib.FieldTheory.Finiteness
import Mathlib.GroupTheory.OrderOfElement
import Mathlib.RingTheory.AdjoinRoot

namespace Be300.Lib

open Polynomial

noncomputable def bitsPoly (n : Nat) : (ZMod 2)[X] := if n = 0 then 0 else C (n : ZMod 2) + X * bitsPoly (n / 2)

theorem bitsPoly_eq (n : Nat) : bitsPoly n = C (n : ZMod 2) + X * bitsPoly (n / 2) := by
  rcases eq_or_ne n 0 with rfl | hn
  · have hzero : bitsPoly 0 = 0 := by
      rw [bitsPoly, if_pos rfl]
    simp [hzero]
  · rw [bitsPoly, if_neg hn]

theorem coeff_bitsPoly (n i : Nat) : (bitsPoly n).coeff i = if n.testBit i then 1 else 0 := by
  induction i generalizing n with
  | zero =>
    rw [bitsPoly_eq, coeff_add, coeff_C_zero, coeff_X_mul_zero, add_zero, Nat.testBit_zero]
    rcases Nat.mod_two_eq_zero_or_one n with h | h
    · rw [← ZMod.natCast_mod n 2, h]
      rfl
    · rw [← ZMod.natCast_mod n 2, h]
      rfl
  | succ i ih =>
    rw [bitsPoly_eq, coeff_add, coeff_C_succ, coeff_X_mul, zero_add, ih, Nat.testBit_succ]

theorem bitsPoly_xor (a b : Nat) : bitsPoly (a ^^^ b) = bitsPoly a + bitsPoly b := by
  ext i
  rw [coeff_add, coeff_bitsPoly, coeff_bitsPoly, coeff_bitsPoly, Nat.testBit_xor]
  cases a.testBit i <;> cases b.testBit i <;> decide

theorem bitsPoly_two_mul (n : Nat) : bitsPoly (2 * n) = X * bitsPoly n := by
  have hcast : ((2 * n : Nat) : ZMod 2) = 0 := by
    rw [← ZMod.natCast_mod, Nat.mul_mod_right]
    rfl
  rw [bitsPoly_eq, hcast, map_zero, zero_add, Nat.mul_div_cancel_left n (Nat.succ_pos 1)]

theorem bitsPoly_two_pow (k : Nat) : bitsPoly (2 ^ k) = X ^ k := by
  ext i
  rw [coeff_bitsPoly, coeff_X_pow, Nat.testBit_two_pow]
  rcases eq_or_ne k i with h | h
  · simp [h]
  · simp [h, Ne.symm h]

theorem degree_bitsPoly_lt {n w : Nat} (h : n < 2 ^ w) : (bitsPoly n).degree < w := by
  rw [degree_lt_iff_coeff_zero]
  intro i hi
  have hbit : n.testBit i = false := Nat.testBit_lt_two_pow (lt_of_lt_of_le h (Nat.pow_le_pow_right (Nat.succ_pos 1) hi))
  rw [coeff_bitsPoly, hbit]
  rfl

theorem bitsPoly_injective : Function.Injective bitsPoly := by
  intro a b h
  apply Nat.eq_of_testBit_eq
  intro i
  have hcoeff := congrArg (fun p : (ZMod 2)[X] => p.coeff i) h
  simp only [coeff_bitsPoly] at hcoeff
  cases ha : a.testBit i <;> cases hb : b.testBit i <;> simp_all

section Quotient

variable (f : (ZMod 2)[X])

noncomputable def ofBits (n : Nat) : AdjoinRoot f := AdjoinRoot.mk f (bitsPoly n)

theorem ofBits_zero : ofBits f 0 = 0 := by
  rw [ofBits, bitsPoly, if_pos rfl, map_zero]

theorem ofBits_one : ofBits f 1 = 1 := by
  have hpoly : bitsPoly (2 ^ 0) = X ^ 0 := bitsPoly_two_pow 0
  rw [pow_zero, pow_zero] at hpoly
  rw [ofBits, hpoly, map_one]

theorem ofBits_xor (a b : Nat) : ofBits f (a ^^^ b) = ofBits f a + ofBits f b := by
  rw [ofBits, bitsPoly_xor, map_add]
  rfl

theorem ofBits_two_mul (n : Nat) : ofBits f (2 * n) = AdjoinRoot.root f * ofBits f n := by
  rw [ofBits, bitsPoly_two_mul, map_mul, AdjoinRoot.mk_X]
  rfl

theorem ofBits_two_pow (k : Nat) : ofBits f (2 ^ k) = AdjoinRoot.root f ^ k := by
  rw [ofBits, bitsPoly_two_pow, map_pow, AdjoinRoot.mk_X]

/-- One more bit of a number. -/
theorem ofBits_mod_succ (b n : Nat) :
    ofBits f (b % 2 ^ (n + 1)) = ofBits f (b % 2 ^ n) + if b.testBit n then AdjoinRoot.root f ^ n else 0 := by
  have hbits : b % 2 ^ (n + 1) = b % 2 ^ n ^^^ if b.testBit n then 2 ^ n else 0 := by
    apply Nat.eq_of_testBit_eq
    intro i
    rw [Nat.testBit_xor, Nat.testBit_mod_two_pow, Nat.testBit_mod_two_pow]
    rcases lt_trichotomy i n with hi | rfl | hi
    · have hne : n ≠ i := by omega
      cases hn : b.testBit n <;> simp [hi, Nat.lt_succ_of_lt hi, hne]
    · cases hn : b.testBit i <;> simp
    · have hne : n ≠ i := by omega
      have hn1 : ¬ i < n + 1 := by omega
      have hn2 : ¬ i < n := by omega
      cases hn : b.testBit n <;> simp [hn1, hn2, hne]
  rw [hbits, ofBits_xor]
  split
  · rw [ofBits_two_pow]
  · rw [ofBits_zero]

theorem ofBits_self {n : Nat} (h : bitsPoly n = f) : ofBits f n = 0 := by
  rw [ofBits, h, AdjoinRoot.mk_self]

theorem ofBits_injOn {w : Nat} (hf : f.Monic) (hdegree : f.degree = w) : Set.InjOn (ofBits f) {n | n < 2 ^ w} := by
  intro a ha b hb h
  apply bitsPoly_injective
  have hdvd : f ∣ bitsPoly a - bitsPoly b := AdjoinRoot.mk_eq_mk.mp h
  by_contra hne
  have hlt : (bitsPoly a - bitsPoly b).degree < f.degree := by
    rw [hdegree]
    exact lt_of_le_of_lt (degree_sub_le _ _) (max_lt (degree_bitsPoly_lt ha) (degree_bitsPoly_lt hb))
  exact hf.not_dvd_of_degree_lt (sub_ne_zero.mpr hne) hlt hdvd

theorem natCard_adjoinRoot {w : Nat} (hf : f.Monic) (hdegree : f.natDegree = w) : Nat.card (AdjoinRoot f) = 2 ^ w := by
  have hfinite : Module.Finite (ZMod 2) (AdjoinRoot f) := (AdjoinRoot.powerBasis' hf).finite
  have hrank : Module.finrank (ZMod 2) (AdjoinRoot f) = w := by
    rw [(AdjoinRoot.powerBasis' hf).finrank]
    exact hdegree
  rw [Module.natCard_eq_pow_finrank (K := ZMod 2), hrank, Nat.card_zmod]

end Quotient

/-- An element with as many powers as there are elements but 0. -/
theorem isField_of_orderOf {R : Type*} [CommRing R] [Nontrivial R] {a : R} {n : Nat} (hcard : Nat.card R = n + 1)
    (ha : orderOf a = n) : IsField R := by
  classical
  have hfinite : Finite R := Nat.finite_of_card_ne_zero (by omega)
  have hfintype : Fintype R := Fintype.ofFinite R
  have hone : a ^ n = 1 := by
    rw [← ha]
    exact pow_orderOf_eq_one a
  have hunit : ∀ i < n, a ^ i * a ^ (n - i) = 1 := by
    intro i hi
    rw [← pow_add, Nat.add_sub_cancel' (Nat.le_of_lt hi), hone]
  have hpowers : (Finset.range n).image (a ^ ·) = Finset.univ.erase 0 := by
    apply Finset.eq_of_subset_of_card_le
    · intro x hx
      obtain ⟨i, hi, rfl⟩ := Finset.mem_image.mp hx
      refine Finset.mem_erase.mpr ⟨?_, Finset.mem_univ _⟩
      exact left_ne_zero_of_mul_eq_one (hunit i (Finset.mem_range.mp hi))
    · have hinj : Set.InjOn (a ^ ·) (Finset.range n : Set Nat) := by
        intro i hi j hj h
        rw [Finset.coe_range, Set.mem_Iio, ← ha] at hi hj
        exact pow_injOn_Iio_orderOf hi hj h
      rw [Finset.card_image_of_injOn hinj, Finset.card_range, Finset.card_erase_of_mem (Finset.mem_univ _), Finset.card_univ,
        ← Nat.card_eq_fintype_card, hcard, Nat.add_sub_cancel]
  refine ⟨exists_pair_ne R, mul_comm, ?_⟩
  intro x hx
  have hmem : x ∈ (Finset.range n).image (a ^ ·) := by
    rw [hpowers]
    exact Finset.mem_erase.mpr ⟨hx, Finset.mem_univ _⟩
  obtain ⟨i, hi, rfl⟩ := Finset.mem_image.mp hmem
  exact ⟨a ^ (n - i), hunit i (Finset.mem_range.mp hi)⟩

end Be300.Lib
