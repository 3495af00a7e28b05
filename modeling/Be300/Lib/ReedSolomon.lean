/-
  Be300.Lib.ReedSolomon — words checked at the powers of an element of a field.

  A word is a list of symbols, the first one the coefficient of the highest power. Its
  parity is what is left of the message, moved up by `t`, modulo the polynomial with the
  roots `α ^ 0` to `α ^ (t - 1)`.

  - `register_eq`: a shift register that takes the symbols one by one holds the remainder.
  - `vanishes_iff_parity`: a word vanishes at the roots exactly if its last `t` symbols are
    the parity of the others.
  - `eq_of_differ_le`: two such words that differ in at most `t` symbols are one word.
-/

import Mathlib.Algebra.Polynomial.Degree.Support
import Mathlib.Algebra.Polynomial.RingDivision
import Mathlib.LinearAlgebra.Vandermonde

namespace Be300.Lib.ReedSolomon

open Polynomial

variable {F : Type*} [Field F]

noncomputable def poly : List F → F[X]
  | [] => 0
  | a :: l => C a * X ^ l.length + poly l

/-- The symbols two words differ in. -/
def differ {α : Type*} [DecidableEq α] (l m : List α) : Nat := (l.zip m).countP fun x => x.1 ≠ x.2

noncomputable def generatorPoly (α : F) (t : Nat) : F[X] := ∏ k ∈ Finset.range t, (X - C (α ^ k))

/-- The word is 0 at the roots. -/
def Vanishes (α : F) (t : Nat) (l : List F) : Prop := ∀ k < t, (poly l).eval (α ^ k) = 0

section Poly

theorem poly_append (l m : List F) : poly (l ++ m) = poly l * X ^ m.length + poly m := by
  induction l with
  | nil => simp [poly]
  | cons a l ih =>
    rw [List.cons_append, poly, poly, ih, List.length_append, pow_add]
    ring

theorem poly_concat (l : List F) (a : F) : poly (l ++ [a]) = X * poly l + C a := by
  rw [poly_append]
  simp [poly, mul_comm]

theorem degree_poly_lt (l : List F) : (poly l).degree < l.length := by
  induction l with
  | nil => simp [poly]
  | cons a l ih =>
    refine lt_of_le_of_lt (degree_add_le _ _) (max_lt ?_ ?_)
    · refine lt_of_le_of_lt (degree_C_mul_X_pow_le _ _) ?_
      rw [List.length_cons]
      exact_mod_cast Nat.lt_succ_self _
    · refine lt_trans ih ?_
      rw [List.length_cons]
      exact_mod_cast Nat.lt_succ_self _

theorem poly_injective {l m : List F} (hlength : l.length = m.length) (h : poly l = poly m) : l = m := by
  induction l generalizing m with
  | nil => exact (List.length_eq_zero_iff.mp hlength.symm).symm
  | cons a l ih =>
    cases m with
    | nil => cases hlength
    | cons b m =>
      have hrest : l.length = m.length := Nat.succ.inj hlength
      have hhead : ∀ (c : F) (k : List F), (poly (c :: k)).coeff k.length = c := by
        intro c k
        rw [poly, coeff_add, coeff_C_mul_X_pow, if_pos rfl, coeff_eq_zero_of_degree_lt (degree_poly_lt k), add_zero]
      have hab : a = b := by
        rw [← hhead a l, h, hrest, hhead b m]
      subst hab
      rw [poly, poly, hrest] at h
      rw [ih hrest (add_left_cancel h)]

theorem poly_zipWith_add {l m : List F} (hlength : l.length = m.length) : poly (List.zipWith (· + ·) l m) = poly l + poly m := by
  induction l generalizing m with
  | nil =>
    cases m with
    | nil => simp [poly]
    | cons b m => cases hlength
  | cons a l ih =>
    cases m with
    | nil => cases hlength
    | cons b m =>
      have hrest : l.length = m.length := Nat.succ.inj hlength
      rw [List.zipWith_cons_cons, poly, poly, poly, ih hrest, List.length_zipWith, ← hrest, Nat.min_self, C_add]
      ring

/-- Symbols that are mapped differ nowhere else. -/
theorem differ_map_le {α β : Type*} [DecidableEq α] [DecidableEq β] (f : α → β) (l m : List α) :
    differ (l.map f) (m.map f) ≤ differ l m := by
  unfold differ
  rw [List.zip_map, List.countP_map]
  apply List.countP_mono_left
  intro x _ hx
  simp only [Function.comp_apply, Prod.map_fst, Prod.map_snd, ne_eq, decide_eq_true_eq] at hx ⊢
  exact fun h => hx (congrArg f h)

/-- Words that differ in few symbols differ by few powers. -/
theorem card_support_sub_le [DecidableEq F] {l m : List F} (hlength : l.length = m.length) :
    (poly l - poly m).support.card ≤ differ l m := by
  induction l generalizing m with
  | nil =>
    cases m with
    | nil => simp [poly]
    | cons b m => cases hlength
  | cons a l ih =>
    cases m with
    | nil => cases hlength
    | cons b m =>
      have hrest : l.length = m.length := Nat.succ.inj hlength
      have hsplit : poly (a :: l) - poly (b :: m) = C (a - b) * X ^ l.length + (poly l - poly m) := by
        rw [poly, poly, hrest, C_sub]
        ring
      have hih := ih hrest
      have hcount : differ (a :: l) (b :: m) = differ l m + if a ≠ b then 1 else 0 := by
        simp [differ, List.countP_cons]
      rw [hcount, hsplit]
      by_cases hab : a = b
      · rw [hab, sub_self, C_0, zero_mul, zero_add]
        omega
      · have hunion := (Finset.card_le_card (support_add (p := C (a - b) * X ^ l.length) (q := poly l - poly m))).trans
          (Finset.card_union_le _ _)
        have hone := card_support_C_mul_X_pow_le_one (c := a - b) (n := l.length)
        rw [if_pos hab]
        omega

end Poly

section Roots

variable {α : F} {t : Nat}

theorem generatorPoly_monic (α : F) (t : Nat) :
    (generatorPoly α t).Monic := monic_prod_of_monic _ _ fun k _ => monic_X_sub_C (α ^ k)

theorem generatorPoly_degree (α : F) (t : Nat) : (generatorPoly α t).degree = t := by
  rw [generatorPoly, degree_prod, Finset.sum_congr rfl fun k _ => degree_X_sub_C (α ^ k), Finset.sum_const, Finset.card_range,
    nsmul_one]

theorem generatorPoly_eval {k : Nat} (hk : k < t) : (generatorPoly α t).eval (α ^ k) = 0 := by
  rw [generatorPoly, eval_prod]
  apply Finset.prod_eq_zero (Finset.mem_range.mpr hk)
  rw [eval_sub, eval_X, eval_C, sub_self]

/-- A polynomial with the roots is a multiple of the generator. -/
theorem generatorPoly_dvd {p : F[X]} (hα : Set.InjOn (α ^ ·) (Set.Iio t)) (h : ∀ k < t, p.eval (α ^ k) = 0) :
    generatorPoly α t ∣ p := by
  apply Finset.prod_dvd_of_coprime
  · intro i hi j hj hij
    rw [Finset.coe_range] at hi hj
    exact isCoprime_X_sub_C_of_isUnit_sub (sub_ne_zero.mpr fun h => hij (hα hi hj h)).isUnit
  · intro k hk
    exact dvd_iff_isRoot.mpr (h k (Finset.mem_range.mp hk))

/-- The remainder has the values of what it is left of. -/
theorem eval_mod {p : F[X]} {k : Nat} (hk : k < t) : (p %ₘ generatorPoly α t).eval (α ^ k) = p.eval (α ^ k) := by
  have hdiv := congrArg (eval (α ^ k)) (modByMonic_add_div p (generatorPoly α t))
  rw [eval_add, eval_mul, generatorPoly_eval hk, zero_mul, add_zero] at hdiv
  exact hdiv

theorem vanishes_iff_parity {message parity : List F} (hα : Set.InjOn (α ^ ·) (Set.Iio t)) (hparity : parity.length = t) :
    Vanishes α t (message ++ parity) ↔ poly parity = -(poly message * X ^ t %ₘ generatorPoly α t) := by
  have hword : poly (message ++ parity) = poly message * X ^ t + poly parity := by
    rw [poly_append, hparity]
  constructor
  · intro h
    have hdvd : generatorPoly α t ∣ poly message * X ^ t + poly parity := by
      apply generatorPoly_dvd hα
      intro k hk
      rw [← hword]
      exact h k hk
    have hzero := (modByMonic_eq_zero_iff_dvd (generatorPoly_monic α t)).mpr hdvd
    have hself : poly parity %ₘ generatorPoly α t = poly parity := by
      apply (modByMonic_eq_self_iff (generatorPoly_monic α t)).mpr
      rw [generatorPoly_degree, ← hparity]
      exact degree_poly_lt parity
    rw [add_modByMonic, hself] at hzero
    exact eq_neg_of_add_eq_zero_right hzero
  · intro h k hk
    rw [hword, h, eval_add, eval_neg, eval_mod hk, add_neg_cancel]

/-- A polynomial with the roots has no few powers. -/
theorem eq_zero_of_card_support_le {p : F[X]} {n : Nat} (hα : Set.InjOn (α ^ ·) (Set.Iio n)) (hdegree : p.degree < n)
    (hcard : p.support.card ≤ t) (h : ∀ k < t, p.eval (α ^ k) = 0) : p = 0 := by
  have hpower : ∀ i ∈ p.support, i < n := by
    intro i hi
    exact_mod_cast lt_of_le_of_lt (le_degree_of_mem_supp i hi) hdegree
  let place : Fin p.support.card ≃ p.support := p.support.equivFin.symm
  have hplace : Function.Injective fun j => α ^ (place j).1 := by
    intro i j hij
    apply place.injective
    apply Subtype.ext
    exact hα (hpower _ (place i).2) (hpower _ (place j).2) hij
  have hzero : (fun j => p.coeff (place j).1) = 0 := by
    apply Matrix.eq_zero_of_forall_pow_sum_mul_pow_eq_zero hplace
    intro k
    have heval := h k (lt_of_lt_of_le k.2 hcard)
    rw [eval_eq_sum, sum_def, ← Finset.sum_coe_sort] at heval
    rw [← heval, ← place.sum_comp]
    apply Finset.sum_congr rfl
    intro j _
    rw [← pow_mul, ← pow_mul, Nat.mul_comm]
  rw [← support_eq_empty, Finset.eq_empty_iff_forall_notMem]
  intro i hi
  have hcoeff := congrFun hzero (place.symm ⟨i, hi⟩)
  rw [Equiv.apply_symm_apply] at hcoeff
  exact mem_support_iff.mp hi hcoeff

theorem eq_of_differ_le [DecidableEq F] (α : F) (t : Nat) {l m : List F} (hα : Set.InjOn (α ^ ·) (Set.Iio l.length))
    (hlength : l.length = m.length)
    (hl : Vanishes α t l) (hm : Vanishes α t m) (h : differ l m ≤ t) : l = m := by
  apply poly_injective hlength
  apply sub_eq_zero.mp
  apply eq_zero_of_card_support_le hα
  · refine lt_of_le_of_lt (degree_sub_le _ _) (max_lt (degree_poly_lt l) ?_)
    rw [hlength]
    exact degree_poly_lt m
  · exact (card_support_sub_le hlength).trans h
  · intro k hk
    rw [eval_sub, hl k hk, hm k hk, sub_zero]

end Roots

/-- A register that shifts a symbol in and is reduced holds the remainder of the symbols. -/
theorem register_eq {σ β : Type*} {α : F} {t : Nat} (reg : σ → F[X]) (step : σ → β → σ) (symbol : β → F)
    (hdegree : ∀ s, (reg s).degree < t)
    (hstep : ∀ s b, generatorPoly α t ∣ reg (step s b) - (X * reg s + C (symbol b) * X ^ t)) (s : σ) (hs : reg s = 0)
      (l : List β) :
    reg (l.foldl step s) = poly (l.map symbol) * X ^ t %ₘ generatorPoly α t := by
  have hdvd : generatorPoly α t ∣ reg (l.foldl step s) - poly (l.map symbol) * X ^ t := by
    induction l using List.reverseRecOn with
    | nil => simp [hs, poly]
    | append_singleton l b ih =>
      rw [List.foldl_append, List.foldl_cons, List.foldl_nil, List.map_append, List.map_singleton, poly_concat]
      have hsum := dvd_add (hstep (l.foldl step s) b) (ih.mul_left X)
      convert hsum using 1
      ring
  have hmod := (modByMonic_eq_zero_iff_dvd (generatorPoly_monic α t)).mpr hdvd
  rw [sub_modByMonic, (modByMonic_eq_self_iff (generatorPoly_monic α t)).mpr (by
    rw [generatorPoly_degree]
    exact hdegree _)] at hmod
  exact sub_eq_zero.mp hmod

end Be300.Lib.ReedSolomon
