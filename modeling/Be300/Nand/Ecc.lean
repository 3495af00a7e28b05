/-
  Be300.Nand.Ecc — what the ECC check of a page says (`nand_physical_ecc`).

  A page's 520 bytes and the six words fed to it are a word of 526 symbols. The check
  divides the bytes' symbols by the generator in a shift register (`low_eccRemainder`) and
  compares what is left with the words.
-/

import Be300.Nand.Field
import Be300.Nand.Ports
import Be300.Lib.ReedSolomon
import Mathlib.Data.Nat.Bitwise
import Mathlib.Tactic.IntervalCases

namespace Be300.Nand

open Polynomial
open Lib.ReedSolomon

/-- The polynomial with `n` numbers for coefficients. -/
noncomputable def low (n : Nat) (r : Nat → Nat) : Gf[X] := ∑ i ∈ Finset.range n, C (toGf (r i)) * X ^ i

section Low

variable (n : Nat) (r p : Nat → Nat)

theorem low_succ : low (n + 1) r = low n r + C (toGf (r n)) * X ^ n := Finset.sum_range_succ _ _

theorem coeff_low (i : Nat) : (low n r).coeff i = if i < n then toGf (r i) else 0 := by
  simp [low, coeff_C_mul, coeff_X_pow]

theorem low_degree_lt : (low n r).degree < n := by
  rw [degree_lt_iff_coeff_zero]
  intro i hi
  rw [coeff_low, if_neg (Nat.not_lt.mpr hi)]

theorem low_shiftAdd : low (n + 1) (shiftAdd r p) = X * low n r + low (n + 1) p := by
  have hadd : ∀ i, C (toGf (shiftAdd r p i)) * X ^ i =
      C (toGf (if i = 0 then 0 else r (i - 1))) * X ^ i + C (toGf (p i)) * X ^ i := by
    intro i
    rw [shiftAdd, toGf_xor, C_add]
    ring
  unfold low
  rw [Finset.sum_congr rfl fun i _ => hadd i, Finset.sum_add_distrib]
  congr 1
  rw [Finset.sum_range_succ', Finset.mul_sum, if_pos rfl, toGf_zero, C_0, zero_mul, add_zero]
  apply Finset.sum_congr rfl
  intro i _
  rw [if_neg (Nat.succ_ne_zero i), Nat.add_sub_cancel, pow_succ]
  ring

theorem low_gmul_left {b : Nat} (hb : b < 1024) : low n (fun i => gmul (r i) b) = C (toGf b) * low n r := by
  unfold low
  rw [Finset.mul_sum]
  apply Finset.sum_congr rfl
  intro i _
  rw [toGf_gmul _ hb, C_mul]
  ring

theorem low_gmul_right (a : Nat) (hr : ∀ i < n, r i < 1024) : low n (fun i => gmul a (r i)) = C (toGf a) * low n r := by
  unfold low
  rw [Finset.mul_sum]
  apply Finset.sum_congr rfl
  intro i hi
  rw [toGf_gmul a (hr i (Finset.mem_range.mp hi)), C_mul]
  ring

/-- Numbers with the same polynomial are the same. -/
theorem eq_of_low_eq {n : Nat} {r p : Nat → Nat} (hr : ∀ i < n, r i < 1024) (hp : ∀ i < n, p i < 1024) (h : low n r = low n p) :
    ∀ i < n, r i = p i := by
  intro i hi
  have hcoeff := congrArg (fun q : Gf[X] => q.coeff i) h
  simp only [coeff_low, if_pos hi] at hcoeff
  exact toGf_injOn (hr i hi) (hp i hi) hcoeff

end Low

/-! ## The numbers stay below 1024 -/

theorem xor_lt {a b : Nat} (ha : a < 1024) (hb : b < 1024) : a ^^^ b < 1024 := Nat.xor_lt_two_pow (n := 10) ha hb

/-- A doubling that leaves the field has bit 10, which the reduction takes out. -/
theorem xtime_lt {a : Nat} (ha : a < 1024) : xtime a < 1024 := by
  unfold xtime
  rw [show 0x400 = 2 ^ 10 from rfl, Nat.and_two_pow]
  split
  · rename_i h
    have hbit : (2 * a).testBit 10 = true := by
      by_contra hfalse
      rw [Bool.not_eq_true] at hfalse
      exact h (by rw [hfalse]; rfl)
    apply Nat.lt_pow_two_of_testBit (n := 10)
    intro i hi
    rw [Nat.testBit_xor]
    rcases Nat.eq_or_lt_of_le hi with rfl | hlt
    · rw [hbit]
      rfl
    · have hpow : 2 ^ 11 ≤ 2 ^ i := Nat.pow_le_pow_right (by decide) hlt
      rw [Nat.testBit_lt_two_pow (by omega), Nat.testBit_lt_two_pow (by omega)]
      rfl
  · rename_i h
    by_contra hge
    apply h
    rw [Nat.testBit, Nat.shiftRight_eq_div_pow, show 2 * a / 2 ^ 10 = 1 by omega]
    decide

theorem gmulLoop_lt {a : Nat} (ha : a < 1024) (b n : Nat) : (gmulLoop a b n).1 < 1024 ∧ (gmulLoop a b n).2 < 1024 := by
  induction n with
  | zero => exact ⟨Nat.succ_pos _, ha⟩
  | succ n ih =>
    rw [gmulLoop_succ]
    constructor
    · dsimp only
      split
      · exact xor_lt ih.1 ih.2
      · exact ih.1
    · exact xtime_lt ih.2

theorem gmul_lt {a : Nat} (ha : a < 1024) (b : Nat) : gmul a b < 1024 := (gmulLoop_lt ha b 10).1

theorem gmul_zero_left {b : Nat} : gmul 0 b = 0 := by
  have hloop : ∀ n, gmulLoop 0 b n = (0, 0) := by
    intro n
    induction n with
    | zero => rfl
    | succ n ih =>
      rw [gmulLoop_succ, ih]
      simp [xtime]
  exact congrArg Prod.fst (hloop 10)

/-! ## The generator -/

/-- The coefficients after `n` roots, and the next root. -/
def generatorLoop (n : Nat) : (Nat → Nat) × Nat :=
  (List.range n).foldl (fun (x : (Nat → Nat) × Nat) _ => (shiftAdd x.1 fun i => gmul (x.1 i) x.2, xtime x.2))
    (fun i => if i = 0 then 1 else 0, 1)

theorem generatorLoop_spec (n : Nat) :
    low (n + 1) (generatorLoop n).1 = generatorPoly alpha n ∧ (∀ i, n < i → (generatorLoop n).1 i = 0) ∧
      (∀ i, (generatorLoop n).1 i < 1024) ∧ toGf (generatorLoop n).2 = alpha ^ n ∧ (generatorLoop n).2 < 1024 := by
  induction n with
  | zero =>
    refine ⟨?_, ?_, ?_, ?_, by decide⟩
    · simp [low, generatorLoop, generatorPoly]
    · intro i hi
      exact if_neg (Nat.ne_of_gt hi)
    · intro i
      simp only [generatorLoop, List.range_zero, List.foldl_nil]
      split <;> decide
    · rw [pow_zero]
      exact toGf_one
  | succ n ih =>
    obtain ⟨hpoly, hzero, hlt, hroot, hrootLt⟩ := ih
    have hloop : generatorLoop (n + 1) =
        (shiftAdd (generatorLoop n).1 fun i => gmul ((generatorLoop n).1 i) (generatorLoop n).2, xtime (generatorLoop n).2) := by
      rw [generatorLoop, List.range_succ, List.foldl_append]
      rfl
    rw [hloop]
    refine ⟨?_, ?_, ?_, ?_, ?_⟩
    · have hneg : (-C (alpha ^ n) : Gf[X]) = C (alpha ^ n) := by
        rw [← C_neg, neg_eq_of_add_eq_zero_left (gf_add_self _)]
      dsimp only
      rw [low_shiftAdd, low_gmul_left _ _ hrootLt, low_succ (n + 1), hzero (n + 1) (Nat.lt_succ_self n), toGf_zero, C_0, zero_mul,
        add_zero, hpoly, hroot, generatorPoly, generatorPoly, Finset.prod_range_succ, sub_eq_add_neg, hneg]
      ring
    · intro i hi
      dsimp only [shiftAdd]
      rw [if_neg (by omega), hzero (i - 1) (by omega), hzero i (by omega), gmul_zero_left]
      rfl
    · intro i
      refine xor_lt ?_ (gmul_lt (hlt i) _)
      split
      · decide
      · exact hlt _
    · rw [toGf_xtime, hroot, pow_succ]
      ring
    · exact xtime_lt hrootLt

theorem low_generator : low 7 generator = generatorPoly alpha 6 := (generatorLoop_spec 6).1

theorem generator_lt (i : Nat) : generator i < 1024 := (generatorLoop_spec 6).2.2.1 i

/-! ## The remainder -/

/-- A byte as a symbol: its bits in the other order, moved up by two. -/
def byteSymbol (b : UInt8) : Nat := 4 * (bitrev b).toNat

theorem byteSymbol_lt (b : UInt8) : byteSymbol b < 1024 := by
  have hlt := (bitrev b).toNat_lt
  unfold byteSymbol
  omega

/-- A byte shifted into the remainder. -/
def eccStep (rem : Nat → Nat) (b : UInt8) : Nat → Nat := shiftAdd rem fun j => gmul (byteSymbol b ^^^ rem 5) (generator j)

theorem low_eccStep (rem : Nat → Nat) (b : UInt8) :
    generatorPoly alpha 6 ∣ low 6 (eccStep rem b) - (X * low 6 rem + C (toGf (byteSymbol b)) * X ^ 6) := by
  have hone : generator 6 = 1 := by decide
  have htop : toGf (eccStep rem b 6) = toGf (byteSymbol b) := by
    rw [eccStep, shiftAdd, if_neg (by decide), hone, toGf_xor, toGf_gmul _ (by decide), toGf_one, mul_one, toGf_xor,
      add_comm (toGf (byteSymbol b)), ← add_assoc, gf_add_self, zero_add]
  have hseven := low_succ 6 (eccStep rem b)
  rw [eccStep, low_shiftAdd, low_gmul_right _ _ _ fun i _ => generator_lt i, low_generator, ← eccStep, htop] at hseven
  have htwice : C (toGf (byteSymbol b)) * X ^ 6 + C (toGf (byteSymbol b)) * X ^ 6 = (0 : Gf[X]) := by
    rw [← add_mul, ← C_add, gf_add_self, C_0, zero_mul]
  refine ⟨C (toGf (byteSymbol b ^^^ rem 5)), ?_⟩
  linear_combination hseven.symm - htwice

theorem low_eccRemainder (bytes : List UInt8) :
    low 6 (eccRemainder bytes) = poly (bytes.map fun b => toGf (byteSymbol b)) * X ^ 6 %ₘ generatorPoly alpha 6 := by
  refine register_eq (low 6) eccStep (fun b => toGf (byteSymbol b)) (low_degree_lt 6) low_eccStep (fun _ => 0) ?_ bytes
  simp [low]

theorem eccRemainder_lt (bytes : List UInt8) (j : Nat) : eccRemainder bytes j < 1024 := by
  induction bytes using List.reverseRecOn generalizing j with
  | nil => exact Nat.succ_pos _
  | append_singleton bytes b ih =>
    have hstep : eccRemainder (bytes ++ [b]) = eccStep (eccRemainder bytes) b := by
      rw [eccRemainder, List.foldl_append]
      rfl
    rw [hstep]
    refine xor_lt ?_ (gmul_lt (xor_lt (byteSymbol_lt b) (ih 5)) _)
    split
    · exact Nat.succ_pos _
    · exact ih _

theorem reverse10_lt (v : Nat) : reverse10 v < 1024 := by
  have hloop : ∀ n, (List.range n).foldl (fun r j => 2 * r ||| (v >>> j) % 2) 0 < 2 ^ n := by
    intro n
    induction n with
    | zero => exact Nat.succ_pos _
    | succ n ih =>
      rw [List.range_succ, List.foldl_append, List.foldl_cons, List.foldl_nil]
      apply Nat.or_lt_two_pow
      · rw [Nat.pow_succ]
        omega
      · have hbit := Nat.mod_lt (v >>> n) (show 0 < 2 by decide)
        have hpos := Nat.one_le_two_pow (n := n)
        rw [Nat.pow_succ]
        omega
  exact hloop 10

/-- The list form of six coefficients, the highest first. -/
theorem poly_six (f : Nat → Nat) : poly ((List.range 6).map fun i => toGf (f i)) = low 6 fun i => f (5 - i) := by
  simp [poly, low, List.range_succ, Finset.sum_range_succ]
  ring

/-! ## The word of a page -/

/-- The bytes of the page in the stream. -/
def pageBytes (s : Chip) : List UInt8 :=
  (List.range 512).map (fun i => s.image.getD (fun _ => 0) (s.streamPage * 512 + i)) ++
    (List.range 8).map fun i => s.oob.getD (fun _ => 0) (s.streamPage * pageOob + i)

/-- The symbols of the page's bytes. -/
def pageSymbols (s : Chip) : List Nat := (pageBytes s).map byteSymbol

/-- The symbols of the words that were fed: reversed 10-bit fields. -/
def fedSymbols (s : Chip) : List Nat := (List.range 6).map fun i => reverse10 (s.xferEccWords i)

def eccWord (s : Chip) : List Nat := pageSymbols s ++ fedSymbols s

/-- STATUS2 says that the page is clean. -/
def Clean (s : Chip) : Prop := (physicalEcc s).xferRegs status2Idx = 0

/-- A page with a spare array. -/
structure HasPage (s : Chip) : Prop where
  image : s.image.isSome
  oob : s.oob.isSome
  page : s.streamPage < pageCount

/-- The remainder that the words are compared with. -/
def syndrome (s : Chip) (i : Nat) : Nat := reverse10 (s.xferEccWords i) ^^^ eccRemainder (pageBytes s) (5 - i)

theorem syndrome_lt (s : Chip) (i : Nat) : syndrome s i < 1024 := xor_lt (reverse10_lt _) (eccRemainder_lt _ _)

/-- What the check leaves of a page. -/
theorem physicalEcc_eq {s : Chip} (hs : HasPage s) :
    (physicalEcc s).xferRegs status2Idx = (if (List.range 6).all (fun i => syndrome s i == 0) then 0 else 1) ∧
      (physicalEcc s).xferBuffer = fun i => if i < 16 ∧ i % 4 < 2 then bitrev ((packed (syndrome s)).getD (i / 4 * 2 + i % 4) 0)
        else 0 := by
  obtain ⟨oob, hoob⟩ := Option.isSome_iff_exists.mp hs.oob
  have hpage : ¬ s.streamPage ≥ pageCount := Nat.not_le.mpr hs.page
  have hsyndrome : (fun i => reverse10 (s.xferEccWords i) ^^^ eccRemainder ((List.range 512).map
      (fun i => s.image.getD (fun _ => 0) (s.streamPage * 512 + i)) ++
        (List.range 8).map fun i => oob (s.streamPage * pageOob + i)) (5 - i)) = syndrome s := by
    funext i
    rw [syndrome, pageBytes, hoob]
    rfl
  unfold physicalEcc
  simp only [hoob, if_neg hpage]
  rw [← hsyndrome]
  exact ⟨if_pos rfl, rfl⟩

theorem clean_iff {s : Chip} (hs : HasPage s) : Clean s ↔ ∀ i < 6, syndrome s i = 0 := by
  rw [Clean, (physicalEcc_eq hs).1]
  have hall : (List.range 6).all (fun i => syndrome s i == 0) = true ↔ ∀ i < 6, syndrome s i = 0 := by
    simp [List.all_eq_true]
  rw [← hall]
  split
  · rename_i h
    exact ⟨fun _ => h, fun _ => rfl⟩
  · rename_i h
    exact ⟨fun hone => absurd hone Nat.one_ne_zero, fun h' => absurd h' h⟩

theorem clean_iff_parity {s : Chip} (hs : HasPage s) :
    Clean s ↔ poly ((fedSymbols s).map toGf) = poly ((pageSymbols s).map toGf) * X ^ 6 %ₘ generatorPoly alpha 6 := by
  have hfed : (fedSymbols s).map toGf = (List.range 6).map fun i => toGf (reverse10 (s.xferEccWords i)) := by
    rw [fedSymbols, List.map_map]
    rfl
  have hpage : (pageSymbols s).map toGf = (pageBytes s).map fun b => toGf (byteSymbol b) := by
    rw [pageSymbols, List.map_map]
    rfl
  rw [clean_iff hs, hfed, hpage, poly_six, ← low_eccRemainder]
  constructor
  · intro h
    unfold low
    apply Finset.sum_congr rfl
    intro i hi
    have hzero := h (5 - i) (by omega)
    have hback : 5 - (5 - i) = i := by
      have := Finset.mem_range.mp hi
      omega
    rw [syndrome, Nat.xor_eq_zero_iff, hback] at hzero
    dsimp only
    rw [hzero]
  · intro h i hi
    have heq := eq_of_low_eq (fun i _ => reverse10_lt _) (fun i _ => eccRemainder_lt _ i) h (5 - i) (by omega)
    have hback : 5 - (5 - i) = i := by omega
    rw [hback] at heq
    rw [syndrome, heq, Nat.xor_self]

/-! ## The packed syndrome -/

theorem bitrev_bit (b : UInt8) : ∀ i < 8, (bitrev b).toBitVec.getLsbD i = b.toBitVec.getLsbD (7 - i) := by
  intro i hi
  have hrange : List.range 8 = [0, 1, 2, 3, 4, 5, 6, 7] := rfl
  simp only [bitrev, hrange, List.foldl_cons, List.foldl_nil]
  interval_cases i <;> simp

theorem bitrev_bitrev (b : UInt8) : bitrev (bitrev b) = b := by
  apply UInt8.toBitVec_inj.mp
  apply BitVec.eq_of_getLsbD_eq
  intro i hi
  rw [bitrev_bit _ i hi, bitrev_bit _ (7 - i) (by omega), show 7 - (7 - i) = i by omega]

/-- The bytes of the four low halfwords at 0xA4A0, their bits put back. -/
def bufferBytes (s : Chip) : List UInt8 := (List.range 8).map fun i => bitrev (s.xferBuffer (i / 2 * 4 + i % 2))

/-- Field `i` of the 60 bits, the last field the first in the buffer. -/
def unpacked (s : Chip) (i : Nat) : Nat := (bufferBytes s).foldl (fun n b => 256 * n + b.toNat) 0 / 2 ^ (4 + 10 * i) % 1024

theorem packed_number {v : Nat → Nat} (hv : ∀ i, v i < 1024) :
    (packed v).foldl (fun n b => 256 * n + b.toNat) 0 =
      2 ^ 54 * v 5 + 2 ^ 44 * v 4 + 2 ^ 34 * v 3 + 2 ^ 24 * v 2 + 2 ^ 14 * v 1 + 2 ^ 4 * v 0 := by
  have h0 := hv 0
  have h1 := hv 1
  have h2 := hv 2
  have h3 := hv 3
  have h4 := hv 4
  have h5 := hv 5
  -- the two parts of a byte do not overlap
  have h54 : 64 * v 5 ||| v 4 / 16 = 64 * v 5 + v 4 / 16 := (Nat.two_pow_add_eq_or_of_lt (i := 6) (by omega) _).symm
  have h43 : 16 * v 4 ||| v 3 / 64 = 16 * v 4 + v 3 / 64 := (Nat.two_pow_add_eq_or_of_lt (i := 4) (by omega) _).symm
  have h32 : 4 * v 3 ||| v 2 / 256 = 4 * v 3 + v 2 / 256 := (Nat.two_pow_add_eq_or_of_lt (i := 2) (by omega) _).symm
  have h10 : 64 * v 1 ||| v 0 / 16 = 64 * v 1 + v 0 / 16 := (Nat.two_pow_add_eq_or_of_lt (i := 6) (by omega) _).symm
  simp only [packed, List.foldl_cons, List.foldl_nil, UInt8.toNat_ofNat', h54, h43, h32, h10]
  omega

theorem unpacked_physicalEcc {s : Chip} (hs : HasPage s) {i : Nat} (hi : i < 6) : unpacked (physicalEcc s) i = syndrome s i := by
  have hbytes : bufferBytes (physicalEcc s) = packed (syndrome s) := by
    unfold bufferBytes
    rw [(physicalEcc_eq hs).2]
    simp only [List.range_succ, List.range_zero]
    simp [bitrev_bitrev, packed]
  have hv := syndrome_lt s
  have h0 := hv 0
  have h1 := hv 1
  have h2 := hv 2
  have h3 := hv 3
  have h4 := hv 4
  have h5 := hv 5
  rw [unpacked, hbytes, packed_number hv]
  interval_cases i <;> omega

/-! ## Words that are clean -/

theorem neg_poly (p : Gf[X]) : -p = p := by
  apply neg_eq_of_add_eq_zero_left
  ext i
  rw [coeff_add, gf_add_self, coeff_zero]

theorem alpha_injOn_lt {n : Nat} (hn : n ≤ 1023) : Set.InjOn (alpha ^ ·) (Set.Iio n) :=
  alpha_injOn.mono (Set.Iio_subset_Iio hn)

theorem eccWord_map (s : Chip) : (eccWord s).map toGf = (pageSymbols s).map toGf ++ (fedSymbols s).map toGf := List.map_append

theorem eccWord_length (s : Chip) : (eccWord s).length = 526 := by
  simp [eccWord, pageSymbols, pageBytes, fedSymbols]

theorem eccWord_lt {s : Chip} : ∀ a ∈ eccWord s, a < 1024 := by
  intro a ha
  rcases List.mem_append.mp ha with h | h
  · obtain ⟨b, -, rfl⟩ := List.mem_map.mp h
    exact byteSymbol_lt b
  · obtain ⟨i, -, rfl⟩ := List.mem_map.mp h
    exact reverse10_lt _

theorem clean_iff_vanishes {s : Chip} (hs : HasPage s) : Clean s ↔ Vanishes alpha 6 ((eccWord s).map toGf) := by
  have hlength : ((fedSymbols s).map toGf).length = 6 := by simp [fedSymbols]
  rw [clean_iff_parity hs, eccWord_map, vanishes_iff_parity (alpha_injOn_lt (by decide)) hlength, neg_poly]

/-- Numbers below 1024 that are the same elements. -/
theorem eq_of_map_toGf {l m : List Nat} (hl : ∀ a ∈ l, a < 1024) (hm : ∀ a ∈ m, a < 1024) (h : l.map toGf = m.map toGf) :
    l = m := by
  induction l generalizing m with
  | nil =>
    rw [List.map_nil, eq_comm, List.map_eq_nil_iff] at h
    exact h.symm
  | cons a l ih =>
    cases m with
    | nil => cases h
    | cons b m =>
      rw [List.map_cons, List.map_cons, List.cons.injEq] at h
      rw [toGf_injOn (hl a List.mem_cons_self) (hm b List.mem_cons_self) h.1,
        ih (fun x hx => hl x (List.mem_cons_of_mem _ hx)) (fun x hx => hm x (List.mem_cons_of_mem _ hx)) h.2]

theorem clean_apart {s t : Chip} (hs : HasPage s) (ht : HasPage t) (hne : eccWord s ≠ eccWord t)
    (h : differ (eccWord s) (eccWord t) ≤ 6) : ¬ (Clean s ∧ Clean t) := by
  classical
  rintro ⟨hcleanS, hcleanT⟩
  apply hne
  apply eq_of_map_toGf eccWord_lt eccWord_lt
  apply eq_of_differ_le alpha 6
  · rw [List.length_map, eccWord_length]
    exact alpha_injOn_lt (by decide)
  · rw [List.length_map, List.length_map, eccWord_length, eccWord_length]
  · exact (clean_iff_vanishes hs).mp hcleanS
  · exact (clean_iff_vanishes ht).mp hcleanT
  · exact (differ_map_le toGf _ _).trans h

/-- The values of the remainder that is left are those of the error. -/
theorem syndrome_eval {s : Chip} (hs : HasPage s) {code error : List Gf} (hcode : Vanishes alpha 6 code)
    (hlength : code.length = error.length) (hword : (eccWord s).map toGf = List.zipWith (· + ·) code error) {k : Nat}
      (hk : k < 6) :
    (poly ((List.range 6).map fun i => toGf (unpacked (physicalEcc s) i))).eval (alpha ^ k) = (poly error).eval (alpha ^ k) := by
  have hunpacked : ((List.range 6).map fun i => toGf (unpacked (physicalEcc s) i)) = (List.range 6).map fun i => toGf
    (syndrome s i) := by
    apply List.map_congr_left
    intro i hi
    rw [unpacked_physicalEcc hs (List.mem_range.mp hi)]
  have hsplit : poly ((List.range 6).map fun i => toGf (syndrome s i)) =
      poly ((fedSymbols s).map toGf) + low 6 (eccRemainder (pageBytes s)) := by
    have hfed : (fedSymbols s).map toGf = (List.range 6).map fun i => toGf (reverse10 (s.xferEccWords i)) := by
      rw [fedSymbols, List.map_map]
      rfl
    rw [hfed, poly_six, poly_six]
    unfold low
    rw [← Finset.sum_add_distrib]
    apply Finset.sum_congr rfl
    intro i hi
    have hback : 5 - (5 - i) = i := by
      have := Finset.mem_range.mp hi
      omega
    dsimp only
    rw [syndrome, toGf_xor, C_add, hback]
    ring
  have hpage : (pageBytes s).map (fun b => toGf (byteSymbol b)) = (pageSymbols s).map toGf := by
    rw [pageSymbols, List.map_map]
    rfl
  have heval := congrArg (fun p => eval (alpha ^ k) (poly p)) hword
  rw [eccWord_map, poly_append, poly_zipWith_add hlength, eval_add, eval_add, hcode k hk, zero_add] at heval
  have hsix : ((fedSymbols s).map toGf).length = 6 := by simp [fedSymbols]
  rw [hsix] at heval
  rw [hunpacked, hsplit, low_eccRemainder, hpage, eval_add, eval_mod hk, ← heval, add_comm]

/-! ## Feeding the words -/

/-- Mode 1, then `n` words. -/
def feeding (words : Nat → Nat) (n : Nat) : List Access :=
  .write regXferMode 4 1 :: (List.range n).map fun i => .write regXferMisc 4 (words i)

def feed (s : Chip) (words : Nat → Nat) : Chip := run s (feeding words 6)

/-- After `n` of the words. -/
structure Fed (s : Chip) (words : Nat → Nat) (n : Nat) (t : Chip) : Prop where
  image : t.image = s.image
  oob : t.oob = s.oob
  page : t.streamPage = s.streamPage
  mode : t.xferRegs xferModeIdx = 1
  count : t.xferEccCount = n
  words : ∀ i < n, t.xferEccWords i = words i % 1024

section Feed

variable {s t : Chip} {words : Nat → Nat} {n : Nat}

theorem fed_start (s : Chip) (words : Nat → Nat) : Fed s words 0 (step s (.write regXferMode 4 1)) := by
  constructor <;> simp [step, write, regXferMode, writeXfer, xferReg, regXferCmd, regXferAddr, regXferAck, regXferKick,
    writeXferMode,
    startXferMode, byteOf, xferModeIdx, status2Idx, update, u32]

theorem write_misc (t : Chip) (v : Nat) :
    step t (.write regXferMisc 4 v) = writeXferMisc { t with xferRegs := update t.xferRegs 26 (u32 v) } v := by
  simp [step, write, regXferMisc, writeXfer, xferReg, regXferCmd, regXferAddr, regXferAck, regXferKick, regXferMode]

/-- A word latched. -/
theorem fed_latch (h : Fed s words n t) (hn : n < 6) :
    Fed s words (n + 1) (latchEccWord { t with xferRegs := update t.xferRegs 26 (u32 (words n)) } (words n)) := by
  have hcount : t.xferEccCount < 6 := by
    rw [h.count]
    exact hn
  unfold latchEccWord
  rw [if_pos hcount]
  refine ⟨h.image, h.oob, h.page, h.mode, congrArg (· + 1) h.count, ?_⟩
  intro i hi
  dsimp only [update]
  rw [h.count]
  split
  · rename_i heq
    rw [heq]
  · exact h.words i (by omega)

theorem step_misc (h : Fed s words n t) (v : Nat) :
    step t (.write regXferMisc 4 v) =
      let u := latchEccWord { t with xferRegs := update t.xferRegs 26 (u32 v) } v
      if u.xferEccCount ≥ 6 then { physicalEcc u with ready := true } else u := by
  rw [write_misc, writeXferMisc, if_pos (show update t.xferRegs 26 (u32 v) xferModeIdx = 0x01 from h.mode)]

theorem fed_step (h : Fed s words n t) (hn : n < 5) : Fed s words (n + 1) (step t (.write regXferMisc 4 (words n))) := by
  have hlatch := fed_latch h (by omega)
  have hcount := hlatch.count
  rw [step_misc h]
  dsimp only
  rw [if_neg (by omega)]
  exact hlatch

theorem fed_last (h : Fed s words 5 t) :
    ∃ u, Fed s words 6 u ∧ step t (.write regXferMisc 4 (words 5)) = { physicalEcc u with ready := true } := by
  have hlatch := fed_latch h (by omega)
  have hcount := hlatch.count
  refine ⟨_, hlatch, ?_⟩
  rw [step_misc h]
  dsimp only
  rw [if_pos (by omega)]

theorem run_feeding_succ (s : Chip) (words : Nat → Nat) (n : Nat) :
    run s (feeding words (n + 1)) = step (run s (feeding words n)) (.write regXferMisc 4 (words n)) := by
  unfold feeding
  rw [List.range_succ, List.map_append, ← List.cons_append, run_append]
  rfl

theorem fed_run (s : Chip) (words : Nat → Nat) (n : Nat) (hn : n ≤ 5) : Fed s words n (run s (feeding words n)) := by
  induction n with
  | zero => exact fed_start s words
  | succ n ih =>
    rw [run_feeding_succ]
    exact fed_step (ih (by omega)) (by omega)

/-- The sixth word starts the check, of the page that was in the stream. -/
theorem feed_status2 (s : Chip) (words : Nat → Nat) :
    ∃ t, Fed s words 6 t ∧ ((read (feed s words) regXferStatus2 4 0).1 = 0 ↔ Clean t) := by
  obtain ⟨t, ht, hstep⟩ := fed_last (fed_run s words 5 (by decide))
  refine ⟨t, ht, ?_⟩
  rw [feed, run_feeding_succ, hstep]
  exact Iff.rfl

end Feed

/-- The check of a page with a spare array.

    It is clean exactly if the words are the parity of the page's symbols, also when they
    come through the register. What the check leaves in the buffer has, at the roots, the
    values of the error the word has against any code word. Two words that are both clean
    are one, or differ in seven symbols. -/
theorem ecc_check (s : Chip) (hs : HasPage s) :
    (Clean s ↔ poly ((fedSymbols s).map toGf) = poly ((pageSymbols s).map toGf) * X ^ 6 %ₘ generatorPoly alpha 6) ∧
    (∀ words : Nat → Nat, (read (feed s words) regXferStatus2 4 0).1 = 0 ↔
      poly ((List.range 6).map fun i => toGf (reverse10 (words i % 1024))) =
        poly ((pageSymbols s).map toGf) * X ^ 6 %ₘ generatorPoly alpha 6) ∧
    (∀ code error : List Gf, Vanishes alpha 6 code → code.length = error.length →
      (eccWord s).map toGf = List.zipWith (· + ·) code error → ∀ k < 6,
      (poly ((List.range 6).map fun i => toGf (unpacked (physicalEcc s) i))).eval (alpha ^ k) = (poly error).eval (alpha ^ k)) ∧
    ∀ t, HasPage t → eccWord s ≠ eccWord t → differ (eccWord s) (eccWord t) ≤ 6 → ¬ (Clean s ∧ Clean t) := by
  refine ⟨clean_iff_parity hs, ?_, ?_, ?_⟩
  · intro words
    obtain ⟨t, ht, hstatus⟩ := feed_status2 s words
    have hpageT : HasPage t := by
      constructor
      · rw [ht.image]
        exact hs.image
      · rw [ht.oob]
        exact hs.oob
      · rw [ht.page]
        exact hs.page
    have hbytes : pageSymbols t = pageSymbols s := by
      simp only [pageSymbols, pageBytes, ht.image, ht.oob, ht.page]
    have hfed : (fedSymbols t).map toGf = (List.range 6).map fun i => toGf (reverse10 (words i % 1024)) := by
      rw [fedSymbols, List.map_map]
      apply List.map_congr_left
      intro i hi
      rw [Function.comp_apply, ht.words i (List.mem_range.mp hi)]
    rw [hstatus, clean_iff_parity hpageT, hbytes, hfed]
  · intro code error hcode hlength hword k hk
    exact syndrome_eval hs hcode hlength hword hk
  · intro t ht hne h
    exact clean_apart hs ht hne h

/-- A chip with data, its page 7 in the stream: `b` is the page's byte 100. -/
def storedChip (b : UInt8) : Chip :=
  { nandInit (some fun a => if a = 7 * 512 + 100 then b else UInt8.ofNat a) nandImageSize nandImageSize
      (some fun a => UInt8.ofNat (3 * a)) with
    streamPage := 7, xferEccWords := fun i => 100 * i + 9 }

theorem storedChip_page (b : UInt8) : HasPage (storedChip b) := ⟨rfl, rfl, by show 7 < pageCount; decide⟩

theorem storedChip_ne : eccWord (storedChip 1) ≠ eccWord (storedChip 2) := by decide +kernel

theorem storedChip_differ : differ (eccWord (storedChip 1)) (eccWord (storedChip 2)) ≤ 6 := by decide +kernel

/-- Of two pages that differ in a byte one at least is not clean under the same words. -/
theorem storedChip_checked :
    (∀ words : Nat → Nat, (read (feed (storedChip 1) words) regXferStatus2 4 0).1 = 0 ↔
      poly ((List.range 6).map fun i => toGf (reverse10 (words i % 1024))) =
        poly ((pageSymbols (storedChip 1)).map toGf) * X ^ 6 %ₘ generatorPoly alpha 6) ∧
    ¬ (Clean (storedChip 1) ∧ Clean (storedChip 2)) := by
  obtain ⟨-, hfeed, -, hapart⟩ := ecc_check (storedChip 1) (storedChip_page 1)
  exact ⟨hfeed, hapart (storedChip 2) (storedChip_page 2) storedChip_ne storedChip_differ⟩

end Be300.Nand
