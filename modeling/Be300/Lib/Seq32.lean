/-
  Be300.Lib.Seq32 — 32-bit serial numbers naming the positions of an unbounded stream.

  Position `p` of a stream whose position 0 has number `isn` has number `seqAt isn p`,
  which wraps every 2^32 positions. A signed difference of two numbers is the
  difference of the positions reduced to [-2^31, 2^31) (`seqAt_sub_toInt`): it is the
  true one exactly while the positions are close (`seqAt_sub_near`), and numbers
  closer than 2^32 are equal only for equal positions (`seqAt_inj`).
-/

import Mathlib.Tactic.Common
import Mathlib.Algebra.Ring.Nat
import Mathlib.Algebra.Ring.Int.Defs

namespace Be300.Lib

abbrev Seq := BitVec 32

def seqAt (isn : Seq) (p : Nat) : Seq := isn + BitVec.ofNat 32 p

@[simp] theorem seqAt_zero (isn : Seq) : seqAt isn 0 = isn := by simp [seqAt]

theorem seqAt_add (isn : Seq) (p n : Nat) : seqAt isn (p + n) = seqAt isn p + BitVec.ofNat 32 n := by
  simp [seqAt, BitVec.ofNat_add, BitVec.add_assoc]

theorem seqAt_succ (isn : Seq) (p : Nat) : seqAt isn (p + 1) = seqAt isn p + 1 := seqAt_add isn p 1

theorem seqAt_seqAt (isn : Seq) (p n : Nat) : seqAt (seqAt isn p) n = seqAt isn (p + n) := by
  rw [seqAt_add]; rfl

theorem seqAt_toNat (isn : Seq) (p : Nat) : (seqAt isn p).toNat = (isn.toNat + p) % 2 ^ 32 := by
  simp [seqAt, BitVec.toNat_add, BitVec.toNat_ofNat]

/-- Two numbers agree exactly when their positions agree modulo 2^32. -/
theorem seqAt_eq_iff (isn : Seq) (a b : Nat) : seqAt isn a = seqAt isn b ↔ a % 2 ^ 32 = b % 2 ^ 32 := by
  have hb := isn.isLt
  rw [← BitVec.toNat_inj, seqAt_toNat, seqAt_toNat]
  omega

theorem seqAt_inj {isn : Seq} {a b : Nat} (h : seqAt isn a = seqAt isn b) (h1 : a < b + 2 ^ 32) (h2 : b < a + 2 ^ 32) :
    a = b := by
  have := (seqAt_eq_iff isn a b).mp h
  omega

theorem seqAt_period (isn : Seq) (p : Nat) : seqAt isn (p + 2 ^ 32) = seqAt isn p :=
  (seqAt_eq_iff isn _ _).mpr (by omega)

/-- The signed difference of two numbers is the difference of their positions, reduced. -/
theorem seqAt_sub_toInt (isn : Seq) (a b : Nat) :
    (seqAt isn a - seqAt isn b).toInt = ((a : Int) - b).bmod (2 ^ 32) := by
  have ha := seqAt_toNat isn a
  have hb := seqAt_toNat isn b
  rw [BitVec.toInt_eq_toNat_bmod, BitVec.toNat_sub, ha, hb]
  rw [← Int.emod_bmod, ← Int.emod_bmod ((a : Int) - b)]
  congr 1
  omega

theorem seqAt_sub_near {isn : Seq} {a b : Nat} (h1 : a < b + 2 ^ 31) (h2 : b ≤ a + 2 ^ 31) :
    (seqAt isn a - seqAt isn b).toInt = (a : Int) - b := by
  rw [seqAt_sub_toInt]
  apply Int.bmod_eq_of_le <;> omega

/-- A signed difference that lands in `[0, n]` is the true one, for positions less than
    2^32 apart on either side. -/
theorem seqAt_sub_window {isn : Seq} {a b n : Nat} (hn : n < 2 ^ 31) (h1 : a < b + 2 ^ 32) (h2 : b + n < a + 2 ^ 32)
    (h : 0 ≤ (seqAt isn a - seqAt isn b).toInt ∧ (seqAt isn a - seqAt isn b).toInt ≤ n) :
    b ≤ a ∧ a ≤ b + n ∧ (seqAt isn a - seqAt isn b).toInt.toNat = a - b := by
  rw [seqAt_sub_toInt] at h ⊢
  obtain ⟨h0, hle⟩ := h
  have hm := Int.bmod_emod (x := (a : Int) - b) (m := 2 ^ 32)
  have hr : ((a : Int) - b) % (2 ^ 32 : Nat) = ((a : Int) - b).bmod (2 ^ 32) := by
    rw [← hm]; exact Int.emod_eq_of_lt h0 (by omega)
  omega

/-- A number at or after position `c` and at or before position `n`, both by signed
    difference, is the number of a position between them. -/
theorem seqAt_between {isn x : Seq} {c n : Nat} (h : c ≤ n) (hn : n < c + 2 ^ 31) (h1 : 0 ≤ (x - seqAt isn c).toInt)
    (h2 : 0 ≤ (seqAt isn n - x).toInt) : ∃ a, c ≤ a ∧ a ≤ n ∧ x = seqAt isn a := by
  have hx : x = seqAt isn (c + (x - seqAt isn c).toNat) := by
    rw [seqAt_add, BitVec.ofNat_toNat, BitVec.setWidth_eq, BitVec.add_comm, BitVec.sub_add_cancel]
  have hlt : (x - seqAt isn c).toNat < 2 ^ 31 := by
    have := BitVec.toInt_eq_toNat_cond (x - seqAt isn c)
    split at this <;> omega
  rw [hx, seqAt_sub_near (by omega) (by omega)] at h2
  exact ⟨_, Nat.le_add_right _ _, by omega, hx⟩

end Be300.Lib
