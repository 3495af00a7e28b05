/-
  Be300.Lib.Bytes — little-endian numbers in byte lists and byte memories.

  `le w n` is the `w` bytes of `n`, `rd w byte i` the number the `w` bytes of `byte` from
  `i` on make. A list is read through `at'`, 0 past its end.
-/

import Mathlib.Data.List.Basic
import Mathlib.Tactic.Common
import Mathlib.Algebra.Ring.Nat
import Mathlib.Algebra.Ring.Int.Defs

namespace Be300.Lib

def le : Nat → Nat → List UInt8
  | 0, _ => []
  | w + 1, n => UInt8.ofNat n :: le w (n / 256)

def rd : Nat → (Nat → UInt8) → Nat → Nat
  | 0, _, _ => 0
  | w + 1, byte, i => (byte i).toNat + 256 * rd w byte (i + 1)

def at' (l : List UInt8) (i : Nat) : UInt8 := l.getD i 0

@[simp] theorem le_length (w n : Nat) : (le w n).length = w := by
  induction w generalizing n with
  | zero => rfl
  | succ w ih => simp [le, ih]

theorem rd_lt (w : Nat) (byte : Nat → UInt8) (i : Nat) : rd w byte i < 256 ^ w := by
  induction w generalizing i with
  | zero => simp [rd]
  | succ w ih =>
    have h1 := ih (i + 1)
    have h2 : (byte i).toNat < 256 := (byte i).toNat_lt
    rw [rd, Nat.pow_succ]
    omega

theorem rd_congr {w : Nat} {f g : Nat → UInt8} {i j : Nat} (h : ∀ k < w, f (i + k) = g (j + k)) : rd w f i = rd w g j := by
  induction w generalizing i j with
  | zero => rfl
  | succ w ih =>
    have h0 : f i = g j := h 0 (Nat.succ_pos w)
    have hrest : rd w f (i + 1) = rd w g (j + 1) := ih fun k hk => by
      have := h (k + 1) (by omega)
      simpa [Nat.add_assoc, Nat.add_comm 1 k] using this
    rw [rd, rd, h0, hrest]

/-! ## Lists -/

theorem at'_append_right (l m : List UInt8) (i : Nat) : at' (l ++ m) (l.length + i) = at' m i := by
  simp [at', List.getD_eq_getElem?_getD, List.getElem?_append_right]

theorem at'_append_left {l m : List UInt8} {i : Nat} (h : i < l.length) : at' (l ++ m) i = at' l i := by
  simp [at', List.getD_eq_getElem?_getD, List.getElem?_append_left h]

theorem at'_drop (l : List UInt8) (n i : Nat) : at' (l.drop n) i = at' l (n + i) := by
  simp [at', List.getD_eq_getElem?_getD]

theorem rd_append_right (w : Nat) (l m : List UInt8) (i : Nat) :
    rd w (at' (l ++ m)) (l.length + i) = rd w (at' m) i :=
  rd_congr fun k _ => by rw [Nat.add_assoc, at'_append_right]

theorem rd_append_left {w : Nat} {l m : List UInt8} {i : Nat} (h : i + w ≤ l.length) :
    rd w (at' (l ++ m)) i = rd w (at' l) i :=
  rd_congr fun k hk => at'_append_left (by omega)

theorem rd_le (w n : Nat) (l : List UInt8) : rd w (at' (le w n ++ l)) 0 = n % 256 ^ w := by
  induction w generalizing n with
  | zero => simp [rd, Nat.mod_one]
  | succ w ih =>
    have h := rd_append_right w [UInt8.ofNat n] (le w (n / 256) ++ l) 0
    rw [ih] at h
    have hbyte : (UInt8.ofNat n).toNat = n % 256 := by simp
    rw [show le (w + 1) n ++ l = [UInt8.ofNat n] ++ (le w (n / 256) ++ l) from rfl, rd, Nat.pow_succ', Nat.mod_mul]
    simp only [List.length_singleton, Nat.add_zero] at h
    rw [Nat.zero_add, h, ← hbyte]
    rfl

theorem rd_le_of_lt {w n : Nat} (h : n < 256 ^ w) (l : List UInt8) : rd w (at' (le w n ++ l)) 0 = n := by
  rw [rd_le, Nat.mod_eq_of_lt h]

/-- A number written at the end of a known prefix. -/
theorem rd_at {w n : Nat} (h : n < 256 ^ w) (p l : List UInt8) : rd w (at' (p ++ (le w n ++ l))) p.length = n := by
  have := rd_append_right w p (le w n ++ l) 0
  rw [Nat.add_zero] at this
  rw [this, rd_le_of_lt h]

end Be300.Lib
