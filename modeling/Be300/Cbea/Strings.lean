/-
  Be300.Cbea.Strings — the character helpers of the CBEA installer (`src/cbea_install.c`).

  A C string is the list of its bytes before the NUL. Names on disk and in the registry
  are UTF-16 units, kept as numbers. Both comparisons of the source ignore ASCII case;
  `fold` is what they compare (`strIeq_iff`, `nameEqU16_iff`).
-/

import Mathlib.Data.List.Basic
import Mathlib.Tactic.Common

namespace Be300.Cbea

def lowerAscii (c : Nat) : Nat := if 0x41 ≤ c ∧ c ≤ 0x5A then c + 0x20 else c

def upperAscii (c : Nat) : Nat := if 0x61 ≤ c ∧ c ≤ 0x7A then c - 0x20 else c

def strIeq : List UInt8 → List UInt8 → Bool
  | x :: a, y :: b => lowerAscii x.toNat == lowerAscii y.toNat && strIeq a b
  | [], [] => true
  | _, _ => false

/-- Bytes are Latin-1 code units. -/
def nameEqU16 (u : List Nat) (s : List UInt8) : Bool :=
  u.length == s.length && (u.zip s).all fun x => x.1 ≤ 0xFF && lowerAscii x.1 == lowerAscii x.2.toNat

/-! ## What is compared -/

def units (s : List UInt8) : List Nat := s.map UInt8.toNat

def fold (u : List Nat) : List Nat := u.map lowerAscii

@[simp] theorem units_length (s : List UInt8) : (units s).length = s.length := List.length_map _

@[simp] theorem fold_length (u : List Nat) : (fold u).length = u.length := List.length_map _

theorem strIeq_iff (a b : List UInt8) : strIeq a b = true ↔ fold (units a) = fold (units b) := by
  fun_induction strIeq a b with
  | case1 x a y b ih =>
    simp only [fold, units, List.map_map] at ih
    simp [fold, units, ih]
  | case2 => simp
  | case3 a b h1 h2 =>
    rcases a with - | ⟨x, a⟩ <;> rcases b with - | ⟨y, b⟩
    · exact absurd rfl (h2 rfl)
    · simp [fold, units]
    · simp [fold, units]
    · exact absurd rfl (h1 x a y b rfl)

theorem lowerAscii_le {c : Nat} (h : c ≤ 0xFF) : lowerAscii c ≤ 0xFF := by
  unfold lowerAscii
  split <;> omega

theorem lowerAscii_byte {x : Nat} {c : UInt8} (h : lowerAscii x = lowerAscii c.toNat) : x ≤ 0xFF := by
  have hc : lowerAscii c.toNat ≤ 0xFF := lowerAscii_le (by have := c.toNat_lt; omega)
  have hx : x ≤ lowerAscii x := by
    unfold lowerAscii
    split <;> omega
  omega

theorem nameEqU16_iff (u : List Nat) (s : List UInt8) : nameEqU16 u s = true ↔ fold u = fold (units s) := by
  induction u generalizing s with
  | nil => cases s <;> simp [nameEqU16, fold, units]
  | cons x u ih =>
    cases s with
    | nil => simp [nameEqU16, fold, units]
    | cons c s =>
      have hx : x ≤ 0xFF ∧ lowerAscii x = lowerAscii c.toNat ↔ lowerAscii x = lowerAscii c.toNat :=
        ⟨fun h => h.2, fun h => ⟨lowerAscii_byte h, h⟩⟩
      have := ih s
      simp only [nameEqU16, fold, units, List.length_cons, List.zip_cons_cons, List.all_cons, List.map_cons, List.cons.injEq,
        Bool.and_eq_true, beq_iff_eq, decide_eq_true_eq, Nat.add_right_cancel_iff] at this ⊢
      rw [hx, ← this]
      tauto

end Be300.Cbea
