/-
  Be300.Lib.Antitone — iterating an antitone map on the naturals.

  From a start below all values of the map, the iterates of even number rise and those of odd
  number fall. They end in a fixed point, unless the map has two different points that it
  exchanges: then the iterates stay on both sides of these for ever (`settles_iff`).
-/

import Mathlib.Logic.Function.Iterate
import Mathlib.Order.Monotone.Basic
import Mathlib.Tactic.Common

namespace Be300.Lib.Antitone

variable {f : Nat → Nat} {x : Nat}

/-- An iterate is a fixed point. -/
def Settles (f : Nat → Nat) (x : Nat) : Prop := ∃ n, f (f^[n] x) = f^[n] x

/-- Two different points that the map exchanges. -/
def Swaps (f : Nat → Nat) (a b : Nat) : Prop := f a = b ∧ f b = a ∧ a < b

theorem iterate_double (n : Nat) (x : Nat) : f^[2 * (n + 1)] x = f (f (f^[2 * n] x)) := by
  rw [show 2 * (n + 1) = 2 * n + 1 + 1 by omega, Function.iterate_succ_apply', Function.iterate_succ_apply']

/-- A rising sequence below a bound stops rising. -/
theorem rising_stops {e : Nat → Nat} {bound : Nat} (hrise : ∀ n, e n ≤ e (n + 1)) (hbound : ∀ n, e n ≤ bound) :
    ∃ n, e (n + 1) = e n := by
  by_contra hnever
  push Not at hnever
  have hstrict : ∀ n, n ≤ e n := by
    intro n
    induction n with
    | zero => exact Nat.zero_le _
    | succ n ih =>
      have hle := hrise n
      have hne := hnever n
      omega
  have hpast := hstrict (bound + 1)
  have hin := hbound (bound + 1)
  omega

theorem swaps_or_settles (hf : Antitone f) (hx : ∀ y, x ≤ f y) : Settles f x ∨ ∃ a b, Swaps f a b := by
  have hmono : Monotone fun y => f (f y) := hf.comp hf
  have hrise : ∀ n, f^[2 * n] x ≤ f^[2 * (n + 1)] x := by
    intro n
    induction n with
    | zero => exact hx _
    | succ n ih =>
      rw [iterate_double, iterate_double (n + 1)]
      exact hmono ih
  have hbound : ∀ n, f^[2 * n] x ≤ f x := by
    intro n
    cases n with
    | zero => exact hx x
    | succ n =>
      rw [iterate_double]
      exact hf (hx _)
  obtain ⟨n, hn⟩ := rising_stops hrise hbound
  rw [iterate_double] at hn
  rcases Nat.lt_trichotomy (f^[2 * n] x) (f (f^[2 * n] x)) with hlt | heq | hgt
  · exact Or.inr ⟨_, _, rfl, hn, hlt⟩
  · exact Or.inl ⟨2 * n, heq.symm⟩
  · exact Or.inr ⟨_, _, hn, rfl, hgt⟩

/-- The iterates stay on both sides of two points that are exchanged. -/
theorem Swaps.apart (hf : Antitone f) (hx : ∀ y, x ≤ f y) {a b : Nat} (h : Swaps f a b) (n : Nat) :
    f^[2 * n] x ≤ a ∧ b ≤ f^[2 * n + 1] x := by
  obtain ⟨hab, hba, -⟩ := h
  have hlow : f^[2 * n] x ≤ a := by
    induction n with
    | zero =>
      have hle := hx b
      rwa [hba] at hle
    | succ n ih =>
      rw [iterate_double]
      have hup := hf (hf ih)
      rwa [hab, hba] at hup
  refine ⟨hlow, ?_⟩
  rw [Function.iterate_succ_apply']
  have hup := hf hlow
  rwa [hab] at hup

theorem Swaps.never (hf : Antitone f) (hx : ∀ y, x ≤ f y) {a b : Nat} (h : Swaps f a b) : ¬ Settles f x := by
  rintro ⟨n, hn⟩
  obtain ⟨hlow, hhigh⟩ := h.apart hf hx (n / 2)
  obtain ⟨hlow', -⟩ := h.apart hf hx (n / 2 + 1)
  have hlt := h.2.2
  rw [iterate_double] at hlow'
  rw [Function.iterate_succ_apply'] at hhigh
  rcases Nat.mod_two_eq_zero_or_one n with heven | hodd
  · rw [show n = 2 * (n / 2) by omega] at hn
    omega
  · rw [show n = 2 * (n / 2) + 1 by omega, Function.iterate_succ_apply'] at hn
    omega

theorem settles_iff (hf : Antitone f) (hx : ∀ y, x ≤ f y) : Settles f x ↔ ∀ a b, ¬ Swaps f a b := by
  constructor
  · intro hsettles a b h
    exact h.never hf hx hsettles
  · intro hnone
    rcases swaps_or_settles hf hx with h | ⟨a, b, h⟩
    · exact h
    · exact absurd h (hnone a b)

end Be300.Lib.Antitone
