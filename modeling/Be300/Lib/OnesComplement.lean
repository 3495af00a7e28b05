/-
  Be300.Lib.OnesComplement — sums of 16-bit words with the carries folded back.

  `words l` is the sum of the big-endian words of `l`, an odd last byte being the high one of
  its word. `fold` adds the carries until there are none: the result is the same number mod
  65535, and 0 only for 0. `fold_verifies`: a sum that the complement of its fold is added to
  folds to all ones.
-/

import Be300.Lib.Bytes

namespace Be300.Lib

/-- The whole words. -/
def pairs : List UInt8 → Nat
  | a :: b :: l => 256 * a.toNat + b.toNat + pairs l
  | _ => 0

def words : List UInt8 → Nat
  | a :: b :: l => 256 * a.toNat + b.toNat + words l
  | [a] => 256 * a.toNat
  | [] => 0

def fold (s : Nat) : Nat := if s / 65536 = 0 then s else fold (s % 65536 + s / 65536)
termination_by s
decreasing_by omega

theorem pairs_cons (a b : UInt8) (l : List UInt8) : pairs (a :: b :: l) = 256 * a.toNat + b.toNat + pairs l := rfl

theorem words_cons (a b : UInt8) (l : List UInt8) : words (a :: b :: l) = 256 * a.toNat + b.toNat + words l := rfl

theorem words_one (a : UInt8) : words [a] = 256 * a.toNat := rfl

theorem words_even {l : List UInt8} (h : l.length % 2 = 0) : words l = pairs l := by
  induction l using words.induct with
  | case1 a b l ih =>
    simp only [List.length_cons] at h
    rw [words_cons, pairs_cons, ih (by omega)]
  | case2 a => simp at h
  | case3 => rfl

theorem words_odd {l : List UInt8} (h : l.length % 2 ≠ 0) : words l = pairs l + 256 * (at' l (l.length - 1)).toNat := by
  induction l using words.induct with
  | case1 a b l ih =>
    simp only [List.length_cons] at h
    have hlast : at' (a :: b :: l) ((a :: b :: l).length - 1) = at' l (l.length - 1) := by
      obtain ⟨n, hn⟩ : ∃ n, l.length = n + 1 := ⟨l.length - 1, by omega⟩
      simp [at', hn]
    rw [words_cons, pairs_cons, ih (by omega), hlast]
    omega
  | case2 a => simp [words_one, pairs, at']
  | case3 => simp at h

theorem words_append {l : List UInt8} (h : l.length % 2 = 0) (m : List UInt8) : words (l ++ m) = words l + words m := by
  induction l using words.induct with
  | case1 a b l ih =>
    simp only [List.length_cons] at h
    simp only [List.cons_append, words_cons]
    rw [ih (by omega)]
    omega
  | case2 a => simp at h
  | case3 => simp [words]

/-- An odd list is as good as one with a zero after it. -/
theorem words_pad {l : List UInt8} (h : l.length % 2 ≠ 0) : words (l ++ [0]) = words l := by
  induction l using words.induct with
  | case1 a b l ih =>
    simp only [List.length_cons] at h
    simp only [List.cons_append, words_cons]
    rw [ih (by omega)]
  | case2 a => simp [words]
  | case3 => simp at h

theorem words_le (l : List UInt8) : words l ≤ 65535 * ((l.length + 1) / 2) := by
  induction l using words.induct with
  | case1 a b l ih =>
    have ha : a.toNat < 256 := a.toNat_lt
    have hb : b.toNat < 256 := b.toNat_lt
    simp only [words_cons, List.length_cons]
    omega
  | case2 a =>
    have ha : a.toNat < 256 := a.toNat_lt
    simp only [words_one, List.length_singleton]
    omega
  | case3 => simp [words]

theorem fold_lt (s : Nat) : fold s < 65536 := by
  induction s using fold.induct with
  | case1 s h =>
    rw [fold, if_pos h]
    omega
  | case2 s h ih =>
    rw [fold, if_neg h]
    exact ih

theorem fold_mod (s : Nat) : fold s % 65535 = s % 65535 := by
  induction s using fold.induct with
  | case1 s h => rw [fold, if_pos h]
  | case2 s h ih =>
    rw [fold, if_neg h, ih]
    omega

theorem fold_eq_zero {s : Nat} (h : fold s = 0) : s = 0 := by
  induction s using fold.induct with
  | case1 s hs => rwa [fold, if_pos hs] at h
  | case2 s hs ih =>
    rw [fold, if_neg hs] at h
    have := ih h
    omega

theorem fold_verifies (s : Nat) : fold (s + (65535 - fold s)) = 65535 := by
  have hlt := fold_lt s
  have hmod := fold_mod s
  have hlt' := fold_lt (s + (65535 - fold s))
  have hmod' := fold_mod (s + (65535 - fold s))
  have hzero : fold (s + (65535 - fold s)) ≠ 0 := by
    intro h
    have hsum := fold_eq_zero h
    have hs : s = 0 := by omega
    have hfold : fold s = 0 := by
      rw [hs, fold]
      rfl
    omega
  omega

end Be300.Lib
