/-
  Be300.Lib.Largest — the `n` largest of what has come by.

  `Largest n key all kept`: `kept` is `n` elements of `all`, or all of them when there are
  fewer, and none of those left out has a larger key than one that is kept. The rules say
  when an element is added, replaces the smallest one, or is left out.
-/

import Mathlib.Data.List.Perm.Basic
import Mathlib.Tactic.Common

namespace Be300.Lib

def Largest {α : Type} (n : Nat) (key : α → Nat) (all kept : List α) : Prop :=
  ∃ dropped, all.Perm (kept ++ dropped) ∧ kept.length = min n all.length ∧ ∀ d ∈ dropped, ∀ k ∈ kept, key d ≤ key k

section Largest

variable {α : Type} {n i : Nat} {key : α → Nat} {all kept : List α} {x : α}

theorem Largest.nil : Largest n key [] ([] : List α) := ⟨[], .nil, by simp, by simp⟩

theorem Largest.length_le (h : Largest n key all kept) : kept.length ≤ n := by
  obtain ⟨-, -, hlen, -⟩ := h
  omega

theorem Largest.add (h : Largest n key all kept) (hroom : kept.length < n) : Largest n key (all ++ [x]) (kept ++ [x]) := by
  obtain ⟨dropped, hperm, hlen, hsmall⟩ := h
  have hdropped : dropped = [] := by
    have := hperm.length_eq
    rw [List.length_append] at this
    exact List.length_eq_zero_iff.mp (by omega)
  subst hdropped
  rw [List.append_nil] at hperm
  refine ⟨[], ?_, ?_, by simp⟩
  · rw [List.append_nil]
    exact hperm.append_right [x]
  · rw [List.length_append, List.length_append, List.length_singleton]
    omega

/-- One not larger than any that is kept is left out. -/
theorem Largest.leave (h : Largest n key all kept) (hfull : kept.length = n) (hx : ∀ k ∈ kept, key x ≤ key k) :
    Largest n key (all ++ [x]) kept := by
  obtain ⟨dropped, hperm, hlen, hsmall⟩ := h
  refine ⟨dropped ++ [x], ?_, ?_, ?_⟩
  · rw [← List.append_assoc]
    exact hperm.append_right [x]
  · rw [List.length_append, List.length_singleton]
    omega
  · intro d hd k hk
    rcases List.mem_append.mp hd with hd | hd
    · exact hsmall d hd k hk
    · rw [List.mem_singleton.mp hd]
      exact hx k hk

/-- A larger one takes the place of the smallest one that is kept. -/
theorem Largest.replace (h : Largest n key all kept) (hi : i < kept.length) (hfull : kept.length = n)
    (hleast : ∀ k ∈ kept, key kept[i] ≤ key k) (hx : key kept[i] < key x) : Largest n key (all ++ [x]) (kept.set i x) := by
  obtain ⟨dropped, hperm, hlen, hsmall⟩ := h
  refine ⟨kept[i] :: dropped, ?_, ?_, ?_⟩
  · have hset : (kept.set i x ++ [kept[i]]).Perm (kept ++ [x]) := by
      have hsplit : kept = kept.take i ++ kept[i] :: kept.drop (i + 1) := by
        rw [← List.drop_eq_getElem_cons hi, List.take_append_drop]
      rw [List.set_eq_take_append_cons_drop, if_pos hi, List.append_assoc]
      conv_rhs => rw [hsplit, List.append_assoc]
      refine List.Perm.append_left _ ?_
      rw [List.cons_append, List.cons_append]
      exact (List.perm_append_singleton _ _).cons x |>.trans
        ((List.Perm.swap _ _ _).trans ((List.perm_append_singleton _ _).symm.cons _))
    have hswap : (kept ++ dropped ++ [x]).Perm (kept ++ [x] ++ dropped) := by
      rw [List.append_assoc, List.append_assoc]
      exact List.perm_append_comm.append_left kept
    have hkept : (kept ++ [x] ++ dropped).Perm (kept.set i x ++ kept[i] :: dropped) := by
      have := hset.symm.append_right dropped
      rwa [List.append_assoc (kept.set i x), List.singleton_append] at this
    exact (hperm.append_right [x]).trans (hswap.trans hkept)
  · rw [List.length_set, List.length_append, List.length_singleton]
    omega
  · intro d hd k hk
    have hbound : key d ≤ key kept[i] := by
      rcases List.mem_cons.mp hd with rfl | hd
      · exact Nat.le_refl _
      · exact hsmall d hd _ (List.getElem_mem hi)
    rcases List.mem_or_eq_of_mem_set hk with hk | rfl
    · exact Nat.le_trans hbound (hleast k hk)
    · omega

theorem Largest.perm {kept' : List α} (h : Largest n key all kept) (hperm : kept'.Perm kept) : Largest n key all kept' := by
  obtain ⟨dropped, hall, hlen, hsmall⟩ := h
  refine ⟨dropped, hall.trans (hperm.symm.append_right dropped), hperm.length_eq.trans hlen, ?_⟩
  intro d hd k hk
  exact hsmall d hd k (hperm.subset hk)

end Largest

end Be300.Lib
