/-
  Be300.Lib.Ledger — accounts that are opened, closed and cleared.

  A history opens accounts, closes them one by one and clears them all at once. It is `Sound`
  when it closes no account that is not outstanding. With distinct accounts none is then closed
  twice, and each is closed once, still outstanding or cleared.
-/

import Mathlib.Data.List.Induction
import Mathlib.Data.List.Nodup
import Mathlib.Data.List.Perm.Basic
import Mathlib.Tactic.Common
import Be300.Lib.Since

namespace Be300.Lib

inductive Entry (ι : Type) where
  | opened (i : ι)
  | closed (i : ι)
  | cleared
  deriving DecidableEq

namespace Ledger

variable {ι : Type} {l : List (Entry ι)} {e : Entry ι} {i : ι}

def ids (l : List (Entry ι)) : List ι := l.filterMap fun
  | .opened i => some i
  | _ => none

@[simp] theorem ids_append (l m : List (Entry ι)) : ids (l ++ m) = ids l ++ ids m := List.filterMap_append

@[simp] theorem ids_opened (i : ι) : ids [.opened i] = [i] := rfl

@[simp] theorem ids_closed (i : ι) : ids [.closed i] = [] := rfl

@[simp] theorem ids_cleared : ids [(.cleared : Entry ι)] = [] := rfl

theorem mem_ids : i ∈ ids l ↔ .opened i ∈ l := by
  unfold ids
  rw [List.mem_filterMap]
  constructor
  · rintro ⟨e, he, hi⟩
    cases e <;> simp_all
  · intro h
    exact ⟨_, h, rfl⟩

variable [DecidableEq ι]

def next (accounts : List ι) : Entry ι → List ι
  | .opened i => accounts ++ [i]
  | .closed i => accounts.erase i
  | .cleared => []

def outstanding (l : List (Entry ι)) : List ι := l.foldl next []

def Sound (l : List (Entry ι)) : Prop := Along (fun before e => ∀ i, e = .closed i → i ∈ outstanding before) l

@[simp] theorem outstanding_snoc (l : List (Entry ι)) (e : Entry ι) : outstanding (l ++ [e]) = next (outstanding l) e := by
  simp [outstanding]

theorem Sound.closed (h : Sound l) (hi : i ∈ outstanding l) : Sound (l ++ [.closed i]) := by
  refine Along.snoc h fun j hj => ?_
  cases hj
  exact hi

theorem Sound.other (h : Sound l) (he : ∀ i, e ≠ .closed i) : Sound (l ++ [e]) :=
  Along.snoc h fun i hi => absurd hi (he i)

/-- An account is closed or outstanding at most as often as it is opened. -/
theorem Sound.count_le (h : Sound l) (i : ι) : l.count (.closed i) + (outstanding l).count i ≤ (ids l).count i := by
  induction l using List.reverseRecOn with
  | nil => simp [outstanding, ids]
  | append_singleton l e ih =>
    have hl := ih (Along.front h)
    rw [outstanding_snoc, ids_append, List.count_append, List.count_append]
    cases e with
    | opened j =>
      simp only [next, ids_opened, List.count_append, List.count_singleton]
      simp
      omega
    | closed j =>
      have hj : j ∈ outstanding l := Along.at h j rfl
      simp only [next, ids_closed, List.count_erase, List.count_singleton]
      by_cases hij : j = i
      · subst hij
        have hpos := List.count_pos_iff.mpr hj
        simp
        omega
      · simp [hij]
        omega
    | cleared =>
      simp [next]
      omega

/-- No account is closed twice. -/
theorem Sound.closed_le_one (h : Sound l) (hids : (ids l).Nodup) (i : ι) : l.count (.closed i) ≤ 1 := by
  have hle := h.count_le i
  have hone := List.nodup_iff_count_le_one.mp hids i
  omega

/-- Every account is closed, outstanding or cleared. -/
theorem settled (hi : i ∈ ids l) : .closed i ∈ l ∨ i ∈ outstanding l ∨ ∃ a b, l = a ++ .opened i :: b ∧ .cleared ∈ b := by
  induction l using List.reverseRecOn with
  | nil => cases hi
  | append_singleton l e ih =>
    rw [outstanding_snoc]
    rcases List.mem_append.mp (ids_append l [e] ▸ hi) with hold | hnew
    · rcases ih hold with hclosed | hopen | ⟨a, b, rfl, hb⟩
      · exact Or.inl (List.mem_append_left _ hclosed)
      · cases e with
        | opened j => exact Or.inr (Or.inl (List.mem_append_left _ hopen))
        | closed j =>
          by_cases hij : i = j
          · exact Or.inl (by simp [hij])
          · exact Or.inr (Or.inl ((List.mem_erase_of_ne hij).mpr hopen))
        | cleared =>
          obtain ⟨a, b, rfl⟩ := List.append_of_mem (mem_ids.mp hold)
          exact Or.inr (Or.inr ⟨a, b ++ [.cleared], by simp, by simp⟩)
      · exact Or.inr (Or.inr ⟨a, b ++ [e], by simp, List.mem_append_left _ hb⟩)
    · cases e <;> simp at hnew
      subst hnew
      exact Or.inr (Or.inl (by simp [next]))

end Ledger

end Be300.Lib
