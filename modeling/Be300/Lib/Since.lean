/-
  Be300.Lib.Since — what a history of events holds, since one of them or all along.

  `Since P Q l`: some event of `l` satisfies `P`, given the events before it, and every
  event after it satisfies `Q`. A claim of the form "first this, then that, and nothing of
  the other kind in between" is one `Since` in the `P` of another.
-/

import Mathlib.Data.List.Basic
import Mathlib.Tactic.Common

namespace Be300.Lib

variable {α : Type} {P : List α → α → Prop} {Q : α → Prop} {l m : List α} {e : α}

def Since (P : List α → α → Prop) (Q : α → Prop) (l : List α) : Prop :=
  ∃ before e after, l = before ++ e :: after ∧ P before e ∧ ∀ x ∈ after, Q x

theorem Since.now (h : P l e) : Since P Q (l ++ [e]) := ⟨l, e, [], rfl, h, by simp⟩

theorem Since.keep (h : Since P Q l) (he : Q e) : Since P Q (l ++ [e]) := by
  obtain ⟨before, x, after, rfl, hx, hq⟩ := h
  refine ⟨before, x, after ++ [e], by simp, hx, fun y hy => ?_⟩
  rcases List.mem_append.mp hy with hy | hy
  · exact hq y hy
  · rw [List.mem_singleton.mp hy]
    exact he

theorem Since.last (h : Since P Q (l ++ [e])) : P l e ∨ Q e ∧ Since P Q l := by
  obtain ⟨before, x, after, heq, hx, hq⟩ := h
  rcases List.eq_nil_or_concat after with rfl | ⟨mid, y, rfl⟩
  · obtain ⟨rfl, hxe⟩ := List.append_inj' heq rfl
    rw [List.singleton_inj.mp hxe]
    exact Or.inl hx
  · rw [List.concat_eq_append, ← List.cons_append, ← List.append_assoc] at heq
    obtain ⟨rfl, hye⟩ := List.append_inj' heq rfl
    rw [List.singleton_inj.mp hye]
    exact Or.inr ⟨hq y (by simp), before, x, mid, rfl, hx, fun z hz => hq z (by simp [hz])⟩

/-! ## Every event -/

/-- Every event satisfies `P`, given the events before it. -/
def Along (P : List α → α → Prop) (l : List α) : Prop := ∀ before e after, l = before ++ e :: after → P before e

theorem Along.nil : Along P [] := by
  intro before e after h
  simp at h

theorem Along.front (h : Along P (l ++ m)) : Along P l := by
  rintro before e after rfl
  exact h before e (after ++ m) (by simp)

theorem Along.at (h : Along P (l ++ e :: m)) : P l e := h l e m rfl

theorem Along.snoc (h : Along P l) (he : P l e) : Along P (l ++ [e]) := by
  intro before x after heq
  rcases List.eq_nil_or_concat after with rfl | ⟨mid, y, rfl⟩
  · obtain ⟨rfl, hxe⟩ := List.append_inj' heq rfl
    rwa [← List.singleton_inj.mp hxe]
  · rw [List.concat_eq_append, ← List.cons_append, ← List.append_assoc] at heq
    obtain ⟨rfl, -⟩ := List.append_inj' heq rfl
    exact h before x mid rfl

instance [∀ before e, Decidable (P before e)] : Decidable (Along P l) :=
  decidable_of_iff (∀ i : Fin l.length, P (l.take i) l[i]) (by
    constructor
    · rintro h before e after rfl
      simpa using h ⟨before.length, by simp⟩
    · intro h i
      refine h _ _ (l.drop (i + 1)) ?_
      simp)

end Be300.Lib
