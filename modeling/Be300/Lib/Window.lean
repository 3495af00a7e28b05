/-
  Be300.Lib.Window — a sliding window over a growing text, and texts told by copies from it.

  A ring of `n` cells holds the last `n` elements of a text whose element `p` went to the
  cell of position `start + p` (`Holds`). A text is told by tokens, each an element or a copy
  of what stands at most `n` elements back; a copy may run into what it writes (`Tells`).
  Replaying a copy from the ring, element by element, continues the text (`Holds.next`).
-/

import Be300.Lib.Ring

namespace Be300.Lib.Window

open Be300.Lib.Ring (slot slot_ne)

variable {α : Type} {n start : Nat} {ring : Nat → α}

def Holds (n start : Nat) (ring : Nat → α) (text : List α) : Prop :=
  ∀ p b, text[p]? = some b → text.length ≤ p + n → ring (slot 0 n (start + p)) = b

theorem Holds.nil : Holds n start ring [] := by
  intro p b hp
  cases hp

/-- The next element goes to the cell of the one it pushes out. -/
theorem Holds.push {text : List α} {b : α} (h : Holds n start ring text) :
    Holds n start (Function.update ring (slot 0 n (start + text.length)) b) (text ++ [b]) := by
  intro p c hp hback
  rw [List.length_append, List.length_singleton] at hback
  rcases Nat.lt_trichotomy p text.length with hlt | heq | hgt
  · rw [List.getElem?_append_left hlt] at hp
    rw [Function.update_of_ne (slot_ne (by omega) (by omega))]
    exact h p c hp (by omega)
  · subst heq
    rw [List.getElem?_concat_length] at hp
    cases hp
    exact Function.update_self _ _ _
  · rw [List.getElem?_append_right (by omega), List.getElem?_eq_none (by simp; omega)] at hp
    cases hp

/-! ## Texts told by tokens -/

inductive Token (α : Type) where
  | lit (b : α)
  | copy (pos len : Nat)

/-- The tokens tell `data` from position `p` on; a copy is `lo` to `hi` elements long. -/
inductive Tells (n lo hi : Nat) (data : List α) : Nat → List (Token α) → Prop where
  | done : Tells n lo hi data data.length []
  | lit {p : Nat} {b : α} {rest : List (Token α)} (here : data[p]? = some b) (tail : Tells n lo hi data (p + 1) rest) :
    Tells n lo hi data p (.lit b :: rest)
  | copy {p pos len : Nat} {rest : List (Token α)} (behind : pos < p) (back : p ≤ pos + n) (long : lo ≤ len ∧ len ≤ hi)
    (fits : p + len ≤ data.length) (same : ∀ k < len, data[pos + k]? = data[p + k]?) (tail : Tells n lo hi data (p + len) rest) :
    Tells n lo hi data p (.copy pos len :: rest)

theorem Tells.le {lo hi p : Nat} {data : List α} {tokens : List (Token α)} (h : Tells n lo hi data p tokens) :
    p ≤ data.length := by
  induction h with
  | done => exact Nat.le_refl _
  | lit _ _ ih => omega
  | copy _ _ _ fits _ _ ih => omega

theorem Tells.eq_of_nil {lo hi p : Nat} {data : List α} (h : Tells n lo hi data p []) : p = data.length := by
  cases h
  rfl

/-- Nothing is left to tell at the end. -/
theorem Tells.nil_of_le {lo hi p : Nat} {data : List α} {tokens : List (Token α)} (h : Tells n lo hi data p tokens) (hlo : 0 < lo)
    (hend : data.length ≤ p) : tokens = [] := by
  cases h with
  | done => rfl
  | lit here _ =>
    rw [List.getElem?_eq_none hend] at here
    cases here
  | copy _ _ long fits _ _ => omega

/-- The next element of a copy stands in the ring, also where the copy wrote it. -/
theorem Holds.next {data : List α} {p pos k : Nat} (h : Holds n start ring (data.take (p + k))) (hin : p + k < data.length)
    (hbehind : pos < p) (hback : p ≤ pos + n) (hsame : data[pos + k]? = data[p + k]?) :
    ring (slot 0 n (start + (pos + k))) = data[p + k] := by
  refine h (pos + k) _ ?_ ?_
  · rw [List.getElem?_take_of_lt (by omega), hsame]
    exact List.getElem?_eq_getElem hin
  · rw [List.length_take]
    omega

end Be300.Lib.Window
