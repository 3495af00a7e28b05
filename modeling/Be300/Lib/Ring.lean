/-
  Be300.Lib.Ring — an endless stream of positions on a ring of `n` cells from `o` on.

  `slot` is the cell of a position. Two positions less than one revolution apart have
  different cells, so a list of at most `n` elements written from a position on (`put`) is
  read back (`get_put`) and leaves the cells of the revolution before its end alone
  (`put_before`). `gap` counts the steps from one cell forward to another.
-/

import Mathlib.Data.List.Basic
import Mathlib.Logic.Function.Basic
import Mathlib.Tactic.Common

namespace Be300.Lib.Ring

variable {α : Type} {o n : Nat}

def slot (o n x : Nat) : Nat := o + x % n

theorem le_slot (x : Nat) : o ≤ slot o n x := Nat.le_add_right o _

theorem slot_lt (hn : 0 < n) (x : Nat) : slot o n x < o + n := Nat.add_lt_add_left (Nat.mod_lt x hn) o

/-- Every cell is the cell of a position. -/
theorem slot_sub {a : Nat} (h1 : o ≤ a) (h2 : a < o + n) : slot o n (a - o) = a := by
  unfold slot
  rw [Nat.mod_eq_of_lt (by omega)]
  omega

theorem slot_add (x k : Nat) : slot o n (x + k) = o + (slot o n x - o + k) % n := by
  unfold slot
  rw [Nat.add_sub_cancel_left, Nat.mod_add_mod]

/-- One step forward of `k < n` cells wraps at most once. -/
theorem slot_step (x : Nat) {k : Nat} (hk : k < n) :
    slot o n (x + k) = if slot o n x + k < o + n then slot o n x + k else slot o n x + k - n := by
  have hx := Nat.mod_lt x (show 0 < n by omega)
  rw [slot_add]
  unfold slot
  split
  · rw [Nat.mod_eq_of_lt (by omega)]
    omega
  · rw [Nat.mod_eq_sub_mod (by omega), Nat.mod_eq_of_lt (by omega)]
    omega

theorem slot_ne {x y : Nat} (hxy : x < y) (hyn : y < x + n) : slot o n x ≠ slot o n y := by
  have hstep := slot_step (o := o) (n := n) x (k := y - x) (by omega)
  have hx := slot_lt (o := o) (n := n) (by omega) x
  have hlo := le_slot (o := o) (n := n) x
  rw [show x + (y - x) = y by omega] at hstep
  rw [hstep]
  split <;> omega

/-! ## Distances -/

/-- The number of steps from cell `a` forward to cell `b`, on the ring from `o` to `hi`. -/
def gap (o hi a b : Nat) : Nat := if a ≤ b then b - a else (hi - a) + (b - o)

theorem gap_slot {x y : Nat} (hxy : x ≤ y) (hyn : y < x + n) : gap o (o + n) (slot o n x) (slot o n y) = y - x := by
  have hx := slot_lt (o := o) (n := n) (by omega) x
  have hlo := le_slot (o := o) (n := n) x
  have hstep := slot_step (o := o) (n := n) x (k := y - x) (by omega)
  rw [show x + (y - x) = y by omega] at hstep
  unfold gap
  rw [hstep]
  split <;> split <;> omega

theorem gap_lt {a b : Nat} (ha : o ≤ a) (ha' : a < o + n) (hb : o ≤ b) (hb' : b < o + n) :
    gap o (o + n) a b < n := by
  unfold gap
  split <;> omega

theorem slot_gap {x a b : Nat} (ha : slot o n x = a) (hn : 0 < n) (hb : o ≤ b) (hb' : b < o + n) :
    slot o n (x + gap o (o + n) a b) = b := by
  have hx := slot_lt (o := o) hn x
  have hlo := le_slot (o := o) (n := n) x
  have hlt := gap_lt (o := o) (n := n) (a := a) (b := b) (by omega) (by omega) hb hb'
  rw [slot_step x hlt, ha]
  unfold gap
  split <;> split <;> omega

/-- On two different cells, forward and back again is one revolution. -/
theorem gap_back {a b : Nat} (ha : o ≤ a) (ha' : a < o + n) (hb : o ≤ b) (hb' : b < o + n) (h : a ≠ b) :
    gap o (o + n) a b + gap o (o + n) b a = n := by
  unfold gap
  split <;> split <;> omega

/-! ## Reading and writing -/

variable {mem : Nat → α}

/-- The `k` elements from position `x` on. -/
def get (o n : Nat) (mem : Nat → α) (x k : Nat) : List α := (List.range k).map fun i => mem (slot o n (x + i))

def put (o n : Nat) : List α → Nat → (Nat → α) → Nat → α
  | [], _, mem => mem
  | v :: l, x, mem => put o n l (x + 1) (Function.update mem (slot o n x) v)

theorem put_cons (v : α) (l : List α) (x : Nat) (mem : Nat → α) :
    put o n (v :: l) x mem = put o n l (x + 1) (Function.update mem (slot o n x) v) := rfl

theorem put_append (l m : List α) (x : Nat) (mem : Nat → α) :
    put o n (l ++ m) x mem = put o n m (x + l.length) (put o n l x mem) := by
  induction l generalizing x mem with
  | nil => rfl
  | cons v l ih =>
    simp only [List.cons_append, put_cons, ih, List.length_cons, show x + 1 + l.length = x + (l.length + 1) by omega]

theorem put_mod (l : List α) {x y : Nat} (h : x % n = y % n) (mem : Nat → α) : put o n l x mem = put o n l y mem := by
  induction l generalizing x y mem with
  | nil => rfl
  | cons v l ih =>
    have hslot : slot o n x = slot o n y := congrArg (o + ·) h
    rw [put_cons, put_cons, hslot]
    exact ih (Nat.add_mod_eq_add_mod_right 1 h) _

/-- Cells outside the ring are left alone. -/
theorem put_outside (hn : 0 < n) (l : List α) (x : Nat) (mem : Nat → α) {a : Nat} (ha : a < o ∨ o + n ≤ a) :
    put o n l x mem a = mem a := by
  induction l generalizing x mem with
  | nil => rfl
  | cons v l ih =>
    have hx := slot_lt (o := o) hn x
    have hlo := le_slot (o := o) (n := n) x
    rw [put_cons, ih, Function.update_of_ne (by omega)]

/-- So are the cells of the positions before the write, up to one revolution before its end. -/
theorem put_before (l : List α) (x : Nat) (mem : Nat → α) {y : Nat} (hy : y < x) (hend : x + l.length ≤ y + n) :
    put o n l x mem (slot o n y) = mem (slot o n y) := by
  induction l generalizing x mem with
  | nil => rfl
  | cons v l ih =>
    simp only [List.length_cons] at hend
    rw [put_cons, ih (x + 1) _ (by omega) (by omega), Function.update_of_ne (slot_ne hy (by omega))]

theorem put_slot (l : List α) (x : Nat) (mem : Nat → α) (hl : l.length ≤ n) {i : Nat} (hi : i < l.length) :
    put o n l x mem (slot o n (x + i)) = l[i] := by
  induction l generalizing x mem i with
  | nil => simp at hi
  | cons v l ih =>
    simp only [List.length_cons] at hl hi
    rcases i with _ | i
    · rw [put_cons, show x + 0 = x from rfl, put_before l (x + 1) _ (by omega) (by omega), Function.update_self]
      rfl
    · rw [put_cons, show x + (i + 1) = x + 1 + i by omega, ih (x + 1) _ (by omega) (by omega)]
      rfl

theorem get_put (l : List α) (x : Nat) (mem : Nat → α) (hl : l.length ≤ n) : get o n (put o n l x mem) x l.length = l := by
  apply List.ext_getElem
  · simp [get]
  · intro i _ h2
    simp only [get, List.getElem_map, List.getElem_range]
    exact put_slot l x mem hl h2

theorem get_length (mem : Nat → α) (x k : Nat) : (get o n mem x k).length = k := by simp [get]

theorem get_congr {mem mem' : Nat → α} {x k : Nat} (h : ∀ y, x ≤ y → y < x + k → mem' (slot o n y) = mem (slot o n y)) :
    get o n mem' x k = get o n mem x k := by
  apply List.map_congr_left
  intro i hi
  exact h (x + i) (by omega) (by have := List.mem_range.mp hi; omega)

theorem get_append (mem : Nat → α) (x j k : Nat) : get o n mem x (j + k) = get o n mem x j ++ get o n mem (x + j) k := by
  simp [get, List.range_add, Function.comp_def, Nat.add_assoc]

end Be300.Lib.Ring
