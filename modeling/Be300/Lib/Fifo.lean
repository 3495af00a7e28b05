/-
  Be300.Lib.Fifo — a bounded queue in an array of `cap` slots.

  `head` is the slot of the oldest element and `count` an unsigned 32-bit number of them, so
  that taking an element of an empty queue leaves 2^32 - 1. `Fits` is what keeps the two in
  range; `contents` is the queue as a list. Under `Fits` the operations are those of lists.
-/

import Be300.Lib.Ring
import Mathlib.Algebra.Ring.Nat
import Mathlib.Algebra.Ring.Int.Defs

namespace Be300.Lib

structure Fifo (α : Type) where
  slot : Nat → α
  head : Nat
  count : Nat

namespace Fifo

variable {α : Type} {cap : Nat} {q : Fifo α}

/-- The element `i` places behind the oldest. -/
def get (cap : Nat) (q : Fifo α) (i : Nat) : α := q.slot ((q.head + i) % cap)

def front (q : Fifo α) : α := q.slot q.head

def store (q : Fifo α) (s : Nat) (x : α) : Fifo α := { q with slot := fun j => if j = s then x else q.slot j }

def setFront (q : Fifo α) (x : α) : Fifo α := q.store q.head x

def push (cap : Nat) (q : Fifo α) (x : α) : Fifo α := { q.store ((q.head + q.count) % cap) x with count := q.count + 1 }

def pop (cap : Nat) (q : Fifo α) : Fifo α :=
  { q with head := (q.head + 1) % cap, count := (q.count + (2 ^ 32 - 1)) % 2 ^ 32 }

def clear (q : Fifo α) : Fifo α := { q with head := 0, count := 0 }

/-- The elements behind place `i` move up, one after the other. -/
def shift (cap : Nat) (q : Fifo α) (i n : Nat) : Fifo α :=
  (List.range n).foldl (fun q j => q.store ((q.head + (i + j)) % cap) (q.get cap (i + j + 1))) q

def removeAt (cap : Nat) (q : Fifo α) (i : Nat) : Fifo α := { shift cap q i (q.count - 1 - i) with count := q.count - 1 }

def contents (cap : Nat) (q : Fifo α) : List α := (List.range q.count).map (q.get cap)

structure Fits (cap : Nat) (q : Fifo α) : Prop where
  head : q.head < cap
  count : q.count ≤ cap

/-! ## Contents -/

theorem place_ne (head : Nat) {i j : Nat} (h : i < j) (hcap : j < i + cap) : (head + i) % cap ≠ (head + j) % cap := by
  intro heq
  refine Ring.slot_ne (o := 0) (n := cap) (x := head + i) (y := head + j) (by omega) (by omega) ?_
  unfold Ring.slot
  rw [heq]

@[simp] theorem length_contents : (contents cap q).length = q.count := by
  simp [contents]

theorem contents_eq_nil : contents cap q = [] ↔ q.count = 0 := by
  rw [← List.length_eq_zero_iff, length_contents]

@[simp] theorem contents_clear (q : Fifo α) : contents cap q.clear = [] := rfl

theorem getElem_contents {i : Nat} (h : i < (contents cap q).length) : (contents cap q)[i] = q.get cap i := by
  simp [contents]

theorem contents_push (hroom : q.count < cap) (x : α) : contents cap (q.push cap x) = contents cap q ++ [x] := by
  have hnew : (q.push cap x).get cap q.count = x := if_pos rfl
  have hold : ∀ i < q.count, (q.push cap x).get cap i = q.get cap i := by
    intro i hi
    exact if_neg (place_ne q.head hi (by omega))
  show (List.range (q.count + 1)).map ((q.push cap x).get cap) = _
  rw [List.range_succ, List.map_append, List.map_singleton, hnew]
  congr 1
  exact List.map_congr_left fun i hi => hold i (List.mem_range.mp hi)

theorem fits_push (h : Fits cap q) (hroom : q.count < cap) (x : α) : Fits cap (q.push cap x) := ⟨h.head, hroom⟩

theorem front_eq (h : q.head < cap) : q.get cap 0 = q.front := by
  unfold get front
  rw [Nat.add_zero, Nat.mod_eq_of_lt h]

theorem contents_pop (h : Fits cap q) (hcap : cap < 2 ^ 32) (hpos : q.count ≠ 0) :
    contents cap q = q.front :: contents cap (q.pop cap) := by
  obtain ⟨hhead, hcount⟩ := h
  obtain ⟨n, hn⟩ := Nat.exists_eq_succ_of_ne_zero hpos
  have hpop : (q.pop cap).count = n := by
    show (q.count + (2 ^ 32 - 1)) % 2 ^ 32 = n
    omega
  have hnext : ∀ i, q.get cap (i + 1) = (q.pop cap).get cap i := by
    intro i
    show q.slot ((q.head + (i + 1)) % cap) = q.slot (((q.head + 1) % cap + i) % cap)
    rw [Nat.mod_add_mod, Nat.add_assoc, Nat.add_comm 1 i]
  unfold contents
  rw [hpop, hn, List.range_succ_eq_map, List.map_cons, List.map_map, front_eq hhead]
  exact congrArg (List.cons q.front) (List.map_congr_left fun i _ => hnext i)

theorem count_pop (h : q.count ≠ 0) (hcap : q.count ≤ 2 ^ 32) : (q.pop cap).count = q.count - 1 := by
  show (q.count + (2 ^ 32 - 1)) % 2 ^ 32 = q.count - 1
  omega

theorem fits_pop (h : Fits cap q) (hcap : cap < 2 ^ 32) (hpos : q.count ≠ 0) : Fits cap (q.pop cap) := by
  obtain ⟨hhead, hcount⟩ := h
  refine ⟨Nat.mod_lt _ (by omega), ?_⟩
  rw [count_pop hpos (by omega)]
  omega

theorem fits_clear (hcap : 0 < cap) (q : Fifo α) : Fits cap q.clear := ⟨hcap, Nat.zero_le _⟩

theorem contents_setFront (h : Fits cap q) {x y : α} {l : List α} (hq : contents cap q = x :: l) :
    contents cap (q.setFront y) = y :: l := by
  obtain ⟨hhead, hcount⟩ := h
  have hlen : (contents cap q).length = l.length + 1 := by rw [hq, List.length_cons]
  have hpos : (contents cap (q.setFront y)).length = l.length + 1 := by rw [← hlen, length_contents, length_contents]; rfl
  have hcells : q.count = l.length + 1 := by rw [← hlen, length_contents]
  refine List.ext_getElem (by rw [hpos, List.length_cons]) fun i hi hi' => ?_
  rw [getElem_contents hi]
  rcases i with _ | i
  · show (if (q.head + 0) % cap = q.head then y else _) = y
    rw [if_pos (by rw [Nat.add_zero, Nat.mod_eq_of_lt hhead])]
  · have hne : (q.head + (i + 1)) % cap ≠ q.head := by
      have hplace : (q.head + 0) % cap ≠ (q.head + (i + 1)) % cap := place_ne q.head (by omega) (by omega)
      rw [Nat.add_zero, Nat.mod_eq_of_lt hhead] at hplace
      exact hplace.symm
    have hi'' : i + 1 < (contents cap q).length := by rw [hq]; exact hi'
    have hi₁ : i < l.length := by simpa using hi'
    have hold : (contents cap q)[i + 1] = l[i] := by simp [hq]
    rw [List.getElem_cons_succ, ← hold, getElem_contents hi'']
    exact if_neg hne

theorem fits_setFront (h : Fits cap q) (x : α) : Fits cap (q.setFront x) := ⟨h.head, h.count⟩

/-! ## Removal -/

theorem shift_spec (hcount : q.count ≤ cap) {i n : Nat} (hn : i + n < q.count) :
    (shift cap q i n).head = q.head ∧ ∀ j < q.count,
      (shift cap q i n).get cap j = if i ≤ j ∧ j < i + n then q.get cap (j + 1) else q.get cap j := by
  induction n with
  | zero => exact ⟨rfl, fun j _ => (if_neg (by omega)).symm⟩
  | succ n ih =>
    obtain ⟨hhead, hget⟩ := ih (by omega)
    have hstep : shift cap q i (n + 1) = (shift cap q i n).store (((shift cap q i n).head + (i + n)) % cap)
        ((shift cap q i n).get cap (i + n + 1)) := by
      unfold shift
      rw [List.range_succ, List.foldl_append]
      rfl
    rw [hstep]
    refine ⟨hhead, fun j hj => ?_⟩
    have hmoved : (shift cap q i n).get cap (i + n + 1) = q.get cap (i + n + 1) := by
      rw [hget _ (by omega), if_neg (by omega)]
    rw [hmoved]
    by_cases heq : j = i + n
    · rw [if_pos (by omega), heq]
      exact if_pos rfl
    · have hne : ((shift cap q i n).head + j) % cap ≠ ((shift cap q i n).head + (i + n)) % cap := by
        rcases Nat.lt_or_gt_of_ne heq with hlt | hgt
        · exact place_ne _ hlt (by omega)
        · exact (place_ne _ hgt (by omega)).symm
      have hkeep : ((shift cap q i n).store (((shift cap q i n).head + (i + n)) % cap) (q.get cap (i + n + 1))).get cap j =
          (shift cap q i n).get cap j := if_neg hne
      rw [hkeep, hget j hj]
      by_cases hin : i ≤ j ∧ j < i + n
      · rw [if_pos hin, if_pos (by omega)]
      · rw [if_neg hin, if_neg (by omega)]

theorem contents_removeAt (h : Fits cap q) {i : Nat} (hi : i < q.count) :
    contents cap (q.removeAt cap i) = (contents cap q).eraseIdx i := by
  obtain ⟨hhead, hget⟩ := shift_spec h.count (q := q) (i := i) (n := q.count - 1 - i) (by omega)
  have hremoved : ∀ j < q.count, (q.removeAt cap i).get cap j =
      if i ≤ j ∧ j < i + (q.count - 1 - i) then q.get cap (j + 1) else q.get cap j := hget
  have hlen : (contents cap (q.removeAt cap i)).length = q.count - 1 := by rw [length_contents]; rfl
  refine List.ext_getElem ?_ fun j hj hj' => ?_
  · rw [hlen, List.length_eraseIdx, if_pos (by rw [length_contents]; exact hi), length_contents]
  · rw [hlen] at hj
    rw [getElem_contents, List.getElem_eraseIdx, hremoved j (by omega)]
    by_cases hlt : j < i
    · rw [if_neg (by omega), dif_pos hlt, getElem_contents]
    · rw [if_pos (by omega), dif_neg hlt, getElem_contents]

theorem fits_removeAt (h : Fits cap q) {i : Nat} (hi : i < q.count) : Fits cap (q.removeAt cap i) := by
  obtain ⟨hhead, -⟩ := shift_spec h.count (q := q) (i := i) (n := q.count - 1 - i) (by omega)
  refine ⟨lt_of_eq_of_lt hhead h.head, ?_⟩
  show q.count - 1 ≤ cap
  have := h.count
  omega

end Fifo

end Be300.Lib
