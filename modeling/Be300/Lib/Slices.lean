/-
  Be300.Lib.Slices — byte slices whose accesses are checked, and the big-endian numbers
  that are stored in them.

  `sub b i j` is `b[i:j]`; `put`, `copy` and `store` give the list with the bytes changed. An
  index or a range that does not lie in the list is a fault, and so is a loop that has not
  ended when it should have. The `_ok` lemmas say when there is none.
-/

import Be300.Lib.Ends
import Be300.Lib.Splice
import Mathlib.Data.List.Induction

namespace Be300.Lib.Slices

inductive Fault where
  | index (i : Nat)
  | range (i j : Nat)
  | endless
  deriving DecidableEq

abbrev Checked := Except Fault

/-! ## Numbers -/

/-- The `w` bytes of `n`, the highest first. -/
def be (w n : Nat) : List UInt8 := (le w n).reverse

def num (l : List UInt8) : Nat := l.foldl (fun n b => 256 * n + b.toNat) 0

@[simp] theorem be_length (w n : Nat) : (be w n).length = w := by simp [be]

theorem be_two (n : Nat) : be 2 n = [UInt8.ofNat (n / 256), UInt8.ofNat n] := rfl

theorem be_four (n : Nat) :
    be 4 n = [UInt8.ofNat (n / 256 / 256 / 256), UInt8.ofNat (n / 256 / 256), UInt8.ofNat (n / 256), UInt8.ofNat n] := rfl

theorem num_append_one (l : List UInt8) (b : UInt8) : num (l ++ [b]) = 256 * num l + b.toNat := by simp [num]

theorem num_be (w n : Nat) : num (be w n) = n % 256 ^ w := by
  induction w generalizing n with
  | zero => simp [be, le, num, Nat.mod_one]
  | succ w ih =>
    have hbyte : (UInt8.ofNat n).toNat = n % 256 := by simp
    have hsplit : be (w + 1) n = be w (n / 256) ++ [UInt8.ofNat n] := by simp [be, le]
    rw [hsplit, num_append_one, ih, hbyte, Nat.pow_succ', Nat.mod_mul]
    omega

theorem num_be_of_lt {w n : Nat} (h : n < 256 ^ w) : num (be w n) = n := by rw [num_be, Nat.mod_eq_of_lt h]

/-! ## Accesses -/

section Access

variable {b : List UInt8} {i j : Nat}

def load (b : List UInt8) (i : Nat) : Checked UInt8 := if h : i < b.length then .ok b[i] else .error (.index i)

def sub (b : List UInt8) (i j : Nat) : Checked (List UInt8) :=
  if i ≤ j ∧ j ≤ b.length then .ok ((b.take j).drop i) else .error (.range i j)

def store (b : List UInt8) (i : Nat) (v : UInt8) : Checked (List UInt8) :=
  if i < b.length then .ok (b.set i v) else .error (.index i)

/-- `copy(b[i:j], s)`. -/
def copy (b : List UInt8) (i j : Nat) (s : List UInt8) : Checked (List UInt8) :=
  if i ≤ j ∧ j ≤ b.length then .ok (splice b i (i + (s.take (j - i)).length) (s.take (j - i))) else .error (.range i j)

/-- A number of `w` bytes into `b[i:j]`. -/
def put (w : Nat) (b : List UInt8) (i j n : Nat) : Checked (List UInt8) :=
  if i ≤ j ∧ j ≤ b.length then
    if w ≤ j - i then .ok (splice b i (i + w) (be w n)) else .error (.index (w - 1))
  else .error (.range i j)

/-- The number in the first `w` bytes of a slice. -/
def number (w : Nat) (b : List UInt8) : Checked Nat := if w ≤ b.length then .ok (num (b.take w)) else .error (.index (w - 1))

theorem load_ok (h : i < b.length) : load b i = .ok (at' b i) := by
  simp [load, h, at', List.getD_eq_getElem?_getD]

theorem sub_ok (hij : i ≤ j) (hj : j ≤ b.length) : sub b i j = .ok ((b.take j).drop i) := by simp [sub, hij, hj]

theorem store_ok {v : UInt8} (h : i < b.length) : store b i v = .ok (b.set i v) := by simp [store, h]

/-- A source that fits is copied whole. -/
theorem copy_ok {s : List UInt8} (hij : i + s.length ≤ j) (hj : j ≤ b.length) :
    copy b i j s = .ok (splice b i (i + s.length) s) := by
  have htake : s.take (j - i) = s := List.take_of_length_le (by omega)
  rw [copy, if_pos ⟨by omega, hj⟩, htake]

/-- A copy to the open end of a list. -/
theorem copy_tail {p z s : List UInt8} (hi : p.length = i) (hlen : s.length ≤ z.length) :
    copy (p ++ z) i (p ++ z).length s = .ok (p ++ (s ++ z.drop s.length)) := by
  subst hi
  rw [copy_ok (by rw [List.length_append]; omega) (Nat.le_refl _), splice, List.take_left, List.append_assoc,
    List.drop_append]
  simp

theorem put_ok {w n : Nat} (hij : i + w ≤ j) (hj : j ≤ b.length) : put w b i j n = .ok (splice b i (i + w) (be w n)) := by
  rw [put, if_pos ⟨by omega, hj⟩, if_pos (by omega)]

theorem number_ok {w : Nat} (h : w ≤ b.length) : number w b = .ok (num (b.take w)) := by simp [number, h]

/-! An access to the first part of a list. -/

theorem load_append {p t : List UInt8} (h : i < p.length) : load (p ++ t) i = .ok (at' p i) := by
  rw [load_ok (by rw [List.length_append]; omega), at'_append_left h]

theorem splice_append {p t s : List UInt8} (h : i + s.length ≤ p.length) :
    splice (p ++ t) i (i + s.length) s = splice p i (i + s.length) s ++ t := by
  rw [splice, splice, List.take_append_of_le_length (by omega), List.drop_append_of_le_length h, List.append_assoc]
  simp

theorem copy_append {p t s : List UInt8} (hij : i + s.length ≤ j) (hj : j ≤ p.length) :
    copy (p ++ t) i j s = .ok (splice p i (i + s.length) s ++ t) := by
  rw [copy_ok hij (by rw [List.length_append]; omega), splice_append (by omega)]

theorem put_append {p t : List UInt8} {w n : Nat} (hij : i + w ≤ j) (hj : j ≤ p.length) :
    put w (p ++ t) i j n = .ok (splice p i (i + w) (be w n) ++ t) := by
  have hsplice := splice_append (p := p) (t := t) (s := be w n) (i := i) (by rw [be_length]; omega)
  rw [be_length] at hsplice
  rw [put_ok hij (by rw [List.length_append]; omega), hsplice]

theorem store_append {p t : List UInt8} {v : UInt8} (h : i < p.length) : store (p ++ t) i v = .ok (p.set i v ++ t) := by
  rw [store_ok (by rw [List.length_append]; omega), List.set_append_left _ _ h]

theorem sub_append {p t : List UInt8} (hij : i ≤ j) (hj : j ≤ p.length) : sub (p ++ t) i j = .ok ((p.take j).drop i) := by
  rw [sub_ok hij (by rw [List.length_append]; omega), List.take_append_of_le_length hj]

/-- A part that was written, at the end of what was written before it. -/
theorem splice_take {s : List UInt8} (h : i + s.length ≤ b.length) :
    (splice b i (i + s.length) s).take (i + s.length) = b.take i ++ s := by
  have hlen : (b.take i ++ s).length = i + s.length := by
    rw [List.length_append, List.length_take]
    omega
  rw [splice, ← hlen, List.take_left]

theorem set_take {v : UInt8} (h : i < b.length) : (b.set i v).take (i + 1) = b.take i ++ [v] := by
  rw [List.take_add_one, List.take_set_of_le (Nat.le_refl i), List.getElem?_set_self h]
  rfl

/-! What an access gives, where its indices are in range. -/

theorem load_gives (h : i < b.length) : Gives (fun _ => True) (load b i) := by
  rw [load_ok h]
  exact ends_ok trivial

theorem sub_gives (hij : i ≤ j) (hj : j ≤ b.length) : Gives (fun s => s.length = j - i) (sub b i j) := by
  rw [sub_ok hij hj]
  apply ends_ok
  rw [List.length_drop, List.length_take, Nat.min_eq_left hj]

theorem store_gives {v : UInt8} (h : i < b.length) : Gives (fun c => c.length = b.length) (store b i v) := by
  rw [store_ok h]
  exact ends_ok (List.length_set ..)

theorem copy_gives (hij : i ≤ j) (hj : j ≤ b.length) (s : List UInt8) : Gives (fun c => c.length = b.length) (copy b i j s) := by
  rw [copy, if_pos ⟨hij, hj⟩]
  apply ends_ok
  have htake : (s.take (j - i)).length ≤ j - i := List.length_take_le ..
  exact splice_length rfl (by omega)

theorem put_gives {w n : Nat} (hij : i + w ≤ j) (hj : j ≤ b.length) : Gives (fun c => c.length = b.length) (put w b i j n) := by
  rw [put_ok hij hj]
  exact ends_ok (splice_length (by rw [be_length]) (by omega))

theorem number_gives {w : Nat} (h : w ≤ b.length) : Gives (fun _ => True) (number w b) := by
  rw [number_ok h]
  exact ends_ok trivial

end Access

end Be300.Lib.Slices
