/-
  Be300.Lib.Stream — an unbounded stream of elements, cut into numbered pieces.

  `slice f o n` is the stream's `n` elements from position `o`. A receiver that has the
  positions below `p` and is handed a piece numbered by its first position keeps `trim`:
  the piece's part from `p` on, or nothing when the piece does not reach `p` or starts
  after it. `trim_slice`: for pieces near `p` what it keeps is the stream's next part.
-/

import Be300.Lib.Seq32

namespace Be300.Lib

variable {α : Type}

def slice (f : Nat → α) (o n : Nat) : List α := (List.range n).map fun i => f (o + i)

@[simp] theorem slice_length (f : Nat → α) (o n : Nat) : (slice f o n).length = n := by simp [slice]

@[simp] theorem slice_zero (f : Nat → α) (o : Nat) : slice f o 0 = [] := rfl

theorem slice_getElem? (f : Nat → α) (o : Nat) {n i : Nat} (h : i < n) : (slice f o n)[i]? = some (f (o + i)) := by
  simp [slice, h]

theorem slice_drop (f : Nat → α) (o n k : Nat) : (slice f o n).drop k = slice f (o + k) (n - k) := by
  apply List.ext_getElem
  · simp
  · intro i h1 h2
    simp [slice, Nat.add_assoc]

theorem slice_take (f : Nat → α) (o n k : Nat) : (slice f o n).take k = slice f o (min k n) := by
  simp [slice, ← List.map_take, List.take_range]

theorem slice_append (f : Nat → α) (o m n : Nat) : slice f o m ++ slice f (o + m) n = slice f o (m + n) := by
  simp [slice, List.range_add, Function.comp_def, Nat.add_assoc]

theorem slice_isPrefix (f : Nat → α) (o : Nat) {m n : Nat} (h : m ≤ n) : slice f o m <+: slice f o n :=
  ⟨slice f (o + m) (n - m), by rw [slice_append]; congr 1; omega⟩

/-- The part of `data`, numbered from `seq`, that starts at the number `next`. -/
def trim (next seq : Seq) (data : List α) : List α :=
  let skip := (next - seq).toInt
  if 0 ≤ skip ∧ skip ≤ data.length then data.drop skip.toNat else []

/-- A piece that starts less than 2^32 before position `p` and ends less than 2^32 after
    it is trimmed to the stream's elements from `p` on, up to the piece's end. -/
theorem trim_slice (f : Nat → α) (isn : Seq) {o n p : Nat} (hn : n < 2 ^ 31) (h1 : p < o + 2 ^ 32) (h2 : o + n < p + 2 ^ 32) :
    let t := trim (seqAt isn p) (seqAt isn o) (slice f o n)
    t = slice f p t.length ∧ (t ≠ [] → p + t.length = o + n) ∧ (o ≤ p → p ≤ o + n → p + t.length = o + n) := by
  simp only [trim, slice_length]
  split
  · rename_i hskip
    obtain ⟨hle, hge, heq⟩ := seqAt_sub_window hn h1 (by omega) hskip
    rw [heq, slice_drop, show o + (p - o) = p by omega]
    simp only [slice_length, true_and]
    exact ⟨fun _ => by omega, fun _ _ => by omega⟩
  · rename_i hskip
    refine ⟨rfl, fun h => absurd rfl h, fun hle hge => ?_⟩
    exfalso
    apply hskip
    rw [seqAt_sub_near (by omega) (by omega)]
    omega

end Be300.Lib
