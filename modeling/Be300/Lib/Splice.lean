/-
  Be300.Lib.Splice — a part of a byte list replaced.

  `splice l a b chunk` is `l[a:b] = chunk`. Where `chunk` is as long as the part, a byte of
  the result is one of `chunk` inside the part and the old one outside
  (`at'_splice_inside`, `at'_splice_outside`), so a number is read back where it was packed,
  and as it was anywhere else.
-/

import Be300.Lib.Bytes

namespace Be300.Lib

def splice (l : List UInt8) (a b : Nat) (chunk : List UInt8) : List UInt8 := l.take a ++ chunk ++ l.drop b

section Splice

variable {l chunk : List UInt8} {a b : Nat}

theorem splice_length (hab : a + chunk.length = b) (hb : b ≤ l.length) : (splice l a b chunk).length = l.length := by
  simp only [splice, List.length_append, List.length_take, List.length_drop]
  omega

theorem at'_splice_left {i : Nat} (ha : a ≤ l.length) (hi : i < a) : at' (splice l a b chunk) i = at' l i := by
  have htake : (l.take a).length = a := by simp [ha]
  rw [splice, List.append_assoc, at'_append_left (by rw [htake]; exact hi)]
  simp [at', List.getD_eq_getElem?_getD, hi]

theorem at'_splice_inside {k : Nat} (ha : a ≤ l.length) (hk : k < chunk.length) :
    at' (splice l a b chunk) (a + k) = at' chunk k := by
  have htake : (l.take a).length = a := by simp [ha]
  have happend := at'_append_right (l.take a) (chunk ++ l.drop b) k
  rw [htake] at happend
  rw [splice, List.append_assoc, happend, at'_append_left hk]

theorem at'_splice_right {i : Nat} (hab : a + chunk.length = b) (hb : b ≤ l.length) (hi : b ≤ i) :
    at' (splice l a b chunk) i = at' l i := by
  have hlen : (l.take a ++ chunk).length = b := by
    simp only [List.length_append, List.length_take]
    omega
  have happend := at'_append_right (l.take a ++ chunk) (l.drop b) (i - b)
  rw [hlen, at'_drop, Nat.add_sub_cancel' hi] at happend
  exact happend

theorem at'_splice_outside {i : Nat} (hab : a + chunk.length = b) (hb : b ≤ l.length) (hi : i < a ∨ b ≤ i) :
    at' (splice l a b chunk) i = at' l i := by
  rcases hi with hi | hi
  · exact at'_splice_left (by omega) hi
  · exact at'_splice_right hab hb hi

/-- A number read where it was written. -/
theorem rd_splice {w n : Nat} (hn : n < 256 ^ w) (ha : a + w ≤ l.length) : rd w (at' (splice l a b (le w n))) a = n := by
  have hread : rd w (at' (splice l a b (le w n))) a = rd w (at' (le w n ++ [])) 0 := by
    apply rd_congr
    intro k hk
    rw [at'_splice_inside (by omega) (by simpa using hk), List.append_nil, Nat.zero_add]
  rw [hread, rd_le_of_lt hn]

/-- A part of a list is told by its bytes. -/
theorem take_drop_eq {o n : Nat} {m : List UInt8} (hn : m.length = n) (ho : o + n ≤ l.length)
    (h : ∀ k < n, at' l (o + k) = at' m k) : (l.drop o).take n = m := by
  apply List.ext_getElem
  · rw [List.length_take, List.length_drop, hn]
    omega
  · intro k hk hm
    have hbyte := h k (by omega)
    simp only [at', List.getD_eq_getElem?_getD, List.getElem?_eq_getElem hm,
      List.getElem?_eq_getElem (show o + k < l.length by omega),
      Option.getD_some] at hbyte
    rw [List.getElem_take, List.getElem_drop]
    exact hbyte

theorem at'_take_drop {o n k : Nat} (hk : k < n) : at' ((l.drop o).take n) k = at' l (o + k) := by
  simp [at', List.getD_eq_getElem?_getD, hk]

end Splice

end Be300.Lib
