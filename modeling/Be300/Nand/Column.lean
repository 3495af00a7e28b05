/-
  Be300.Nand.Column — the column of a page program through the legacy interface.

  SEQIN clears the column, and the first address cycle latches it for a read only: whatever
  it is, the data are programmed at column 0 (`program_at_zero`), in the page that the third
  byte of the row before gives.
-/

import Be300.Nand.Program

namespace Be300.Nand

/-- The image with bytes programmed into a page at a column. -/
def programmed (row col : Nat) (data : List UInt8) (image : Nat → UInt8) : Nat → UInt8 := fun a =>
  let start := row * pageData + col
  if start ≤ a ∧ a < start + data.length then image a &&& data.getD (a - start) 0 else image a

/-- What a byte of the page is combined with. -/
def mask (col : Nat) (data : List UInt8) (k : Nat) : UInt8 :=
  if col ≤ k ∧ k < col + data.length then data.getD (k - col) 0 else 0xFF

/-- A program through the legacy interface does this to the image, and nothing to the spare bytes. -/
def ProgramsAt (s : Chip) (r : Iface) (col row : Nat) (chunks : List (Nat × Nat)) : Prop :=
  (run s (r.programAt col row chunks)).image = s.image.map (programmed row col (chunks.flatMap chunkBytes)) ∧
    (run s (r.programAt col row chunks)).oob = s.oob

section Column

variable {row col : Nat} {data : List UInt8} {image : Nat → UInt8} {s : Chip}

theorem and_ff (b : UInt8) : b &&& 0xFF = b := by
  have h : b &&& (-1 : UInt8) = b := UInt8.and_neg_one
  exact h

theorem programmed_mask (hfit : col + data.length ≤ pageData) (a : Nat) : programmed row col data image a =
    if row * pageData ≤ a ∧ a < row * pageData + pageData then image a &&& mask col data (a - row * pageData) else image a := by
  unfold programmed mask
  simp only
  by_cases hin : row * pageData + col ≤ a ∧ a < row * pageData + col + data.length
  · rw [if_pos hin, if_pos (by omega), if_pos (by omega), Nat.sub_sub]
  · rw [if_neg hin]
    split
    · rw [if_neg (by omega), and_ff]
    · rfl

theorem commitProgram_good (himage : s.image = some image) (hpage : s.pageAddr = row) (hrow : row < pageCount)
    (hgood : physicalBad s (row / blockPages) = false) (hlen : data.length ≤ pageData) (hb : Buffered data s) :
    (commitProgram s).image = some (programmed row 0 data image) ∧ (commitProgram s).oob = s.oob := by
  unfold pageData at hlen
  have hbad : ¬ physicalBad s (row / blockPages) = true := by rw [hgood]; decide
  have hlimit : ¬ 0 + data.length > 512 := by omega
  unfold commitProgram pageData
  rw [himage]
  simp only [hpage, hb.programColumn, hb.programLength, hb.programBuffer]
  rw [if_neg (by omega), if_neg hbad, if_neg hlimit]
  simp only
  refine ⟨?_, ?_⟩
  · congr 1
    funext a
    unfold programmed pageData
    simp only
    by_cases hin : row * 512 + 0 ≤ a ∧ a < row * 512 + 0 + data.length
    · rw [if_pos hin, if_pos hin, if_pos (by omega)]
    · rw [if_neg hin, if_neg hin]
  · cases s.oob with
    | none => rfl
    | some oob =>
      -- the data end before the spare bytes
      rw [Option.map_some]
      congr 1
      funext a
      apply if_neg
      omega

theorem programEffect_good {oob stored : Option (Nat → UInt8)} (hrow : row < pageCount)
    (hgood : ∀ t : Chip, t.oob = oob → physicalBad t (row / blockPages) = false) (hlen : data.length ≤ pageData) :
    (programEffect stored oob row data).1 = stored.map (programmed row 0 data) ∧
      (programEffect stored oob row data).2.1 = oob := by
  cases stored with
  | none => exact ⟨rfl, rfl⟩
  | some image => exact commitProgram_good rfl rfl hrow (hgood _ rfl) hlen ⟨rfl, rfl, rfl, rfl⟩

/-- The data land at column 0. -/
theorem program_at_zero (r : Iface) (chunks : List (Nat × Nat)) (hrow : row < pageCount)
    (hgood : physicalBad s (row / blockPages) = false) (hlen : (chunks.flatMap chunkBytes).length ≤ pageData) :
    (run s (r.programAt col row chunks)).image =
        s.image.map (if s.pageAddr < 65536 then programmed row 0 (chunks.flatMap chunkBytes) else id) ∧
      (run s (r.programAt col row chunks)).oob = s.oob := by
  unfold pageCount at hrow
  have heffect := legacy_programAt r s col (show row < 65536 by omega) chunks
  rw [List.take_of_length_le (by unfold pageData at hlen; omega)] at heffect
  have himage : (run s (r.programAt col row chunks)).image = (effect (run s (r.programAt col row chunks))).1 := rfl
  have hoob : (run s (r.programAt col row chunks)).oob = (effect (run s (r.programAt col row chunks))).2.1 := rfl
  rw [himage, hoob, heffect]
  by_cases hlow : s.pageAddr < 65536
  · rw [show s.pageAddr / 65536 * 65536 + row = row by omega, if_pos hlow]
    exact programEffect_good hrow (fun t ht => (congrFun (sameBad ht) _).trans hgood) hlen
  · rw [programEffect_outside (by unfold pageCount; omega), if_neg hlow, Option.map_id]
    exact ⟨rfl, rfl⟩

/-- Combined with the data at the column, the bytes of the page are what they are combined
    with the data at column 0, or with none where the row lies past the chip. -/
def SameAtZero (s : Chip) (col row : Nat) (data : List UInt8) : Prop :=
  ∀ image, s.image = some image → ∀ k < pageData,
    image (row * pageData + k) &&& mask col data k =
      image (row * pageData + k) &&& if s.pageAddr < 65536 then mask 0 data k else 0xFF

theorem programsAt_iff (r : Iface) (chunks : List (Nat × Nat)) (hrow : row < pageCount)
    (hgood : physicalBad s (row / blockPages) = false) (hfit : col + (chunks.flatMap chunkBytes).length ≤ pageData) :
    ProgramsAt s r col row chunks ↔ SameAtZero s col row (chunks.flatMap chunkBytes) := by
  obtain ⟨himage, hoob⟩ := @program_at_zero row col s r chunks hrow hgood (by omega)
  unfold ProgramsAt SameAtZero
  rw [himage, hoob]
  generalize chunks.flatMap chunkBytes = data at hfit ⊢
  have hzero : ∀ image a, (if s.pageAddr < 65536 then programmed row 0 data else id) image a =
      if row * pageData ≤ a ∧ a < row * pageData + pageData then
        image a &&& if s.pageAddr < 65536 then mask 0 data (a - row * pageData) else 0xFF
      else image a := by
    intro image a
    by_cases hlow : s.pageAddr < 65536
    · simp only [if_pos hlow]
      exact programmed_mask (by omega) a
    · simp only [if_neg hlow, and_ff, ite_self]
      rfl
  cases s.image with
  | none => simp
  | some image =>
    simp only [Option.map_some, Option.some.injEq, and_true]
    constructor
    · intro h image' himage' k hk
      have hat := congrFun h (row * pageData + k)
      have hin : row * pageData ≤ row * pageData + k ∧ row * pageData + k < row * pageData + pageData := by omega
      rw [hzero, programmed_mask hfit, if_pos hin, if_pos hin, Nat.add_sub_cancel_left] at hat
      rw [← himage']
      exact hat.symm
    · intro h
      funext a
      rw [hzero, programmed_mask hfit]
      by_cases hin : row * pageData ≤ a ∧ a < row * pageData + pageData
      · have hk := h image rfl (a - row * pageData) (by omega)
        rw [Nat.add_sub_cancel' hin.1] at hk
        rw [if_pos hin, if_pos hin, hk]
      · rw [if_neg hin, if_neg hin]

/-- Data that change nothing. -/
theorem mask_ff (h : ∀ b ∈ data, b = 0xFF) (col k : Nat) : mask col data k = 0xFF := by
  unfold mask
  split
  · rw [List.getD_eq_getElem _ _ (by omega)]
    exact h _ (List.getElem_mem _)
  · rfl

/-- Only data that change nothing are the same at two columns. -/
theorem ff_of_mask (hcol : 0 < col) (hfit : col + data.length ≤ pageData) (h : ∀ k < pageData, mask col data k = mask 0 data k) :
    ∀ b ∈ data, b = 0xFF := by
  have hget : ∀ i < data.length, data.getD i 0 = 0xFF := by
    intro i
    induction i using Nat.strongRecOn with
    | ind i ih =>
      intro hi
      have hk := h i (by omega)
      unfold mask at hk
      rw [if_pos (by omega : 0 ≤ i ∧ i < 0 + data.length), Nat.sub_zero] at hk
      by_cases hbefore : i < col
      · rw [if_neg (by omega)] at hk
        exact hk.symm
      · rw [if_pos (by omega), ih (i - col) (by omega) (by omega)] at hk
        exact hk.symm
  intro b hb
  obtain ⟨i, hi, rfl⟩ := List.mem_iff_getElem.mp hb
  have hi' := hget i hi
  rw [List.getD_eq_getElem _ _ hi] at hi'
  exact hi'

theorem programsAt_any (r : Iface) (chunks : List (Nat × Nat)) (hrow : row < pageCount)
    (hgood : physicalBad s (row / blockPages) = false) (hfit : col + (chunks.flatMap chunkBytes).length ≤ pageData) :
    (∀ image, ProgramsAt { s with image := some image } r col row chunks) ↔
      col = 0 ∧ s.pageAddr < 65536 ∨ ∀ b ∈ chunks.flatMap chunkBytes, b = 0xFF := by
  have hiff : ∀ image, ProgramsAt { s with image := some image } r col row chunks ↔
      SameAtZero { s with image := some image } col row (chunks.flatMap chunkBytes) :=
    fun image => programsAt_iff (s := { s with image := some image }) r chunks hrow hgood hfit
  simp only [hiff]
  generalize chunks.flatMap chunkBytes = data at hfit ⊢
  constructor
  · intro h
    -- an erased page shows all of the data
    have hff : ∀ k < pageData, mask col data k = if s.pageAddr < 65536 then mask 0 data k else 0xFF := by
      intro k hk
      have hk' := h (fun _ => 0xFF) _ rfl k hk
      have hone : ∀ b : UInt8, 0xFF &&& b = b := fun b => (UInt8.and_comm _ _).trans (and_ff b)
      simp only [hone] at hk'
      exact hk'
    by_cases hlow : s.pageAddr < 65536
    · simp only [if_pos hlow] at hff
      by_cases hcol : col = 0
      · exact Or.inl ⟨hcol, hlow⟩
      · exact Or.inr (ff_of_mask (Nat.pos_of_ne_zero hcol) hfit hff)
    · simp only [if_neg hlow] at hff
      right
      intro b hb
      obtain ⟨i, hi, rfl⟩ := List.mem_iff_getElem.mp hb
      have hi' := hff (col + i) (by omega)
      unfold mask at hi'
      rw [if_pos (by omega), Nat.add_sub_cancel_left, List.getD_eq_getElem _ _ hi] at hi'
      exact hi'
  · rintro (⟨rfl, hlow⟩ | hff) image image' himage k hk
    · simp only
      rw [if_pos hlow]
    · rw [mask_ff hff]
      congr 1
      split
      · exact (mask_ff hff 0 k).symm
      · rfl

end Column

/-- A program puts its data at the column exactly when these bytes of the page come out the
    same at column 0 of the page that the third byte of the row before leaves. Whatever is
    stored, that is when the column is 0 and that byte is zero, or the data change nothing. -/
theorem program_at_iff (s : Chip) (r : Iface) (col row : Nat) (chunks : List (Nat × Nat))
    (hrow : row < pageCount) (hgood : physicalBad s (row / blockPages) = false)
    (hfit : col + (chunks.flatMap chunkBytes).length ≤ pageData) :
    (ProgramsAt s r col row chunks ↔ SameAtZero s col row (chunks.flatMap chunkBytes)) ∧
      ((∀ image, ProgramsAt { s with image := some image } r col row chunks) ↔
        col = 0 ∧ s.pageAddr < 65536 ∨ ∀ b ∈ chunks.flatMap chunkBytes, b = 0xFF) :=
  ⟨programsAt_iff r chunks hrow hgood hfit, programsAt_any r chunks hrow hgood hfit⟩

theorem program_at_column_zero :
    ProgramsAt { nandInit none nandImageSize 0 none with image := some fun _ => 0xFF } .registers 0 7 [(1, 0x55)] :=
  (program_at_iff (nandInit none nandImageSize 0 none) .registers 0 7 [(1, 0x55)] (by decide) (by decide) (by decide)).2.mpr
    (Or.inl (by decide)) fun _ => 0xFF

/-- A zero programmed at column 1 of an erased page goes to column 0. -/
theorem program_drops_column : ¬ ProgramsAt (nandInit (some fun _ => 0xFF) nandImageSize 0 none) .registers 1 0 [(1, 0)] := by
  intro h
  have hsame := (programsAt_iff .registers [(1, 0)] (by decide) (by decide) (by decide)).mp h _ rfl 0 (by decide)
  exact absurd hsame (by decide)

end Be300.Nand
