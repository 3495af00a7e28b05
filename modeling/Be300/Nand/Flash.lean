/-
  Be300.Nand.Flash — what runs of guest accesses do to the stored bytes of the flash chip.

  `flash_iff`: a run keeps what a flash chip should (`Flash`) exactly when no access of it
  wraps.
-/

import Mathlib.Data.List.Induction
import Be300.Nand.Steps

namespace Be300.Nand

/-! ## The stored bytes -/

def data (s : Chip) (a : Nat) : UInt8 := (s.image.getD fun _ => 0xFF) a

def spare (s : Chip) (a : Nat) : UInt8 := (s.oob.getD fun _ => 0xFF) a

/-- Bits go from 1 to 0 only. -/
def Clears (old new : UInt8) : Prop := new &&& old = new

/-- Only bits of the page change, and from 1 to 0. -/
structure Programmed (page : Nat) (s t : Chip) : Prop where
  data : ∀ a, Clears (data s a) (data t a) ∧ (a / pageData ≠ page → Nand.data t a = Nand.data s a)
  spare : ∀ a, Clears (spare s a) (spare t a) ∧ (a / pageOob ≠ page → Nand.spare t a = Nand.spare s a)

/-- All bytes of the block are 0xFF, and no others change. -/
structure Erased (block : Nat) (s t : Chip) : Prop where
  data : ∀ a, data t a = if a / (blockPages * pageData) = block then 0xFF else Nand.data s a
  spare : ∀ a, spare t a = if a / (blockPages * pageOob) = block then 0xFF else Nand.spare s a

/-- A page program stores some byte of its buffer. -/
def stores (s : Chip) : Bool :=
  (List.range s.programLength).any fun j =>
    decide (s.programColumn + j < pageData) || s.oob.isSome && decide (s.programColumn + j < pageRaw)

/-- The page an access programs. -/
def programs (s : Chip) (a : Access) : Option Nat :=
  match command s a with
  | some (_, cmd) =>
    if cmd = cmdPageProg ∧ s.state = .programData ∧ s.pageAddr < pageCount ∧ physicalBad s (s.pageAddr / blockPages) = false then
      some s.pageAddr
    else none
  | none => none

/-- The block an access erases. -/
def erases (s : Chip) (a : Access) : Option Nat :=
  match command s a with
  | some (engine, cmd) =>
    let block := if engine then xferBlockAddr s else s.pageAddr / blockPages
    if cmd = cmdErase2 ∧ s.state = .eraseSetup ∧ block < blockCount ∧ physicalBad s block = false then some block else none
  | none => none

section Commit

variable {s t : Chip}

theorem and_clears (x y : UInt8) : Clears x (x &&& y) := by
  unfold Clears
  rw [UInt8.and_comm x y, UInt8.and_assoc, UInt8.and_self]

theorem clears_self (x : UInt8) : Clears x x := UInt8.and_self

theorem Kept.data (h : Kept s t) (a : Nat) : data t a = data s a := by
  unfold Nand.data
  rw [h.image]

theorem Kept.spare (h : Kept s t) (a : Nat) : spare t a = spare s a := by
  unfold Nand.spare
  rw [h.oob]

/-- A commit that has no page to program. -/
theorem commitProgram_none (h : s.pageAddr ≥ pageCount ∨ physicalBad s (s.pageAddr / blockPages) = true) :
    Kept s (commitProgram s) := by
  unfold commitProgram
  split
  · exact Kept.refl s
  by_cases hpage : s.pageAddr ≥ pageCount
  · rw [if_pos hpage]
    exact Kept.refl s
  · rw [if_neg hpage, if_pos (h.resolve_left hpage)]
    exact ⟨rfl, rfl, rfl, rfl, rfl, id, fun _ => id, id⟩

theorem stores_iff (hs : Inv s) : stores s = true ↔ 0 < s.programLength := by
  unfold stores
  rw [List.any_eq_true]
  constructor
  · rintro ⟨j, hj, -⟩
    have := List.mem_range.mp hj
    omega
  · intro hlen
    have hcol := hs.2.2.2.1
    refine ⟨0, List.mem_range.mpr hlen, ?_⟩
    rw [Bool.or_eq_true]
    exact Or.inl (decide_eq_true (by unfold pageData; omega))

/-- What the commit of a page program does. -/
theorem commitProgram_spec (hs : Inv s) (hpage : s.pageAddr < pageCount)
    (hgood : physicalBad s (s.pageAddr / blockPages) = false) :
    Inv (commitProgram s) ∧ (commitProgram s).outside = s.outside ∧ (commitProgram s).dirty = (s.dirty || stores s) ∧
      Programmed s.pageAddr s (commitProgram s) := by
  have hstores := stores_iff hs
  obtain ⟨image, himage⟩ := Option.isSome_iff_exists.mp hs.1
  obtain ⟨-, hsize, hcol, hpcol, hlen⟩ := hs
  unfold nandImageSize at hsize
  unfold pageCount at hpage
  have hlimit : (if s.programColumn + s.programLength > pageData then
      if s.programColumn < pageData then pageData - s.programColumn else 0 else s.programLength) =
      min s.programLength (512 - s.programColumn) := by
    unfold pageData
    split
    · omega
    · omega
  have hcommit : commitProgram s = { s with
      oob := s.oob.map fun oob a =>
        let col := a - s.pageAddr * pageOob + pageData
        if s.pageAddr * pageOob ≤ a ∧ col < pageRaw ∧ s.programColumn ≤ col ∧ col < s.programColumn + s.programLength then
          oob a &&& s.programBuffer (col - s.programColumn)
        else oob a
      image := some fun a =>
        if s.pageAddr * pageData + s.programColumn ≤ a ∧
            a < s.pageAddr * pageData + s.programColumn + min s.programLength (512 - s.programColumn) then
          image a &&& s.programBuffer (a - (s.pageAddr * pageData + s.programColumn))
        else image a
      outside := s.outside || decide (min s.programLength (512 - s.programColumn) > 0 ∧
        s.pageAddr * pageData + s.programColumn + min s.programLength (512 - s.programColumn) > s.imageSize)
      dirty := s.dirty || s.oob.isSome && decide (s.programLength > 0) || decide (min s.programLength (512 - s.programColumn) > 0)
      blockDataState := if min s.programLength (512 - s.programColumn) > 0 then
        update s.blockDataState (s.pageAddr / blockPages) 1 else s.blockDataState } := by
    unfold commitProgram
    rw [himage]
    simp only
    rw [if_neg (by unfold pageCount; omega), if_neg (by rw [hgood]; decide), hlimit]
  rw [hcommit]
  refine ⟨⟨rfl, hsize, hcol, hpcol, hlen⟩, ?_, ?_, ?_, ?_⟩
  · simp only [hsize]
    rw [decide_eq_false (by unfold pageData; omega), Bool.or_false]
  · simp only
    rw [Bool.or_assoc]
    congr 1
    apply Bool.eq_iff_iff.mpr
    rw [hstores, Bool.or_eq_true, Bool.and_eq_true, decide_eq_true_eq, decide_eq_true_eq]
    omega
  · intro a
    unfold data
    simp only [himage, Option.getD_some]
    by_cases ha : s.pageAddr * pageData + s.programColumn ≤ a ∧
        a < s.pageAddr * pageData + s.programColumn + min s.programLength (512 - s.programColumn)
    · rw [if_pos ha]
      unfold pageData at ha ⊢
      exact ⟨and_clears _ _, fun hne => absurd (by omega) hne⟩
    · rw [if_neg ha]
      exact ⟨clears_self _, fun _ => rfl⟩
  · intro a
    unfold spare
    simp only
    cases s.oob with
    | none => exact ⟨clears_self _, fun _ => rfl⟩
    | some oob =>
      simp only [Option.map_some, Option.getD_some]
      by_cases ha : s.pageAddr * pageOob ≤ a ∧ a - s.pageAddr * pageOob + pageData < pageRaw ∧
          s.programColumn ≤ a - s.pageAddr * pageOob + pageData ∧
          a - s.pageAddr * pageOob + pageData < s.programColumn + s.programLength
      · rw [if_pos ha]
        unfold pageOob pageData pageRaw at ha
        unfold pageOob
        exact ⟨and_clears _ _, fun hne => absurd (by omega) hne⟩
      · rw [if_neg ha]
        exact ⟨clears_self _, fun _ => rfl⟩

/-- An erase that has no block to erase. -/
theorem commitErase_none (h : s.pageAddr / blockPages ≥ blockCount ∨ physicalBad s (s.pageAddr / blockPages) = true) :
    Kept s (commitErase s) := by
  unfold commitErase
  split
  · exact Kept.refl s
  simp only
  by_cases hblock : s.pageAddr / blockPages ≥ blockCount
  · rw [if_pos hblock]
    exact Kept.refl s
  · rw [if_neg hblock, if_pos (h.resolve_left hblock)]
    exact ⟨rfl, rfl, rfl, rfl, rfl, id, fun _ => id, id⟩

/-- What the commit of a block erase does. -/
theorem commitErase_spec (hs : Inv s) (hblock : s.pageAddr / blockPages < blockCount)
    (hgood : physicalBad s (s.pageAddr / blockPages) = false) :
    Inv (commitErase s) ∧ (commitErase s).outside = s.outside ∧ (commitErase s).dirty = true ∧
      Erased (s.pageAddr / blockPages) s (commitErase s) := by
  obtain ⟨image, himage⟩ := Option.isSome_iff_exists.mp hs.1
  obtain ⟨-, hsize, hcol, hpcol, hlen⟩ := hs
  unfold nandImageSize at hsize
  have hcommit : commitErase s = { s with
      oob := s.oob.map fun oob a =>
        if s.pageAddr / blockPages * blockPages * pageOob ≤ a ∧
            a < s.pageAddr / blockPages * blockPages * pageOob + blockPages * pageOob then 0xFF else oob a
      image := some fun a =>
        if s.pageAddr / blockPages * blockPages * pageData ≤ a ∧
            a < s.pageAddr / blockPages * blockPages * pageData + blockPages * pageData then 0xFF else image a
      outside := s.outside || decide (s.pageAddr / blockPages * blockPages * pageData + blockPages * pageData > s.imageSize)
      dirty := true
      blockDataState := update s.blockDataState (s.pageAddr / blockPages) 0 } := by
    unfold commitErase
    rw [himage]
    simp only
    rw [if_neg (by omega), if_neg (by rw [hgood]; decide)]
  rw [hcommit]
  generalize s.pageAddr / blockPages = block at hblock
  unfold blockCount at hblock
  refine ⟨⟨rfl, hsize, hcol, hpcol, hlen⟩, ?_, rfl, ?_, ?_⟩
  · simp only [hsize]
    rw [decide_eq_false (by unfold pageData blockPages; omega), Bool.or_false]
  · intro a
    unfold data
    simp only [himage, Option.getD_some]
    by_cases ha : a / (blockPages * pageData) = block
    · rw [if_pos ha, if_pos (by unfold blockPages pageData at ha ⊢; omega)]
    · rw [if_neg ha, if_neg (by unfold blockPages pageData at ha ⊢; omega)]
  · intro a
    unfold spare
    simp only
    cases s.oob with
    | none => exact (ite_self _).symm
    | some oob =>
      simp only [Option.map_some, Option.getD_some]
      by_cases ha : a / (blockPages * pageOob) = block
      · rw [if_pos ha, if_pos (by unfold blockPages pageOob at ha ⊢; omega)]
      · rw [if_neg ha, if_neg (by unfold blockPages pageOob at ha ⊢; omega)]

end Commit

/-- The stored bytes stay, or the access completes the program of a page or the erase of a block. -/
inductive Change (s : Chip) (a : Access) (t : Chip) : Prop
  | same (hdata : ∀ x, data t x = data s x) (hspare : ∀ x, spare t x = spare s x)
  | programmed (page : Nat) (hpage : page < pageCount) (hcommand : programs s a = some page) (h : Programmed page s t)
  | erased (block : Nat) (hblock : block < blockCount) (hcommand : erases s a = some block) (h : Erased block s t)

/-- The access commits a program of at least one stored byte, or an erase. -/
def Committed (s : Chip) (a : Access) : Prop := (programs s a).isSome = true ∧ stores s = true ∨ (erases s a).isSome = true

section Effect

variable {s : Chip}

theorem command_none {a : Access} (h : command s a = none) : programs s a = none ∧ erases s a = none := by
  unfold programs erases
  rw [h]
  exact ⟨rfl, rfl⟩

/-- What an access that does not wrap does to the stored bytes. -/
theorem step_effect (hs : Inv s) {a : Access} (hw : ¬ Wraps s a) :
    Inv (step s a) ∧ (step s a).outside = s.outside ∧ ((step s a).dirty = true ↔ s.dirty = true ∨ Committed s a) ∧
      Change s a (step s a) := by
  have hcases := step_cases hs a
  generalize step s a = t at hcases ⊢
  have hkept : Kept s t → programs s a = none ∨ stores s = false → erases s a = none →
      Inv t ∧ t.outside = s.outside ∧ (t.dirty = true ↔ s.dirty = true ∨ Committed s a) ∧ Change s a t := by
    intro h hprogram herase
    refine ⟨h.inv hs, h.outside, ?_, .same h.data h.spare⟩
    rw [h.dirty]
    refine ⟨Or.inl, fun h' => h'.elim id fun hc => ?_⟩
    rcases hc with ⟨hp, hst⟩ | he
    · rcases hprogram with hprogram | hprogram
      · rw [hprogram] at hp
        cases hp
      · exact absurd (hprogram.symm.trans hst) (by decide)
    · rw [herase] at he
      cases he
  cases hcases with
  | kept hcommand hwraps h => exact hkept h (Or.inl (command_none hcommand).1) (command_none hcommand).2
  | wraps hwraps => exact absurd hwraps hw
  | commits engine cmd hcommand h =>
    cases h with
    | program hcmd hstate h =>
      have herase : erases s a = none := by
        unfold erases
        rw [hcommand]
        exact if_neg fun h' => absurd (hcmd.symm.trans h'.1) (by decide)
      by_cases hgood : s.pageAddr < pageCount ∧ physicalBad s (s.pageAddr / blockPages) = false
      · have hprogram : programs s a = some s.pageAddr := by
          unfold programs
          rw [hcommand]
          exact if_pos ⟨hcmd, hstate, hgood⟩
        obtain ⟨hinv, hout, hdirty, hdata⟩ := commitProgram_spec hs hgood.1 hgood.2
        refine ⟨h.inv hinv, h.outside.trans hout, ?_, .programmed s.pageAddr hgood.1 hprogram
          ⟨fun x => h.data x ▸ hdata.data x, fun x => h.spare x ▸ hdata.spare x⟩⟩
        rw [h.dirty, hdirty, Bool.or_eq_true]
        unfold Committed
        rw [hprogram, herase]
        simp
      · have hprogram : programs s a = none := by
          unfold programs
          rw [hcommand]
          exact if_neg fun h' => hgood h'.2.2
        refine hkept ((commitProgram_none ?_).trans h) (Or.inl hprogram) herase
        by_cases hpage : s.pageAddr < pageCount
        · exact Or.inr (by simpa using fun hbad => hgood ⟨hpage, hbad⟩)
        · exact Or.inl (by omega)
    | erase hcmd hstate h =>
      have hprogram : programs s a = none := by
        unfold programs
        rw [hcommand]
        exact if_neg fun h' => absurd (hcmd.symm.trans h'.1) (by decide)
      obtain ⟨u, hu, hblock⟩ : ∃ u, (if engine = true then { s with pageAddr := xferBlockAddr s * blockPages } else s) = u ∧
          u.pageAddr / blockPages = if engine = true then xferBlockAddr s else s.pageAddr / blockPages := by
        refine ⟨_, rfl, ?_⟩
        split
        · exact Nat.mul_div_cancel _ (by decide)
        · rfl
      have hsame : Kept s u := by
        rw [← hu]
        split <;> exact ⟨rfl, rfl, rfl, rfl, rfl, id, fun _ => id, id⟩
      rw [hu] at h
      have herase : erases s a = if u.pageAddr / blockPages < blockCount ∧ physicalBad s (u.pageAddr / blockPages) = false then
          some (u.pageAddr / blockPages) else none := by
        unfold erases
        rw [hcommand]
        simp only
        rw [← hblock]
        by_cases hgood : u.pageAddr / blockPages < blockCount ∧ physicalBad s (u.pageAddr / blockPages) = false
        · rw [if_pos ⟨hcmd, hstate, hgood⟩, if_pos hgood]
        · rw [if_neg fun h' => hgood h'.2.2, if_neg hgood]
      by_cases hgood : u.pageAddr / blockPages < blockCount ∧ physicalBad s (u.pageAddr / blockPages) = false
      · rw [if_pos hgood] at herase
        obtain ⟨hinv, hout, hdirty, hdata⟩ := commitErase_spec (hsame.inv hs) hgood.1 ((sameBad hsame.oob).symm ▸ hgood.2)
        refine ⟨h.inv hinv, h.outside.trans (hout.trans hsame.outside), ?_, .erased _ hgood.1 herase ⟨fun x => ?_, fun x => ?_⟩⟩
        · rw [h.dirty, hdirty]
          unfold Committed
          rw [herase]
          simp
        · rw [h.data, hdata.data, hsame.data]
        · rw [h.spare, hdata.spare, hsame.spare]
      · rw [if_neg hgood] at herase
        refine hkept (hsame.trans ((commitErase_none ?_).trans h)) (Or.inl hprogram) herase
        rw [sameBad hsame.oob]
        by_cases hlt : u.pageAddr / blockPages < blockCount
        · exact Or.inr (by simpa using fun hbad => hgood ⟨hlt, hbad⟩)
        · exact Or.inl (by omega)
    | other hprogram herase h =>
      refine hkept h (Or.inl ?_) ?_
      · unfold programs
        rw [hcommand]
        exact if_neg fun h' => hprogram ⟨h'.1, h'.2.1⟩
      · unfold erases
        rw [hcommand]
        exact if_neg fun h' => herase ⟨h'.1, h'.2.1⟩

end Effect

/-! ## Every run -/

theorem run_concat (s : Chip) (l : List Access) (a : Access) : run s (l ++ [a]) = step (run s l) a := by
  rw [run, List.foldl_append]
  rfl

theorem inv_nandInit (image : Nat → UInt8) (validSize : Nat) (oob : Option (Nat → UInt8)) :
    Inv (nandInit (some image) nandImageSize validSize oob) := by
  refine ⟨rfl, rfl, ?_, ?_, ?_⟩ <;> simp [nandInit]

/-- What a flash chip keeps over a run: each access changes the stored bytes as `Change` says
    and none of a bad block, no access is outside the image, and the dirty flag tells of a
    commit. -/
structure Flash (s₀ : Chip) (l : List Access) : Prop where
  change : ∀ before a after, l = before ++ a :: after → Change (run s₀ before) a (step (run s₀ before) a)
  bad : ∀ before a after, l = before ++ a :: after → ∀ block, physicalBad (run s₀ before) block = true → ∀ x,
    (x / (blockPages * pageData) = block → data (step (run s₀ before) a) x = data (run s₀ before) x) ∧
      (x / (blockPages * pageOob) = block → spare (step (run s₀ before) a) x = spare (run s₀ before) x)
  inside : ∀ before after, l = before ++ after → (run s₀ before).outside = false
  dirty : ∀ before after, l = before ++ after →
    ((run s₀ before).dirty = true ↔ ∃ first a rest, before = first ++ a :: rest ∧ Committed (run s₀ first) a)

section Runs

variable {s₀ : Chip} {l : List Access}

theorem inv_run (hs : Inv s₀) (hw : ∀ before a after, l = before ++ a :: after → ¬ Wraps (run s₀ before) a) :
    Inv (run s₀ l) ∧ (run s₀ l).outside = s₀.outside := by
  induction l using List.reverseRecOn with
  | nil => exact ⟨hs, rfl⟩
  | append_singleton l a ih =>
    obtain ⟨hinv, hout⟩ := ih fun before b after hl => hw before b (after ++ [a])
      (by rw [hl, List.append_assoc, List.cons_append])
    obtain ⟨hinv', hout', -⟩ := step_effect hinv (hw l a [] rfl)
    rw [run_concat]
    exact ⟨hinv', hout'.trans hout⟩

theorem dirty_run (hs : Inv s₀) (hdirty : s₀.dirty = false)
    (hw : ∀ before a after, l = before ++ a :: after → ¬ Wraps (run s₀ before) a) :
    (run s₀ l).dirty = true ↔ ∃ first a rest, l = first ++ a :: rest ∧ Committed (run s₀ first) a := by
  induction l using List.reverseRecOn with
  | nil => simp [run, hdirty]
  | append_singleton l a ih =>
    have hw' : ∀ before b after, l = before ++ b :: after → ¬ Wraps (run s₀ before) b :=
      fun before b after hl => hw before b (after ++ [a]) (by rw [hl, List.append_assoc, List.cons_append])
    rw [run_concat, (step_effect (inv_run hs hw').1 (hw l a [] rfl)).2.2.1, ih hw']
    constructor
    · rintro (⟨first, b, rest, rfl, hc⟩ | hc)
      · exact ⟨first, b, rest ++ [a], by rw [List.append_assoc, List.cons_append], hc⟩
      · exact ⟨l, a, [], rfl, hc⟩
    · rintro ⟨first, b, rest, hl, hc⟩
      rcases List.eq_nil_or_concat rest with rfl | ⟨rest, c, rfl⟩
      · obtain ⟨rfl, hlast⟩ := List.append_inj' hl rfl
        cases hlast
        exact Or.inr hc
      · rw [List.concat_eq_append, ← List.cons_append, ← List.append_assoc] at hl
        obtain ⟨rfl, -⟩ := List.append_inj' hl rfl
        exact Or.inl ⟨first, b, rest, rfl, hc⟩

/-- A bad block is not changed by a page program or a block erase. -/
theorem bad_kept {s t : Chip} {a : Access} (h : Change s a t) {block : Nat} (hbad : physicalBad s block = true) (x : Nat) :
    (x / (blockPages * pageData) = block → data t x = data s x) ∧
      (x / (blockPages * pageOob) = block → spare t x = spare s x) := by
  cases h with
  | same hdata hspare => exact ⟨fun _ => hdata x, fun _ => hspare x⟩
  | programmed page hpage hcommand h =>
    have hgood : physicalBad s (page / blockPages) = false := by
      unfold programs at hcommand
      split at hcommand
      · split at hcommand
        · rename_i hif
          cases hcommand
          exact hif.2.2.2
        · cases hcommand
      · cases hcommand
    have hne : page / blockPages ≠ block := fun h => absurd (hbad.symm.trans (h ▸ hgood)) (by decide)
    unfold blockPages at hne
    refine ⟨fun hx => (h.data x).2 fun hp => hne ?_, fun hx => (h.spare x).2 fun hp => hne ?_⟩
    · unfold blockPages at hx
      rw [← hp, ← hx, Nat.div_div_eq_div_mul, Nat.mul_comm]
    · unfold blockPages at hx
      rw [← hp, ← hx, Nat.div_div_eq_div_mul, Nat.mul_comm]
  | erased b hb hcommand h =>
    have hgood : physicalBad s b = false := by
      unfold erases at hcommand
      split at hcommand
      · obtain ⟨hif, hb⟩ := Option.ite_none_right_eq_some.mp hcommand
        rw [← Option.some.inj hb]
        exact hif.2.2.2
      · cases hcommand
    have hne : block ≠ b := fun h => absurd (hbad.symm.trans (h ▸ hgood)) (by decide)
    exact ⟨fun hx => by rw [h.data, if_neg (hx ▸ hne)], fun hx => by rw [h.spare, if_neg (hx ▸ hne)]⟩

end Runs

/-- A run is what a flash chip's should be exactly when none of its accesses wraps. -/
theorem flash_iff (image : Nat → UInt8) (validSize : Nat) (oob : Option (Nat → UInt8)) (l : List Access) :
    Flash (nandInit (some image) nandImageSize validSize oob) l ↔ ∀ before a after, l = before ++ a :: after →
      ¬ Wraps (run (nandInit (some image) nandImageSize validSize oob) before) a := by
  have hinit := inv_nandInit image validSize oob
  generalize hs₀ : nandInit (some image) nandImageSize validSize oob = s₀ at hinit ⊢
  have hdirty : s₀.dirty = false := hs₀ ▸ rfl
  have hout : s₀.outside = false := hs₀ ▸ rfl
  constructor
  · -- an access that wraps, with none before it, is outside the image
    intro h
    have hclear : ∀ n before a after, before.length = n → l = before ++ a :: after → ¬ Wraps (run s₀ before) a := by
      intro n
      induction n using Nat.strongRecOn with
      | _ n ih =>
        intro before a after hlen hl hwraps
        have hfront : ∀ first b rest, before = first ++ b :: rest → ¬ Wraps (run s₀ first) b := by
          intro first b rest hb
          refine ih first.length ?_ first b (rest ++ a :: after) rfl ?_
          · rw [← hlen, hb, List.length_append, List.length_cons]
            omega
          · rw [hl, hb, List.append_assoc, List.cons_append]
        have hinside := h.inside (before ++ [a]) after (by rw [hl, List.append_assoc, List.singleton_append])
        rw [run_concat] at hinside
        have hcases := step_cases (inv_run hinit hfront).1 a
        generalize step (run s₀ before) a = t at hcases hinside
        cases hcases with
        | kept _ hnot => exact hnot hwraps
        | commits engine cmd hcommand =>
          rw [wraps_command hwraps] at hcommand
          cases hcommand
        | wraps _ h => exact absurd (hinside.symm.trans h) (by decide)
    exact fun before a after hl => hclear _ before a after rfl hl
  · intro hw
    have hfront : ∀ before after, l = before ++ after → ∀ first a rest, before = first ++ a :: rest →
      ¬ Wraps (run s₀ first) a := by
      intro before after hl first a rest hb
      exact hw first a (rest ++ after) (by rw [hl, hb, List.append_assoc, List.cons_append])
    have hchange : ∀ before a after, l = before ++ a :: after → Change (run s₀ before) a (step (run s₀ before) a) :=
      fun before a after hl => (step_effect (inv_run hinit (hfront before _ hl)).1 (hw before a after hl)).2.2.2
    exact ⟨hchange, fun before a after hl block hbad x => bad_kept (hchange before a after hl) hbad x,
      fun before after hl => (inv_run hinit (hfront before after hl)).2.trans hout,
      fun before after hl => dirty_run hinit hdirty (hfront before after hl)⟩

/-- READ1 with the column byte 143 and the row bytes 0x07, 0x1F, 0x7C, and a read of the data port. -/
def wrapAccesses : List Access :=
  [.write regCmd 1 0x01, .write regAddr 1 143, .write regAddr 1 0x07, .write regAddr 1 0x1F, .write regAddr 1 0x7C,
    .read regData 2 0]

/-- The data port reads the image at offset 2^32 - 1. -/
theorem port_reads_outside : ¬ (∀ (image : Nat → UInt8) (validSize : Nat) (oob : Option (Nat → UInt8)) (l : List Access),
      Flash (nandInit (some image) nandImageSize validSize oob) l) ∧
    (run (nandInit (some fun _ => 0xFF) nandImageSize nandImageSize none) wrapAccesses).outside = true := by
  have hout : (run (nandInit (some fun _ => 0xFF) nandImageSize nandImageSize none) wrapAccesses).outside = true := by
    decide
  refine ⟨fun h => ?_, hout⟩
  have hinside := (h (fun _ => 0xFF) nandImageSize none wrapAccesses).inside wrapAccesses [] (List.append_nil _).symm
  exact absurd (hinside.symm.trans hout) (by decide)

end Be300.Nand
