/-
  Be300.Nand.Steps — what an access to the NAND controller can do.

  `step_cases` says it once: nothing to the stored bytes (`Kept`), the commit of a page
  program or of a block erase, or a read past the image. The last is a read of the 16-bit
  data port whose 32-bit offset is 2^32 - 1 (`Wraps`): one more is 0, which passes the check
  against the size of the image.
-/

import Be300.Nand.Ports

namespace Be300.Nand

/-! ## What stays -/

/-- The image is there in full, and the page buffer and its column are in bounds. -/
def Inv (s : Chip) : Prop :=
  s.image.isSome = true ∧ s.imageSize = nandImageSize ∧ s.column < 512 ∧ s.programColumn < 512 ∧ s.programLength ≤ 528

/-- The stored bytes and what is recorded of them are the same. -/
structure Kept (s t : Chip) : Prop where
  image : t.image = s.image
  imageSize : t.imageSize = s.imageSize
  oob : t.oob = s.oob
  outside : t.outside = s.outside
  dirty : t.dirty = s.dirty
  column : s.column < 512 → t.column < 512
  programColumn : s.column < 512 → s.programColumn < 512 → t.programColumn < 512
  programLength : s.programLength ≤ 528 → t.programLength ≤ 528

/-- What a commit depends on is the same. -/
structure SameCommit (s t : Chip) : Prop where
  kept : Kept s t
  pageAddr : t.pageAddr = s.pageAddr
  column : t.column = s.column
  programBuffer : t.programBuffer = s.programBuffer
  programColumn : t.programColumn = s.programColumn
  programLength : t.programLength = s.programLength

section Kept

variable {s t u : Chip}

theorem Kept.refl (s : Chip) : Kept s s := ⟨rfl, rfl, rfl, rfl, rfl, id, fun _ => id, id⟩

theorem Kept.trans (h : Kept s t) (h' : Kept t u) : Kept s u :=
  ⟨h'.image.trans h.image, h'.imageSize.trans h.imageSize, h'.oob.trans h.oob, h'.outside.trans h.outside,
    h'.dirty.trans h.dirty, fun hc => h'.column (h.column hc),
      fun hc hp => h'.programColumn (h.column hc) (h.programColumn hc hp),
    fun hl => h'.programLength (h.programLength hl)⟩

theorem Kept.inv (h : Kept s t) (hs : Inv s) : Inv t := by
  obtain ⟨himage, hsize, hc, hp, hl⟩ := hs
  exact ⟨h.image ▸ himage, h.imageSize.trans hsize, h.column hc, h.programColumn hc hp, h.programLength hl⟩

theorem kept_setupTransfer (s : Chip) : Kept s (setupTransfer s) := by
  unfold setupTransfer
  simp only
  split
  · split <;> exact ⟨rfl, rfl, rfl, rfl, rfl, id, fun _ => id, id⟩
  all_goals exact ⟨rfl, rfl, rfl, rfl, rfl, id, fun _ => id, id⟩

theorem kept_latchCycle (s : Chip) (b : UInt8) : Kept s (latchCycle s b) := by
  have hb : b.toNat < 256 := b.toNat_lt
  unfold latchCycle
  split
  · split
    · refine ⟨rfl, rfl, rfl, rfl, rfl, fun hc => ?_, fun _ => id, id⟩
      simp only
      omega
    · exact Kept.refl s
  all_goals exact ⟨rfl, rfl, rfl, rfl, rfl, id, fun _ => id, id⟩

theorem kept_legacyAddress (s : Chip) (b : UInt8) : Kept s (legacyAddress s b).2 := by
  refine (kept_latchCycle s b).trans ?_
  unfold legacyAddress
  simp only
  generalize latchCycle s b = u
  split
  · have hset := kept_setupTransfer { u with addrCycle := (u.addrCycle + 1) % 256 }
    exact ⟨hset.image, hset.imageSize, hset.oob, hset.outside, hset.dirty, hset.column, hset.programColumn, hset.programLength⟩
  · split
    · exact ⟨rfl, rfl, rfl, rfl, rfl, id, fun hc _ => hc, id⟩
    · exact ⟨rfl, rfl, rfl, rfl, rfl, id, fun _ => id, id⟩

theorem kept_programAppend (value size i : Nat) (s : Chip) : Kept s (programAppend value size i s) := by
  induction size generalizing i s with
  | zero => exact Kept.refl s
  | succ size ih =>
    unfold programAppend
    split
    · exact Kept.refl s
    · rename_i hroom
      refine Kept.trans ?_ (ih _ _)
      refine ⟨rfl, rfl, rfl, rfl, rfl, id, fun _ => id, fun hlen => ?_⟩
      unfold pageRaw at hroom
      simp only
      omega

theorem kept_streamWriteBytes (value size i : Nat) (s : Chip) : Kept s (streamWriteBytes value size i s) := by
  induction size generalizing i s with
  | zero => exact Kept.refl s
  | succ size ih =>
    unfold streamWriteBytes
    split
    · exact Kept.refl s
    · refine Kept.trans ?_ (ih _ _)
      refine ⟨rfl, rfl, rfl, rfl, rfl, id, fun _ => id, fun hlen => ?_⟩
      simp only
      split
      · rename_i hin
        unfold pageRaw at hin
        omega
      · exact hlen

theorem colAddr_lt (s : Chip) : xferColAddr s < 512 := by
  have : (s.xferAddrBytes 0).toNat < 256 := (s.xferAddrBytes 0).toNat_lt
  unfold xferColAddr
  omega

theorem kept_xferLatchAddrState (s : Chip) : Kept s (xferLatchAddrState s) := by
  unfold xferLatchAddrState
  split
  · split
    · exact ⟨rfl, rfl, rfl, rfl, rfl, fun _ => colAddr_lt s, fun _ => id, id⟩
    · exact Kept.refl s
  · split
    · split <;> exact ⟨rfl, rfl, rfl, rfl, rfl, id, fun _ => id, id⟩
    · exact Kept.refl s

theorem kept_xferAddressed (s : Chip) : Kept s (xferAddressed s) := by
  unfold xferAddressed
  split
  · exact ⟨rfl, rfl, rfl, rfl, rfl, id, fun _ => id, id⟩
  split
  · exact ⟨rfl, rfl, rfl, rfl, rfl, id, fun _ => id, id⟩
  split
  · exact ⟨rfl, rfl, rfl, rfl, rfl, fun _ => colAddr_lt s, fun _ => id, id⟩
  split <;> exact ⟨rfl, rfl, rfl, rfl, rfl, id, fun _ => id, id⟩

theorem kept_physicalEcc (hs : Inv s) : Kept s (physicalEcc s) := by
  obtain ⟨himage, hsize, -⟩ := hs
  unfold physicalEcc
  simp only
  split
  · exact ⟨rfl, rfl, rfl, rfl, rfl, id, fun _ => id, id⟩
  split
  · exact ⟨rfl, rfl, rfl, rfl, rfl, id, fun _ => id, id⟩
  · rename_i hpage
    refine ⟨rfl, rfl, rfl, ?_, rfl, id, fun _ => id, id⟩
    unfold pageCount at hpage
    unfold nandImageSize at hsize
    simp only [Option.isNone_eq_false_iff.mpr himage, Bool.or_false, hsize]
    rw [decide_eq_false (by omega), Bool.or_false]

theorem kept_latchEccWord (s : Chip) (value : Nat) : Kept s (latchEccWord s value) := by
  unfold latchEccWord
  split <;> exact ⟨rfl, rfl, rfl, rfl, rfl, id, fun _ => id, id⟩

theorem kept_writeXferMisc (hs : Inv s) (value : Nat) : Kept s (writeXferMisc s value) := by
  have hword := kept_latchEccWord s value
  unfold writeXferMisc
  split
  · simp only
    split
    · have hecc := hword.trans (kept_physicalEcc (hword.inv hs))
      exact ⟨hecc.image, hecc.imageSize, hecc.oob, hecc.outside, hecc.dirty, hecc.column, hecc.programColumn, hecc.programLength⟩
    · exact hword
  · exact Kept.refl s

theorem kept_fillBuffer (s : Chip) : Kept s (fillBuffer s) := by
  have hopen : Kept s (if (!s.streamActive) = true ∧ s.xferAddrCount ≥ 3 then openStream s else s) := by
    split <;> exact ⟨rfl, rfl, rfl, rfl, rfl, id, fun _ => id, id⟩
  unfold fillBuffer
  simp only
  generalize (if (!s.streamActive) = true ∧ s.xferAddrCount ≥ 3 then openStream s else s) = u at hopen ⊢
  refine hopen.trans ?_
  split <;> exact ⟨rfl, rfl, rfl, rfl, rfl, id, fun _ => id, id⟩

theorem kept_startXferMode (s : Chip) (mode : UInt8) : Kept s (startXferMode s mode) := by
  unfold startXferMode
  split
  · exact ⟨rfl, rfl, rfl, rfl, rfl, id, fun _ => id, id⟩
  split
  · exact kept_fillBuffer s
  split
  · exact ⟨rfl, rfl, rfl, rfl, rfl, id, fun _ => id, id⟩
  split
  · exact ⟨rfl, rfl, rfl, rfl, rfl, id, fun _ => id, id⟩
  split
  · have hlatch := kept_xferLatchAddrState s
    exact ⟨hlatch.image, hlatch.imageSize, hlatch.oob, hlatch.outside, hlatch.dirty, hlatch.column, hlatch.programColumn,
      hlatch.programLength⟩
  · exact Kept.refl s

theorem kept_writeXferMode (s : Chip) (mode : UInt8) : Kept s (writeXferMode s mode) := by
  have hstart := kept_startXferMode { s with burst520 := if mode = 0x01 then true else s.burst520 } mode
  exact ⟨hstart.image, hstart.imageSize, hstart.oob, hstart.outside, hstart.dirty, hstart.column, hstart.programColumn,
    hstart.programLength⟩

theorem kept_writeXferAddr (s : Chip) (b : UInt8) : Kept s (writeXferAddr s b) := by
  unfold writeXferAddr
  split
  · refine Kept.trans ?_ (kept_xferLatchAddrState _)
    exact ⟨rfl, rfl, rfl, rfl, rfl, id, fun _ => id, id⟩
  · exact ⟨rfl, rfl, rfl, rfl, rfl, id, fun _ => id, id⟩

theorem kept_writeBootMode (s : Chip) (mode : UInt8) : Kept s (writeBootMode s mode) := by
  unfold writeBootMode
  simp only
  repeat' split
  all_goals exact ⟨rfl, rfl, rfl, rfl, rfl, id, fun _ => id, id⟩

theorem kept_writeBoot (s : Chip) (offset value : Nat) : Kept s (writeBoot s offset value) := by
  have hreset : ∀ t : Chip, Kept t (bootReset t) := fun t => ⟨rfl, rfl, rfl, rfl, rfl, id, fun _ => id, id⟩
  unfold writeBoot
  extract_lets +onlyGivenNames t b
  have hregs : Kept s t := ⟨rfl, rfl, rfl, rfl, rfl, id, fun _ => id, id⟩
  refine hregs.trans ?_
  split
  · split
    · exact hreset t
    · exact Kept.refl t
  split
  · split
    · exact ⟨rfl, rfl, rfl, rfl, rfl, id, fun _ => id, id⟩
    split
    · exact hreset t
    · exact Kept.refl t
  split
  · exact ⟨rfl, rfl, rfl, rfl, rfl, id, fun _ => id, id⟩
  split
  · exact ⟨rfl, rfl, rfl, rfl, rfl, id, fun _ => id, id⟩
  split
  · exact kept_writeBootMode t _
  split
  · split
    · extract_lets w
      have hcount : Kept t w := ⟨rfl, rfl, rfl, rfl, rfl, id, fun _ => id, id⟩
      split
      · exact hcount.trans ⟨rfl, rfl, rfl, rfl, rfl, id, fun _ => id, id⟩
      · exact hcount
    · exact Kept.refl t
  · exact Kept.refl t

theorem kept_writeData (s : Chip) (size value : Nat) : Kept s (writeData s size value) := by
  unfold writeData
  split
  · exact kept_programAppend value size 0 s
  · exact ⟨rfl, rfl, rfl, rfl, rfl, id, fun _ => id, id⟩

theorem kept_writeStream (s : Chip) (size value : Nat) : Kept s (writeStream s size value) := by
  unfold writeStream
  split
  · exact kept_streamWriteBytes value size 0 s
  · exact Kept.refl s

theorem kept_readDioData (s : Chip) : Kept s (readDioData s).2 := by
  unfold readDioData
  repeat' split
  all_goals exact ⟨rfl, rfl, rfl, rfl, rfl, id, fun _ => id, id⟩

end Kept

/-! ## What an access does -/

/-- What a command byte can do. -/
inductive Commits (s : Chip) (engine : Bool) (cmd : UInt8) (t : Chip) : Prop
  | program (hcmd : cmd = cmdPageProg) (hstate : s.state = .programData) (h : Kept (commitProgram s) t)
  | erase (hcmd : cmd = cmdErase2) (hstate : s.state = .eraseSetup)
      (h : Kept (commitErase (if engine then { s with pageAddr := xferBlockAddr s * blockPages } else s)) t)
  | other (hprogram : ¬ (cmd = cmdPageProg ∧ s.state = .programData)) (herase : ¬ (cmd = cmdErase2 ∧ s.state = .eraseSetup))
      (h : Kept s t)

section Steps

variable {s t : Chip}

theorem sameBad (hoob : t.oob = s.oob) : physicalBad t = physicalBad s := by
  funext block
  unfold physicalBad
  rw [hoob]

/-- A commit does not depend on the rest of the state. -/
theorem SameCommit.program (h : SameCommit s t) : Kept (commitProgram s) (commitProgram t) := by
  obtain ⟨⟨himage, hsize, hoob, hout, hdirty, -, -, -⟩, hpage, hcol, hbuf, hpcol, hlen⟩ := h
  unfold commitProgram
  rw [himage, hpage, sameBad hoob, hoob, hout, hdirty, hsize, hbuf, hpcol, hlen]
  split
  · exact ⟨himage, hsize, hoob, hout, hdirty, fun hc => hcol ▸ hc, fun _ hp => hpcol ▸ hp, fun hl => hlen ▸ hl⟩
  split
  · exact ⟨himage, hsize, hoob, hout, hdirty, fun hc => hcol ▸ hc, fun _ hp => hpcol ▸ hp, fun hl => hlen ▸ hl⟩
  split <;> exact ⟨rfl, rfl, rfl, rfl, rfl, fun hc => hcol ▸ hc, fun _ => id, id⟩

theorem SameCommit.erase (h : SameCommit s t) : Kept (commitErase s) (commitErase t) := by
  obtain ⟨⟨himage, hsize, hoob, hout, hdirty, -, -, -⟩, hpage, hcol, hbuf, hpcol, hlen⟩ := h
  unfold commitErase
  rw [himage, hpage, sameBad hoob, hoob, hout, hdirty, hsize, hbuf, hpcol, hlen]
  split
  · exact ⟨himage, hsize, hoob, hout, hdirty, fun hc => hcol ▸ hc, fun _ hp => hpcol ▸ hp, fun hl => hlen ▸ hl⟩
  simp only
  split
  · exact ⟨himage, hsize, hoob, hout, hdirty, fun hc => hcol ▸ hc, fun _ hp => hpcol ▸ hp, fun hl => hlen ▸ hl⟩
  split <;> exact ⟨rfl, rfl, rfl, rfl, rfl, fun hc => hcol ▸ hc, fun _ => id, id⟩

theorem Commits.not {engine : Bool} {cmd c : UInt8} (hc : cmd = c) (hprogram : c ≠ cmdPageProg) (herase : c ≠ cmdErase2)
    (h : Kept s t) : Commits s engine cmd t :=
  .other (fun h' => hprogram (hc ▸ h'.1)) (fun h' => herase (hc ▸ h'.1)) h

theorem startCommand_commits (s : Chip) (cmd : UInt8) : Commits s false cmd (startCommand s cmd) := by
  have hzero : 0 < 512 := by decide
  have hhalf : 256 < 512 := by decide
  unfold startCommand
  by_cases h1 : cmd = cmdRead0
  · rw [if_pos h1]
    exact .not h1 (by decide) (by decide) ⟨rfl, rfl, rfl, rfl, rfl, fun _ => hzero, fun _ => id, id⟩
  rw [if_neg h1]
  by_cases h2 : cmd = cmdRead1
  · rw [if_pos h2]
    exact .not h2 (by decide) (by decide) ⟨rfl, rfl, rfl, rfl, rfl, fun _ => hhalf, fun _ => id, id⟩
  rw [if_neg h2]
  by_cases h3 : cmd = cmdReadOob
  · rw [if_pos h3]
    exact .not h3 (by decide) (by decide) ⟨rfl, rfl, rfl, rfl, rfl, id, fun _ => id, id⟩
  rw [if_neg h3]
  by_cases h4 : cmd = cmdReadId
  · rw [if_pos h4]
    exact .not h4 (by decide) (by decide) ⟨rfl, rfl, rfl, rfl, rfl, id, fun _ => id, id⟩
  rw [if_neg h4]
  by_cases h5 : cmd = cmdStatus
  · rw [if_pos h5]
    exact .not h5 (by decide) (by decide) ⟨rfl, rfl, rfl, rfl, rfl, id, fun _ => id, id⟩
  rw [if_neg h5]
  by_cases h6 : cmd = cmdSeqIn
  · rw [if_pos h6]
    exact .not h6 (by decide) (by decide) ⟨rfl, rfl, rfl, rfl, rfl, fun _ => hzero, fun _ _ => hzero, fun _ => Nat.zero_le 528⟩
  rw [if_neg h6]
  by_cases h7 : cmd = cmdErase1
  · rw [if_pos h7]
    exact .not h7 (by decide) (by decide) ⟨rfl, rfl, rfl, rfl, rfl, id, fun _ => id, id⟩
  rw [if_neg h7]
  by_cases hprog : cmd = cmdPageProg
  · rw [if_pos hprog]
    by_cases hstate : s.state = .programData
    · rw [if_pos hstate]
      have hsame : SameCommit s { s with statusValue := 0xC0 } :=
        ⟨⟨rfl, rfl, rfl, rfl, rfl, id, fun _ => id, id⟩, rfl, rfl, rfl, rfl, rfl⟩
      have h := hsame.program
      exact .program hprog hstate ⟨h.image, h.imageSize, h.oob, h.outside, h.dirty, h.column, h.programColumn, h.programLength⟩
    · rw [if_neg hstate]
      exact .other (fun h => hstate h.2) (fun h => absurd (hprog.symm.trans h.1) (by decide))
        ⟨rfl, rfl, rfl, rfl, rfl, id, fun _ => id, id⟩
  rw [if_neg hprog]
  by_cases herase : cmd = cmdErase2
  · rw [if_pos herase]
    by_cases hstate : s.state = .eraseSetup
    · rw [if_pos hstate]
      have hsame : SameCommit s
          { s with statusValue := 0xC0 } :=
        ⟨⟨rfl, rfl, rfl, rfl, rfl, id, fun _ => id, id⟩, rfl, rfl, rfl, rfl, rfl⟩
      have h := hsame.erase
      exact .erase herase hstate ⟨h.image, h.imageSize, h.oob, h.outside, h.dirty, h.column, h.programColumn, h.programLength⟩
    · rw [if_neg hstate]
      exact .other (fun h => hprog h.1) (fun h => hstate h.2) ⟨rfl, rfl, rfl, rfl, rfl, id, fun _ => id, id⟩
  rw [if_neg herase]
  exact .other (fun h => hprog h.1) (fun h => herase h.1) ⟨rfl, rfl, rfl, rfl, rfl, id, fun _ => id, id⟩

theorem xferCommand_commits (s : Chip) (cmd : UInt8) : Commits s true cmd (xferCommand s cmd) := by
  have hzero : 0 < 512 := by decide
  have hhalf : 256 < 512 := by decide
  unfold xferCommand
  by_cases h1 : cmd = cmdRead0
  · rw [if_pos h1]
    exact .not h1 (by decide) (by decide) ⟨rfl, rfl, rfl, rfl, rfl, fun _ => hzero, fun _ => id, id⟩
  rw [if_neg h1]
  by_cases h2 : cmd = cmdRead1
  · rw [if_pos h2]
    exact .not h2 (by decide) (by decide) ⟨rfl, rfl, rfl, rfl, rfl, fun _ => hhalf, fun _ => id, id⟩
  rw [if_neg h2]
  by_cases h3 : cmd = cmdReadOob
  · rw [if_pos h3]
    exact .not h3 (by decide) (by decide) ⟨rfl, rfl, rfl, rfl, rfl, id, fun _ => id, id⟩
  rw [if_neg h3]
  by_cases h4 : cmd = cmdReadId
  · rw [if_pos h4]
    exact .not h4 (by decide) (by decide) ⟨rfl, rfl, rfl, rfl, rfl, id, fun _ => id, id⟩
  rw [if_neg h4]
  by_cases h5 : cmd = cmdStatus
  · rw [if_pos h5]
    exact .not h5 (by decide) (by decide) ⟨rfl, rfl, rfl, rfl, rfl, id, fun _ => id, id⟩
  rw [if_neg h5]
  by_cases h6 : cmd = cmdSeqIn
  · rw [if_pos h6]
    exact .not h6 (by decide) (by decide) ⟨rfl, rfl, rfl, rfl, rfl, fun _ => hzero, fun _ _ => hzero, fun _ => Nat.zero_le 528⟩
  rw [if_neg h6]
  by_cases h7 : cmd = cmdErase1
  · rw [if_pos h7]
    exact .not h7 (by decide) (by decide) ⟨rfl, rfl, rfl, rfl, rfl, id, fun _ => id, id⟩
  rw [if_neg h7]
  by_cases hprog : cmd = cmdPageProg
  · rw [if_pos hprog]
    by_cases hstate : s.state = .programData
    · rw [if_pos hstate]
      have hsame : SameCommit s { s with statusValue := 0xC0 } :=
        ⟨⟨rfl, rfl, rfl, rfl, rfl, id, fun _ => id, id⟩, rfl, rfl, rfl, rfl, rfl⟩
      have h := hsame.program
      exact .program hprog hstate ⟨h.image, h.imageSize, h.oob, h.outside, h.dirty, h.column, h.programColumn, h.programLength⟩
    · rw [if_neg hstate]
      exact .other (fun h => hstate h.2) (fun h => absurd (hprog.symm.trans h.1) (by decide))
        ⟨rfl, rfl, rfl, rfl, rfl, id, fun _ => id, id⟩
  rw [if_neg hprog]
  by_cases herase : cmd = cmdErase2
  · rw [if_pos herase]
    by_cases hstate : s.state = .eraseSetup
    · rw [if_pos hstate]
      have hsame : SameCommit { s with pageAddr := xferBlockAddr s * blockPages }
          { s with statusValue := 0xC0, pageAddr := xferBlockAddr s * blockPages } :=
        ⟨⟨rfl, rfl, rfl, rfl, rfl, id, fun _ => id, id⟩, rfl, rfl, rfl, rfl, rfl⟩
      have h := hsame.erase
      exact .erase herase hstate ⟨h.image, h.imageSize, h.oob, h.outside, h.dirty, h.column, h.programColumn, h.programLength⟩
    · rw [if_neg hstate]
      exact .other (fun h => hprog h.1) (fun h => hstate h.2) ⟨rfl, rfl, rfl, rfl, rfl, id, fun _ => id, id⟩
  rw [if_neg herase]
  by_cases hreset : cmd = cmdReset
  · rw [if_pos hreset]
    exact .not hreset (by decide) (by decide) ⟨rfl, rfl, rfl, rfl, rfl, id, fun _ => id, id⟩
  rw [if_neg hreset]
  exact .other (fun h => hprog h.1) (fun h => herase h.1) ⟨rfl, rfl, rfl, rfl, rfl, id, fun _ => id, id⟩

theorem legacyCommand_commits (h : SameCommit s t) (hstate : t.state = s.state) (cmd : UInt8) :
    Commits s false cmd (legacyCommand t cmd) := by
  have hcommits := startCommand_commits { t with addrCycle := 0, xferCursor := 0, ready := false } cmd
  have hsame : SameCommit s { t with addrCycle := 0, xferCursor := 0, ready := false } :=
    ⟨⟨h.kept.image, h.kept.imageSize, h.kept.oob, h.kept.outside, h.kept.dirty, h.kept.column, h.kept.programColumn,
      h.kept.programLength⟩, h.pageAddr, h.column, h.programBuffer, h.programColumn, h.programLength⟩
  unfold legacyCommand
  cases hcommits with
  | program hcmd hprog hc => exact .program hcmd (hstate.symm.trans hprog) (hsame.program.trans hc)
  | erase hcmd herase hc => exact .erase hcmd (hstate.symm.trans herase) (hsame.erase.trans hc)
  | other hprog herase hc =>
    exact .other (fun h' => hprog ⟨h'.1, hstate.trans h'.2⟩) (fun h' => herase ⟨h'.1, hstate.trans h'.2⟩) (hsame.kept.trans hc)

end Steps

/-- The command of a command phase of the transfer engine, and `true`. -/
def ackCommand (s : Chip) : Option (Bool × UInt8) := if s.xferPhase = 0x03 then some (true, s.xferPendingByte) else none

/-- The chip command an access completes, and whether the transfer engine sends it. -/
def command (s : Chip) : Access → Option (Bool × UInt8)
  | .read offset _ _ => if offset = regXferAck then ackCommand s else none
  | .write offset _ value =>
    if offset = regXferAck then ackCommand s
    else if offset = regCmd ∨ offset = regDioData ∧ s.dioMode &&& 0x80 ≠ 0 then some (false, byteOf value 0)
    else none
  | .streamReadDma _ => none

/-- A read of the 16-bit data port at the last 32-bit offset. -/
def Wraps (s : Chip) : Access → Prop
  | .read offset size _ => offset = regData ∧ 2 ≤ size ∧ reading s.state = true ∧ s.xferCursor < s.xferLength ∧
      u32 (s.nandOffset + s.xferCursor) = 2 ^ 32 - 1
  | _ => False

theorem wraps_command {s : Chip} {a : Access} (h : Wraps s a) : command s a = none := by
  cases a with
  | read offset size pc =>
    obtain ⟨rfl, -⟩ := h
    rfl
  | write => exact h.elim
  | streamReadDma => exact h.elim

/-- What an access can do. -/
inductive StepCases (s : Chip) (a : Access) (t : Chip) : Prop
  | kept (hcommand : command s a = none) (hwraps : ¬ Wraps s a) (h : Kept s t)
  | commits (engine : Bool) (cmd : UInt8) (hcommand : command s a = some (engine, cmd)) (h : Commits s engine cmd t)
  | wraps (hwraps : Wraps s a) (hout : t.outside = true)

section Accesses

variable {s t : Chip}

theorem commitPhase_cases (hs : SameCommit s t) (hstate : t.state = s.state) (hblock : xferBlockAddr t = xferBlockAddr s)
    (hphase : t.xferPhase = s.xferPhase) (hpending : t.xferPendingByte = s.xferPendingByte) :
    (ackCommand s = none ∧ Kept s (xferCommitPhase t)) ∨
      ∃ cmd, ackCommand s = some (true, cmd) ∧ Commits s true cmd (xferCommitPhase t) := by
  unfold ackCommand xferCommitPhase
  rw [← hphase, ← hpending]
  by_cases h3 : t.xferPhase = 0x03
  · rw [if_pos h3, if_pos h3]
    refine Or.inr ⟨t.xferPendingByte, rfl, ?_⟩
    have hcommits := xferCommand_commits { t with xferLastCmd := t.xferPendingByte } t.xferPendingByte
    generalize xferCommand { t with xferLastCmd := t.xferPendingByte } t.xferPendingByte = u at hcommits ⊢
    have hsame : SameCommit s { t with xferLastCmd := t.xferPendingByte } :=
      ⟨⟨hs.kept.image, hs.kept.imageSize, hs.kept.oob, hs.kept.outside, hs.kept.dirty, hs.kept.column, hs.kept.programColumn,
        hs.kept.programLength⟩, hs.pageAddr, hs.column, hs.programBuffer, hs.programColumn, hs.programLength⟩
    cases hcommits with
    | program hcmd hprog h => exact .program hcmd (hstate.symm.trans hprog) (hsame.program.trans h)
    | erase hcmd herase h =>
      refine .erase hcmd (hstate.symm.trans herase) (Kept.trans ?_ h)
      have hpage : SameCommit { s with pageAddr := xferBlockAddr s * blockPages }
          { t with xferLastCmd := t.xferPendingByte, pageAddr := xferBlockAddr t * blockPages } :=
        ⟨⟨hs.kept.image, hs.kept.imageSize, hs.kept.oob, hs.kept.outside, hs.kept.dirty, hs.kept.column,
          hs.kept.programColumn, hs.kept.programLength⟩, congrArg (· * blockPages) hblock, hs.column, hs.programBuffer,
          hs.programColumn, hs.programLength⟩
      exact hpage.erase
    | other hprog herase h =>
      exact .other (fun h' => hprog ⟨h'.1, hstate.trans h'.2⟩) (fun h' => herase ⟨h'.1, hstate.trans h'.2⟩) (hsame.kept.trans h)
  · rw [if_neg h3, if_neg h3]
    refine Or.inl ⟨rfl, ?_⟩
    split
    · exact hs.kept.trans (kept_xferAddressed t)
    · exact hs.kept

theorem kept_readXfer {offset : Nat} (hne : offset ≠ regXferAck) (size : Nat) : Kept s (readXfer s offset size).2 := by
  unfold readXfer
  rw [if_neg hne]
  repeat' split
  all_goals exact ⟨rfl, rfl, rfl, rfl, rfl, id, fun _ => id, id⟩

theorem kept_portRead (hs : Inv s) (hw : ¬ (s.xferCursor < s.xferLength ∧ u32 (s.nandOffset + s.xferCursor) = 2 ^ 32 - 1)) :
    Kept s (portRead s).2 := by
  have hsize : s.imageSize = 16777216 := hs.2.1
  have hlt : u32 (s.nandOffset + s.xferCursor) < 2 ^ 32 := Nat.mod_lt _ (by decide)
  unfold portRead
  split
  · exact Kept.refl s
  split
  · exact Kept.refl s
  rename_i hcursor
  simp only
  generalize u32 (s.nandOffset + s.xferCursor) = off at hlt hw ⊢
  have hnext : u32 (off + 1) = off + 1 := Nat.mod_eq_of_lt (by omega)
  split
  · rename_i hin
    refine ⟨rfl, rfl, rfl, ?_, rfl, id, fun _ => id, id⟩
    simp only
    rw [decide_eq_false (by omega), Bool.or_false]
  split <;> exact ⟨rfl, rfl, rfl, rfl, rfl, id, fun _ => id, id⟩

theorem portRead_wraps (hs : Inv s) (hcursor : s.xferCursor < s.xferLength)
    (hoff : u32 (s.nandOffset + s.xferCursor) = 2 ^ 32 - 1) : (portRead s).2.outside = true := by
  obtain ⟨image, himage⟩ := Option.isSome_iff_exists.mp hs.1
  have hsize : s.imageSize = 16777216 := hs.2.1
  unfold portRead
  rw [himage]
  simp only
  rw [if_neg (by omega), hoff, hsize, if_pos (by decide)]
  simp

theorem kept_readData (hs : Inv s) {size : Nat} (pc : Nat) (hw : ¬ Wraps s (.read regData size pc)) :
    Kept s (readData s size).2 := by
  unfold readData
  split
  · exact Kept.refl s
  split
  · rename_i hdata
    exact kept_portRead hs fun h => hw ⟨rfl, hdata.1, hdata.2.1, h.1, h.2⟩
  · exact ⟨rfl, rfl, rfl, rfl, rfl, id, fun _ => id, id⟩

theorem kept_read (hs : Inv s) {offset size pc : Nat} (hne : offset ≠ regXferAck) (hw : ¬ Wraps s (.read offset size pc)) :
    Kept s (read s offset size pc).2 := by
  have hsame : ∀ n : Nat, Kept s ((n, s) : Nat × Chip).2 := fun _ => Kept.refl s
  have hif : ∀ (c : Prop) [Decidable c] (x y : Nat × Chip), (c → Kept s x.2) → (¬ c → Kept s y.2) →
    Kept s (if c then x else y).2 := by
    intro c _ x y h1 h2
    by_cases hc : c
    · rw [if_pos hc]
      exact h1 hc
    · rw [if_neg hc]
      exact h2 hc
  unfold read
  refine hif _ _ _ (fun _ => hsame _) fun _ => hif _ _ _ (fun _ => hsame _) fun _ =>
    hif _ _ _ (fun _ => kept_readXfer hne size) fun _ => hif _ _ _ (fun _ => hsame _) fun _ => hif _ _ _ (fun _ => ?_) fun _ =>
    hif _ _ _ (fun _ => kept_readDioData s) fun _ => hif _ _ _ (fun _ => hsame _) fun _ => hif _ _ _ (fun _ => hsame _) fun _ =>
    hif _ _ _ (fun _ => hsame _) fun _ => hif _ _ _ (fun _ => hsame _) fun _ => hif _ _ _ (fun hdata => ?_) fun _ =>
    hif _ _ _ (fun _ => hsame _) fun _ => hif _ _ _ (fun _ => hsame _) fun _ => hsame _
  · refine hif _ _ _ (fun _ => ?_) fun _ => hsame _
    exact ⟨rfl, rfl, rfl, rfl, rfl, id, fun _ => id, id⟩
  · subst hdata
    exact kept_readData hs pc hw

theorem kept_xferReg (hs : Inv s) {offset : Nat} (hne : offset ≠ regXferAck) (value : Nat) : Kept s (xferReg s offset value) := by
  unfold xferReg
  split
  · exact ⟨rfl, rfl, rfl, rfl, rfl, id, fun _ => id, id⟩
  split
  · exact kept_writeXferAddr s _
  split
  · exact ⟨rfl, rfl, rfl, rfl, rfl, id, fun _ => id, id⟩
  split
  · exact kept_writeXferMode s _
  split
  · exact kept_writeXferMisc hs value
  · exact Kept.refl s

theorem kept_writeXfer (hs : Inv s) {offset : Nat} (hne : offset ≠ regXferAck) (value : Nat) :
    Kept s (writeXfer s offset value) := by
  have hregs : Kept s { s with xferRegs := update s.xferRegs ((offset - 0xA400) / 4) (u32 value) } :=
    ⟨rfl, rfl, rfl, rfl, rfl, id, fun _ => id, id⟩
  exact hregs.trans (kept_xferReg (hregs.inv hs) hne value)

theorem kept_routeDio (hmode : s.dioMode &&& 0x80 = 0) (size value : Nat) : Kept s (routeDio s size value) := by
  unfold routeDio
  rw [if_neg (by simpa using hmode)]
  split
  · have haddress := kept_legacyAddress s (byteOf value 0)
    generalize legacyAddress s (byteOf value 0) = r at haddress ⊢
    obtain ⟨done, t⟩ := r
    simp only at haddress ⊢
    split
    · exact haddress.trans ⟨rfl, rfl, rfl, rfl, rfl, id, fun _ => id, id⟩
    · exact haddress
  split
  · exact kept_programAppend value size 0 s
  · exact Kept.refl s

theorem kept_writeDioData (hmode : s.dioMode &&& 0x80 = 0) (size value : Nat) : Kept s (writeDioData s size value) := by
  have hlatch : Kept s { s with dioLastWrite := byteOf value 0 } := ⟨rfl, rfl, rfl, rfl, rfl, id, fun _ => id, id⟩
  exact hlatch.trans (kept_routeDio (s := { s with dioLastWrite := byteOf value 0 }) hmode size value)

theorem kept_writeCtrl (s : Chip) (offset value : Nat) : Kept s (writeCtrl s offset value) := by
  unfold writeCtrl
  exact ⟨rfl, rfl, rfl, rfl, rfl, id, fun _ => id, id⟩

theorem kept_writeStrap (s : Chip) (offset size value : Nat) : Kept s (writeStrap s offset size value) := by
  unfold writeStrap
  exact ⟨rfl, rfl, rfl, rfl, rfl, id, fun _ => id, id⟩

theorem write_cases (hs : Inv s) (offset size value : Nat) :
    StepCases s (.write offset size value) (write s offset size value) := by
  have hkept : ∀ t, Kept s t → offset ≠ regXferAck → ¬ (offset = regCmd ∨ offset = regDioData ∧ s.dioMode &&& 0x80 ≠ 0) →
      StepCases s (.write offset size value) t := by
    intro t h hack hcmd
    refine .kept ?_ id h
    simp only [command]
    rw [if_neg hack, if_neg hcmd]
  unfold write
  by_cases h1 : 0xA000 ≤ offset ∧ offset < 0xA020
  · rw [if_pos h1]
    exact hkept _ (kept_writeCtrl s offset value) (by unfold regXferAck; omega) (by unfold regCmd regDioData; omega)
  rw [if_neg h1]
  by_cases h2 : 0xA060 ≤ offset ∧ offset < 0xA160
  · rw [if_pos h2]
    exact hkept _ (kept_writeStrap s offset size value) (by unfold regXferAck; omega) (by unfold regCmd regDioData; omega)
  rw [if_neg h2]
  by_cases h3 : 0xA400 ≤ offset ∧ offset < 0xA500
  · rw [if_pos h3]
    by_cases hack : offset = regXferAck
    · subst hack
      -- the engine's acknowledge ends its phase
      have hwrite : writeXfer s regXferAck value =
          xferCommitPhase { s with xferRegs := update s.xferRegs ((regXferAck - 0xA400) / 4) (u32 value) } := by
        unfold writeXfer xferReg
        rw [if_neg (by decide), if_neg (by decide), if_pos rfl]
      have hcommand : command s (.write regXferAck size value) = ackCommand s := by
        unfold command
        exact if_pos rfl
      rw [hwrite]
      generalize update s.xferRegs ((regXferAck - 0xA400) / 4) (u32 value) = regs
      have hsame : SameCommit s { s with xferRegs := regs } :=
        ⟨⟨rfl, rfl, rfl, rfl, rfl, id, fun _ => id, id⟩, rfl, rfl, rfl, rfl, rfl⟩
      rcases commitPhase_cases hsame rfl rfl rfl rfl with ⟨hnone, h⟩ | ⟨cmd, hsome, h⟩
      · exact .kept (hcommand.trans hnone) id h
      · exact .commits true cmd (hcommand.trans hsome) h
    · exact hkept _ (kept_writeXfer hs hack value) hack (by unfold regCmd regDioData; omega)
  rw [if_neg h3]
  have hack : offset ≠ regXferAck := by unfold regXferAck; omega
  by_cases h4 : 0xC000 ≤ offset ∧ offset < 0xC100
  · rw [if_pos h4]
    exact hkept _ (kept_writeBoot s offset value) hack (by unfold regCmd regDioData; omega)
  rw [if_neg h4]
  by_cases h5 : 0xB100 ≤ offset ∧ offset < 0xB110
  · rw [if_pos h5]
    exact hkept _ ⟨rfl, rfl, rfl, rfl, rfl, id, fun _ => id, id⟩ hack (by unfold regCmd regDioData; omega)
  rw [if_neg h5]
  by_cases h6 : ataPort offset = true
  · rw [if_pos h6]
    refine hkept _ (Kept.refl s) hack fun h => ?_
    rcases h with rfl | ⟨rfl, -⟩ <;> exact absurd h6 (by decide)
  rw [if_neg h6]
  by_cases h7 : offset = regDioCtrl
  · rw [if_pos h7]
    refine hkept _ ⟨rfl, rfl, rfl, rfl, rfl, id, fun _ => id, id⟩ hack fun h => ?_
    rcases h with h | ⟨h, -⟩ <;> exact absurd (h7.symm.trans h) (by decide)
  rw [if_neg h7]
  by_cases h8 : offset = regDioData
  · rw [if_pos h8]
    by_cases hmode : s.dioMode &&& 0x80 = 0
    · refine hkept _ (kept_writeDioData hmode size value) hack fun h => ?_
      rcases h with h | ⟨-, h⟩
      · exact absurd (h8.symm.trans h) (by decide)
      · exact h hmode
    · -- a command of the direct interface
      refine .commits false (byteOf value 0) ?_ ?_
      · simp only [command]
        rw [if_neg hack, if_pos (Or.inr ⟨h8, hmode⟩)]
      · have hsame : SameCommit s { s with dioLastWrite := byteOf value 0 } :=
          ⟨⟨rfl, rfl, rfl, rfl, rfl, id, fun _ => id, id⟩, rfl, rfl, rfl, rfl, rfl⟩
        unfold writeDioData routeDio
        rw [if_pos hmode]
        exact legacyCommand_commits hsame rfl _
  rw [if_neg h8]
  by_cases h9 : offset = regCmd
  · rw [if_pos h9]
    refine .commits false (byteOf value 0) ?_ (legacyCommand_commits ⟨Kept.refl s, rfl, rfl, rfl, rfl, rfl⟩ rfl _)
    simp only [command]
    rw [if_neg hack, if_pos (Or.inl h9)]
  rw [if_neg h9]
  have hcmd : ¬ (offset = regCmd ∨ offset = regDioData ∧ s.dioMode &&& 0x80 ≠ 0) := fun h => h.elim h9 fun h => h8 h.1
  by_cases h10 : offset = regAddr
  · rw [if_pos h10]
    exact hkept _ (kept_legacyAddress s _) hack hcmd
  rw [if_neg h10]
  by_cases h11 : offset = regPortctl
  · rw [if_pos h11]
    exact hkept _ ⟨rfl, rfl, rfl, rfl, rfl, id, fun _ => id, id⟩ hack hcmd
  rw [if_neg h11]
  by_cases h12 : offset = regData
  · rw [if_pos h12]
    exact hkept _ (kept_writeData s size value) hack hcmd
  rw [if_neg h12]
  by_cases h13 : 0xB000 ≤ offset ∧ offset < 0xB210
  · rw [if_pos h13]
    exact hkept _ (kept_writeStream s size value) hack hcmd
  · rw [if_neg h13]
    exact hkept _ (Kept.refl s) hack hcmd

theorem step_cases (hs : Inv s) (a : Access) : StepCases s a (step s a) := by
  cases a with
  | read offset size pc =>
    show StepCases s _ (read s offset size pc).2
    by_cases hack : offset = regXferAck
    · subst hack
      rcases commitPhase_cases (t := s) ⟨Kept.refl s, rfl, rfl, rfl, rfl, rfl⟩ rfl rfl rfl rfl with ⟨hnone, h⟩ | ⟨cmd, hsome, h⟩
      · exact .kept hnone (fun h => absurd h.1 (by decide)) h
      · exact .commits true cmd hsome h
    · by_cases hwraps : Wraps s (.read offset size pc)
      · obtain ⟨rfl, hsize, hreading, hcursor, hoff⟩ := hwraps
        refine .wraps ⟨rfl, hsize, hreading, hcursor, hoff⟩ ?_
        show (readData s size).2.outside = true
        unfold readData
        rw [if_neg (by rintro h; rw [h] at hreading; cases hreading), if_pos ⟨hsize, hreading, by omega⟩]
        exact portRead_wraps hs hcursor hoff
      · exact .kept (if_neg hack) hwraps (kept_read hs hack hwraps)
  | write offset size value => exact write_cases hs offset size value
  | streamReadDma len =>
    refine .kept rfl id ?_
    show Kept s (streamReadDma s len).2
    unfold streamReadDma
    split <;> exact ⟨rfl, rfl, rfl, rfl, rfl, id, fun _ => id, id⟩

end Accesses

end Be300.Nand
