/-
  Be300.Nand.Program — page programs and block erases through the two command interfaces.

  The legacy interface is the command and address registers with the data port, or the
  direct interface. `Loaded` says what a page program has set up before PAGEPROG, through
  either interface.

  The legacy interface takes a row's bytes as the second and third address cycle and leaves
  the third byte of `page_addr` as it is. So a program needs that byte to be zero, and an
  erase, whose address cycles are the row bytes only, takes the second row byte for the
  first (`same_effect_iff`).
-/

import Mathlib.Data.List.GetD
import Be300.Nand.Steps

namespace Be300.Nand

/-! ## Command sequences -/

inductive Iface where
  | registers
  | direct

namespace Iface

def command : Iface → UInt8 → List Access
  | registers, cmd => [.write regCmd 1 cmd.toNat]
  | direct, cmd => [.write regDioCtrl 1 0x80, .write regDioData 1 cmd.toNat]

def address : Iface → UInt8 → List Access
  | registers, b => [.write regAddr 1 b.toNat]
  | direct, b => [.write regDioCtrl 1 0x01, .write regDioData 1 b.toNat]

/-- An access of `c.1` bytes of program data. -/
def data : Iface → Nat × Nat → List Access
  | registers, c => [.write regData c.1 c.2]
  | direct, c => [.write regDioCtrl 1 0x00, .write regDioData c.1 c.2]

def rowCycles (r : Iface) (row : Nat) : List Access := r.address (UInt8.ofNat row) ++ r.address (UInt8.ofNat (row / 256))

def program (r : Iface) (row : Nat) (chunks : List (Nat × Nat)) : List Access :=
  r.command cmdSeqIn ++ (r.address 0 ++ r.rowCycles row) ++ chunks.flatMap r.data ++ r.command cmdPageProg

/-- A program with any column. -/
def programAt (r : Iface) (col row : Nat) (chunks : List (Nat × Nat)) : List Access :=
  r.command cmdSeqIn ++ (r.address (UInt8.ofNat col) ++ r.rowCycles row) ++ chunks.flatMap r.data ++ r.command cmdPageProg

def erase (r : Iface) (row : Nat) : List Access := r.command cmdErase1 ++ r.rowCycles row ++ r.command cmdErase2

end Iface

namespace Engine

/-- A command phase. -/
def command (cmd : UInt8) : List Access :=
  [.write regXferCmd 1 0x03, .write regXferAddr 1 cmd.toNat, .write regXferAck 1 0]

/-- An address phase. -/
def address (bytes : List UInt8) : List Access :=
  .write regXferCmd 1 0x06 :: bytes.map (fun b => .write regXferAddr 1 b.toNat) ++ [.write regXferAck 1 0]

def data (c : Nat × Nat) : Access := .write regStreamData c.1 c.2

/-- Up to 520 bytes in mode 7, the others in mode 6. -/
def program (row : Nat) (burst rest : List (Nat × Nat)) : List Access :=
  command cmdSeqIn ++ address [0, UInt8.ofNat row, UInt8.ofNat (row / 256)] ++ .write regXferMode 1 0x07 :: burst.map data ++
    .write regXferMode 1 0x06 :: rest.map data ++ command cmdPageProg

def erase (row : Nat) : List Access :=
  command cmdErase1 ++ address [UInt8.ofNat row, UInt8.ofNat (row / 256)] ++ command cmdErase2

end Engine

/-- The bytes of an access. -/
def chunkBytes (c : Nat × Nat) : List UInt8 := (List.range c.1).map (byteOf c.2)

/-- The data image, the spare area and the pass/fail status bit. -/
def effect (s : Chip) : Option (Nat → UInt8) × Option (Nat → UInt8) × UInt8 := (s.image, s.oob, s.statusValue &&& 1)

/-! ## Single accesses -/

section Ports

variable {s : Chip}

theorem byteOf_toNat (b : UInt8) : byteOf b.toNat 0 = b := by
  simp [byteOf]

theorem step_command (b : UInt8) : step s (.write regCmd 1 b.toNat) = legacyCommand s b := by
  show write s regCmd 1 b.toNat = legacyCommand s b
  unfold write
  rw [if_neg (by decide), if_neg (by decide), if_neg (by decide), if_neg (by decide), if_neg (by decide), if_neg (by decide),
    if_neg (by decide), if_neg (by decide), if_pos rfl, byteOf_toNat]

theorem step_address (b : UInt8) : step s (.write regAddr 1 b.toNat) = (legacyAddress s b).2 := by
  show write s regAddr 1 b.toNat = (legacyAddress s b).2
  unfold write
  rw [if_neg (by decide), if_neg (by decide), if_neg (by decide), if_neg (by decide), if_neg (by decide), if_neg (by decide),
    if_neg (by decide), if_neg (by decide), if_neg (by decide), if_pos rfl, byteOf_toNat]

theorem step_data (size value : Nat) : step s (.write regData size value) = writeData s size value := by
  show write s regData size value = writeData s size value
  unfold write
  rw [if_neg (by decide), if_neg (by decide), if_neg (by decide), if_neg (by decide), if_neg (by decide), if_neg (by decide),
    if_neg (by decide), if_neg (by decide), if_neg (by decide), if_neg (by decide), if_neg (by decide), if_pos rfl]

theorem step_dio (mode : UInt8) (size value : Nat) :
    run s [.write regDioCtrl 1 mode.toNat, .write regDioData size value] =
      writeDioData { s with dioMode := mode } size value := by
  have hctrl : write s regDioCtrl 1 mode.toNat = { s with dioMode := mode } := by
    unfold write
    rw [if_neg (by decide), if_neg (by decide), if_neg (by decide), if_neg (by decide), if_neg (by decide), if_neg (by decide),
      if_pos rfl, byteOf_toNat]
  show write (write s regDioCtrl 1 mode.toNat) regDioData size value = _
  rw [hctrl]
  generalize { s with dioMode := mode } = t
  unfold write
  rw [if_neg (by decide), if_neg (by decide), if_neg (by decide), if_neg (by decide), if_neg (by decide), if_neg (by decide),
    if_neg (by decide), if_pos rfl]

theorem step_xfer {offset : Nat} (h : 0xA400 ≤ offset ∧ offset < 0xA500) (value : Nat) :
    step s (.write offset 1 value) =
      xferReg { s with xferRegs := update s.xferRegs ((offset - 0xA400) / 4) (u32 value) } offset value := by
  show write s offset 1 value = _
  unfold write
  rw [if_neg (by omega), if_neg (by omega), if_pos h]
  rfl

theorem step_stream (size value : Nat) : step s (.write regStreamData size value) = writeStream s size value := by
  show write s regStreamData size value = writeStream s size value
  unfold write
  rw [if_neg (by decide), if_neg (by decide), if_neg (by decide), if_neg (by decide), if_neg (by decide), if_neg (by decide),
    if_neg (by decide), if_neg (by decide), if_neg (by decide), if_neg (by decide), if_neg (by decide), if_neg (by decide),
    if_pos (by decide)]

end Ports

/-! ## The legacy interface -/

/-- The row after an address cycle. -/
def latchPage (cycle page : Nat) (b : UInt8) : Nat :=
  match cycle with
  | 1 => page / 256 * 256 + b.toNat
  | 2 => page / 65536 * 65536 + b.toNat * 256 + page % 256
  | 3 => page / 16777216 * 16777216 + b.toNat * 65536 + page % 65536
  | _ => page

/-- A program or an erase has been set up, with so many address cycles. -/
structure Pending (image oob : Option (Nat → UInt8)) (st : CmdState) (page cycle : Nat) (s : Chip) : Prop where
  image : s.image = image
  oob : s.oob = oob
  state : s.state = st
  page : s.pageAddr = page
  cycle : s.addrCycle = cycle

/-- The page buffer holds `bytes`, to be programmed at column 0. -/
structure Buffered (bytes : List UInt8) (s : Chip) : Prop where
  column : s.column = 0
  programColumn : s.programColumn = 0
  programLength : s.programLength = bytes.length
  programBuffer : s.programBuffer = fun i => if i < bytes.length then bytes.getD i 0 else 0xFF

theorem run_direct_command (s : Chip) (b : UInt8) :
    run s (Iface.direct.command b) = legacyCommand { s with dioMode := 0x80, dioLastWrite := b } b := by
  refine (step_dio 0x80 1 b.toNat).trans ?_
  unfold writeDioData routeDio
  rw [byteOf_toNat]
  exact if_pos (by simp only; decide)

section Legacy

variable {image oob : Option (Nat → UInt8)} {st : CmdState} {page cycle : Nat} {bytes : List UInt8} {s : Chip}

theorem latchCycle_page (b : UInt8) : (latchCycle s b).pageAddr = latchPage s.addrCycle s.pageAddr b := by
  unfold latchCycle latchPage
  rcases s.addrCycle with _ | _ | _ | _ | n
  · by_cases h : s.state = .readData
    · simp only [h, if_true]
    · simp only [h, if_false]
  all_goals rfl

theorem legacyAddress_pending (bytes : List UInt8) (h : Pending image oob st page cycle s)
    (hst : st = .programData ∨ st = .eraseSetup) (b : UInt8) :
    (legacyAddress s b).1 = false ∧ Pending image oob st (latchPage cycle page b) ((cycle + 1) % 256) (legacyAddress s b).2 ∧
      (Buffered bytes s → Buffered bytes (legacyAddress s b).2) := by
  obtain ⟨himage, hoob, hstate, hpage, hcycle⟩ := h
  have hnot : s.state ≠ .readData ∧ s.state ≠ .readOob := by
    rcases hst with rfl | rfl <;> rw [hstate] <;> exact ⟨by decide, by decide⟩
  have hlatch : (latchCycle s b).image = image ∧ (latchCycle s b).oob = oob ∧ (latchCycle s b).state = st ∧
      (latchCycle s b).addrCycle = cycle ∧ (Buffered bytes s → Buffered bytes (latchCycle s b)) := by
    unfold latchCycle
    split
    · rw [if_neg hnot.1]
      exact ⟨himage, hoob, hstate, hcycle, id⟩
    all_goals exact ⟨himage, hoob, hstate, hcycle, fun hb => ⟨hb.column, hb.programColumn, hb.programLength, hb.programBuffer⟩⟩
  have hpage' : (latchCycle s b).pageAddr = latchPage cycle page b := by rw [latchCycle_page, hcycle, hpage]
  unfold legacyAddress
  generalize latchCycle s b = t at hlatch hpage' ⊢
  obtain ⟨himage', hoob', hstate', hcycle', hbuffered⟩ := hlatch
  simp only
  rw [if_neg (by rw [hstate', ← hstate]; exact fun h => h.2.elim hnot.1 hnot.2)]
  split
  · exact ⟨rfl, ⟨himage', hoob', hstate', hpage', by rw [← hcycle']⟩, fun hb =>
      ⟨(hbuffered hb).column, (hbuffered hb).column, (hbuffered hb).programLength, (hbuffered hb).programBuffer⟩⟩
  · exact ⟨rfl, ⟨himage', hoob', hstate', hpage', by rw [← hcycle']⟩, fun hb =>
      ⟨(hbuffered hb).column, (hbuffered hb).programColumn, (hbuffered hb).programLength, (hbuffered hb).programBuffer⟩⟩

theorem address_pending (bytes : List UInt8) (r : Iface) (h : Pending image oob st page cycle s)
    (hst : st = .programData ∨ st = .eraseSetup) (b : UInt8) :
    Pending image oob st (latchPage cycle page b) ((cycle + 1) % 256) (run s (r.address b)) ∧
      (Buffered bytes s → Buffered bytes (run s (r.address b))) := by
  cases r with
  | registers =>
    have hrun : run s (Iface.registers.address b) = (legacyAddress s b).2 := step_address b
    rw [hrun]
    exact (legacyAddress_pending bytes h hst b).2
  | direct =>
    have hpending : Pending image oob st page cycle { s with dioMode := 0x01, dioLastWrite := b } :=
      ⟨h.image, h.oob, h.state, h.page, h.cycle⟩
    obtain ⟨hdone, hpend, hbuf⟩ := legacyAddress_pending bytes hpending hst b
    have hrun : run s (Iface.direct.address b) = (legacyAddress { s with dioMode := 0x01, dioLastWrite := b } b).2 := by
      refine (step_dio 0x01 1 b.toNat).trans ?_
      unfold writeDioData routeDio
      rw [byteOf_toNat]
      simp only
      rw [if_neg (by decide), if_pos (by decide), hdone]
      rfl
    rw [hrun]
    exact ⟨hpend, fun hb => hbuf ⟨hb.column, hb.programColumn, hb.programLength, hb.programBuffer⟩⟩

theorem seqin_pending (r : Iface) (s : Chip) :
    Pending s.image s.oob .programData s.pageAddr 0 (run s (r.command cmdSeqIn)) ∧ Buffered [] (run s (r.command cmdSeqIn)) := by
  have hstart : ∀ t : Chip, legacyCommand t cmdSeqIn = { t with
      addrCycle := 0, xferCursor := 0, ready := false, state := .programData, column := 0, programColumn := 0, programLength := 0,
      programBuffer := fun _ => 0xFF } := by
    intro t
    unfold legacyCommand startCommand
    rw [if_neg (by decide), if_neg (by decide), if_neg (by decide), if_neg (by decide), if_neg (by decide), if_pos rfl]
  cases r with
  | registers =>
    have hrun : run s (Iface.registers.command cmdSeqIn) = legacyCommand s cmdSeqIn := step_command cmdSeqIn
    rw [hrun, hstart]
    exact ⟨⟨rfl, rfl, rfl, rfl, rfl⟩, ⟨rfl, rfl, rfl, rfl⟩⟩
  | direct =>
    rw [run_direct_command, hstart]
    exact ⟨⟨rfl, rfl, rfl, rfl, rfl⟩, ⟨rfl, rfl, rfl, rfl⟩⟩

theorem erase1_pending (r : Iface) (s : Chip) : Pending s.image s.oob .eraseSetup s.pageAddr 0 (run s (r.command cmdErase1)) := by
  have hstart : ∀ t : Chip, legacyCommand t cmdErase1 = { t with
      addrCycle := 0, xferCursor := 0, ready := false, state := .eraseSetup } := by
    intro t
    unfold legacyCommand startCommand
    rw [if_neg (by decide), if_neg (by decide), if_neg (by decide), if_neg (by decide), if_neg (by decide), if_neg (by decide),
      if_pos rfl]
  cases r with
  | registers =>
    have hrun : run s (Iface.registers.command cmdErase1) = legacyCommand s cmdErase1 := step_command cmdErase1
    rw [hrun, hstart]
    exact ⟨rfl, rfl, rfl, rfl, rfl⟩
  | direct =>
    rw [run_direct_command, hstart]
    exact ⟨rfl, rfl, rfl, rfl, rfl⟩

/-- Two row cycles. -/
theorem rowCycles_pending (bytes : List UInt8) (r : Iface) (row : Nat) (h : Pending image oob st page cycle s)
    (hst : st = .programData ∨ st = .eraseSetup) :
    Pending image oob st (latchPage ((cycle + 1) % 256) (latchPage cycle page (UInt8.ofNat row)) (UInt8.ofNat (row / 256)))
        (((cycle + 1) % 256 + 1) % 256) (run s (r.rowCycles row)) ∧
      (Buffered bytes s → Buffered bytes (run s (r.rowCycles row))) := by
  obtain ⟨hlow, hbuf⟩ := address_pending bytes r h hst (UInt8.ofNat row)
  obtain ⟨hhigh, hbuf'⟩ := address_pending bytes r hlow hst (UInt8.ofNat (row / 256))
  rw [Iface.rowCycles, run_append]
  exact ⟨hhigh, fun hb => hbuf' (hbuf hb)⟩

theorem programAppend_spec (value size i : Nat) (hcol : s.programColumn = 0) (hlen : s.programLength ≤ 528) :
    programAppend value size i s = { s with
      programBuffer := fun j => if s.programLength ≤ j ∧ j < min (s.programLength + size) 528 then
        byteOf value (i + (j - s.programLength)) else s.programBuffer j
      programLength := min (s.programLength + size) 528 } := by
  induction size generalizing i s with
  | zero =>
    have hbuf : (fun j => if s.programLength ≤ j ∧ j < min (s.programLength + 0) 528 then
        byteOf value (i + (j - s.programLength)) else s.programBuffer j) = s.programBuffer :=
      funext fun j => if_neg (by omega)
    rw [hbuf, Nat.add_zero, Nat.min_eq_left hlen]
    rfl
  | succ size ih =>
    unfold programAppend
    by_cases hfull : s.programColumn + s.programLength ≥ pageRaw
    · rw [if_pos hfull]
      unfold pageRaw at hfull
      have hbuf : (fun j => if s.programLength ≤ j ∧ j < min (s.programLength + (size + 1)) 528 then
          byteOf value (i + (j - s.programLength)) else s.programBuffer j) = s.programBuffer :=
        funext fun j => if_neg (by omega)
      rw [hbuf, Nat.min_eq_right (by omega), ← show s.programLength = 528 by omega]
    · rw [if_neg hfull]
      unfold pageRaw at hfull
      have hnext := ih (s := { s with
        programBuffer := update s.programBuffer s.programLength (byteOf value i), programLength := s.programLength + 1 })
        (i + 1) hcol (by simp only; omega)
      rw [hnext]
      simp only
      congr 1
      · funext j
        unfold update
        by_cases hj : j = s.programLength
        · rw [if_neg (by omega), if_pos hj, if_pos (by omega), hj, Nat.sub_self]
          rfl
        · by_cases hin : s.programLength + 1 ≤ j ∧ j < min (s.programLength + 1 + size) 528
          · rw [if_pos hin, if_pos (by omega), show i + 1 + (j - (s.programLength + 1)) = i + (j - s.programLength) by omega]
          · rw [if_neg hin, if_neg hj, if_neg (by omega)]
      · omega

/-- Bytes put after those of a page buffer. -/
theorem buffered_append (hb : Buffered bytes s) {t : Chip} (c : Nat × Nat) {top : Nat} (hlen : bytes.length ≤ top)
    (hcolumn : t.column = 0) (hpcol : t.programColumn = 0) (htop : t.programLength = min (s.programLength + c.1) top)
    (hbuf : t.programBuffer = fun j => if s.programLength ≤ j ∧ j < min (s.programLength + c.1) top then
      byteOf c.2 (j - s.programLength) else s.programBuffer j) : Buffered ((bytes ++ chunkBytes c).take top) t := by
  have hchunk : (chunkBytes c).length = c.1 := by simp [chunkBytes]
  have htake : ((bytes ++ chunkBytes c).take top).length = min (bytes.length + c.1) top := by
    rw [List.length_take, List.length_append, hchunk]
    omega
  refine ⟨hcolumn, hpcol, by rw [htop, hb.programLength, htake], ?_⟩
  rw [hbuf, hb.programLength, hb.programBuffer, htake]
  funext j
  by_cases hnew : bytes.length ≤ j ∧ j < min (bytes.length + c.1) top
  · rw [if_pos hnew, if_pos hnew.2, List.getD_eq_getElem _ _ (by omega), List.getElem_take, List.getElem_append_right hnew.1]
    simp [chunkBytes]
  · rw [if_neg hnew]
    simp only
    by_cases hold : j < bytes.length
    · rw [if_pos hold, if_pos (by omega), List.getD_eq_getElem _ _ hold, List.getD_eq_getElem _ _ (by omega), List.getElem_take,
        List.getElem_append_left hold]
    · rw [if_neg hold, if_neg (by omega)]

theorem data_buffered (r : Iface) (h : Pending image oob .programData page cycle s) (hb : Buffered bytes s)
    (hlen : bytes.length ≤ 528) (c : Nat × Nat) :
    Pending image oob .programData page cycle (run s (r.data c)) ∧
      Buffered ((bytes ++ chunkBytes c).take 528) (run s (r.data c)) := by
  have happend : ∀ t : Chip, Pending image oob .programData page cycle t → Buffered bytes t →
      Pending image oob .programData page cycle (programAppend c.2 c.1 0 t) ∧
        Buffered ((bytes ++ chunkBytes c).take 528) (programAppend c.2 c.1 0 t) := by
    intro t ht hbt
    have hspec := programAppend_spec c.2 c.1 0 hbt.programColumn (hbt.programLength ▸ hlen)
    simp only [Nat.zero_add] at hspec
    rw [hspec]
    exact ⟨⟨ht.image, ht.oob, ht.state, ht.page, ht.cycle⟩,
      buffered_append hbt c hlen hbt.column hbt.programColumn rfl rfl⟩
  cases r with
  | registers =>
    have hrun : run s (Iface.registers.data c) = programAppend c.2 c.1 0 s := by
      refine (step_data c.1 c.2).trans ?_
      unfold writeData
      exact if_pos h.state
    rw [hrun]
    exact happend s h hb
  | direct =>
    have hrun : run s (Iface.direct.data c) =
        programAppend c.2 c.1 0 { s with dioMode := 0x00, dioLastWrite := byteOf c.2 0 } := by
      refine (step_dio 0x00 c.1 c.2).trans ?_
      unfold writeDioData routeDio
      simp only
      rw [if_neg (by decide), if_neg (by decide), if_pos h.state]
    rw [hrun]
    exact happend _ ⟨h.image, h.oob, h.state, h.page, h.cycle⟩ ⟨hb.column, hb.programColumn, hb.programLength, hb.programBuffer⟩

theorem take_take_append (l m : List UInt8) (n : Nat) : ((l.take n) ++ m).take n = (l ++ m).take n := by
  by_cases h : l.length ≤ n
  · rw [List.take_of_length_le h]
  · rw [List.take_append_of_le_length (by rw [List.length_take]; omega), List.take_append_of_le_length (by omega), List.take_take,
      Nat.min_self]

/-- All accesses of program data. -/
theorem chunks_buffered (bytes : List UInt8) (r : Iface) (chunks : List (Nat × Nat))
    (h : Pending image oob .programData page cycle s)
    (hb : Buffered (bytes.take 528) s) :
    Pending image oob .programData page cycle (run s (chunks.flatMap r.data)) ∧
      Buffered ((bytes ++ chunks.flatMap chunkBytes).take 528) (run s (chunks.flatMap r.data)) := by
  induction chunks generalizing bytes s with
  | nil =>
    rw [List.flatMap_nil, List.flatMap_nil, List.append_nil]
    exact ⟨h, hb⟩
  | cons c chunks ih =>
    obtain ⟨hnext, hbnext⟩ := data_buffered r h hb (List.length_take_le _ _) c
    rw [take_take_append] at hbnext
    rw [List.flatMap_cons, List.flatMap_cons, run_append, ← List.append_assoc]
    exact ih _ hnext hbnext

end Legacy

/-! ## Commits -/

/-- What PAGEPROG does with a page and the bytes of its buffer. -/
def programEffect (image oob : Option (Nat → UInt8)) (page : Nat) (bytes : List UInt8) :
    Option (Nat → UInt8) × Option (Nat → UInt8) × UInt8 :=
  effect (commitProgram { nandInit image nandImageSize 0 oob with
    pageAddr := page, programLength := bytes.length,
    programBuffer := fun i => if i < bytes.length then bytes.getD i 0 else 0xFF })

/-- What ERASE CONFIRM does with a block. -/
def eraseEffect (image oob : Option (Nat → UInt8)) (block : Nat) : Option (Nat → UInt8) × Option (Nat → UInt8) × UInt8 :=
  effect (commitErase { nandInit image nandImageSize 0 oob with pageAddr := block * blockPages })

section Commit

variable {image oob : Option (Nat → UInt8)} {page cycle : Nat} {bytes : List UInt8} {s t : Chip}

theorem effect_program (himage : s.image = t.image) (hoob : s.oob = t.oob) (hpage : s.pageAddr = t.pageAddr)
    (hcol : s.programColumn = t.programColumn) (hlen : s.programLength = t.programLength)
    (hbuf : s.programBuffer = t.programBuffer) (hstatus : s.statusValue = t.statusValue) :
    effect (commitProgram s) = effect (commitProgram t) := by
  unfold effect commitProgram
  rw [himage, hpage, sameBad hoob, hoob, hcol, hlen, hbuf]
  split
  · simp only [himage, hoob, hstatus]
  split
  · simp only [himage, hoob, hstatus]
  split
  · rfl
  · simp only [hstatus]

theorem effect_erase (himage : s.image = t.image) (hoob : s.oob = t.oob)
    (hblock : s.pageAddr / blockPages = t.pageAddr / blockPages)
    (hstatus : s.statusValue = t.statusValue) : effect (commitErase s) = effect (commitErase t) := by
  unfold effect commitErase
  rw [himage, hblock, sameBad hoob, hoob]
  split
  · simp only [himage, hoob, hstatus]
  simp only
  split
  · simp only [himage, hoob, hstatus]
  split
  · rfl
  · simp only [hstatus]

theorem pageprog_effect (r : Iface) (h : Pending image oob .programData page cycle s) (hb : Buffered bytes s) :
    effect (run s (r.command cmdPageProg)) = programEffect image oob page bytes := by
  have hstart : ∀ t : Chip, Pending image oob .programData page cycle t → Buffered bytes t →
      effect (legacyCommand t cmdPageProg) = programEffect image oob page bytes := by
    intro t ht hbt
    unfold legacyCommand startCommand
    rw [if_neg (by decide), if_neg (by decide), if_neg (by decide), if_neg (by decide), if_neg (by decide), if_neg (by decide),
      if_neg (by decide), if_pos rfl, if_pos ht.state]
    exact effect_program ht.image ht.oob ht.page hbt.programColumn hbt.programLength hbt.programBuffer rfl
  cases r with
  | registers =>
    have hrun : run s (Iface.registers.command cmdPageProg) = legacyCommand s cmdPageProg := step_command cmdPageProg
    rw [hrun]
    exact hstart s h hb
  | direct =>
    rw [run_direct_command]
    exact hstart _ ⟨h.image, h.oob, h.state, h.page, h.cycle⟩ ⟨hb.column, hb.programColumn, hb.programLength, hb.programBuffer⟩

theorem erase2_effect (r : Iface) (h : Pending image oob .eraseSetup page cycle s) :
    effect (run s (r.command cmdErase2)) = eraseEffect image oob (page / blockPages) := by
  have hstart : ∀ t : Chip, Pending image oob .eraseSetup page cycle t →
      effect (legacyCommand t cmdErase2) = eraseEffect image oob (page / blockPages) := by
    intro t ht
    unfold legacyCommand startCommand
    rw [if_neg (by decide), if_neg (by decide), if_neg (by decide), if_neg (by decide), if_neg (by decide), if_neg (by decide),
      if_neg (by decide), if_neg (by decide), if_pos rfl, if_pos ht.state]
    refine effect_erase ht.image ht.oob ?_ rfl
    show t.pageAddr / blockPages = page / blockPages * blockPages / blockPages
    rw [ht.page, Nat.mul_div_cancel _ (by decide)]
  cases r with
  | registers =>
    have hrun : run s (Iface.registers.command cmdErase2) = legacyCommand s cmdErase2 := step_command cmdErase2
    rw [hrun]
    exact hstart s h
  | direct =>
    rw [run_direct_command]
    exact hstart _ ⟨h.image, h.oob, h.state, h.page, h.cycle⟩

theorem legacy_programAt (r : Iface) (s : Chip) (col : Nat) {row : Nat} (hrow : row < 65536) (chunks : List (Nat × Nat)) :
    effect (run s (r.programAt col row chunks)) =
      programEffect s.image s.oob (s.pageAddr / 65536 * 65536 + row) ((chunks.flatMap chunkBytes).take 528) := by
  obtain ⟨hseqin, hempty⟩ := seqin_pending r s
  obtain ⟨hcol, hbcol⟩ := address_pending [] r hseqin (Or.inl rfl) (UInt8.ofNat col)
  obtain ⟨hrows, hbrows⟩ := rowCycles_pending [] r row hcol (Or.inl rfl)
  obtain ⟨hdata, hbdata⟩ := chunks_buffered [] r chunks hrows (hbrows (hbcol hempty))
  have hpage : latchPage 2 (latchPage 1 (latchPage 0 s.pageAddr (UInt8.ofNat col)) (UInt8.ofNat row)) (UInt8.ofNat (row / 256)) =
      s.pageAddr / 65536 * 65536 + row := by
    simp only [latchPage, UInt8.toNat_ofNat']
    omega
  rw [Iface.programAt, run_append, run_append, run_append, run_append, pageprog_effect r hdata hbdata, ← hpage]
  rfl

theorem legacy_program (r : Iface) (s : Chip) {row : Nat} (hrow : row < 65536) (chunks : List (Nat × Nat)) :
    effect (run s (r.program row chunks)) =
      programEffect s.image s.oob (s.pageAddr / 65536 * 65536 + row) ((chunks.flatMap chunkBytes).take 528) :=
  legacy_programAt r s 0 hrow chunks

theorem legacy_erase (r : Iface) (s : Chip) {row : Nat} (hrow : row < 65536) :
    effect (run s (r.erase row)) = eraseEffect s.image s.oob ((s.pageAddr / 256 * 256 + row / 256) / blockPages) := by
  have hrows := (rowCycles_pending [] r row (erase1_pending r s) (Or.inr rfl)).1
  have hpage : latchPage 1 (latchPage 0 s.pageAddr (UInt8.ofNat row)) (UInt8.ofNat (row / 256)) =
      s.pageAddr / 256 * 256 + row / 256 := by
    simp only [latchPage, UInt8.toNat_ofNat']
    omega
  rw [Iface.erase, run_append, run_append, erase2_effect r hrows, ← hpage]

end Commit

/-! ## The transfer engine -/

/-- An address phase that has got `bytes`, from the state `s₀`. -/
structure Addressing (s₀ : Chip) (bytes : List UInt8) (s : Chip) : Prop where
  phase : s.xferPhase = 0x06
  lastCmd : s.xferLastCmd = s₀.xferLastCmd
  count : s.xferAddrCount = bytes.length
  bytes : ∀ i < bytes.length, s.xferAddrBytes i = bytes.getD i 0
  image : s.image = s₀.image
  oob : s.oob = s₀.oob
  state : s.state = s₀.state
  programColumn : s.programColumn = s₀.programColumn
  programLength : s.programLength = s₀.programLength
  programBuffer : s.programBuffer = s₀.programBuffer
  imageSize : s.imageSize = s₀.imageSize

section Engine

variable {s s₀ : Chip}

theorem step_phase (s : Chip) {p : UInt8} (hp : p = 0x03 ∨ p = 0x06) :
    ∃ regs, step s (.write regXferCmd 1 p.toNat) = { s with xferRegs := regs, xferPhase := p, xferAddrCount := 0 } := by
  refine ⟨update s.xferRegs ((regXferCmd - 0xA400) / 4) (u32 p.toNat), ?_⟩
  rw [step_xfer (by decide)]
  unfold xferReg writeXferCmd
  rw [if_pos rfl, byteOf_toNat, if_pos hp]

theorem step_byte (s : Chip) (b : UInt8) :
    ∃ regs, step s (.write regXferAddr 1 b.toNat) = writeXferAddr { s with xferRegs := regs } b := by
  refine ⟨update s.xferRegs ((regXferAddr - 0xA400) / 4) (u32 b.toNat), ?_⟩
  rw [step_xfer (by decide)]
  unfold xferReg
  rw [if_neg (by decide), if_pos rfl, byteOf_toNat]

theorem step_ack (s : Chip) : ∃ regs, step s (.write regXferAck 1 0) = xferCommitPhase { s with xferRegs := regs } := by
  refine ⟨update s.xferRegs ((regXferAck - 0xA400) / 4) (u32 0), ?_⟩
  rw [step_xfer (by decide)]
  unfold xferReg
  rw [if_neg (by decide), if_neg (by decide), if_pos rfl]

theorem run_engine_command (s : Chip) (cmd : UInt8) : ∃ regs, run s (Engine.command cmd) = xferCommand { s with
    xferRegs := regs, xferPhase := 0x03, xferAddrCount := 0, xferPendingByte := cmd, xferLastCmd := cmd } cmd := by
  obtain ⟨regs, h1⟩ := step_phase s (p := 0x03) (Or.inl rfl)
  obtain ⟨regs', h2⟩ := step_byte { s with xferRegs := regs, xferPhase := 0x03, xferAddrCount := 0 } cmd
  have hbyte : ∀ t : Chip, t.xferPhase = 0x03 → writeXferAddr t cmd = { t with xferPendingByte := cmd } := by
    intro t ht
    unfold writeXferAddr
    exact if_neg (by rw [ht]; decide)
  rw [hbyte _ rfl] at h2
  obtain ⟨regs'', h3⟩ := step_ack { s with xferRegs := regs', xferPhase := 0x03, xferAddrCount := 0, xferPendingByte := cmd }
  refine ⟨regs'', ?_⟩
  show step (step (step s (.write regXferCmd 1 (0x03 : UInt8).toNat)) (.write regXferAddr 1 cmd.toNat))
    (.write regXferAck 1 0) = _
  rw [h1, h2, h3]
  unfold xferCommitPhase
  exact if_pos rfl

theorem pushByte_spec {bytes : List UInt8} {f : Nat → UInt8} (hlen : bytes.length < 4)
    (hf : ∀ i < bytes.length, f i = bytes.getD i 0) (b : UInt8) :
    (pushByte f bytes.length b).2 = (bytes ++ [b]).length ∧
      ∀ i < (bytes ++ [b]).length, (pushByte f bytes.length b).1 i = (bytes ++ [b]).getD i 0 := by
  unfold pushByte
  rw [if_pos hlen]
  refine ⟨by simp, fun i hi => ?_⟩
  rw [List.length_append, List.length_singleton] at hi
  simp only [update]
  by_cases h : i = bytes.length
  · rw [if_pos h, h, List.getD_append_right _ _ _ _ (Nat.le_refl _), Nat.sub_self]
    rfl
  · rw [if_neg h, hf i (by omega), List.getD_append _ _ _ _ (by omega)]

theorem addressing_byte {bytes : List UInt8} (h : Addressing s₀ bytes s) (hlen : bytes.length < 4) (b : UInt8) :
    Addressing s₀ (bytes ++ [b]) (step s (.write regXferAddr 1 b.toNat)) := by
  obtain ⟨regs, hstep⟩ := step_byte s b
  obtain ⟨hcount, hbytes⟩ := pushByte_spec hlen h.bytes b
  rw [hstep]
  have hwrite : writeXferAddr { s with xferRegs := regs } b = xferLatchAddrState { s with
      xferRegs := regs, xferPendingByte := b, xferAddrBytes := (pushByte s.xferAddrBytes bytes.length b).1,
      xferAddrCount := (pushByte s.xferAddrBytes bytes.length b).2 } := by
    unfold writeXferAddr
    rw [if_pos h.phase, ← h.count]
  rw [hwrite]
  have hlatch : ∀ t : Chip, Addressing s₀ (bytes ++ [b]) t → Addressing s₀ (bytes ++ [b]) (xferLatchAddrState t) := by
    intro t ht
    unfold xferLatchAddrState
    repeat' split
    all_goals exact ⟨ht.phase, ht.lastCmd, ht.count, ht.bytes, ht.image, ht.oob, ht.state, ht.programColumn, ht.programLength,
      ht.programBuffer, ht.imageSize⟩
  exact hlatch _ ⟨h.phase, h.lastCmd, hcount, hbytes, h.image, h.oob, h.state, h.programColumn, h.programLength, h.programBuffer,
    h.imageSize⟩

theorem addressing_bytes {got : List UInt8} (bytes : List UInt8) (h : Addressing s₀ got s)
    (hlen : got.length + bytes.length ≤ 4) :
    Addressing s₀ (got ++ bytes) (run s (bytes.map fun b => Access.write regXferAddr 1 b.toNat)) := by
  induction bytes generalizing got s with
  | nil =>
    rw [List.append_nil]
    exact h
  | cons b bytes ih =>
    rw [List.length_cons] at hlen
    have hnext := ih (addressing_byte h (by omega) b) (by rw [List.length_append, List.length_singleton]; omega)
    rw [List.append_assoc, List.singleton_append] at hnext
    exact hnext

/-- An address phase and its acknowledge. -/
theorem run_engine_address (s : Chip) (bytes : List UInt8) (hlen : bytes.length ≤ 4) :
    ∃ t, Addressing s bytes t ∧ run s (Engine.address bytes) = xferAddressed t := by
  obtain ⟨regs, h1⟩ := step_phase s (p := 0x06) (Or.inr rfl)
  have hstart : Addressing s [] { s with xferRegs := regs, xferPhase := 0x06, xferAddrCount := 0 } :=
    ⟨rfl, rfl, rfl, fun i hi => absurd hi (Nat.not_lt_zero i), rfl, rfl, rfl, rfl, rfl, rfl, rfl⟩
  have hbytes := addressing_bytes bytes hstart (by simpa using hlen)
  rw [List.nil_append] at hbytes
  have hrun : run s (Engine.address bytes) = step (run { s with xferRegs := regs, xferPhase := 0x06, xferAddrCount := 0 }
      (bytes.map fun b => Access.write regXferAddr 1 b.toNat)) (.write regXferAck 1 0) := by
    rw [← h1, Engine.address, run_append]
    rfl
  generalize run { s with xferRegs := regs, xferPhase := 0x06, xferAddrCount := 0 }
    (bytes.map fun b => Access.write regXferAddr 1 b.toNat) = t at hbytes hrun
  obtain ⟨regs', hack⟩ := step_ack t
  refine ⟨{ t with xferRegs := regs' }, ?_, ?_⟩
  · exact ⟨hbytes.phase, hbytes.lastCmd, hbytes.count, hbytes.bytes, hbytes.image, hbytes.oob, hbytes.state, hbytes.programColumn,
      hbytes.programLength, hbytes.programBuffer, hbytes.imageSize⟩
  · rw [hrun, hack]
    have hphase : t.xferPhase = 0x06 := hbytes.phase
    unfold xferCommitPhase
    rw [if_neg (by rw [hphase]; decide), if_pos hphase]

theorem xferCommand_seqin (s : Chip) : xferCommand s cmdSeqIn = { s with
    state := .programData, column := 0, programColumn := 0, programLength := 0, xferAddrCount := 0, xferAddrBytes := fun _ => 0,
    programBuffer := fun _ => 0xFF, xferData := [], xferDataPos := 0 } := by
  unfold xferCommand
  rw [if_neg (by decide), if_neg (by decide), if_neg (by decide), if_neg (by decide), if_neg (by decide), if_pos rfl]
  rfl

theorem xferCommand_erase1 (s : Chip) : xferCommand s cmdErase1 = { s with
    state := .eraseSetup, xferAddrCount := 0, xferAddrBytes := fun _ => 0, xferData := [], xferDataPos := 0 } := by
  unfold xferCommand
  rw [if_neg (by decide), if_neg (by decide), if_neg (by decide), if_neg (by decide), if_neg (by decide), if_neg (by decide),
    if_pos rfl]
  rfl

/-- SEQIN and its address phase. -/
theorem engine_seqin (s : Chip) {row : Nat} (hrow : row < 65536) :
    ∃ t cycle, run s (Engine.command cmdSeqIn ++ Engine.address [0, UInt8.ofNat row, UInt8.ofNat (row / 256)]) = t ∧
      Pending s.image s.oob .programData row cycle t ∧ Buffered [] t ∧ t.xferLastCmd = cmdSeqIn ∧ xferRowAddr t = row ∧
      xferColAddr t = 0 := by
  obtain ⟨regs, hcmd⟩ := run_engine_command s cmdSeqIn
  rw [xferCommand_seqin] at hcmd
  obtain ⟨t, ht, hrun⟩ := run_engine_address (run s (Engine.command cmdSeqIn))
    [0, UInt8.ofNat row, UInt8.ofNat (row / 256)] (by simp)
  rw [hcmd] at ht
  have hlast : t.xferLastCmd = cmdSeqIn := ht.lastCmd
  have h0 : t.xferAddrBytes 0 = 0 := ht.bytes 0 (by simp)
  have h1 : t.xferAddrBytes 1 = UInt8.ofNat row := ht.bytes 1 (by simp)
  have h2 : t.xferAddrBytes 2 = UInt8.ofNat (row / 256) := ht.bytes 2 (by simp)
  have hrowAddr : xferRowAddr t = row := by
    unfold xferRowAddr
    rw [h1, h2, UInt8.toNat_ofNat', UInt8.toNat_ofNat']
    omega
  have hcolAddr : xferColAddr t = 0 := by
    unfold xferColAddr
    rw [h0]
    rfl
  have haddressed : xferAddressed t = { t with pageAddr := row, column := 0, ready := true } := by
    unfold xferAddressed
    rw [hlast, if_neg (by decide), if_neg (by decide), if_pos (by decide), hrowAddr, hcolAddr]
  refine ⟨_, t.addrCycle, rfl, ?_⟩
  rw [run_append, hrun, haddressed]
  exact ⟨⟨ht.image, ht.oob, ht.state, rfl, rfl⟩, ⟨rfl, ht.programColumn, ht.programLength, ht.programBuffer⟩, hlast, hrowAddr,
    hcolAddr⟩

/-- The stream window writes to the page buffer from `base` on, `limit` bytes at most. -/
structure Streaming (base limit : Nat) (bytes : List UInt8) (s : Chip) : Prop where
  cursor : bytes.length = base + s.streamCursor
  room : s.streamCursor ≤ limit
  mode : s.xferRegs xferModeIdx = 0x06 ∨ s.xferRegs xferModeIdx = 0x07
  base : s.streamBase = base
  limit : s.streamLimit = limit

variable {image oob : Option (Nat → UInt8)} {page cycle base limit : Nat} {bytes : List UInt8}

theorem step_mode (s : Chip) (mode : UInt8) : ∃ t, t = { s with xferRegs := update s.xferRegs xferModeIdx (u32 mode.toNat) } ∧
    step s (.write regXferMode 1 mode.toNat) = writeXferMode t mode := by
  refine ⟨_, rfl, ?_⟩
  rw [step_xfer (by decide)]
  unfold xferReg
  rw [if_neg (by decide), if_neg (by decide), if_neg (by decide), if_neg (by decide), if_pos rfl, byteOf_toNat]
  rfl

theorem mode_seven (h : Pending image oob .programData page cycle s) (hb : Buffered [] s) (hcmd : s.xferLastCmd = cmdSeqIn)
    (hrow : xferRowAddr s = page) (hcol : xferColAddr s = 0) :
    Pending image oob .programData page cycle (step s (.write regXferMode 1 0x07)) ∧
      Buffered [] (step s (.write regXferMode 1 0x07)) ∧ Streaming 0 520 [] (step s (.write regXferMode 1 0x07)) := by
  obtain ⟨t, ht, hstep⟩ := step_mode s 0x07
  have hstep' : step s (.write regXferMode 1 0x07) = writeXferMode t 0x07 := hstep
  have hlatch : xferLatchAddrState t = t := by
    rw [ht]
    unfold xferLatchAddrState
    by_cases haddr : addressed s.xferLastCmd = true
    · rw [if_pos haddr]
      split
      · have hpage : s.pageAddr = xferRowAddr s := h.page.trans hrow.symm
        have hcolumn : s.column = xferColAddr s := hb.column.trans hcol.symm
        show { s with xferRegs := update s.xferRegs xferModeIdx (u32 (0x07 : UInt8).toNat), pageAddr := xferRowAddr s
                      column := xferColAddr s } = _
        rw [← hpage, ← hcolumn]
      · rfl
    · exact absurd (by rw [hcmd]; decide) haddr
  have hwrite : writeXferMode t 0x07 = { t with
      streamBase := 0, streamCursor := 0, streamLimit := 520, streamActive := false, ready := true } := by
    unfold writeXferMode startXferMode
    rw [if_neg (by decide), if_neg (by decide), if_neg (by decide), if_neg (by decide), if_pos rfl, if_neg (by decide), hlatch]
    rfl
  rw [hstep', hwrite, ht]
  refine ⟨⟨h.image, h.oob, h.state, h.page, h.cycle⟩, ⟨hb.column, hb.programColumn, hb.programLength, hb.programBuffer⟩,
    rfl, Nat.zero_le _, Or.inr ?_, rfl, rfl⟩
  simp only [update, if_true]
  decide

theorem mode_six (h : Pending image oob .programData page cycle s) (hb : Buffered bytes s) :
    Pending image oob .programData page cycle (step s (.write regXferMode 1 0x06)) ∧
      Buffered bytes (step s (.write regXferMode 1 0x06)) ∧
      (bytes.length = 520 → Streaming 520 8 bytes (step s (.write regXferMode 1 0x06))) := by
  obtain ⟨t, ht, hstep⟩ := step_mode s 0x06
  have hstep' : step s (.write regXferMode 1 0x06) = writeXferMode t 0x06 := hstep
  have hwrite : writeXferMode t 0x06 = { t with
      streamBase := 520, streamCursor := 0, streamLimit := 8, streamActive := false, ready := true } := by
    unfold writeXferMode startXferMode
    rw [if_neg (by decide), if_neg (by decide), if_neg (by decide), if_pos rfl, if_neg (by decide)]
    rfl
  rw [hstep', hwrite, ht]
  refine ⟨⟨h.image, h.oob, h.state, h.page, h.cycle⟩, ⟨hb.column, hb.programColumn, hb.programLength, hb.programBuffer⟩,
    fun hlen => ⟨hlen, Nat.zero_le _, Or.inl ?_, rfl, rfl⟩⟩
  simp only [update, if_true]
  decide

theorem streamWriteBytes_spec (value size i : Nat) (hlen : s.programLength = s.streamBase + s.streamCursor)
    (hroom : s.streamCursor ≤ s.streamLimit) (htop : s.streamBase + s.streamLimit ≤ 528) :
    streamWriteBytes value size i s = { s with
      programBuffer := fun j => if s.programLength ≤ j ∧ j < min (s.programLength + size) (s.streamBase + s.streamLimit) then
        byteOf value (i + (j - s.programLength)) else s.programBuffer j
      programLength := min (s.programLength + size) (s.streamBase + s.streamLimit)
      streamCursor := min (s.streamCursor + size) s.streamLimit } := by
  induction size generalizing i s with
  | zero =>
    have hbuf : (fun j => if s.programLength ≤ j ∧ j < min (s.programLength + 0) (s.streamBase + s.streamLimit) then
        byteOf value (i + (j - s.programLength)) else s.programBuffer j) = s.programBuffer :=
      funext fun j => if_neg (by omega)
    rw [hbuf, show min (s.programLength + 0) (s.streamBase + s.streamLimit) = s.programLength by omega,
      show min (s.streamCursor + 0) s.streamLimit = s.streamCursor by omega]
    rfl
  | succ size ih =>
    unfold streamWriteBytes
    by_cases hfull : s.streamCursor ≥ s.streamLimit
    · rw [if_pos hfull]
      have hbuf : (fun j => if s.programLength ≤ j ∧ j < min (s.programLength + (size + 1)) (s.streamBase + s.streamLimit) then
          byteOf value (i + (j - s.programLength)) else s.programBuffer j) = s.programBuffer :=
        funext fun j => if_neg (by omega)
      rw [hbuf, show min (s.programLength + (size + 1)) (s.streamBase + s.streamLimit) = s.programLength by omega,
        show min (s.streamCursor + (size + 1)) s.streamLimit = s.streamCursor by omega]
    · rw [if_neg hfull]
      have hidx : u32 (s.streamBase + s.streamCursor) = s.programLength := by
        unfold u32
        omega
      have hcursor : u32 (s.streamCursor + 1) = s.streamCursor + 1 := Nat.mod_eq_of_lt (by omega)
      simp only [hidx, hcursor]
      rw [if_pos (by unfold pageRaw; omega), if_pos (by unfold pageRaw; omega)]
      have hnext := ih (s := { s with
        programBuffer := update s.programBuffer s.programLength (byteOf value i), programLength := s.programLength + 1,
        streamCursor := s.streamCursor + 1 }) (i + 1) (by simp only; omega) (by simp only; omega) htop
      rw [hnext]
      simp only
      congr 1
      · omega
      · funext j
        unfold update
        by_cases hj : j = s.programLength
        · rw [if_neg (by omega), if_pos hj, if_pos (by omega), hj, Nat.sub_self]
          rfl
        · by_cases hin : s.programLength + 1 ≤ j ∧ j < min (s.programLength + 1 + size) (s.streamBase + s.streamLimit)
          · rw [if_pos hin, if_pos (by omega), show i + 1 + (j - (s.programLength + 1)) = i + (j - s.programLength) by omega]
          · rw [if_neg hin, if_neg hj, if_neg (by omega)]
      · omega

theorem stream_buffered (h : Pending image oob .programData page cycle s) (hb : Buffered bytes s)
    (hs : Streaming base limit bytes s)
    (htop : base + limit ≤ 528) (hlimit : limit ≠ 0) (c : Nat × Nat) :
    Pending image oob .programData page cycle (step s (Engine.data c)) ∧
      Buffered ((bytes ++ chunkBytes c).take (base + limit)) (step s (Engine.data c)) ∧
      Streaming base limit ((bytes ++ chunkBytes c).take (base + limit)) (step s (Engine.data c)) := by
  obtain ⟨hcursor, hroom, hmode, hbase, hlim⟩ := hs
  have hchunk : (chunkBytes c).length = c.1 := by simp [chunkBytes]
  have hspec := streamWriteBytes_spec (s := s) c.2 c.1 0 (by rw [hb.programLength, hbase, hcursor]) (by rw [hlim]; exact hroom)
    (by rw [hbase, hlim]; exact htop)
  simp only [Nat.zero_add, hbase, hlim] at hspec
  have hstep : step s (Engine.data c) = streamWriteBytes c.2 c.1 0 s := by
    refine (step_stream c.1 c.2).trans ?_
    unfold writeStream
    exact if_pos ⟨hmode, hlim ▸ hlimit⟩
  rw [hstep, hspec]
  refine ⟨⟨h.image, h.oob, h.state, h.page, h.cycle⟩,
    buffered_append hb c (by omega) hb.column hb.programColumn rfl rfl, ?_, Nat.min_le_right _ _, hmode, rfl, rfl⟩
  simp only [List.length_take, List.length_append, hchunk]
  omega

theorem stream_chunks (base limit : Nat) (bytes : List UInt8) (chunks : List (Nat × Nat))
    (h : Pending image oob .programData page cycle s)
    (hb : Buffered (bytes.take (base + limit)) s) (hs : Streaming base limit (bytes.take (base + limit)) s)
    (htop : base + limit ≤ 528) (hlimit : limit ≠ 0) :
    Pending image oob .programData page cycle (run s (chunks.map Engine.data)) ∧
      Buffered ((bytes ++ chunks.flatMap chunkBytes).take (base + limit)) (run s (chunks.map Engine.data)) := by
  induction chunks generalizing bytes s with
  | nil =>
    rw [List.flatMap_nil, List.append_nil]
    exact ⟨h, hb⟩
  | cons c chunks ih =>
    obtain ⟨hnext, hbnext, hsnext⟩ := stream_buffered h hb hs htop hlimit c
    rw [take_take_append] at hbnext hsnext
    rw [List.flatMap_cons, ← List.append_assoc]
    exact ih _ hnext hbnext hsnext

theorem engine_pageprog_effect (h : Pending image oob .programData page cycle s) (hb : Buffered bytes s) :
    effect (run s (Engine.command cmdPageProg)) = programEffect image oob page bytes := by
  obtain ⟨regs, hcmd⟩ := run_engine_command s cmdPageProg
  rw [hcmd]
  unfold xferCommand
  rw [if_neg (by decide), if_neg (by decide), if_neg (by decide), if_neg (by decide), if_neg (by decide), if_neg (by decide),
    if_neg (by decide), if_pos rfl, if_pos h.state]
  exact effect_program h.image h.oob h.page hb.programColumn hb.programLength hb.programBuffer rfl

theorem engine_program (s : Chip) {row : Nat} (hrow : row < 65536) (burst rest : List (Nat × Nat))
    (hburst : (burst.flatMap chunkBytes).length ≤ 520) (hrest : (burst.flatMap chunkBytes).length = 520 ∨ rest = []) :
    effect (run s (Engine.program row burst rest)) =
      programEffect s.image s.oob row (((burst ++ rest).flatMap chunkBytes).take 528) := by
  obtain ⟨t, cycle, hprefix, ht, hbt, hcmd, hrowAddr, hcolAddr⟩ := engine_seqin s hrow
  obtain ⟨hseven, hbseven, hsseven⟩ := mode_seven ht hbt hcmd hrowAddr hcolAddr
  obtain ⟨hdata, hbdata⟩ := stream_chunks 0 520 [] burst hseven hbseven hsseven (by decide) (by decide)
  rw [List.nil_append, List.take_of_length_le hburst] at hbdata
  obtain ⟨hsix, hbsix, hssix⟩ := mode_six hdata hbdata
  have hrun : run s (Engine.program row burst rest) =
      run (run (step (run (step t (.write regXferMode 1 0x07)) (burst.map Engine.data)) (.write regXferMode 1 0x06))
        (rest.map Engine.data)) (Engine.command cmdPageProg) := by
    rw [Engine.program, run_append, run_append, run_append, hprefix]
    rfl
  rw [hrun, List.flatMap_append]
  rcases hrest with hfull | rfl
  · have hall := stream_chunks 520 8 (burst.flatMap chunkBytes) rest hsix
      (by rw [List.take_of_length_le (by omega)]; exact hbsix) (by rw [List.take_of_length_le (by omega)]; exact hssix hfull)
      (by decide) (by decide)
    exact engine_pageprog_effect hall.1 hall.2
  · rw [List.flatMap_nil, List.append_nil, List.take_of_length_le (by omega)]
    exact engine_pageprog_effect hsix hbsix

theorem engine_erase (s : Chip) {row : Nat} (hrow : row < 65536) :
    effect (run s (Engine.erase row)) = eraseEffect s.image s.oob (row / blockPages) := by
  obtain ⟨regs, hcmd⟩ := run_engine_command s cmdErase1
  rw [xferCommand_erase1] at hcmd
  obtain ⟨t, ht, haddress⟩ := run_engine_address (run s (Engine.command cmdErase1))
    [UInt8.ofNat row, UInt8.ofNat (row / 256)] (by simp)
  rw [hcmd] at ht
  have hlast : t.xferLastCmd = cmdErase1 := ht.lastCmd
  have hcount : t.xferAddrCount = 2 := ht.count
  have h0 : t.xferAddrBytes 0 = UInt8.ofNat row := ht.bytes 0 (by simp)
  have h1 : t.xferAddrBytes 1 = UInt8.ofNat (row / 256) := ht.bytes 1 (by simp)
  have hblock : xferBlockAddr t = row / blockPages := by
    unfold xferBlockAddr blockPages
    rw [hcount, if_neg (by decide), if_neg (by decide), h0, h1, UInt8.toNat_ofNat', UInt8.toNat_ofNat']
    omega
  have haddressed : xferAddressed t = { t with pageAddr := row / blockPages * blockPages, ready := true } := by
    unfold xferAddressed
    rw [hlast, if_neg (by decide), if_neg (by decide), if_neg (by decide), if_pos rfl, hblock]
  obtain ⟨regs', hconfirm⟩ := run_engine_command (run (run s (Engine.command cmdErase1))
    (Engine.address [UInt8.ofNat row, UInt8.ofNat (row / 256)])) cmdErase2
  rw [Engine.erase, run_append, run_append, hconfirm, haddress, haddressed]
  unfold xferCommand
  rw [if_neg (by decide), if_neg (by decide), if_neg (by decide), if_neg (by decide), if_neg (by decide), if_neg (by decide),
    if_neg (by decide), if_neg (by decide), if_pos rfl, if_pos ht.state]
  refine effect_erase ht.image ht.oob ?_ rfl
  show row / blockPages * blockPages / blockPages * blockPages / blockPages = row / blockPages * blockPages / blockPages
  rw [Nat.mul_div_cancel _ (by decide)]

end Engine

/-! ## Where the interfaces agree -/

/-- A program of the row has the same effect through both interfaces, whatever is stored. -/
def SameProgram (s : Chip) (r : Iface) (row : Nat) : Prop :=
  ∀ (image oob : Option (Nat → UInt8)) (chunks burst rest : List (Nat × Nat)),
    chunks.flatMap chunkBytes = (burst ++ rest).flatMap chunkBytes → (burst.flatMap chunkBytes).length ≤ 520 →
    (burst.flatMap chunkBytes).length = 520 ∨ rest = [] →
      effect (run { s with image, oob } (r.program row chunks)) = effect
        (run { s with image, oob } (Engine.program row burst rest))

/-- An erase of the row's block has the same effect through both interfaces, whatever is stored. -/
def SameErase (s : Chip) (r : Iface) (row : Nat) : Prop :=
  ∀ image oob : Option (Nat → UInt8),
    effect (run { s with image, oob } (r.erase row)) = effect (run { s with image, oob } (Engine.erase row))

section Same

variable {page : Nat} {image oob : Option (Nat → UInt8)} {bytes : List UInt8} {t : Chip}

theorem effect_program_outside (h : pageCount ≤ t.pageAddr) : effect (commitProgram t) = effect t := by
  unfold commitProgram
  split
  · rfl
  · rw [if_pos h]

theorem effect_program_bad (himage : t.image.isSome = true) (hpage : t.pageAddr < pageCount)
    (hbad : physicalBad t (t.pageAddr / blockPages) = true) : (effect (commitProgram t)).2.2 = 1 := by
  obtain ⟨image, himage⟩ := Option.isSome_iff_exists.mp himage
  unfold commitProgram
  rw [himage]
  simp only
  rw [if_neg (by omega), if_pos hbad]
  show (0xC1 &&& 1 : UInt8) = 1
  decide

theorem effect_erase_outside (h : blockCount ≤ t.pageAddr / blockPages) : effect (commitErase t) = effect t := by
  unfold commitErase
  split
  · rfl
  · simp only
    rw [if_pos h]

theorem programEffect_outside (h : pageCount ≤ page) : programEffect image oob page bytes = (image, oob, 0) := by
  unfold programEffect
  rw [effect_program_outside (by exact h)]
  show (image, oob, (0xC0 &&& 1 : UInt8)) = (image, oob, 0)
  rw [show (0xC0 &&& 1 : UInt8) = 0 by decide]

/-- In a bad block. -/
theorem programEffect_bad (bytes : List UInt8) (h : page < pageCount) :
    (programEffect (some fun _ => 0xFF) (some fun _ => 0) page bytes).2.2 = 1 := by
  refine effect_program_bad rfl h ?_
  show (decide (page / blockPages < blockCount) && _) = true
  rw [decide_eq_true (by unfold pageCount at h; unfold blockPages blockCount; omega)]
  rfl

theorem eraseEffect_outside {block : Nat} (h : blockCount ≤ block) : eraseEffect image oob block = (image, oob, 0) := by
  unfold eraseEffect
  rw [effect_erase_outside]
  · show (image, oob, (0xC0 &&& 1 : UInt8)) = (image, oob, 0)
    rw [show (0xC0 &&& 1 : UInt8) = 0 by decide]
  · show blockCount ≤ block * blockPages / blockPages
    rw [Nat.mul_div_cancel _ (by decide)]
    exact h

/-- Of an image of zeros. -/
theorem eraseEffect_zeros (block : Nat) : (eraseEffect (some fun _ => 0) none block).1 =
    some fun a => if block < blockCount ∧ a / (blockPages * pageData) = block then 0xFF else 0 := by
  by_cases h : blockCount ≤ block
  · rw [eraseEffect_outside h]
    have hnone : (fun a => if block < blockCount ∧ a / (blockPages * pageData) = block then (0xFF : UInt8) else 0) = fun _ => 0 :=
      funext fun a => if_neg fun h' => absurd h'.1 (by omega)
    rw [hnone]
  · have hcommit : ∀ t : Chip, t.image = some (fun _ => 0) → t.oob = none → t.pageAddr / blockPages = block →
        (commitErase t).image = some fun a => if block < blockCount ∧ a / (blockPages * pageData) = block then 0xFF else 0 := by
      intro t himage hoob hblock
      unfold commitErase
      rw [himage]
      simp only [hblock]
      rw [if_neg h, if_neg (by simp [physicalBad, hoob])]
      simp only
      congr 1
      funext a
      unfold blockPages pageData
      by_cases ha : a / (32 * 512) = block
      · rw [if_pos (by omega), if_pos ⟨by omega, ha⟩]
      · rw [if_neg (by omega), if_neg fun h' => ha h'.2]
    exact hcommit _ rfl rfl (Nat.mul_div_cancel _ (by decide))

end Same

theorem sameProgram_iff (s : Chip) (r : Iface) {row : Nat} (hrow : row < 65536) :
    SameProgram s r row ↔ s.pageAddr < 65536 ∨ pageCount ≤ row := by
  constructor
  · intro h
    by_contra hnot
    -- the row is in a bad block, which the legacy interface does not see
    have hsame := h (some fun _ => 0xFF) (some fun _ => 0) [] [] [] rfl (by decide) (Or.inr rfl)
    rw [legacy_program r _ hrow, engine_program _ hrow [] [] (by decide) (Or.inr rfl)] at hsame
    have hbad := programEffect_bad [] (show row < pageCount by omega)
    rw [programEffect_outside (by unfold pageCount at hnot ⊢; simp only; omega)] at hsame
    have hstatus : (0 : UInt8) = 1 := (congrArg (fun e => e.2.2) hsame).trans hbad
    exact absurd hstatus (by decide)
  · intro h image oob chunks burst rest hbytes hburst hrest
    rw [legacy_program r _ hrow, engine_program _ hrow burst rest hburst hrest, hbytes]
    rcases h with h | h
    · rw [show ({ s with image, oob } : Chip).pageAddr / 65536 * 65536 + row = row by simp only; omega]
    · rw [programEffect_outside (by unfold pageCount at h ⊢; omega), programEffect_outside h]

theorem sameErase_iff (s : Chip) (r : Iface) {row : Nat} (hrow : row < 65536) :
    SameErase s r row ↔ (s.pageAddr / 256 * 256 + row / 256) / blockPages = row / blockPages ∨
      blockCount ≤ (s.pageAddr / 256 * 256 + row / 256) / blockPages ∧ blockCount ≤ row / blockPages := by
  constructor
  · intro h
    by_contra hnot
    have hsame := congrArg Prod.fst (h (some fun _ => 0) none)
    rw [legacy_erase r _ hrow, engine_erase _ hrow, eraseEffect_zeros, eraseEffect_zeros] at hsame
    have hat : ∀ a, _ = _ := fun a => congrFun (Option.some.inj hsame) a
    simp only at hat
    generalize (s.pageAddr / 256 * 256 + row / 256) / blockPages = x at hnot hat
    generalize row / blockPages = y at hnot hat
    have hdiv : ∀ b, b * 16384 / (blockPages * pageData) = b := fun b => Nat.mul_div_cancel b (by decide)
    by_cases hx : x < blockCount
    · have := hat (x * 16384)
      rw [if_pos ⟨hx, hdiv x⟩, if_neg fun h' => hnot (Or.inl ((hdiv x).symm.trans h'.2))] at this
      exact absurd this (by decide)
    · have := hat (y * 16384)
      rw [if_neg fun h' => hx h'.1, if_pos ⟨by omega, hdiv y⟩] at this
      exact absurd this (by decide)
  · intro h image oob
    rw [legacy_erase r _ hrow, engine_erase _ hrow]
    rcases h with h | ⟨h1, h2⟩
    · exact congrArg (eraseEffect image oob) h
    · rw [eraseEffect_outside h1, eraseEffect_outside h2]

/-- A program has the same effect through both interfaces, whatever is stored, exactly when
    the third byte of the row before is zero or the row is past the chip; an erase, when the
    legacy interface's row, the row before with the second byte of the row for its first,
    lies in the same block, or both are past the chip. -/
theorem same_effect_iff (s : Chip) (r : Iface) (row : Nat) (hrow : row < 65536) :
    (SameProgram s r row ↔ s.pageAddr < 65536 ∨ pageCount ≤ row) ∧
      (SameErase s r row ↔ (s.pageAddr / 256 * 256 + row / 256) / blockPages = row / blockPages ∨
        blockCount ≤ (s.pageAddr / 256 * 256 + row / 256) / blockPages ∧ blockCount ≤ row / blockPages) :=
  ⟨sameProgram_iff s r hrow, sameErase_iff s r hrow⟩

/-- A chip with data, after an access to row 0x2005. -/
def usedChip : Chip :=
  { nandInit (some fun a => UInt8.ofNat a) nandImageSize nandImageSize (some fun _ => 0x5A) with pageAddr := 0x2005 }

/-- Six bytes at row 0x2025 through both interfaces, and an erase of its block. -/
theorem same_effect_used :
    effect (run usedChip (Iface.registers.program 0x2025 [(4, 0x12345678), (2, 0xABCD)])) =
      effect (run usedChip (Engine.program 0x2025 [(2, 0x5678), (4, 0xABCD1234)] [])) ∧
    effect (run usedChip (Iface.direct.erase 0x2025)) = effect (run usedChip (Engine.erase 0x2025)) := by
  have hprogram := (same_effect_iff usedChip .registers 0x2025 (by decide)).1.mpr (Or.inl (by decide))
  have herase := (same_effect_iff usedChip .direct 0x2025 (by decide)).2.mpr (Or.inl rfl)
  exact ⟨hprogram _ _ [(4, 0x12345678), (2, 0xABCD)] [(2, 0x5678), (4, 0xABCD1234)] [] (by decide) (by decide) (Or.inr rfl),
    herase _ _⟩

/-- An erase of block 2 of a new chip erases block 0 through the legacy interface. -/
theorem erases_other_block : ¬ (∀ (s : Chip) (r : Iface) (row : Nat), row < 65536 → SameProgram s r row ∧ SameErase s r row) ∧
    effect (run (nandInit (some fun _ => 0) nandImageSize nandImageSize none) (Iface.registers.erase 64)) =
      eraseEffect (some fun _ => 0) none 0 ∧
    effect (run (nandInit (some fun _ => 0) nandImageSize nandImageSize none) (Engine.erase 64)) =
      eraseEffect (some fun _ => 0) none 2 := by
  refine ⟨fun h => ?_, legacy_erase .registers _ (by decide), engine_erase _ (by decide)⟩
  have hsame := (sameErase_iff _ .registers (by decide)).mp (h (nandInit none 0 0 none) .registers 64 (by decide)).2
  revert hsame
  decide

end Be300.Nand
