/-
  Be300.Nand.Chip — the NAND flash chip behind its two command interfaces (`src/hw/nand.c`).

  `image` and `oob` are read by offset; `outside` records that an access to the image went
  past `imageSize`. 32-bit values are numbers below 2^32 (`u32`). Of the state, what only the
  restore engine uses and what is written and never read is not here.
-/

import Mathlib.Data.List.Basic
import Mathlib.Tactic.Common
import Mathlib.Algebra.Ring.Nat
import Mathlib.Algebra.Ring.Int.Defs

namespace Be300.Nand

def pageData : Nat := 512
def pageOob : Nat := 16
def pageRaw : Nat := 528
def blockPages : Nat := 32
def blockCount : Nat := 1024
def pageCount : Nat := 32768
def nandImageSize : Nat := 16777216

def cmdRead0 : UInt8 := 0x00
def cmdRead1 : UInt8 := 0x01
def cmdReadOob : UInt8 := 0x50
def cmdStatus : UInt8 := 0x70
def cmdSeqIn : UInt8 := 0x80
def cmdReadId : UInt8 := 0x90
def cmdPageProg : UInt8 := 0x10
def cmdErase1 : UInt8 := 0x60
def cmdErase2 : UInt8 := 0xD0
def cmdReset : UInt8 := 0xFF

inductive CmdState where
  | idle
  | readData
  | readOob
  | readId
  | readStatus
  | programData
  | eraseSetup
  deriving DecidableEq

/-- The indexed register protocol of the data port. -/
structure Legacy where
  regs : Nat → UInt8
  dirty : Nat → Bool
  readSinceWrite : Nat → Nat
  status7EventReads : Nat
  status7FfArmed : Bool

structure Chip where
  image : Option (Nat → UInt8)
  imageSize : Nat
  oob : Option (Nat → UInt8)
  outside : Bool
  dirty : Bool
  blockDataState : Nat → Nat
  state : CmdState
  pageAddr : Nat
  column : Nat
  nandOffset : Nat
  xferLength : Nat
  xferCursor : Nat
  addrCycle : Nat
  ready : Bool
  enabled : Bool
  ctrlRegs : Nat → Nat
  strapRegs : Nat → UInt8
  xferRegs : Nat → Nat
  xferAddrBytes : Nat → UInt8
  xferAddrCount : Nat
  streamPage : Nat
  streamCol : Nat
  streamBase : Nat
  streamCursor : Nat
  streamLimit : Nat
  streamActive : Bool
  burst520 : Bool
  streamStall : Bool
  bootRegs : Nat → Nat
  bootAddrBytes : Nat → UInt8
  bootAddrCount : Nat
  bootEccCount : Nat
  bootMode : UInt8
  bootReady : Bool
  portctl : Nat
  legacy : Legacy
  xferBuffer : Nat → UInt8
  xferEccWords : Nat → Nat
  xferEccCount : Nat
  xferPhase : UInt8
  xferPendingByte : UInt8
  xferLastCmd : UInt8
  /-- `xfer_data_bytes` up to `xfer_data_count`. -/
  xferData : List UInt8
  xferDataPos : Nat
  dioMode : UInt8
  dioLastWrite : UInt8
  statusValue : UInt8
  programBuffer : Nat → UInt8
  programColumn : Nat
  programLength : Nat

def u32 (n : Nat) : Nat := n % 2 ^ 32

/-- Byte `i` of a value, the least significant one first. -/
def byteOf (value i : Nat) : UInt8 := UInt8.ofNat (value / 256 ^ i)

def update {α : Type} (f : Nat → α) (i : Nat) (x : α) : Nat → α := fun j => if j = i then x else f j

/-! ## The stored bytes -/

def imageByte (s : Chip) (off : Nat) : UInt8 :=
  match s.image with
  | none => 0xFF
  | some image => if off ≥ s.imageSize then 0xFF else image off

def blockIsAllocated (s : Chip) (block : Nat) : Bool := decide (block < blockCount) && decide (s.blockDataState block > 0)

/-- Spare byte of a page; without a spare array, the tags the restore images lack. -/
def streamOobByte (s : Chip) (page oobIdx : Nat) : UInt8 :=
  let block := page / blockPages
  if oobIdx ≥ pageOob ∨ page ≥ pageCount then 0xFF
  else match s.oob with
    | some oob => oob (page * pageOob + oobIdx)
    | none =>
      if page % blockPages < 5 then
        let allocated := blockIsAllocated s block
        match oobIdx with
        | 0 => 0xAA
        | 1 => 0x55
        | 2 => if allocated then 0x0F else 0xFF
        | 4 => if allocated then UInt8.ofNat block else 0xFF
        | 5 => if allocated then UInt8.ofNat (block / 256) else 0xFF
        | 6 => if allocated then 0x00 else 0xFF
        | 7 => if allocated then 0x00 else 0xFF
        | _ => 0xFF
      else 0xFF

def streamByte (s : Chip) (cursorPos : Nat) : UInt8 :=
  let absolute := u32 (s.streamCol + cursorPos)
  let page := u32 (s.streamPage + absolute / pageRaw)
  let inPage := absolute % pageRaw
  if inPage < pageData then imageByte s (u32 (page * pageData + inPage))
  else streamOobByte s page (inPage - pageData)

def physicalBad (s : Chip) (block : Nat) : Bool :=
  match s.oob with
  | none => false
  | some oob =>
    decide (block < blockCount) && (List.range 2).any fun p =>
      let o := fun i => oob ((block * blockPages + p) * pageOob + i)
      o 5 != 0xFF && !(o 0 == 0xAA && o 1 == 0x55 && o 2 == 0x0F)

/-! ## ECC of a page -/

def bitrev (b : UInt8) : UInt8 :=
  (List.range 8).foldl (fun (r : UInt8) i => (r <<< 1) ||| ((b >>> UInt8.ofNat i) &&& 1)) 0

def xtime (a : Nat) : Nat := if (2 * a) &&& 0x400 ≠ 0 then (2 * a) ^^^ 0x409 else 2 * a

def gmul (a b : Nat) : Nat :=
  ((List.range 10).foldl (fun (x : Nat × Nat) i => (if b.testBit i then x.1 ^^^ x.2 else x.1, xtime x.2)) (0, a)).1

/-- Polynomial coefficients multiplied by `x`, plus others. -/
def shiftAdd (r p : Nat → Nat) : Nat → Nat := fun i => (if i = 0 then 0 else r (i - 1)) ^^^ p i

def generator : Nat → Nat :=
  ((List.range 6).foldl (fun (x : (Nat → Nat) × Nat) _ => (shiftAdd x.1 fun i => gmul (x.1 i) x.2, xtime x.2))
    (fun i => if i = 0 then 1 else 0, 1)).1

def eccRemainder (bytes : List UInt8) : Nat → Nat :=
  bytes.foldl (fun rem b => shiftAdd rem fun j => gmul ((4 * (bitrev b).toNat) ^^^ rem 5) (generator j)) fun _ => 0

/-- A 10-bit field with its bits in the other order. -/
def reverse10 (v : Nat) : Nat := (List.range 10).foldl (fun r j => 2 * r ||| (v >>> j) % 2) 0

def packed (v : Nat → Nat) : List UInt8 :=
  [UInt8.ofNat (v 5 / 4), UInt8.ofNat (64 * v 5 ||| v 4 / 16), UInt8.ofNat (16 * v 4 ||| v 3 / 64),
    UInt8.ofNat (4 * v 3 ||| v 2 / 256), UInt8.ofNat (v 2), UInt8.ofNat (v 1 / 4), UInt8.ofNat (64 * v 1 ||| v 0 / 16),
    UInt8.ofNat (16 * v 0)]

def status2Idx : Nat := 48

def physicalEcc (s : Chip) : Chip :=
  let s := { s with xferBuffer := fun _ => 0, xferRegs := update s.xferRegs status2Idx 0 }
  match s.oob with
  | none => s
  | some oob =>
    if s.streamPage ≥ pageCount then s
    else
      let image := s.image.getD fun _ => 0
      let bytes := (List.range 512).map (fun i => image (s.streamPage * 512 + i)) ++
        (List.range 8).map fun i => oob (s.streamPage * pageOob + i)
      let rem := eccRemainder bytes
      let syndrome := fun i => reverse10 (s.xferEccWords i) ^^^ rem (5 - i)
      let clean := (List.range 6).all fun i => syndrome i == 0
      { s with
        outside := s.outside || s.image.isNone || decide (s.streamPage * 512 + 512 > s.imageSize)
        xferRegs := update s.xferRegs status2Idx (if clean then 0 else 1)
        xferBuffer := fun i => if i < 16 ∧ i % 4 < 2 then bitrev ((packed syndrome).getD (i / 4 * 2 + i % 4) 0) else 0 }

/-! ## Program and erase -/

def commitProgram (s : Chip) : Chip :=
  match s.image with
  | none => s
  | some image =>
    if s.pageAddr ≥ pageCount then s
    else if physicalBad s (s.pageAddr / blockPages) then { s with statusValue := 0xC1 }
    else
      let pageOff := s.pageAddr * pageData
      let limit :=
        if s.programColumn + s.programLength > pageData then
          if s.programColumn < pageData then pageData - s.programColumn else 0
        else s.programLength
      let start := pageOff + s.programColumn
      { s with
        oob := s.oob.map fun oob a =>
          let col := a - s.pageAddr * pageOob + pageData
          if s.pageAddr * pageOob ≤ a ∧ col < pageRaw ∧ s.programColumn ≤ col ∧ col < s.programColumn + s.programLength then
            oob a &&& s.programBuffer (col - s.programColumn)
          else oob a
        image := some fun a => if start ≤ a ∧ a < start + limit then image a &&& s.programBuffer (a - start) else image a
        outside := s.outside || decide (limit > 0 ∧ start + limit > s.imageSize)
        dirty := s.dirty || s.oob.isSome && decide (s.programLength > 0) || decide (limit > 0)
        blockDataState := if limit > 0 then update s.blockDataState (s.pageAddr / blockPages) 1 else s.blockDataState }

def commitErase (s : Chip) : Chip :=
  match s.image with
  | none => s
  | some image =>
    let block := s.pageAddr / blockPages
    if block ≥ blockCount then s
    else if physicalBad s block then { s with statusValue := 0xC1 }
    else
      let startPage := block * blockPages
      { s with
        oob := s.oob.map fun oob a =>
          if startPage * pageOob ≤ a ∧ a < startPage * pageOob + blockPages * pageOob then 0xFF else oob a
        image := some fun a =>
          if startPage * pageData ≤ a ∧ a < startPage * pageData + blockPages * pageData then 0xFF else image a
        outside := s.outside || decide (startPage * pageData + blockPages * pageData > s.imageSize)
        dirty := true
        blockDataState := update s.blockDataState block 0 }

/-! ## Legacy command and address ports -/

/-- Reads of these states take bytes of a transfer. -/
def reading : CmdState → Bool
  | .readData => true
  | .readOob => true
  | .readId => true
  | _ => false

def setupTransfer (s : Chip) : Chip :=
  let rawOffset := u32 (s.pageAddr * pageRaw)
  match s.state with
  | .readData =>
    if s.column < pageData then
      { s with nandOffset := u32 (rawOffset + s.column), xferLength := pageData - s.column, xferCursor := 0 }
    else { s with nandOffset := u32 (rawOffset + pageData), xferLength := 0, xferCursor := 0 }
  | .readOob => { s with nandOffset := u32 (rawOffset + pageData), xferLength := pageOob, xferCursor := 0 }
  | .readId => { s with nandOffset := 0, xferLength := 4, xferCursor := 0 }
  | _ => { s with nandOffset := 0, xferLength := 0, xferCursor := 0 }

def startCommand (s : Chip) (cmd : UInt8) : Chip :=
  if cmd = cmdRead0 then { s with state := .readData, column := 0 }
  else if cmd = cmdRead1 then { s with state := .readData, column := 256 }
  else if cmd = cmdReadOob then { s with state := .readOob }
  else if cmd = cmdReadId then { setupTransfer { s with state := .readId } with ready := true }
  else if cmd = cmdStatus then { s with state := .readStatus, ready := true }
  else if cmd = cmdSeqIn then
    { s with state := .programData, column := 0, programColumn := 0, programLength := 0, programBuffer := fun _ => 0xFF }
  else if cmd = cmdErase1 then { s with state := .eraseSetup }
  else if cmd = cmdPageProg then
    { (if s.state = .programData then commitProgram { s with statusValue := 0xC0 } else { s with statusValue := 0xC0 }) with
      state := .idle, ready := true }
  else if cmd = cmdErase2 then
    { (if s.state = .eraseSetup then commitErase { s with statusValue := 0xC0 } else { s with statusValue := 0xC0 }) with
      state := .idle, ready := true }
  else { s with state := .idle, ready := true }

def legacyCommand (s : Chip) (cmd : UInt8) : Chip :=
  startCommand { s with addrCycle := 0, xferCursor := 0, ready := false } cmd

/-- The address bits an address cycle sets. -/
def latchCycle (s : Chip) (abyte : UInt8) : Chip :=
  match s.addrCycle with
  | 0 => if s.state = .readData then { s with column := s.column / 256 * 256 + abyte.toNat } else s
  | 1 => { s with pageAddr := s.pageAddr / 256 * 256 + abyte.toNat }
  | 2 => { s with pageAddr := s.pageAddr / 65536 * 65536 + abyte.toNat * 256 + s.pageAddr % 256 }
  | 3 => { s with pageAddr := s.pageAddr / 16777216 * 16777216 + abyte.toNat * 65536 + s.pageAddr % 65536 }
  | _ => s

/-- Whether it completed a read setup, and the chip. -/
def legacyAddress (s : Chip) (abyte : UInt8) : Bool × Chip :=
  let s := latchCycle s abyte
  let s := { s with addrCycle := (s.addrCycle + 1) % 256 }
  if s.addrCycle ≥ 3 ∧ (s.state = .readData ∨ s.state = .readOob) then (true, { setupTransfer s with ready := true })
  else if s.addrCycle = 1 ∧ s.state = .programData then (false, { s with programColumn := s.column })
  else (false, s)

/-- Bytes of `value` from byte `i` on, up to the page buffer. -/
def programAppend (value : Nat) : Nat → Nat → Chip → Chip
  | 0, _, s => s
  | size + 1, i, s =>
    if s.programColumn + s.programLength ≥ pageRaw then s
    else
      programAppend value size (i + 1)
        { s with programBuffer := update s.programBuffer s.programLength (byteOf value i), programLength := s.programLength + 1 }

/-! ## Transfer engine commands -/

def xferRowAddr (s : Chip) : Nat := (s.xferAddrBytes 1).toNat + 256 * (s.xferAddrBytes 2).toNat

def xferColAddr (s : Chip) : Nat := (s.xferAddrBytes 0).toNat

def xferBlockAddr (s : Chip) : Nat :=
  if s.xferAddrCount < 2 then s.pageAddr / blockPages
  else
    (s.xferAddrBytes 0).toNat / 32 + 8 * (s.xferAddrBytes 1).toNat +
      if s.xferAddrCount ≥ 3 then 2048 * (s.xferAddrBytes 2).toNat else 0

/-- The commands with a column and a row. -/
def addressed (cmd : UInt8) : Bool := cmd == cmdRead0 || cmd == cmdRead1 || cmd == cmdReadOob || cmd == cmdSeqIn

def xferLatchAddrState (s : Chip) : Chip :=
  if addressed s.xferLastCmd then
    if s.xferAddrCount ≥ 3 then { s with pageAddr := xferRowAddr s, column := xferColAddr s } else s
  else if s.xferLastCmd = cmdErase1 then
    if s.xferAddrCount ≥ 2 then { s with pageAddr := xferBlockAddr s * blockPages } else s
  else s

def xferClearData (s : Chip) : Chip := { s with xferData := [], xferDataPos := 0 }

def xferResetAddr (s : Chip) : Chip := { s with xferAddrCount := 0, xferAddrBytes := fun _ => 0 }

def xferPrepareReadid (s : Chip) : Chip := { s with xferData := [0xEC, 0x73], xferDataPos := 0 }

def xferPrepareStatus (s : Chip) : Chip := { s with xferData := [s.statusValue], xferDataPos := 0 }

/-- The command byte of a command phase. -/
def xferCommand (s : Chip) (byte : UInt8) : Chip :=
  if byte = cmdRead0 then xferClearData (xferResetAddr { s with state := .readData, column := 0 })
  else if byte = cmdRead1 then xferClearData (xferResetAddr { s with state := .readData, column := 256 })
  else if byte = cmdReadOob then xferClearData (xferResetAddr { s with state := .readOob })
  else if byte = cmdReadId then { xferClearData (xferResetAddr { s with state := .readId }) with ready := true }
  else if byte = cmdStatus then xferPrepareStatus { s with state := .readStatus, ready := true }
  else if byte = cmdSeqIn then
    xferClearData { xferResetAddr { s with state := .programData, column := 0, programColumn := 0, programLength := 0 } with
      programBuffer := fun _ => 0xFF }
  else if byte = cmdErase1 then xferClearData (xferResetAddr { s with state := .eraseSetup })
  else if byte = cmdPageProg then
    xferPrepareStatus
      { (if s.state = .programData then commitProgram { s with statusValue := 0xC0 } else { s with statusValue := 0xC0 }) with
        state := .idle, ready := true }
  else if byte = cmdErase2 then
    xferPrepareStatus
      { (if s.state = .eraseSetup then commitErase { s with statusValue := 0xC0, pageAddr := xferBlockAddr s * blockPages }
        else { s with statusValue := 0xC0 }) with
        state := .idle, ready := true }
  else if byte = cmdReset then xferClearData { s with state := .idle, ready := true, statusValue := 0xC0 }
  else { xferClearData s with ready := true }

/-- The end of an address phase. -/
def xferAddressed (s : Chip) : Chip :=
  if s.xferLastCmd = cmdReadId then { xferPrepareReadid s with ready := true }
  else if s.xferLastCmd = cmdStatus then { xferPrepareStatus s with ready := true }
  else if addressed s.xferLastCmd then { s with pageAddr := xferRowAddr s, column := xferColAddr s, ready := true }
  else if s.xferLastCmd = cmdErase1 then { s with pageAddr := xferBlockAddr s * blockPages, ready := true }
  else { s with ready := true }

def xferCommitPhase (s : Chip) : Chip :=
  if s.xferPhase = 0x03 then xferCommand { s with xferLastCmd := s.xferPendingByte } s.xferPendingByte
  else if s.xferPhase = 0x06 then xferAddressed s
  else s

end Be300.Nand
