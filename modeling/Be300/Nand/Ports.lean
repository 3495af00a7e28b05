/-
  Be300.Nand.Ports — guest accesses to the NAND controller (`nand_read`, `nand_write` and
  `nand_stream_read_dma`).

  A value is a number whose byte `i` goes to address `offset + i`. The console output of the
  indexed data register is not here.
-/

import Be300.Nand.Chip

namespace Be300.Nand

def regXferCmd : Nat := 0xA414
def regXferAddr : Nat := 0xA420
def regXferAck : Nat := 0xA430
def regXferStatus : Nat := 0xA440
def regXferKick : Nat := 0xA460
def regXferMode : Nat := 0xA464
def regXferMisc : Nat := 0xA468
def regXferStatus2 : Nat := 0xA4C0
def regBootCtrl : Nat := 0xC010
def regBootCmd : Nat := 0xC014
def regBootAddr : Nat := 0xC020
def regBootStatus : Nat := 0xC040
def regBootKick : Nat := 0xC060
def regBootMode : Nat := 0xC064
def regBootEccIn : Nat := 0xC068
def regStreamData : Nat := 0xB000
def regPortctl : Nat := 0xD7F8
def regDevid : Nat := 0xD7FA
def regData : Nat := 0xD7FC
def regStatus : Nat := 0xD7FE
def regCmd : Nat := 0xAC00
def regAddr : Nat := 0xAC04
def regReady : Nat := 0xAC48
def regDioData : Nat := 0xD200
def regDioCtrl : Nat := 0xD202

/-- Bytes as a value. -/
def valueOf : List UInt8 → Nat
  | [] => 0
  | b :: l => b.toNat + 256 * valueOf l

/-- An empty socket's task file and alternate status. -/
def ataPort (offset : Nat) : Bool := decide (0xC170 ≤ offset ∧ offset < 0xC178) || offset == 0xC376

/-! ## The indexed register protocol -/

namespace Legacy

/-- The status register settles. -/
def settle (l : Legacy) (b : UInt8) : Legacy :=
  { regs := update l.regs 7 b, dirty := update l.dirty 7 false, readSinceWrite := update l.readSinceWrite 7 0,
    status7EventReads := 0, status7FfArmed := false }

/-- The highest-priority group of events, cleared. -/
def clearEvents (raw : UInt8) : UInt8 :=
  if raw &&& 0x10 ≠ 0 then raw &&& 0xEF
  else if raw &&& 0x05 ≠ 0 then raw &&& 0xFA
  else if raw &&& 0x0A ≠ 0 then raw &&& 0xF5
  else raw &&& 0xE4

/-- A poll while events are pending; `n` reads since the last write. -/
def pollEvents (l : Legacy) (raw : UInt8) (n : Nat) : UInt8 × Legacy :=
  let l := { l with status7EventReads := if l.status7EventReads < 65535 then l.status7EventReads + 1 else 65535 }
  if l.status7EventReads ≥ 64 then
    if l.status7FfArmed then (0xC0, l.settle 0xC0)
    else (0xFF, { l with status7FfArmed := true, regs := update l.regs 7 0xC0 })
  else if n = 1 then
    let b := clearEvents raw
    if b &&& 0x1B = 0 then (b &&& 0xE4 ||| 0xC0, l.settle (b &&& 0xE4 ||| 0xC0)) else (b, { l with regs := update l.regs 7 b })
  else (raw, l)

def readStatus (l : Legacy) (raw : UInt8) (n : Nat) : UInt8 × Legacy :=
  let hasEvents := raw &&& 0x1B != 0
  let idle := raw &&& 0xE4 ||| 0xC0
  let (b, l) :=
    if l.dirty 7 && hasEvents then l.pollEvents raw n
    else if !hasEvents && (raw &&& 0xC0 != 0 || l.dirty 7) then (idle, l.settle idle)
    else (raw, { l with status7EventReads := 0, status7FfArmed := false })
  if !l.dirty 7 ∧ !l.status7FfArmed ∧ l.regs 7 &&& 0x1B = 0 ∧ l.regs 7 &&& 0xC0 = 0 then
    (l.regs 7 &&& 0xE4 ||| 0xC0, { l with regs := update l.regs 7 (l.regs 7 &&& 0xE4 ||| 0xC0) })
  else (b, l)

def readByte (l : Legacy) (ri : Nat) : UInt8 × Legacy :=
  let raw := l.regs ri
  let n := l.readSinceWrite ri
  let l := { l with readSinceWrite := update l.readSinceWrite ri (if n < 65535 then n + 1 else n) }
  if ri = 7 then l.readStatus raw n else (raw, { l with dirty := update l.dirty ri false })

def readBytes : Nat → Nat → Legacy → Nat × Legacy
  | 0, _, l => (0, l)
  | size + 1, idx, l =>
    let (b, l) := l.readByte (idx % 256)
    let (rest, l) := readBytes size (idx + 1) l
    (b.toNat + 256 * rest, l)

def writeByte (l : Legacy) (ri : Nat) (b : UInt8) : Legacy :=
  let old := l.regs ri
  let keepReadCount := ri == 7 && l.dirty ri && old == b && old &&& 0x1B != 0
  let quiet := ri == 7 && b &&& 0x1B == 0
  { regs := update l.regs ri b, dirty := update l.dirty ri true
    readSinceWrite := if keepReadCount then l.readSinceWrite else update l.readSinceWrite ri 0
    status7EventReads := if quiet then 0 else l.status7EventReads
    status7FfArmed := if quiet then false else l.status7FfArmed }

def writeBytes (value : Nat) : Nat → Nat → Nat → Legacy → Legacy
  | 0, _, _, l => l
  | size + 1, i, idx, l => writeBytes value size (i + 1) idx (l.writeByte ((idx + i) % 256) (byteOf value i))

end Legacy

/-! ## Writes -/

/-- An address byte after `count` others; of more than four the first is dropped. -/
def pushByte (bytes : Nat → UInt8) (count : Nat) (b : UInt8) : (Nat → UInt8) × Nat :=
  if count < 4 then (update bytes count b, count + 1) else (fun i => if i = 3 then b else bytes (i + 1), count)

def writeCtrl (s : Chip) (offset value : Nat) : Chip :=
  let regs := update s.ctrlRegs ((offset - 0xA000) / 4) (u32 value)
  { s with ctrlRegs := if offset = 0xA000 then update regs 2 (if value % 2 = 1 then 0x2F9 else 0) else regs }

/-- The board strap at 0xA0C0 keeps its bytes. -/
def writeStrap (s : Chip) (offset size value : Nat) : Chip :=
  { s with
    strapRegs := fun a =>
      let i := a - (offset - 0xA060)
      if offset - 0xA060 ≤ a ∧ i < size ∧ a < 0x100 ∧ ¬ (0x60 ≤ a ∧ a < 0x64) then byteOf value i else s.strapRegs a }

/-- The stream at the column and row of the address bytes. -/
def openStream (s : Chip) : Chip :=
  { s with
    streamPage := xferRowAddr s, streamCol := xferColAddr s, streamBase := u32 (xferRowAddr s * pageRaw + xferColAddr s),
    streamCursor := 0, streamActive := true }

def xferModeIdx : Nat := 25

/-- Mode 4: the result buffer is filled from the stream, which is opened if it is not. -/
def fillBuffer (s : Chip) : Chip :=
  let s := if !s.streamActive ∧ s.xferAddrCount ≥ 3 then openStream s else s
  if s.streamActive then
    { s with
      streamLimit := pageRaw - s.streamCol
      xferBuffer := fun i => if i < 16 then streamByte s (u32 (s.streamCursor + i)) else 0 }
  else { s with xferBuffer := fun _ => 0 }

def startXferMode (s : Chip) (mode : UInt8) : Chip :=
  if mode = 0x00 ∨ mode = 0x01 then
    { s with
      xferEccCount := 0, xferBuffer := fun _ => 0, xferRegs := update s.xferRegs status2Idx 0, streamBase := 0,
      streamCursor := 0, streamLimit := 0, streamActive := false }
  else if mode = 0x04 then fillBuffer s
  else if mode = 0x05 then
    { openStream s with streamLimit := (if s.burst520 then pageData + 8 else pageRaw) - xferColAddr s }
  else if mode = 0x06 then { s with streamBase := pageData + 8, streamCursor := 0, streamLimit := 8, streamActive := false }
  else if mode = 0x07 then
    { xferLatchAddrState s with streamBase := 0, streamCursor := 0, streamLimit := pageData + 8, streamActive := false }
  else s

def writeXferMode (s : Chip) (mode : UInt8) : Chip :=
  { startXferMode { s with burst520 := if mode = 0x01 then true else s.burst520 } mode with ready := true }

/-- A stored ECC word. -/
def latchEccWord (s : Chip) (value : Nat) : Chip :=
  if s.xferEccCount < 6 then
    { s with xferEccWords := update s.xferEccWords s.xferEccCount (value % 1024), xferEccCount := s.xferEccCount + 1 }
  else s

def writeXferMisc (s : Chip) (value : Nat) : Chip :=
  if s.xferRegs xferModeIdx = 0x01 then
    let s := latchEccWord s value
    if s.xferEccCount ≥ 6 then { physicalEcc s with ready := true } else s
  else s

def writeXferCmd (s : Chip) (phase : UInt8) : Chip :=
  { s with xferPhase := phase, xferAddrCount := if phase = 0x03 ∨ phase = 0x06 then 0 else s.xferAddrCount }

def writeXferAddr (s : Chip) (b : UInt8) : Chip :=
  if s.xferPhase = 0x06 then
    let (bytes, count) := pushByte s.xferAddrBytes s.xferAddrCount b
    xferLatchAddrState { s with xferPendingByte := b, xferAddrBytes := bytes, xferAddrCount := count }
  else { s with xferPendingByte := b }

/-- What a latched register does. -/
def xferReg (s : Chip) (offset value : Nat) : Chip :=
  if offset = regXferCmd then writeXferCmd s (byteOf value 0)
  else if offset = regXferAddr then writeXferAddr s (byteOf value 0)
  else if offset = regXferAck then xferCommitPhase s
  else if offset = regXferKick then { s with ready := false }
  else if offset = regXferMode then writeXferMode s (byteOf value 0)
  else if offset = regXferMisc then writeXferMisc s value
  else s

def writeXfer (s : Chip) (offset value : Nat) : Chip :=
  xferReg { s with xferRegs := update s.xferRegs ((offset - 0xA400) / 4) (u32 value) } offset value

def bootStatusIdx : Nat := 16

def bootReset (s : Chip) : Chip :=
  { s with
    bootReady := false, bootMode := 0, bootAddrCount := 0, bootEccCount := 0, streamActive := false, streamLimit := 0,
    bootRegs := update (update s.bootRegs bootStatusIdx 0) status2Idx 0 }

def bootStartStream (s : Chip) : Chip :=
  let col := (s.bootAddrBytes 0).toNat
  let page := (s.bootAddrBytes 1).toNat + 256 * (s.bootAddrBytes 2 &&& 0x7F).toNat
  { s with
    streamPage := page, streamCol := col, streamBase := u32 (page * pageRaw + col), streamCursor := 0,
    streamLimit := pageRaw - col, streamActive := true, bootReady := true,
    bootRegs := update (update s.bootRegs bootStatusIdx 1) status2Idx 0 }

/-- Zero syndromes. -/
def bootFinishEccInput (s : Chip) : Chip :=
  { s with bootRegs := fun i => if 40 ≤ i ∧ i < 44 ∨ i = status2Idx then 0 else s.bootRegs i }

def writeBootMode (s : Chip) (mode : UInt8) : Chip :=
  let s := { s with bootMode := mode }
  if mode = 0x05 ∧ s.bootAddrCount ≥ 3 then bootStartStream s
  else if mode = 0x04 then { s with bootReady := true, bootRegs := update s.bootRegs bootStatusIdx 1 }
  else if mode = 0x00 then { s with bootEccCount := 0, bootRegs := update s.bootRegs status2Idx 0 }
  else if mode = 0x01 then { s with bootEccCount := 0 }
  else s

def writeBoot (s : Chip) (offset value : Nat) : Chip :=
  let s := { s with bootRegs := update s.bootRegs ((offset - 0xC000) / 4) (u32 value) }
  let b := byteOf value 0
  if offset = regBootCtrl then if value % 2 = 0 then bootReset s else s
  else if offset = regBootCmd then
    if b = 0x03 ∨ b = 0x06 then { s with bootAddrCount := 0 } else if b = 0x00 then bootReset s else s
  else if offset = regBootAddr then
    let (bytes, count) := pushByte s.bootAddrBytes s.bootAddrCount b
    { s with bootAddrBytes := bytes, bootAddrCount := count }
  else if offset = regBootKick then { s with bootReady := false, bootRegs := update s.bootRegs bootStatusIdx 0 }
  else if offset = regBootMode then writeBootMode s b
  else if offset = regBootEccIn then
    if s.bootMode = 0x01 ∧ s.bootEccCount < 6 then
      let s := { s with bootEccCount := s.bootEccCount + 1 }
      if s.bootEccCount = 6 then bootFinishEccInput s else s
    else s
  else s

/-- A command, an address byte or program data, as the control register says. -/
def routeDio (s : Chip) (size value : Nat) : Chip :=
  if s.dioMode &&& 0x80 ≠ 0 then legacyCommand s (byteOf value 0)
  else if s.dioMode &&& 0x01 ≠ 0 then
    let (done, s) := legacyAddress s (byteOf value 0)
    if done then { s with dioLastWrite := 0 } else s
  else if s.state = .programData then programAppend value size 0 s
  else s

def writeDioData (s : Chip) (size value : Nat) : Chip := routeDio { s with dioLastWrite := byteOf value 0 } size value

def writeData (s : Chip) (size value : Nat) : Chip :=
  if s.state = .programData then programAppend value size 0 s
  else { s with legacy := Legacy.writeBytes value size 0 (s.portctl % 256) s.legacy }

/-- Bytes of `value` from byte `i` on, put in the page buffer up to the limit. -/
def streamWriteBytes (value : Nat) : Nat → Nat → Chip → Chip
  | 0, _, s => s
  | size + 1, i, s =>
    if s.streamCursor ≥ s.streamLimit then s
    else
      let idx := u32 (s.streamBase + s.streamCursor)
      streamWriteBytes value size (i + 1) { s with
        programBuffer := if idx < pageRaw then update s.programBuffer idx (byteOf value i) else s.programBuffer
        programLength := if idx < pageRaw ∧ idx + 1 > s.programLength then idx + 1 else s.programLength
        streamCursor := u32 (s.streamCursor + 1) }

def writeStream (s : Chip) (size value : Nat) : Chip :=
  if (s.xferRegs xferModeIdx = 0x06 ∨ s.xferRegs xferModeIdx = 0x07) ∧ s.streamLimit ≠ 0 then streamWriteBytes value size 0 s
  else s

def write (s : Chip) (offset size value : Nat) : Chip :=
  if 0xA000 ≤ offset ∧ offset < 0xA020 then writeCtrl s offset value
  else if 0xA060 ≤ offset ∧ offset < 0xA160 then writeStrap s offset size value
  else if 0xA400 ≤ offset ∧ offset < 0xA500 then writeXfer s offset value
  else if 0xC000 ≤ offset ∧ offset < 0xC100 then writeBoot s offset value
  else if 0xB100 ≤ offset ∧ offset < 0xB110 then { s with enabled := value % 2 == 1 }
  else if ataPort offset then s
  else if offset = regDioCtrl then { s with dioMode := byteOf value 0 }
  else if offset = regDioData then writeDioData s size value
  else if offset = regCmd then legacyCommand s (byteOf value 0)
  else if offset = regAddr then (legacyAddress s (byteOf value 0)).2
  else if offset = regPortctl then { s with portctl := value % 65536 }
  else if offset = regData then writeData s size value
  else if 0xB000 ≤ offset ∧ offset < 0xB210 then writeStream s size value
  else s

/-! ## Reads -/

/-- A byte of the stream, 0xFF past its limit. -/
def limitedByte (s : Chip) (cursorPos : Nat) : UInt8 :=
  if s.streamLimit ≠ 0 ∧ cursorPos ≥ s.streamLimit then 0xFF else streamByte s cursorPos

def streamRead (s : Chip) (size : Nat) : Nat × Chip :=
  let past := (List.range size).any fun i => s.streamLimit != 0 && decide (u32 (s.streamCursor + i) ≥ s.streamLimit)
  (valueOf ((List.range size).map fun i => limitedByte s (u32 (s.streamCursor + i))), { s with
    streamStall := s.streamStall || past && s.burst520 && s.xferRegs xferModeIdx == 0x05
    streamCursor := u32 (s.streamCursor + size) })

def readXfer (s : Chip) (offset size : Nat) : Nat × Chip :=
  if offset = regXferStatus then (if s.ready then 1 else 0, s)
  else if offset = regXferAck then (0, xferCommitPhase s)
  else if offset = regXferAddr ∧ s.xferDataPos < s.xferData.length then
    ((s.xferData.getD s.xferDataPos 0).toNat, { s with xferDataPos := s.xferDataPos + 1 })
  else if offset = regXferStatus2 then (s.xferRegs status2Idx, s)
  else if 0xA4A0 ≤ offset ∧ offset < 0xA4B0 then
    (valueOf ((List.range (min size (16 - (offset - 0xA4A0)))).map fun i => s.xferBuffer (offset - 0xA4A0 + i)), s)
  else (s.xferRegs ((offset - 0xA400) / 4), s)

def readBoot (s : Chip) (offset : Nat) : Nat :=
  if offset = regBootStatus then if s.bootReady then 1 else 0 else s.bootRegs ((offset - 0xC000) / 4)

/-- The byte at the transfer's cursor. -/
def transferByte (s : Chip) : UInt8 :=
  match s.state with
  | .readId => [0xEC, 0x73].getD s.xferCursor 0xFF
  | .readOob => streamOobByte s s.pageAddr s.xferCursor
  | _ => imageByte s (u32 (s.pageAddr * pageData + s.column + s.xferCursor))

def readDioData (s : Chip) : Nat × Chip :=
  if s.dioLastWrite ≠ 0 then (s.dioLastWrite.toNat, { s with dioLastWrite := 0 })
  else if s.state = .readStatus then (s.statusValue.toNat, s)
  else if reading s.state ∧ s.xferLength > 0 ∧ s.image.isSome ∧ s.xferCursor < s.xferLength then
    ((transferByte s).toNat, { s with xferCursor := s.xferCursor + 1 })
  else (0xFF, s)

/-- Two bytes of the transfer. -/
def portRead (s : Chip) : Nat × Chip :=
  match s.image with
  | none => (0xFFFF, s)
  | some image =>
    if s.xferCursor ≥ s.xferLength then (0xFFFF, s)
    else
      let imgOff := u32 (s.nandOffset + s.xferCursor)
      if u32 (imgOff + 1) < s.imageSize then
        ((image imgOff).toNat + 256 * (image (u32 (imgOff + 1))).toNat,
          { s with xferCursor := s.xferCursor + 2, outside := s.outside || decide (imgOff ≥ s.imageSize) })
      else if imgOff < s.imageSize then ((image imgOff).toNat, { s with xferCursor := s.xferCursor + 2 })
      else (0xFFFF, s)

def readData (s : Chip) (size : Nat) : Nat × Chip :=
  if s.state = .readStatus then (s.statusValue.toNat, s)
  else if size ≥ 2 ∧ reading s.state ∧ s.xferLength > 0 then portRead s
  else
    let (val, legacy) := Legacy.readBytes size (s.portctl % 256) s.legacy
    (val, { s with legacy })

/-- The sites of the boot loader that must find no network card. -/
def noNicPc (pc : Nat) : Bool :=
  let norm := if pc.testBit 29 then pc - 0x20000000 else pc
  norm == 0x80F022C4 || norm == 0x80F02324 || norm == 0x80F09E1C

def readStatusPort (s : Chip) (pc : Nat) : Nat :=
  if s.state = .readStatus then s.statusValue.toNat else if noNicPc pc then 0 else if s.ready then 0x80 else 0

def read (s : Chip) (offset size pc : Nat) : Nat × Chip :=
  if 0xA000 ≤ offset ∧ offset < 0xA020 then (s.ctrlRegs ((offset - 0xA000) / 4), s)
  else if 0xA060 ≤ offset ∧ offset < 0xA160 then
    (valueOf ((List.range (min size (0xA160 - offset))).map fun i => s.strapRegs (offset - 0xA060 + i)), s)
  else if 0xA400 ≤ offset ∧ offset < 0xA500 then readXfer s offset size
  else if 0xC000 ≤ offset ∧ offset < 0xC100 then (readBoot s offset, s)
  else if 0xB000 ≤ offset ∧ offset < 0xB210 then
    if s.streamActive then streamRead s size else (if size ≥ 4 then 0xFFFFFFFF else 0xFF, s)
  else if offset = regDioData then readDioData s
  else if offset = regDioCtrl then (s.dioMode.toNat, s)
  else if offset = regReady then (if s.ready then 1 else 0, s)
  else if offset = regPortctl then (s.portctl, s)
  else if offset = regDevid then (0x73EC, s)
  else if offset = regData then readData s size
  else if offset = regStatus then (readStatusPort s pc, s)
  else if ataPort offset then (256 ^ size - 1, s)
  else (0, s)

/-- The bytes of the active stream, if any. -/
def streamReadDma (s : Chip) (len : Nat) : List UInt8 × Chip :=
  if s.streamActive then
    ((List.range len).map fun i => streamByte s (u32 (s.streamCursor + i)), { s with streamCursor := u32 (s.streamCursor + len) })
  else ([], s)

/-! ## Accesses -/

inductive Access where
  | read (offset size pc : Nat)
  | write (offset size value : Nat)
  | streamReadDma (len : Nat)

def step (s : Chip) : Access → Chip
  | .read offset size pc => (read s offset size pc).2
  | .write offset size value => write s offset size value
  | .streamReadDma len => (streamReadDma s len).2

def run (s : Chip) (accesses : List Access) : Chip := accesses.foldl step s

theorem run_append (s : Chip) (l m : List Access) : run s (l ++ m) = run (run s l) m := List.foldl_append

/-! ## The start -/

/-- The words of the strap block. -/
def strapInit : List Nat :=
  List.replicate 8 0x000C000C ++ [0, 1, 0] ++ List.replicate 14 0x7100 ++ [3, 0xFFFF, 0, 2, 0, 0, 5, 0x41, 0xF, 0, 0, 0] ++
    List.replicate 3 0x7100 ++ List.replicate 16 0 ++ [1] ++ List.replicate 7 0

/-- `nand_init`, and the spare array of the machine. -/
def nandInit (image : Option (Nat → UInt8)) (size validSize : Nat) (oob : Option (Nat → UInt8)) : Chip :=
  { image, imageSize := size, oob, outside := false, dirty := false
    blockDataState := fun block => if image.isSome ∧ block * blockPages * pageData < min validSize size then 1 else 0
    state := .idle, pageAddr := 0, column := 0, nandOffset := 0, xferLength := 0, xferCursor := 0, addrCycle := 0
    ready := true, enabled := false, ctrlRegs := fun _ => 0
    strapRegs := fun a => byteOf (strapInit.getD (a / 4) 0) (a % 4)
    xferRegs := fun _ => 0, xferAddrBytes := fun _ => 0, xferAddrCount := 0, streamPage := 0, streamCol := 0, streamBase := 0
    streamCursor := 0, streamLimit := 0, streamActive := false, burst520 := false, streamStall := false
    bootRegs := fun _ => 0, bootAddrBytes := fun _ => 0, bootAddrCount := 0, bootEccCount := 0, bootMode := 0
    bootReady := false, portctl := 0
    legacy := { regs := fun _ => 0x40, dirty := fun _ => false, readSinceWrite := fun _ => 0, status7EventReads := 0
                status7FfArmed := false }
    xferBuffer := fun _ => 0, xferEccWords := fun _ => 0, xferEccCount := 0, xferPhase := 0, xferPendingByte := 0
    xferLastCmd := 0, xferData := [], xferDataPos := 0, dioMode := 0, dioLastWrite := 0, statusValue := 0xC0
    programBuffer := fun _ => 0, programColumn := 0, programLength := 0 }

end Be300.Nand
