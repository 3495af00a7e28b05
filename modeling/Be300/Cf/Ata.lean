/-
  Be300.Cf.Ata — the CompactFlash storage card's task file and data port (`src/hw/cf.c`).

  An access carries its bytes in address order. `image` and `dataBuffer` are read by
  offset; `outside` records that an access to the image went past `imageSize`. The 512-byte
  buffer of `cf_reserve_buffer` is taken to be there. Of the CIS only what a window read
  returns is here, and nothing of the companion page.
-/

import Mathlib.Data.List.Basic
import Mathlib.Tactic.Common
import Mathlib.Algebra.Ring.Nat
import Mathlib.Algebra.Ring.Int.Defs

namespace Be300.Cf.Ata

def stErr : UInt8 := 0x01
def stDrq : UInt8 := 0x08
def stDsc : UInt8 := 0x10
def stDrdy : UInt8 := 0x40
def dhLba : UInt8 := 0x40

def cmdRecal : UInt8 := 0x10
def cmdReadSectors : UInt8 := 0x20
def cmdWriteSectors : UInt8 := 0x30
def cmdReadVerify : UInt8 := 0x40
def cmdDiagnostic : UInt8 := 0x90
def cmdSetFeatures : UInt8 := 0xEF
def cmdIdentify : UInt8 := 0xEC

def sectorSize : Nat := 512

structure Card where
  image : Nat → UInt8
  imageSize : Nat
  outside : Bool
  dirty : Bool
  attached : Bool
  bootVisible : Bool
  bootStatusFloating : Bool
  cis : List UInt8
  dataBuffer : Nat → UInt8
  dataLength : Nat
  dataPos : Nat
  pendingWrite : Bool
  transferLba : Nat
  transferRemaining : Nat
  errorReg : UInt8
  featureReg : UInt8
  sectorCount : UInt8
  sectorNumber : UInt8
  cylinderLow : UInt8
  cylinderHigh : UInt8
  driveHead : UInt8
  commandReg : UInt8
  statusReg : UInt8
  deviceControl : UInt8

def ready (s : Card) : UInt8 := if s.attached then stDrdy ||| stDsc else 0

def resetTaskfile (s : Card) : Card :=
  { s with
    errorReg := 0, featureReg := 0, sectorCount := 1, sectorNumber := 1, cylinderLow := 0, cylinderHigh := 0,
    driveHead := 0xE0, commandReg := 0, deviceControl := 0, statusReg := ready s, dataLength := 0, dataPos := 0,
    pendingWrite := false, transferLba := 0, transferRemaining := 0 }

/-- The card `cf_load_image` leaves: an image of whole sectors, at least one. -/
def loaded (image : Nat → UInt8) (imageSize : Nat) (cis : List UInt8) : Card :=
  resetTaskfile
    { image, imageSize, outside := false, dirty := false, attached := true, bootVisible := false,
      bootStatusFloating := false, cis, dataBuffer := fun _ => 0, dataLength := 0, dataPos := 0, pendingWrite := false,
      transferLba := 0, transferRemaining := 0, errorReg := 0, featureReg := 0, sectorCount := 0, sectorNumber := 0,
      cylinderLow := 0, cylinderHigh := 0, driveHead := 0, commandReg := 0, statusReg := 0, deviceControl := 0 }

def setBootVisible (s : Card) (visible : Bool) : Card :=
  { resetTaskfile { s with bootVisible := visible && s.attached } with bootStatusFloating := false }

def currentLba (s : Card) : Nat :=
  s.sectorNumber.toNat + 256 * s.cylinderLow.toNat + 65536 * s.cylinderHigh.toNat +
    16777216 * (s.driveHead &&& 0x0F).toNat

def setCurrentLba (s : Card) (lba : Nat) : Card :=
  { s with
    sectorNumber := UInt8.ofNat lba, cylinderLow := UInt8.ofNat (lba / 256), cylinderHigh := UInt8.ofNat (lba / 65536),
    driveHead := (s.driveHead &&& 0xF0) ||| (UInt8.ofNat (lba / 16777216) &&& 0x0F) }

def setReady (s : Card) : Card := { s with statusReg := ready s }

def setError (s : Card) (err : UInt8) : Card :=
  { s with
    errorReg := err, statusReg := stErr ||| ready s, dataLength := 0, dataPos := 0, pendingWrite := false,
    transferRemaining := 0 }

/-! ## IDENTIFY -/

def putWordLe (buf : List UInt8) (index value : Nat) : List UInt8 :=
  (buf.set (2 * index) (UInt8.ofNat value)).set (2 * index + 1) (UInt8.ofNat (value / 256))

/-- Pairs of characters, swapped and filled up with blanks. -/
def putAtaString (buf : List UInt8) (index : Nat) : Nat → List UInt8 → List UInt8
  | 0, _ => buf
  | words + 1, text =>
    putAtaString (putWordLe buf index ((text.getD 0 32).toNat * 256 + (text.getD 1 32).toNat)) (index + 1) words (text.drop 2)

def text (s : String) : List UInt8 := s.toList.map fun c => UInt8.ofNat c.toNat

def identifyData (imageSize : Nat) : List UInt8 :=
  let total := imageSize / sectorSize % 2 ^ 32
  let buf := List.replicate sectorSize 0
  let buf := putWordLe (putWordLe (putWordLe (putWordLe buf 0 0x848A) 1 0x3FFF) 3 0x0010) 6 0x003F
  let buf := putAtaString buf 10 10 (text "BE300-CF0001")
  let buf := putAtaString buf 23 4 (text "1.0")
  let buf := putAtaString buf 27 20 (text "BE-300 RECOVERY CF")
  let buf := putWordLe (putWordLe (putWordLe buf 47 0x8001) 49 0x0200) 53 0x0007
  let buf := putWordLe (putWordLe (putWordLe buf 54 0x3FFF) 55 0x0010) 56 0x003F
  let buf := putWordLe (putWordLe buf 57 (total % 65536)) 58 (total / 65536)
  putWordLe (putWordLe buf 60 (total % 65536)) 61 (total / 65536)

def prepareIdentify (s : Card) : Card :=
  { s with
    dataBuffer := fun i => (identifyData s.imageSize).getD i 0, dataLength := sectorSize, dataPos := 0,
    pendingWrite := false, transferRemaining := 0, statusReg := stDrdy ||| stDsc ||| stDrq }

/-! ## Transfers -/

def finishTransfer (s : Card) : Card :=
  setReady { s with dataLength := 0, dataPos := 0, pendingWrite := false, transferRemaining := 0 }

def updateTaskfileAfterSector (s : Card) (nextLba remaining : Nat) : Card :=
  { setCurrentLba s nextLba with sectorCount := if remaining = 256 then 0 else UInt8.ofNat remaining }

/-- Whether it returned 0, and the card. -/
def loadReadSector (s : Card) : Bool × Card :=
  let off := s.transferLba * sectorSize
  if off + sectorSize > s.imageSize then (false, setError s 0x10)
  else
    (true, { s with
      dataBuffer := fun i => s.image (off + i), outside := s.outside || decide (off + sectorSize > s.imageSize),
      dataLength := sectorSize, dataPos := 0, pendingWrite := false, statusReg := stDrdy ||| stDsc ||| stDrq })

def prepareWriteSector (s : Card) : Card :=
  { s with
    dataBuffer := fun _ => 0, dataLength := sectorSize, dataPos := 0, pendingWrite := true,
    statusReg := stDrdy ||| stDsc ||| stDrq }

/-- The sector count register's count. -/
def sectors (s : Card) : Nat := if s.sectorCount ≠ 0 then s.sectorCount.toNat else 256

def prepareRead (s : Card) : Card :=
  if s.driveHead &&& dhLba = 0 then setError s 0x04
  else if (currentLba s + sectors s) * sectorSize > s.imageSize then setError s 0x10
  else (loadReadSector { s with transferLba := currentLba s, transferRemaining := sectors s }).2

def beginWrite (s : Card) : Card :=
  if s.driveHead &&& dhLba = 0 then setError s 0x04
  else if (currentLba s + sectors s) * sectorSize > s.imageSize then setError s 0x10
  else prepareWriteSector { s with transferLba := currentLba s, transferRemaining := sectors s }

def executeCommand (s : Card) (cmd : UInt8) : Card :=
  let s := { s with commandReg := cmd, errorReg := 0 }
  if !s.attached then setError s 0x04
  else if cmd = cmdIdentify then prepareIdentify s
  else if cmd = cmdReadSectors then prepareRead s
  else if cmd = cmdWriteSectors then beginWrite s
  else if cmd = cmdRecal ∨ cmd = cmdReadVerify ∨ cmd = cmdDiagnostic then setReady s
  else if cmd = cmdSetFeatures then
    if s.featureReg = 0x03 ∨ s.featureReg = 0x01 then setReady s else setError s 0x04
  else setError s 0x04

/-- The bytes of a read from the buffer, 0xFF past its end. -/
def readBytes : Nat → Card → List UInt8 × Card
  | 0, s => ([], s)
  | size + 1, s =>
    if s.dataPos < s.dataLength then
      let (rest, s') := readBytes size { s with dataPos := s.dataPos + 1 }
      (s.dataBuffer s.dataPos :: rest, s')
    else
      let (rest, s') := readBytes size s
      (0xFF :: rest, s')

/-- The end of a sector read. -/
def endReadSector (s : Card) : Card :=
  let nextLba := (s.transferLba + 1) % 2 ^ 32
  let remaining := s.transferRemaining - 1
  let s := { updateTaskfileAfterSector s nextLba remaining with transferLba := nextLba, transferRemaining := remaining }
  if remaining > 0 then
    let (loaded, s) := loadReadSector s
    if loaded then s else setError s 0x10
  else finishTransfer s

def dataRead (s : Card) (size : Nat) : List UInt8 × Card :=
  if s.dataLength = 0 ∨ s.pendingWrite then (List.replicate size 0xFF, s)
  else
    let (value, s) := readBytes size s
    (value, if s.dataPos ≥ s.dataLength then endReadSector s else s)

def commitWrite (s : Card) : Card :=
  let nextLba := (s.transferLba + 1) % 2 ^ 32
  let remaining := s.transferRemaining - 1
  let off := s.transferLba * sectorSize
  let s := { s with
    image := fun a => if off ≤ a ∧ a < off + sectorSize then s.dataBuffer (a - off) else s.image a
    outside := s.outside || decide (off + sectorSize > s.imageSize)
    dirty := true }
  let s := { updateTaskfileAfterSector s nextLba remaining with transferLba := nextLba, transferRemaining := remaining }
  if remaining > 0 then prepareWriteSector s else finishTransfer s

def writeBytes : List UInt8 → Card → Card
  | [], s => s
  | b :: value, s =>
    if s.dataPos < s.dataLength then
      writeBytes value { s with
        dataBuffer := fun i => if i = s.dataPos then b else s.dataBuffer i, dataPos := s.dataPos + 1 }
    else s

def dataWrite (s : Card) (value : List UInt8) : Card :=
  if !s.pendingWrite || s.dataLength = 0 then s
  else
    let s := writeBytes value s
    if s.dataPos ≥ s.dataLength then commitWrite s else s

/-! ## Registers -/

/-- A task file register, or the alternate status and device control port. -/
inductive Port where
  | reg (n : Nat)
  | alt
  deriving DecidableEq

def decodeTaskfileOffset (offset : Nat) : Option Port :=
  let pageOff := offset % 0x400
  if 0x1F0 ≤ pageOff ∧ pageOff ≤ 0x1F7 then some (.reg (pageOff - 0x1F0))
  else if 0x170 ≤ pageOff ∧ pageOff ≤ 0x177 then some (.reg (pageOff - 0x170))
  else if 0x180 ≤ pageOff ∧ pageOff ≤ 0x187 then some (.reg (pageOff - 0x180))
  else if pageOff = 0x206 ∨ pageOff = 0x376 ∨ pageOff = 0x3F6 then some .alt
  else none

def decodeBootOffset (offset : Nat) : Option Port :=
  if 0xC170 ≤ offset ∧ offset < 0xC178 then some (.reg (offset - 0xC170))
  else if offset = 0xC376 then some .alt
  else none

def readReg8 (s : Card) (port : Port) (boot : Bool) : UInt8 :=
  let status := port = .alt ∨ port = .reg 7
  if boot ∧ !s.bootVisible then if status then 0x00 else 0xFF
  else if boot ∧ s.bootStatusFloating ∧ status then 0xFF
  else match port with
    | .alt => s.statusReg
    | .reg 1 => s.errorReg
    | .reg 2 => s.sectorCount
    | .reg 3 => s.sectorNumber
    | .reg 4 => s.cylinderLow
    | .reg 5 => s.cylinderHigh
    | .reg 6 => s.driveHead
    | .reg 7 => s.statusReg
    | .reg _ => 0xFF

def writeAlt (s : Card) (boot : Bool) (value : UInt8) : Card :=
  let s := { s with deviceControl := value }
  if boot ∧ s.bootVisible ∧ value = 0 then { resetTaskfile s with bootStatusFloating := false }
  else if value &&& 0x04 ≠ 0 then resetTaskfile s
  else s

def writeReg8 (s : Card) (reg : Nat) (boot : Bool) (value : UInt8) : Card :=
  if boot ∧ !s.bootVisible then s
  else match reg with
    | 1 => { s with featureReg := value }
    | 2 => { s with sectorCount := value }
    | 3 => { s with sectorNumber := value }
    | 4 => { s with cylinderLow := value }
    | 5 => { s with cylinderHigh := value }
    | 6 => { s with driveHead := value }
    | 7 => executeCommand s value
    | _ => s

def readRegs (s : Card) (port : Port) (boot : Bool) (size : Nat) : List UInt8 :=
  (List.range size).map fun i =>
    match port with
    | .alt => if i = 0 then readReg8 s .alt boot else 0xFF
    | .reg n => if n + i ≤ 7 then readReg8 s (.reg (n + i)) boot else 0xFF

/-- The bytes for register `reg` and the ones after it, up to register 7. -/
def writeRegs (boot : Bool) : Nat → List UInt8 → Card → Card
  | _, [], s => s
  | reg, b :: value, s => if reg > 7 then s else writeRegs boot (reg + 1) value (writeReg8 s reg boot b)

def cisRead (s : Card) (offset size : Nat) : List UInt8 :=
  (List.range size).map fun i => if (offset + i) % 2 = 0 then s.cis.getD ((offset + i) / 2) 0xFF else 0xFF

def windowRead (s : Card) (offset size : Nat) : List UInt8 × Card :=
  if size = 0 then ([], s)
  else if !s.attached then (List.replicate size 0xFF, s)
  else match decodeTaskfileOffset offset with
    | some (.reg 0) => dataRead s size
    | some port => (readRegs s port false size, s)
    | none => (cisRead s offset size, s)

def writePort (s : Card) (boot : Bool) (port : Option Port) (value : List UInt8) : Card :=
  match port, value with
  | some (.reg 0), _ => if boot ∧ !s.bootVisible then s else dataWrite s value
  | some (.reg n), _ => writeRegs boot n value s
  | some .alt, b :: _ => writeAlt s boot b
  | _, _ => s

def windowWrite (s : Card) (offset : Nat) (value : List UInt8) : Card :=
  if value = [] ∨ !s.attached then s else writePort s false (decodeTaskfileOffset offset) value

/-- What the boot window reads as where nothing answers. -/
def floating (size : Nat) : List UInt8 := (List.range size).map fun i => if i = 0 ∨ 4 ≤ size ∧ i < 4 then 0xFF else 0

def bootRead (s : Card) (offset size : Nat) : List UInt8 × Card :=
  if size = 0 then ([], s)
  else if !s.attached then (floating size, s)
  else match decodeBootOffset offset with
    | some (.reg 0) => if s.bootVisible then dataRead s size else (floating size, s)
    | some port => (readRegs s port true size, s)
    | none => (floating size, s)

def bootWrite (s : Card) (offset : Nat) (value : List UInt8) : Card :=
  if value = [] ∨ !s.attached then s else writePort s true (decodeBootOffset offset) value

/-! ## Accesses -/

inductive Access where
  | windowRead (offset size : Nat)
  | windowWrite (offset : Nat) (value : List UInt8)
  | bootRead (offset size : Nat)
  | bootWrite (offset : Nat) (value : List UInt8)
  | setBootVisible (visible : Bool)

def step (s : Card) : Access → Card
  | .windowRead offset size => (windowRead s offset size).2
  | .windowWrite offset value => windowWrite s offset value
  | .bootRead offset size => (bootRead s offset size).2
  | .bootWrite offset value => bootWrite s offset value
  | .setBootVisible visible => setBootVisible s visible

def run (s : Card) (accesses : List Access) : Card := accesses.foldl step s

end Be300.Cf.Ata
