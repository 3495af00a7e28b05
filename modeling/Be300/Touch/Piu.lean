/-
  Be300.Touch.Piu — the VRC4173's touch-panel interface unit (`src/hw/piu.c`).

  A state has the registers, the sequencer's state and the two pages of coordinates. Times
  are in nanoseconds, modulo 2^64. The machine sets `adcOn` and `auxAdc` before an access.
-/

import Mathlib.Tactic.Common
import Mathlib.Logic.Function.Basic
import Mathlib.Algebra.Ring.Nat
import Mathlib.Algebra.Ring.Int.Defs

namespace Be300.Touch

abbrev Word := BitVec 16

def piuPanelWidth : Nat := 240
def piuPanelHeight : Nat := 360

def padrst : Word := 0x0001
def piuseqen : Word := 0x0004
def piumodeMask : Word := 0x0018
def piumodeAdport : Word := 0x0008
def padscantype : Word := 0x0020
def padscanstart : Word := 0x0040
def padatstart : Word := 0x0100
def padatstop : Word := 0x0200

def pendingPenchg : Word := 0x01
def pendingDatalost : Word := 0x04
def pendingPage0 : Word := 0x08
def pendingPage1 : Word := 0x10
def pendingAdport : Word := 0x40
def pendingTouchData : Word := pendingPage0 ||| pendingPage1
def pendingCoordinate : Word := pendingTouchData ||| pendingDatalost
def pendingTouchGroup : Word := 0x5c
def pendingAny : Word := pendingPenchg ||| pendingTouchGroup

def padstateDisable : Nat := 0
def padstateStandby : Nat := 1
def padstateWaitPen : Nat := 4
def padstatePenData : Nat := 5
def padstateInterval : Nat := 6

def piuResetScanInterval : Word := 0x00a7
def piuResetStable : Word := 0x0007

/-- y+, y-, x- and x+. -/
abbrev Adc := Vector Word 4

structure Piu where
  regs : Nat → Word
  padstate : Nat
  touchDown : Bool
  touchX : Word
  touchY : Word
  penstc : Bool
  queuedPenchg : Bool
  queuedPenstc : Bool
  dataArmed : Bool
  dataReadyNs : BitVec 64
  nextPage : Fin 2
  adc : Adc
  pageAdc : Fin 2 → Adc
  pageValid : Fin 2 → Bool
  adcOn : Bool
  auxAdc : Word
  adport : Word

/-- `v & mask`, as a condition. -/
def anySet (v mask : Word) : Bool := v &&& mask != 0

def timeReached (now due : BitVec 64) : Bool := 0 ≤ (now - due).toInt

namespace Piu

def setReg (p : Piu) (i : Nat) (v : Word) : Piu := { p with regs := Function.update p.regs i v }

def conversionDelayUs (p : Piu) : Nat :=
  (p.regs 3 &&& 0x003f).toNat * 30 + (if anySet (p.regs 0) padscantype then 5 else 4) * 10

def intervalDelayUs (p : Piu) : Nat := (p.regs 2 &&& 0x07ff).toNat * 30 + p.conversionDelayUs

def armSample (p : Piu) (now : BitVec 64) (delayUs : Nat) : Piu :=
  { p with dataArmed := true, dataReadyNs := now + BitVec.ofNat 64 (delayUs * 1000) }

def disarm (p : Piu) : Piu := { p with dataArmed := false, dataReadyNs := 0 }

def resetRegisters (p : Piu) : Piu :=
  { regs := fun i => if i = 2 then piuResetScanInterval else if i = 3 then piuResetStable else 0
    padstate := padstateDisable, touchDown := p.touchDown, touchX := p.touchX, touchY := p.touchY
    penstc := false, queuedPenchg := false, queuedPenstc := false, dataArmed := false, dataReadyNs := 0
    nextPage := 0, adc := .replicate 4 0, pageAdc := fun _ => .replicate 4 0, pageValid := fun _ => false
    adcOn := false, auxAdc := 0, adport := 0 }

def init : Piu :=
  resetRegisters
    { regs := fun _ => 0, padstate := 0, touchDown := false, touchX := 0, touchY := 0, penstc := false
      queuedPenchg := false, queuedPenstc := false, dataArmed := false, dataReadyNs := 0, nextPage := 0
      adc := .replicate 4 0, pageAdc := fun _ => .replicate 4 0, pageValid := fun _ => false, adcOn := false
      auxAdc := 0, adport := 0 }

def latchSample (p : Piu) : Piu :=
  let x := min p.touchX.toNat (piuPanelWidth - 1)
  let y := min p.touchY.toNat (piuPanelHeight - 1)
  let dy := y * (0x8e30 - 0x81e1) / (piuPanelHeight - 1)
  let dx := x * (0x8d1b - 0x8300) / (piuPanelWidth - 1)
  { p with adc := #v[.ofNat 16 (0x81e1 + dy), .ofNat 16 (0x8e30 - dy), .ofNat 16 (0x8d1b - dx), .ofNat 16 (0x8300 + dx)] }

def raisePenchg (p : Piu) (down : Bool) : Piu :=
  if anySet (p.regs 1) pendingPenchg then { p with queuedPenchg := true, queuedPenstc := down }
  else setReg { p with penstc := down } 1 (p.regs 1 ||| pendingPenchg)

def clearCoordinateState (p : Piu) : Piu :=
  { p.disarm.setReg 1 (p.regs 1 &&& ~~~pendingCoordinate) with pageValid := fun _ => false, nextPage := 0 }

def waitPenEnabled (p : Piu) : Bool :=
  anySet (p.regs 0) piuseqen && anySet (p.regs 0) padatstart && p.regs 0 &&& piumodeMask == 0 && p.adcOn

def signalPenDown (p : Piu) (now : BitVec 64) : Piu :=
  let p := p.clearCoordinateState
  let p :=
    if p.padstate = padstateWaitPen ∧ anySet (p.regs 0) padatstart then
      { p with padstate := padstatePenData }.armSample now p.conversionDelayUs
    else p
  p.latchSample.raisePenchg true

def signalPenUp (p : Piu) : Piu :=
  let waitEnabled := p.waitPenEnabled
  let shouldSignal := waitEnabled || decide (padstateWaitPen ≤ p.padstate)
  if waitEnabled ∧ padstatePenData ≤ p.padstate ∧ !anySet (p.regs 0) padatstop then p.raisePenchg false
  else
    let p := p.disarm
    let p :=
      if waitEnabled then { p with padstate := padstateWaitPen }
      else if padstateStandby < p.padstate then { p with padstate := padstateStandby }
      else p
    if shouldSignal then p.raisePenchg false else p

def pageBit (page : Fin 2) : Word := if page = 0 then pendingPage0 else pendingPage1

def pageAvailable (p : Piu) (page : Fin 2) : Bool := !anySet (p.regs 1) (pageBit page) && !p.pageValid page

def selectPage (p : Piu) : Option (Fin 2) :=
  if p.pageAvailable p.nextPage then some p.nextPage
  else if p.pageAvailable (p.nextPage + 1) then some (p.nextPage + 1)
  else none

/-- A sample is due. -/
def Due (p : Piu) (now : BitVec 64) : Prop :=
  p.touchDown ∧ padstatePenData ≤ p.padstate ∧ p.dataArmed ∧ timeReached now p.dataReadyNs

instance (p : Piu) (now : BitVec 64) : Decidable (p.Due now) := inferInstanceAs (Decidable (_ ∧ _ ∧ _ ∧ _))

def storeSample (p : Piu) (page : Fin 2) (now : BitVec 64) : Piu :=
  let p := p.latchSample
  let p := { p with
    pageAdc := Function.update p.pageAdc page p.adc, pageValid := Function.update p.pageValid page true
    nextPage := page + 1 }
  let p := { p.setReg 1 (p.regs 1 ||| pageBit page) with padstate := padstateInterval }
  p.armSample now p.intervalDelayUs

def loseSample (p : Piu) : Piu :=
  { (p.setReg 1 (p.regs 1 ||| pendingDatalost)).disarm with padstate := padstateStandby }

def queueCoordinateSample (p : Piu) (now : BitVec 64) : Piu :=
  if p.Due now then
    match p.selectPage with
    | none => p.loseSample
    | some page => p.storeSample page now
  else p

def leaveDisable (p : Piu) : Piu :=
  if p.padstate = padstateDisable ∧ p.regs 0 ≠ 0 then { p with padstate := padstateStandby } else p

/-- The sequencer waits for the pen, unless something of an earlier scan is still pending. -/
def waitForPen (p : Piu) (now : BitVec 64) : Piu :=
  if p.padstate = padstateStandby ∧ anySet (p.regs 1) pendingCoordinate then p
  else
    let p := if p.padstate < padstateWaitPen then { p with padstate := padstateWaitPen } else p
    if p.touchDown ∧ p.padstate = padstateWaitPen then p.signalPenDown now else p

def startScan (p : Piu) (now : BitVec 64) : Piu :=
  let p := { p with padstate := padstatePenData }
  if p.touchDown then p.armSample now p.conversionDelayUs else p

/-- A scan starts on software's command. -/
def ScanStarts (p : Piu) : Prop :=
  p.regs 0 &&& (piuseqen ||| padscanstart) = piuseqen ||| padscanstart ∧ p.regs 0 &&& piumodeMask = 0 ∧ p.adcOn ∧
    p.padstate = padstateStandby

instance (p : Piu) : Decidable p.ScanStarts := inferInstanceAs (Decidable (_ ∧ _ ∧ _ ∧ _))

def refreshControlState (p : Piu) (now : BitVec 64) : Piu :=
  let p := p.leaveDisable
  if p.waitPenEnabled then p.waitForPen now
  else if p.ScanStarts then p.startScan now
  else if !anySet (p.regs 0) piuseqen ∧ padstateStandby < p.padstate then
    { p.clearCoordinateState with padstate := padstateStandby }
  else p

def setTouch (p : Piu) (down : Bool) (x y : Word) (now : BitVec 64) : Piu :=
  let prev := p.touchDown
  let p := { p with touchDown := down, touchX := x, touchY := y }
  if p.padstate = padstateWaitPen ∧ down ∧ !prev then p.signalPenDown now
  else if !down ∧ prev then p.signalPenUp
  else if down then p.queueCoordinateSample now
  else p

def tick (p : Piu) (now : BitVec 64) : Piu := p.queueCoordinateSample now

def writeControl (p : Piu) (value : Word) (now : BitVec 64) : Piu :=
  if anySet value padrst then p.resetRegisters
  else
    let p := (p.setReg 0 (value &&& 0x03fe)).refreshControlState now
    if anySet value piuseqen ∧ value &&& piumodeMask = piumodeAdport ∧ p.adcOn then
      { p.setReg 1 (p.regs 1 ||| pendingAdport) with adport := p.auxAdc &&& 0x0fff }
    else p

def writeInterrupts (p : Piu) (value : Word) (now : BitVec 64) : Piu :=
  let oldPending := p.regs 1 &&& 0x00ff
  let pendingAck := value &&& 0x00ff
  let newMask := (value >>> 8) &&& 0x00ff
  let dataAcked := anySet (oldPending &&& pendingAck) pendingTouchData
  let p := p.setReg 1 (p.regs 1 &&& ~~~(pendingAck &&& pendingAny))
  let p := p.setReg 1 ((p.regs 1 &&& 0x00ff) ||| newMask <<< 8)
  let p := if anySet pendingAck pendingPage0 then { p with pageValid := Function.update p.pageValid 0 false } else p
  let p := if anySet pendingAck pendingPage1 then { p with pageValid := Function.update p.pageValid 1 false } else p
  let p :=
    if anySet pendingAck pendingPenchg then
      if p.queuedPenchg then setReg { p with penstc := p.queuedPenstc, queuedPenchg := false } 1 (p.regs 1 ||| pendingPenchg)
      else { p with penstc := p.touchDown }
    else p
  if dataAcked ∧ p.touchDown ∧ padstatePenData ≤ p.padstate ∧ !p.dataArmed then p.armSample now p.intervalDelayUs else p

def write (p : Piu) (offset : Nat) (value : Word) (now : BitVec 64) : Piu :=
  if offset > 0x18 ∨ offset % 4 ≠ 0 then p
  else if offset = 0 then p.writeControl value now
  else if offset = 4 then p.writeInterrupts value now
  else p.setReg (offset / 4) value

/-- The value of a page's register, `0x81e1` and so on while it is not valid. -/
def pageRead (p : Piu) (page : Fin 2) (offset : Nat) : Word :=
  if h : offset % 16 % 4 = 0 then
    if p.pageValid page then (p.pageAdc page)[offset % 16 / 4]
    else (#v[0x81e1, 0x8e30, 0x8300, 0x8d1b] : Adc)[offset % 16 / 4]
  else 0

def readValue (p : Piu) (offset : Nat) : Word :=
  if offset = 0 then
    (p.regs 0 &&& 0x03ff) ||| (BitVec.ofNat 16 (p.padstate % 8) <<< 10) |||
      (if (if anySet (p.regs 1) pendingPenchg then p.penstc else p.touchDown) then 0x2000 else 0)
  else if offset = 4 then p.regs 1
  else if offset ≤ 0x18 ∧ offset % 4 = 0 then p.regs (offset / 4)
  else if offset = 0x90 then p.adport
  else if ¬ ((0x20 ≤ offset ∧ offset ≤ 0x2c) ∨ (0x50 ≤ offset ∧ offset ≤ 0x5c)) then 0
  else p.pageRead (if 0x50 ≤ offset then 1 else 0) offset

def read (p : Piu) (offset : Nat) (now : BitVec 64) : Word × Piu := ((p.tick now).readValue offset, p.tick now)

/-! ## Runs -/

inductive Event where
  | touch (down : Bool) (x y : Word) (now : BitVec 64)
  | tick (now : BitVec 64)
  | write (offset : Nat) (value : Word) (now : BitVec 64)
  | read (offset : Nat) (now : BitVec 64)
  /-- The machine sets the A/D side's enable and the auxiliary input. -/
  | inputs (adcOn : Bool) (auxAdc : Word)

def step (p : Piu) : Event → Piu
  | .touch down x y now => p.setTouch down x y now
  | .tick now => p.tick now
  | .write offset value now => p.write offset value now
  | .read offset now => (p.read offset now).2
  | .inputs adcOn auxAdc => { p with adcOn, auxAdc }

def run (p : Piu) (events : List Event) : Piu := events.foldl step p

end Piu

end Be300.Touch
