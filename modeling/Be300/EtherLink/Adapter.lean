/-
  Be300.EtherLink.Adapter — the EtherLink III network card (`src/hw/el3.c`).

  `tx` is the used part of the transmit FIFO, `rx` the ring of received frames; a slot of the
  ring keeps what an older, longer frame left behind its own bytes, as the array of the source
  does. `connected` says whether there is a `transmit` callback. A write also returns the frames
  handed to it, a read the value it gives.
-/

import Be300.Lib.Fifo
import Mathlib.Logic.Function.Basic

namespace Be300.EtherLink

open Lib

def adapterFailure : UInt16 := 0x0002
def txComplete : UInt16 := 0x0004
def rxComplete : UInt16 := 0x0010
def intReq : UInt16 := 0x0040
def intLatch : UInt16 := 0x0001

def rxStation : UInt8 := 1
def rxMulticast : UInt8 := 2
def rxBroadcast : UInt8 := 4
def rxPromisc : UInt8 := 8

def el3RxFrames : Nat := 8
def el3Fifo : Nat := 2048
def txSize : Nat := el3Fifo + 8
def rxSize : Nat := 1536

structure RxSlot where
  length : Nat
  data : Nat → UInt8

structure El3 where
  window : Nat
  eeprom : Nat → UInt16
  station : Nat → UInt8
  configCtrl : UInt16
  addrConfig : UInt16
  resource : UInt16
  media : UInt16
  eepromCmd : UInt16
  latched : UInt16
  intMask : UInt16
  statusMask : UInt16
  rxFilter : UInt8
  rxEnabled : Bool
  txEnabled : Bool
  tx : List UInt8
  txStatus : List UInt8
  rx : Fifo RxSlot
  rxPos : Nat
  connected : Bool

def el3Reset (s : El3) : El3 :=
  { s with
    window := 0, configCtrl := 0, addrConfig := 0, media := 0, resource := 0x3F00, eepromCmd := 0
    latched := 0, intMask := 0, statusMask := 0, rxFilter := 0, rxEnabled := false, txEnabled := false
    tx := [], txStatus := [], rx := s.rx.clear, rxPos := 0 }

/-- The station address stands in the first three words, high byte first. -/
def el3Init (connected : Bool) (mac : Nat → UInt8) : El3 :=
  el3Reset
    { window := 0
      eeprom := fun i =>
        if i < 3 then ((mac (2 * i)).toUInt16 <<< 8) ||| (mac (2 * i + 1)).toUInt16
        else if i = 3 then 0x9058 else if i = 7 then 0x6D50 else 0
      station := fun _ => 0, configCtrl := 0, addrConfig := 0, resource := 0, media := 0, eepromCmd := 0, latched := 0
      intMask := 0, statusMask := 0, rxFilter := 0, rxEnabled := false, txEnabled := false, tx := [], txStatus := []
      rx := ⟨fun _ => ⟨0, fun _ => 0⟩, 0, 0⟩, rxPos := 0, connected := connected }

def status (s : El3) : UInt16 :=
  let st := if s.rxEnabled ∧ s.rx.count ≠ 0 then s.latched ||| rxComplete else s.latched
  let st := if st &&& s.intMask &&& 0xFE ≠ 0 then st ||| intLatch else st
  (st &&& (s.statusMask ||| intLatch)) ||| UInt16.ofNat (s.window <<< 13)

def el3IrqPending (s : El3) : Bool := decide (status s &&& s.intMask &&& 0xFF ≠ 0)

def el3RxFull (s : El3) : Bool := decide (s.rx.count = el3RxFrames)

def rxPop (s : El3) : El3 := if s.rx.count = 0 then s else { s with rx := s.rx.pop el3RxFrames, rxPos := 0 }

/-- A command is an operation in the high five bits and an argument. -/
def command (s : El3) (value : Nat) : El3 :=
  let arg := value % 2 ^ 11
  match value % 2 ^ 16 / 2 ^ 11 with
  | 0 => el3Reset s
  | 1 => { s with window := arg % 8 }
  | 3 => { s with rxEnabled := false }
  | 4 => { s with rxEnabled := true }
  | 5 => { s with rx := s.rx.clear, rxPos := 0, rxEnabled := false }
  | 8 => rxPop s
  | 9 => { s with txEnabled := true }
  | 10 => { s with txEnabled := false }
  | 11 => { s with tx := [], txStatus := [], txEnabled := false }
  | 12 => { s with latched := s.latched ||| intReq }
  | 13 => { s with latched := s.latched &&& ~~~ UInt16.ofNat arg }
  | 14 => { s with intMask := UInt16.ofNat (arg % 2 ^ 8) }
  | 15 => { s with statusMask := UInt16.ofNat (arg % 2 ^ 8) }
  | 16 => { s with rxFilter := UInt8.ofNat (arg % 2 ^ 4) }
  | _ => s

/-! ## The transmit FIFO -/

/-- The length in the first two bytes of a frame's header. -/
def txLength (tx : List UInt8) : Nat := ((tx.getD 0 0).toNat ||| (tx.getD 1 0).toNat <<< 8) % 2 ^ 11

/-- The bytes a frame takes: its header, its data and the padding. -/
def txNeed (length : Nat) : Nat := 4 + (length + 3) / 4 * 4

def noteSuccess (s : El3) : El3 :=
  { s with txStatus := if s.txStatus.length < 4 then s.txStatus ++ [0x80] else s.txStatus, latched := s.latched ||| txComplete }

def txFlush (s : El3) : El3 × List (List UInt8) :=
  if s.tx.length < 4 then (s, [])
  else
    let length := txLength s.tx
    let need := txNeed length
    if s.tx.length < need then (s, [])
    else
      let sent := if s.txEnabled ∧ s.connected ∧ 14 ≤ length then [(s.tx.drop 4).take length] else []
      let noted := if (s.tx.getD 1 0) &&& 0x80 ≠ 0 then noteSuccess s else s
      let rest := txFlush { noted with tx := s.tx.drop need }
      (rest.1, sent ++ rest.2)
termination_by s.tx.length
decreasing_by
  rw [List.length_drop, txNeed]
  omega

/-- One byte of a write, unless the FIFO is full: that is an overrun, which empties it. -/
def fifoBytes : Nat → Nat → El3 → El3 × Bool
  | 0, _, s => (s, true)
  | size + 1, value, s =>
    if txSize ≤ s.tx.length then ({ s with latched := s.latched ||| adapterFailure, tx := [] }, false)
    else fifoBytes size (value >>> 8) { s with tx := s.tx ++ [UInt8.ofNat value] }

def fifoWrite (s : El3) (size value : Nat) : El3 × List (List UInt8) :=
  match fifoBytes size value s with
  | (s, true) => txFlush s
  | (s, false) => (s, [])

/-! ## The receive FIFO -/

def fifoReadFrom (data : Nat → UInt8) : Nat → Nat → Nat
  | _, 0 => 0
  | pos, size + 1 =>
    (if pos < rxSize then (data pos).toNat else 0) ||| fifoReadFrom data ((pos + 1) % 2 ^ 32) size <<< 8

def fifoRead (s : El3) (size : Nat) : El3 × Nat :=
  if s.rx.count = 0 then (s, 0)
  else ({ s with rxPos := (s.rxPos + size) % 2 ^ 32 }, fifoReadFrom s.rx.front.data s.rxPos size)

def reg16 (s : El3) (offset : Nat) : UInt16 :=
  match s.window with
  | 0 =>
    match offset with
    | 0x00 => 0x6D50
    | 0x02 => 0x9058
    | 0x04 => s.configCtrl
    | 0x06 => s.addrConfig
    | 0x08 => s.resource
    | 0x0A => s.eepromCmd &&& 0x7FFF
    | 0x0C => s.eeprom (s.eepromCmd &&& 0x0F).toNat
    | _ => 0
  | 1 =>
    match offset with
    | 0x08 => if s.rx.count = 0 then 0x8000 else UInt16.ofNat (s.rx.front.length % 2 ^ 11)
    | 0x0A => (s.txStatus.getD 0 0).toUInt16 <<< 8
    | 0x0C => UInt16.ofNat el3Fifo - UInt16.ofNat s.tx.length
    | _ => 0
  | 2 => if offset < 6 then (s.station offset).toUInt16 ||| (s.station (offset + 1)).toUInt16 <<< 8 else 0
  | 4 => if offset = 0x0A then s.media ||| 0x0800 else 0
  | _ => 0

def el3Read (s : El3) (offset size : Nat) : El3 × Nat :=
  let offset := offset % 16
  if 0x0E ≤ offset then (s, (status s).toNat >>> (8 * (offset - 0x0E)))
  else if s.window = 1 ∧ offset < 4 then fifoRead s size
  else
    let w := (reg16 s (offset / 2 * 2)).toNat
    (s, if size = 1 then (if offset % 2 = 1 then w >>> 8 else w % 2 ^ 8) else w)

def popTxStatus (s : El3) : El3 :=
  let left := s.txStatus.drop 1
  { s with txStatus := left, latched := if left = [] then s.latched &&& ~~~ txComplete else s.latched }

def writeWindow0 (s : El3) (offset value : Nat) : El3 :=
  match offset with
  | 0x04 => { s with configCtrl := UInt16.ofNat value }
  | 0x06 => { s with addrConfig := UInt16.ofNat value }
  | 0x08 => { s with resource := UInt16.ofNat value }
  | 0x0A => { s with eepromCmd := UInt16.ofNat value }
  | _ => s

def el3Write (s : El3) (offset size value : Nat) : El3 × List (List UInt8) :=
  let offset := offset % 16
  if offset = 0x0E ∧ 2 ≤ size then (command s value, [])
  else if s.window = 1 ∧ offset < 4 then fifoWrite s size value
  else if s.window = 1 ∧ offset = 0x0B then (popTxStatus s, [])
  else if s.window = 2 ∧ offset < 6 then
    ({ s with station := fun i =>
        if offset ≤ i ∧ i < offset + size ∧ i < 6 then UInt8.ofNat (value >>> (8 * (i - offset))) else s.station i }, [])
  else if s.window = 0 then (writeWindow0 s offset value, [])
  else if s.window = 4 ∧ offset = 0x0A then ({ s with media := UInt16.ofNat value }, [])
  else (s, [])

/-! ## Frames received -/

def broadcast (frame : List UInt8) : Bool := decide (frame.take 6 = List.replicate 6 0xFF)

def ours (s : El3) (frame : List UInt8) : Bool := decide (frame.take 6 = (List.range 6).map s.station)

/-- Whether the filter lets a frame in. -/
def wanted (s : El3) (frame : List UInt8) : Bool :=
  decide (s.rxFilter &&& rxPromisc ≠ 0) || (ours s frame && decide (s.rxFilter &&& rxStation ≠ 0)) ||
    (broadcast frame && decide (s.rxFilter &&& rxBroadcast ≠ 0)) ||
    (!broadcast frame && decide (frame.getD 0 0 &&& 1 ≠ 0) && decide (s.rxFilter &&& rxMulticast ≠ 0))

/-- The slot a frame is copied into keeps its bytes past the frame. -/
def copied (frame : List UInt8) (old : RxSlot) : RxSlot :=
  { length := frame.length, data := fun p => if h : p < frame.length then frame[p] else old.data p }

def el3Receive (s : El3) (frame : List UInt8) : El3 × Bool :=
  if s.rxEnabled = false ∨ frame.length < 14 ∨ rxSize < frame.length then (s, false)
  else if wanted s frame = false then (s, true)
  else if s.rx.count = el3RxFrames then ({ s with latched := s.latched ||| adapterFailure }, false)
  else ({ s with rx := s.rx.push el3RxFrames (copied frame (s.rx.get el3RxFrames s.rx.count)) }, true)

/-! ## Runs -/

inductive Access where
  | read (offset size : Nat)
  | write (offset size value : Nat)
  | receive (frame : List UInt8)

def step (s : El3) : Access → El3 × List (List UInt8)
  | .read offset size => ((el3Read s offset size).1, [])
  | .write offset size value => el3Write s offset size value
  | .receive frame => ((el3Receive s frame).1, [])

def run (s : El3) (accesses : List Access) : El3 := accesses.foldl (fun s a => (step s a).1) s

/-- The frames handed to `transmit`, in order. -/
def sent : El3 → List Access → List (List UInt8)
  | _, [] => []
  | s, a :: accesses => (step s a).2 ++ sent (step s a).1 accesses

def Reachable (s : El3) : Prop := ∃ connected mac accesses, s = run (el3Init connected mac) accesses

end Be300.EtherLink
