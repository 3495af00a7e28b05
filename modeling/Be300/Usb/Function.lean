/-
  Be300.Usb.Function — the USB function controller (`src/hw/usbf.c`).

  `ctrl` is the redirection device's control slot, which the completion callback updates.
  `log` records what happens on the controller and on the connection, the newest last. RAM is
  what the bus hands out at a DMA start; what DMAs have put there is in `stores`. `calls` are
  the levels that `irq_changed` has found, one for each call.
-/

import Be300.Lib.Fifo

namespace Be300.Usb

open Lib

def regUnitEn : Nat := 0x1300
def regDmaEn : Nat := 0x1308
def regDmaStart : Nat := 0x130C
def regDmaDir : Nat := 0x1310
def regDmaHi : Nat := 0x1318
def regDmaLen : Nat := 0x131C
def regDmaAddr : Nat := 0x1320
def regTopStat : Nat := 0x1324
def regTopClr : Nat := 0x1328
def regTopEn : Nat := 0x132C
def regReset : Nat := 0x1338
def regCoreEn : Nat := 0x1444
def regCoreCmd : Nat := 0x1448
def regDevState : Nat := 0x1450
def regOutState : Nat := 0x1454
def regEp0Ctrl : Nat := 0x1460
def regIntstat0 : Nat := 0x1464
def regIntstat1 : Nat := 0x1468
def regIntstat2 : Nat := 0x146C
def regIntmask0 : Nat := 0x1470
def regIntmask1 : Nat := 0x1474
def regIntmask2 : Nat := 0x1478
def regIntclr0 : Nat := 0x147C
def regIntclr1 : Nat := 0x1480
def regIntclr2 : Nat := 0x1484
def regEp1Ctrl : Nat := 0x1488
def regEpCtrl : Nat := 0x148C
def regEpCommit : Nat := 0x1490
def regSetupFifo : Nat := 0x14CC
def regOutFifo : Nat := 0x14D4
def regOutCount : Nat := 0x14D8
def regEp3Fifo : Nat := 0x14E0
def regAddress : Nat := 0x1530
def regConfig : Nat := 0x1534
def descBase : Nat := 0x153C
def descWords : Nat := 57

def epMaxPacket : Nat := 64
def outSlots : Nat := 4
def inSlots : Nat := 2

/-- `data` past `len` is what earlier packets left. -/
structure Packet where
  data : Nat → UInt8
  len : Nat

def Packet.bytes (p : Packet) : List UInt8 := (List.range p.len).map p.data

inductive Note where
  | peer
  | lost
  | hello (caps : Nat)
  /-- A control or bulk packet of the peer's. -/
  | request (id : Nat)
  /-- A control request left to the guest. -/
  | deferred (id : Nat)
  /-- A bulk OUT request, put in its queue. -/
  | queued (id : Nat) (payload : List UInt8)
  | sent (type id : Nat) (header data : List UInt8)
  | wrote (n : Nat)
  | attached
  /-- The maximum packet sizes of the bulk endpoints. -/
  | described (mpsIn mpsOut : Nat)
  | connected
  | dropped
  | flushed
  /-- A byte the guest has read from the OUT FIFO. -/
  | took (b : UInt8)
  /-- A packet put in the OUT FIFO. -/
  | accepted (bytes : List UInt8)
  /-- A fill of the EP1 buffer, and whether EP1 requested one. -/
  | staged (requested : Bool)
  | committed (bytes : List UInt8)
  /-- An IN packet's length, and the room in the request that got it. -/
  | moved (n room : Nat)
  deriving DecidableEq

/-- `ctrl_active` and the rest of the redirection device's control request. -/
structure Ctrl where
  active : Bool
  done : Bool
  ok : Bool
  id : Nat
  hdr : List UInt8

structure Usbf where
  unitEn : UInt8
  dmaEn : UInt8
  dmaDir : UInt8
  dmaHi : UInt8
  dmaLen : UInt8
  dmaAddr : Nat
  topLatched : UInt8
  topEn : UInt8
  coreEn : UInt8
  ep1Off : Bool
  ep0Ctrl : UInt8
  intstat : Nat → UInt8
  intmask : Nat → UInt8
  ep1Ctrl : UInt8
  other : Nat → Nat
  address : UInt8
  config : UInt8
  desc : Nat → UInt8
  setup : List UInt8
  setupPos : Nat
  ctrlPending : Bool
  out : Fifo Packet
  outPos : Nat
  inStage : Packet
  inFifo : Fifo Packet
  ep3Stage : Packet
  ep3 : Packet
  ep3Ready : Bool
  usbAttached : Bool
  ctrl : Ctrl
  log : List Note
  /-- An address and a byte for each. -/
  stores : List (Nat × UInt8)
  calls : List Bool

def update {α : Type} (f : Nat → α) (i : Nat) (x : α) : Nat → α := fun j => if j = i then x else f j

def Usbf.note (u : Usbf) (n : Note) : Usbf := { u with log := u.log ++ [n] }

/-! ## Levels -/

def outPending (u : Usbf) : Bool := u.out.count != 0

def intstat (u : Usbf) (i : Nat) : UInt8 :=
  let v := u.intstat i
  let v := if i = 0 ∧ u.inFifo.count = 0 ∧ !u.ep1Off then v ||| 0x04 else v
  if i = 1 ∧ outPending u then v ||| 0x04 else v

def corePending (u : Usbf) : Bool := (List.range 3).any fun i => intstat u i &&& ~~~ u.intmask i != 0

/-- EP1 asks for a DMA while ring entries remain and a slot is free. -/
def txRequest (u : Usbf) : Bool := u.ep1Ctrl &&& 0x80 != 0 && decide (u.inFifo.count < inSlots)

def topStat (u : Usbf) : UInt8 :=
  let v := u.topLatched
  let v := if txRequest u then v ||| 0x08 else v
  let v := if outPending u then v ||| 0x04 else v
  if corePending u then v ||| 0x10 else v

/-- `usbf_irq_pending`. -/
def irqPending (u : Usbf) : Bool := u.unitEn != 0 && topStat u &&& u.topEn != 0

/-- `irq_changed` is called. -/
def notify (u : Usbf) : Usbf := { u with calls := u.calls ++ [irqPending u] }

/-! ## Resets -/

def flushFifos (u : Usbf) : Usbf :=
  { u with
    out := u.out.clear, outPos := 0, inFifo := u.inFifo.clear, inStage := { u.inStage with len := 0 }
    ep3Stage := { u.ep3Stage with len := 0 }, ep3Ready := false, setupPos := 0, log := u.log ++ [.flushed] }

/-- The completion callback: the reply waits for the next tick. -/
def onCtrlDone (u : Usbf) (ok : Bool) : Usbf :=
  if u.ctrl.active then { u with ctrl := { u.ctrl with done := true, ok } } else u

def finishControl (u : Usbf) (ok : Bool) : Usbf := if u.ctrlPending then onCtrlDone { u with ctrlPending := false } ok else u

/-- Zeros but for the interrupt masks. -/
def usbfInit (u : Usbf) : Usbf :=
  { unitEn := 0, dmaEn := 0, dmaDir := 0, dmaHi := 0, dmaLen := 0, dmaAddr := 0, topLatched := 0, topEn := 0, coreEn := 0
    ep1Off := false, ep0Ctrl := 0, intstat := fun _ => 0, intmask := fun _ => 0xFF, ep1Ctrl := 0, other := fun _ => 0
    address := 0, config := 0, desc := fun _ => 0, setup := [], setupPos := 0, ctrlPending := false
    out := ⟨fun _ => ⟨fun _ => 0, 0⟩, 0, 0⟩, outPos := 0, inStage := ⟨fun _ => 0, 0⟩, inFifo := ⟨fun _ => ⟨fun _ => 0, 0⟩, 0, 0⟩
    ep3Stage := ⟨fun _ => 0, 0⟩, ep3 := ⟨fun _ => 0, 0⟩, ep3Ready := false, usbAttached := false
    ctrl := u.ctrl, log := u.log ++ [.flushed], stores := u.stores, calls := u.calls }

def usbfReset (u : Usbf) : Usbf := notify { usbfInit (finishControl u false) with usbAttached := u.usbAttached }

/-! ## Guest accesses -/

def outByte (u : Usbf) : UInt8 × Usbf :=
  if outPending u then
    let p := u.out.front
    let b := if u.outPos < p.len then p.data u.outPos else 0
    let u := u.note (.took b)
    if u.outPos + 1 ≥ p.len then (b, { u with out := u.out.pop outSlots, outPos := 0 })
      else (b, { u with outPos := u.outPos + 1 })
  else (0, u)

def outRemaining (u : Usbf) : Nat := if outPending u then (u.out.front.len + 256 - u.outPos) % 256 else 0

def readSetup (u : Usbf) : UInt8 × Usbf :=
  let b := u.setup.getD (u.setupPos % 8) 0
  if u.setupPos < 8 then
    if u.setupPos + 1 = 8 then (b, notify { u with setupPos := 8, intstat := update u.intstat 1 (u.intstat 1 &&& 0xFE) })
    else (b, { u with setupPos := u.setupPos + 1 })
  else (b, u)

def read (u : Usbf) (off : Nat) : Nat × Usbf :=
  let off := off / 4 * 4
  if descBase ≤ off ∧ off < descBase + 4 * descWords then ((u.desc ((off - descBase) / 4)).toNat, u)
  else if off = regUnitEn then (u.unitEn.toNat, u)
  else if off = regDmaEn then (u.dmaEn.toNat, u)
  else if off = regDmaStart then (0, u)
  else if off = regDmaDir then (u.dmaDir.toNat, u)
  else if off = regDmaHi then (u.dmaHi.toNat, u)
  else if off = regDmaLen then (u.dmaLen.toNat, u)
  else if off = regDmaAddr then (u.dmaAddr % 0x20000000, u)
  else if off = regTopStat then ((topStat u).toNat, u)
  else if off = regTopEn then (u.topEn.toNat, u)
  else if off = regCoreEn then (u.coreEn.toNat, u)
  else if off = regDevState then (if u.config ≠ 0 then 0x80 else 0, u)
  else if off = regOutState then ((if outPending u then 0x08 else 0) ||| (if u.ep3Ready then 0x10 else 0), u)
  else if off = regEp0Ctrl then (u.ep0Ctrl.toNat, u)
  else if off = regIntstat0 then ((intstat u 0).toNat, u)
  else if off = regIntstat1 then ((intstat u 1).toNat, u)
  else if off = regIntstat2 then ((intstat u 2).toNat, u)
  else if off = regIntmask0 then ((u.intmask 0).toNat, u)
  else if off = regIntmask1 then ((u.intmask 1).toNat, u)
  else if off = regIntmask2 then ((u.intmask 2).toNat, u)
  else if off = regEp1Ctrl then (u.ep1Ctrl.toNat, u)
  else if off = regEpCtrl then (0, u)
  else if off = regEpCommit then (0, u)
  else if off = regSetupFifo then
    let (b, u) := readSetup u
    (b.toNat, u)
  else if off = regOutFifo then
    let (b, u) := outByte u
    (b.toNat, notify u)
  else if off = regOutCount then (outRemaining u, u)
  else if off = regAddress then (u.address.toNat, u)
  else if off = regConfig then (u.config.toNat, u)
  else (u.other ((off - 0x1300) / 4), u)

/-- A packet for the host: the EP1 buffer, if a slot is free. -/
def queueIn (u : Usbf) : Usbf :=
  let u := u.note (.committed u.inStage.bytes)
  let inFifo := if u.inFifo.count < inSlots then u.inFifo.push inSlots u.inStage else u.inFifo
  { u with inFifo, inStage := { u.inStage with len := 0 } }

/-- A byte for RAM; elsewhere it is lost. -/
def store (ram : Bool) (pa : Nat) (b : UInt8) (u : Usbf) : Usbf := if ram then { u with stores := u.stores ++ [(pa, b)] } else u

/-- Up to `n` bytes of the OUT FIFO, as long as there are any. -/
def drainOut (ram : Bool) : Nat → Nat → Usbf → Usbf
  | 0, _, u => u
  | n + 1, pa, u => if outPending u then drainOut ram n (pa + 1) (store ram pa (outByte u).1 (outByte u).2) else u

def fillStage (u : Usbf) (len : Nat) (ram : Option (Nat → UInt8)) : Usbf :=
  let data := match ram with
    | some ram => fun i => if i < len then ram i else u.inStage.data i
    | none => u.inStage.data
  { u with inStage := { data, len }, log := u.log ++ [.staged (txRequest u)] }

/-- `ram` at an address and a length: the bytes there, if it is RAM. -/
def dma (u : Usbf) (ram : Nat → Nat → Option (Nat → UInt8)) : Usbf :=
  let len := min u.dmaLen.toNat epMaxPacket
  let bytes := if len = 0 then none else ram (u.dmaAddr % 0x20000000) len
  if u.dmaDir &&& 0x01 ≠ 0 then
    let u := fillStage u len bytes
    let u := if len = epMaxPacket then queueIn u else u
    { u with topLatched := u.topLatched ||| 0x02 }
  else
    let u := drainOut bytes.isSome len (u.dmaAddr % 0x20000000) u
    { u with topLatched := u.topLatched ||| 0x01 }

def commit (u : Usbf) (val : UInt8) : Usbf :=
  let u := if val &&& 0x01 ≠ 0 then finishControl { u with intstat := update u.intstat 2 (u.intstat 2 ||| 0x08) } true else u
  let u := if val &&& 0x02 ≠ 0 then queueIn u else u
  if val &&& 0x04 ≠ 0 then { u with ep3 := u.ep3Stage, ep3Ready := true, ep3Stage := { u.ep3Stage with len := 0 } } else u

/-- The reset pulse. -/
def resetPulse (u : Usbf) : Usbf :=
  let u := flushFifos (finishControl u false)
  { u with intstat := fun i => if i < 3 then 0 else u.intstat i, topLatched := 0, ep1Off := false }

/-- A write to a register that is no descriptor. -/
def writeRegister (u : Usbf) (off val : Nat) (ram : Nat → Nat → Option (Nat → UInt8)) : Usbf :=
  let b := UInt8.ofNat val
  if off = regUnitEn then { u with unitEn := b &&& 1 }
  else if off = regDmaEn then { u with dmaEn := b }
  else if off = regDmaStart then if b &&& 0x01 ≠ 0 ∧ b &&& 0x10 = 0 then dma u ram else u
  else if off = regDmaDir then { u with dmaDir := b }
  else if off = regDmaHi then { u with dmaHi := b }
  else if off = regDmaLen then { u with dmaLen := b }
  else if off = regDmaAddr then { u with dmaAddr := val }
  else if off = regTopClr then { u with topLatched := u.topLatched &&& ~~~ b }
  else if off = regTopEn then { u with topEn := b }
  else if off = regReset then if b &&& 0x01 ≠ 0 then resetPulse u else u
  else if off = regCoreEn then { u with coreEn := b &&& 1 }
  else if off = regCoreCmd then if b &&& 0x02 ≠ 0 then { u with ep1Off := true } else u
  else if off = regEp0Ctrl then
    let u := if b &&& 0x08 ≠ 0 ∧ u.ctrlPending then finishControl u false else u
    { u with ep0Ctrl := b &&& 0xF7 }
  else if off = regIntclr0 then { u with intstat := update u.intstat 0 (u.intstat 0 &&& b) }
  else if off = regIntclr1 then { u with intstat := update u.intstat 1 (u.intstat 1 &&& b) }
  else if off = regIntclr2 then { u with intstat := update u.intstat 2 (u.intstat 2 &&& b) }
  else if off = regIntmask0 then { u with intmask := update u.intmask 0 b }
  else if off = regIntmask1 then { u with intmask := update u.intmask 1 b }
  else if off = regIntmask2 then { u with intmask := update u.intmask 2 b }
  else if off = regEp1Ctrl then { u with ep1Ctrl := b }
  else if off = regEpCtrl then if b &&& 0x04 ≠ 0 then { u with inStage := { u.inStage with len := 0 } } else u
  else if off = regEpCommit then commit u b
  else if off = regEp3Fifo then
    if u.ep3Stage.len < epMaxPacket then
      { u with ep3Stage := { data := update u.ep3Stage.data u.ep3Stage.len b, len := u.ep3Stage.len + 1 } }
    else u
  else if off = regAddress ∨ off = regConfig ∨ off = regTopStat ∨ off = regSetupFifo ∨ off = regOutFifo ∨ off = regOutCount then u
  else { u with other := update u.other ((off - 0x1300) / 4) val }

def write (u : Usbf) (off val : Nat) (ram : Nat → Nat → Option (Nat → UInt8)) : Usbf :=
  let off := off / 4 * 4
  if descBase ≤ off ∧ off < descBase + 4 * descWords
    then { u with desc := update u.desc ((off - descBase) / 4) (UInt8.ofNat val) }
  else notify (writeRegister u off val ram)

/-! ## The host's side -/

inductive CtrlResult where
  | ok
  | stall
  | pending
  deriving DecidableEq

def descriptorsReady (u : Usbf) : Bool :=
  u.unitEn != 0 && u.desc 0 == 18 && u.desc 1 == 1 && u.desc 18 == 9 && u.desc 19 == 2

def hostAttach (u : Usbf) (attached : Bool) : Usbf :=
  if u.usbAttached = attached then u
  else
    let u := { u with usbAttached := attached }
    notify (if attached then u else { flushFifos (finishControl u false) with address := 0, config := 0 })

def hostBusReset (u : Usbf) : Usbf :=
  let u := flushFifos (finishControl u false)
  notify { u with address := 0, config := 0, intstat := update u.intstat 2 (u.intstat 2 ||| 0x02) }

/-- A 16-bit value of two bytes. -/
def le16 (lo hi : UInt8) : Nat := lo.toNat + 256 * hi.toNat

def descriptorCopy (u : Usbf) (type max : Nat) : List UInt8 :=
  let part : Nat → Nat → List UInt8 := fun start len =>
    (List.range (min (if start + len > descWords then descWords - start else len) max)).map fun i => u.desc (start + i)
  if type = 1 then part 0 (u.desc 0).toNat
  else if type = 2 then part 18 (le16 (u.desc 20) (u.desc 21))
  else []

/-- The result, the bytes for the host and the controller. -/
def standardRequest (u : Usbf) (s : Nat → UInt8) : CtrlResult × List UInt8 × Usbf :=
  let value := le16 (s 2) (s 3)
  let length := le16 (s 6) (s 7)
  if s 1 = 0x06 then
    if s 0 ≠ 0x80 then (.stall, [], u)
    else
      let bytes := descriptorCopy u (value / 256) length
      if bytes = [] then (.stall, [], u) else (.ok, bytes, u)
  else if s 1 = 0x05 then (.ok, [], { u with address := UInt8.ofNat value &&& 0x7F })
  else if s 1 = 0x09 then
    if value > (u.desc 17).toNat then (.stall, [], u)
    else (.ok, [], notify { u with config := UInt8.ofNat value, intstat := update u.intstat 2 (u.intstat 2 ||| 0x04) })
  else if s 1 = 0x08 then (.ok, if length ≠ 0 then [u.config] else [], u)
  else if s 1 = 0x00 then (.ok, if length ≥ 2 then [if s 0 = 0x80 ∧ u.desc 25 &&& 0x40 ≠ 0 then 1 else 0, 0] else [], u)
  else if s 1 = 0x0A then (.ok, if length ≠ 0 then [0] else [], u)
  else if s 1 = 0x0B then (if value = 0 then .ok else .stall, [], u)
  else if s 1 = 0x01 ∨ s 1 = 0x03 then (.ok, [], u)
  else (.stall, [], u)

/-- The controller answers at once. -/
theorem standardRequest_status (u : Usbf) (s : Nat → UInt8) : (standardRequest u s).1 ≠ .pending := by
  have hite : ∀ (c : Prop) [Decidable c] (x y : CtrlResult × List UInt8 × Usbf), x.1 ≠ .pending → y.1 ≠ .pending →
      (if c then x else y).1 ≠ .pending := by
    intro c _ x y hx hy
    split <;> assumption
  have hstatus : ∀ (c : Prop) [Decidable c], (if c then CtrlResult.ok else CtrlResult.stall) ≠ .pending := by
    intro c _
    split <;> nofun
  unfold standardRequest
  simp only
  repeat' apply hite
  all_goals first
    | exact (nofun : CtrlResult.ok ≠ .pending)
    | exact (nofun : CtrlResult.stall ≠ .pending)
    | exact hstatus (le16 (s 2) (s 3) = 0)

def hostControl (u : Usbf) (s : Nat → UInt8) : CtrlResult × List UInt8 × Usbf :=
  if !u.usbAttached ∨ !descriptorsReady u then (.stall, [], u)
  else if s 0 &&& 0x60 = 0 then standardRequest u s
  else
    let u := finishControl u false
    (.pending, [], notify { u with
      setup := (List.range 8).map s, setupPos := 0, ctrlPending := true
      intstat := update u.intstat 1 (u.intstat 1 ||| 0x31) })

def hostOut (u : Usbf) (data : List UInt8) : Bool × Usbf :=
  if !u.usbAttached ∨ u.config = 0 ∨ data.length > epMaxPacket ∨ u.out.count ≥ outSlots then (false, u)
  else if data = [] then (true, u)
  else
    let slot := u.out.get outSlots u.out.count
    let p := { data := fun i => if i < data.length then data.getD i 0 else slot.data i, len := data.length }
    (true, notify { u with out := u.out.push outSlots p, log := u.log ++ [.accepted data] })

/-- The next IN packet; of one too long for `max` the rest is lost. -/
def hostIn (u : Usbf) (max : Nat) : Option (List UInt8) × Usbf :=
  if !u.usbAttached ∨ u.config = 0 ∨ u.inFifo.count = 0 then (none, u)
  else (some (u.inFifo.front.bytes.take max), notify { u with inFifo := u.inFifo.pop inSlots })

def hostIntrIn (u : Usbf) (max : Nat) : Option (List UInt8) × Usbf :=
  if !u.usbAttached ∨ u.config = 0 ∨ !u.ep3Ready then (none, u)
  else (some (u.ep3.bytes.take max), notify { u with ep3Ready := false })

end Be300.Usb
