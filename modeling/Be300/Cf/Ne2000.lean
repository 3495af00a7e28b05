/-
  Be300.Cf.Ne2000 — the NE2000 card (`src/hw/cf_ne2000.c`): its registers, the remote DMA
  port, and `ne2000_receive_packet`.

  Registers are bytes or 16-bit words, the addresses the ring functions compute numbers
  below 2^16. `net_ether_eq`,
  `net_ether_broadcast` and `net_ether_multicast` belong to the network library: they are
  the parameter `Ether`. What the card passes to `net_ethernet_tx` is kept in `sent`.
-/

import Mathlib.Logic.Function.Basic
import Mathlib.Tactic.Common
import Mathlib.Algebra.Ring.Nat
import Mathlib.Algebra.Ring.Int.Defs

namespace Be300.Cf.Ne2000

/-- The tests the network library makes on a frame's destination address. -/
structure Ether where
  eq : List UInt8 → List UInt8 → Bool
  broadcast : List UInt8 → Bool
  multicast : List UInt8 → Bool

def crStp : UInt8 := 0x01
def crSta : UInt8 := 0x02
def crTxp : UInt8 := 0x04
def crRdMask : UInt8 := 0x38
def crRd0 : UInt8 := 0x08
def crRd1 : UInt8 := 0x10
def crRd2 : UInt8 := 0x20
def crPsMask : UInt8 := 0xC0
def isrPrx : UInt8 := 0x01
def isrPtx : UInt8 := 0x02
def isrOvw : UInt8 := 0x10
def isrRdc : UInt8 := 0x40
def isrRst : UInt8 := 0x80
def rsrPrx : UInt8 := 0x01
def rsrPhy : UInt8 := 0x20
def tsrPtx : UInt8 := 0x01
def dcrWts : UInt8 := 0x01
def rcrAb : UInt8 := 0x04
def rcrAm : UInt8 := 0x08
def rcrPro : UInt8 := 0x10
def rcrMon : UInt8 := 0x20

/-- `CF_NE2000_MEM_SIZE`. -/
def memSize : Nat := 0x8000

structure Card where
  mem : Nat → UInt8
  par : List UInt8
  mar : List UInt8
  cr : UInt8
  pstart : UInt8
  pstop : UInt8
  bnry : UInt8
  tpsr : UInt8
  tbcr0 : UInt8
  tbcr1 : UInt8
  isr : UInt8
  rsar0 : UInt8
  rsar1 : UInt8
  rbcr0 : UInt8
  rbcr1 : UInt8
  rcr : UInt8
  tcr : UInt8
  dcr : UInt8
  imr : UInt8
  curr : UInt8
  rsr : UInt8
  tsr : UInt8
  remoteCmd : UInt8
  remoteAddr : UInt16
  remoteCount : UInt16
  sent : List (List UInt8)

def seedProm (s : Card) : Card :=
  let prom := s.par ++ List.replicate (14 - s.par.length) 0 ++ [0x57, 0x57]
  { s with mem := fun a => if a < 32 then prom.getD (a / 2) 0 else 0 }

def reset (s : Card) : Card :=
  seedProm { s with
    cr := crStp ||| crRd2, pstart := 0x40, pstop := 0x80, bnry := 0x40, tpsr := 0x20, tbcr0 := 0, tbcr1 := 0,
    isr := isrRst, rsar0 := 0, rsar1 := 0, rbcr0 := 0, rbcr1 := 0, rcr := 0, tcr := 0, dcr := dcrWts, imr := 0,
    curr := 0x41, rsr := 0, tsr := 0, remoteCmd := crRd2, remoteAddr := 0, remoteCount := 0 }

def memRead (s : Card) (addr : Nat) : UInt8 := s.mem (addr % memSize)

def memWrite (s : Card) (addr : Nat) (value : UInt8) : Card :=
  if addr < memSize then { s with mem := Function.update s.mem addr value } else s

/-! ## Registers and remote DMA -/

def word (lo hi : UInt8) : Nat := lo.toNat + 256 * hi.toNat

def remoteDoneIfNeeded (s : Card) : Card :=
  if s.remoteCount = 0 ∧ s.remoteCmd ≠ crRd2 then { s with isr := s.isr ||| isrRdc } else s

def transmit (s : Card) : Card :=
  let len := min (word s.tbcr0 s.tbcr1) 1600
  let packet := (List.range len).map fun i => memRead s ((256 * s.tpsr.toNat + i) % 65536)
  let sent := if 14 ≤ len then s.sent ++ [packet] else s.sent
  { s with sent, tsr := tsrPtx, isr := s.isr ||| isrPtx, cr := s.cr &&& ~~~crTxp }

def writeCr (s : Card) (value : UInt8) : Card :=
  let s := { s with cr := value, remoteCmd := value &&& crRdMask }
  let s := if value &&& crStp ≠ 0 then { s with isr := s.isr ||| isrRst } else s
  let s := if value &&& crSta ≠ 0 then { s with isr := s.isr &&& ~~~isrRst } else s
  let s :=
    if value &&& crRdMask = crRd0 ∨ value &&& crRdMask = crRd1 then
      remoteDoneIfNeeded { s with
        remoteAddr := UInt16.ofNat (word s.rsar0 s.rsar1)
        remoteCount := UInt16.ofNat (word s.rbcr0 s.rbcr1) }
    else s
  let s := if value &&& crTxp ≠ 0 then transmit s else s
  { s with cr := (s.cr &&& ~~~crPsMask) ||| (value &&& crPsMask) }

/-- The register page that the command register selects. -/
def page (s : Card) : Nat := ((s.cr &&& crPsMask) >>> 6).toNat

def writeReg (s : Card) (reg : Nat) (value : UInt8) : Card :=
  let reg := reg % 16
  if reg = 0 then writeCr s value
  else if page s = 1 then
    if reg ≤ 6 then { s with par := s.par.set (reg - 1) value }
    else if reg = 7 then { s with curr := value }
    else { s with mar := s.mar.set (reg - 8) value }
  else match reg with
    | 1 => { s with pstart := value }
    | 2 => { s with pstop := value }
    | 3 => { s with bnry := value }
    | 4 => { s with tpsr := value }
    | 5 => { s with tbcr0 := value }
    | 6 => { s with tbcr1 := value }
    | 7 => { s with isr := s.isr &&& ~~~value }
    | 8 => { s with rsar0 := value }
    | 9 => { s with rsar1 := value }
    | 10 => { s with rbcr0 := value }
    | 11 => { s with rbcr1 := value }
    | 12 => { s with rcr := value }
    | 13 => { s with tcr := value }
    | 14 => { s with dcr := value }
    | _ => { s with imr := value }

/-- The remote DMA address and count after one byte. -/
def remoteNext (s : Card) : Card :=
  { s with remoteAddr := s.remoteAddr + 1, remoteCount := if s.remoteCount > 0 then s.remoteCount - 1 else s.remoteCount }

def dataRead : Nat → Card → List UInt8 × Card
  | 0, s => ([], remoteDoneIfNeeded s)
  | size + 1, s =>
    let (rest, s') := dataRead size (remoteNext s)
    (memRead s s.remoteAddr.toNat :: rest, s')

def dataWrite : List UInt8 → Card → Card
  | [], s => remoteDoneIfNeeded s
  | b :: value, s => dataWrite value (remoteNext (memWrite s s.remoteAddr.toNat b))

/-! ## The receive ring -/

def acceptPacket (ne : Ether) (s : Card) (packet : List UInt8) : Bool :=
  if packet.length < 14 then false
  else if s.cr &&& crSta = 0 ∨ s.cr &&& crStp ≠ 0 then false
  else if s.rcr &&& rcrMon ≠ 0 then false
  else if ne.broadcast packet then s.rcr &&& rcrAb != 0
  else if ne.multicast packet then s.rcr &&& (rcrAm ||| rcrPro) != 0
  else s.rcr &&& rcrPro != 0 || ne.eq packet s.par

/-- `pstart` and `pstop` as the ring functions read them. -/
def ringStart (s : Card) : Nat := if s.pstart.toNat ≠ 0 then s.pstart.toNat else 0x40
def ringStop (s : Card) : Nat := if s.pstop.toNat > ringStart s then s.pstop.toNat else 0x80

/-- The loop of `ne2000_next_page`, which ends only on a ring with pages. -/
def wrapPage (pstart pstop next : Nat) : Nat :=
  if _h : pstop ≤ next ∧ pstart < pstop then wrapPage pstart pstop (pstart + (next - pstop)) else next
termination_by next

def nextPage (s : Card) (page pages : Nat) : UInt8 := UInt8.ofNat (wrapPage (ringStart s) (ringStop s) (page + pages))

def ringHasSpace (s : Card) (pages : Nat) : Bool :=
  let pstart := ringStart s
  let pstop := ringStop s
  let curr := if s.curr.toNat < pstart ∨ pstop ≤ s.curr.toNat then pstart else s.curr.toNat
  let bnry := if s.bnry.toNat < pstart ∨ pstop ≤ s.bnry.toNat then pstart else s.bnry.toNat
  let freePages := if curr ≤ bnry then bnry - curr else (pstop - curr) + (bnry - pstart)
  decide (pages < freePages)

def ringWrite (s : Card) (off : Nat) (value : UInt8) : Card :=
  let pstart := 256 * (if s.pstart.toNat ≠ 0 then s.pstart.toNat else 0x40)
  let pstop := 256 * (if s.pstop.toNat > s.pstart.toNat then s.pstop.toNat else 0x80)
  let addr :=
    if off < pstart ∨ pstop ≤ off then
      (((pstart : Int) + ((off : Int) - pstart).tmod ((pstop : Int) - pstart)) % 65536).toNat
    else off
  memWrite s addr value

/-- The loops of `ne2000_receive_packet`: `data` from offset `off` on. -/
def ringWriteAll (s : Card) (off : Nat) : List UInt8 → Card
  | [] => s
  | b :: data => ringWriteAll (ringWrite s off b) ((off + 1) % 65536) data

def receivePacket (ne : Ether) (s : Card) (packet : List UInt8) : Card :=
  if !acceptPacket ne s packet then s
  else
    let wireLen := (packet.length + 4) % 65536
    let total := (wireLen + 4) % 65536
    let pages := ((total + 255) / 256) % 256
    let pages := if pages = 0 then 1 else pages
    if !ringHasSpace s pages then { s with isr := s.isr ||| isrOvw }
    else
      let curr := if s.curr < s.pstart ∨ s.pstop ≤ s.curr then s.pstart else s.curr
      let next := nextPage s curr.toNat pages
      let base := 256 * curr.toNat
      let header : List UInt8 :=
        [rsrPrx ||| (if ne.eq packet s.par then rsrPhy else 0), next, UInt8.ofNat wireLen, UInt8.ofNat (wireLen / 256)]
      let s := ringWriteAll s base header
      let s := ringWriteAll s ((base + 4) % 65536) packet
      let s := ringWriteAll s ((base + 4 + packet.length) % 65536) [0, 0, 0, 0]
      { s with curr := next, rsr := rsrPrx, isr := s.isr ||| isrPrx }

end Be300.Cf.Ne2000
