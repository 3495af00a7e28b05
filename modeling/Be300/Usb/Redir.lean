/-
  Be300.Usb.Redir — the usbredir endpoint of the USB function controller
  (`src/usbredir_dev.c`, with `src/host_chardev.c` under it).

  What the host's calls return in a tick is its `Env`. Memory does not run out. Tracing and
  the packet log file are not here, nor is the shutdown of the emulator.
-/

import Be300.Lib.Bytes
import Be300.Usb.Function

namespace Be300.Usb

open Lib

def urHello : Nat := 0
def urDeviceConnect : Nat := 1
def urDeviceDisconnect : Nat := 2
def urReset : Nat := 3
def urInterfaceInfo : Nat := 4
def urEpInfo : Nat := 5
def urSetConfiguration : Nat := 6
def urGetConfiguration : Nat := 7
def urConfigurationStatus : Nat := 8
def urSetAltSetting : Nat := 9
def urGetAltSetting : Nat := 10
def urAltSettingStatus : Nat := 11
def urStartInterruptReceiving : Nat := 15
def urStopInterruptReceiving : Nat := 16
def urInterruptReceivingStatus : Nat := 17
def urCancelDataPacket : Nat := 21
def urControlPacket : Nat := 100
def urBulkPacket : Nat := 101
def urInterruptPacket : Nat := 103

def urSuccess : UInt8 := 0
def urCancelled : UInt8 := 1
def urInval : UInt8 := 2
def urIoerror : UInt8 := 3
def urStall : UInt8 := 4
def urBabble : UInt8 := 6

def capConnectDeviceVersion : Nat := 1
def capEpInfoMaxPacketSize : Nat := 4
def cap64bitsIds : Nat := 5
def cap32bitsBulkLength : Nat := 6
def ourCaps : Nat := 0x72

def urMaxPayload : Nat := 4 * 1024 * 1024
def urQueueLen : Nat := 64
def urMaxBulkIn : Nat := 64 * 1024

/-! ## The host's calls -/

inductive Kind where
  | listen
  | dial
  | pty

inductive ConnectResult where
  | pending
  | failed
  | done

/-- A read of no bytes is the end of the stream. -/
inductive ReadResult where
  | bytes (l : List UInt8)
  | intr
  | wouldBlock
  | error

inductive WriteResult where
  | bytes (n : Nat)
  | intr
  | wouldBlock
  | error

/-- When a list of results is used up, the call would block. -/
structure Env where
  /-- A peer is waiting to be accepted. -/
  accepts : Bool
  /-- A redial is due and starts, and whether the connection is then still in progress. -/
  redial : Option Bool
  connect : ConnectResult
  reads : List ReadResult
  writes : List WriteResult
  /-- The interrupt endpoint's interval is over. -/
  intrDue : Bool

structure Chardev where
  kind : Kind
  fd : Bool
  connecting : Bool
  newPeer : Bool

/-! ## State -/

structure Xfer where
  id : Nat
  ep : UInt8
  data : List UInt8
  len : Nat
  off : Nat

structure Dev extends Usbf where
  ch : Chardev
  present : Bool
  rx : List UInt8
  tx : List UInt8
  peerHello : Bool
  peerCaps : Nat
  connected : Bool
  bulkIn : Fifo Xfer
  bulkOut : Fifo Xfer
  intrReceiving : Bool
  intrSeq : Nat
  epBulkIn : UInt8
  epBulkOut : UInt8
  epIntrIn : UInt8
  mpsBulkIn : Nat
  mpsBulkOut : Nat
  writes : List WriteResult

def Dev.noted (d : Dev) (n : Note) : Dev := { d with log := d.log ++ [n] }

/-- The controller after a function of its own. -/
def Dev.on (d : Dev) (f : Usbf → Usbf) : Dev := { d with toUsbf := f d.toUsbf }

/-- A peer is there. -/
def Dev.up (d : Dev) : Bool := d.ch.fd && !d.ch.connecting

def bothCap (d : Dev) (cap : Nat) : Bool := ourCaps.testBit cap && d.peerCaps.testBit cap

def hdrLen (d : Dev) : Nat := if bothCap d cap64bitsIds then 16 else 12

def bulkHdrLen (d : Dev) : Nat := if bothCap d cap32bitsBulkLength then 10 else 8

/-- An id as the header holds it. -/
def wireId (d : Dev) (id : Nat) : Nat := if hdrLen d = 16 then id % 2 ^ 64 else id % 2 ^ 32

/-! ## Transmit -/

/-- The rest of the results, the bytes written, and whether the peer is lost. -/
def writeLoop : List WriteResult → Nat → Nat → List WriteResult × Nat × Bool
  | [], off, _ => ([], off, false)
  | w :: ws, off, len =>
    if off < len then
      match w with
      | .bytes n => if n = 0 then (ws, off, true) else writeLoop ws (off + min n (len - off)) len
      | .intr => writeLoop ws off len
      | .wouldBlock => (ws, off, false)
      | .error => (ws, off, true)
    else (w :: ws, off, false)

def dropTransfers (d : Dev) : Dev :=
  { d with
    bulkIn := d.bulkIn.clear, bulkOut := d.bulkOut.clear, ctrl := { d.ctrl with active := false, done := false }
    intrReceiving := false, log := d.log ++ [.dropped] }

/-- `device_disconnect` when the peer is not told. -/
def deviceDetach (d : Dev) : Dev :=
  if d.connected then (dropTransfers { d with connected := false }).on (hostAttach · false) else d

def dropPeer (c : Chardev) : Chardev := { c with fd := false, connecting := false, newPeer := false }

def peerLost (d : Dev) : Dev :=
  let d := deviceDetach (d.noted .lost)
  { d with ch := dropPeer d.ch, peerHello := false, peerCaps := 0, rx := [], tx := [] }

def flushTx (d : Dev) : Dev :=
  let (writes, off, lost) := writeLoop d.writes 0 d.tx.length
  let d := { d with writes, tx := d.tx.drop off }
  if lost then peerLost d else d.noted (.wrote off)

def header (d : Dev) (type len id : Nat) : List UInt8 := le 4 type ++ le 4 len ++ le (hdrLen d - 8) id

def sendPacket (d : Dev) (type id : Nat) (th data : List UInt8) : Dev :=
  if !d.up then d
  else
    flushTx { d with
      tx := d.tx ++ header d type (th.length + data.length) id ++ th ++ data
      log := d.log ++ [.sent type (wireId d id) th data] }

/-- The bytes of a text, and zeros up to a length. -/
def padded (n : Nat) (s : String) : List UInt8 :=
  let l := s.toList.map fun c => UInt8.ofNat c.toNat
  l ++ List.replicate (n - l.length) 0

def sendHello (d : Dev) : Dev := sendPacket d urHello 0 (padded 64 "be300-usbredir-dev 1.0" ++ le 4 ourCaps) []

def replyControl (d : Dev) (id : Nat) (hdr : List UInt8) (status : UInt8) (data : List UInt8) : Dev :=
  let isIn := at' hdr 2 &&& 0x80 ≠ 0
  let h := hdr.set 3 status
  let h := if status ≠ urSuccess then h.take 8 ++ [0, 0] else if isIn then h.take 8 ++ le 2 data.length else h
  sendPacket d urControlPacket id h (if isIn ∧ status = urSuccess then data else [])

def replyBulk (d : Dev) (id : Nat) (ep status : UInt8) (data : List UInt8) (len : Nat) : Dev :=
  let h := [ep, status] ++ le 2 len ++ [0, 0, 0, 0] ++ le 2 (len / 65536)
  sendPacket d urBulkPacket id (h.take (bulkHdrLen d)) (if ep &&& 0x80 ≠ 0 then data else [])

/-! ## Device description -/

def epIndex (ep : UInt8) : Nat := ((ep &&& 0x80) >>> 3 ||| (ep &&& 0x0F)).toNat

/-- What the configuration descriptor says of the interfaces and endpoints. -/
structure EpInfo where
  interfaces : List (List UInt8)
  curIf : UInt8
  curAlt0 : Bool
  type : Nat → UInt8
  interval : Nat → UInt8
  interface : Nat → UInt8
  maxPacket : Nat → Nat
  bulkIn : UInt8
  bulkOut : UInt8
  intrIn : UInt8
  mpsIn : Nat
  mpsOut : Nat

/-- An interface or endpoint descriptor. -/
def parseOne (e : EpInfo) (b : List UInt8) : EpInfo :=
  if at' b 1 = 4 ∧ at' b 0 ≥ 9 then
    let e := { e with curIf := at' b 2, curAlt0 := at' b 3 == 0 }
    if e.curAlt0 ∧ e.interfaces.length < 32 then
      { e with interfaces := e.interfaces ++ [[at' b 2, at' b 5, at' b 6, at' b 7]] }
    else e
  else if at' b 1 = 5 ∧ at' b 0 ≥ 7 ∧ e.curAlt0 then
    let ep := at' b 2
    let type := at' b 3 &&& 3
    let k := epIndex ep
    let mps := le16 (at' b 4) (at' b 5)
    let e := { e with
      type := update e.type k type, interval := update e.interval k (at' b 6), interface := update e.interface k e.curIf
      maxPacket := update e.maxPacket k mps }
    if type = 2 ∧ ep &&& 0x80 ≠ 0 then { e with bulkIn := ep, mpsIn := mps }
    else if type = 2 then { e with bulkOut := ep, mpsOut := mps }
    else if type = 3 ∧ ep &&& 0x80 ≠ 0 then { e with intrIn := ep }
    else e
  else e

/-- The descriptors one after the other; each is at least two bytes long. -/
def parseConfig : Nat → List UInt8 → EpInfo → EpInfo
  | 0, _, e => e
  | fuel + 1, b, e =>
    let n := (at' b 0).toNat
    if b.length < 2 ∨ n < 2 ∨ n > b.length then e else parseConfig fuel (b.drop n) (parseOne e b)

/-- One byte of each interface, up to 32. -/
def column (l : List (List UInt8)) (i : Nat) : List UInt8 := (List.range 32).map fun k => at' (l.getD k []) i

def sendInterfaceAndEpInfo (d : Dev) : Dev :=
  let dev := descriptorCopy d.toUsbf 1 18
  let cfg := descriptorCopy d.toUsbf 2 256
  let e := parseConfig cfg.length cfg
    { interfaces := [], curIf := 0, curAlt0 := false
      type := fun k => if k = 0 ∨ k = 16 then 0 else 255
      interval := fun _ => 0, interface := fun _ => 0
      maxPacket := fun k => if k = 0 ∨ k = 16 then (at' dev 7).toNat else 0
      bulkIn := 0, bulkOut := 0, intrIn := 0, mpsIn := d.mpsBulkIn, mpsOut := d.mpsBulkOut }
  let d := { d with
    epBulkIn := e.bulkIn, epBulkOut := e.bulkOut, epIntrIn := e.intrIn, mpsBulkIn := e.mpsIn, mpsBulkOut := e.mpsOut
    log := d.log ++ [.described e.mpsIn e.mpsOut] }
  let ii := le 4 e.interfaces.length ++ (List.range 4).flatMap (column e.interfaces)
  let ei := (List.range 32).map e.type ++ (List.range 32).map e.interval ++ (List.range 32).map e.interface ++
    (List.range 32).flatMap fun k => le 2 (e.maxPacket k)
  let d := sendPacket d urInterfaceInfo 0 ii []
  sendPacket d urEpInfo 0 (if bothCap d capEpInfoMaxPacketSize then ei else ei.take 96) []

def sendDeviceConnect (d : Dev) : Dev :=
  let dev := at' (descriptorCopy d.toUsbf 1 18)
  let h := [1, dev 4, dev 5, dev 6, dev 8, dev 9, dev 10, dev 11, dev 12, dev 13]
  sendPacket d urDeviceConnect 0 (if bothCap d capConnectDeviceVersion then h else h.take 8) []

/-! ## Device side -/

def setupBytes (l : List UInt8) : Nat → UInt8 := at' l

def standard (d : Dev) (rt req : UInt8) (value index : Nat) : CtrlResult × Dev :=
  let (rc, _, u) := hostControl d.toUsbf (setupBytes ([rt, req] ++ le 2 value ++ le 2 index ++ [0, 0]))
  (rc, { d with toUsbf := u })

def busReset (d : Dev) : Dev := (standard (d.on hostBusReset) 0x00 0x05 1 0).2

/-- `device_disconnect` when the peer is told. -/
def deviceDisconnect (d : Dev) : Dev :=
  if d.connected then (sendPacket (dropTransfers { d with connected := false }) urDeviceDisconnect 0 [] []).on
    (hostAttach · false)
  else d

def offer (d : Dev) : Dev :=
  let d := busReset (d.on (hostAttach · true))
  let d := sendDeviceConnect (sendInterfaceAndEpInfo (d.noted .attached))
  { d with connected := true, log := d.log ++ [.connected] }

def updateConnection (d : Dev) : Dev :=
  let want := d.present && d.peerHello && d.up && descriptorsReady d.toUsbf
  if want && !d.connected then offer d
  else if !want && d.connected then if d.up then deviceDisconnect d else deviceDetach d
  else d

/-- One chunk for each OUT token, up to the first that is refused. -/
def serviceOut : Nat → Dev → Dev
  | 0, d => d
  | fuel + 1, d =>
    if d.bulkOut.count = 0 then d
    else
      let x := d.bulkOut.front
      let chunk := min (x.len - x.off) (if d.mpsBulkOut ≠ 0 then d.mpsBulkOut else epMaxPacket)
      let (taken, u) := hostOut d.toUsbf ((x.data.drop x.off).take chunk)
      if !taken then d
      else
        let d := { d with toUsbf := u, bulkOut := d.bulkOut.setFront { x with off := x.off + chunk } }
        if x.off + chunk < x.len then serviceOut fuel d
        else
          let d := replyBulk d x.id x.ep urSuccess [] x.len
          serviceOut fuel { d with bulkOut := d.bulkOut.pop urQueueLen }

/-- Packets up to a short one or a full request. -/
def serviceIn : Nat → Dev → Dev
  | 0, d => d
  | fuel + 1, d =>
    if d.bulkIn.count = 0 then d
    else
      let x := d.bulkIn.front
      match hostIn d.toUsbf epMaxPacket with
      | (none, _) => d
      | (some pkt, u) =>
        let room := x.len - x.off
        let n := min pkt.length room
        let status := if pkt.length > room then urBabble else urSuccess
        let y := { x with data := x.data ++ pkt.take n, off := x.off + n }
        let d := { d with toUsbf := u.note (.moved pkt.length room), bulkIn := d.bulkIn.setFront y }
        if status ≠ urSuccess ∨ n < (if d.mpsBulkIn ≠ 0 then d.mpsBulkIn else epMaxPacket) ∨ y.off = y.len then
          let d := replyBulk d y.id y.ep status y.data y.off
          serviceIn fuel { d with bulkIn := d.bulkIn.pop urQueueLen }
        else serviceIn fuel d

def serviceIntr (d : Dev) (due : Bool) : Dev :=
  if d.intrReceiving ∧ due then
    match hostIntrIn d.toUsbf epMaxPacket with
    | (none, u) => { d with toUsbf := u }
    | (some pkt, u) =>
      sendPacket { d with toUsbf := u, intrSeq := d.intrSeq + 1 } urInterruptPacket d.intrSeq
        ([d.epIntrIn, urSuccess] ++ le 2 pkt.length) pkt
  else d

def serviceEndpoints (d : Dev) (intrDue : Bool) : Dev :=
  if d.connected then
    let d := serviceOut (d.bulkOut.count + outSlots + 1) d
    let d := serviceIn (d.inFifo.count + 1) d
    serviceIntr d intrDue
  else d

def sendCtrlReply (d : Dev) : Dev :=
  if d.ctrl.active ∧ d.ctrl.done then
    let c := d.ctrl
    replyControl { d with ctrl := { c with active := false, done := false } } c.id c.hdr (if c.ok then urSuccess else urStall) []
  else d

/-! ## Receive -/

def handleControl (d : Dev) (id : Nat) (p : List UInt8) : Dev :=
  if p.length < 10 then d
  else if !d.connected then replyControl (d.noted (.request id)) id (p.take 10) urIoerror []
  else
    let (rc, bytes, u) := hostControl d.toUsbf (setupBytes ([at' p 2, at' p 1] ++ (p.drop 4).take 6))
    let d := { d with toUsbf := u }
    match rc with
    | .pending =>
      { d with
        ctrl := { d.ctrl with active := true, done := false, id, hdr := p.take 10 }
        log := d.log ++ [.request id, .deferred id] }
    | .ok => replyControl (d.noted (.request id)) id (p.take 10) urSuccess bytes
    | .stall => replyControl (d.noted (.request id)) id (p.take 10) urStall bytes

def handleBulk (d : Dev) (id : Nat) (p : List UInt8) : Dev :=
  let hl := bulkHdrLen d
  if p.length < hl then d
  else
    let ep := at' p 0
    let blen := le16 (at' p 2) (at' p 3) + if hl = 10 then 65536 * le16 (at' p 8) (at' p 9) else 0
    let refused := fun status => replyBulk (d.noted (.request id)) id ep status [] 0
    if !d.connected then refused urIoerror
    else if ep ≠ d.epBulkIn ∧ ep ≠ d.epBulkOut then refused urInval
    else if ep &&& 0x80 = 0 then
      if d.bulkOut.count ≥ urQueueLen then refused urIoerror
      else
        { d with
          bulkOut := d.bulkOut.push urQueueLen { id, ep, data := p.drop hl, len := p.length - hl, off := 0 }
          log := d.log ++ [.request id, .queued id (p.drop hl)] }
    else if blen > urMaxBulkIn then refused urInval
    else if d.bulkIn.count ≥ urQueueLen then refused urIoerror
    else
      { d with
        bulkIn := d.bulkIn.push urQueueLen { id, ep, data := [], len := blen, off := 0 }
        log := d.log ++ [.request id] }

/-- The place of the entry with this id. -/
def findId (q : Fifo Xfer) (id : Nat) : Option Nat := (List.range q.count).find? fun i => (q.get urQueueLen i).id == id

def handleCancel (d : Dev) (id : Nat) : Dev :=
  if d.ctrl.active ∧ d.ctrl.id = id then
    replyControl { d with ctrl := { d.ctrl with active := false, done := false } } id d.ctrl.hdr urCancelled []
  else
    match findId d.bulkIn id with
    | some i =>
      replyBulk { d with bulkIn := d.bulkIn.removeAt urQueueLen i } id (d.bulkIn.get urQueueLen i).ep urCancelled [] 0
    | none =>
      match findId d.bulkOut id with
      | some i =>
        replyBulk { d with bulkOut := d.bulkOut.removeAt urQueueLen i } id (d.bulkOut.get urQueueLen i).ep urCancelled [] 0
      | none => d

def handleHello (d : Dev) (p : List UInt8) : Dev :=
  if p.length < 64 then d
  else
    let caps := if p.length ≥ 68 then rd 4 (at' p) 64 else 0
    { d with peerCaps := caps, peerHello := true, log := d.log ++ [.hello caps] }

def handleSetConfiguration (d : Dev) (id : Nat) (p : List UInt8) : Dev :=
  if p.length < 1 then d
  else if !d.connected then sendPacket d urConfigurationStatus id [urIoerror, 0] []
  else
    let (rc, d) := standard d 0x00 0x09 (at' p 0).toNat 0
    let status := if rc = .ok then urSuccess else urStall
    let d := sendPacket d urConfigurationStatus id [status, d.config] []
    if status = urSuccess then sendInterfaceAndEpInfo d else d

def handleSetAltSetting (d : Dev) (id : Nat) (p : List UInt8) : Dev :=
  if p.length < 2 then d
  else if !d.connected then sendPacket d urAltSettingStatus id [urIoerror, at' p 0, 0] []
  else
    let (rc, d) := standard d 0x01 0x0B (at' p 1).toNat (at' p 0).toNat
    sendPacket d urAltSettingStatus id (if rc = .ok then [urSuccess, at' p 0, at' p 1] else [urStall, at' p 0, 0]) []

def handlePacket (d : Dev) (type id : Nat) (p : List UInt8) : Dev :=
  if type = urHello then handleHello d p
  else if type = urReset then if d.connected then busReset (dropTransfers d) else d
  else if type = urSetConfiguration then handleSetConfiguration d id p
  else if type = urGetConfiguration then
    sendPacket d urConfigurationStatus id (if d.connected then [urSuccess, d.config] else [urIoerror, 0]) []
  else if type = urSetAltSetting then handleSetAltSetting d id p
  else if type = urGetAltSetting then
    sendPacket d urAltSettingStatus id [if d.connected then urSuccess else urIoerror, at' p 0, 0] []
  else if type = urStartInterruptReceiving then
    if p.length < 1 then d
    else if d.connected ∧ at' p 0 = d.epIntrIn ∧ at' p 0 ≠ 0 then
      sendPacket { d with intrReceiving := true } urInterruptReceivingStatus id [urSuccess, at' p 0] []
    else sendPacket d urInterruptReceivingStatus id [urInval, at' p 0] []
  else if type = urStopInterruptReceiving then
    if p.length < 1 then d
    else sendPacket { d with intrReceiving := false } urInterruptReceivingStatus id [urSuccess, at' p 0] []
  else if type = urCancelDataPacket then handleCancel d id
  else if type = urControlPacket then handleControl d id p
  else if type = urBulkPacket then handleBulk d id p
  else if type = urInterruptPacket then sendPacket d urInterruptPacket id [at' p 0, urInval, 0, 0] []
  else d

/-- Reads up to one that would block; whether the peer was lost. -/
def readLoop : List ReadResult → Dev → Bool × Dev
  | [], d => (false, d)
  | r :: rs, d =>
    match r with
    | .bytes l => if l = [] then (true, peerLost d) else readLoop rs { d with rx := d.rx ++ l }
    | .intr => readLoop rs d
    | .wouldBlock => (false, d)
    | .error => (true, peerLost d)

/-- The packets in `b`, each at least twelve bytes, and what is left of it. -/
def packetLoop : Nat → List UInt8 → Dev → List UInt8 × Dev
  | 0, b, d => (b, d)
  | fuel + 1, b, d =>
    let hl := hdrLen d
    if !d.ch.fd then (b, d)
    else if b.length < hl then (b, d)
    else
      let len := rd 4 (at' b) 4
      if len > urMaxPayload then (b, peerLost d)
      else if b.length < hl + len then (b, d)
      else
        packetLoop fuel (b.drop (hl + len)) (handlePacket d (rd 4 (at' b) 0) (rd (hl - 8) (at' b) 8) ((b.drop hl).take len))

/-- A read without a peer fails. -/
def drainRx (d : Dev) (reads : List ReadResult) : Dev :=
  let (lost, d) := if d.ch.fd then readLoop reads d else (true, peerLost d)
  if lost then d
  else
    let (rx, d) := packetLoop (d.rx.length + 1) d.rx d
    if d.ch.fd then { d with rx } else d

/-! ## Ticks -/

/-- `host_chardev_tick`. A dialled peer that answers at once is not noted as new. -/
def chardevTick (d : Dev) (env : Env) : Dev :=
  match d.ch.kind with
  | .listen =>
    if !d.ch.fd ∧ env.accepts then { d with ch := { d.ch with fd := true, newPeer := true }, log := d.log ++ [.peer] } else d
  | .dial =>
    if d.ch.fd then d
    else match env.redial with
      | none => d
      | some true => { d with ch := { d.ch with fd := true, connecting := true } }
      | some false => { d with ch := { d.ch with fd := true, connecting := false }, log := d.log ++ [.peer] }
  | .pty => d

/-- `host_chardev_ready` completes a connection in progress. -/
def settle (d : Dev) (result : ConnectResult) : Dev :=
  if d.ch.fd ∧ d.ch.connecting then
    match result with
    | .pending => d
    | .failed => { d with ch := { d.ch with fd := false, connecting := false } }
    | .done => { d with ch := { d.ch with connecting := false, newPeer := true }, log := d.log ++ [.peer] }
  else d

def greet (d : Dev) : Dev :=
  if d.ch.newPeer then
    sendHello { d with ch := { d.ch with newPeer := false }, peerHello := false, peerCaps := 0, rx := [], tx := [] }
  else d

def tick (d : Dev) (env : Env) : Dev :=
  let d := settle (chardevTick { d with writes := env.writes } env) env.connect
  if !d.up then deviceDetach d
  else
    let d := drainRx (greet d) env.reads
    if !d.ch.fd then d
    else
      let d := updateConnection d
      let d := sendCtrlReply d
      let d := serviceEndpoints d env.intrDue
      flushTx d

/-! ## Events -/

inductive Event where
  | present (b : Bool)
  | read (off : Nat)
  | write (off val : Nat) (ram : Nat → Nat → Option (Nat → UInt8))
  | reset
  | tick (env : Env)

def step (d : Dev) : Event → Dev
  | .present b => { d with present := b }
  | .read off => d.on fun u => (read u off).2
  | .write off val ram => d.on fun u => write u off val ram
  | .reset => d.on usbfReset
  | .tick env => tick d env

def run (d : Dev) (events : List Event) : Dev := events.foldl step d

/-! ## The start -/

def noFifo {α : Type} (x : α) : Fifo α := ⟨fun _ => x, 0, 0⟩

def noUsbf : Usbf :=
  usbfInit
    { unitEn := 0, dmaEn := 0, dmaDir := 0, dmaHi := 0, dmaLen := 0, dmaAddr := 0, topLatched := 0, topEn := 0, coreEn := 0
      ep1Off := false, ep0Ctrl := 0, intstat := fun _ => 0, intmask := fun _ => 0, ep1Ctrl := 0, other := fun _ => 0
      address := 0, config := 0, desc := fun _ => 0, setup := [], setupPos := 0, ctrlPending := false
      out := noFifo ⟨fun _ => 0, 0⟩, outPos := 0, inStage := ⟨fun _ => 0, 0⟩, inFifo := noFifo ⟨fun _ => 0, 0⟩
      ep3Stage := ⟨fun _ => 0, 0⟩, ep3 := ⟨fun _ => 0, 0⟩, ep3Ready := false, usbAttached := false
      ctrl := { active := false, done := false, ok := false, id := 0, hdr := [] }, log := [], stores := [], calls := [] }

/-- Configured and bound, with the stream as it was opened: a connection may be there, or in progress. -/
def devInit (ch : Chardev) : Dev :=
  { noUsbf with
    ch, present := false, rx := [], tx := [], peerHello := false, peerCaps := 0, connected := false
    bulkIn := noFifo ⟨0, 0, [], 0, 0⟩, bulkOut := noFifo ⟨0, 0, [], 0, 0⟩, intrReceiving := false, intrSeq := 0
    epBulkIn := 0, epBulkOut := 0, epIntrIn := 0, mpsBulkIn := 0, mpsBulkOut := 0, writes := []
    log := if ch.fd && !ch.connecting then [.peer] else [] }

/-- `host_chardev_open`: what it leaves for each kind of stream. -/
inductive Opened : Chardev → Prop
  | listen : Opened { kind := .listen, fd := false, connecting := false, newPeer := false }
  | dialled : Opened { kind := .dial, fd := true, connecting := false, newPeer := true }
  | dialling : Opened { kind := .dial, fd := true, connecting := true, newPeer := false }
  | refused : Opened { kind := .dial, fd := false, connecting := false, newPeer := false }
  | pty : Opened { kind := .pty, fd := true, connecting := false, newPeer := true }

end Be300.Usb
