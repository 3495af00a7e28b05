/-
  Be300.NetBridge.Guest — what the network bridge does with a guest frame
  (`tools/net_bridge/main.go`): `handleEthernet` and the handlers below it.

  Every index and slice expression is checked, as in `Packet`, and a loop has as many rounds
  as its buffer has bytes, after which it is `endless`. The resolver, dials and writes to a
  host connection are `Host`. The timers, the log and the wake-up channel decide nothing here.

  Proved (`handleEthernet_survives`): no frame is a fault, whatever the flow tables hold and
  whatever the host does; a DHCP reply holds all its options within its buffer, and a DNS
  reply is as long as what is written to it.
-/

import Be300.NetBridge.Packet
import Be300.NetBridge.Tcp

namespace Be300.NetBridge

open Lib.Slices
open Lib (at' Seq Ends Gives ends_ok ends_pure ends_bind ends_ite ends_mono gives_iff splice splice_length)

/-! ## The host and the flow tables -/

inductive LookupError where
  | notFound
  | other

structure Host where
  /-- `net.LookupIP`. -/
  lookupIP : List UInt8 → Except LookupError (List (List UInt8))
  /-- Whether `net.ResolveUDPAddr` and `net.DialUDP` succeed. -/
  dialUDP : FlowKey → Bool
  /-- Whether a write to a TCP flow's connection succeeds. -/
  write : FlowKey → List UInt8 → Bool

/-- A TCP flow with the addresses its frames are made of. -/
structure Flow where
  tcp : TcpFlow
  guestMAC : List UInt8
  guestIP : List UInt8
  guestPort : UInt16
  remoteIP : List UInt8
  remotePort : UInt16

structure UdpFlow where
  guestMAC : List UInt8
  guestIP : List UInt8
  guestPort : UInt16

structure Bridge where
  /-- Whether a browser is connected. -/
  client : Bool
  udp : FlowKey → Option UdpFlow
  tcp : FlowKey → Option Flow
  ipID : UInt16
  nextSeq : Seq
  /-- The frames the client was sent. -/
  sent : List (List UInt8)

def gatewayMAC : List UInt8 := [0x60, 0x50, 0x40, 0x30, 0x20, 0x10]
def bcastMAC : List UInt8 := [0xff, 0xff, 0xff, 0xff, 0xff, 0xff]
def gatewayIP : List UInt8 := [10, 0, 0, 254]
def guestIP : List UInt8 := [10, 0, 0, 1]
def zeroIP : List UInt8 := [0, 0, 0, 0]
def bcastIP : List UInt8 := [255, 255, 255, 255]

/-- The four bytes of an IPv4 address, also of one mapped to IPv6. -/
def to4 (ip : List UInt8) : Option (List UInt8) :=
  if ip.length = 4 then some ip
  else if ip.length = 16 ∧ ip.take 12 = zeros 10 ++ [0xff, 0xff] then some (ip.drop 12)
  else none

def sendEthernet (b : Bridge) (frame : List UInt8) : Bridge := if b.client then { b with sent := b.sent ++ [frame] } else b

def sendIP (b : Bridge) (dstMAC srcIP dstIP : List UInt8) (proto : UInt8) (payload : List UInt8) : Checked Bridge := do
  let packet ← ipv4 b.ipID srcIP dstIP proto payload
  let b := { b with ipID := b.ipID + 1 }
  return sendEthernet b (← ethernet dstMAC gatewayMAC ethIPv4 packet)

/-! ## ARP and ICMP -/

def handleARP (b : Bridge) (frame : List UInt8) : Checked Bridge := do
  if frame.length < 42 then return b
  if (← be16 (← sub frame 20 22)) ≠ 1 then return b
  let targetIP ← sub frame 38 42
  if targetIP = guestIP then return b
  let payload := zeros 28
  let payload ← put16 payload 0 2 1
  let payload ← put16 payload 2 4 ethIPv4
  let payload ← store payload 4 6
  let payload ← store payload 5 4
  let payload ← put16 payload 6 8 2
  let payload ← copy payload 8 14 gatewayMAC
  let payload ← copy payload 14 18 targetIP
  let payload ← copy payload 18 24 (← sub frame 6 12)
  let payload ← copy payload 24 28 (← sub frame 28 32)
  return sendEthernet b (← ethernet (← sub frame 6 12) gatewayMAC ethARP payload)

def handleICMP (b : Bridge) (ip : IPv4Packet) : Checked Bridge := do
  if ip.payload.length < 8 then return b
  if (← load ip.payload 0) ≠ 8 ∨ ip.dstIP ≠ gatewayIP then return b
  let reply ← store ip.payload 0 0
  let reply ← store reply 2 0
  let reply ← store reply 3 0
  let reply ← put16 reply 2 4 (← checksum reply)
  sendIP b ip.srcMAC gatewayIP ip.srcIP 1 reply

/-! ## DHCP -/

/-- The option's value, looked for from `off` on. -/
def dhcpOptionFrom (payload : List UInt8) (want : UInt8) : Nat → Nat → Checked (List UInt8)
  | 0, _ => .error .endless
  | rounds + 1, off =>
    if off < payload.length then do
      let code ← load payload off
      let off := off + 1
      if code = 0 then dhcpOptionFrom payload want rounds off
      else if code = 255 ∨ payload.length ≤ off then return []
      else
        let l := (← load payload off).toNat
        let off := off + 1
        if payload.length < off + l then return []
        else if code = want then sub payload off (off + l)
        else dhcpOptionFrom payload want rounds (off + l)
    else .ok []

def dhcpOption (payload : List UInt8) (want : UInt8) : Checked (List UInt8) :=
  dhcpOptionFrom payload want (payload.length + 1) 240

def dhcpType (payload : List UInt8) : Checked UInt8 := do
  let opt ← dhcpOption payload 53
  if opt.length > 0 then load opt 0 else return 0

def dhcpFlags (payload : List UInt8) : Checked UInt16 := do
  if payload.length < 12 then return 0
  be16 (← sub payload 10 12)

def dhcpBroadcast (payload : List UInt8) : Checked Bool := do return (← dhcpFlags payload) &&& 0x8000 != 0

def dhcpReplyMAC (ip : IPv4Packet) (req : List UInt8) : Checked (List UInt8) := do
  return if ← dhcpBroadcast req then bcastMAC else ip.srcMAC

def dhcpReplyIP (req : List UInt8) : Checked (List UInt8) := do
  if req.length ≥ 16 then
    let ciaddr ← sub req 12 16
    if ciaddr ≠ zeroIP then
      if ← dhcpBroadcast req then return bcastIP else return ciaddr
  return bcastIP

def dhcpOpt (buf : List UInt8) (off : Nat) (code : UInt8) (value : List UInt8) : Checked (List UInt8 × Nat) := do
  let buf ← store buf off code
  let buf ← store buf (off + 1) (UInt8.ofNat value.length)
  let buf ← copy buf (off + 2) buf.length value
  return (buf, off + 2 + value.length)

/-- The options of a reply, in the order they are written. -/
def dhcpReplyOptions (replyType : UInt8) : List (UInt8 × List UInt8) :=
  [(53, [replyType]), (1, [255, 0, 0, 0]), (3, gatewayIP), (6, gatewayIP), (54, gatewayIP), (51, [0, 1, 0x51, 0x80]),
    (15, [108, 111, 99, 97, 108]), (28, [10, 255, 255, 255]), (44, gatewayIP), (46, [8]), (47, [108, 111, 99, 97, 108])]

def dhcpOpts (buf : List UInt8) (off : Nat) (options : List (UInt8 × List UInt8)) : Checked (List UInt8 × Nat) :=
  options.foldlM (fun r o => dhcpOpt r.1 r.2 o.1 o.2) (buf, off)

/-- The reply's `body`. -/
def dhcpReply (req : List UInt8) (replyType : UInt8) : Checked (List UInt8) := do
  let payload := zeros 360
  let payload ← copy payload 0 payload.length (← sub req 0 (min req.length 240))
  let payload ← store payload 0 2
  let payload ← copy payload 16 20 guestIP
  let payload ← copy payload 20 24 gatewayIP
  let payload ← copy payload 108 payload.length [98, 101, 51, 48, 48]
  let payload ← copy payload 236 240 [99, 130, 83, 99]
  let (payload, off) ← dhcpOpts payload 240 (dhcpReplyOptions replyType)
  let payload ← store payload off 255
  sub payload 0 (off + 1)

def handleDHCP (b : Bridge) (ip : IPv4Packet) (req : List UInt8) : Checked Bridge := do
  if req.length < 240 then return b
  if (← sub req 236 240) ≠ [99, 130, 83, 99] then return b
  let msgType ← dhcpType req
  let replyType : UInt8 := if msgType = 3 then 5 else 2
  let _ciaddr ← sub req 12 16
  let _requestedIP ← dhcpOption req 50
  let _serverID ← dhcpOption req 54
  let _prl ← dhcpOption req 55
  let body ← dhcpReply req replyType
  let dstIP ← dhcpReplyIP req
  let dstMAC ← dhcpReplyMAC ip req
  let udp ← udpPacket gatewayIP dstIP 67 68 body
  return sendEthernet b (← ethernet dstMAC gatewayMAC ethIPv4 udp)

/-! ## DNS -/

/-- The labels from `off` on and where they end, or nothing for a label that is compressed or
    too long: the loop of `dnsQuestion` and of `dnsQuestionEnd`. -/
def dnsLabels (query : List UInt8) : Nat → Nat → List (List UInt8) → Checked (Option (List (List UInt8) × Nat))
  | 0, _, _ => .error .endless
  | rounds + 1, off, labels =>
    if off < query.length then do
      let l := (← load query off)
      let off := off + 1
      if l = 0 then return some (labels, off)
      else if l &&& 0xc0 ≠ 0 ∨ query.length < off + l.toNat then return none
      else dnsLabels query rounds (off + l.toNat) (labels ++ [← sub query off (off + l.toNat)])
    else .ok (some (labels, off))

structure DnsQ where
  name : List UInt8
  qtype : UInt16
  qclass : UInt16

def dnsQuestion (query : List UInt8) : Checked DnsQ := do
  match ← dnsLabels query (query.length + 1) 12 [] with
  | none => return ⟨[], 0, 0⟩
  | some (labels, off) =>
    if query.length < off + 4 ∨ labels.length = 0 then return ⟨[], 0, 0⟩
    return ⟨List.intercalate [46] labels, ← be16 (← sub query off (off + 2)), ← be16 (← sub query (off + 2) (off + 4))⟩

def dnsQuestionEnd (query : List UInt8) : Checked Nat := do
  match ← dnsLabels query (query.length + 1) 12 [] with
  | none => return 0
  | some (_, off) => if query.length < off + 4 then return 0 else return off + 4

/-- One answer at `off`. -/
def dnsAnswer (resp : List UInt8) (off : Nat) (ip : List UInt8) : Checked (List UInt8) := do
  let resp ← store resp off 0xc0
  let resp ← store resp (off + 1) 0x0c
  let resp ← put16 resp (off + 2) (off + 4) 1
  let resp ← put16 resp (off + 4) (off + 6) 1
  let resp ← put32 resp (off + 6) (off + 10) 60
  let resp ← put16 resp (off + 10) (off + 12) 4
  copy resp (off + 12) (off + 16) ((to4 ip).getD [])

def dnsAnswers (resp : List UInt8) (off : Nat) (answers : List (List UInt8)) : Checked (List UInt8 × Nat) :=
  answers.foldlM (fun r ip => do return (← dnsAnswer r.1 r.2 ip, r.2 + 16)) (resp, off)

def dnsResponse (query : List UInt8) (answers : List (List UInt8)) (rcode : UInt8) : Checked (List UInt8) := do
  let stop ← dnsQuestionEnd query
  if stop = 0 then return []
  let resp := zeros (stop + answers.length * 16)
  let resp ← copy resp 0 resp.length (← sub query 0 stop)
  let resp ← store resp 2 (0x80 ||| ((← load query 2) &&& 0x79))
  let resp ← store resp 3 (0x80 ||| (rcode &&& 0x0f))
  let resp ← put16 resp 6 8 (UInt16.ofNat answers.length)
  let resp ← put16 resp 8 10 0
  let resp ← put16 resp 10 12 0
  return (← dnsAnswers resp stop answers).1

def handleDNS (h : Host) (b : Bridge) (ip : IPv4Packet) (srcPort : UInt16) (query : List UInt8) : Checked Bridge := do
  let q ← dnsQuestion query
  let (answers, rcode) : List (List UInt8) × UInt8 :=
    if q.name ≠ [] ∧ q.qclass = 1 ∧ (q.qtype = 1 ∨ q.qtype = 255) then
      match h.lookupIP q.name with
      | .ok ips => ((ips.filterMap to4).take 4, 0)
      | .error .notFound => ([], 3)
      | .error .other => ([], 2)
    else ([], 0)
  let response ← dnsResponse query answers rcode
  if response.length = 0 then return b
  let serverIP := if ip.dstIP = zeroIP ∨ ip.dstIP = bcastIP then gatewayIP else ip.dstIP
  let udp ← udpPacket serverIP ip.srcIP 53 srcPort response
  return sendEthernet b (← ethernet ip.srcMAC gatewayMAC ethIPv4 udp)

/-! ## UDP and TCP -/

def flowKey (ip : IPv4Packet) (srcPort dstPort : UInt16) : FlowKey := ⟨num ip.srcIP, srcPort.toNat, num ip.dstIP, dstPort.toNat⟩

/-- The body goes to the flow's connection, which is not modelled. -/
def proxyUDP (h : Host) (b : Bridge) (ip : IPv4Packet) (srcPort dstPort : UInt16) : Bridge :=
  let key := flowKey ip srcPort dstPort
  match b.udp key with
  | some _ => b
  | none =>
    if h.dialUDP key then { b with udp := fun k => if k = key then some ⟨ip.srcMAC, ip.srcIP, srcPort⟩ else b.udp k } else b

def handleUDP (h : Host) (b : Bridge) (ip : IPv4Packet) : Checked Bridge := do
  if ip.payload.length < 8 then return b
  let srcPort ← be16 (← sub ip.payload 0 2)
  let dstPort ← be16 (← sub ip.payload 2 4)
  let udpLen := (← be16 (← sub ip.payload 4 6)).toNat
  if udpLen < 8 ∨ ip.payload.length < udpLen then return b
  let body ← sub ip.payload 8 udpLen
  if srcPort = 68 ∧ dstPort = 67 then handleDHCP b ip body
  else if dstPort = 53 then handleDNS h b ip srcPort body
  else return proxyUDP h b ip srcPort dstPort

def setFlow (b : Bridge) (key : FlowKey) (f : Option Flow) : Bridge :=
  { b with tcp := fun k => if k = key then f else b.tcp k }

def sendTCPAt (b : Bridge) (f : Flow) (seq : Seq) (flags : UInt8) (data : List UInt8) : Checked Bridge := do
  let tcp ← tcpPacket f.remoteIP f.guestIP f.remotePort f.guestPort seq f.tcp.clientNext flags data
  return sendEthernet b (← ethernet f.guestMAC gatewayMAC ethIPv4 tcp)

def sendTCP (b : Bridge) (f : Flow) (flags : UInt8) (data : List UInt8) : Checked Bridge :=
  sendTCPAt b f f.tcp.serverNext flags data

/-- The acknowledgement of a segment, taken from its bytes. -/
def readACK (f : TcpFlow) (payload : List UInt8) (flags : UInt8) : Checked TcpFlow := do
  if flags &&& 0x10 ≠ 0 then
    let ack ← be32 (← sub payload 8 12)
    if 0 ≤ (ack - f.serverAck).toInt ∧ 0 ≤ (f.serverNext - ack).toInt then
      let window ← be16 (← sub payload 14 16)
      return { f with serverAck := ack, peerWindow := window.toNat }
  return f

/-- The part of `data` that is new. -/
def cutData (f : TcpFlow) (seq : Seq) (data : List UInt8) : Checked (List UInt8) :=
  let skip := (f.clientNext - seq).toInt
  if 0 ≤ skip ∧ skip ≤ data.length then sub data skip.toNat data.length else .ok []

/-- `handleTCP` under the flow's lock. -/
def lockedTCP (f : TcpFlow) (payload : List UInt8) (off : Nat) (seq : Seq) (flags : UInt8) : Checked (TcpFlow × Locals) := do
  let f ← readACK f payload flags
  let data ← cutData f seq (← sub payload off payload.length)
  let f := takeData f data
  let whole ← sub payload off payload.length
  let fin := flags &&& 0x01 != 0 && seq + BitVec.ofNat 32 whole.length == f.clientNext && !f.clientFIN
  return (if fin then takeFIN f else f,
    { data := if f.connected then data else []
      conn := f.conn
      reply := !whole.isEmpty || flags &&& 0x01 != 0
      fin := fin })

def closeTCP (b : Bridge) (key : FlowKey) : Bridge := setFlow b key none

def openFlow (b : Bridge) (key : FlowKey) (ip : IPv4Packet) (srcPort dstPort : UInt16) (seq : Seq) : Bridge × Flow :=
  let f : Flow :=
    { tcp := openTCP key b.nextSeq seq
      guestMAC := ip.srcMAC
      guestIP := ip.srcIP
      guestPort := srcPort
      remoteIP := ip.dstIP
      remotePort := dstPort }
  (setFlow { b with nextSeq := b.nextSeq + 0x10000 } key (some f), f)

/-- The flow of a SYN, opened when there is none. -/
def ensureFlow (b : Bridge) (key : FlowKey) (ip : IPv4Packet) (srcPort dstPort : UInt16) (seq : Seq) : Bridge × Flow :=
  match b.tcp key with
  | some f => (b, f)
  | none => openFlow b key ip srcPort dstPort seq

def handleTCP (h : Host) (b : Bridge) (ip : IPv4Packet) : Checked Bridge := do
  if ip.payload.length < 20 then return b
  let srcPort ← be16 (← sub ip.payload 0 2)
  let dstPort ← be16 (← sub ip.payload 2 4)
  let seq ← be32 (← sub ip.payload 4 8)
  let off := ((← load ip.payload 12) >>> 4).toNat * 4
  let flags ← load ip.payload 13
  if off < 20 ∨ ip.payload.length < off then return b
  let key := flowKey ip srcPort dstPort
  if flags &&& 0x02 ≠ 0 then
    let r := ensureFlow b key ip srcPort dstPort seq
    let window ← be16 (← sub ip.payload 14 16)
    let f := { r.2 with tcp := { r.2.tcp with peerWindow := window.toNat } }
    sendTCPAt (setFlow r.1 key (some f)) f f.tcp.serverISN 0x12 []
  else
    match b.tcp key with
    | none => return b
    | some f =>
      if flags &&& 0x04 ≠ 0 then return closeTCP b key
      let (tcp, l) ← lockedTCP f.tcp ip.payload off seq flags
      let f := { f with tcp := tcp }
      let b := setFlow b key (some f)
      if l.data ≠ [] ∧ l.conn ∧ ¬ h.write key l.data then
        return closeTCP (← sendTCP b f 0x14 []) key
      if l.reply then sendTCP b f 0x10 [] else return b

def handleEthernet (h : Host) (b : Bridge) (frame : List UInt8) : Checked Bridge := do
  if frame.length < 14 then return b
  let typ ← be16 (← sub frame 12 14)
  if typ = ethARP then handleARP b frame
  else if typ = ethIPv4 then
    match ← parseIPv4 frame with
    | none => return b
    | some ip =>
      if ip.proto = 1 then handleICMP b ip
      else if ip.proto = 6 then handleTCP h b ip
      else if ip.proto = 17 then handleUDP h b ip
      else return b
  else return b

/-! ## The builders give a packet -/

abbrev Fine {α : Type} (x : Checked α) : Prop := Gives (fun _ => True) x

theorem fine_ok {α : Type} {a : α} : Fine (.ok a : Checked α) := ends_ok trivial

section Builders

variable {b c : List UInt8} {i j : Nat}

theorem be16_gives (h : b.length = 2) : Fine (be16 b) := by
  apply ends_bind (number_gives (by omega))
  intro n hn
  exact fine_ok

theorem be32_gives (h : b.length = 4) : Fine (be32 b) := by
  apply ends_bind (number_gives (by omega))
  intro n hn
  exact fine_ok

theorem put16_gives {v : UInt16} (hij : i + 2 ≤ j) (hj : j ≤ b.length) : Gives (fun c => c.length = b.length) (put16 b i j v) :=
  put_gives hij hj

theorem put32_gives {v : Seq} (hij : i + 4 ≤ j) (hj : j ≤ b.length) : Gives (fun c => c.length = b.length) (put32 b i j v) :=
  put_gives hij hj

@[simp] theorem zeros_length (n : Nat) : (zeros n).length = n := List.length_replicate ..

theorem checksum_gives (b : List UInt8) : Fine (checksum b) := by
  rw [checksum_eq]
  exact fine_ok

theorem transportChecksum_gives (proto : UInt8) (srcIP dstIP segment : List UInt8) :
    Fine (transportChecksum proto srcIP dstIP segment) := by
  unfold transportChecksum
  have hlen := zeros_length (12 + segment.length + segment.length % 2)
  apply ends_bind (copy_gives (by omega) (by omega) srcIP)
  intro p1 h1
  apply ends_bind (copy_gives (by omega) (by omega) dstIP)
  intro p2 h2
  apply ends_bind (store_gives (by omega))
  intro p3 h3
  apply ends_bind (put16_gives (by omega) (by omega))
  intro p4 h4
  apply ends_bind (copy_gives (by omega) (Nat.le_refl _) segment)
  intro p5 h5
  exact checksum_gives p5

theorem ethernet_gives (dstMAC srcMAC : List UInt8) (typ : UInt16) (payload : List UInt8) :
    Fine (ethernet dstMAC srcMAC typ payload) := by
  unfold ethernet
  have hlen : 14 ≤ (zeros (if 14 + payload.length < minEthernetFrame then minEthernetFrame else 14 + payload.length)).length := by
    rw [zeros_length]
    unfold minEthernetFrame
    split <;> omega
  generalize zeros (if 14 + payload.length < minEthernetFrame then minEthernetFrame else 14 + payload.length) = frame at hlen
  apply ends_bind (copy_gives (by omega) (by omega) dstMAC)
  intro p1 h1
  apply ends_bind (copy_gives (by omega) (by omega) srcMAC)
  intro p2 h2
  apply ends_bind (put16_gives (by omega) (by omega))
  intro p3 h3
  exact ends_mono (copy_gives (by omega) (Nat.le_refl _) payload) fun _ _ => trivial

theorem packetOf_gives (proto : UInt8) (srcIP dstIP segment : List UInt8) : Fine (packetOf proto srcIP dstIP segment) := by
  unfold packetOf
  have hlen := zeros_length (20 + segment.length)
  generalize zeros (20 + segment.length) = p0 at hlen ⊢
  apply ends_bind (store_gives (by omega))
  intro p1 h1
  apply ends_bind (store_gives (by omega))
  intro p2 h2
  apply ends_bind (store_gives (by omega))
  intro p3 h3
  apply ends_bind (put16_gives (by omega) (by omega))
  intro p4 h4
  apply ends_bind (copy_gives (by omega) (by omega) srcIP)
  intro p5 h5
  apply ends_bind (copy_gives (by omega) (by omega) dstIP)
  intro p6 h6
  apply ends_bind (copy_gives (by omega) (Nat.le_refl _) segment)
  intro p7 h7
  apply ends_bind (sub_gives (by omega) (by omega))
  intro head hhead
  apply ends_bind (checksum_gives head)
  intro c hc
  exact ends_mono (put16_gives (by omega) (by omega)) fun _ _ => trivial

theorem ipv4_gives (id : UInt16) (srcIP dstIP : List UInt8) (proto : UInt8) (payload : List UInt8) :
    Fine (ipv4 id srcIP dstIP proto payload) := by
  unfold ipv4
  have hlen := zeros_length (20 + payload.length)
  generalize zeros (20 + payload.length) = p0 at hlen ⊢
  apply ends_bind (store_gives (by omega))
  intro p1 h1
  apply ends_bind (store_gives (by omega))
  intro p2 h2
  apply ends_bind (store_gives (by omega))
  intro p3 h3
  apply ends_bind (put16_gives (by omega) (by omega))
  intro p4 h4
  apply ends_bind (put16_gives (by omega) (by omega))
  intro p5 h5
  apply ends_bind (copy_gives (by omega) (by omega) srcIP)
  intro p6 h6
  apply ends_bind (copy_gives (by omega) (by omega) dstIP)
  intro p7 h7
  apply ends_bind (copy_gives (by omega) (Nat.le_refl _) payload)
  intro p8 h8
  apply ends_bind (sub_gives (by omega) (by omega))
  intro head hhead
  apply ends_bind (checksum_gives head)
  intro c hc
  exact ends_mono (put16_gives (by omega) (by omega)) fun _ _ => trivial

theorem udpPacket_gives (srcIP dstIP : List UInt8) (srcPort dstPort : UInt16) (body : List UInt8) :
    Fine (udpPacket srcIP dstIP srcPort dstPort body) := by
  obtain ⟨c, hc, -⟩ := gives_iff.mp (transportChecksum_gives 17 srcIP dstIP
    (udpHeader srcPort dstPort (UInt16.ofNat (8 + body.length)) 0 ++ body))
  rw [udpPacket_eq srcIP dstIP srcPort dstPort body hc]
  exact packetOf_gives ..

theorem tcpPacket_gives (srcIP dstIP : List UInt8) (srcPort dstPort : UInt16) (seq ack : Seq) (flags : UInt8)
    (body : List UInt8) : Fine (tcpPacket srcIP dstIP srcPort dstPort seq ack flags body) := by
  obtain ⟨c, hc, -⟩ := gives_iff.mp (transportChecksum_gives 6 srcIP dstIP (tcpHeader srcPort dstPort seq ack flags 0 ++ body))
  rw [tcpPacket_eq srcIP dstIP srcPort dstPort seq ack flags body hc]
  generalize tcpHeader srcPort dstPort seq ack flags c ++ body = segment
  exact packetOf_gives 6 srcIP dstIP segment

end Builders

/-! ## ARP and ICMP -/

theorem sendIP_gives (b : Bridge) (dstMAC srcIP dstIP : List UInt8) (proto : UInt8) (payload : List UInt8) :
    Fine (sendIP b dstMAC srcIP dstIP proto payload) := by
  unfold sendIP
  apply ends_bind (ipv4_gives ..)
  intro packet _
  apply ends_bind (ethernet_gives ..)
  intro frame _
  exact fine_ok

theorem handleARP_gives (b : Bridge) (frame : List UInt8) : Fine (handleARP b frame) := by
  unfold handleARP
  apply ends_ite
  · intro h
    exact fine_ok
  · intro h
    have hlen := zeros_length 28
    generalize zeros 28 = p0 at hlen ⊢
    apply ends_bind (sub_gives (by decide) (by omega))
    intro op hop
    apply ends_bind (be16_gives hop)
    intro v _
    apply ends_ite
    · intro hv
      exact fine_ok
    intro hv
    apply ends_bind (sub_gives (by decide) (by omega))
    intro targetIP htarget
    apply ends_ite
    · intro hguest
      exact fine_ok
    intro hguest
    apply ends_bind (put16_gives (by decide) (by omega))
    intro p1 h1
    apply ends_bind (put16_gives (by decide) (by omega))
    intro p2 h2
    apply ends_bind (store_gives (by omega))
    intro p3 h3
    apply ends_bind (store_gives (by omega))
    intro p4 h4
    apply ends_bind (put16_gives (by decide) (by omega))
    intro p5 h5
    apply ends_bind (copy_gives (by decide) (by omega) gatewayMAC)
    intro p6 h6
    apply ends_bind (copy_gives (by decide) (by omega) targetIP)
    intro p7 h7
    apply ends_bind (sub_gives (by decide) (by omega))
    intro senderMAC _
    apply ends_bind (copy_gives (by decide) (by omega) senderMAC)
    intro p8 h8
    apply ends_bind (sub_gives (by decide) (by omega))
    intro senderIP _
    apply ends_bind (copy_gives (by decide) (by omega) senderIP)
    intro p9 h9
    apply ends_bind (sub_gives (by decide) (by omega))
    intro dstMAC _
    apply ends_bind (ethernet_gives ..)
    intro reply _
    exact fine_ok

theorem handleICMP_gives (b : Bridge) (ip : IPv4Packet) : Fine (handleICMP b ip) := by
  unfold handleICMP
  apply ends_ite
  · intro h
    exact fine_ok
  · intro h
    apply ends_bind (load_gives (by omega))
    intro type _
    apply ends_ite
    · intro hother
      exact fine_ok
    intro hecho
    apply ends_bind (store_gives (by omega))
    intro p1 h1
    apply ends_bind (store_gives (by omega))
    intro p2 h2
    apply ends_bind (store_gives (by omega))
    intro p3 h3
    apply ends_bind (checksum_gives p3)
    intro c _
    apply ends_bind (put16_gives (by decide) (by omega))
    intro p4 h4
    exact sendIP_gives ..

/-! ## DHCP -/

/-- A round takes the walk forward, so it ends before its rounds do. -/
theorem dhcpOptionFrom_gives (payload : List UInt8) (want : UInt8) {rounds off : Nat} (h : payload.length - off < rounds) :
    Fine (dhcpOptionFrom payload want rounds off) := by
  induction rounds generalizing off with
  | zero => omega
  | succ rounds ih =>
    unfold dhcpOptionFrom
    apply ends_ite
    · intro hoff
      apply ends_bind (load_gives hoff)
      intro code _
      apply ends_ite
      · intro hpad
        exact ih (by omega)
      intro hcode
      apply ends_ite
      · intro hstop
        exact fine_ok
      intro hmore
      apply ends_bind (load_gives (by omega))
      intro l _
      apply ends_ite
      · intro hlong
        exact fine_ok
      intro hfits
      apply ends_ite
      · intro hfound
        exact ends_mono (sub_gives (by omega) (by omega)) fun _ _ => trivial
      intro hother
      exact ih (by omega)
    · intro hoff
      exact fine_ok

theorem dhcpOption_gives (payload : List UInt8) (want : UInt8) : Fine (dhcpOption payload want) :=
  dhcpOptionFrom_gives payload want (by omega)

theorem dhcpType_gives (payload : List UInt8) : Fine (dhcpType payload) := by
  apply ends_bind (dhcpOption_gives payload 53)
  intro opt _
  apply ends_ite
  · intro h
    exact load_gives h
  · intro h
    exact fine_ok

theorem dhcpFlags_gives (payload : List UInt8) : Fine (dhcpFlags payload) := by
  unfold dhcpFlags
  apply ends_ite
  · intro h
    exact fine_ok
  · intro h
    apply ends_bind (sub_gives (by decide) (by omega))
    intro b hb
    exact be16_gives hb

theorem dhcpBroadcast_gives (payload : List UInt8) : Fine (dhcpBroadcast payload) := by
  apply ends_bind (dhcpFlags_gives payload)
  intro flags _
  exact fine_ok

theorem dhcpReplyMAC_gives (ip : IPv4Packet) (req : List UInt8) : Fine (dhcpReplyMAC ip req) := by
  apply ends_bind (dhcpBroadcast_gives req)
  intro broadcast _
  exact fine_ok

theorem dhcpReplyIP_gives (req : List UInt8) : Fine (dhcpReplyIP req) := by
  unfold dhcpReplyIP
  apply ends_ite
  · intro h
    apply ends_bind (sub_gives (by decide) (by omega))
    intro ciaddr _
    apply ends_ite
    · intro hzero
      apply ends_bind (dhcpBroadcast_gives req)
      intro broadcast _
      apply ends_ite
      · intro hbroadcast
        exact fine_ok
      · intro hbroadcast
        exact fine_ok
    · intro hzero
      exact fine_ok
  · intro h
    exact fine_ok

/-- An option's bytes. -/
def dhcpBytes (o : UInt8 × List UInt8) : List UInt8 := o.1 :: UInt8.ofNat o.2.length :: o.2

/-- An option that fits goes behind what is written. -/
theorem dhcpOpt_gives {buf value : List UInt8} {off : Nat} {code : UInt8} (h : off + 2 + value.length ≤ buf.length) :
    Gives (fun r => r.1.length = buf.length ∧ r.2 = off + 2 + value.length ∧
      r.1.take r.2 = buf.take off ++ dhcpBytes (code, value)) (dhcpOpt buf off code value) := by
  have hcode : off < buf.length := by omega
  have hlength : off + 1 < (buf.set off code).length := by
    rw [List.length_set]
    omega
  have hlen : ((buf.set off code).set (off + 1) (UInt8.ofNat value.length)).length = buf.length := by
    rw [List.length_set, List.length_set]
  have hcopy : copy ((buf.set off code).set (off + 1) (UInt8.ofNat value.length)) (off + 2)
      ((buf.set off code).set (off + 1) (UInt8.ofNat value.length)).length value = .ok (splice
        ((buf.set off code).set (off + 1) (UInt8.ofNat value.length)) (off + 2) (off + 2 + value.length) value) :=
    copy_ok (by omega) (Nat.le_refl _)
  unfold dhcpOpt
  rw [store_ok hcode]
  simp only [bind, Except.bind]
  rw [store_ok hlength]
  simp only
  rw [hcopy]
  apply ends_ok
  refine ⟨?_, rfl, ?_⟩
  · exact (splice_length rfl (by omega)).trans hlen
  · apply (splice_take (by omega)).trans
    rw [set_take hlength, set_take hcode]
    simp [dhcpBytes]

theorem dhcpOpts_gives {buf : List UInt8} {off : Nat} {options : List (UInt8 × List UInt8)}
    (h : off + (options.flatMap dhcpBytes).length ≤ buf.length) :
    Gives (fun r => r.1.length = buf.length ∧ r.2 = off + (options.flatMap dhcpBytes).length ∧
      r.1.take r.2 = buf.take off ++ options.flatMap dhcpBytes) (dhcpOpts buf off options) := by
  induction options generalizing buf off with
  | nil => exact ends_ok ⟨rfl, rfl, (List.append_nil _).symm⟩
  | cons o options ih =>
    have hbytes : (dhcpBytes o).length = 2 + o.2.length := by
      simp only [dhcpBytes, List.length_cons]
      omega
    rw [List.flatMap_cons, List.length_append] at h ⊢
    unfold dhcpOpts
    rw [List.foldlM_cons]
    have hfits : off + 2 + o.2.length ≤ buf.length := by omega
    apply ends_bind (dhcpOpt_gives hfits)
    rintro ⟨buf', off'⟩ ⟨hlen, hoff, htake⟩
    simp only at hlen hoff htake
    have hrest : off' + (options.flatMap dhcpBytes).length ≤ buf'.length := by omega
    apply ends_mono (ih hrest)
    rintro ⟨buf'', off''⟩ ⟨hlen', hoff', htake'⟩
    refine ⟨hlen'.trans hlen, ?_, ?_⟩
    · simp only at hoff' ⊢
      omega
    · rw [htake', htake, List.append_assoc]

/-- The reply is a header of 240 bytes, all the options and the end mark. -/
theorem dhcpReply_gives (req : List UInt8) (replyType : UInt8) :
    Gives (fun body => ∃ head : List UInt8, head.length = 240 ∧
      body = head ++ (dhcpReplyOptions replyType).flatMap dhcpBytes ++ [255]) (dhcpReply req replyType) := by
  have hlen := zeros_length 360
  have hoptions : ((dhcpReplyOptions replyType).flatMap dhcpBytes).length = 62 := rfl
  unfold dhcpReply
  generalize zeros 360 = p0 at hlen ⊢
  apply ends_bind (sub_gives (Nat.zero_le _) (Nat.min_le_left _ _))
  intro header _
  apply ends_bind (copy_gives (Nat.zero_le _) (Nat.le_refl _) header)
  intro p1 h1
  apply ends_bind (store_gives (by omega))
  intro p2 h2
  apply ends_bind (copy_gives (by decide) (by omega) guestIP)
  intro p3 h3
  apply ends_bind (copy_gives (by decide) (by omega) gatewayIP)
  intro p4 h4
  apply ends_bind (copy_gives (by omega) (Nat.le_refl _) [98, 101, 51, 48, 48])
  intro p5 h5
  apply ends_bind (copy_gives (by decide) (by omega) [99, 130, 83, 99])
  intro p6 h6
  apply ends_bind (dhcpOpts_gives (by rw [hoptions]; omega))
  rintro ⟨p7, off⟩ ⟨h7, hoff, htake⟩
  simp only at h7 hoff htake
  have hend : off < p7.length := by omega
  dsimp only
  rw [store_ok hend]
  have hsub : sub (p7.set off 255) 0 (off + 1) = .ok ((p7.set off 255).take (off + 1)) := sub_ok (Nat.zero_le _) (by
    rw [List.length_set]
    omega)
  simp only [bind, Except.bind]
  rw [hsub, set_take hend, htake]
  apply ends_ok
  refine ⟨p6.take 240, ?_, rfl⟩
  rw [List.length_take]
  omega

theorem handleDHCP_gives (b : Bridge) (ip : IPv4Packet) (req : List UInt8) : Fine (handleDHCP b ip req) := by
  unfold handleDHCP
  apply ends_ite
  · intro h
    exact fine_ok
  · intro h
    apply ends_bind (sub_gives (by decide) (by omega))
    intro cookie _
    apply ends_ite
    · intro hcookie
      exact fine_ok
    intro hcookie
    apply ends_bind (dhcpType_gives req)
    intro msgType _
    apply ends_bind (sub_gives (by decide) (by omega))
    intro ciaddr _
    apply ends_bind (dhcpOption_gives req 50)
    intro requestedIP _
    apply ends_bind (dhcpOption_gives req 54)
    intro serverID _
    apply ends_bind (dhcpOption_gives req 55)
    intro prl _
    apply ends_bind (dhcpReply_gives req _)
    intro body _
    apply ends_bind (dhcpReplyIP_gives req)
    intro dstIP _
    apply ends_bind (dhcpReplyMAC_gives ip req)
    intro dstMAC _
    apply ends_bind (udpPacket_gives ..)
    intro udp _
    apply ends_bind (ethernet_gives ..)
    intro frame _
    exact fine_ok

/-! ## DNS -/

theorem dnsLabels_gives (query : List UInt8) {rounds off : Nat} (labels : List (List UInt8)) (h : query.length - off < rounds) :
    Gives (fun r => ∀ q ∈ r, off ≤ q.2) (dnsLabels query rounds off labels) := by
  induction rounds generalizing off labels with
  | zero => omega
  | succ rounds ih =>
    unfold dnsLabels
    apply ends_ite
    · intro hoff
      apply ends_bind (load_gives hoff)
      intro l _
      apply ends_ite
      · intro hzero
        apply ends_ok
        rintro q ⟨⟩
        exact Nat.le_succ off
      intro hlabel
      apply ends_ite
      · intro hstop
        apply ends_ok
        rintro q ⟨⟩
      intro hmore
      have hfits : off + 1 + l.toNat ≤ query.length := by omega
      apply ends_bind (sub_gives (by omega) hfits)
      intro label _
      apply ends_mono (ih _ (by omega))
      intro r hr q hq
      have := hr q hq
      omega
    · intro hoff
      apply ends_ok
      rintro q ⟨⟩
      exact Nat.le_refl off

theorem dnsQuestion_gives (query : List UInt8) : Fine (dnsQuestion query) := by
  apply ends_bind (dnsLabels_gives query [] (by omega))
  rintro (_ | ⟨labels, off⟩) hoff
  · exact fine_ok
  · apply ends_ite
    · intro hshort
      exact fine_ok
    intro hlong
    apply ends_bind (sub_gives (by omega) (by omega))
    intro b1 h1
    apply ends_bind (be16_gives (by omega))
    intro qtype _
    apply ends_bind (sub_gives (by omega) (by omega))
    intro b2 h2
    apply ends_bind (be16_gives (by omega))
    intro qclass _
    exact fine_ok

/-- A question that is there ends inside the query, behind a header of 12 bytes. -/
theorem dnsQuestionEnd_gives (query : List UInt8) :
    Gives (fun stop => stop ≠ 0 → 16 ≤ stop ∧ stop ≤ query.length) (dnsQuestionEnd query) := by
  apply ends_bind (dnsLabels_gives query [] (by omega))
  rintro (_ | ⟨labels, off⟩) hoff
  · exact ends_ok fun h => absurd rfl h
  · have hstart : 12 ≤ off := hoff _ rfl
    apply ends_ite
    · intro hshort
      exact ends_ok fun h => absurd rfl h
    · intro hlong
      apply ends_ok
      intro _
      omega

theorem dnsAnswer_gives {resp : List UInt8} {off : Nat} (ip : List UInt8) (h : off + 16 ≤ resp.length) :
    Gives (fun r => r.length = resp.length) (dnsAnswer resp off ip) := by
  unfold dnsAnswer
  apply ends_bind (store_gives (by omega))
  intro p1 h1
  apply ends_bind (store_gives (by omega))
  intro p2 h2
  apply ends_bind (put16_gives (by omega) (by omega))
  intro p3 h3
  apply ends_bind (put16_gives (by omega) (by omega))
  intro p4 h4
  apply ends_bind (put32_gives (by omega) (by omega))
  intro p5 h5
  apply ends_bind (put16_gives (by omega) (by omega))
  intro p6 h6
  apply ends_mono (copy_gives (by omega) (by omega) _)
  intro p7 h7
  omega

theorem dnsAnswers_gives {resp : List UInt8} {off : Nat} {answers : List (List UInt8)}
    (h : off + answers.length * 16 ≤ resp.length) :
    Gives (fun r => r.1.length = resp.length ∧ r.2 = off + answers.length * 16) (dnsAnswers resp off answers) := by
  induction answers generalizing resp off with
  | nil => exact ends_ok ⟨rfl, rfl⟩
  | cons ip answers ih =>
    rw [List.length_cons] at h ⊢
    have hfits : off + 16 ≤ resp.length := by omega
    unfold dnsAnswers
    rw [List.foldlM_cons]
    apply ends_bind (P := fun r => r.1.length = resp.length ∧ r.2 = off + 16)
    · apply ends_bind (dnsAnswer_gives ip hfits)
      intro resp' hlen
      exact ends_ok ⟨hlen, rfl⟩
    · rintro ⟨resp', off'⟩ ⟨hlen, hoff⟩
      simp only at hlen hoff
      have hrest : off' + answers.length * 16 ≤ resp'.length := by omega
      apply ends_mono (ih hrest)
      rintro ⟨resp'', off''⟩ ⟨hlen', hoff'⟩
      simp only at hlen' hoff' ⊢
      omega

/-- The reply is empty, or the question and 16 bytes for each answer. -/
theorem dnsResponse_gives (query : List UInt8) (answers : List (List UInt8)) (rcode : UInt8) :
    Gives (fun resp => resp = [] ∨ ∃ stop, dnsQuestionEnd query = .ok stop ∧ resp.length = stop + answers.length * 16)
      (dnsResponse query answers rcode) := by
  obtain ⟨stop, hstop, hinside⟩ := gives_iff.mp (dnsQuestionEnd_gives query)
  unfold dnsResponse
  rw [hstop]
  simp only [bind, Except.bind]
  apply ends_ite
  · intro hnone
    exact ends_ok (.inl rfl)
  · intro hsome
    obtain ⟨hlow, hhigh⟩ := hinside hsome
    have hlen := zeros_length (stop + answers.length * 16)
    generalize zeros (stop + answers.length * 16) = p0 at hlen ⊢
    apply ends_bind (sub_gives (Nat.zero_le _) hhigh)
    intro question _
    apply ends_bind (copy_gives (Nat.zero_le _) (Nat.le_refl _) question)
    intro p1 h1
    apply ends_bind (load_gives (by omega))
    intro flags _
    apply ends_bind (store_gives (by omega))
    intro p2 h2
    apply ends_bind (store_gives (by omega))
    intro p3 h3
    apply ends_bind (put16_gives (by decide) (by omega))
    intro p4 h4
    apply ends_bind (put16_gives (by decide) (by omega))
    intro p5 h5
    apply ends_bind (put16_gives (by decide) (by omega))
    intro p6 h6
    have hroom : stop + answers.length * 16 ≤ p6.length := by omega
    apply ends_bind (dnsAnswers_gives hroom)
    rintro ⟨p7, off⟩ ⟨h7, -⟩
    apply ends_ok
    right
    refine ⟨stop, rfl, ?_⟩
    dsimp only at h7 ⊢
    omega

theorem handleDNS_gives (h : Host) (b : Bridge) (ip : IPv4Packet) (srcPort : UInt16) (query : List UInt8) :
    Fine (handleDNS h b ip srcPort query) := by
  unfold handleDNS
  apply ends_bind (dnsQuestion_gives query)
  intro q _
  dsimp only
  apply ends_bind (dnsResponse_gives query _ _)
  intro response _
  apply ends_ite
  · intro hempty
    exact fine_ok
  intro hresponse
  apply ends_bind (udpPacket_gives ..)
  intro udp _
  apply ends_bind (ethernet_gives ..)
  intro frame _
  exact fine_ok

/-! ## UDP and TCP -/

theorem handleUDP_gives (h : Host) (b : Bridge) (ip : IPv4Packet) : Fine (handleUDP h b ip) := by
  unfold handleUDP
  apply ends_ite
  · intro hshort
    exact fine_ok
  intro hlen
  apply ends_bind (sub_gives (by decide) (by omega))
  intro b1 h1
  apply ends_bind (be16_gives (by omega))
  intro srcPort _
  apply ends_bind (sub_gives (by decide) (by omega))
  intro b2 h2
  apply ends_bind (be16_gives (by omega))
  intro dstPort _
  apply ends_bind (sub_gives (by decide) (by omega))
  intro b3 h3
  apply ends_bind (be16_gives (by omega))
  intro udpLen _
  apply ends_ite
  · intro hout
    exact fine_ok
  intro hin
  apply ends_bind (sub_gives (by omega) (by omega))
  intro body _
  apply ends_ite
  · intro hdhcp
    exact handleDHCP_gives ..
  intro hother
  apply ends_ite
  · intro hdns
    exact handleDNS_gives ..
  · intro hproxy
    exact fine_ok

section Tcp

variable {payload : List UInt8} {off : Nat}

theorem sendTCPAt_gives (b : Bridge) (f : Flow) (seq : Seq) (flags : UInt8) (data : List UInt8) :
    Fine (sendTCPAt b f seq flags data) := by
  unfold sendTCPAt
  apply ends_bind (tcpPacket_gives ..)
  intro tcp _
  apply ends_bind (ethernet_gives ..)
  intro frame _
  exact fine_ok

theorem readACK_gives (f : TcpFlow) (flags : UInt8) (h : 20 ≤ payload.length) : Fine (readACK f payload flags) := by
  unfold readACK
  apply ends_ite
  · intro hack
    apply ends_bind (sub_gives (by decide) (by omega))
    intro b1 h1
    apply ends_bind (be32_gives (by omega))
    intro ack _
    apply ends_ite
    · intro hinside
      apply ends_bind (sub_gives (by decide) (by omega))
      intro b2 h2
      apply ends_bind (be16_gives (by omega))
      intro window _
      exact fine_ok
    · intro houtside
      exact fine_ok
  · intro hnone
    exact fine_ok

theorem cutData_gives (f : TcpFlow) (seq : Seq) (data : List UInt8) : Fine (cutData f seq data) := by
  unfold cutData
  apply ends_ite
  · rintro ⟨hnew, hinside⟩
    exact ends_mono (sub_gives (by omega) (Nat.le_refl _)) fun _ _ => trivial
  · intro hold
    exact fine_ok

theorem lockedTCP_gives (f : TcpFlow) (seq : Seq) (flags : UInt8) (h : 20 ≤ payload.length) (hoff : off ≤ payload.length) :
    Fine (lockedTCP f payload off seq flags) := by
  unfold lockedTCP
  apply ends_bind (readACK_gives f flags h)
  intro f' _
  apply ends_bind (sub_gives hoff (Nat.le_refl _))
  intro data _
  apply ends_bind (cutData_gives f' seq data)
  intro cut _
  apply ends_bind (sub_gives hoff (Nat.le_refl _))
  intro whole _
  exact fine_ok

theorem handleTCP_gives (h : Host) (b : Bridge) (ip : IPv4Packet) : Fine (handleTCP h b ip) := by
  unfold handleTCP
  apply ends_ite
  · intro hshort
    exact fine_ok
  intro hlen
  apply ends_bind (sub_gives (by decide) (by omega))
  intro b1 h1
  apply ends_bind (be16_gives (by omega))
  intro srcPort _
  apply ends_bind (sub_gives (by decide) (by omega))
  intro b2 h2
  apply ends_bind (be16_gives (by omega))
  intro dstPort _
  apply ends_bind (sub_gives (by decide) (by omega))
  intro b3 h3
  apply ends_bind (be32_gives (by omega))
  intro seq _
  apply ends_bind (load_gives (by omega))
  intro offset _
  apply ends_bind (load_gives (by omega))
  intro flags _
  apply ends_ite
  · intro hout
    exact fine_ok
  intro hin
  apply ends_ite
  · intro hsyn
    dsimp only
    apply ends_bind (sub_gives (by decide) (by omega))
    intro b4 h4
    apply ends_bind (be16_gives (by omega))
    intro window _
    exact sendTCPAt_gives ..
  intro hsyn
  split
  · exact fine_ok
  rename_i f hf
  apply ends_ite
  · intro hrst
    exact fine_ok
  intro hrst
  apply ends_bind (lockedTCP_gives f.tcp seq flags (by omega) (by omega))
  rintro ⟨tcp, l⟩ _
  apply ends_ite
  · intro hfailed
    apply ends_bind (sendTCPAt_gives ..)
    intro b' _
    exact fine_ok
  intro hwritten
  apply ends_ite
  · intro hreply
    exact sendTCPAt_gives ..
  · intro hquiet
    exact fine_ok

/-- The segment in a TCP packet's bytes, with its data at `off`. -/
def segmentOf (payload : List UInt8) (off : Nat) (hlen : payload.length ≤ 65515) (hoff : 20 ≤ off) : Segment where
  seq := BitVec.ofNat 32 (num ((payload.take 8).drop 4))
  ack := BitVec.ofNat 32 (num ((payload.take 12).drop 8))
  window := UInt16.ofNat (num ((payload.take 16).drop 14))
  fin := at' payload 13 &&& 0x01 != 0
  syn := at' payload 13 &&& 0x02 != 0
  rst := at' payload 13 &&& 0x04 != 0
  ackFlag := at' payload 13 &&& 0x10 != 0
  data := payload.drop off
  fits := by
    rw [List.length_drop]
    omega

theorem be32_eq {b : List UInt8} (h : b.length = 4) : be32 b = .ok (BitVec.ofNat 32 (num b)) := by
  rw [be32, number_ok (by omega), List.take_of_length_le (by omega)]
  rfl

theorem be16_eq {b : List UInt8} (h : b.length = 2) : be16 b = .ok (UInt16.ofNat (num b)) := by
  rw [be16, number_ok (by omega), List.take_of_length_le (by omega)]
  rfl

theorem readACK_eq (f : TcpFlow) (hlen : payload.length ≤ 65515) (hoff : 20 ≤ off) (h : 20 ≤ payload.length) :
    readACK f payload (at' payload 13) = .ok (handleACK f (segmentOf payload off hlen hoff)) := by
  have hack : be32 ((payload.take 12).drop 8) = .ok (segmentOf payload off hlen hoff).ack := be32_eq (by
    rw [List.length_drop, List.length_take]
    omega)
  have hwindow : be16 ((payload.take 16).drop 14) = .ok (segmentOf payload off hlen hoff).window := be16_eq (by
    rw [List.length_drop, List.length_take]
    omega)
  have hflag : at' payload 13 &&& 0x10 ≠ 0 ↔ (segmentOf payload off hlen hoff).ackFlag = true := by
    rw [show (segmentOf payload off hlen hoff).ackFlag = (at' payload 13 &&& 0x10 != 0) from rfl, bne_iff_ne]
  unfold readACK handleACK
  rw [sub_ok (by decide) (by omega), sub_ok (by decide) (by omega)]
  by_cases hset : at' payload 13 &&& 0x10 ≠ 0
  · rw [if_pos hset]
    simp only [bind, Except.bind, hack, hwindow, hflag.mp hset, true_and]
    split <;> rfl
  · rw [if_neg hset, if_neg fun h => hset (hflag.mpr h.1)]
    rfl

theorem cutData_eq (f : TcpFlow) (seq : Seq) (data : List UInt8) : cutData f seq data = .ok (Lib.trim f.clientNext seq data) := by
  unfold cutData Lib.trim
  dsimp only
  split
  · rename_i hnew
    rw [sub_ok (by omega) (Nat.le_refl _), List.take_length]
  · rfl

/-- What is done to a flow with a packet's bytes is what `handleLocked` does with its segment. -/
theorem lockedTCP_eq (f : TcpFlow) (hlen : payload.length ≤ 65515) (hoff : 20 ≤ off) (hinside : off ≤ payload.length) :
    lockedTCP f payload off (segmentOf payload off hlen hoff).seq (at' payload 13) =
      .ok (handleLocked f (segmentOf payload off hlen hoff)) := by
  have hdata : sub payload off payload.length = .ok (payload.drop off) := by
    rw [sub_ok hinside (Nat.le_refl _), List.take_length]
  unfold lockedTCP
  rw [readACK_eq f hlen hoff (by omega), hdata]
  simp only [bind, Except.bind, cutData_eq]
  rfl

end Tcp

/-! ## Frames -/

theorem parseIPv4_gives (frame : List UInt8) : Fine (parseIPv4 frame) := by
  unfold parseIPv4
  apply ends_ite
  · intro hshort
    exact fine_ok
  intro hlen
  apply ends_bind (load_gives (by omega))
  intro version _
  apply ends_ite
  · intro hversion
    exact fine_ok
  intro hversion
  apply ends_bind (load_gives (by omega))
  intro ihl _
  apply ends_bind (sub_gives (by decide) (by omega))
  intro b1 h1
  apply ends_bind (be16_gives (by omega))
  intro total _
  apply ends_ite
  · intro hout
    exact fine_ok
  intro hin
  apply ends_bind (sub_gives (by decide) (by omega))
  intro srcMAC _
  apply ends_bind (sub_gives (by decide) (by omega))
  intro dstMAC _
  apply ends_bind (sub_gives (by decide) (by omega))
  intro srcIP _
  apply ends_bind (sub_gives (by decide) (by omega))
  intro dstIP _
  apply ends_bind (load_gives (by omega))
  intro proto _
  apply ends_bind (sub_gives (by omega) (by omega))
  intro payload _
  exact fine_ok

theorem handleEthernet_gives (h : Host) (b : Bridge) (frame : List UInt8) : Fine (handleEthernet h b frame) := by
  unfold handleEthernet
  apply ends_ite
  · intro hshort
    exact fine_ok
  intro hlen
  apply ends_bind (sub_gives (by decide) (by omega))
  intro b1 h1
  apply ends_bind (be16_gives (by omega))
  intro typ _
  apply ends_ite
  · intro harp
    exact handleARP_gives ..
  intro harp
  apply ends_ite
  · intro hip
    apply ends_bind (parseIPv4_gives frame)
    rintro (_ | ip) _
    · exact fine_ok
    · apply ends_ite
      · intro hicmp
        exact handleICMP_gives ..
      intro hicmp
      apply ends_ite
      · intro htcp
        exact handleTCP_gives ..
      intro htcp
      apply ends_ite
      · intro hudp
        exact handleUDP_gives ..
      · intro hnone
        exact fine_ok
  · intro hother
    exact fine_ok

/-- Any frame is handled to the end, from any tables and with any host. The DHCP reply is
    its header and all its options, within its 360 bytes; the DNS reply is as long as the
    question and the answers written to it. What the bytes of a TCP packet do to a flow is what
    `handleLocked` does with its segment. -/
theorem handleEthernet_survives (h : Host) (b : Bridge) (frame : List UInt8) :
    (∃ b', handleEthernet h b frame = .ok b') ∧
    (∀ req replyType, ∃ head body : List UInt8, dhcpReply req replyType = .ok body ∧ head.length = 240 ∧
      body = head ++ (dhcpReplyOptions replyType).flatMap dhcpBytes ++ [255] ∧ body.length ≤ 360) ∧
    (∀ query answers rcode, ∃ resp : List UInt8, dnsResponse query answers rcode = .ok resp ∧
      (resp = [] ∨ ∃ stop, dnsQuestionEnd query = .ok stop ∧ resp.length = stop + answers.length * 16)) ∧
    ∀ (f : TcpFlow) (payload : List UInt8) (off : Nat) (hlen : payload.length ≤ 65515) (hoff : 20 ≤ off), off ≤ payload.length →
      lockedTCP f payload off (segmentOf payload off hlen hoff).seq (at' payload 13) =
        .ok (handleLocked f (segmentOf payload off hlen hoff)) := by
  refine ⟨?_, ?_, ?_, fun f payload off hlen hoff hinside => lockedTCP_eq f hlen hoff hinside⟩
  · obtain ⟨b', hb', -⟩ := gives_iff.mp (handleEthernet_gives h b frame)
    exact ⟨b', hb'⟩
  · intro req replyType
    obtain ⟨body, hbody, head, hhead, heq⟩ := gives_iff.mp (dhcpReply_gives req replyType)
    have hoptions : ((dhcpReplyOptions replyType).flatMap dhcpBytes).length = 62 := rfl
    refine ⟨head, body, hbody, hhead, heq, ?_⟩
    rw [heq, List.length_append, List.length_append, hhead, hoptions]
    decide
  · intro query answers rcode
    exact gives_iff.mp (dnsResponse_gives query answers rcode)

end Be300.NetBridge
