/-
  Be300.NetBridge.Tcp — the TCP flow of the network bridge (`tools/net_bridge/main.go`).

  A `TcpFlow` is what `tcpFlow` holds under its lock. Sequence numbers are `uint32`.
  Every critical section of `handleTCP`, `connectTCP` and `closeTCP` is one function
  here; `Upload`, `Download` and `Session` interleave them. `conn` says whether
  `flow.conn` is set (one host connection per flow), `done` whether `flow.done` is
  closed. The addresses, the timers and `lastActive` decide no branch modelled here.
-/

import Be300.Lib.Stream

namespace Be300.NetBridge

open Be300.Lib (Seq trim)

structure FlowKey where
  srcIP : Nat
  srcPort : Nat
  dstIP : Nat
  dstPort : Nat
  deriving DecidableEq, Repr

structure TcpFlow where
  key : FlowKey
  clientNext : Seq
  serverNext : Seq
  serverAck : Seq
  serverISN : Seq
  peerWindow : Nat
  clientFIN : Bool
  pending : List (List UInt8)
  connected : Bool
  conn : Bool
  done : Bool
  deriving DecidableEq, Repr

/-- A guest TCP segment as `handleTCP` reads it. `fits`: `parseIPv4` cuts the packet at
    its 16-bit total length, of which both headers take at least 20 bytes. -/
structure Segment where
  seq : Seq
  ack : Seq
  window : UInt16
  fin : Bool
  syn : Bool
  rst : Bool
  ackFlag : Bool
  data : List UInt8
  fits : data.length ≤ 65495

/-- `openTCP`'s flow object; `nextSeq` is the bridge's counter, `seq` the SYN's number. -/
def openTCP (key : FlowKey) (nextSeq seq : Seq) : TcpFlow where
  key := key
  clientNext := seq + 1
  serverNext := nextSeq + 1
  serverAck := nextSeq
  serverISN := nextSeq
  peerWindow := 0
  clientFIN := false
  pending := []
  connected := false
  conn := false
  done := false

/-! ## `handleTCP` under the flow's lock -/

/-- A SYN, first or retransmitted. -/
def handleSYN (f : TcpFlow) (s : Segment) : TcpFlow := { f with peerWindow := s.window.toNat }

/-- The acknowledgement is taken when it lies between `serverAck` and `serverNext`. -/
def handleACK (f : TcpFlow) (s : Segment) : TcpFlow :=
  if s.ackFlag ∧ 0 ≤ (s.ack - f.serverAck).toInt ∧ 0 ≤ (f.serverNext - s.ack).toInt then
    { f with serverAck := s.ack, peerWindow := s.window.toNat }
  else f

/-- Only new, contiguous bytes are taken: the part of the segment from `clientNext` on. -/
def newData (f : TcpFlow) (s : Segment) : List UInt8 := trim f.clientNext s.seq s.data

def takeData (f : TcpFlow) (data : List UInt8) : TcpFlow :=
  { f with
    clientNext := f.clientNext + BitVec.ofNat 32 data.length
    pending := if data ≠ [] ∧ !f.connected then f.pending ++ [data] else f.pending }

/-- The FIN is taken when everything before it has been. -/
def finAccepted (f : TcpFlow) (s : Segment) : Bool :=
  s.fin && s.seq + BitVec.ofNat 32 s.data.length == f.clientNext && !f.clientFIN

def takeFIN (f : TcpFlow) : TcpFlow := { f with clientNext := f.clientNext + 1, clientFIN := true }

/-- What `handleTCP` keeps in local variables across the unlock: the bytes to write to
    `conn` directly, whether `conn` was set, whether an ACK is due, whether the FIN was
    accepted. -/
structure Locals where
  data : List UInt8
  conn : Bool
  reply : Bool
  fin : Bool
  deriving DecidableEq, Repr

/-- The locked section of `handleTCP` for a segment without SYN and RST. -/
def handleLocked (f : TcpFlow) (s : Segment) : TcpFlow × Locals :=
  let f1 := handleACK f s
  let data := newData f1 s
  let f2 := takeData f1 data
  let fin := finAccepted f2 s
  (if fin then takeFIN f2 else f2,
    { data := if f1.connected then data else []
      conn := f1.conn
      reply := !s.data.isEmpty || s.fin
      fin := fin })

/-! ## `connectTCP` and `closeTCP` under the flow's lock -/

/-- `connectTCP` sets `conn` and takes the pending buffer away before it writes it. -/
def connectLocked (f : TcpFlow) : TcpFlow × List (List UInt8) := ({ f with conn := true, pending := [] }, f.pending)

/-- `closeTCP` takes `conn` away; the flag is whether there was one. -/
def closeLocked (f : TcpFlow) : TcpFlow × Bool := ({ f with conn := false, connected := false }, f.conn)

end Be300.NetBridge
