/-
  Be300.Wifi.Card — the WL54CF card (`src/hw/wl54cf.c`): its firmware download, the commands
  of its station and its registers.

  What the command handler reads of a command it reads through `at'`, which fails outside
  the command's declared bytes, and lengths are subtracted by `sub`, which fails where the C
  subtraction wraps; a `Checked` value is one, or the first such fault. Bytes that an earlier
  command left behind the declared ones are not here. The receive ring is the list of its
  packets; what `transmit` was called with is in `sent`.
-/

import Be300.Lib.Bytes
import Be300.Wifi.Security

namespace Be300.Wifi

open Lib (le)

def wl54cfBuffer : Nat := 2048
def wl54cfQueue : Nat := 8
def wl54cfTx : Nat := 1
def wl54cfRx : Nat := 2
def wl54cfCommand : Nat := 4
def wl54cfResponse : Nat := 8

def bssid : List UInt8 := [2, 0x42, 0x45, 0x33, 0x30, 0x30]
def rates : List UInt8 := [0x82, 0x84, 0x8b, 0x96, 12, 18, 24, 36, 48, 72, 96, 108]

/-- "BE300". -/
def ssidName : List UInt8 := [66, 69, 51, 48, 48]

/-- A buffer the host fills: what was written since its length was set. -/
structure Inbox where
  length : Nat
  data : List UInt8
  deriving DecidableEq

/-- A buffer the host reads. -/
structure Outbox where
  data : List UInt8
  pos : Nat
  deriving DecidableEq

structure Card where
  mac : List UInt8
  security : Security
  /-- Each key's `wep_len` bytes. -/
  wep : Nat → List UInt8
  wepIndex : Nat
  rsn : Bool
  firmwareStage : Nat
  mask : Nat
  cause : Nat
  hostStatus : Nat
  macControl : Nat
  request : Nat
  firmwarePayload : Nat
  helperBytes : Nat
  firmwareBytes : Nat
  authenticated : Bool
  associated : Bool
  radio : Bool
  channel : Nat
  command : Inbox
  response : Outbox
  tx : Inbox
  rx : List Outbox
  sent : List (List UInt8)

namespace Card

def reset (s : Card) : Card :=
  { mac := s.mac, security := Wifi.reset s.security, wep := fun _ => [], wepIndex := 0, rsn := false, firmwareStage := 0
    mask := 31, cause := 0, hostStatus := 0, macControl := 0, request := 0, firmwarePayload := 0, helperBytes := 0
    firmwareBytes := 0, authenticated := false, associated := false, radio := true, channel := 3, command := ⟨0, []⟩
    response := ⟨[], 0⟩, tx := ⟨0, []⟩, rx := [], sent := s.sent }

def init (c : Crypto) (mac : List UInt8) (mode : Nat) (key : Option (List UInt8)) : Card :=
  reset
    { mac, security := Wifi.init c mac mode key, wep := fun _ => [], wepIndex := 0, rsn := false, firmwareStage := 0
      mask := 0, cause := 0, hostStatus := 0, macControl := 0, request := 0, firmwarePayload := 0, helperBytes := 0
      firmwareBytes := 0, authenticated := false, associated := false, radio := false, channel := 0, command := ⟨0, []⟩
      response := ⟨[], 0⟩, tx := ⟨0, []⟩, rx := [], sent := [] }

/-! ## The firmware download -/

def le32 (p : List UInt8) (off : Nat) : Nat := Lib.rd 4 (Lib.at' p) off

def firmwareFail (s : Card) : Card := { s with firmwareStage := 3, request := 0 }

/-- A block of the helper. -/
def helperBlock (s : Card) (length : Nat) : Card :=
  if length = 0 then
    if s.helperBytes = 0 then s.firmwareFail else { s with firmwareStage := 1, request := 16 }
  else if length > 256 ∨ length % 2 = 1 ∨ s.helperBytes > 65536 - length then s.firmwareFail
  else { s with helperBytes := s.helperBytes + length }

/-- A header or a payload of the station firmware. -/
def stationBlock (s : Card) (data : List UInt8) (length : Nat) : Card :=
  if length ≠ s.request then s.firmwareFail
  else
    let s := { s with firmwareBytes := (s.firmwareBytes + length) % 2 ^ 32 }
    if s.firmwareBytes > 512 * 1024 then s.firmwareFail
    else if s.firmwarePayload ≠ 0 then { s with firmwarePayload := 0, request := 16 }
    else
      let command := le32 data 0
      let payload := le32 data 8
      if command = 4 ∧ payload = 0 then
        if s.firmwareBytes ≤ 16 then s.firmwareFail else { s with firmwareStage := 2, request := 0 }
      else if command = 1 ∧ payload ≠ 0 ∧ payload ≤ wl54cfBuffer ∧ payload % 2 = 0 then
        { s with firmwarePayload := payload, request := payload }
      else s.firmwareFail

def firmwareBlock (s : Card) : Card :=
  let c := s.command
  if c.data.length ≠ c.length ∨ c.length > wl54cfBuffer then s.firmwareFail
  else if s.firmwareStage = 0 then s.helperBlock c.length
  else if s.firmwareStage = 1 then s.stationBlock c.data c.length
  else s

end Card

/-! ## Reading a command -/

inductive Fault where
  | outside (i : Nat)
  | wrap
  deriving DecidableEq

abbrev Checked := Except Fault

namespace Command

def at' (c : List UInt8) (i : Nat) : Checked UInt8 := if h : i < c.length then .ok (c.get ⟨i, h⟩) else .error (.outside i)

def get16 (c : List UInt8) (i : Nat) : Checked Nat := do
  let low ← at' c i
  let high ← at' c (i + 1)
  return low.toNat + 256 * high.toNat

/-- `n` bytes. -/
def bytes (c : List UInt8) (i n : Nat) : Checked (List UInt8) :=
  if i + n ≤ c.length then .ok ((c.drop i).take n) else .error (.outside (i + n - 1))

def sub (a b : Nat) : Checked Nat := if b ≤ a then .ok (a - b) else .error .wrap

/-- `!memcmp(c->data + i, l, …)`. -/
def same (c : List UInt8) (i : Nat) (l : List UInt8) : Checked Bool := do return (← bytes c i l.length) == l

/-- `&&`. -/
def both (a b : Checked Bool) : Checked Bool := do if ← a then b else return false

/-- Where the TLV of a type has its bytes, and how many. -/
def tlv (c : List UInt8) (type p n : Nat) : Checked (Option (Nat × Nat)) :=
  if h : n < 4 then .ok none
  else do
    let t ← get16 c p
    let l ← get16 c (p + 2)
    if l > n - 4 then return none
    if t = type then return some (p + 4, l)
    tlv c type (p + (4 + l)) (n - (4 + l))
termination_by n

def validTlvs (c : List UInt8) (p n : Nat) : Checked Bool :=
  if h : n < 4 then .ok (n == 0)
  else do
    let l ← get16 c (p + 2)
    if l > n - 4 then return false
    validTlvs c (p + (4 + l)) (n - (4 + l))
termination_by n

end Command

/-! ## The commands of the station -/

/-- What `RAND_bytes` gives, and whether a cipher context could be made. -/
structure Chance where
  anonce : Option (List UInt8)
  gtk : Option (List UInt8)
  iv : Option (List UInt8)
  ctx : Bool

/-- The result and the bytes after the header. -/
structure Answer where
  result : Nat
  payload : List UInt8
  deriving DecidableEq

namespace Card

open Command

def refuse (s : Card) : Card × Answer := (s, ⟨2, []⟩)

def getHwSpec (s : Card) (n : Nat) : Checked (Card × Answer) :=
  if n < 46 then .ok s.refuse
  else .ok (s,
    ⟨0, le 2 1 ++ le 2 0x12 ++ le 2 1 ++ le 2 32 ++ s.mac ++ le 2 0x10 ++ le 2 2 ++ le 4 0x00030208 ++ zeros 12 ++ le 4 0x303⟩)

/-- The one BSS, as a scan tells it. -/
def beacon (s : Card) : List UInt8 :=
  bssid ++ [40] ++ zeros 8 ++ le 2 100 ++ le 2 (if s.security.mode = 0 then 1 else 0x11) ++ [0, 5] ++ ssidName ++
    [1, 8] ++ rates.take 8 ++ [50, 4] ++ rates.drop 8 ++ [3, 1, 3] ++ s.security.ie

/-- Is this TLV the network's name? -/
def namesNetwork (c : List UInt8) : Option (Nat × Nat) → Checked Bool
  | none => .ok false
  | some (p, l) => both (.ok (l == 5)) (same c p ssidName)

def scan (s : Card) (c : List UInt8) (n : Nat) : Checked (Card × Answer) := do
  if n < 15 then return s.refuse
  if !(← validTlvs c 15 (← sub n 15)) then return s.refuse
  let ssid ← tlv c 0 15 (← sub n 15)
  let any := match ssid with
    | none => true
    | some (_, l) => l == 0
  let type := do return (← at' c 8) == 1 || (← at' c 8) == 3
  let target := do if ← same c 9 bssid then return true else same c 9 (zeros 6)
  let found ← both (.ok s.radio) (both type (both target (if any then .ok true else namesNetwork c ssid)))
  if !found then return (s, ⟨0, zeros 3⟩)
  let content := s.beacon
  return (s, ⟨0, le 2 (content.length + 2) ++ [1] ++ le 2 content.length ++ content⟩)

def authenticate (s : Card) (c : List UInt8) (n : Nat) : Checked (Card × Answer) := do
  if n ≠ 25 then return s.refuse
  if !(← same c 8 bssid) then return s.refuse
  if (← at' c 14) > 1 ∨ !s.radio then return s.refuse
  return ({ s with authenticated := true }, ⟨0, []⟩)

/-- The TLV of a type in the body of an association, if the body is long enough. -/
def bodyTlv (c : List UInt8) (type n : Nat) : Checked (Option (Nat × Nat)) := do
  if 21 ≤ n then tlv c type 21 (← sub n 21) else return none

/-- The channel TLV, and the capabilities. -/
def fitsChannel (s : Card) (c : List UInt8) : Option (Nat × Nat) → Checked Bool
  | none => .ok false
  | some (p, l) =>
    both (.ok (l == 1)) (both (do return (← at' c p) == 3) (both (.ok s.security.valid)
      (do return (((← get16 c 14) &&& 16) != 0) == (s.security.mode != 0))))

/-- The information element is the access point's. -/
def sameIe (s : Card) (c : List UInt8) : Option (Nat × Nat) → Checked Bool
  | none => .ok false
  | some (p, l) => both (do return l == (← sub s.security.ie.length 2)) (same c p (s.security.ie.drop 2))

def associate (k : Crypto) (r : Chance) (s : Card) (c : List UInt8) (n : Nat) : Checked (Card × Answer) := do
  let ssid ← bodyTlv c 0 n
  let ok ← both (.ok (21 ≤ n)) (both (do validTlvs c 21 (← sub n 21)) (both (namesNetwork c ssid) (both (same c 8 bssid)
    (.ok (s.authenticated && s.radio && s.channel == 3)))))
  let ch ← bodyTlv c 3 n
  let ok ← both (.ok ok) (s.fitsChannel c ch)
  let ok := if s.security.mode = 1 then ok && Wifi.wep s.security s.wepIndex (s.wep s.wepIndex) else ok
  let ok ←
    if 2 ≤ s.security.mode then do
      -- the length is not compared with 21 here
      let ie ← tlv c (byte s.security.ie 0).toNat 21 (← sub n 21)
      both (.ok (ok && s.rsn)) (s.sameIe c ie)
    else .ok ok
  let s := { s with associated := ok, security := if ok then start k s.security r.anonce r.gtk else s.security }
  return (s, ⟨0, le 2 1 ++ le 2 (if ok then 0 else 4) ++ le 2 (if ok then 1 else 0)⟩)

/-- The keys from key `i` on, and the result: a bad type ends the loop. -/
def setKeys (c : List UInt8) : List Nat → (Nat → List UInt8) → Checked ((Nat → List UInt8) × Nat)
  | [], wep => .ok (wep, 0)
  | i :: rest, wep => do
    let t ← at' c (12 + i)
    if t > 2 then return (wep, 2)
    let key ← bytes c (16 + 16 * i) (if t = 1 then 5 else if t = 2 then 13 else 0)
    setKeys c rest (Function.update wep i key)

def setWep (s : Card) (c : List UInt8) (n : Nat) : Checked (Card × Answer) := do
  if n ≠ 80 then return s.refuse
  if (← get16 c 10) > 3 then return s.refuse
  let action ← get16 c 8
  let s := { s with wepIndex := ← get16 c 10, wep := fun _ => [] }
  if action = 2 then
    let (wep, result) ← setKeys c [0, 1, 2, 3] s.wep
    return ({ s with wep }, ⟨result, []⟩)
  else if action ≠ 4 then return s.refuse
  else return (s, ⟨0, []⟩)

def setRsn (s : Card) (c : List UInt8) (n : Nat) : Checked (Card × Answer) := do
  if n ≠ 12 then return s.refuse
  if (← get16 c 8) ≠ 1 then return s.refuse
  if (← get16 c 10) > 1 then return s.refuse
  return ({ s with rsn := (← get16 c 10) != 0 }, ⟨0, []⟩)

def setKey (s : Card) (c : List UInt8) (n : Nat) : Checked (Card × Answer) := do
  if n ≠ 52 then return s.refuse
  if (← get16 c 8) ≠ 1 then return s.refuse
  if (← get16 c 10) ≠ 0x100 then return s.refuse
  if (← get16 c 12) ≠ 38 then return s.refuse
  let flags ← get16 c 16
  let l ← get16 c 18
  if l > 32 then return s.refuse
  let (security, ok) := key s.security (flags &&& 2 != 0) (← get16 c 14) (← bytes c 20 l)
  return ({ s with security }, ⟨if ok then 0 else 2, []⟩)

def deauthenticate (s : Card) (n : Nat) : Checked (Card × Answer) :=
  if n ≠ 16 then .ok s.refuse
  else .ok ({ s with associated := false, authenticated := false, security := Wifi.reset s.security }, ⟨0, []⟩)

def setMacControl (s : Card) (c : List UInt8) (n : Nat) : Checked (Card × Answer) := do
  if n ≠ 12 then return s.refuse
  let control ← get16 c 8
  if control &&& 0x1db ≠ control then return s.refuse
  return ({ s with macControl := control }, ⟨0, ← bytes c 8 (n - 8)⟩)

def setRadio (s : Card) (c : List UInt8) (n : Nat) : Checked (Card × Answer) := do
  if n ≠ 12 then return s.refuse
  if (← get16 c 8) ≠ 1 then return s.refuse
  let radio := (← get16 c 10) &&& 1 != 0
  let s := { s with radio, associated := s.associated && radio, authenticated := s.authenticated && radio }
  return (s, ⟨0, ← bytes c 8 (n - 8)⟩)

def execute (k : Crypto) (r : Chance) (s : Card) (c : List UInt8) (op n : Nat) : Checked (Card × Answer) :=
  if op = 3 then s.getHwSpec n
  else if op = 6 then s.scan c n
  else if op = 0x11 then s.authenticate c n
  else if op = 0x50 then s.associate k r c n
  else if op = 0x13 then s.setWep c n
  else if op = 0x2f then s.setRsn c n
  else if op = 0x5e then s.setKey c n
  else if op = 0x24 then s.deauthenticate n
  else if op = 0x28 then s.setMacControl c n
  else if op = 0x1c then s.setRadio c n
  else .ok s.refuse

/-- The command's answer, and the station after it. -/
def dispatch (k : Crypto) (r : Chance) (s : Card) (c : List UInt8) : Checked (Card × Answer) := do
  let op ← get16 c 0
  let n ← get16 c 2
  if n ≠ c.length ∨ op &&& 0x8000 ≠ 0 then return s.refuse
  s.execute k r c op n

/-- The response frame, with the eight bytes after it. -/
def respond (c : List UInt8) (a : Answer) : Checked (List UInt8) := do
  return le 2 ((← get16 c 0) ||| 0x8000) ++ le 2 (8 + a.payload.length) ++ (← bytes c 4 2) ++ le 2 a.result ++ a.payload ++
    zeros 8

def stationCommand (k : Crypto) (r : Chance) (s : Card) : Checked Card :=
  let c := s.command
  if s.cause &&& wl54cfResponse ≠ 0 then .ok s
  else if c.length < 8 ∨ c.length > wl54cfBuffer ∨ c.data.length ≠ c.length then .ok { s with response := ⟨[], 0⟩ }
  else do
    let (s, answer) ← s.dispatch k r c.data
    return { s with response := ⟨← respond c.data answer, 0⟩, cause := s.cause ||| wl54cfResponse }

/-! ## Packets -/

def transmit (k : Crypto) (r : Chance) (s : Card) : Card :=
  let b := s.tx
  let off := le32 b.data 8
  let n := Lib.rd 2 (Lib.at' b.data) 12
  let frame := (b.data.drop off).take n
  let s :=
    if 24 ≤ b.length ∧ b.length ≤ wl54cfBuffer ∧ b.data.length = b.length ∧ s.associated ∧ s.macControl &&& 2 ≠ 0 ∧
        24 ≤ off ∧ off ≤ b.length ∧ 14 ≤ n ∧ n ≤ 1514 ∧ n ≤ b.length - off then
      let (security, passes) := Wifi.tx k s.security frame r.iv r.ctx
      { s with security, sent := if passes then s.sent ++ [frame] else s.sent }
    else s
  { s with cause := s.cause ||| wl54cfTx }

def broadcast : List UInt8 := List.replicate 6 0xff

/-- Does the station take packets to this address? -/
def accepts (s : Card) (packet : List UInt8) : Bool :=
  let isBroadcast := packet.take 6 == broadcast
  packet.take 6 == s.mac || s.macControl &&& 0x80 != 0 || isBroadcast && s.macControl &&& 0x40 != 0 ||
    byte packet 0 &&& 1 != 0 && !isBroadcast && s.macControl &&& 0x100 != 0

/-- A packet with the header of the host interface. -/
def rxFrame (packet : List UInt8) : List UInt8 :=
  let n := packet.length
  le 2 1 ++ [40, 0] ++ le 2 (n + 8) ++ [96, 11] ++ le 4 20 ++ zeros 8 ++ packet.take 12 ++
    [UInt8.ofNat ((n - 6) / 256), UInt8.ofNat (n - 6)] ++ [0xaa, 0xaa, 0x03, 0, 0, 0] ++ packet.drop 12

def receive (s : Card) (packet : List UInt8) : Card × Bool :=
  let n := packet.length
  if !s.associated ∨ s.macControl &&& 1 = 0 ∨ n < 14 ∨ n > 1514 ∨ s.rx.length = wl54cfQueue then (s, false)
  else if !eapol packet ∧ !s.security.authorized then (s, false)
  else if !s.accepts packet then (s, false)
  else ({ s with rx := s.rx ++ [⟨rxFrame packet, 0⟩], cause := s.cause ||| wl54cfRx }, true)

/-- A frame of the handshake that waits is taken first. -/
def pump (s : Card) : Card :=
  if s.security.pendingLen ≠ 0 ∧ s.associated ∧ s.rx.length < wl54cfQueue then
    let (s, taken) := s.receive (s.security.pending.take s.security.pendingLen)
    if taken then { s with security := { s.security with pendingLen := 0 } } else s
  else s

/-! ## The registers -/

def bytesOf (size v : Nat) : List UInt8 := (List.range size).map fun i => UInt8.ofNat (v / 256 ^ i)

end Card

def Inbox.write (b : Inbox) (size v : Nat) : Inbox :=
  { b with data := b.data ++ (Card.bytesOf size v).take (min b.length wl54cfBuffer - b.data.length) }

/-- `stream_read`: ones past the end. -/
def Outbox.read (b : Outbox) (size : Nat) : Nat × Outbox :=
  let bytes := (List.range size).map fun i => b.data.getD (b.pos + i) 0xff
  (Lib.rd size (Lib.at' bytes) 0, { b with pos := max b.pos (min (b.pos + size) b.data.length) })

namespace Card

def registers (s : Card) (a : Nat) : Nat :=
  if a = 0 then s.hostStatus
  else if a = 4 then s.mask
  else if a = 0x14 then s.tx.length
  else if a = 0x18 then s.command.length
  else if a = 0x1c then 0x12
  else if a = 0x20 then
    if s.firmwareStage = 2 then wl54cfTx ||| wl54cfCommand ||| (s.cause &&& (wl54cfRx ||| wl54cfResponse))
    else if s.firmwareStage < 2 then wl54cfCommand else 0
  else if a = 0x22 then s.cause
  else if a = 0x24 then (s.rx.head?.map fun b => b.data.length).getD 0
  else if a = 0x28 then s.request
  else if a = 0x30 then s.response.data.length
  else if a = 0x3e then if s.firmwareStage = 2 then 0x5a00 else 0
  else 0

def read (s : Card) (off size : Nat) : Nat × Card :=
  let s := s.pump
  if size = 0 ∨ size > 8 ∨ off ≥ 64 ∨ size > 64 - off then (2 ^ 64 - 1, s)
  else if off = 0x10 then
    match s.rx with
    | [] => (2 ^ 64 - 1, s)
    | b :: rest =>
      let (v, b) := b.read size
      (v, { s with rx := b :: rest })
  else if off = 0x12 then
    let (v, response) := s.response.read size
    (v, { s with response })
  else
    let bytes := (List.range size).map fun i => UInt8.ofNat (s.registers ((off + i) / 2 * 2) / 256 ^ ((off + i) % 2))
    (Lib.rd size (Lib.at' bytes) 0, s)

/-- The host event register: the events that the host has raised in its status. -/
def writeEvents (k : Crypto) (r : Chance) (s : Card) (v : Nat) : Checked Card := do
  let v := v &&& s.hostStatus
  let s ←
    if v &&& wl54cfCommand ≠ 0 ∧ s.firmwareStage < 2 then .ok s.firmwareBlock
    else if v &&& wl54cfCommand ≠ 0 ∧ s.firmwareStage = 2 then s.stationCommand k r
    else .ok s
  let s := if v &&& wl54cfTx ≠ 0 ∧ s.firmwareStage = 2 then s.transmit k r else s
  let s := if v &&& wl54cfRx ≠ 0 then { s with rx := s.rx.tail } else s
  return { s with hostStatus := 0 }

def acknowledge (s : Card) (v : Nat) : Card :=
  let s := { s with cause := s.cause - (s.cause &&& v), response := if v &&& wl54cfResponse ≠ 0 then ⟨[], 0⟩ else s.response }
  if s.rx ≠ [] then { s with cause := s.cause ||| wl54cfRx } else s

def write (k : Crypto) (r : Chance) (s : Card) (off size v : Nat) : Checked Card :=
  if size = 0 ∨ size > 8 ∨ off ≥ 64 ∨ size > 64 - off then .ok s
  else if off = 0x16 then .ok { s with tx := s.tx.write size v }
  else if off = 0x1a then .ok { s with command := s.command.write size v }
  else if (size ≠ 1 ∧ size ≠ 2) ∨ off % 2 = 1 then .ok s
  else if off = 0 then .ok { s with hostStatus := v &&& 31 }
  else if off = 2 then s.writeEvents k r v
  else if off = 4 then .ok { s with mask := v &&& 31 }
  else if off = 0x14 then .ok { s with tx := ⟨v % 65536, []⟩ }
  else if off = 0x18 then .ok { s with command := ⟨v % 65536, []⟩ }
  else if off = 0x22 then .ok (s.acknowledge v)
  else .ok s

/-! ## Runs -/

inductive Access where
  | write (off size v : Nat) (r : Chance)
  | read (off size : Nat)
  | receive (packet : List UInt8)
  | reset

def step (k : Crypto) (s : Card) : Access → Checked Card
  | .write off size v r => s.write k r off size v
  | .read off size => .ok (s.read off size).2
  | .receive packet => .ok (s.receive packet).1
  | .reset => .ok s.reset

def run (k : Crypto) (s : Card) (accesses : List Access) : Checked Card := accesses.foldlM (step k) s

end Card

end Be300.Wifi
