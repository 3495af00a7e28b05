/-
  Be300.Xi825.Card — the XI-825 station controller (`src/hw/xi825.c`): its registers, its
  records and packet buffers, the commands and the two event queues.

  Buffers and records are found by number, a buffer while it is used; a record slot that is
  free has number 0. The bytes of a buffer are given when it is allocated: its caller writes
  them before anything reads them. An access of the transmit path outside an array is a
  `none`. What the card hands to the `transmit` callback is kept in `sent`.
-/

import Be300.Lib.Bytes
import Be300.Lib.Fifo
import Be300.Lib.Slots
import Be300.Wifi.Security

namespace Be300.Xi825

open Lib

def regCmd : Nat := 0
def regParam0 : Nat := 1
def regStatus : Nat := 4
def regResp0 : Nat := 5
def regInfofid : Nat := 8
def regSelect0 : Nat := 12
def regOffset0 : Nat := 14
def regRxfid : Nat := 16
def regAllocfid : Nat := 17
def regTxfid : Nat := 18
def regEvstat : Nat := 24
def regInten : Nat := 25
def regEvack : Nat := 26
def regData0 : Nat := 27
def regData1 : Nat := 28

def evRx : UInt16 := 1
def evTx : UInt16 := 2
def evTxexc : UInt16 := 4
def evAlloc : UInt16 := 8
def evCmd : UInt16 := 16
def evInfo : UInt16 := 128
def evInfdrop : UInt16 := 0x2000

def bufferSize : Nat := 4096
def bufferCount : Nat := 24
def recordCount : Nat := 64

def apBssid : List UInt8 := [0x02, 0x42, 0x45, 0x33, 0x30, 0x30]
/-- "BE300". -/
def apSsid : List UInt8 := [66, 69, 51, 48, 48]

structure Buffer where
  id : Nat
  length : Nat
  used : Bool
  data : Nat → UInt8
  fits : length ≤ bufferSize

structure Record where
  id : Nat
  length : Nat
  data : Nat → UInt8
  committed : Nat → UInt8

structure Card where
  security : Wifi.Security
  regs : Nat → UInt16
  buffers : List Buffer
  records : List Record
  mac : List UInt8
  enabled : Bool
  associated : Bool
  linkPending : Bool
  hermes : Bool
  hermesFirmware : Nat
  nextFid : Nat
  infoQueue : Fifo Nat
  rxQueue : Fifo Nat
  /-- The callback is installed. -/
  transmit : Bool
  sent : List (List UInt8)

def zeros (n : Nat) : List UInt8 := List.replicate n 0

def bytesOf (p : Nat → UInt8) (off n : Nat) : List UInt8 := (List.range n).map fun i => p (off + i)

/-- `memcpy(p + off, bytes, …)`. -/
def patch (p : Nat → UInt8) (off : Nat) (bytes : List UInt8) : Nat → UInt8 := fun i =>
  if off ≤ i ∧ i < off + bytes.length then at' bytes (i - off) else p i

def setReg (s : Card) (reg : Nat) (v : UInt16) : Card := { s with regs := fun r => if r = reg then v else s.regs r }

def raise (s : Card) (ev : UInt16) : Card := setReg s regEvstat (s.regs regEvstat ||| ev)

/-! ## Records -/

def recordKey (r : Record) : Option Nat := some r.id

def record (l : List Record) (id : Nat) : Option Record := Slots.lookup recordKey id l

def newRecord (id : Nat) (data : List UInt8) : Record :=
  let bytes := at' (le 2 (1 + (data.length + 1) / 2) ++ le 2 id ++ data)
  { id, length := 4 + (data.length + 1) / 2 * 2, data := bytes, committed := bytes }

def addRecord (l : List Record) (id : Nat) (data : List UInt8) : List Record :=
  if 124 < data.length then l
  else if (record l id).isSome then Slots.modify recordKey id (fun _ => newRecord id data) l
  else (Slots.place (fun r => r.id == 0) (newRecord id data) l).getD l

def scalar (id value : Nat) : Nat × List UInt8 := (id, le 2 value)

/-- What the firmware reads of a record, all of which are there. -/
def committed (s : Card) (id : Nat) : Nat → UInt8 :=
  match record s.records id with
  | some r => r.committed
  | none => fun _ => 0

/-! ## Buffers -/

def bufferKey (b : Buffer) : Option Nat := if b.used then some b.id else none

def buffer (l : List Buffer) (id : Nat) : Option Buffer := Slots.lookup bufferKey id l

/-- The loop past the numbers in use: of 25 numbers in a row 24 buffers leave one. -/
def skipUsed (l : List Buffer) : Nat → Nat → Nat
  | 0, fid => fid
  | fuel + 1, fid => if (buffer l fid).isSome then skipUsed l fuel ((fid + 1) % 65536) else fid

def followingFid (l : List Buffer) (fid : Nat) : Nat :=
  let next := (fid + 1) % 65536
  skipUsed l (bufferCount + 1) (if 0x8000 ≤ next then 0x100 else next)

/-- A buffer of `length` bytes with the given contents; with its number. -/
def allocate (s : Card) (length : Nat) (data : Nat → UInt8) : Option (Card × Nat) :=
  if h : length > bufferSize ∨ length = 0 then none
  else
    let b : Buffer := { id := s.nextFid, length, used := true, data, fits := by omega }
    match Slots.place (fun b => !b.used) b s.buffers with
    | none => none
    | some buffers => some ({ s with buffers, nextFid := followingFid buffers s.nextFid }, s.nextFid)

def release (s : Card) (id : Nat) : Card :=
  { s with buffers := Slots.modify bufferKey id (fun b => { b with used := false }) s.buffers }

def info (s : Card) (type : Nat) (data : List UInt8) : Card × Bool :=
  if s.infoQueue.count = 8 then (raise s evInfdrop, false)
  else
    match allocate s (4 + data.length) (at' (le 2 (1 + data.length / 2) ++ le 2 type ++ data)) with
    | none => (raise s evInfdrop, false)
    | some (s, id) =>
      let queue := s.infoQueue.push 8 id
      (raise (setReg { s with infoQueue := queue } regInfofid (UInt16.ofNat queue.front)) evInfo, true)

/-! ## Association -/

def hermesMajor (s : Card) : Nat := if s.hermesFirmware ≠ 0 then s.hermesFirmware / 256 else 8
def hermesMinor (s : Card) : Nat := if s.hermesFirmware ≠ 0 then s.hermesFirmware % 256 else 72

def hermesHostScan (s : Card) : Bool :=
  decide (hermesMajor s > 8) || hermesMajor s == 8 && decide (hermesMinor s ≥ 10)

/-- The port type is an infrastructure station's and the name is the network's, or none. -/
def wantsNetwork (s : Card) : Bool :=
  let ssid := committed s 0xfc02
  let n := rd 2 ssid 4
  s.enabled && rd 2 (committed s 0xfc00) 4 == 1 && (n == 0 || n == apSsid.length && bytesOf ssid 6 apSsid.length == apSsid)

def hermesKey (s : Card) : Bool :=
  let index := rd 2 (committed s 0xfcb1) 4
  let keys := committed s 0xfc25
  let n := s.security.secret.length
  !decide (index > 3) && rd 2 keys (4 + 16 * index) == n &&
    Wifi.wep s.security index (bytesOf keys (4 + 16 * index + 2) n)

def prismKey (s : Card) : Bool :=
  let index := rd 2 (committed s 0xfc23) 4
  let n := s.security.secret.length
  let size := if n = 5 then 6 else 14
  decide (index < 4) && Wifi.wep s.security index (bytesOf (committed s (0xfc24 + index)) 4 n) &&
    (List.range 4).all fun i =>
      match record s.records (0xfc24 + i) with
      | some slot => slot.length == 4 + size
      | none => false

def canAssociate (s : Card) : Bool :=
  if !s.security.valid || decide (s.security.mode > 1) then false
  else
    let wep := if s.hermes then rd 2 (committed s 0xfc20) 4 != 0 else rd 2 (committed s 0xfc28) 4 % 2 == 1
    if wep != (s.security.mode == 1) then false
    else if wep && !(if s.hermes then hermesKey s else prismKey s) then false
    else wantsNetwork s

/-- The tick of the card, which first installs the callback. -/
def tick (s : Card) : Card :=
  let s := { s with transmit := true }
  let connected := canAssociate s
  let s := { s with security := { s.security with authorized := connected } }
  if s.linkPending || connected != s.associated then
    let (s, ok) := info s 0xf200 (le 2 (if connected then 1 else 2))
    if ok then { s with associated := connected, linkPending := false } else s
  else s

/-- The entry of the one network, heard at `level`, up to its name. -/
def bssEntry (s : Card) (level : Nat) : List UInt8 :=
  le 2 3 ++ le 2 40 ++ le 2 level ++ apBssid ++ le 2 100 ++ le 2 (if s.security.mode ≠ 0 then 0x11 else 1) ++
    le 2 apSsid.length ++ apSsid ++ zeros (32 - apSsid.length)

def scan (s : Card) : Card :=
  if s.hermes then
    if !hermesHostScan s && rd 2 (committed s 0xfc02) 4 != 0 then (info s 0xf101 []).1
    else (info s 0xf101 (bssEntry s 100 ++ bssEntry s 90)).1
  else (info s 0xf101 (le 2 0 ++ le 2 1 ++ bssEntry s 100 ++ [0x82, 0x84, 0x0b, 0x16] ++ zeros 6 ++ le 2 22)).1

/-- The record that `refresh_record` puts in place of an answer the station computes. -/
def refreshed (s : Card) (id : Nat) : Option (List UInt8) :=
  if id = 0xfc01 then some s.mac
  else if id = 0xfd40 then some (le 2 (if s.associated then 1 else if s.enabled then 2 else 0))
  else if id = 0xfd41 then
    some (if s.associated then le 2 apSsid.length ++ apSsid ++ zeros (32 - apSsid.length) else zeros 34)
  else if id = 0xfd42 then some (if s.associated then apBssid else zeros 6)
  else if id = 0xfd43 then some (if s.associated then le 2 60 ++ le 2 100 ++ le 2 40 else zeros 6)
  else if id = 0xfd44 then some (le 2 (if s.associated then (if s.hermes then 11 else 8) else 0))
  else if id = 0xfdc1 then some (le 2 (if s.associated then 3 else 0))
  else none

def refreshRecord (s : Card) (id : Nat) : Card :=
  match refreshed s id with
  | some data => { s with records := addRecord s.records id data }
  | none => s

/-! ## Reset -/

/-- The records that a reset adds, in order. -/
def resetRecords (s : Card) : List (Nat × List UInt8) :=
  [scalar 0xfc00 1, scalar 0xfc03 3, scalar 0xfc06 1, scalar 0xfc07 2304, scalar 0xfc09 0, scalar 0xfc23 0,
    scalar 0xfc28 0, scalar 0xfc2a 1, scalar 0xfc2d 1, scalar 0xfc33 100, scalar 0xfc41 0, scalar 0xfc81 0,
    scalar 0xfc82 2346, scalar 0xfc83 2347, scalar 0xfc84 15, scalar 0xfc85 0, scalar 0xfcb0 1, scalar 0xfcb3 3,
    scalar 0xfcb4 15, scalar 0xfce0 0, scalar 0xfd4f 0, scalar 0xfd11 1, scalar 0xfdc0 2, scalar 0xfd10 0x7ff,
    (0xfc24, zeros 14), (0xfc25, zeros 14), (0xfc26, zeros 14), (0xfc27, zeros 14), (0xfc01, s.mac),
    (0xfc02, zeros 34), (0xfc04, zeros 34), (0xfc0e, zeros 34), (0xfc80, []), (0xfce1, zeros 4), (0xfce2, zeros 8),
    (0xfd02, le 2 0x15 ++ le 2 1 ++ le 2 1 ++ le 2 1),
    (0xfd20, le 2 0x1f ++ le 2 1 ++
      (if s.hermes then le 2 (hermesMajor s) ++ le 2 (hermesMinor s) else le 2 1 ++ le 2 7)),
    (0xfd01, le 2 0x8000 ++ le 2 0 ++ le 2 4096),
    (0xfd03, le 2 1 ++ le 2 3 ++ le 2 1 ++ le 2 1 ++ le 2 1), (0xfd04, le 2 1 ++ le 2 3 ++ le 2 1 ++ le 2 1 ++ le 2 1),
    (0xfd21, le 2 1 ++ le 2 3 ++ le 2 1 ++ le 2 1 ++ le 2 1),
    scalar 0xfd40 0, scalar 0xfd44 0, scalar 0xfdc1 0, (0xfd41, zeros 34), (0xfd42, zeros 6), (0xfd43, zeros 6)] ++
  if s.hermes then
    [scalar 0xfc20 0, scalar 0xfc21 1, scalar 0xfcb1 0, (0xfc25, zeros 64)] ++
      if hermesHostScan s then [(0xfcb2, zeros 34)] else []
  else []

def addRecords (l : List Record) (added : List (Nat × List UInt8)) : List Record :=
  added.foldl (fun l r => addRecord l r.1 r.2) l

def setCis (s : Card) (cis : List UInt8) : Card := { s with records := addRecord s.records 0xfd13 cis }

def freeBuffer : Buffer := ⟨0, 0, false, fun _ => 0, Nat.zero_le _⟩
def freeRecord : Record := ⟨0, 0, fun _ => 0, fun _ => 0⟩

/-- The CIS that a reset keeps. -/
def storedCis (s : Card) : List UInt8 :=
  match record s.records 0xfd13 with
  | some r => bytesOf r.committed 4 (r.length - 4)
  | none => []

/-- The card once its state is set up again, still without the CIS. -/
def resetState (s : Card) : Card :=
  { s with
    security := Wifi.reset s.security, regs := fun _ => 0, buffers := List.replicate bufferCount freeBuffer,
    records := addRecords (List.replicate recordCount freeRecord) (resetRecords s), enabled := false, associated := false,
    linkPending := false, nextFid := 0x100, infoQueue := ⟨fun _ => 0, 0, 0⟩, rxQueue := ⟨fun _ => 0, 0, 0⟩ }

def reset (s : Card) : Card := if (storedCis s).length ≠ 0 then setCis (resetState s) (storedCis s) else resetState s

def init (security : Wifi.Security) (mac : List UInt8) (hermes : Bool) (hermesFirmware : Nat) : Card :=
  reset { security, regs := fun _ => 0, buffers := List.replicate bufferCount freeBuffer,
          records := List.replicate recordCount freeRecord, mac, enabled := false, associated := false, linkPending := false,
          hermes, hermesFirmware, nextFid := 0, infoQueue := ⟨fun _ => 0, 0, 0⟩, rxQueue := ⟨fun _ => 0, 0, 0⟩,
          transmit := false, sent := [] }

/-- The card as it is attached, with its CIS. -/
def attach (security : Wifi.Security) (mac : List UInt8) (hermes : Bool) (hermesFirmware : Nat) (cis : List UInt8) : Card :=
  setCis (init security mac hermes hermesFirmware) cis

/-! ## The data port -/

inductive Memory where
  | record (r : Record)
  | buffer (b : Buffer)

def bapMemory (s : Card) (port : Nat) : Option Memory :=
  let id := (s.regs (regSelect0 + port)).toNat
  match record s.records id with
  | some r => some (.record r)
  | none => (buffer s.buffers id).map .buffer

def Memory.capacity : Memory → Nat
  | .record _ => 128
  | .buffer b => b.length

def Memory.data : Memory → Nat → UInt8
  | .record r => r.data
  | .buffer b => b.data

def capacity (s : Card) (port : Nat) : Nat := ((bapMemory s port).map Memory.capacity).getD 0

/-- The bytes of the selected record, or else buffer, changed. -/
def bapWrite (s : Card) (port pos : Nat) (bytes : List UInt8) : Card :=
  let id := (s.regs (regSelect0 + port)).toNat
  if (record s.records id).isSome then
    { s with records := Slots.modify recordKey id (fun r => { r with data := patch r.data pos bytes }) s.records }
  else { s with buffers := Slots.modify bufferKey id (fun b => { b with data := patch b.data pos bytes }) s.buffers }

def bapData (s : Card) (port size : Nat) (write : Option Nat) : Nat × Card :=
  let offset := s.regs (regOffset0 + port)
  let pos := (offset &&& 0x3fff).toNat
  match bapMemory s port with
  | none => (0xffff, setReg s (regOffset0 + port) (offset ||| 0x4000))
  | some m =>
    if offset &&& 0x4000 ≠ 0 ∨ pos + size > m.capacity then (0xffff, setReg s (regOffset0 + port) (offset ||| 0x4000))
    else
      let out := rd size m.data pos
      let s := match write with
        | some value => bapWrite s port pos (le size value)
        | none => s
      (out, setReg s (regOffset0 + port) (UInt16.ofNat (pos + size)))

/-! ## Transmission -/

def ethSize : Nat := 1600

/-- `n` bytes of a buffer's array. -/
def loadBytes (b : Buffer) (off n : Nat) : Option (List UInt8) :=
  if off + n ≤ bufferSize then some (bytesOf b.data off n) else none

def load16 (b : Buffer) (off : Nat) : Option Nat := if off + 2 ≤ bufferSize then some (rd 2 b.data off) else none

def store16 (b : Buffer) (off v : Nat) : Option (Nat → UInt8) :=
  if off + 2 ≤ bufferSize then some (patch b.data off (le 2 v)) else none

/-- `memcpy(eth + off, bytes, …)`, on an array of which some bytes are not yet set. -/
def ethCopy (eth : Nat → Option UInt8) (off : Nat) (bytes : List UInt8) : Option (Nat → Option UInt8) :=
  if off + bytes.length ≤ ethSize then
    some fun i => if off ≤ i ∧ i < off + bytes.length then some (at' bytes (i - off)) else eth i
  else none

def ethRead (eth : Nat → Option UInt8) (n : Nat) : Option (List UInt8) :=
  if n ≤ ethSize then (List.range n).mapM eth else none

/-- A SNAP header of Ethernet or of the bridge tunnel, in eight bytes. -/
def snapHeader (p : List UInt8) : Bool :=
  at' p 0 == 0xaa && at' p 1 == 0xaa && at' p 2 == 3 && at' p 3 == 0 && at' p 4 == 0 && (at' p 5 == 0 || at' p 5 == 0xf8)

/-- The test of a buffer's data, which looks at eight bytes when there are as many. -/
def hasSnap (b : Buffer) (n : Nat) : Option Bool := if n ≥ 8 then snapHeader <$> loadBytes b 60 8 else some false

/-- The frame that `transmit` sends, if it sends one. -/
def frameOf (s : Card) (b : Buffer) : Option (Option (List UInt8)) :=
  if !s.associated || decide (b.length < 60) then some none
  else do
    let dataLen ← load16 b 44
    let typeLen ← loadBytes b 58 2
    let n := if dataLen = 0 then 256 * (at' typeLen 0).toNat + (at' typeLen 1).toNat else dataLen
    if n > ethSize - 14 ∨ 60 + n > b.length then some none
    else do
      let eth ← ethCopy (fun _ => none) 0 (← loadBytes b 46 12)
      if ← hasSnap b n then do
        let eth ← ethCopy eth 12 (← loadBytes b 66 (n - 6))
        some <$> ethRead eth (n - 8 + 14)
      else do
        let eth ← ethCopy eth 12 typeLen
        let eth ← ethCopy eth 14 (← loadBytes b 60 n)
        some <$> ethRead eth (n + 14)

/-- The TX command on the buffer `b` that has the number `param`. -/
def sendBuffer (s : Card) (b : Buffer) (value : UInt16) (param : Nat) : Option Card := do
  let frame ← frameOf s b
  let data ← store16 b 0 (if frame.isSome then 0 else 1)
  let control ← load16 b 12
  let s := { s with
    buffers := Slots.modify bufferKey param (fun b => { b with data }) s.buffers
    sent := match frame with
      | some eth => if s.transmit then s.sent ++ [eth] else s.sent
      | none => s.sent }
  let s :=
    if frame.isSome then (if control &&& 2 ≠ 0 then raise s evTx else s)
    else if control &&& 4 ≠ 0 then raise s evTxexc else s
  let s := setReg s regTxfid (UInt16.ofNat param)
  if value &&& 0x100 ≠ 0 then some (raise (setReg s regAllocfid (UInt16.ofNat param)) evAlloc)
  else some (release s param)

/-! ## Commands -/

/-- `ACCESS` with the write flag. -/
def commit (s : Card) (r : Record) (param : Nat) : Card × Nat :=
  let words := rd 2 r.data 0
  if param / 256 ≠ 0xfc ∨ words = 0 ∨ words > 63 ∨ rd 2 r.data 2 ≠ param then (s, 1)
  else
    let s := { s with
      records := Slots.modify recordKey param (fun r => { r with length := 2 + words * 2, committed := r.data }) s.records
      mac := if param = 0xfc01 ∧ words = 4 then bytesOf r.data 4 6 else s.mac }
    (if param = 0xfce1 then scan s else s, 0)

/-- `ACCESS` without it. -/
def fetch (s : Card) (param : Nat) : Card :=
  let s := refreshRecord s param
  { s with records := Slots.modify recordKey param (fun r => { r with data := r.committed }) s.records }

/-- What the command does, with its result. -/
def perform (s : Card) (value : UInt16) : Card × Nat :=
  let param := (s.regs regParam0).toNat
  match (value &&& 0x3f).toNat with
  | 0x00 => (reset s, 0)
  | 0x01 => if value &&& 0x700 ≠ 0 then (s, 1) else ({ s with enabled := true, linkPending := true }, 0)
  | 0x02 => ({ s with enabled := false, linkPending := s.associated }, 0)
  | 0x0a =>
    if s.regs regEvstat &&& evAlloc ≠ 0 then (s, 5)
    else
      match allocate s param (fun _ => 0) with
      | none => (s, 5)
      | some (s, id) =>
        (raise (setReg (setReg s regResp0 (UInt16.ofNat id)) regAllocfid (UInt16.ofNat id)) evAlloc, 0)
  | 0x0b =>
    match buffer s.buffers param with
    | none => (s, 5)
    | some b =>
      if s.regs regEvstat &&& evAlloc ≠ 0 then (s, 5)
      else ((sendBuffer s b value param).getD s, 0)
  | 0x11 =>
    if param = 0xf100 then ((info s param (zeros 42)).1, 0)
    else if param = 0xf101 then (scan s, 0)
    else if param = 0xf200 then ({ s with linkPending := true }, 0)
    else (s, 1)
  | 0x21 =>
    match record s.records param with
    | none => (s, 1)
    | some r => if value &&& 0x100 ≠ 0 then commit s r param else (fetch s param, 0)
  | _ => (s, 1)

def command (s : Card) (value : UInt16) : Card :=
  let s := setReg s regCmd (value &&& 0x7fff)
  let s := setReg (setReg (setReg s regResp0 0) (regResp0 + 1) 0) (regResp0 + 2) 0
  let (s, result) := perform s value
  raise (setReg s regStatus ((value &&& 0x3f) ||| UInt16.ofNat (result * 256))) evCmd

/-! ## Events -/

/-- The acknowledgement of one queue: its oldest number is released, the next one shown. -/
def popInfo (s : Card) (value : UInt16) : Card :=
  let s :=
    if value &&& evInfo ≠ 0 ∧ s.infoQueue.count ≠ 0 then
      { release s s.infoQueue.front with infoQueue := s.infoQueue.pop 8 }
    else s
  if s.infoQueue.count ≠ 0 then raise (setReg s regInfofid (UInt16.ofNat s.infoQueue.front)) evInfo else s

def popRx (s : Card) (value : UInt16) : Card :=
  let s :=
    if value &&& evRx ≠ 0 ∧ s.rxQueue.count ≠ 0 then { release s s.rxQueue.front with rxQueue := s.rxQueue.pop 8 }
    else s
  if s.rxQueue.count ≠ 0 then raise (setReg s regRxfid (UInt16.ofNat s.rxQueue.front)) evRx else s

def ack (s : Card) (value : UInt16) : Card :=
  popRx (popInfo (setReg s regEvstat (s.regs regEvstat &&& ~~~value)) value) value

/-! ## The window -/

def inWindow (offset size : Nat) : Bool := decide (offset < 64) && size != 0 && decide (size ≤ 8) && decide (offset + size ≤ 64)

/-- The data port at a window offset. -/
def dataPort (offset size : Nat) : Option Nat :=
  if size ≤ 2 then (if offset = regData0 * 2 then some 0 else if offset = regData1 * 2 then some 1 else none) else none

def read (s : Card) (offset size : Nat) : Nat × Card :=
  if !inWindow offset size then (2 ^ 64 - 1, s)
  else
    match dataPort offset size with
    | some port => bapData s port size none
    | none => (rd size (fun i => (s.regs (i / 2) >>> (if i % 2 = 1 then 8 else 0)).toUInt8) offset, s)

/-- A register with one of its bytes replaced. -/
def mergeByte (old : UInt16) (offset value : Nat) : UInt16 :=
  if offset % 2 = 1 then (old &&& 0x00ff) ||| UInt16.ofNat (value % 256 * 256)
    else (old &&& 0xff00) ||| UInt16.ofNat (value % 256)

def writeReg (s : Card) (reg : Nat) (v : UInt16) : Card :=
  if reg = regCmd then command s v
  else if reg = regEvack then ack s v
  else if reg = regOffset0 ∨ reg = regOffset0 + 1 then
    let v := v &&& 0xffe
    setReg s reg (if v.toNat ≥ capacity s (reg - regOffset0) then v ||| 0x4000 else v)
  else if 1 ≤ reg ∧ reg ≤ 3 ∨ reg = regInten ∨ reg = regSelect0 ∨ reg = regSelect0 + 1 ∨ 20 ≤ reg ∧ reg ≤ 22 then setReg s reg v
  else s

/-- A write of one or two bytes. -/
def writeShort (s : Card) (offset size value : Nat) : Card :=
  match dataPort offset size with
  | some port => (bapData s port size (some (value % 65536))).2
  | none =>
    writeReg s (offset / 2)
      (if size = 1 then mergeByte (s.regs (offset / 2)) offset value else UInt16.ofNat value)

/-- The accesses of at most two bytes that a longer one is made of. -/
def pieces (offset size value : Nat) : List (Nat × Nat × Nat) :=
  if size ≤ 2 then [(offset, size, value)]
  else (List.range ((size + 1) / 2)).map fun i => (offset + 2 * i, if size - 2 * i ≥ 2 then 2 else 1, value / 2 ^ (16 * i))

def write (s : Card) (offset size value : Nat) : Card :=
  if !inWindow offset size then s
  else (pieces offset size value).foldl (fun s p => writeShort s p.1 p.2.1 p.2.2) s

/-! ## Reception -/

def snap : List UInt8 := [0xaa, 0xaa, 3, 0, 0, 0]

/-- The descriptor, header and data of a received frame. -/
def receivedData (eth : List UInt8) : List UInt8 :=
  let n := eth.length - 14
  le 2 0x2000 ++ zeros 4 ++ [40, 100, 110] ++ zeros 5 ++ le 2 0x0208 ++ zeros 2 ++ eth.take 6 ++ apBssid ++
    (eth.drop 6).take 6 ++ zeros 8 ++ le 2 (n + 8) ++ eth.take 12 ++
    [UInt8.ofNat ((n + 8) / 256), UInt8.ofNat (n + 8)] ++ snap ++ eth.drop 12

def receive (s : Card) (eth : List UInt8) : Card × Bool :=
  if !s.associated || decide (eth.length < 14) || decide (eth.length > 1514) || s.rxQueue.count == 8 then (s, false)
  else if at' eth 0 &&& 1 = 0 ∧ eth.take 6 ≠ s.mac ∧ rd 2 (committed s 0xfc85) 4 = 0 then (s, false)
  else
    match allocate s (60 + 8 + (eth.length - 14)) (at' (receivedData eth)) with
    | none => (s, false)
    | some (s, id) =>
      let queue := s.rxQueue.push 8 id
      (raise (setReg { s with rxQueue := queue } regRxfid (UInt16.ofNat queue.front)) evRx, true)

end Be300.Xi825
