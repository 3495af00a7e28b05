/-
  Be300.Wifi.Security — the virtual access point's key handshake (`src/hw/wifi_security.c`,
  built with `BE300_WIFI_OPENSSL`).

  HMAC, RC4, the AES key wrap and PBKDF2 are the parameter `Crypto`; each but RC4 may fail.
  What `RAND_bytes` gives (or that it fails, leaving its buffer alone) and whether a cipher
  context could be made come with each call. A C string is the list of its characters.
-/

import Mathlib.Data.List.Basic
import Mathlib.Tactic.Common

namespace Be300.Wifi

structure Crypto where
  sha1 : List UInt8 → List UInt8 → Option (Vector UInt8 20)
  md5 : List UInt8 → List UInt8 → Option (Vector UInt8 16)
  rc4 : List UInt8 → List UInt8 → List UInt8
  wrap : List UInt8 → List UInt8 → Option (List UInt8)
  pbkdf2 : List UInt8 → Option (List UInt8)

structure Security where
  mode : Nat
  stage : Nat
  valid : Bool
  authorized : Bool
  pairwise : Bool
  group : Bool
  secret : List UInt8
  mac : List UInt8
  bssid : List UInt8
  pmk : List UInt8
  ptk : List UInt8
  anonce : List UInt8
  gtk : List UInt8
  ie : List UInt8
  replay : UInt64
  pending : List UInt8
  pendingLen : Nat

def zeros (n : Nat) : List UInt8 := List.replicate n 0

/-- `memcpy(buf + off, bytes, …)`. -/
def put (buf : List UInt8) (off : Nat) (bytes : List UInt8) : List UInt8 :=
  buf.take off ++ bytes ++ buf.drop (off + bytes.length)

def byte (p : List UInt8) (i : Nat) : UInt8 := p.getD i 0

def be16 (p : List UInt8) (i : Nat) : Nat := (byte p i).toNat * 256 + (byte p (i + 1)).toNat

def put16 (v : Nat) : List UInt8 := [UInt8.ofNat (v / 256), UInt8.ofNat v]

def hex (c : UInt8) : Option UInt8 :=
  if 48 ≤ c ∧ c ≤ 57 then some (c - 48)
  else if 97 ≤ c ∧ c ≤ 102 then some (c - 97 + 10)
  else if 65 ≤ c ∧ c ≤ 70 then some (c - 65 + 10)
  else none

def hexBytes : List UInt8 → Option (List UInt8)
  | a :: b :: rest =>
    match hex a, hex b, hexBytes rest with
    | some x, some y, some l => some ((x * 16 + y) :: l)
    | _, _, _ => none
  | _ => some []

/-! ## Configuration -/

def reset (s : Security) : Security :=
  { s with stage := 0, pendingLen := 0, authorized := false, pairwise := false, group := false, ptk := zeros 64 }

def rsn : List UInt8 := [48, 20, 1, 0, 0, 15, 172, 4, 1, 0, 0, 15, 172, 4, 1, 0, 0, 15, 172, 2, 0, 0]
def wpa : List UInt8 := [221, 22, 0, 80, 242, 1, 1, 0, 0, 80, 242, 2, 1, 0, 0, 80, 242, 2, 1, 0, 0, 80, 242, 2]

/-- Digits decoded before a bad one are not kept: nothing reads them while `valid` is false. -/
def configure (c : Crypto) (s : Security) (mode : Nat) (key : Option (List UInt8)) : Security × Bool :=
  let s := { reset s with valid := false, mode, ie := [], secret := [], pmk := zeros 32 }
  let key := key.getD []
  let n := key.length
  if mode > 3 ∨ n > 64 then (s, false)
  else if mode = 1 then
    if n ≠ 5 ∧ n ≠ 13 ∧ n ≠ 10 ∧ n ≠ 26 then (s, false)
    else if n = 10 ∨ n = 26 then
      match hexBytes key with
      | some secret => ({ s with secret, valid := true }, true)
      | none => (s, false)
    else ({ s with secret := key, valid := true }, true)
  else if 2 ≤ mode then
    if n < 8 then (s, false)
    else
      match if n = 64 then hexBytes key else c.pbkdf2 key with
      | some pmk => ({ s with pmk, ie := if mode = 3 then rsn else wpa, valid := true }, true)
      | none => (s, false)
  else ({ s with valid := true }, true)

/-- `mode` is the value of `BE300_WIFI_SECURITY`, `key` that of `BE300_WIFI_KEY`. -/
def init (c : Crypto) (mac : List UInt8) (mode : Nat) (key : Option (List UInt8)) : Security :=
  (configure c
    { mode := 0, stage := 0, valid := false, authorized := false, pairwise := false, group := false, secret := [],
      mac, bssid := [2, 0x42, 0x45, 0x33, 0x30, 0x30], pmk := zeros 32, ptk := zeros 64, anonce := zeros 32,
      gtk := zeros 32, ie := [], replay := 0, pending := zeros 512, pendingLen := 0 } mode key).1

def wep (s : Security) (index : Nat) (key : List UInt8) : Bool :=
  s.valid && s.mode == 1 && decide (index < 4) && key == s.secret

/-! ## Frames of the handshake -/

def hmac (c : Crypto) (mode : Nat) (key data : List UInt8) : Option (List UInt8) :=
  if mode = 2 then (c.sha1 key data).map Vector.toList else (c.md5 key data).map Vector.toList

/-- The frame `e` with its MIC; with a zero one when HMAC fails. -/
def mic (c : Crypto) (s : Security) (e : List UInt8) : List UInt8 × Bool :=
  let e := put e 81 (zeros 16)
  match hmac c (if s.mode = 3 then 2 else 1) (s.ptk.take 16) e with
  | none => (e, false)
  | some hash => (put e 81 (hash.take 16), true)

def replayBytes (r : UInt64) : List UInt8 := (List.range 8).map fun i => (r >>> UInt64.ofNat (56 - 8 * i)).toUInt8

/-- The buffer `build` fills, its MIC still zero. -/
def keyFrame (s : Security) (info : Nat) (key : List UInt8) : List UInt8 :=
  let p := put (put (zeros 512) 0 s.mac) 6 s.bssid
  let p := put p 12 [0x88, 0x8e]
  let p := put p 14 [2, 3]
  let p := put p 18 [if s.mode = 3 then 2 else 254]
  let p := put (put p 19 (put16 info)) 21 (put16 (if s.mode = 3 then 16 else 32))
  let p := put p 23 (replayBytes s.replay)
  let p := if info &&& 8 ≠ 0 then put p 31 (s.anonce.take 32) else p
  let p := put p 113 key
  put (put p 111 (put16 key.length)) 16 (put16 (95 + key.length))

def build (c : Crypto) (s : Security) (info : Nat) (key : List UInt8) : Security × Bool :=
  let p := keyFrame s info key
  if info &&& 256 ≠ 0 then
    let (e, ok) := mic c s ((p.drop 14).take (99 + key.length))
    let s := { s with pending := put p 14 e }
    if ok then ({ s with pendingLen := 14 + 99 + key.length }, true) else (s, false)
  else ({ s with pending := p, pendingLen := 14 + 99 + key.length }, true)

/-- `memcmp(a, b, …) > 0`. -/
def after : List UInt8 → List UInt8 → Bool
  | a :: l, b :: m => if a = b then after l m else a > b
  | _, _ => false

/-- The rounds of `derive` not yet done; with what they have written, and whether HMAC failed. -/
def deriveLoop (c : Crypto) (pmk input : List UInt8) : List Nat → List UInt8 → List UInt8 × Bool
  | [], done => (done, true)
  | i :: rounds, done =>
    match hmac c 2 pmk (input ++ [UInt8.ofNat i]) with
    | none => (done, false)
    | some hash => deriveLoop c pmk input rounds (done ++ hash.take (min 20 (64 - done.length)))

/-- "Pairwise key expansion" and its zero byte. -/
def label : List UInt8 :=
  [80, 97, 105, 114, 119, 105, 115, 101, 32, 107, 101, 121, 32, 101, 120, 112, 97, 110, 115, 105, 111, 110, 0]

/-- The addresses and the nonces, each pair in its order. -/
def deriveInput (s : Security) (snonce : List UInt8) : List UInt8 :=
  label ++ (if after s.mac s.bssid then s.bssid ++ s.mac else s.mac ++ s.bssid) ++
    (if after s.anonce snonce then snonce ++ s.anonce else s.anonce ++ snonce)

/-- The PTK of a station's nonce, or what there is of it when HMAC fails. -/
def pairwiseKey (c : Crypto) (s : Security) (snonce : List UInt8) : List UInt8 × Bool :=
  deriveLoop c s.pmk (deriveInput s snonce) [0, 1, 2, 3] []

def derive (c : Crypto) (s : Security) (snonce : List UInt8) : Security × Bool :=
  let (key, ok) := pairwiseKey c s snonce
  -- four rounds write all 64 bytes
  ({ s with ptk := if ok then key else put s.ptk 0 key }, ok)

/-- Filled up to a multiple of eight bytes. -/
def pad (data : List UInt8) : List UInt8 :=
  if data.length % 8 = 0 then data else data ++ 221 :: zeros ((8 - (data.length + 1) % 8) % 8)

def message3 (c : Crypto) (s : Security) (ctx : Bool) : Security × Bool :=
  let s := { s with replay := s.replay + 1 }
  if s.mode = 2 then build c s 0x01c9 s.ie
  else
    let data := pad (s.ie ++ [221, 22] ++ [0x00, 0x0f, 0xac, 0x01, 0x01, 0x00] ++ s.gtk.take 16)
    if !ctx then (s, false)
    else
      match c.wrap ((s.ptk.drop 16).take 16) data with
      | none => (s, false)
      | some wrapped => build c s 0x13ca wrapped

def group1 (c : Crypto) (s : Security) (iv : Option (List UInt8)) : Security × Bool :=
  match iv with
  | none => (s, false)
  | some iv =>
    let data := c.rc4 (iv ++ (s.ptk.drop 16).take 16) (s.gtk.take 32)
    let s := { s with replay := s.replay + 1 }
    let (s, ok) := build c s 0x0391 data
    if !ok then (s, false)
    else
      let p := put s.pending 63 iv
      let (e, ok) := mic c s ((p.drop 14).take 131)
      ({ s with pending := put p 14 e }, ok)

/-! ## The interface -/

def start (c : Crypto) (s : Security) (anonce gtk : Option (List UInt8)) : Security :=
  let s := reset s
  if !s.valid then s
  else if s.mode < 2 then { s with authorized := true }
  else
    match anonce with
    | none => s
    | some anonce =>
      let s := { s with anonce }
      match gtk with
      | none => s
      | some gtk =>
        let (s, ok) := build c { s with gtk, replay := 1 } (if s.mode = 3 then 0x008a else 0x0089) []
        if ok then { s with stage := 1 } else s

def eapol (p : List UInt8) : Bool := byte p 12 == 0x88 && byte p 13 == 0x8e

/-- The parts of a handshake frame, `e` from its version byte on. -/
def keyInfo (e : List UInt8) : Nat := be16 e 5
def keyReplay (e : List UInt8) : UInt64 := (List.range 8).foldl (fun r i => (r <<< 8) ||| (byte e (9 + i)).toUInt64) 0
def snonce (e : List UInt8) : List UInt8 := (e.drop 17).take 32
def dataLength (e : List UInt8) : Nat := be16 e 97
def frameLength (e : List UInt8) : Nat := be16 e 2 + 4

/-- A key frame of the station, by its addresses and its header. -/
def wellFormed (s : Security) (p : List UInt8) : Bool :=
  let e := p.drop 14
  let length := frameLength e
  let info := keyInfo e
  !(decide (s.mode < 2) || decide (p.length < 113) || p.take 6 != s.bssid || (p.drop 6).take 6 != s.mac) &&
    !(decide (length < 99) || decide (length > p.length - 14) || decide (length > 400) || byte e 1 != 3 ||
      info &&& 256 == 0 || info &&& 128 != 0 || info &&& 7 != (if s.mode = 3 then 2 else 1) || dataLength e != length - 99)

/-- The frame carries the MIC that its bytes have under the PTK. -/
def micValid (c : Crypto) (s : Security) (e : List UInt8) : Bool :=
  let (copy, ok) := mic c s (e.take (frameLength e))
  ok && (copy.drop 81).take 16 == (e.drop 81).take 16

/-- The rest of `wifi_security_tx` once the MIC is found valid. -/
def advance (c : Crypto) (s : Security) (e : List UInt8) (iv : Option (List UInt8)) (ctx : Bool) : Security :=
  if s.stage = 1 ∧ keyInfo e &&& 8 ≠ 0 then
    let (s, ok) := message3 c s ctx
    if ok then { s with stage := 2 } else s
  else if s.stage = 2 ∧ keyInfo e &&& 8 ≠ 0 ∧ dataLength e = 0 then
    if s.mode = 3 then { s with stage := 4, authorized := true }
    else
      let (s, ok) := group1 c s iv
      if ok then { s with stage := 3 } else s
  else if s.stage = 3 ∧ keyInfo e &&& 8 = 0 then { s with stage := 4, authorized := true }
  else s

def verify (c : Crypto) (s : Security) (e : List UInt8) (iv : Option (List UInt8)) (ctx : Bool) : Security :=
  if micValid c s e then advance c s e iv ctx else s

def tx (c : Crypto) (s : Security) (p : List UInt8) (iv : Option (List UInt8)) (ctx : Bool) : Security × Bool :=
  if p.length < 14 ∨ !s.valid then (s, false)
  else if !eapol p then (s, s.authorized && (decide (s.mode < 2) || s.pairwise && s.group))
  else if !wellFormed s p then (s, false)
  else if keyReplay (p.drop 14) ≠ s.replay then (s, false)
  else if s.stage = 1 then
    let (s, derived) := derive c s (snonce (p.drop 14))
    (if derived then verify c s (p.drop 14) iv ctx else s, false)
  else (verify c s (p.drop 14) iv ctx, false)

def pop (s : Security) (n : Nat) : Security × List UInt8 :=
  if s.pendingLen = 0 ∨ n < s.pendingLen then (s, [])
  else ({ s with pendingLen := 0 }, s.pending.take s.pendingLen)

/-- What `wifi_security_key` compares a key of `n` bytes with. -/
def keyTarget (s : Security) (pairwise : Bool) (cipher n : Nat) : List UInt8 :=
  let base := if pairwise then s.ptk.drop 32 else s.gtk
  if cipher = 1 then (base.take n).take 16 ++ (base.drop 24).take 8 ++ (base.drop 16).take 8 else base.take n

def key (s : Security) (pairwise : Bool) (cipher : Nat) (key : List UInt8) : Security × Bool :=
  if key.length = 0 then (if pairwise then { s with pairwise := false } else { s with group := false }, true)
  else if s.stage < 2 then (s, false)
  else if key.length ≠ (if s.mode = 3 then 16 else 32) ∨ cipher ≠ (if s.mode = 3 then 2 else 1) then (s, false)
  else if keyTarget s pairwise cipher key.length ≠ key then (s, false)
  else (if pairwise then { s with pairwise := true } else { s with group := true }, true)

def rekey (c : Crypto) (s : Security) (gtk iv : Option (List UInt8)) (ctx : Bool) : Security × Bool :=
  if s.stage ≠ 4 then (s, false)
  else
    match gtk with
    | none => (s, false)
    | some gtk =>
      let s := { s with gtk, group := false, stage := 3 }
      if s.mode = 2 then group1 c s iv
      else if !ctx then (s, false)
      else
        let wrapped := c.wrap ((s.ptk.drop 16).take 16) ([221, 22, 0, 15, 172, 1, 1, 0] ++ s.gtk.take 16)
        let s := { s with replay := s.replay + 1 }
        match wrapped with
        | none => (s, false)
        | some wrapped => build c s 0x1382 wrapped

end Be300.Wifi
