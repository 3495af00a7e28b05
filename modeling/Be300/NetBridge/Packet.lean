/-
  Be300.NetBridge.Packet — the packets the network bridge builds and takes apart
  (`tools/net_bridge/main.go`): `ethernet`, `udpPacket`, `tcpPacket`, `ipv4`, `parseIPv4` and
  their checksums.

  A buffer is a byte list; every index and slice expression is checked, and one out of range
  is a fault. `sum` of `checksum` is a `uint32`.

  Proved (`packet_carried`): a packet whose lengths fit their 16 bits is built without a fault,
  the frame it is put in parses to its addresses, its protocol and its segment alone, and both
  checksums verify.
-/

import Be300.Lib.Ends
import Be300.Lib.OnesComplement
import Be300.Lib.Seq32
import Be300.Lib.Slices

namespace Be300.NetBridge

open Lib.Slices
open Lib (Seq pairs words words_even words_odd words_append words_pad words_le fold fold_verifies fold_lt splice)

/-! ## The source's functions -/

def ethIPv4 : UInt16 := 0x0800
def ethARP : UInt16 := 0x0806
def minEthernetFrame : Nat := 60

def zeros (n : Nat) : List UInt8 := List.replicate n 0

def be16 (b : List UInt8) : Checked UInt16 := do return UInt16.ofNat (← number 2 b)

def be32 (b : List UInt8) : Checked Seq := do return BitVec.ofNat 32 (← number 4 b)

/-- `put16(b[i:j], v)`. -/
def put16 (b : List UInt8) (i j : Nat) (v : UInt16) : Checked (List UInt8) := put 2 b i j v.toNat

def put32 (b : List UInt8) (i j : Nat) (v : Seq) : Checked (List UInt8) := put 4 b i j v.toNat

/-- The words of `buf` from `i` on, added to `sum`. -/
def checksumFrom (buf : List UInt8) (i sum : Nat) : Checked Nat :=
  if _h : i + 1 < buf.length then do
    let w ← be16 (← sub buf i (i + 2))
    checksumFrom buf (i + 2) ((sum + w.toNat) % 2 ^ 32)
  else .ok sum
termination_by buf.length - i

def checksum (buf : List UInt8) : Checked UInt16 := do
  let sum ← checksumFrom buf 0 0
  if buf.length % 2 ≠ 0 then
    let last ← load buf (buf.length - 1)
    return ~~~ UInt16.ofNat (fold ((sum + last.toNat * 256) % 2 ^ 32))
  return ~~~ UInt16.ofNat (fold sum)

def transportChecksum (proto : UInt8) (srcIP dstIP segment : List UInt8) : Checked UInt16 := do
  let pseudo := zeros (12 + segment.length + segment.length % 2)
  let pseudo ← copy pseudo 0 4 srcIP
  let pseudo ← copy pseudo 4 8 dstIP
  let pseudo ← store pseudo 9 proto
  let pseudo ← put16 pseudo 10 12 (UInt16.ofNat segment.length)
  let pseudo ← copy pseudo 12 pseudo.length segment
  checksum pseudo

def ethernet (dstMAC srcMAC : List UInt8) (typ : UInt16) (payload : List UInt8) : Checked (List UInt8) := do
  let frame := zeros (if 14 + payload.length < minEthernetFrame then minEthernetFrame else 14 + payload.length)
  let frame ← copy frame 0 6 dstMAC
  let frame ← copy frame 6 12 srcMAC
  let frame ← put16 frame 12 14 typ
  copy frame 14 frame.length payload

structure IPv4Packet where
  srcMAC : List UInt8
  dstMAC : List UInt8
  srcIP : List UInt8
  dstIP : List UInt8
  proto : UInt8
  payload : List UInt8
  deriving DecidableEq

def parseIPv4 (frame : List UInt8) : Checked (Option IPv4Packet) := do
  if frame.length < 34 then return none
  if (← load frame 14) >>> 4 ≠ 4 then return none
  let ihl := ((← load frame 14) &&& 0x0f).toNat * 4
  let total := (← be16 (← sub frame 16 18)).toNat
  if ihl < 20 ∨ total < ihl ∨ frame.length < 14 + total then return none
  return some
    { srcMAC := ← sub frame 6 12
      dstMAC := ← sub frame 0 6
      srcIP := ← sub frame 26 30
      dstIP := ← sub frame 30 34
      proto := ← load frame 23
      payload := ← sub frame (14 + ihl) (14 + total) }

/-- The IPv4 packet `udpPacket` and `tcpPacket` put their segment in. -/
def packetOf (proto : UInt8) (srcIP dstIP segment : List UInt8) : Checked (List UInt8) := do
  let packet := zeros (20 + segment.length)
  let packet ← store packet 0 0x45
  let packet ← store packet 8 64
  let packet ← store packet 9 proto
  let packet ← put16 packet 2 4 (UInt16.ofNat packet.length)
  let packet ← copy packet 12 16 srcIP
  let packet ← copy packet 16 20 dstIP
  let packet ← copy packet 20 packet.length segment
  put16 packet 10 12 (← checksum (← sub packet 0 20))

/-- `sendIP`'s packet; `id` is the bridge's `ipID`. -/
def ipv4 (id : UInt16) (srcIP dstIP : List UInt8) (proto : UInt8) (payload : List UInt8) : Checked (List UInt8) := do
  let packet := zeros (20 + payload.length)
  let packet ← store packet 0 0x45
  let packet ← store packet 8 64
  let packet ← store packet 9 proto
  let packet ← put16 packet 2 4 (UInt16.ofNat packet.length)
  let packet ← put16 packet 4 6 id
  let packet ← copy packet 12 16 srcIP
  let packet ← copy packet 16 20 dstIP
  let packet ← copy packet 20 packet.length payload
  put16 packet 10 12 (← checksum (← sub packet 0 20))

def udpPacket (srcIP dstIP : List UInt8) (srcPort dstPort : UInt16) (body : List UInt8) : Checked (List UInt8) := do
  let udp := zeros (8 + body.length)
  let udp ← put16 udp 0 2 srcPort
  let udp ← put16 udp 2 4 dstPort
  let udp ← put16 udp 4 6 (UInt16.ofNat udp.length)
  let udp ← copy udp 8 udp.length body
  let udp ← put16 udp 6 8 (← transportChecksum 17 srcIP dstIP udp)
  packetOf 17 srcIP dstIP udp

def tcpPacket (srcIP dstIP : List UInt8) (srcPort dstPort : UInt16) (seq ack : Seq) (flags : UInt8) (body : List UInt8) :
    Checked (List UInt8) := do
  let tcp := zeros (20 + body.length)
  let tcp ← put16 tcp 0 2 srcPort
  let tcp ← put16 tcp 2 4 dstPort
  let tcp ← put32 tcp 4 8 seq
  let tcp ← put32 tcp 8 12 ack
  let tcp ← store tcp 12 ((5 : UInt8) <<< 4)
  let tcp ← store tcp 13 flags
  let tcp ← put16 tcp 14 16 8192
  let tcp ← copy tcp 20 tcp.length body
  let tcp ← put16 tcp 16 18 (← transportChecksum 6 srcIP dstIP tcp)
  packetOf 6 srcIP dstIP tcp

/-! ## Checksums -/

theorem be16_pair (a b : UInt8) : be16 [a, b] = .ok (UInt16.ofNat (256 * a.toNat + b.toNat)) := by
  simp [be16, number, num, bind, Except.bind, pure, Except.pure]

theorem be16_pair_toNat (a b : UInt8) : (UInt16.ofNat (256 * a.toNat + b.toNat)).toNat = 256 * a.toNat + b.toNat := by
  have ha : a.toNat < 256 := a.toNat_lt
  have hb : b.toNat < 256 := b.toNat_lt
  rw [UInt16.toNat_ofNat']
  omega

theorem checksumFrom_eq (p l : List UInt8) (sum : Nat) (hsum : sum < 2 ^ 32) :
    checksumFrom (p ++ l) p.length sum = .ok ((sum + pairs l) % 2 ^ 32) := by
  induction l using Lib.words.induct generalizing p sum with
  | case1 a b l ih =>
    have hsub : sub (p ++ a :: b :: l) p.length (p.length + 2) = .ok [a, b] := by
      rw [sub_ok (by omega) (by simp)]
      simp [List.take_append]
    have hnext := ih (p ++ [a, b]) _ (Nat.mod_lt (sum + (256 * a.toNat + b.toNat)) (by decide : 0 < 2 ^ 32))
    rw [List.append_assoc, List.length_append] at hnext
    rw [checksumFrom, dif_pos (by simp), hsub]
    simp only [bind, Except.bind, be16_pair, be16_pair_toNat]
    apply hnext.trans
    rw [pairs]
    congr 1
    omega
  | case2 a =>
    rw [checksumFrom, dif_neg (by simp), pairs, Nat.add_zero, Nat.mod_eq_of_lt hsum]
    simp
  | case3 =>
    rw [checksumFrom, dif_neg (by simp), pairs, Nat.add_zero, Nat.mod_eq_of_lt hsum]
    simp

/-- Every buffer has a checksum. -/
theorem checksum_eq (buf : List UInt8) : checksum buf = .ok (~~~ UInt16.ofNat (fold (words buf % 2 ^ 32))) := by
  have hloop := checksumFrom_eq [] buf 0 (by decide)
  rw [List.nil_append, List.length_nil, Nat.zero_add] at hloop
  rw [checksum, hloop]
  simp only [bind, Except.bind, pure, Except.pure]
  split
  · rename_i hodd
    rw [load_ok (by omega), words_odd hodd]
    simp only
    congr 4
    omega
  · rename_i heven
    rw [words_even (by omega)]

theorem complement_toNat (s : Nat) : (~~~ UInt16.ofNat (fold s)).toNat = 65535 - fold s := by
  have hlt := fold_lt s
  rw [UInt16.toNat_not, UInt16.toNat_ofNat', Nat.mod_eq_of_lt hlt]
  rfl

theorem words_be_two (n : Nat) : words (be 2 n) = n % 65536 := by
  rw [be_two]
  simp only [words, UInt8.toNat_ofNat']
  omega

/-- A buffer whose checksum is stored in it, in a word that was zero, sums to all ones. -/
theorem checksum_verifies {p q : List UInt8} {c : UInt16} (hp : p.length % 2 = 0) (hlen : p.length + q.length ≤ 131068)
    (h : checksum (p ++ [0, 0] ++ q) = .ok c) : fold (words (p ++ be 2 c.toNat ++ q)) = 0xFFFF := by
  have hzero : words (p ++ [0, 0] ++ q) = words p + words q := by
    rw [words_append (by simp; omega), words_append hp]
    simp [words]
  have hsum : words p + words q ≤ 65535 * 65535 := by
    have hle := words_le (p ++ q)
    rw [words_append hp, List.length_append] at hle
    omega
  rw [checksum_eq, hzero, Nat.mod_eq_of_lt (by omega)] at h
  have hc : c = ~~~ UInt16.ofNat (fold (words p + words q)) := by
    cases h
    rfl
  have hfilled : words (p ++ be 2 c.toNat ++ q) = words p + words q + (65535 - fold (words p + words q)) := by
    have hlt := fold_lt (words p + words q)
    rw [words_append (by simp; omega), words_append hp, words_be_two, hc, complement_toNat]
    omega
  rw [hfilled, fold_verifies]

/-! ## Buffers that are filled in -/

section Fill

variable {p t b : List UInt8} {i j : Nat}

theorem put16_append (v : UInt16) (hij : i + 2 ≤ j) (hj : j ≤ p.length) :
    put16 (p ++ t) i j v = .ok (splice p i (i + 2) (be 2 v.toNat) ++ t) := put_append hij hj

theorem put32_append (v : Seq) (hij : i + 4 ≤ j) (hj : j ≤ p.length) :
    put32 (p ++ t) i j v = .ok (splice p i (i + 4) (be 4 v.toNat) ++ t) := put_append hij hj

theorem zeros_add (k n : Nat) : zeros (k + n) = zeros k ++ zeros n := List.replicate_add ..

/-- The rest of a buffer, made as long as what is copied to it. -/
theorem copy_rest (hi : p.length = i) (s : List UInt8) :
    copy (p ++ zeros s.length) i (p ++ zeros s.length).length s = .ok (p ++ s) := by
  have htail := copy_tail (z := zeros s.length) (s := s) hi (by simp [zeros])
  rwa [show (zeros s.length).drop s.length = [] by simp [zeros], List.append_nil] at htail

end Fill

theorem exists_four {l : List UInt8} (h : l.length = 4) : ∃ a b c d, l = [a, b, c, d] := by
  rcases l with _ | ⟨a, _ | ⟨b, _ | ⟨c, _ | ⟨d, _ | _⟩⟩⟩⟩ <;> simp at h
  exact ⟨a, b, c, d, rfl⟩

theorem exists_six {l : List UInt8} (h : l.length = 6) : ∃ a b c d e f, l = [a, b, c, d, e, f] := by
  rcases l with _ | ⟨a, _ | ⟨b, l⟩⟩
  · simp at h
  · simp at h
  · obtain ⟨c, d, e, f, rfl⟩ := exists_four (l := l) (by simpa using h)
    exact ⟨a, b, c, d, e, f, rfl⟩

/-- What `transportChecksum` sums before the segment. -/
def pseudoHeader (proto : UInt8) (srcIP dstIP : List UInt8) (n : UInt16) : List UInt8 :=
  srcIP ++ dstIP ++ [0, proto] ++ be 2 n.toNat

def ipHeader (proto : UInt8) (srcIP dstIP : List UInt8) (total c : UInt16) : List UInt8 :=
  [0x45, 0] ++ be 2 total.toNat ++ [0, 0, 0, 0, 64, proto] ++ be 2 c.toNat ++ srcIP ++ dstIP

def udpHeader (srcPort dstPort n c : UInt16) : List UInt8 :=
  be 2 srcPort.toNat ++ be 2 dstPort.toNat ++ be 2 n.toNat ++ be 2 c.toNat

def tcpHeader (srcPort dstPort : UInt16) (seq ack : Seq) (flags : UInt8) (c : UInt16) : List UInt8 :=
  be 2 srcPort.toNat ++ be 2 dstPort.toNat ++ be 4 seq.toNat ++ be 4 ack.toNat ++ [(5 : UInt8) <<< 4, flags] ++
    be 2 (8192 : UInt16).toNat ++ be 2 c.toNat ++ [0, 0]

theorem udpHeader_length (srcPort dstPort n c : UInt16) : (udpHeader srcPort dstPort n c).length = 8 := by simp [udpHeader]

theorem tcpHeader_length (srcPort dstPort : UInt16) (seq ack : Seq) (flags : UInt8) (c : UInt16) :
    (tcpHeader srcPort dstPort seq ack flags c).length = 20 := by simp [tcpHeader]

theorem transportChecksum_eq (proto : UInt8) {srcIP dstIP : List UInt8} (hsrc : srcIP.length = 4) (hdst : dstIP.length = 4)
    (segment : List UInt8) : transportChecksum proto srcIP dstIP segment =
      checksum (pseudoHeader proto srcIP dstIP (UInt16.ofNat segment.length) ++ segment) := by
  obtain ⟨a, b, c, d, rfl⟩ := exists_four hsrc
  obtain ⟨e, f, g, h, rfl⟩ := exists_four hdst
  generalize htotal : UInt16.ofNat segment.length = total
  have hwritten : splice (((splice (splice (zeros 12) 0 (0 + [a, b, c, d].length) [a, b, c, d]) 4 (4 + [e, f, g, h].length)
      [e, f, g, h])).set 9 proto) 10 (10 + 2) (be 2 total.toNat) = pseudoHeader proto [a, b, c, d] [e, f, g, h] total := rfl
  have htail := copy_tail (p := pseudoHeader proto [a, b, c, d] [e, f, g, h] total)
    (z := zeros (segment.length + segment.length % 2)) (s := segment) (i := 12) rfl (by simp [zeros])
  have hpad : (zeros (segment.length + segment.length % 2)).drop segment.length = zeros (segment.length % 2) := by
    simp [zeros]
  rw [transportChecksum, Nat.add_assoc, zeros_add, htotal]
  simp (disch := simp [zeros, splice]) only [bind, Except.bind, copy_append, store_append, put16_append]
  rw [hwritten, htail, hpad]
  simp only
  by_cases hodd : segment.length % 2 = 0
  · rw [hodd, zeros, List.replicate_zero, List.append_nil]
  · have hone : segment.length % 2 = 1 := by omega
    have hwords := words_pad (l := pseudoHeader proto [a, b, c, d] [e, f, g, h] total ++ segment) (by
      simp [pseudoHeader]
      omega)
    rw [List.append_assoc] at hwords
    rw [hone, checksum_eq, checksum_eq, show zeros 1 = [0] from rfl, hwords]

theorem packetOf_eq (proto : UInt8) {srcIP dstIP : List UInt8} (hsrc : srcIP.length = 4) (hdst : dstIP.length = 4)
    (segment : List UInt8) {c : UInt16}
    (hc : checksum (ipHeader proto srcIP dstIP (UInt16.ofNat (20 + segment.length)) 0) = .ok c) :
    packetOf proto srcIP dstIP segment = .ok (ipHeader proto srcIP dstIP (UInt16.ofNat (20 + segment.length)) c ++ segment) := by
  obtain ⟨a, b, c', d, rfl⟩ := exists_four hsrc
  obtain ⟨e, f, g, h, rfl⟩ := exists_four hdst
  generalize htotal : UInt16.ofNat (20 + segment.length) = total at hc ⊢
  have hlen : ((((zeros 20).set 0 69).set 8 64).set 9 proto ++ zeros segment.length).length = 20 + segment.length := by
    rw [List.length_append]
    simp [zeros]
  have hwritten : splice (splice (splice ((((zeros 20).set 0 69).set 8 64).set 9 proto) 2 (2 + 2) (be 2 total.toNat))
      12 (12 + [a, b, c', d].length) [a, b, c', d]) 16 (16 + [e, f, g, h].length) [e, f, g, h] =
      ipHeader proto [a, b, c', d] [e, f, g, h] total 0 := rfl
  have hheader : sub (ipHeader proto [a, b, c', d] [e, f, g, h] total 0 ++ segment) 0 20 =
      .ok (ipHeader proto [a, b, c', d] [e, f, g, h] total 0) := sub_append (Nat.zero_le _) (Nat.le_refl 20)
  have hput := put16_append (p := ipHeader proto [a, b, c', d] [e, f, g, h] total 0) (t := segment) (i := 10) (j := 12) c
    (Nat.le_refl 12) (show 12 ≤ 20 by decide)
  have hrest := copy_rest (p := ipHeader proto [a, b, c', d] [e, f, g, h] total 0) (i := 20) rfl segment
  rw [packetOf, zeros_add]
  simp (disch := simp [zeros, splice]) only [bind, Except.bind, store_append, put16_append, copy_append]
  rw [hlen, htotal, hwritten, hrest]
  simp only
  rw [hheader]
  simp only
  rw [hc]
  simp only
  rw [hput]
  rfl

theorem udpPacket_eq (srcIP dstIP : List UInt8) (srcPort dstPort : UInt16) (body : List UInt8) {c : UInt16}
    (hc : transportChecksum 17 srcIP dstIP (udpHeader srcPort dstPort (UInt16.ofNat (8 + body.length)) 0 ++ body) = .ok c) :
    udpPacket srcIP dstIP srcPort dstPort body =
      packetOf 17 srcIP dstIP (udpHeader srcPort dstPort (UInt16.ofNat (8 + body.length)) c ++ body) := by
  generalize htotal : UInt16.ofNat (8 + body.length) = total at hc ⊢
  have hlen : (splice (splice (zeros 8) 0 (0 + 2) (be 2 srcPort.toNat)) 2 (2 + 2) (be 2 dstPort.toNat) ++
      zeros body.length).length = 8 + body.length := by
    rw [List.length_append]
    simp [splice, zeros]
  have hwritten : splice (splice (splice (zeros 8) 0 (0 + 2) (be 2 srcPort.toNat)) 2 (2 + 2) (be 2 dstPort.toNat))
      4 (4 + 2) (be 2 total.toNat) = udpHeader srcPort dstPort total 0 := rfl
  have hput := put16_append (p := udpHeader srcPort dstPort total 0) (t := body) (i := 6) (j := 8) c (Nat.le_refl 8)
    (by simp [udpHeader_length])
  have hrest := copy_rest (p := udpHeader srcPort dstPort total 0) (i := 8) (udpHeader_length ..) body
  rw [udpPacket, zeros_add]
  simp (disch := simp [zeros, splice]) only [bind, Except.bind, put16_append]
  rw [hlen, htotal, hwritten, hrest]
  simp only
  rw [hc]
  simp only
  rw [hput]
  rfl

theorem tcpPacket_eq (srcIP dstIP : List UInt8) (srcPort dstPort : UInt16) (seq ack : Seq) (flags : UInt8) (body : List UInt8)
    {c : UInt16} (hc : transportChecksum 6 srcIP dstIP (tcpHeader srcPort dstPort seq ack flags 0 ++ body) = .ok c) :
    tcpPacket srcIP dstIP srcPort dstPort seq ack flags body =
      packetOf 6 srcIP dstIP (tcpHeader srcPort dstPort seq ack flags c ++ body) := by
  have hwritten : splice (((splice (splice (splice (splice (zeros 20) 0 (0 + 2) (be 2 srcPort.toNat)) 2 (2 + 2)
      (be 2 dstPort.toNat)) 4 (4 + 4) (be 4 seq.toNat)) 8 (8 + 4) (be 4 ack.toNat)).set 12 ((5 : UInt8) <<< 4)).set 13 flags)
      14 (14 + 2) (be 2 (8192 : UInt16).toNat) = tcpHeader srcPort dstPort seq ack flags 0 := by
    simp [splice, zeros, tcpHeader, be_two, be_four, List.replicate_succ]
  have hput := put16_append (p := tcpHeader srcPort dstPort seq ack flags 0) (t := body) (i := 16) (j := 18) c
    (Nat.le_refl 18) (by rw [tcpHeader_length]; decide)
  have hrest := copy_rest (p := tcpHeader srcPort dstPort seq ack flags 0) (i := 20) (tcpHeader_length ..) body
  rw [tcpPacket, zeros_add]
  simp (disch := simp [zeros, splice]) only [bind, Except.bind, put16_append, put32_append, store_append]
  rw [hwritten, hrest]
  simp only
  rw [hc]
  simp only
  rw [hput]
  rfl

/-! ## A packet and its frame -/

abbrev Addr := { ip : List UInt8 // ip.length = 4 }

abbrev Mac := { mac : List UInt8 // mac.length = 6 }

inductive Transport where
  | udp (srcPort dstPort : UInt16)
  | tcp (srcPort dstPort : UInt16) (seq ack : Seq) (flags : UInt8)

namespace Transport

def proto : Transport → UInt8
  | udp .. => 17
  | tcp .. => 6

def packet (srcIP dstIP body : List UInt8) : Transport → Checked (List UInt8)
  | udp srcPort dstPort => udpPacket srcIP dstIP srcPort dstPort body
  | tcp srcPort dstPort seq ack flags => tcpPacket srcIP dstIP srcPort dstPort seq ack flags body

def headerLength : Transport → Nat
  | udp .. => 8
  | tcp .. => 20

/-- The header, for a body of `n` bytes and with the checksum `c`. -/
def header (n : Nat) (c : UInt16) : Transport → List UInt8
  | udp srcPort dstPort => udpHeader srcPort dstPort (UInt16.ofNat (8 + n)) c
  | tcp srcPort dstPort seq ack flags => tcpHeader srcPort dstPort seq ack flags c

def segment (body : List UInt8) (c : UInt16) (t : Transport) : List UInt8 := t.header body.length c ++ body

theorem header_length (t : Transport) (n : Nat) (c : UInt16) : (t.header n c).length = t.headerLength := by
  cases t with
  | udp srcPort dstPort => exact udpHeader_length ..
  | tcp srcPort dstPort seq ack flags => exact tcpHeader_length ..

theorem segment_length (t : Transport) (body : List UInt8) (c : UInt16) :
    (t.segment body c).length = t.headerLength + body.length := by rw [segment, List.length_append, header_length]

/-- The header but its checksum, before it and after it. -/
theorem header_split (t : Transport) (n : Nat) :
    ∃ p q : List UInt8, p.length % 2 = 0 ∧ ∀ c, t.header n c = p ++ be 2 c.toNat ++ q := by
  cases t with
  | udp srcPort dstPort =>
    refine ⟨be 2 srcPort.toNat ++ be 2 dstPort.toNat ++ be 2 (UInt16.ofNat (8 + n)).toNat, [], by simp, ?_⟩
    intro c
    rfl
  | tcp srcPort dstPort seq ack flags =>
    refine ⟨be 2 srcPort.toNat ++ be 2 dstPort.toNat ++ be 4 seq.toNat ++ be 4 ack.toNat ++
      [(5 : UInt8) <<< 4, flags] ++ be 2 (8192 : UInt16).toNat, [0, 0], by simp, ?_⟩
    intro c
    rfl

theorem packet_eq (t : Transport) (srcIP dstIP body : List UInt8) {c : UInt16}
    (hc : transportChecksum t.proto srcIP dstIP (t.segment body 0) = .ok c) :
    t.packet srcIP dstIP body = packetOf t.proto srcIP dstIP (t.segment body c) := by
  cases t with
  | udp srcPort dstPort => exact udpPacket_eq srcIP dstIP srcPort dstPort body hc
  | tcp srcPort dstPort seq ack flags => exact tcpPacket_eq srcIP dstIP srcPort dstPort seq ack flags body hc

end Transport

/-- The first 14 bytes of a frame. -/
def frameHeader (dstMAC srcMAC : List UInt8) (typ : UInt16) : List UInt8 := dstMAC ++ srcMAC ++ be 2 typ.toNat

theorem ethernet_eq (dstMAC srcMAC : Mac) (typ : UInt16) (payload : List UInt8) :
    ethernet dstMAC srcMAC typ payload =
      .ok (frameHeader dstMAC srcMAC typ ++ (payload ++ zeros (46 - payload.length))) := by
  obtain ⟨dst, hdst⟩ := dstMAC
  obtain ⟨src, hsrc⟩ := srcMAC
  obtain ⟨a, b, c, d, e, f, rfl⟩ := exists_six hdst
  obtain ⟨g, h, i, j, k, l, rfl⟩ := exists_six hsrc
  have hlen : (if 14 + payload.length < minEthernetFrame then minEthernetFrame else 14 + payload.length) =
      14 + (payload.length + (46 - payload.length)) := by
    unfold minEthernetFrame
    split <;> omega
  have hwritten : splice (splice (splice (zeros 14) 0 (0 + [a, b, c, d, e, f].length) [a, b, c, d, e, f])
      6 (6 + [g, h, i, j, k, l].length) [g, h, i, j, k, l]) 12 (12 + 2) (be 2 typ.toNat) =
      frameHeader [a, b, c, d, e, f] [g, h, i, j, k, l] typ := rfl
  have htail := copy_tail (p := frameHeader [a, b, c, d, e, f] [g, h, i, j, k, l] typ)
    (z := zeros (payload.length + (46 - payload.length))) (s := payload) (i := 14) rfl (by simp [zeros])
  have hpad : (zeros (payload.length + (46 - payload.length))).drop payload.length = zeros (46 - payload.length) := by
    simp [zeros]
  rw [ethernet, hlen, zeros_add]
  simp (disch := simp [zeros, splice]) only [bind, Except.bind, copy_append, put16_append]
  rw [hwritten, htail, hpad]

theorem parse_frame (dstMAC srcMAC : Mac) (srcIP dstIP : Addr) (proto : UInt8) (c : UInt16) (segment pad : List UInt8)
    (hlen : 20 + segment.length ≤ 65535) :
    parseIPv4 (frameHeader dstMAC srcMAC ethIPv4 ++
      (ipHeader proto srcIP dstIP (UInt16.ofNat (20 + segment.length)) c ++ segment ++ pad)) =
      .ok (some ⟨srcMAC, dstMAC, srcIP, dstIP, proto, segment⟩) := by
  obtain ⟨dst, hdst⟩ := dstMAC
  obtain ⟨src, hsrc⟩ := srcMAC
  obtain ⟨a, b, c₁, d, e, f, rfl⟩ := exists_six hdst
  obtain ⟨g, h, i, j, k, l, rfl⟩ := exists_six hsrc
  obtain ⟨sip, hsip⟩ := srcIP
  obtain ⟨dip, hdip⟩ := dstIP
  obtain ⟨m, n, o, p, rfl⟩ := exists_four hsip
  obtain ⟨q, r, s, t, rfl⟩ := exists_four hdip
  have htotal : (UInt16.ofNat (20 + segment.length)).toNat = 20 + segment.length := by
    rw [UInt16.toNat_ofNat']
    omega
  generalize UInt16.ofNat (20 + segment.length) = total at htotal ⊢
  have hread : be16 (be 2 total.toNat) = .ok total := by
    have hnum := num_be_of_lt (w := 2) (n := total.toNat) (by have := total.toNat_lt; omega)
    simp [be16, number, bind, Except.bind, pure, Except.pure, List.take_of_length_le, hnum]
  have hassoc : frameHeader [a, b, c₁, d, e, f] [g, h, i, j, k, l] ethIPv4 ++
      (ipHeader proto [m, n, o, p] [q, r, s, t] total c ++ segment ++ pad) =
      frameHeader [a, b, c₁, d, e, f] [g, h, i, j, k, l] ethIPv4 ++ ipHeader proto [m, n, o, p] [q, r, s, t] total c ++
        (segment ++ pad) := by simp only [List.append_assoc]
  generalize hhead : frameHeader [a, b, c₁, d, e, f] [g, h, i, j, k, l] ethIPv4 ++
    ipHeader proto [m, n, o, p] [q, r, s, t] total c = head at hassoc
  have hheadLength : head.length = 34 := by
    rw [← hhead]
    rfl
  have hpayload : sub (head ++ (segment ++ pad)) 34 (34 + segment.length) = .ok segment := by
    rw [sub_ok (by omega) (by simp; omega), ← List.append_assoc, ← hheadLength, ← List.length_append, List.take_left,
      List.drop_left]
  have hsub : ∀ i j, i ≤ j → j ≤ 34 → sub (head ++ (segment ++ pad)) i j = .ok ((head.take j).drop i) := by
    intro i j hij hj
    exact sub_append hij (by omega)
  have hload : ∀ i, i < 34 → load (head ++ (segment ++ pad)) i = .ok (Lib.at' head i) := by
    intro i hi
    exact load_append (by omega)
  have htotalBytes : (head.take 18).drop 16 = be 2 total.toNat := by
    rw [← hhead]
    rfl
  have hversion : Lib.at' head 14 = 0x45 := by
    rw [← hhead]
    rfl
  rw [hassoc, parseIPv4, hload 14 (by decide), hversion, hsub 16 18 (by decide) (by decide), htotalBytes]
  have hlength : (head ++ (segment ++ pad)).length = 34 + segment.length + pad.length := by
    simp only [List.length_append]
    omega
  have hihl : ((0x45 : UInt8) &&& 0x0f).toNat * 4 = 20 := by decide
  simp only [bind, Except.bind, hread]
  rw [if_neg (by omega), if_neg (by decide), hihl, htotal, if_neg (by omega), hsub 6 12 (by decide) (by decide),
    hsub 0 6 (by decide) (by decide), hsub 26 30 (by decide) (by decide), hsub 30 34 (by decide) (by decide),
    hload 23 (by decide), show 14 + (20 + segment.length) = 34 + segment.length by omega, hpayload, ← hhead]
  rfl

theorem ipHeader_length (proto : UInt8) (srcIP dstIP : Addr) (total c : UInt16) :
    (ipHeader proto srcIP dstIP total c).length = 20 := by simp [ipHeader, srcIP.2, dstIP.2]

theorem ipHeader_verifies {proto : UInt8} {srcIP dstIP : Addr} {total c : UInt16}
    (h : checksum (ipHeader proto srcIP dstIP total 0) = .ok c) :
    fold (words (ipHeader proto srcIP dstIP total c)) = 0xFFFF := by
  have hsplit : ∀ c : UInt16, ipHeader proto srcIP dstIP total c =
      ([0x45, 0] ++ be 2 total.toNat ++ [0, 0, 0, 0, 64, proto]) ++ be 2 c.toNat ++ (srcIP.1 ++ dstIP.1) := by
    intro c
    rw [ipHeader, List.append_assoc _ srcIP.1 dstIP.1]
  rw [hsplit] at h ⊢
  apply checksum_verifies (by simp) (by simp [srcIP.2, dstIP.2]) h

/-- The bytes of a frame that `parseIPv4` takes for the IP header. -/
theorem frame_header (dstMAC srcMAC : Mac) (typ : UInt16) {header : List UInt8} (h : header.length = 20) (l : List UInt8) :
    ((frameHeader dstMAC srcMAC typ ++ (header ++ l)).drop 14).take 20 = header := by
  have hlen : (frameHeader dstMAC srcMAC typ).length = 14 := by simp [frameHeader, dstMAC.2, srcMAC.2]
  rw [List.drop_left' hlen, List.take_left' h]

theorem segment_verifies {t : Transport} {srcIP dstIP : Addr} {body : List UInt8} {c : UInt16}
    (hfits : t.headerLength + body.length ≤ 65535) (h : transportChecksum t.proto srcIP dstIP (t.segment body 0) = .ok c) :
    fold (words (srcIP.1 ++ dstIP.1 ++ [0, t.proto] ++ be 2 (t.segment body c).length ++ t.segment body c)) = 0xFFFF := by
  obtain ⟨p, q, hp, hsplit⟩ := t.header_split body.length
  have hlen := t.header_length body.length 0
  rw [hsplit] at hlen
  simp only [List.length_append, be_length] at hlen
  rw [transportChecksum_eq _ srcIP.2 dstIP.2, t.segment_length] at h
  have hn : (UInt16.ofNat (t.headerLength + body.length)).toNat = (t.segment body c).length := by
    rw [t.segment_length, UInt16.toNat_ofNat', Nat.mod_eq_of_lt (by omega)]
  rw [← hn]
  generalize UInt16.ofNat (t.headerLength + body.length) = n at h ⊢
  have hsegment : ∀ c : UInt16, pseudoHeader t.proto srcIP dstIP n ++ t.segment body c =
      (pseudoHeader t.proto srcIP dstIP n ++ p) ++ be 2 c.toNat ++ (q ++ body) := by
    intro c
    rw [Transport.segment, hsplit]
    simp only [List.append_assoc]
  rw [hsegment] at h
  refine (congrArg (fun l => fold (words l)) (hsegment c)).trans (checksum_verifies ?_ ?_ h)
  · simp [pseudoHeader, srcIP.2, dstIP.2]
    omega
  · simp [pseudoHeader, srcIP.2, dstIP.2]
    omega

/-- A body that fits is sent in a packet whose frame parses to what the packet was made of,
    whatever the padding, and both checksums verify: with them the words of the IP header, and those of
    the pseudo header and the segment, sum to all ones. -/
theorem packet_carried (t : Transport) (srcIP dstIP : Addr) (dstMAC srcMAC : Mac) (body : List UInt8)
    (hfits : 20 + t.headerLength + body.length ≤ 65535) :
    ∃ packet frame c, t.packet srcIP dstIP body = .ok packet ∧ ethernet dstMAC srcMAC ethIPv4 packet = .ok frame ∧
      parseIPv4 frame = .ok (some ⟨srcMAC, dstMAC, srcIP, dstIP, t.proto, t.segment body c⟩) ∧
      fold (words ((frame.drop 14).take 20)) = 0xFFFF ∧
      fold (words (srcIP.1 ++ dstIP.1 ++ [0, t.proto] ++ be 2 (t.segment body c).length ++ t.segment body c)) = 0xFFFF := by
  obtain ⟨c, hc⟩ : ∃ c, transportChecksum t.proto srcIP dstIP (t.segment body 0) = .ok c := by
    rw [transportChecksum_eq _ srcIP.2 dstIP.2]
    exact ⟨_, checksum_eq _⟩
  have hlen := t.segment_length body c
  obtain ⟨head, hhead⟩ : ∃ head, checksum (ipHeader t.proto srcIP dstIP (UInt16.ofNat (20 + (t.segment body c).length)) 0) =
      .ok head := ⟨_, checksum_eq _⟩
  have hpacket := (t.packet_eq srcIP dstIP body hc).trans (packetOf_eq t.proto srcIP.2 dstIP.2 (t.segment body c) hhead)
  have hframe := ethernet_eq dstMAC srcMAC ethIPv4
    (ipHeader t.proto srcIP dstIP (UInt16.ofNat (20 + (t.segment body c).length)) head ++ t.segment body c)
  refine ⟨_, _, c, hpacket, hframe, ?_, ?_, ?_⟩
  · exact parse_frame dstMAC srcMAC srcIP dstIP t.proto head (t.segment body c) _ (by omega)
  · rw [List.append_assoc, frame_header dstMAC srcMAC ethIPv4 (ipHeader_length _ _ _ _ _)]
    exact ipHeader_verifies hhead
  · exact segment_verifies (by omega) hc

/-- A datagram of three bytes, between two addresses. -/
theorem packet_carried_three :
    ∃ packet frame c, (Transport.udp 53 1024).packet [10, 0, 0, 254] [10, 0, 0, 1] [1, 2, 3] = .ok packet ∧
      ethernet [0, 0, 0, 0, 0, 1] [0, 0, 0, 0, 0, 2] ethIPv4 packet = .ok frame ∧
      parseIPv4 frame = .ok (some ⟨[0, 0, 0, 0, 0, 2], [0, 0, 0, 0, 0, 1], [10, 0, 0, 254], [10, 0, 0, 1], 17,
        (Transport.udp 53 1024).segment [1, 2, 3] c⟩) ∧
      fold (words ((frame.drop 14).take 20)) = 0xFFFF ∧
      fold (words ([10, 0, 0, 254] ++ [10, 0, 0, 1] ++ [0, 17] ++ be 2 ((Transport.udp 53 1024).segment [1, 2, 3] c).length ++
        (Transport.udp 53 1024).segment [1, 2, 3] c)) = 0xFFFF :=
  packet_carried (.udp 53 1024) ⟨[10, 0, 0, 254], rfl⟩ ⟨[10, 0, 0, 1], rfl⟩ ⟨[0, 0, 0, 0, 0, 1], rfl⟩ ⟨[0, 0, 0, 0, 0, 2], rfl⟩
    [1, 2, 3] (by decide)

end Be300.NetBridge
