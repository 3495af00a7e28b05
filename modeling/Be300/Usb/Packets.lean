/-
  Be300.Usb.Packets — the packets the USB redirection takes from its peer's stream
  (`drain_rx` of `src/usbredir_dev.c`).

  `redir` says what the stream is made of: headers of 12 bytes, or of 16 once the peer's
  hello has brought 64-bit ids, each with the payload it declares. `tickPackets` are the
  packets a tick hands to `handlePacket`, in order.

  Proved (`packets_of_stream`): from when a peer comes, and as long as it is there, the
  packets handled are those the bytes it sent decode to, whatever reads and ticks brought
  them and whatever the guest and the other calls did in between; the peer whose stream has
  a payload over the limit is dropped, with nothing of that packet handled.
-/

import Be300.Lib.Framing
import Be300.Usb.Moves
import Mathlib.Data.List.Induction

namespace Be300.Usb

open Lib

/-! ## The stream -/

structure Received where
  type : Nat
  id : Nat
  payload : List UInt8
  deriving DecidableEq

def headerLength (caps : Nat) : Nat := if View.wide caps then 16 else 12

def nextPacket (caps : Nat) (b : List UInt8) : Next Received :=
  if b.length < headerLength caps then .more
  else if rd 4 (at' b) 4 > urMaxPayload then .bad
  else if b.length < headerLength caps + rd 4 (at' b) 4 then .more
  else
    .packet ⟨rd 4 (at' b) 0, rd (headerLength caps - 8) (at' b) 8, (b.drop (headerLength caps)).take (rd 4 (at' b) 4)⟩
      (headerLength caps + rd 4 (at' b) 4)

/-- A hello names the peer's capabilities. -/
def capsAfter (caps : Nat) (p : Received) : Nat :=
  if p.type = urHello ∧ 64 ≤ p.payload.length then if p.payload.length ≥ 68 then rd 4 (at' p.payload) 64 else 0 else caps

section Stream

variable {caps n : Nat} {b : List UInt8} {p : Received}

theorem headerLength_pos (caps : Nat) : 12 ≤ headerLength caps := by
  unfold headerLength
  split <;> decide

theorem nextPacket_inside (h : nextPacket caps b = .packet p n) : 0 < n ∧ n ≤ b.length := by
  have hpos := headerLength_pos caps
  unfold nextPacket at h
  split at h
  · cases h
  split at h
  · cases h
  split at h
  · cases h
  · cases h
    omega

theorem nextPacket_append (c : List UInt8) (h : headerLength caps ≤ b.length) :
    rd 4 (at' (b ++ c)) 0 = rd 4 (at' b) 0 ∧ rd 4 (at' (b ++ c)) 4 = rd 4 (at' b) 4 ∧
      rd (headerLength caps - 8) (at' (b ++ c)) 8 = rd (headerLength caps - 8) (at' b) 8 := by
  have hpos := headerLength_pos caps
  exact ⟨rd_append_left (by omega), rd_append_left (by omega), rd_append_left (by omega)⟩

theorem nextPacket_packet_append (c : List UInt8) (h : nextPacket caps b = .packet p n) :
    nextPacket caps (b ++ c) = .packet p n := by
  unfold nextPacket at h ⊢
  split at h
  · cases h
  rename_i hheader
  obtain ⟨htype, hlen, hid⟩ := nextPacket_append c (Nat.le_of_not_lt hheader)
  split at h
  · cases h
  rename_i hlimit
  split at h
  · cases h
  rename_i hwhole
  rw [htype, hlen, hid, List.length_append, if_neg (by omega), if_neg hlimit, if_neg (by omega),
    List.drop_append_of_le_length (by omega), List.take_append_of_le_length (by rw [List.length_drop]; omega)]
  exact h

theorem nextPacket_bad_append (c : List UInt8) (h : nextPacket caps b = .bad) : nextPacket caps (b ++ c) = .bad := by
  unfold nextPacket at h ⊢
  split at h
  · cases h
  rename_i hheader
  obtain ⟨-, hlen, -⟩ := nextPacket_append c (Nat.le_of_not_lt hheader)
  split at h
  · rename_i hlimit
    rw [hlen, List.length_append, if_neg (by omega), if_pos hlimit]
  split at h
  · cases h
  · cases h

end Stream

/-- The peer's stream. -/
def redir : Framer Nat UInt8 Received where
  next := nextPacket
  after := capsAfter
  inside := nextPacket_inside
  packet_append := nextPacket_packet_append
  bad_append := nextPacket_bad_append

theorem next_nothing : redir.next 0 [] = .more := by
  show nextPacket 0 [] = .more
  unfold nextPacket
  exact if_pos (by decide)

/-! ## The packets of a run -/

/-- What `packetLoop` hands to `handlePacket`. -/
def packetsOf : Nat → List UInt8 → Dev → List Received
  | 0, _, _ => []
  | fuel + 1, b, d =>
    let hl := hdrLen d
    if !d.ch.fd then []
    else if b.length < hl then []
    else
      let len := rd 4 (at' b) 4
      if len > urMaxPayload then []
      else if b.length < hl + len then []
      else
        let p : Received := ⟨rd 4 (at' b) 0, rd (hl - 8) (at' b) 8, (b.drop hl).take len⟩
        p :: packetsOf fuel (b.drop (hl + len)) (handlePacket d p.type p.id p.payload)

def drainPackets (d : Dev) (reads : List ReadResult) : List Received :=
  let (lost, d) := if d.ch.fd then readLoop reads d else (true, peerLost d)
  if lost then [] else packetsOf (d.rx.length + 1) d.rx d

def tickPackets (d : Dev) (env : Env) : List Received :=
  let d := settle (chardevTick { d with writes := env.writes } env) env.connect
  if !d.up then [] else drainPackets (greet d) env.reads

def stepPackets (d : Dev) : Event → List Received
  | .tick env => tickPackets d env
  | _ => []

def runPackets (d : Dev) : List Event → List Received
  | [] => []
  | e :: events => stepPackets d e ++ runPackets (step d e) events

/-- The bytes that reads bring, up to one that would block or loses the peer. -/
def readBytes : List ReadResult → List UInt8
  | [] => []
  | .bytes l :: rs => if l = [] then [] else l ++ readBytes rs
  | .intr :: rs => readBytes rs
  | _ :: _ => []

def eventBytes : Event → List UInt8
  | .tick env => readBytes env.reads
  | _ => []

/-- The stream of a run. -/
def streamOf (events : List Event) : List UInt8 := events.flatMap eventBytes

/-- Packets handled one by one. -/
def handlePackets (d : Dev) (packets : List Received) : Dev := packets.foldl (fun d p => handlePacket d p.type p.id p.payload) d

/-- The receiver's state after packets is what `handlePacket` makes of them, one by one; then
    the peer may be dropped for a payload over the limit. -/
theorem packetLoop_handles (fuel : Nat) (b : List UInt8) (d : Dev) :
    (packetLoop fuel b d).2 = handlePackets d (packetsOf fuel b d) ∨
      (packetLoop fuel b d).2 = peerLost (handlePackets d (packetsOf fuel b d)) := by
  induction fuel generalizing b d with
  | zero => exact .inl rfl
  | succ fuel ih =>
    unfold packetLoop packetsOf
    simp only
    split
    · exact .inl rfl
    split
    · exact .inl rfl
    split
    · exact .inr rfl
    split
    · exact .inl rfl
    · exact ih _ _

/-! ## The connection -/

/-- The connection is the same, with the same bytes received. -/
structure Same (d e : Dev) : Prop where
  rx : e.rx = d.rx
  ch : e.ch = d.ch
  caps : e.peerCaps = d.peerCaps

/-- The peer is gone, and nothing of its stream is left. -/
structure Dropped (d : Dev) : Prop where
  fd : d.ch.fd = false
  rx : d.rx = []
  caps : d.peerCaps = 0

/-- The connection stays, unless the peer is dropped. -/
def Holds (d e : Dev) : Prop := Same d e ∨ Dropped e

section Connection

variable {d e f : Dev}

theorem Same.refl (d : Dev) : Same d d := ⟨rfl, rfl, rfl⟩

theorem Same.trans (h : Same d e) (h' : Same e f) : Same d f := ⟨h'.rx.trans h.rx, h'.ch.trans h.ch, h'.caps.trans h.caps⟩

theorem Same.holds (h : Same d e) : Holds d e := .inl h

theorem Dropped.same (h : Dropped d) (h' : Same d e) : Dropped e :=
  ⟨by rw [h'.ch]; exact h.fd, h'.rx.trans h.rx, h'.caps.trans h.caps⟩

theorem Holds.trans (h : Holds d e) (h' : Holds e f) : Holds d f := by
  rcases h' with h' | h'
  · rcases h with h | h
    · exact .inl (h.trans h')
    · exact .inr (h.same h')
  · exact .inr h'

theorem Holds.ite {c : Prop} [Decidable c] (h : Holds d e) (h' : Holds d f) : Holds d (if c then e else f) := by
  split
  · exact h
  · exact h'

theorem deviceDetach_same (d : Dev) : Same d (deviceDetach d) := by
  unfold deviceDetach
  split
  · exact ⟨rfl, rfl, rfl⟩
  · exact Same.refl d

theorem peerLost_dropped (d : Dev) : Dropped (peerLost d) := ⟨rfl, rfl, rfl⟩

theorem flushTx_holds (d : Dev) : Holds d (flushTx d) := by
  unfold flushTx
  generalize writeLoop d.writes 0 d.tx.length = result
  obtain ⟨writes, off, lost⟩ := result
  cases lost with
  | true => exact .inr (peerLost_dropped _)
  | false => exact .inl ⟨rfl, rfl, rfl⟩

theorem sendPacket_holds (h : Same d e) (type id : Nat) (th data : List UInt8) : Holds d (sendPacket e type id th data) := by
  unfold sendPacket
  split
  · exact h.holds
  · apply Holds.trans (e := { e with
      tx := e.tx ++ header e type (th.length + data.length) id ++ th ++ data
      log := e.log ++ [.sent type (wireId e id) th data] }) _ (flushTx_holds _)
    exact .inl ⟨h.rx, h.ch, h.caps⟩

theorem sendInterfaceAndEpInfo_holds (d : Dev) : Holds d (sendInterfaceAndEpInfo d) := by
  unfold sendInterfaceAndEpInfo
  apply Holds.trans _ (sendPacket_holds (Same.refl _) _ _ _ _)
  apply sendPacket_holds
  exact ⟨rfl, rfl, rfl⟩

theorem standard_same (d : Dev) (rt req : UInt8) (value index : Nat) : Same d (standard d rt req value index).2 := ⟨rfl, rfl, rfl⟩

theorem deviceDisconnect_holds (d : Dev) : Holds d (deviceDisconnect d) := by
  unfold deviceDisconnect
  split
  · apply Holds.trans (e := sendPacket (dropTransfers { d with connected := false }) urDeviceDisconnect 0 [] [])
    · apply sendPacket_holds
      exact ⟨rfl, rfl, rfl⟩
    · exact .inl ⟨rfl, rfl, rfl⟩
  · exact (Same.refl d).holds

theorem offer_holds (d : Dev) : Holds d (offer d) := by
  unfold offer
  apply Holds.trans (e := sendDeviceConnect (sendInterfaceAndEpInfo ((busReset (d.on (hostAttach · true))).noted .attached)))
  · apply Holds.trans _ (sendPacket_holds (Same.refl _) _ _ _ _)
    apply Holds.trans _ (sendInterfaceAndEpInfo_holds _)
    exact .inl ⟨rfl, rfl, rfl⟩
  · exact .inl ⟨rfl, rfl, rfl⟩

theorem updateConnection_holds (d : Dev) : Holds d (updateConnection d) := by
  unfold updateConnection
  simp only
  split
  · exact offer_holds d
  split
  · split
    · exact deviceDisconnect_holds d
    · exact (deviceDetach_same d).holds
  · exact (Same.refl d).holds

theorem serviceOut_holds (fuel : Nat) (d : Dev) : Holds d (serviceOut fuel d) := by
  induction fuel generalizing d with
  | zero => exact (Same.refl d).holds
  | succ fuel ih =>
    unfold serviceOut
    split
    · exact (Same.refl d).holds
    simp only
    generalize min (d.bulkOut.front.len - d.bulkOut.front.off) (if d.mpsBulkOut ≠ 0 then d.mpsBulkOut else epMaxPacket) = chunk
    generalize hostOut d.toUsbf ((d.bulkOut.front.data.drop d.bulkOut.front.off).take chunk) = result
    obtain ⟨taken, u⟩ := result
    simp only
    split
    · exact (Same.refl d).holds
    have hmoved : ∀ q, Same d { d with toUsbf := u, bulkOut := q } := fun q => ⟨rfl, rfl, rfl⟩
    generalize d.bulkOut.setFront { d.bulkOut.front with off := d.bulkOut.front.off + chunk } = q
    split
    · exact (hmoved q).holds.trans (ih _)
    · have hreply : Holds d (replyBulk { d with toUsbf := u, bulkOut := q } d.bulkOut.front.id d.bulkOut.front.ep urSuccess []
          d.bulkOut.front.len) := sendPacket_holds (hmoved q) _ _ _ _
      generalize replyBulk _ d.bulkOut.front.id d.bulkOut.front.ep urSuccess [] d.bulkOut.front.len = e at hreply ⊢
      have hpopped : Same e { e with bulkOut := e.bulkOut.pop urQueueLen } := ⟨rfl, rfl, rfl⟩
      exact hreply.trans (hpopped.holds.trans (ih _))

theorem serviceIn_holds (fuel : Nat) (d : Dev) : Holds d (serviceIn fuel d) := by
  induction fuel generalizing d with
  | zero => exact (Same.refl d).holds
  | succ fuel ih =>
    unfold serviceIn
    split
    · exact (Same.refl d).holds
    generalize hostIn d.toUsbf epMaxPacket = result
    obtain ⟨pkt, u⟩ := result
    cases pkt with
    | none => exact (Same.refl d).holds
    | some pkt =>
      simp only
      have hmoved : ∀ n q, Same d { d with toUsbf := u.note n, bulkIn := q } := fun n q => ⟨rfl, rfl, rfl⟩
      generalize d.bulkIn.front = x
      generalize x.len - x.off = room
      generalize d.bulkIn.setFront _ = q
      by_cases hdone : (if pkt.length > room then urBabble else urSuccess) ≠ urSuccess ∨
          (min pkt.length room < if d.mpsBulkIn ≠ 0 then d.mpsBulkIn else epMaxPacket) ∨ x.off + min pkt.length room = x.len
      · rw [if_pos hdone]
        have hreply : Holds d (replyBulk { d with toUsbf := u.note (.moved pkt.length room), bulkIn := q } x.id x.ep
            (if pkt.length > room then urBabble else urSuccess) (x.data ++ pkt.take (min pkt.length room))
            (x.off + min pkt.length room)) := sendPacket_holds (hmoved _ q) _ _ _ _
        generalize replyBulk _ x.id x.ep _ _ _ = e at hreply ⊢
        have hpopped : Same e { e with bulkIn := e.bulkIn.pop urQueueLen } := ⟨rfl, rfl, rfl⟩
        exact hreply.trans (hpopped.holds.trans (ih _))
      · rw [if_neg hdone]
        exact (hmoved _ q).holds.trans (ih _)

theorem serviceIntr_holds (d : Dev) (due : Bool) : Holds d (serviceIntr d due) := by
  unfold serviceIntr
  split
  · generalize hostIntrIn d.toUsbf epMaxPacket = result
    obtain ⟨pkt, u⟩ := result
    cases pkt with
    | none => exact .inl ⟨rfl, rfl, rfl⟩
    | some pkt =>
      apply sendPacket_holds
      exact ⟨rfl, rfl, rfl⟩
  · exact (Same.refl d).holds

theorem serviceEndpoints_holds (d : Dev) (due : Bool) : Holds d (serviceEndpoints d due) := by
  unfold serviceEndpoints
  split
  · exact (serviceOut_holds _ d).trans ((serviceIn_holds _ _).trans (serviceIntr_holds _ due))
  · exact (Same.refl d).holds

theorem sendCtrlReply_holds (d : Dev) : Holds d (sendCtrlReply d) := by
  unfold sendCtrlReply
  split
  · apply sendPacket_holds
    exact ⟨rfl, rfl, rfl⟩
  · exact (Same.refl d).holds

/-! ## A packet's handling -/

theorem handleControl_holds (d : Dev) (id : Nat) (p : List UInt8) : Holds d (handleControl d id p) := by
  unfold handleControl
  split
  · exact (Same.refl d).holds
  split
  · apply sendPacket_holds
    exact ⟨rfl, rfl, rfl⟩
  generalize hostControl d.toUsbf _ = result
  obtain ⟨rc, bytes, u⟩ := result
  cases rc with
  | pending => exact .inl ⟨rfl, rfl, rfl⟩
  | ok =>
    apply sendPacket_holds
    exact ⟨rfl, rfl, rfl⟩
  | stall =>
    apply sendPacket_holds
    exact ⟨rfl, rfl, rfl⟩

theorem handleBulk_holds (d : Dev) (id : Nat) (p : List UInt8) : Holds d (handleBulk d id p) := by
  have hrefused : ∀ status, Holds d (replyBulk (d.noted (.request id)) id (at' p 0) status [] 0) := by
    intro status
    apply sendPacket_holds
    exact ⟨rfl, rfl, rfl⟩
  unfold handleBulk
  simp only
  split
  · exact (Same.refl d).holds
  generalize le16 (at' p 2) (at' p 3) + (if bulkHdrLen d = 10 then 65536 * le16 (at' p 8) (at' p 9) else 0) = blen
  split
  · exact hrefused _
  split
  · exact hrefused _
  split
  · split
    · exact hrefused _
    · exact .inl ⟨rfl, rfl, rfl⟩
  split
  · exact hrefused _
  split
  · exact hrefused _
  · exact .inl ⟨rfl, rfl, rfl⟩

theorem handleCancel_holds (d : Dev) (id : Nat) : Holds d (handleCancel d id) := by
  unfold handleCancel
  split
  · apply sendPacket_holds
    exact ⟨rfl, rfl, rfl⟩
  split
  · apply sendPacket_holds
    exact ⟨rfl, rfl, rfl⟩
  split
  · apply sendPacket_holds
    exact ⟨rfl, rfl, rfl⟩
  · exact (Same.refl d).holds

theorem handleSetConfiguration_holds (d : Dev) (id : Nat) (p : List UInt8) : Holds d (handleSetConfiguration d id p) := by
  unfold handleSetConfiguration
  split
  · exact (Same.refl d).holds
  split
  · exact sendPacket_holds (Same.refl d) _ _ _ _
  have hstandard := standard_same d 0x00 0x09 (at' p 0).toNat 0
  generalize standard d 0x00 0x09 (at' p 0).toNat 0 = result at hstandard ⊢
  obtain ⟨rc, e⟩ := result
  have hsent : ∀ status, Holds d (sendPacket e urConfigurationStatus id [status, e.config] []) := by
    intro status
    exact sendPacket_holds hstandard _ _ _ _
  simp only
  split
  · exact (hsent _).trans (sendInterfaceAndEpInfo_holds _)
  · exact hsent _

theorem handleSetAltSetting_holds (d : Dev) (id : Nat) (p : List UInt8) : Holds d (handleSetAltSetting d id p) := by
  unfold handleSetAltSetting
  split
  · exact (Same.refl d).holds
  split
  · exact sendPacket_holds (Same.refl d) _ _ _ _
  have hstandard := standard_same d 0x01 0x0B (at' p 1).toNat (at' p 0).toNat
  generalize standard d 0x01 0x0B (at' p 1).toNat (at' p 0).toNat = result at hstandard ⊢
  obtain ⟨rc, e⟩ := result
  exact sendPacket_holds hstandard _ _ _ _

/-- A packet that is not a hello leaves the capabilities, and with them the headers, as they are. -/
theorem handlePacket_holds {p : Received} (h : p.type ≠ urHello) (d : Dev) : Holds d (handlePacket d p.type p.id p.payload) := by
  have hstays := (Same.refl d).holds
  have hsends : ∀ type th, Holds d (sendPacket d type p.id th []) := fun type th => sendPacket_holds (Same.refl d) _ _ _ _
  unfold handlePacket
  rw [if_neg h]
  apply Holds.ite
  · apply Holds.ite
    · exact .inl ⟨rfl, rfl, rfl⟩
    · exact hstays
  apply Holds.ite
  · exact handleSetConfiguration_holds d _ _
  apply Holds.ite
  · exact hsends _ _
  apply Holds.ite
  · exact handleSetAltSetting_holds d _ _
  apply Holds.ite
  · exact hsends _ _
  apply Holds.ite
  · apply Holds.ite
    · exact hstays
    apply Holds.ite
    · apply sendPacket_holds
      exact ⟨rfl, rfl, rfl⟩
    · exact hsends _ _
  apply Holds.ite
  · apply Holds.ite
    · exact hstays
    · apply sendPacket_holds
      exact ⟨rfl, rfl, rfl⟩
  apply Holds.ite
  · exact handleCancel_holds d _
  apply Holds.ite
  · exact handleControl_holds d _ _
  apply Holds.ite
  · exact handleBulk_holds d _ _
  apply Holds.ite
  · exact hsends _ _
  · exact hstays

theorem handlePacket_after (d : Dev) (p : Received) : Dropped (handlePacket d p.type p.id p.payload) ∨
    (handlePacket d p.type p.id p.payload).rx = d.rx ∧ (handlePacket d p.type p.id p.payload).ch = d.ch ∧
      (handlePacket d p.type p.id p.payload).peerCaps = capsAfter d.peerCaps p := by
  by_cases hhello : p.type = urHello
  · right
    rw [handlePacket, if_pos hhello]
    unfold handleHello capsAfter
    generalize (if p.payload.length ≥ 68 then rd 4 (at' p.payload) 64 else 0) = caps
    by_cases hshort : p.payload.length < 64
    · rw [if_pos hshort, if_neg fun h => absurd h.2 (by omega)]
      exact ⟨rfl, rfl, rfl⟩
    · rw [if_neg hshort, if_pos ⟨hhello, by omega⟩]
      exact ⟨rfl, rfl, rfl⟩
  · rcases handlePacket_holds hhello d with h | h
    · right
      rw [capsAfter, if_neg fun h => hhello h.1]
      exact ⟨h.rx, h.ch, h.caps⟩
    · exact .inl h

end Connection

/-! ## The packets of the buffer -/

section Packets

variable {d e f : Dev} {D : Decoded Nat UInt8 Received} {packets : List Received}

theorem hdrLen_eq (d : Dev) : hdrLen d = headerLength d.peerCaps := rfl

theorem packetLoop_gone (fuel : Nat) (b : List UInt8) (h : d.ch.fd = false) :
    packetLoop fuel b d = (b, d) ∧ packetsOf fuel b d = [] := by
  cases fuel with
  | zero => exact ⟨rfl, rfl⟩
  | succ fuel =>
    unfold packetLoop packetsOf
    simp [h]

theorem packetLoop_succ (fuel : Nat) (b : List UInt8) (h : d.ch.fd = true) :
    (packetLoop (fuel + 1) b d = match redir.next d.peerCaps b with
      | .more => (b, d)
      | .bad => (b, peerLost d)
      | .packet p n => packetLoop fuel (b.drop n) (handlePacket d p.type p.id p.payload)) ∧
    packetsOf (fuel + 1) b d = match redir.next d.peerCaps b with
      | .more => []
      | .bad => []
      | .packet p n => p :: packetsOf fuel (b.drop n) (handlePacket d p.type p.id p.payload) := by
  rw [packetLoop, packetsOf]
  simp only [h, Bool.not_true, Bool.false_eq_true, if_false, redir, nextPacket, ← hdrLen_eq]
  by_cases hheader : b.length < hdrLen d
  · simp only [hheader, if_true, and_self]
  by_cases hlimit : rd 4 (at' b) 4 > urMaxPayload
  · simp only [hheader, hlimit, if_false, if_true, and_self]
  by_cases hwhole : b.length < hdrLen d + rd 4 (at' b) 4
  · simp only [hheader, hlimit, hwhole, if_false, if_true, and_self]
  · simp only [hheader, hlimit, hwhole, if_false, and_self]

/-- `packets` are all the stream has so far, and the device waits for the rest of the next. -/
structure Decodes (D : Decoded Nat UInt8 Received) (packets : List Received) (rest : List UInt8) (d : Dev) : Prop where
  packets : packets = D.packets
  bad : D.bad = false
  rest : rest = D.rest
  caps : d.peerCaps = D.state

theorem packetLoop_decodes (fuel : Nat) (b : List UInt8) (d : Dev) (hfuel : b.length < fuel) (hfd : d.ch.fd = true) :
    packetsOf fuel b d <+: (redir.decode d.peerCaps b).packets ∧
      (Dropped (packetLoop fuel b d).2 ∨
        Decodes (redir.decode d.peerCaps b) (packetsOf fuel b d) (packetLoop fuel b d).1 (packetLoop fuel b d).2 ∧
          (packetLoop fuel b d).2.ch = d.ch) := by
  induction fuel generalizing b d with
  | zero => omega
  | succ fuel ih =>
    obtain ⟨hloop, hpackets⟩ := packetLoop_succ fuel b hfd
    rw [hloop, hpackets]
    cases hnext : redir.next d.peerCaps b with
    | more =>
      rw [Framer.decode_more hnext]
      exact ⟨List.nil_prefix, .inr ⟨⟨rfl, rfl, rfl, rfl⟩, rfl⟩⟩
    | bad => exact ⟨List.nil_prefix, .inl (peerLost_dropped d)⟩
    | packet p n =>
      obtain ⟨hpos, hinside⟩ := redir.inside hnext
      rw [Framer.decode_packet hnext]
      simp only
      rcases handlePacket_after d p with hdropped | ⟨-, hch, hcaps⟩
      · obtain ⟨hstop, hnone⟩ := packetLoop_gone fuel (b.drop n) hdropped.fd
        rw [hstop, hnone]
        exact ⟨List.prefix_append [p] _, .inl hdropped⟩
      · have hrest := ih (b.drop n) (handlePacket d p.type p.id p.payload) (by rw [List.length_drop]; omega)
          (by rw [hch]; exact hfd)
        rw [hcaps] at hrest
        obtain ⟨hsome, hafter⟩ := hrest
        refine ⟨List.cons_prefix_cons.mpr ⟨rfl, hsome⟩, ?_⟩
        rcases hafter with hdropped | ⟨hall, hch'⟩
        · exact .inl hdropped
        · exact .inr ⟨⟨congrArg (p :: ·) hall.packets, hall.bad, hall.rest, hall.caps⟩, hch'.trans hch⟩

/-- What reads bring is put behind what there is, or the peer is lost. -/
theorem readLoop_reads (reads : List ReadResult) (d : Dev) :
    (readLoop reads d).1 = true ∧ Dropped (readLoop reads d).2 ∨
      readLoop reads d = (false, { d with rx := d.rx ++ readBytes reads }) := by
  induction reads generalizing d with
  | nil =>
    right
    simp [readLoop, readBytes]
  | cons r rs ih =>
    cases r with
    | bytes l =>
      unfold readLoop readBytes
      simp only
      split
      · exact .inl ⟨rfl, peerLost_dropped d⟩
      · rw [← List.append_assoc]
        exact ih { d with rx := d.rx ++ l }
    | intr => exact ih d
    | wouldBlock =>
      right
      simp [readLoop, readBytes]
    | error => exact .inl ⟨rfl, peerLost_dropped d⟩

/-- Some of the stream's packets, and all of them unless the peer is dropped. -/
def Drained (D : Decoded Nat UInt8 Received) (packets : List Received) (d e : Dev) : Prop :=
  packets <+: D.packets ∧ (Dropped e ∨ Decodes D packets e.rx e ∧ e.ch = d.ch)

theorem Drained.dropped (h : Dropped e) : Drained D [] d e := ⟨List.nil_prefix, .inl h⟩

theorem Drained.holds (h : Drained D packets d e) (h' : Holds e f) : Drained D packets d f := by
  obtain ⟨hsome, hafter⟩ := h
  refine ⟨hsome, ?_⟩
  rcases h' with hsame | hdropped
  · rcases hafter with hdropped | ⟨hall, hch⟩
    · exact .inl (hdropped.same hsame)
    · exact .inr ⟨⟨hall.packets, hall.bad, hsame.rx.trans hall.rest, hsame.caps.trans hall.caps⟩, hsame.ch.trans hch⟩
  · exact .inl hdropped

theorem drainRx_drained (d : Dev) (reads : List ReadResult) (hfd : d.ch.fd = true) :
    Drained (redir.decode d.peerCaps (d.rx ++ readBytes reads)) (drainPackets d reads) d (drainRx d reads) := by
  unfold drainPackets drainRx
  rw [if_pos hfd]
  rcases readLoop_reads reads d with ⟨hlost, hdropped⟩ | hread
  · simp only [hlost, if_true]
    exact Drained.dropped hdropped
  · rw [hread]
    simp only [Bool.false_eq_true, if_false]
    have hloop := packetLoop_decodes ((d.rx ++ readBytes reads).length + 1) (d.rx ++ readBytes reads)
      { d with rx := d.rx ++ readBytes reads } (by omega) hfd
    generalize packetLoop ((d.rx ++ readBytes reads).length + 1) (d.rx ++ readBytes reads) _ = result at hloop ⊢
    obtain ⟨rest, e⟩ := result
    obtain ⟨hsome, hafter⟩ := hloop
    refine ⟨hsome, ?_⟩
    simp only at hafter ⊢
    rcases hafter with hdropped | ⟨hall, hch⟩
    · rw [if_neg (by simp [hdropped.fd])]
      exact .inl hdropped
    · rw [if_pos (by rw [hch]; exact hfd)]
      exact .inr ⟨⟨hall.packets, hall.bad, hall.rest, hall.caps⟩, hch⟩

end Packets

/-! ## Ticks and the other events -/

/-- No byte of the peer that is there has been taken yet. -/
def Fresh (d : Dev) : Prop := d.up = false ∨ d.ch.newPeer = true

section Ticks

variable {d e f : Dev}

theorem Dropped.not_up (h : Dropped d) : d.up = false := by
  unfold Dev.up
  rw [h.fd]
  rfl

/-- A peer that comes finds what was left by the one before. -/
theorem chardevTick_peer (d : Dev) (env : Env) : (chardevTick d env).rx = d.rx ∧ (chardevTick d env).peerCaps = d.peerCaps ∧
    (d.up = true → chardevTick d env = d) := by
  unfold chardevTick Dev.up
  split
  · split
    · rename_i h
      exact ⟨rfl, rfl, fun hup => by simp_all⟩
    · exact ⟨rfl, rfl, fun _ => rfl⟩
  · split
    · exact ⟨rfl, rfl, fun _ => rfl⟩
    · rename_i hfd
      split <;> exact ⟨rfl, rfl, fun hup => by simp_all⟩
  · exact ⟨rfl, rfl, fun _ => rfl⟩

theorem settle_peer (d : Dev) (result : ConnectResult) : (settle d result).rx = d.rx ∧ (settle d result).peerCaps = d.peerCaps ∧
    (d.up = true → settle d result = d) := by
  unfold settle Dev.up
  split
  · rename_i h
    cases result <;> exact ⟨rfl, rfl, fun hup => by simp_all⟩
  · exact ⟨rfl, rfl, fun _ => rfl⟩

theorem arrive_peer (d : Dev) (env : Env) :
    (settle (chardevTick { d with writes := env.writes } env) env.connect).rx = d.rx ∧
      (settle (chardevTick { d with writes := env.writes } env) env.connect).peerCaps = d.peerCaps ∧
        (d.up = true → (settle (chardevTick { d with writes := env.writes } env) env.connect).ch = d.ch) := by
  obtain ⟨hrx, hcaps, hstays⟩ := chardevTick_peer { d with writes := env.writes } env
  obtain ⟨hrx', hcaps', hstays'⟩ := settle_peer (chardevTick { d with writes := env.writes } env) env.connect
  refine ⟨hrx'.trans hrx, hcaps'.trans hcaps, ?_⟩
  intro hup
  rw [hstays hup] at hstays' ⊢
  rw [hstays' hup]

/-- A hello of our own to a new peer, whose stream is at its start. -/
theorem greet_holds (d : Dev) (h : d.ch.newPeer = true → d.rx = [] ∧ d.peerCaps = 0) :
    Dropped (greet d) ∨
      (greet d).rx = d.rx ∧ (greet d).peerCaps = d.peerCaps ∧ (greet d).ch = { d.ch with newPeer := false } := by
  unfold greet
  split
  · rename_i hnew
    obtain ⟨hrx, hcaps⟩ := h hnew
    have hsent : Holds { d with ch := { d.ch with newPeer := false }, peerHello := false, peerCaps := 0, rx := [], tx := [] }
      (sendHello
        { d with ch := { d.ch with newPeer := false }, peerHello := false, peerCaps := 0, rx := [], tx := [] }) :=
      sendPacket_holds (Same.refl _) _ _ _ _
    rcases hsent with hsame | hdropped
    · exact .inr ⟨hsame.rx.trans hrx.symm, hsame.caps.trans hcaps.symm, hsame.ch⟩
    · exact .inl hdropped
  · rename_i hnew
    right
    refine ⟨rfl, rfl, ?_⟩
    rw [Bool.not_eq_true] at hnew
    rw [← hnew]

/-- Some of the stream's packets, and all of them if the peer is still there. -/
def Taken (D : Decoded Nat UInt8 Received) (packets : List Received) (d : Dev) : Prop :=
  packets <+: D.packets ∧ (d.up = true → Decodes D packets d.rx d)

/-- The buffer holds no whole packet, and nothing at all before its peer has been there. -/
structure Awaits (d : Dev) : Prop where
  more : redir.next d.peerCaps d.rx = .more
  fresh : Fresh d → d.rx = [] ∧ d.peerCaps = 0

theorem awaits_nothing (h : d.rx = [] ∧ d.peerCaps = 0) : Awaits d := by
  refine ⟨?_, fun _ => h⟩
  obtain ⟨hrx, hcaps⟩ := h
  rw [hrx, hcaps]
  exact next_nothing

theorem drained_taken {s : Nat} {b : List UInt8} {packets : List Received} (hup : d.up = true) (hnew : d.ch.newPeer = false)
    (h : Drained (redir.decode s b) packets d e) : Taken (redir.decode s b) packets e ∧ Awaits e := by
  obtain ⟨hsome, hafter⟩ := h
  rcases hafter with hdropped | ⟨hall, hch⟩
  · refine ⟨⟨hsome, ?_⟩, awaits_nothing ⟨hdropped.rx, hdropped.caps⟩⟩
    intro hup'
    rw [hdropped.not_up] at hup'
    cases hup'
  · refine ⟨⟨hsome, fun _ => hall⟩, ?_, ?_⟩
    · rw [hall.rest, hall.caps]
      exact redir.decode_rest s b hall.bad
    · intro hfresh
      unfold Fresh Dev.up at hfresh
      rw [hch] at hfresh
      rcases hfresh with h | h
      · exact absurd (hup.symm.trans h) (by decide)
      · exact absurd (hnew.symm.trans h) (by decide)

theorem tick_taken (d : Dev) (env : Env) (h : Awaits d) :
    Taken (redir.decode d.peerCaps (d.rx ++ readBytes env.reads)) (tickPackets d env) (tick d env) ∧ Awaits (tick d env) := by
  obtain ⟨hrx, hcaps, hstays⟩ := arrive_peer d env
  unfold tickPackets tick
  generalize settle (chardevTick { d with writes := env.writes } env) env.connect = e at hrx hcaps hstays ⊢
  by_cases hup : e.up = true
  · -- a peer that has just come is greeted, and its stream starts with an empty buffer
    have hstart : e.ch.newPeer = true → e.rx = [] ∧ e.peerCaps = 0 := by
      intro hnew
      rw [hrx, hcaps]
      apply h.fresh
      by_cases hwas : d.up = true
      · right
        rw [← hstays hwas]
        exact hnew
      · left
        simpa using hwas
    have hgreet := greet_holds e hstart
    simp only [hup, Bool.not_true, Bool.false_eq_true, if_false]
    generalize greet e = f at hgreet ⊢
    rcases hgreet with hdropped | ⟨hrx', hcaps', hch'⟩
    · have hlost : drainPackets f env.reads = [] ∧ Dropped (drainRx f env.reads) := by
        unfold drainPackets drainRx
        rw [if_neg (by simp [hdropped.fd])]
        exact ⟨rfl, peerLost_dropped f⟩
      obtain ⟨hnone, hgone⟩ := hlost
      rw [hnone, if_pos (by simp [hgone.fd])]
      refine ⟨⟨List.nil_prefix, ?_⟩, awaits_nothing ⟨hgone.rx, hgone.caps⟩⟩
      intro hup'
      rw [hgone.not_up] at hup'
      cases hup'
    · have hupf : f.up = true := by
        unfold Dev.up
        rw [hch']
        exact hup
      have hfd : f.ch.fd = true := by
        unfold Dev.up at hupf
        exact (Bool.and_eq_true_iff.mp hupf).1
      have hdrained := drainRx_drained f env.reads hfd
      rw [hrx', hcaps', hrx, hcaps] at hdrained
      generalize drainRx f env.reads = g at hdrained ⊢
      have hnew : f.ch.newPeer = false := by rw [hch']
      split
      · exact drained_taken hupf hnew hdrained
      · refine drained_taken hupf hnew (hdrained.holds ?_)
        exact (updateConnection_holds g).trans ((sendCtrlReply_holds _).trans
          ((serviceEndpoints_holds _ _).trans (flushTx_holds _)))
  · -- without a peer there is nothing in the buffer
    rw [Bool.not_eq_true] at hup
    have hwas : d.up = false := by
      by_contra hwas
      rw [Bool.not_eq_false] at hwas
      have hch := hstays hwas
      unfold Dev.up at hup hwas
      rw [hch] at hup
      exact absurd (hwas.symm.trans hup) (by decide)
    have hnone := h.fresh (.inl hwas)
    have hsame := deviceDetach_same e
    simp only [hup, Bool.not_false, if_true]
    refine ⟨⟨List.nil_prefix, ?_⟩, awaits_nothing ⟨?_, ?_⟩⟩
    · intro hup'
      unfold Dev.up at hup hup'
      rw [hsame.ch] at hup'
      exact absurd (hup'.symm.trans hup) (by decide)
    · exact hsame.rx.trans (hrx.trans hnone.1)
    · exact hsame.caps.trans (hcaps.trans hnone.2)

theorem step_taken (d : Dev) (ev : Event) (h : Awaits d) :
    Taken (redir.decode d.peerCaps (d.rx ++ eventBytes ev)) (stepPackets d ev) (step d ev) ∧ Awaits (step d ev) := by
  have hquiet : ∀ e : Dev, e.rx = d.rx → e.peerCaps = d.peerCaps → e.ch = d.ch →
      Taken (redir.decode d.peerCaps (d.rx ++ [])) [] e ∧ Awaits e := by
    intro e hrx hcaps hch
    rw [List.append_nil, Framer.decode_more h.more]
    refine ⟨⟨List.nil_prefix, fun _ => ⟨rfl, rfl, hrx, hcaps⟩⟩, ?_, ?_⟩
    · rw [hrx, hcaps]
      exact h.more
    · unfold Fresh Dev.up
      rw [hrx, hcaps, hch]
      exact h.fresh
  cases ev with
  | present b => exact hquiet _ rfl rfl rfl
  | read off => exact hquiet _ rfl rfl rfl
  | write off val ram => exact hquiet _ rfl rfl rfl
  | reset => exact hquiet _ rfl rfl rfl
  | tick env => exact tick_taken d env h

end Ticks

/-! ## Runs -/

section Runs

variable {ch : Chardev} {before events : List Event}

theorem run_awaits (ch : Chardev) (events : List Event) : Awaits (run (devInit ch) events) := by
  induction events using List.reverseRecOn with
  | nil => exact awaits_nothing ⟨rfl, rfl⟩
  | append_singleton events ev ih =>
    unfold run at ih ⊢
    rw [List.foldl_append]
    exact (step_taken _ ev ih).2

theorem run_append (d : Dev) (events more : List Event) : run d (events ++ more) = run (run d events) more := List.foldl_append

theorem runPackets_append (d : Dev) (events : List Event) (ev : Event) :
    runPackets d (events ++ [ev]) = runPackets d events ++ stepPackets (run d events) ev := by
  induction events generalizing d with
  | nil => simp [runPackets, run]
  | cons e events ih =>
    rw [List.cons_append, runPackets, ih, runPackets, List.append_assoc]
    rfl

/-- The events from when a peer comes, which is there after each of them. -/
structure Connected (ch : Chardev) (before events : List Event) : Prop where
  opened : Opened ch
  fresh : Fresh (run (devInit ch) before)
  stays : ∀ part, part ≠ [] → part <+: events → (run (devInit ch) (before ++ part)).up = true

theorem streamOf_append (events : List Event) (ev : Event) : streamOf (events ++ [ev]) = streamOf events ++ eventBytes ev := by
  unfold streamOf
  rw [List.flatMap_append, List.flatMap_singleton]

theorem run_decodes (h : Connected ch before events) :
    Decodes (redir.decode 0 (streamOf events)) (runPackets (run (devInit ch) before) events)
      (run (devInit ch) (before ++ events)).rx (run (devInit ch) (before ++ events)) := by
  induction events using List.reverseRecOn with
  | nil =>
    obtain ⟨hrx, hcaps⟩ := (run_awaits ch before).fresh h.fresh
    have hnone : redir.decode 0 [] = ⟨[], 0, [], false⟩ := Framer.decode_more next_nothing
    rw [List.append_nil, streamOf, List.flatMap_nil, hnone]
    exact ⟨rfl, rfl, hrx, hcaps⟩
  | append_singleton events ev ih =>
    have hbefore := ih ⟨h.opened, h.fresh, fun part hne hpart => h.stays part hne (hpart.trans (List.prefix_append events [ev]))⟩
    have hstep := (step_taken _ ev (run_awaits ch (before ++ events))).1
    have hup := h.stays (events ++ [ev]) (by simp) List.prefix_rfl
    rw [← List.append_assoc, run_append _ _ [ev]] at hup ⊢
    have hall := hstep.2 hup
    rw [hbefore.rest, hbefore.caps] at hall
    rw [streamOf_append, Framer.decode_append, Framer.feed, if_neg (by simp [hbefore.bad]), runPackets_append, ← run_append]
    exact ⟨by rw [hbefore.packets, hall.packets], hall.bad, hall.rest, hall.caps⟩

theorem part_of_one {l : List Event} {ev : Event} (hne : l ≠ []) (h : l <+: [ev]) : l = [ev] := by
  rcases List.prefix_cons_iff.mp h with rfl | ⟨rest, rfl, hrest⟩
  · exact absurd rfl hne
  · rw [List.prefix_nil.mp hrest]

/-- The packets handled are those of the bytes, of which no read or tick is seen; and of a stream
    whose next header declares a payload over the limit only the packets before it can be, its
    peer being gone after the event that brought the header. A loop's packets are the ones
    its device has handled. -/
theorem packets_of_stream (h : Connected ch before events) :
    runPackets (run (devInit ch) before) events = (redir.decode 0 (streamOf events)).packets ∧
    (∀ ch' before' events', Connected ch' before' events' → streamOf events' = streamOf events →
      runPackets (run (devInit ch') before') events' = runPackets (run (devInit ch) before) events) ∧
    (∀ ev, runPackets (run (devInit ch) before) (events ++ [ev]) <+: (redir.decode 0 (streamOf (events ++ [ev]))).packets ∧
      (headerLength (redir.decode 0 (streamOf (events ++ [ev]))).state ≤
        (redir.decode 0 (streamOf (events ++ [ev]))).rest.length →
        urMaxPayload < rd 4 (at' (redir.decode 0 (streamOf (events ++ [ev]))).rest) 4 →
          (run (devInit ch) (before ++ events ++ [ev])).up = false)) ∧
    ∀ fuel b d, (packetLoop fuel b d).2 = handlePackets d (packetsOf fuel b d) ∨
      (packetLoop fuel b d).2 = peerLost (handlePackets d (packetsOf fuel b d)) := by
  have hall := run_decodes h
  refine ⟨hall.packets, ?_, ?_, packetLoop_handles⟩
  · intro ch' before' events' h' hstream
    rw [(run_decodes h').packets, hall.packets, hstream]
  · intro ev
    obtain ⟨hsome, hlast⟩ := (step_taken _ ev (run_awaits ch (before ++ events))).1
    rw [hall.rest, hall.caps] at hsome hlast
    rw [runPackets_append, ← run_append, hall.packets]
    have hgoes : redir.decode 0 (streamOf (events ++ [ev])) = redir.feed (redir.decode 0 (streamOf events)) (eventBytes ev) := by
      rw [streamOf_append, Framer.decode_append]
    rw [Framer.feed, if_neg (by simp [hall.bad])] at hgoes
    refine ⟨?_, ?_⟩
    · rw [hgoes]
      exact (List.prefix_append_right_inj _).mpr hsome
    · intro hheader hlimit
      by_contra hup
      rw [Bool.not_eq_false, run_append _ _ [ev]] at hup
      have hbad : (redir.decode 0 (streamOf (events ++ [ev]))).bad = false := by
        rw [hgoes]
        exact (hlast hup).bad
      have hmore := redir.decode_rest 0 _ hbad
      have hnext : nextPacket (redir.decode 0 (streamOf (events ++ [ev]))).state
        (redir.decode 0 (streamOf (events ++ [ev]))).rest = .bad := by
        unfold nextPacket
        rw [if_neg (by omega), if_pos hlimit]
      exact absurd (hnext.symm.trans hmore) (by simp)

/-- A hello, and a reset whose header already has an id of 64 bits. -/
def helloReset : List UInt8 :=
  le 4 urHello ++ le 4 68 ++ le 4 0 ++ List.replicate 64 0 ++ le 4 ourCaps ++ (le 4 urReset ++ le 4 0 ++ le 4 7 ++ le 4 1)

/-- Cut inside the second header. -/
def helloResetTick : Event :=
  .tick { accepts := false, redial := none, connect := .pending,
          reads := [.bytes (helloReset.take 85), .bytes (helloReset.drop 85)],
          writes := [], intrDue := false }

theorem helloReset_packets : runPackets (run (devInit { kind := .pty, fd := true, connecting := false, newPeer := true }) [])
    [helloResetTick] = (redir.decode 0 (streamOf [helloResetTick])).packets :=
  (packets_of_stream ⟨.pty, .inr rfl, fun part hne hpart => by
    rw [part_of_one hne hpart]
    decide⟩).1

example : runPackets (run (devInit { kind := .pty, fd := true, connecting := false, newPeer := true }) []) [helloResetTick] =
    [⟨urHello, 0, List.replicate 64 0 ++ le 4 ourCaps⟩, ⟨urReset, 0x100000007, []⟩] := by
  decide

end Runs

end Be300.Usb
