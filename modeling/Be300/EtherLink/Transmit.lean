/-
  Be300.EtherLink.Transmit — what the transmit FIFO of `src/hw/el3.c` sends.

  The driver writes a frame as a header of four bytes, its data and padding up to a multiple
  of four. `TxPacket` is such a frame, `written` the bytes that reach the FIFO in a run, and
  `txFrames` cuts a stream into packets.

  Proved (`frames_of_stream`): as long as the transmitter stays enabled and the FIFO does not
  overrun, what is sent is the data of the stream's packets, in order, whatever widths the
  stream was written with and whatever the driver and the network did in between; a packet
  too short for an Ethernet header is not sent.
-/

import Be300.EtherLink.Adapter
import Be300.Lib.Framing

namespace Be300.EtherLink

open Lib

/-- A frame as the driver writes it. -/
structure TxPacket where
  low : UInt8
  high : UInt8
  spare : UInt8
  spare' : UInt8
  data : List UInt8
  pad : List UInt8
  length_data : data.length = (low.toNat ||| high.toNat <<< 8) % 2 ^ 11
  length_pad : pad.length = (data.length + 3) / 4 * 4 - data.length

def TxPacket.bytes (p : TxPacket) : List UInt8 := p.low :: p.high :: p.spare :: p.spare' :: (p.data ++ p.pad)

/-- The frames of packets that are long enough for Ethernet. -/
def framesOf (packets : List TxPacket) : List (List UInt8) :=
  (packets.map TxPacket.data).filter fun data => decide (14 ≤ data.length)

/-- No packet is whole yet. -/
def Incomplete (b : List UInt8) : Prop := b.length < 4 ∨ b.length < txNeed (txLength b)

/-- The bytes of a write, the low one first. -/
def writeBytes : Nat → Nat → List UInt8
  | 0, _ => []
  | size + 1, value => UInt8.ofNat value :: writeBytes size (value >>> 8)

/-- The bytes an access writes to the FIFO. -/
def fifoPart (s : El3) : Access → List UInt8
  | .write offset size value => if s.window = 1 ∧ offset % 16 < 4 then writeBytes size value else []
  | _ => []

def written : El3 → List Access → List UInt8
  | _, [] => []
  | s, a :: accesses => fifoPart s a ++ written (step s a).1 accesses

def EnabledThroughout : El3 → List Access → Prop
  | s, [] => s.txEnabled = true
  | s, a :: accesses => s.txEnabled = true ∧ EnabledThroughout (step s a).1 accesses

/-- No write finds the FIFO full. -/
def Fits : El3 → List Access → Prop
  | _, [] => True
  | s, a :: accesses => s.tx.length + (fifoPart s a).length ≤ txSize ∧ Fits (step s a).1 accesses

/-! ## Packets of a stream -/

section Stream

variable {b c p : List UInt8} {n : Nat}

def txNext (b : List UInt8) : Next (List UInt8) :=
  if b.length < 4 ∨ b.length < txNeed (txLength b) then .more else .packet (b.take (txNeed (txLength b))) (txNeed (txLength b))

theorem need_ge (length : Nat) : 4 + length ≤ txNeed length := by
  unfold txNeed
  omega

theorem txLength_append (c : List UInt8) (h : 4 ≤ b.length) : txLength (b ++ c) = txLength b := by
  rcases b with _ | ⟨x, _ | ⟨y, b⟩⟩
  · simp at h
  · simp at h
  · rfl

theorem txNext_inside (h : txNext b = .packet p n) : 0 < n ∧ n ≤ b.length := by
  have hpos := need_ge (txLength b)
  unfold txNext at h
  split at h
  · cases h
  · cases h
    omega

theorem txNext_append (c : List UInt8) (h : txNext b = .packet p n) : txNext (b ++ c) = .packet p n := by
  unfold txNext at h ⊢
  split at h
  · cases h
  · rename_i hwhole
    have hlen : (b ++ c).length = b.length + c.length := List.length_append
    rw [txLength_append c (by omega), if_neg (by omega), List.take_append_of_le_length (by omega)]
    exact h

theorem txNext_bad (h : txNext b = .bad) : txNext (b ++ c) = .bad := by
  unfold txNext at h
  split at h
  · cases h
  · cases h

end Stream

/-- The driver's stream. -/
def txFrames : Framer Unit UInt8 (List UInt8) where
  next _ := txNext
  after _ _ := ()
  inside := txNext_inside
  packet_append := txNext_append
  bad_append _ := txNext_bad

section Decode

variable {b : List UInt8}

theorem next_more : txFrames.next () b = .more ↔ Incomplete b := by
  show txNext b = .more ↔ _
  unfold txNext Incomplete
  constructor
  · intro h
    by_contra hwhole
    rw [if_neg hwhole] at h
    cases h
  · intro h
    rw [if_pos h]

theorem never_bad (b : List UInt8) : (txFrames.decode () b).bad = false := by
  induction hm : b.length using Nat.strongRecOn generalizing b with
  | ind m ih =>
    cases hnext : txFrames.next () b with
    | more => rw [Framer.decode_more hnext]
    | bad =>
      have hbad : txNext b = .bad := hnext
      unfold txNext at hbad
      split at hbad
      · cases hbad
      · cases hbad
    | packet p n =>
      obtain ⟨hpos, hinside⟩ := txNext_inside hnext
      rw [Framer.decode_packet hnext]
      exact ih (b.drop n).length (by rw [List.length_drop]; omega) _ rfl

/-- What comes after a stream goes on from its rest. -/
theorem decode_more_bytes (b c : List UInt8) :
    (txFrames.decode () (b ++ c)).packets =
        (txFrames.decode () b).packets ++ (txFrames.decode () ((txFrames.decode () b).rest ++ c)).packets ∧
      (txFrames.decode () (b ++ c)).rest = (txFrames.decode () ((txFrames.decode () b).rest ++ c)).rest := by
  rw [Framer.decode_append, Framer.feed, if_neg (by rw [never_bad]; decide)]
  exact ⟨rfl, rfl⟩

theorem decode_incomplete (h : Incomplete b) : (txFrames.decode () b).packets = [] ∧ (txFrames.decode () b).rest = b := by
  rw [Framer.decode_more (next_more.mpr h)]
  exact ⟨rfl, rfl⟩

theorem TxPacket.length_bytes (p : TxPacket) : p.bytes.length = txNeed (txLength p.bytes) := by
  have hlen : txLength p.bytes = p.data.length := p.length_data.symm
  rw [hlen]
  simp only [TxPacket.bytes, List.length_cons, List.length_append, p.length_pad, txNeed]
  omega

theorem decode_packets (packets : List TxPacket) {rest : List UInt8} (h : Incomplete rest) :
    (txFrames.decode () (packets.flatMap TxPacket.bytes ++ rest)).packets = packets.map TxPacket.bytes ∧
      (txFrames.decode () (packets.flatMap TxPacket.bytes ++ rest)).rest = rest := by
  induction packets with
  | nil => exact decode_incomplete h
  | cons p packets ih =>
    have hneed := need_ge (txLength p.bytes)
    have hlen := p.length_bytes
    have hfirst : txNext p.bytes = .packet p.bytes p.bytes.length := by
      unfold txNext
      rw [if_neg (by omega), ← hlen, List.take_length]
    have hnext : txFrames.next () (p.bytes ++ (packets.flatMap TxPacket.bytes ++ rest)) = .packet p.bytes p.bytes.length :=
      txNext_append _ hfirst
    rw [List.flatMap_cons, List.append_assoc, Framer.decode_packet hnext, List.drop_left]
    exact ⟨congrArg _ ih.1, ih.2⟩

/-- A whole packet at the front of a stream. -/
theorem packet_bytes {b : List UInt8} (h : b.length = txNeed (txLength b)) : ∃ p : TxPacket, p.bytes = b := by
  have hneed := need_ge (txLength b)
  rcases b with _ | ⟨x, _ | ⟨y, _ | ⟨z, _ | ⟨w, b⟩⟩⟩⟩
  · simp at h hneed
    omega
  · simp at h hneed
    omega
  · simp at h hneed
    omega
  · simp at h hneed
    omega
  · rw [show txLength (x :: y :: z :: w :: b) = (x.toNat ||| y.toNat <<< 8) % 2 ^ 11 from rfl] at h hneed
    generalize hn : (x.toNat ||| y.toNat <<< 8) % 2 ^ 11 = n at h hneed
    simp only [List.length_cons, txNeed] at h
    refine ⟨⟨x, y, z, w, b.take n, b.drop n, ?_, ?_⟩, ?_⟩
    · rw [hn, List.length_take]
      omega
    · rw [List.length_drop, List.length_take]
      omega
    · simp [TxPacket.bytes]

theorem stream_packets (b : List UInt8) : ∃ (packets : List TxPacket) (rest : List UInt8),
    b = packets.flatMap TxPacket.bytes ++ rest ∧ Incomplete rest := by
  induction hm : b.length using Nat.strongRecOn generalizing b with
  | ind m ih =>
    by_cases hwhole : Incomplete b
    · exact ⟨[], b, rfl, hwhole⟩
    · have hneed := need_ge (txLength b)
      unfold Incomplete at hwhole
      have htake : (b.take (txNeed (txLength b))).length = txNeed (txLength b) := by
        rw [List.length_take]
        omega
      have hlength : txLength (b.take (txNeed (txLength b))) = txLength b := by
        have happend := txLength_append (b.drop (txNeed (txLength b))) (b := b.take (txNeed (txLength b))) (by omega)
        rw [List.take_append_drop] at happend
        exact happend.symm
      obtain ⟨p, hp⟩ := packet_bytes (htake.trans (congrArg txNeed hlength.symm))
      obtain ⟨packets, rest, hdrop, hrest⟩ := ih (b.drop (txNeed (txLength b))).length (by rw [List.length_drop]; omega) _ rfl
      refine ⟨p :: packets, rest, ?_, hrest⟩
      rw [List.flatMap_cons, hp, List.append_assoc, ← hdrop, List.take_append_drop]

end Decode

/-! ## What one access sends -/

/-- The frame of a packet's bytes. -/
def frameOf (p : List UInt8) : List (List UInt8) := if 14 ≤ txLength p then [(p.drop 4).take (txLength p)] else []

theorem frameOf_bytes (packets : List TxPacket) : (packets.map TxPacket.bytes).flatMap frameOf = framesOf packets := by
  induction packets with
  | nil => rfl
  | cons p packets ih =>
    have hlen : txLength p.bytes = p.data.length := p.length_data.symm
    have hdata : (p.bytes.drop 4).take p.data.length = p.data := List.take_left
    rw [List.map_cons, List.flatMap_cons, ih, frameOf, hlen, hdata]
    unfold framesOf
    rw [List.map_cons, List.filter_cons]
    by_cases hlong : 14 ≤ p.data.length
    · rw [if_pos hlong, if_pos (decide_eq_true hlong)]
      rfl
    · rw [if_neg hlong, if_neg (by simpa using hlong)]
      rfl

section Flush

variable {s : El3}

/-- What flushing leaves alone. -/
structure Untouched (s t : El3) : Prop where
  window : t.window = s.window
  txEnabled : t.txEnabled = s.txEnabled
  connected : t.connected = s.connected
  rx : t.rx = s.rx
  rxPos : t.rxPos = s.rxPos
  rxEnabled : t.rxEnabled = s.rxEnabled

theorem Untouched.trans {s t u : El3} (h : Untouched s t) (h' : Untouched t u) : Untouched s u :=
  ⟨h'.window.trans h.window, h'.txEnabled.trans h.txEnabled, h'.connected.trans h.connected, h'.rx.trans h.rx,
    h'.rxPos.trans h.rxPos, h'.rxEnabled.trans h.rxEnabled⟩

theorem Untouched.of_tx {l : List UInt8} {t : El3} (h : Untouched { s with tx := l } t) : Untouched s t :=
  ⟨h.window, h.txEnabled, h.connected, h.rx, h.rxPos, h.rxEnabled⟩

theorem flush_incomplete (h : Incomplete s.tx) : txFlush s = (s, []) := by
  rw [txFlush]
  by_cases hheader : s.tx.length < 4
  · rw [if_pos hheader]
  · rw [if_neg hheader]
    exact if_pos (Or.resolve_left h hheader)

/-- Flushing takes the packets off the FIFO. -/
theorem flush_spec (s : El3) : (txFlush s).1.tx = (txFrames.decode () s.tx).rest ∧
    (txFlush s).2 = (if s.txEnabled ∧ s.connected then (txFrames.decode () s.tx).packets.flatMap frameOf else []) ∧
    Untouched s (txFlush s).1 := by
  induction hm : s.tx.length using Nat.strongRecOn generalizing s with
  | ind m ih =>
    by_cases hwhole : Incomplete s.tx
    · obtain ⟨hpackets, hrest⟩ := decode_incomplete hwhole
      rw [flush_incomplete hwhole, hpackets, hrest]
      refine ⟨rfl, ?_, ⟨rfl, rfl, rfl, rfl, rfl, rfl⟩⟩
      split
      · rfl
      · rfl
    · have hneed := need_ge (txLength s.tx)
      have hnext : txFrames.next () s.tx = .packet (s.tx.take (txNeed (txLength s.tx))) (txNeed (txLength s.tx)) := if_neg hwhole
      unfold Incomplete at hwhole
      have hhead : txLength (s.tx.take (txNeed (txLength s.tx))) = txLength s.tx := by
        have happend := txLength_append (s.tx.drop (txNeed (txLength s.tx))) (b := s.tx.take (txNeed (txLength s.tx)))
          (by rw [List.length_take]; omega)
        rw [List.take_append_drop] at happend
        exact happend.symm
      have hdata : ((s.tx.take (txNeed (txLength s.tx))).drop 4).take (txLength s.tx) = (s.tx.drop 4).take (txLength s.tx) := by
        rw [List.drop_take, List.take_take, Nat.min_eq_left (by omega)]
      rw [Framer.decode_packet hnext, txFlush, if_neg (by omega)]
      simp only [if_neg (show ¬s.tx.length < txNeed (txLength s.tx) by omega), List.flatMap_cons, frameOf, hhead, hdata]
      generalize hnoted : (if (s.tx.getD 1 0) &&& 0x80 ≠ 0 then noteSuccess s else s) = t
      have ht : Untouched s t := by
        rw [← hnoted]
        split
        · exact ⟨rfl, rfl, rfl, rfl, rfl, rfl⟩
        · exact ⟨rfl, rfl, rfl, rfl, rfl, rfl⟩
      obtain ⟨htx, hsent, hkept⟩ := ih (s.tx.drop (txNeed (txLength s.tx))).length (by rw [List.length_drop]; omega)
        { t with tx := s.tx.drop (txNeed (txLength s.tx)) } rfl
      refine ⟨htx, ?_, ht.trans hkept.of_tx⟩
      rw [hsent, show ({ t with tx := s.tx.drop (txNeed (txLength s.tx)) } : El3).txEnabled = s.txEnabled from ht.txEnabled,
        show ({ t with tx := s.tx.drop (txNeed (txLength s.tx)) } : El3).connected = s.connected from ht.connected]
      by_cases hon : s.txEnabled = true ∧ s.connected = true
      · rw [if_pos hon, if_pos hon]
        by_cases hlong : 14 ≤ txLength s.tx
        · rw [if_pos ⟨hon.1, hon.2, hlong⟩, if_pos hlong]
        · rw [if_neg (fun h => hlong h.2.2), if_neg hlong]
      · rw [if_neg hon, if_neg hon, if_neg fun h => hon ⟨h.1, h.2.1⟩]
        rfl

end Flush

/-! ## Writes -/

section Write

variable {s : El3}

theorem length_writeBytes (size value : Nat) : (writeBytes size value).length = size := by
  induction size generalizing value with
  | zero => rfl
  | succ size ih => rw [writeBytes, List.length_cons, ih]

theorem fifoBytes_fits {size : Nat} (value : Nat) (h : s.tx.length + size ≤ txSize) :
    fifoBytes size value s = ({ s with tx := s.tx ++ writeBytes size value }, true) := by
  induction size generalizing value s with
  | zero =>
    rw [fifoBytes, writeBytes, List.append_nil]
  | succ size ih =>
    rw [fifoBytes, if_neg (by omega), ih]
    · simp only [writeBytes, List.append_assoc, List.singleton_append]
    · simp only [List.length_append, List.length_singleton]
      omega

theorem fifoWrite_fits {size : Nat} (value : Nat) (h : s.tx.length + size ≤ txSize) :
    (fifoWrite s size value).1.tx = (txFrames.decode () (s.tx ++ writeBytes size value)).rest ∧
    (fifoWrite s size value).2 =
      (if s.txEnabled ∧ s.connected then (txFrames.decode () (s.tx ++ writeBytes size value)).packets.flatMap frameOf else []) ∧
    Untouched s (fifoWrite s size value).1 := by
  rw [fifoWrite, fifoBytes_fits value h]
  obtain ⟨htx, hsent, hkept⟩ := flush_spec { s with tx := s.tx ++ writeBytes size value }
  exact ⟨htx, hsent, hkept.of_tx⟩

theorem fifoBytes_spec (size value : Nat) (s : El3) :
    Untouched s (fifoBytes size value s).1 ∧ ((fifoBytes size value s).2 = false → (fifoBytes size value s).1.tx = []) := by
  induction size generalizing value s with
  | zero => exact ⟨⟨rfl, rfl, rfl, rfl, rfl, rfl⟩, fun h => by cases h⟩
  | succ size ih =>
    rw [fifoBytes]
    split
    · exact ⟨⟨rfl, rfl, rfl, rfl, rfl, rfl⟩, fun _ => rfl⟩
    · obtain ⟨hkept, hempty⟩ := ih (value >>> 8) { s with tx := s.tx ++ [UInt8.ofNat value] }
      exact ⟨hkept.of_tx, hempty⟩

end Write

/-! ## Runs -/

section Run

variable {s : El3}

theorem incomplete_nil : Incomplete [] := Or.inl (by decide)

theorem Incomplete.length_lt {b : List UInt8} (h : Incomplete b) : b.length < 2052 := by
  have hlen : txLength b < 2 ^ 11 := Nat.mod_lt _ (by decide)
  unfold Incomplete txNeed at h
  omega

theorem decode_rest_incomplete (b : List UInt8) : Incomplete (txFrames.decode () b).rest :=
  next_more.mp (Framer.decode_rest txFrames () b (never_bad b))

theorem fifoWrite_spec (s : El3) (size value : Nat) :
    Untouched s (fifoWrite s size value).1 ∧ Incomplete (fifoWrite s size value).1.tx := by
  obtain ⟨hkept, hempty⟩ := fifoBytes_spec size value s
  unfold fifoWrite
  rcases hbytes : fifoBytes size value s with ⟨t, stored⟩
  rw [hbytes] at hkept hempty
  rcases stored with _ | _
  · refine ⟨hkept, ?_⟩
    rw [hempty rfl]
    exact incomplete_nil
  · obtain ⟨htx, -, hflushed⟩ := flush_spec t
    refine ⟨hkept.trans hflushed, ?_⟩
    rw [htx]
    exact decode_rest_incomplete t.tx

/-- A command that changes the transmit FIFO also disables the transmitter. -/
theorem command_tx (s : El3) (value : Nat) : (command s value).connected = s.connected ∧
    ((command s value).tx = s.tx ∨ (command s value).tx = [] ∧ (command s value).txEnabled = false) := by
  unfold command
  simp only
  split
  · exact ⟨rfl, Or.inr ⟨rfl, rfl⟩⟩
  · exact ⟨rfl, Or.inl rfl⟩
  · exact ⟨rfl, Or.inl rfl⟩
  · exact ⟨rfl, Or.inl rfl⟩
  · exact ⟨rfl, Or.inl rfl⟩
  · unfold rxPop
    split
    · exact ⟨rfl, Or.inl rfl⟩
    · exact ⟨rfl, Or.inl rfl⟩
  · exact ⟨rfl, Or.inl rfl⟩
  · exact ⟨rfl, Or.inl rfl⟩
  · exact ⟨rfl, Or.inr ⟨rfl, rfl⟩⟩
  · exact ⟨rfl, Or.inl rfl⟩
  · exact ⟨rfl, Or.inl rfl⟩
  · exact ⟨rfl, Or.inl rfl⟩
  · exact ⟨rfl, Or.inl rfl⟩
  · exact ⟨rfl, Or.inl rfl⟩
  · exact ⟨rfl, Or.inl rfl⟩

theorem window0_tx (s : El3) (offset value : Nat) :
    (writeWindow0 s offset value).connected = s.connected ∧ (writeWindow0 s offset value).tx = s.tx := by
  unfold writeWindow0
  split
  · exact ⟨rfl, rfl⟩
  · exact ⟨rfl, rfl⟩
  · exact ⟨rfl, rfl⟩
  · exact ⟨rfl, rfl⟩
  · exact ⟨rfl, rfl⟩

theorem read_tx (s : El3) (offset size : Nat) :
    (el3Read s offset size).1.connected = s.connected ∧ (el3Read s offset size).1.tx = s.tx := by
  unfold el3Read fifoRead
  simp only
  split
  · exact ⟨rfl, rfl⟩
  split
  · split
    · exact ⟨rfl, rfl⟩
    · exact ⟨rfl, rfl⟩
  · exact ⟨rfl, rfl⟩

theorem receive_tx (s : El3) (frame : List UInt8) :
    (el3Receive s frame).1.connected = s.connected ∧ (el3Receive s frame).1.tx = s.tx := by
  unfold el3Receive
  split
  · exact ⟨rfl, rfl⟩
  split
  · exact ⟨rfl, rfl⟩
  split
  · exact ⟨rfl, rfl⟩
  · exact ⟨rfl, rfl⟩

/-- Every other write than one to the FIFO. -/
theorem write_tx {offset : Nat} (size value : Nat) (h : ¬(s.window = 1 ∧ offset % 16 < 4)) :
    (el3Write s offset size value).2 = [] ∧ (el3Write s offset size value).1.connected = s.connected ∧
      ((el3Write s offset size value).1.tx = s.tx ∨
        (el3Write s offset size value).1.tx = [] ∧ (el3Write s offset size value).1.txEnabled = false) := by
  unfold el3Write
  simp only [if_neg h]
  split
  · exact ⟨rfl, command_tx s value⟩
  split
  · exact ⟨rfl, rfl, Or.inl rfl⟩
  split
  · exact ⟨rfl, rfl, Or.inl rfl⟩
  split
  · exact ⟨rfl, (window0_tx s _ value).1, Or.inl (window0_tx s _ value).2⟩
  split
  · exact ⟨rfl, rfl, Or.inl rfl⟩
  · exact ⟨rfl, rfl, Or.inl rfl⟩

theorem write_fifo {offset : Nat} (size value : Nat) (h : s.window = 1 ∧ offset % 16 < 4) :
    el3Write s offset size value = fifoWrite s size value := by
  unfold el3Write
  simp only [if_pos h]
  rw [if_neg (by omega)]

theorem step_connected (s : El3) (a : Access) : (step s a).1.connected = s.connected := by
  rcases a with ⟨offset, size⟩ | ⟨offset, size, value⟩ | frame
  · exact (read_tx s offset size).1
  · show (el3Write s offset size value).1.connected = _
    by_cases hfifo : s.window = 1 ∧ offset % 16 < 4
    · rw [write_fifo size value hfifo]
      exact (fifoWrite_spec s size value).1.connected
    · exact (write_tx size value hfifo).2.1
  · exact (receive_tx s frame).1

/-- Between accesses no packet is whole. -/
theorem step_incomplete (a : Access) (h : Incomplete s.tx) : Incomplete (step s a).1.tx := by
  rcases a with ⟨offset, size⟩ | ⟨offset, size, value⟩ | frame
  · rw [show (step s (.read offset size)).1.tx = s.tx from (read_tx s offset size).2]
    exact h
  · show Incomplete (el3Write s offset size value).1.tx
    by_cases hfifo : s.window = 1 ∧ offset % 16 < 4
    · rw [write_fifo size value hfifo]
      exact (fifoWrite_spec s size value).2
    · rcases (write_tx size value hfifo).2.2 with htx | ⟨htx, -⟩
      · rw [htx]
        exact h
      · rw [htx]
        exact incomplete_nil
  · rw [show (step s (.receive frame)).1.tx = s.tx from (receive_tx s frame).2]
    exact h

theorem run_incomplete (accesses : List Access) (h : Incomplete s.tx) : Incomplete (run s accesses).tx := by
  induction accesses generalizing s with
  | nil => exact h
  | cons a accesses ih => exact ih (step_incomplete a h)

theorem Reachable.incomplete (h : Reachable s) : Incomplete s.tx := by
  obtain ⟨connected, mac, accesses, rfl⟩ := h
  exact run_incomplete accesses incomplete_nil

/-- An access sends the packets it makes whole. -/
theorem step_sent {a : Access} (h : Incomplete s.tx) (hfits : s.tx.length + (fifoPart s a).length ≤ txSize)
    (hconnected : s.connected = true) (hon : s.txEnabled = true) (hstill : (step s a).1.txEnabled = true) :
    (step s a).1.tx = (txFrames.decode () (s.tx ++ fifoPart s a)).rest ∧
      (step s a).2 = (txFrames.decode () (s.tx ++ fifoPart s a)).packets.flatMap frameOf := by
  obtain ⟨hpackets, hrest⟩ := decode_incomplete h
  have hquiet : ∀ t : El3 × List (List UInt8), t.1.tx = s.tx → t.2 = [] → t.1.tx = (txFrames.decode () (s.tx ++ [])).rest ∧
      t.2 = (txFrames.decode () (s.tx ++ [])).packets.flatMap frameOf := by
    intro t htx hsent
    rw [List.append_nil, hpackets, hrest, htx, hsent]
    exact ⟨rfl, rfl⟩
  rcases a with ⟨offset, size⟩ | ⟨offset, size, value⟩ | frame
  · exact hquiet _ (read_tx s offset size).2 rfl
  · by_cases hfifo : s.window = 1 ∧ offset % 16 < 4
    · have hpart : fifoPart s (.write offset size value) = writeBytes size value := if_pos hfifo
      rw [hpart, length_writeBytes] at hfits
      obtain ⟨htx, hsent, -⟩ := fifoWrite_fits value hfits
      rw [if_pos ⟨hon, hconnected⟩] at hsent
      rw [hpart, show step s (.write offset size value) = fifoWrite s size value from write_fifo size value hfifo]
      exact ⟨htx, hsent⟩
    · have hpart : fifoPart s (.write offset size value) = [] := if_neg hfifo
      obtain ⟨hsent, -, htx⟩ := write_tx size value hfifo
      rw [hpart]
      rcases htx with htx | ⟨-, hoff⟩
      · exact hquiet _ htx hsent
      · rw [show (step s (.write offset size value)).1.txEnabled = false from hoff] at hstill
        cases hstill
  · exact hquiet _ (receive_tx s frame).2 rfl

theorem EnabledThroughout.head {accesses : List Access} (h : EnabledThroughout s accesses) : s.txEnabled = true := by
  rcases accesses with _ | ⟨a, accesses⟩
  · exact h
  · exact h.1

theorem run_sent {accesses : List Access} (h : Incomplete s.tx) (hconnected : s.connected = true)
    (henabled : EnabledThroughout s accesses) (hfits : Fits s accesses) :
    (run s accesses).tx = (txFrames.decode () (s.tx ++ written s accesses)).rest ∧
      sent s accesses = (txFrames.decode () (s.tx ++ written s accesses)).packets.flatMap frameOf := by
  induction accesses generalizing s with
  | nil =>
    obtain ⟨hpackets, hrest⟩ := decode_incomplete h
    rw [written, List.append_nil, hpackets, hrest]
    exact ⟨rfl, rfl⟩
  | cons a accesses ih =>
    obtain ⟨hon, hrest⟩ := henabled
    obtain ⟨htx, hsent⟩ := step_sent h hfits.1 hconnected hon hrest.head
    obtain ⟨htx', hsent'⟩ := ih (step_incomplete a h) ((step_connected s a).trans hconnected) hrest hfits.2
    obtain ⟨hpackets, hleft⟩ := decode_more_bytes (s.tx ++ fifoPart s a) (written (step s a).1 accesses)
    rw [htx] at htx' hsent'
    rw [written, ← List.append_assoc, hpackets, hleft, sent, hsent, hsent', List.flatMap_append]
    exact ⟨htx', rfl⟩

/-- Accesses of at most four bytes never overrun the FIFO. -/
theorem narrow_fits {accesses : List Access} (h : Incomplete s.tx)
    (hnarrow : ∀ offset size value, Access.write offset size value ∈ accesses → size ≤ 4) : Fits s accesses := by
  induction accesses generalizing s with
  | nil => trivial
  | cons a accesses ih =>
    have hroom := h.length_lt
    have hpart : (fifoPart s a).length ≤ 4 := by
      rcases a with ⟨offset, size⟩ | ⟨offset, size, value⟩ | frame
      · exact Nat.zero_le 4
      · show (if s.window = 1 ∧ offset % 16 < 4 then writeBytes size value else []).length ≤ 4
        split
        · rw [length_writeBytes]
          exact hnarrow offset size value List.mem_cons_self
        · exact Nat.zero_le 4
      · exact Nat.zero_le 4
    refine ⟨?_, ih (step_incomplete a h) fun offset size value hmem => hnarrow offset size value (List.mem_cons_of_mem a hmem)⟩
    unfold txSize el3Fifo
    omega

/-- Writes to the FIFO and nothing else. -/
def fifoWrites (writes : List (Nat × Nat)) : List Access := writes.map fun w => .write 0 w.1 w.2

theorem fifoWrites_spec (writes : List (Nat × Nat)) (hwindow : s.window = 1) (hon : s.txEnabled = true) :
    EnabledThroughout s (fifoWrites writes) ∧ written s (fifoWrites writes) = writes.flatMap fun w => writeBytes w.1 w.2 := by
  induction writes generalizing s with
  | nil => exact ⟨hon, rfl⟩
  | cons w writes ih =>
    have hstep : step s (.write 0 w.1 w.2) = fifoWrite s w.1 w.2 :=
      write_fifo w.1 w.2 (show s.window = 1 ∧ 0 % 16 < 4 from ⟨hwindow, by decide⟩)
    obtain ⟨hkept, -⟩ := fifoWrite_spec s w.1 w.2
    rw [← hstep] at hkept
    obtain ⟨henabled, hwritten⟩ := ih (hkept.window.trans hwindow) (hkept.txEnabled.trans hon)
    have hpart : fifoPart s (.write 0 w.1 w.2) = writeBytes w.1 w.2 := if_pos ⟨hwindow, by decide⟩
    refine ⟨⟨hon, henabled⟩, ?_⟩
    rw [List.flatMap_cons, ← hwritten, ← hpart]
    rfl

/-- While the transmitter is enabled and the FIFO has room, what is sent is the frames of the
    packets in the stream, however it is written. -/
theorem frames_of_stream {accesses : List Access} (hs : Reachable s) (hconnected : s.connected = true)
    (henabled : EnabledThroughout s accesses) (hfits : Fits s accesses) :
    (∃ (packets : List TxPacket) (rest : List UInt8),
      s.tx ++ written s accesses = packets.flatMap TxPacket.bytes ++ rest ∧ Incomplete rest) ∧
    (∀ (packets : List TxPacket) (rest : List UInt8),
      s.tx ++ written s accesses = packets.flatMap TxPacket.bytes ++ rest → Incomplete rest →
        sent s accesses = framesOf packets ∧ (run s accesses).tx = rest) ∧
    ∀ (t : El3) (others : List Access), Reachable t → t.connected = true → EnabledThroughout t others → Fits t others →
      t.tx ++ written t others = s.tx ++ written s accesses → sent t others = sent s accesses := by
  obtain ⟨htx, hsent⟩ := run_sent hs.incomplete hconnected henabled hfits
  refine ⟨stream_packets _, ?_, ?_⟩
  · intro packets rest hstream hrest
    obtain ⟨hpackets, hleft⟩ := decode_packets packets hrest
    rw [htx, hsent, hstream, hpackets, hleft, frameOf_bytes]
    exact ⟨rfl, rfl⟩
  · intro t others ht htconnected htenabled htfits hsame
    rw [hsent, (run_sent ht.incomplete htconnected htenabled htfits).2, hsame]

/-- Window 1 selected and the transmitter enabled. -/
def readyToSend : El3 := run (el3Init true fun _ => 0) [.write 0x0E 2 0x0801, .write 0x0E 2 0x4800]

/-- Fourteen bytes of data, in writes of different widths. -/
theorem frames_of_stream_widths :
    sent readyToSend (fifoWrites [(2, 14), (1, 0), (1, 0), (4, 0x04030201), (4, 0x08070605), (4, 0x0C0B0A09), (4, 0x0E0D)]) =
      [[1, 2, 3, 4, 5, 6, 7, 8, 9, 10, 11, 12, 13, 14]] := by
  have hs : Reachable readyToSend := ⟨_, _, _, rfl⟩
  generalize hwrites : fifoWrites [(2, 14), (1, 0), (1, 0), (4, 0x04030201), (4, 0x08070605), (4, 0x0C0B0A09), (4, 0x0E0D)] =
    writes
  have hfits : Fits readyToSend writes := by
    apply narrow_fits hs.incomplete
    intro offset size value hmem
    rw [← hwrites] at hmem
    simp [fifoWrites] at hmem
    omega
  have hspec : EnabledThroughout readyToSend writes ∧
      written readyToSend writes = [14, 0, 0, 0, 1, 2, 3, 4, 5, 6, 7, 8, 9, 10, 11, 12, 13, 14, 0, 0] := by
    rw [← hwrites]
    exact fifoWrites_spec _ rfl rfl
  obtain ⟨-, hframes, -⟩ := frames_of_stream hs rfl hspec.1 hfits
  refine (hframes [⟨14, 0, 0, 0, [1, 2, 3, 4, 5, 6, 7, 8, 9, 10, 11, 12, 13, 14], [0, 0], rfl, rfl⟩] [] ?_ incomplete_nil).1
  rw [hspec.2]
  rfl

end Run

end Be300.EtherLink
