/-
  Be300.NetBridge.Upload — the guest-to-host direction of one TCP flow.

  Threads that share the flow, each lock-protected section one step: the websocket
  readers running `handleTCP` (`Handler`; `serve` closes the connection of the browser it
  replaces, but does not wait for its reader), the goroutine of `connectTCP` (`Connector`),
  the one `closeTCP` that removed the flow from the table (`Closer`), and any other
  goroutine sending a frame. A `conn.Write` is a step of its own, without the lock: it
  succeeds, or it fails after a part of its bytes and the connection is down.

  The guest's segments are cut from one stream (`GuestStream`, `Carries`), in any order
  and any number of times. Numbers name stream positions modulo 2^32, so a segment is
  told from one 2^32 bytes away only while it is `Near` the next byte expected;
  `windowed` restricts a run to such segments, `alone` to calls of `handleTCP` that do not
  overlap.

  Proved: `upload_integrity`, over every windowed run, and over every windowed run of calls
  that do not overlap. Without the first restriction a duplicate of the first segment is
  taken for new data after 2^32 bytes; without the second, two readers write their bytes in
  the other order (`upload_not_a_prefix`).
-/

import Be300.NetBridge.Tcp

namespace Be300.NetBridge.Upload

open Be300.Lib (Seq seqAt seqAt_add seqAt_succ seqAt_inj seqAt_period slice slice_length slice_append slice_isPrefix
  slice_getElem? trim trim_slice)

/-! ## The guest's stream -/

/-- `isn` is the SYN's number; `len` is where the FIN stands, if the stream ends. -/
structure GuestStream where
  isn : Seq
  byte : Nat → UInt8
  len : Option Nat

/-- The `n` bytes from position `o`. -/
def GuestStream.slice (G : GuestStream) (o n : Nat) : List UInt8 := Lib.slice G.byte o n

/-- The first `n` bytes. -/
def GuestStream.upTo (G : GuestStream) (n : Nat) : List UInt8 := G.slice 0 n

/-- The number of position `p`. -/
def GuestStream.num (G : GuestStream) (p : Nat) : Seq := seqAt (G.isn + 1) p

/-- The segment carries the stream's bytes from position `o`, and the FIN at its end. -/
structure Carries (G : GuestStream) (seg : Segment) (o : Nat) : Prop where
  seq : seg.seq = G.num o
  data : seg.data = G.slice o seg.data.length
  fin : seg.fin = true → G.len = some (o + seg.data.length)
  within : ∀ e, G.len = some e → o + seg.data.length ≤ e
  plain : seg.syn = false ∧ seg.rst = false

@[simp] theorem piece_length (G : GuestStream) (o n : Nat) : (G.slice o n).length = n := slice_length G.byte o n

@[simp] theorem upTo_length (G : GuestStream) (n : Nat) : (G.upTo n).length = n := slice_length G.byte 0 n

theorem upTo_append (G : GuestStream) (m n : Nat) : G.upTo m ++ G.slice m n = G.upTo (m + n) := by
  simpa [GuestStream.upTo, GuestStream.slice] using slice_append G.byte 0 m n

theorem upTo_isPrefix (G : GuestStream) {m n : Nat} (h : m ≤ n) : G.upTo m <+: G.upTo n := slice_isPrefix G.byte 0 h

/-! ## The threads -/

/-- Where `handleTCP` stands with one segment. -/
inductive Handler where
  | idle
  | write (l : Locals)
  | reply (l : Locals)
  | finish (l : Locals)
  | reset
  deriving DecidableEq, Repr

inductive Connector where
  | dialing
  | dialed
  | ended
  deriving DecidableEq, Repr

inductive Closer where
  | none
  | removed
  | signalled
  | grabbed (conn : Bool)
  | ended
  deriving DecidableEq, Repr

structure St where
  flow : TcpFlow
  /-- By reader. -/
  handlers : Nat → Handler
  connector : Connector
  closer : Closer
  /-- The bytes the host connection took, and whether it failed or was closed. -/
  host : List UInt8
  hostDown : Bool
  closeWrites : Nat
  /-- The acknowledgement numbers sent to the guest. -/
  acks : List Seq
  /-- The stream bytes and the FINs `handleTCP` accepted. -/
  taken : Nat
  fins : Nat

def start (key : FlowKey) (nextSeq : Seq) (G : GuestStream) : St where
  flow := openTCP key nextSeq G.isn
  handlers := fun _ => .idle
  connector := .dialing
  closer := .none
  host := []
  hostDown := false
  closeWrites := 0
  acks := []
  taken := 0
  fins := 0

/-- The stream position of `clientNext`: the FIN takes one. -/
def pos (s : St) : Nat := s.taken + if s.flow.clientFIN then 1 else 0

/-- The segment starts less than 2^32 before the next byte expected and ends less than
    2^32 after it. -/
def Near (s : St) (seg : Segment) (o : Nat) : Prop := pos s < o + 2 ^ 32 ∧ o + seg.data.length < pos s + 2 ^ 32

/-- The bytes `handleTCP` accepted and has not written yet. -/
def Handler.inHand : Handler → List UInt8
  | .write l => l.data
  | _ => []

/-- Reader `i` goes on. -/
def St.at (s : St) (i : Nat) (c : Handler) : St := { s with handlers := fun j => if j = i then c else s.handlers j }

/-- No reader but `i` handles a segment. -/
def OnlyReader (s : St) (i : Nat) : Prop := ∀ j, j ≠ i → s.handlers j = .idle

def sendFrame (s : St) : St := { s with acks := s.acks ++ [s.flow.clientNext] }

inductive Step (G : GuestStream) (windowed alone : Bool) : St → St → Prop
  | segment (s : St) (i : Nat) (seg : Segment) (o : Nat) : s.handlers i = .idle → Carries G seg o →
      (windowed = true → Near s seg o) → (alone = true → OnlyReader s i) →
      Step G windowed alone s { s.at i (.write (handleLocked s.flow seg).2) with
        flow := (handleLocked s.flow seg).1
        taken := s.taken + (newData s.flow seg).length
        fins := s.fins + if (handleLocked s.flow seg).2.fin then 1 else 0 }
  /-- A retransmitted SYN; the SYN-ACK is a `frame`. -/
  | syn (s : St) (seg : Segment) : Step G windowed alone s { s with flow := handleSYN s.flow seg }
  | writeNone (s : St) (i : Nat) (l : Locals) : s.handlers i = .write l → l.data = [] ∨ l.conn = false →
      Step G windowed alone s (s.at i (.reply l))
  | write (s : St) (i : Nat) (l : Locals) : s.handlers i = .write l → l.data ≠ [] → l.conn = true → s.hostDown = false →
      Step G windowed alone s { s.at i (.reply l) with host := s.host ++ l.data }
  | writeFail (s : St) (i : Nat) (l : Locals) (k : Nat) : s.handlers i = .write l → l.data ≠ [] → l.conn = true →
      (s.hostDown = true → k = 0) →
      Step G windowed alone s { s.at i .reset with host := s.host ++ l.data.take k, hostDown := true }
  /-- The RST; `closeTCP` then runs as the `Closer`. -/
  | reset (s : St) (i : Nat) : s.handlers i = .reset → Step G windowed alone s (sendFrame (s.at i .idle))
  | reply (s : St) (i : Nat) (l : Locals) : s.handlers i = .reply l →
      Step G windowed alone s (if l.reply then sendFrame (s.at i (.finish l)) else s.at i (.finish l))
  | finish (s : St) (i : Nat) (l : Locals) : s.handlers i = .finish l →
      Step G windowed alone s { s.at i .idle with closeWrites := s.closeWrites + if l.fin && l.conn then 1 else 0 }
  /-- A frame of any other goroutine: data, RST, SYN-ACK. -/
  | frame (s : St) : Step G windowed alone s (sendFrame s)
  /-- The dial succeeds and the flow is still the table's. -/
  | dial (s : St) : s.connector = .dialing → Step G windowed alone s { s with connector := .dialed }
  | dialFail (s : St) : s.connector = .dialing → Step G windowed alone s { s with connector := .ended }
  | flush (s : St) : s.connector = .dialed →
      Step G windowed alone s { s with
        connector := .ended
        flow := { (connectLocked s.flow).1 with connected := true }
        host := s.host ++ (connectLocked s.flow).2.flatten
        closeWrites := s.closeWrites + if s.flow.clientFIN then 1 else 0 }
  | flushFail (s : St) (k : Nat) : s.connector = .dialed →
      Step G windowed alone s { s with
        connector := .ended
        flow := (connectLocked s.flow).1
        host := s.host ++ (connectLocked s.flow).2.flatten.take k
        hostDown := true }
  | remove (s : St) : s.closer = .none → Step G windowed alone s { s with closer := .removed }
  | signal (s : St) : s.closer = .removed →
      Step G windowed alone s { s with closer := .signalled, flow := { s.flow with done := true } }
  /-- `destroy`: whether this `closeTCP` also closes the connection it takes away. -/
  | grab (s : St) (destroy : Bool) : s.closer = .signalled →
      Step G windowed alone s { s with closer := .grabbed (destroy && (closeLocked s.flow).2), flow := (closeLocked s.flow).1 }
  | closeConn (s : St) (c : Bool) : s.closer = .grabbed c →
      Step G windowed alone s { s with closer := .ended, hostDown := s.hostDown || c }

inductive Reach (G : GuestStream) (windowed alone : Bool) (key : FlowKey) (nextSeq : Seq) : St → Prop
  | init : Reach G windowed alone key nextSeq (start key nextSeq G)
  | step {s s' : St} : Reach G windowed alone key nextSeq s → Step G windowed alone s s' → Reach G windowed alone key nextSeq s'

/-! ## What one segment does -/

@[simp] theorem handleACK_clientNext (f : TcpFlow) (seg : Segment) : (handleACK f seg).clientNext = f.clientNext := by
  unfold handleACK; split <;> rfl

@[simp] theorem handleACK_clientFIN (f : TcpFlow) (seg : Segment) : (handleACK f seg).clientFIN = f.clientFIN := by
  unfold handleACK; split <;> rfl

@[simp] theorem handleACK_pending (f : TcpFlow) (seg : Segment) : (handleACK f seg).pending = f.pending := by
  unfold handleACK; split <;> rfl

@[simp] theorem handleACK_connected (f : TcpFlow) (seg : Segment) : (handleACK f seg).connected = f.connected := by
  unfold handleACK; split <;> rfl

@[simp] theorem handleACK_conn (f : TcpFlow) (seg : Segment) : (handleACK f seg).conn = f.conn := by
  unfold handleACK; split <;> rfl

@[simp] theorem newData_handleACK (f : TcpFlow) (seg : Segment) : newData (handleACK f seg) seg = newData f seg := by
  simp [newData]

/-- The stream position a flow expects, with `t` bytes of the stream accepted. -/
structure At (G : GuestStream) (f : TcpFlow) (t : Nat) : Prop where
  next : f.clientNext = G.num (t + if f.clientFIN then 1 else 0)
  fin : f.clientFIN = true → G.len = some t
  within : ∀ e, G.len = some e → t ≤ e

section Segment

variable {G : GuestStream} {f : TcpFlow} {t : Nat} {seg : Segment} {o : Nat}

/-- What is accepted of a near segment is the stream's next bytes, up to its end. -/
theorem newData_spec (hf : At G f t) (hc : Carries G seg o)
    (h1 : t + (if f.clientFIN then 1 else 0) < o + 2 ^ 32)
    (h2 : o + seg.data.length < t + (if f.clientFIN then 1 else 0) + 2 ^ 32) :
    newData f seg = G.slice t (newData f seg).length ∧
      (newData f seg ≠ [] → f.clientFIN = false ∧ t + (newData f seg).length = o + seg.data.length) := by
  have hlen := seg.fits
  have htrim := trim_slice G.byte (G.isn + 1) (n := seg.data.length) (by omega) h1 h2
  rw [← GuestStream.slice, ← hc.data] at htrim
  rw [show newData f seg = trim (seqAt (G.isn + 1) (t + if f.clientFIN then 1 else 0)) (seqAt (G.isn + 1) o) seg.data by
    rw [newData, hf.next, hc.seq, GuestStream.num, GuestStream.num]]
  obtain ⟨hslice, hend, -⟩ := htrim
  by_cases hfin : f.clientFIN = true
  · -- past the FIN no segment of the stream reaches the next position
    have hnil : trim (seqAt (G.isn + 1) (t + if f.clientFIN then 1 else 0)) (seqAt (G.isn + 1) o) seg.data = [] := by
      by_contra hne
      have h3 := hend hne
      have h4 := hc.within t (hf.fin hfin)
      simp only [hfin, if_true] at h3
      omega
    rw [hnil]
    exact ⟨rfl, fun h => absurd rfl h⟩
  · simp only [hfin, Bool.false_eq_true, if_false, Nat.add_zero] at hslice hend ⊢
    exact ⟨hslice, fun hne => ⟨trivial, hend hne⟩⟩

theorem takeData_at (hf : At G f t) (data : List UInt8) (h0 : data ≠ [] → f.clientFIN = false)
    (hw : data ≠ [] → ∀ e, G.len = some e → t + data.length ≤ e) : At G (takeData f data) (t + data.length) := by
  by_cases hd : data = []
  · subst hd
    exact ⟨by simpa [takeData] using hf.next, by simpa [takeData] using hf.fin, by simpa using hf.within⟩
  · refine ⟨?_, fun h => ?_, hw hd⟩
    · have := hf.next
      simp only [h0 hd, Bool.false_eq_true, if_false, Nat.add_zero] at this
      simp [takeData, this, h0 hd, GuestStream.num, seqAt_add]
    · rw [show (takeData f data).clientFIN = f.clientFIN from rfl, h0 hd] at h
      cases h

theorem takeFIN_at (hf : At G f t) (h0 : f.clientFIN = false) (he : G.len = some t) : At G (takeFIN f) t := by
  refine ⟨?_, fun _ => he, hf.within⟩
  have := hf.next
  simp only [h0, Bool.false_eq_true, if_false, Nat.add_zero] at this
  simp [takeFIN, this, GuestStream.num, seqAt_succ]

/-- An accepted FIN is the stream's, and everything before it has been accepted. -/
theorem finAccepted_spec (hf : At G f t) (hc : Carries G seg o) (h1 : t < o + seg.data.length + 2 ^ 32)
    (h2 : o + seg.data.length < t + 2 ^ 32) (h : finAccepted f seg = true) : f.clientFIN = false ∧ G.len = some t := by
  simp only [finAccepted, Bool.and_eq_true, beq_iff_eq, Bool.not_eq_true'] at h
  obtain ⟨⟨hfin, hseq⟩, h0⟩ := h
  have hn := hf.next
  simp only [h0, Bool.false_eq_true, if_false, Nat.add_zero] at hn
  rw [hn, hc.seq, GuestStream.num, ← seqAt_add] at hseq
  have heq : o + seg.data.length = t := seqAt_inj hseq h2 h1
  exact ⟨h0, by rw [hc.fin hfin, heq]⟩

/-- The locked section as a whole: the bytes it accepts, the position it leaves, where it
    puts the bytes. -/
structure Handled (G : GuestStream) (f : TcpFlow) (t : Nat) (seg : Segment) : Prop where
  bytes : newData f seg = G.slice t (newData f seg).length
  at' : At G (handleLocked f seg).1 (t + (newData f seg).length)
  fin : (handleLocked f seg).2.fin = true → f.clientFIN = false ∧ (handleLocked f seg).1.clientFIN = true
  noFin : (handleLocked f seg).2.fin = false → (handleLocked f seg).1.clientFIN = f.clientFIN
  conn : (handleLocked f seg).2.conn = f.conn ∧ (handleLocked f seg).1.conn = f.conn ∧
    (handleLocked f seg).1.connected = f.connected
  direct : f.connected = true →
    (handleLocked f seg).2.data = newData f seg ∧ (handleLocked f seg).1.pending = f.pending
  past : f.clientFIN = true → newData f seg = []
  buffered : f.connected = false →
    (handleLocked f seg).2.data = [] ∧ (handleLocked f seg).1.pending.flatten = f.pending.flatten ++ newData f seg

theorem handled (hf : At G f t) (hc : Carries G seg o)
    (h1 : t + (if f.clientFIN then 1 else 0) < o + 2 ^ 32)
    (h2 : o + seg.data.length < t + (if f.clientFIN then 1 else 0) + 2 ^ 32) : Handled G f t seg := by
  obtain ⟨hbytes, hnew⟩ := newData_spec hf hc h1 h2
  have hf1 : At G (handleACK f seg) t := ⟨by simpa using hf.next, by simpa using hf.fin, hf.within⟩
  have hf2 : At G (takeData (handleACK f seg) (newData f seg)) (t + (newData f seg).length) := by
    refine takeData_at hf1 _ (fun h => ?_) (fun h e he => ?_)
    · simpa using (hnew h).1
    · rw [(hnew h).2]; exact hc.within e he
  have hfinSpec : finAccepted (takeData (handleACK f seg) (newData f seg)) seg = true →
      f.clientFIN = false ∧ G.len = some (t + (newData f seg).length) := by
    intro h
    have h0 : f.clientFIN = false := by
      simp only [finAccepted, Bool.and_eq_true, Bool.not_eq_true'] at h
      simpa [takeData] using h.2
    simp only [h0, Bool.false_eq_true, if_false, Nat.add_zero] at h1 h2
    refine ⟨h0, (finAccepted_spec hf2 hc ?_ ?_ h).2⟩
    · by_cases hd : newData f seg = []
      · simp only [hd, List.length_nil, Nat.add_zero]; omega
      · have := (hnew hd).2; omega
    · by_cases hd : newData f seg = []
      · simp only [hd, List.length_nil, Nat.add_zero]; omega
      · have := (hnew hd).2; omega
  have hpast : f.clientFIN = true → newData f seg = [] := by
    intro h
    by_contra hd
    rw [(hnew hd).1] at h
    cases h
  refine ⟨hbytes, ?_, fun h => ?_, fun h => ?_, ?_, fun h => ?_, hpast, fun h => ?_⟩
  · simp only [handleLocked, newData_handleACK]
    split
    · rename_i hfin
      obtain ⟨h0, he⟩ := hfinSpec hfin
      exact takeFIN_at hf2 (by simpa [takeData] using h0) he
    · exact hf2
  · simp only [handleLocked, newData_handleACK] at h ⊢
    rw [if_pos h]
    exact ⟨(hfinSpec h).1, rfl⟩
  · simp only [handleLocked, newData_handleACK] at h ⊢
    simp only [h, Bool.false_eq_true, if_false]
    simp [takeData]
  · simp only [handleLocked, newData_handleACK, handleACK_conn]
    split <;> simp [takeData, takeFIN]
  · simp only [handleLocked, newData_handleACK, handleACK_connected, h, if_true, true_and]
    split <;> simp [takeData, takeFIN, h]
  · simp only [handleLocked, newData_handleACK, handleACK_connected, h, Bool.false_eq_true, if_false, true_and]
    by_cases hd : newData f seg = []
    · split <;> simp [takeData, takeFIN, hd]
    · split <;> simp [takeData, takeFIN, hd, h]

end Segment

/-! ## Runs -/

/-- What holds however many readers there are. -/
structure Books (G : GuestStream) (s : St) : Prop where
  at' : At G s.flow s.taken
  fins : s.fins = if s.flow.clientFIN then 1 else 0
  acks : ∀ a ∈ s.acks, ∃ q ≤ pos s, a = G.num q

theorem init_books (G : GuestStream) (key : FlowKey) (nextSeq : Seq) : Books G (start key nextSeq G) where
  at' := ⟨by simp [start, openTCP, GuestStream.num], by simp [start, openTCP], by simp [start]⟩
  fins := by simp [start, openTCP]
  acks := by simp [start]

section Books

variable {G : GuestStream} {s : St}

theorem segment_books (h : Books G s) (i : Nat) {seg : Segment} {o : Nat} (hc : Carries G seg o) (hn : Near s seg o) :
    Books G { s.at i (.write (handleLocked s.flow seg).2) with
      flow := (handleLocked s.flow seg).1
      taken := s.taken + (newData s.flow seg).length
      fins := s.fins + if (handleLocked s.flow seg).2.fin then 1 else 0 } := by
  have hd := handled h.at' hc hn.1 hn.2
  have hmono : ∀ q, q ≤ pos s → q ≤ s.taken + (newData s.flow seg).length +
      if (handleLocked s.flow seg).1.clientFIN then 1 else 0 := by
    intro q hq
    unfold pos at hq
    cases hf : (handleLocked s.flow seg).2.fin with
    | true =>
      simp only [(hd.fin hf).1, Bool.false_eq_true, if_false] at hq
      omega
    | false =>
      rw [hd.noFin hf]
      omega
  refine ⟨hd.at', ?_, fun a ha => ?_⟩
  · have := h.fins
    show s.fins + _ = _
    cases hf : (handleLocked s.flow seg).2.fin with
    | true => simp [this, (hd.fin hf).1, (hd.fin hf).2]
    | false => simp [this, hd.noFin hf]
  · obtain ⟨q, hq, rfl⟩ := h.acks a ha
    exact ⟨q, hmono q hq, rfl⟩

theorem sendFrame_books (h : Books G s) : Books G (sendFrame s) where
  at' := h.at'
  fins := h.fins
  acks := by
    intro a ha
    rcases List.mem_append.mp ha with ha | ha
    · exact h.acks a ha
    · rw [List.mem_singleton] at ha
      exact ⟨pos s, Nat.le_refl _, ha.trans h.at'.next⟩

theorem step_books {b : Bool} {s' : St} (h : Books G s) (hs : Step G true b s s') : Books G s' := by
  have keep : ∀ t : St, t.flow.clientNext = s.flow.clientNext → t.flow.clientFIN = s.flow.clientFIN → t.taken = s.taken →
      t.fins = s.fins → t.acks = s.acks → Books G t := by
    intro t hnext hfin htaken hfins hacks
    have hpos : pos t = pos s := by rw [pos, pos, htaken, hfin]
    refine ⟨⟨?_, ?_, ?_⟩, ?_, ?_⟩
    · rw [hnext, hfin, htaken]
      exact h.at'.next
    · rw [hfin, htaken]
      exact h.at'.fin
    · rw [htaken]
      exact h.at'.within
    · rw [hfins, hfin]
      exact h.fins
    · rw [hacks, hpos]
      exact h.acks
  cases hs with
  | segment i seg o _ hc hn _ => exact segment_books h i hc (hn rfl)
  | reset i _ => exact sendFrame_books (keep (s.at i .idle) rfl rfl rfl rfl rfl)
  | reply i l _ =>
    split
    · exact sendFrame_books (keep (s.at i (.finish l)) rfl rfl rfl rfl rfl)
    · exact keep _ rfl rfl rfl rfl rfl
  | frame => exact sendFrame_books h
  | _ => exact keep _ rfl rfl rfl rfl rfl

theorem reach_books {b : Bool} {key : FlowKey} {nextSeq : Seq} (h : Reach G true b key nextSeq s) : Books G s := by
  induction h with
  | init => exact init_books G key nextSeq
  | step _ hs ih => exact step_books ih hs

end Books

/-! ## One reader at a time -/

/-- The locals of the segment being handled. -/
def Handler.locals? : Handler → Option Locals
  | .write l | .reply l | .finish l => some l
  | _ => none

/-- `c` is where the one reader stands that may handle a segment. -/
structure Inv (G : GuestStream) (s : St) (c : Handler) : Prop extends Books G s where
  /-- While the host connection stands, every accepted byte is written, in `handleTCP`'s
      hand, or in the pending buffer, in this order. -/
  kept : s.hostDown = false → s.host ++ c.inHand ++ s.flow.pending.flatten = G.upTo s.taken
  hostPrefix : s.host <+: G.upTo s.taken
  /-- The pending buffer is empty once a byte is in hand, or the flow is connected. -/
  handPending : c.inHand ≠ [] → s.flow.pending = []
  connConnected : s.flow.conn = true → s.hostDown = false → s.flow.connected = true
  connected : s.flow.connected = true → s.flow.conn = true ∧ s.flow.pending = []
  connEnded : s.flow.conn = true → s.connector = .ended
  grabbed : s.closer = .grabbed true → s.connector = .ended
  early : s.connector ≠ .ended → s.host = [] ∧ c.inHand = [] ∧ s.hostDown = false
  localsConn : ∀ l, c.locals? = some l → l.conn = true → s.connector = .ended ∧ (s.hostDown = false → s.flow.pending = [])
  localsFin : ∀ l, c.locals? = some l → l.fin = true → s.flow.clientFIN = true
  handConn : ∀ l, c = .write l → l.data ≠ [] → l.conn = true
  closed : s.closeWrites ≠ 0 → s.flow.clientFIN = true ∧ (s.hostDown = false → s.host = G.upTo s.taken)

theorem init_inv (G : GuestStream) (key : FlowKey) (nextSeq : Seq) : Inv G (start key nextSeq G) .idle where
  toBooks := init_books G key nextSeq
  kept := by simp [start, Handler.inHand, openTCP, GuestStream.upTo, GuestStream.slice]
  hostPrefix := by simp [start]
  handPending := by simp [Handler.inHand]
  connConnected := by simp [start, openTCP]
  connected := by simp [start, openTCP]
  connEnded := by simp [start, openTCP]
  grabbed := by simp [start]
  early := by simp [start, Handler.inHand]
  localsConn := by simp [Handler.locals?]
  localsFin := by simp [Handler.locals?]
  handConn := by simp
  closed := by simp [start]

section Steps

variable {G : GuestStream} {s : St} {c : Handler}

theorem segment_inv (h : Inv G s .idle) (i : Nat) {seg : Segment} {o : Nat} (hc : Carries G seg o) (hn : Near s seg o) :
    Inv G { s.at i (.write (handleLocked s.flow seg).2) with
      flow := (handleLocked s.flow seg).1
      taken := s.taken + (newData s.flow seg).length
      fins := s.fins + if (handleLocked s.flow seg).2.fin then 1 else 0 } (.write (handleLocked s.flow seg).2) := by
  have hd := handled h.at' hc hn.1 hn.2
  have hup : G.upTo s.taken ++ newData s.flow seg = G.upTo (s.taken + (newData s.flow seg).length) := by
    rw [hd.bytes, piece_length, upTo_append]
  have hposle : s.taken ≤ s.taken + (newData s.flow seg).length := Nat.le_add_right _ _
  have hempty : (handleLocked s.flow seg).2.data ≠ [] → s.flow.connected = true := by
    intro hne
    by_contra hcon
    exact hne (hd.buffered (by simpa using hcon)).1
  refine ⟨segment_books h.toBooks i hc hn, fun h0 => ?_, ?_, fun hne => ?_, fun hcn h0 => ?_, fun hcn => ?_, fun hcn => ?_,
    h.grabbed,
    fun he => ?_, fun l hl hcn => ?_, fun l hl hf => ?_, fun l hl hne => ?_, fun hcw => ?_⟩
  · -- the new bytes go to the hand when connected, behind the pending ones when not
    have hk := h.kept h0
    rw [show Handler.inHand .idle = [] from rfl, List.append_nil] at hk
    simp only [Handler.inHand]
    cases hcon : s.flow.connected with
    | true =>
      obtain ⟨h1, h2⟩ := hd.direct hcon
      have hp := (h.connected hcon).2
      rw [hp, List.flatten_nil, List.append_nil] at hk
      rw [h1, h2, hp, List.flatten_nil, List.append_nil]
      exact (congrArg (· ++ _) hk).trans hup
    | false =>
      obtain ⟨h1, h2⟩ := hd.buffered hcon
      rw [h1, h2, List.append_nil, ← List.append_assoc]
      exact (congrArg (· ++ _) hk).trans hup
  · exact h.hostPrefix.trans (upTo_isPrefix G hposle)
  · have hcon := hempty hne
    rw [(hd.direct hcon).2]
    exact (h.connected hcon).2
  · rw [hd.conn.2.1] at hcn
    rw [hd.conn.2.2]
    exact h.connConnected hcn h0
  · rw [hd.conn.2.2] at hcn
    rw [hd.conn.2.1, (hd.direct hcn).2]
    exact h.connected hcn
  · rw [hd.conn.2.1] at hcn
    exact h.connEnded hcn
  · obtain ⟨h1, h2, h3⟩ := h.early he
    refine ⟨h1, ?_, h3⟩
    by_contra hne
    exact he (h.connEnded (h.connected (hempty hne)).1)
  · simp only [Handler.locals?, Option.some.injEq] at hl
    subst hl
    rw [hd.conn.1] at hcn
    refine ⟨h.connEnded hcn, fun h0 => ?_⟩
    have hcon := h.connConnected hcn h0
    rw [(hd.direct hcon).2]
    exact (h.connected hcon).2
  · simp only [Handler.locals?, Option.some.injEq] at hl
    subst hl
    exact (hd.fin hf).2
  · simp only [Handler.write.injEq] at hl
    subst hl
    rw [hd.conn.1]
    exact (h.connected (hempty hne)).1
  · obtain ⟨h1, h2⟩ := h.closed hcw
    have hn0 := hd.past h1
    have hf0 : (handleLocked s.flow seg).2.fin = false := by
      by_contra hf
      rw [(hd.fin (by simpa using hf)).1] at h1
      cases h1
    refine ⟨by rw [hd.noFin hf0]; exact h1, fun h0 => ?_⟩
    rw [hn0]
    exact h2 h0

theorem sendFrame_inv (h : Inv G s c) : Inv G (sendFrame s) c := { h with toBooks := sendFrame_books h.toBooks }

/-- Where a reader stands is not the invariant's; which reader it is does not matter. -/
theorem at_inv (h : Inv G s c) (i : Nat) (c' : Handler) : Inv G (s.at i c') c := { h with toBooks := { h.toBooks with } }

/-- Moving on within one segment, once its bytes are off the hand. -/
theorem handler_inv (h : Inv G s c) (c' : Handler) (hin : c.inHand = []) (hw : ∀ l, c' ≠ .write l)
    (hl : ∀ l, c'.locals? = some l → c.locals? = some l) : Inv G s c' := by
  have hin' : c'.inHand = [] := by
    cases c' with
    | write l => exact absurd rfl (hw l)
    | _ => rfl
  exact { h with
    kept := fun h0 => by rw [hin', ← hin]; exact h.kept h0
    handPending := fun hne => absurd hin' hne
    early := fun he => ⟨(h.early he).1, hin', (h.early he).2.2⟩
    localsConn := fun l hl' => h.localsConn l (hl l hl')
    localsFin := fun l hl' => h.localsFin l (hl l hl')
    handConn := fun l hl' => absurd hl' (hw l) }

theorem write_inv {l : Locals} (h : Inv G s (.write l)) (hc : l.conn = true) (h0 : s.hostDown = false) :
    Inv G { s with host := s.host ++ l.data } (.reply l) := by
  obtain ⟨hend, hp⟩ := h.localsConn l rfl hc
  have hk := h.kept h0
  rw [show Handler.inHand (.write l) = l.data from rfl, hp h0, List.flatten_nil, List.append_nil] at hk
  exact { h with
    kept := fun _ => by simp [Handler.inHand, hp h0, hk]
    hostPrefix := by
      show s.host ++ l.data <+: G.upTo s.taken
      exact ⟨[], (List.append_nil _).trans hk⟩
    handPending := fun hne => absurd rfl hne
    early := fun he => absurd hend he
    localsConn := h.localsConn
    localsFin := h.localsFin
    handConn := fun _ hl' => by cases hl'
    closed := fun hcw => ⟨(h.closed hcw).1, fun _ => hk⟩ }

theorem writeFail_inv {l : Locals} {k : Nat} (h : Inv G s (.write l)) (hc : l.conn = true) (hk0 : s.hostDown = true → k = 0) :
    Inv G { s with host := s.host ++ l.data.take k, hostDown := true } .reset := by
  obtain ⟨hend, hp⟩ := h.localsConn l rfl hc
  exact { h with
    kept := fun hx => by cases hx
    hostPrefix := by
      by_cases h0 : s.hostDown = true
      · simpa [hk0 h0] using h.hostPrefix
      · have hk := h.kept (by simpa using h0)
        rw [show Handler.inHand (.write l) = l.data from rfl, List.append_assoc] at hk
        rw [← hk]
        exact List.prefix_append_right_inj _ |>.mpr ((List.take_prefix k l.data).trans (List.prefix_append _ _))
    connConnected := fun _ hx => by cases hx
    handPending := fun hne => absurd rfl hne
    early := fun he => absurd hend he
    localsConn := fun l' hl' => by cases hl'
    localsFin := fun l' hl' => by cases hl'
    handConn := fun _ hl' => by cases hl'
    closed := fun hcw => ⟨(h.closed hcw).1, fun hx => by cases hx⟩ }

theorem finish_inv {l : Locals} (h : Inv G s (.finish l)) :
    Inv G { s with closeWrites := s.closeWrites + if l.fin && l.conn then 1 else 0 } .idle := by
  have hi := handler_inv h .idle rfl (by simp) (by simp [Handler.locals?])
  refine { hi with closed := fun hcw => ?_ }
  by_cases h1 : s.closeWrites = 0
  · have hlc : l.fin = true ∧ l.conn = true := by
      by_contra hx
      apply hcw
      simp only [h1]
      rw [if_neg (by simpa using hx)]
    refine ⟨h.localsFin l rfl hlc.1, fun h0 => ?_⟩
    have hk := h.kept h0
    rwa [show Handler.inHand (.finish l) = [] from rfl, (h.localsConn l rfl hlc.2).2 h0, List.flatten_nil, List.append_nil,
      List.append_nil] at hk
  · exact h.closed h1

theorem flush_inv (h : Inv G s c) (hd : s.connector = .dialed) :
    Inv G { s with
      connector := .ended
      flow := { (connectLocked s.flow).1 with connected := true }
      host := s.host ++ (connectLocked s.flow).2.flatten
      closeWrites := s.closeWrites + if s.flow.clientFIN then 1 else 0 } c := by
  obtain ⟨hhost, hin, h0⟩ := h.early (by simp [hd])
  have hk : s.flow.pending.flatten = G.upTo s.taken := by simpa [hhost, hin] using h.kept h0
  refine { at' := ⟨h.at'.next, h.at'.fin, h.at'.within⟩, kept := fun _ => ?_, hostPrefix := ?_, handPending := fun _ => rfl,
           connConnected := fun _ _ => rfl, connected := fun _ => ⟨rfl, rfl⟩, connEnded := fun _ => rfl, grabbed := fun _ => rfl,
           early := fun he => absurd rfl he, localsConn := fun l hl hc => ⟨rfl, fun _ => rfl⟩, localsFin := h.localsFin,
           handConn := h.handConn, closed := fun hcw => ⟨?_, fun _ => ?_⟩, fins := h.fins, acks := h.acks }
  · show s.host ++ s.flow.pending.flatten ++ c.inHand ++ [] = _
    simp [hhost, hin, hk]
  · show s.host ++ s.flow.pending.flatten <+: _
    simp [hhost, hk]
  · show s.flow.clientFIN = true
    by_cases h1 : s.closeWrites = 0
    · by_contra hx
      apply hcw
      simp [h1, hx]
    · exact (h.closed h1).1
  · show s.host ++ s.flow.pending.flatten = _
    simp [hhost, hk]

theorem flushFail_inv (h : Inv G s c) (k : Nat) (hd : s.connector = .dialed) :
    Inv G { s with
      connector := .ended
      flow := (connectLocked s.flow).1
      host := s.host ++ (connectLocked s.flow).2.flatten.take k
      hostDown := true } c := by
  obtain ⟨hhost, hin, h0⟩ := h.early (by simp [hd])
  have hk : s.flow.pending.flatten = G.upTo s.taken := by simpa [hhost, hin] using h.kept h0
  have hcon : s.flow.connected = false := by
    by_contra hx
    have := h.connEnded (h.connected (by simpa using hx)).1
    rw [hd] at this
    cases this
  refine { at' := ⟨h.at'.next, h.at'.fin, h.at'.within⟩, kept := fun hx => (by cases hx), hostPrefix := ?_,
           handPending := fun _ => rfl, connConnected := fun _ hx => (by cases hx),
           connected := fun hx => absurd hx (by simp [connectLocked, hcon]), connEnded := fun _ => rfl, grabbed := fun _ => rfl,
           early := fun he => absurd rfl he, localsConn := fun l hl hc => ⟨rfl, fun _ => rfl⟩, localsFin := h.localsFin,
           handConn := h.handConn, closed := fun hcw => ⟨(h.closed hcw).1, fun hx => (by cases hx)⟩, fins := h.fins,
           acks := h.acks }
  show s.host ++ s.flow.pending.flatten.take k <+: _
  rw [hhost, hk, List.nil_append]
  exact List.take_prefix _ _

theorem grab_inv (h : Inv G s c) (destroy : Bool) :
    Inv G { s with closer := .grabbed (destroy && (closeLocked s.flow).2), flow := (closeLocked s.flow).1 } c :=
  { at' := ⟨h.at'.next, h.at'.fin, h.at'.within⟩, kept := h.kept, hostPrefix := h.hostPrefix,
    handPending := h.handPending, connConnected := fun hx => (by cases hx), connected := fun hx => (by cases hx),
    connEnded := fun hx => (by cases hx),
    grabbed := fun hx => h.connEnded (by simp only [closeLocked, Closer.grabbed.injEq, Bool.and_eq_true] at hx; exact hx.2),
    early := h.early, localsConn := h.localsConn, localsFin := h.localsFin,
    handConn := h.handConn, closed := h.closed, fins := h.fins, acks := h.acks }

theorem closeConn_inv (h : Inv G s c) (d : Bool) (hg : s.closer = .grabbed d) :
    Inv G { s with closer := .ended, hostDown := s.hostDown || d } c := by
  have hd : d = true → s.connector = .ended := fun e => h.grabbed (by rw [hg, e])
  have hdn : (s.hostDown || d) = false → s.hostDown = false := fun hx => (Bool.or_eq_false_iff.mp hx).1
  exact { h with
    kept := fun h0 => h.kept (hdn h0)
    connConnected := fun hx h0 => h.connConnected hx (hdn h0)
    grabbed := fun hx => by cases hx
    early := fun he => by
      obtain ⟨h1, h2, h3⟩ := h.early he
      refine ⟨h1, h2, ?_⟩
      cases d with
      | true => exact absurd (hd rfl) he
      | false => simpa using h3
    localsConn := fun l hl hx => ⟨(h.localsConn l hl hx).1, fun h0 => (h.localsConn l hl hx).2 (hdn h0)⟩
    closed := fun hcw => ⟨(h.closed hcw).1, fun h0 => (h.closed hcw).2 (hdn h0)⟩ }

/-- One reader handles segments, and the invariant holds where it stands. -/
def InvAlone (G : GuestStream) (s : St) : Prop := ∃ i, OnlyReader s i ∧ Inv G s (s.handlers i)

/-- The reader that is at work is the one. -/
theorem InvAlone.reader (h : InvAlone G s) {i : Nat} (hc : s.handlers i = c) (hbusy : c ≠ .idle) :
    OnlyReader s i ∧ Inv G s c := by
  obtain ⟨j, honly, hinv⟩ := h
  have hij : i = j := by
    by_contra hne
    exact hbusy (hc.symm.trans (honly i hne))
  subst hij
  exact ⟨honly, hc ▸ hinv⟩

/-- The reader at work goes on. -/
theorem InvAlone.step {i : Nat} (honly : OnlyReader s i) {t : St} (ht : t.handlers = (s.at i c).handlers) (hinv : Inv G t c) :
    InvAlone G t := by
  have hself : t.handlers i = c := by
    rw [ht]
    exact if_pos rfl
  refine ⟨i, fun j hj => ?_, hself ▸ hinv⟩
  rw [ht]
  exact (if_neg hj).trans (honly j hj)

/-- What leaves the readers where they are. -/
theorem InvAlone.elsewhere (h : InvAlone G s) {t : St} (hsame : t.handlers = s.handlers) (ht : ∀ c, Inv G s c → Inv G t c) :
    InvAlone G t := by
  obtain ⟨i, honly, hinv⟩ := h
  refine ⟨i, fun j hj => ?_, ?_⟩
  · rw [hsame]
    exact honly j hj
  · rw [hsame]
    exact ht _ hinv

theorem step_inv {s' : St} (h : InvAlone G s) (hs : Step G true true s s') : InvAlone G s' := by
  cases hs with
  | segment i seg o hi hc hn halone =>
    have hinv : Inv G s .idle := by
      obtain ⟨j, -, hinv⟩ := h
      by_cases hij : j = i
      · rwa [hij, hi] at hinv
      · rwa [halone rfl j hij] at hinv
    exact .step (halone rfl) rfl (segment_inv hinv i hc (hn rfl))
  | syn seg => exact h.elsewhere rfl fun c hinv => { hinv with at' := ⟨hinv.at'.next, hinv.at'.fin, hinv.at'.within⟩ }
  | writeNone i l hw hl =>
    obtain ⟨honly, hinv⟩ := h.reader hw (by simp)
    have hin : Handler.inHand (.write l) = [] := by
      rcases hl with hl | hl
      · exact hl
      · by_contra hne
        rw [hinv.handConn l rfl hne] at hl
        cases hl
    exact .step honly rfl (at_inv (handler_inv hinv (.reply l) hin (by simp) (by simp [Handler.locals?])) i _)
  | write i l hw _ hc h0 =>
    obtain ⟨honly, hinv⟩ := h.reader hw (by simp)
    exact .step honly rfl (at_inv (write_inv hinv hc h0) i (.reply l))
  | writeFail i l k hw _ hc hk =>
    obtain ⟨honly, hinv⟩ := h.reader hw (by simp)
    exact .step honly rfl (at_inv (writeFail_inv hinv hc hk) i .reset)
  | reset i hr =>
    obtain ⟨honly, hinv⟩ := h.reader hr (by simp)
    exact .step honly rfl (sendFrame_inv (at_inv (handler_inv hinv .idle rfl (by simp) (by simp [Handler.locals?])) i .idle))
  | reply i l hr =>
    obtain ⟨honly, hinv⟩ := h.reader hr (by simp)
    have hnext := at_inv (handler_inv hinv (.finish l) rfl (by simp) (by simp [Handler.locals?])) i (.finish l)
    split
    · exact .step honly rfl (sendFrame_inv hnext)
    · exact .step honly rfl hnext
  | finish i l hf =>
    obtain ⟨honly, hinv⟩ := h.reader hf (by simp)
    exact .step honly rfl (at_inv (finish_inv hinv) i .idle)
  | frame => exact h.elsewhere rfl fun c hinv => sendFrame_inv hinv
  | dial hd => exact h.elsewhere rfl fun c hinv => { hinv with
      toBooks := { hinv.toBooks with }
      connEnded := fun hx => by rw [hinv.connEnded hx] at hd; cases hd
      grabbed := fun hx => by rw [hinv.grabbed hx] at hd; cases hd
      early := fun _ => hinv.early (by simp [hd])
      localsConn := fun l hl hx => by rw [(hinv.localsConn l hl hx).1] at hd; cases hd }
  | dialFail hd => exact h.elsewhere rfl fun c hinv => { hinv with
      toBooks := { hinv.toBooks with }
      connEnded := fun _ => rfl
      grabbed := fun _ => rfl
      early := fun he => absurd rfl he
      localsConn := fun l hl hx => ⟨rfl, (hinv.localsConn l hl hx).2⟩ }
  | flush hd => exact h.elsewhere rfl fun c hinv => flush_inv hinv hd
  | flushFail k hd => exact h.elsewhere rfl fun c hinv => flushFail_inv hinv k hd
  | remove _ =>
    exact h.elsewhere rfl fun c hinv => { hinv with toBooks := { hinv.toBooks with }, grabbed := fun hx => by cases hx }
  | signal _ => exact h.elsewhere rfl fun c hinv => { hinv with
      at' := ⟨hinv.at'.next, hinv.at'.fin, hinv.at'.within⟩, grabbed := fun hx => by cases hx }
  | grab destroy _ => exact h.elsewhere rfl fun c hinv => grab_inv hinv destroy
  | closeConn d hg => exact h.elsewhere rfl fun c hinv => closeConn_inv hinv d hg

theorem reach_inv {key : FlowKey} {nextSeq : Seq} (h : Reach G true true key nextSeq s) : InvAlone G s := by
  induction h with
  | init => exact ⟨0, fun _ _ => rfl, init_inv G key nextSeq⟩
  | step _ hs ih => exact step_inv ih hs

end Steps

/-- Guest-to-host integrity over the runs whose segments are near the next byte expected when
    they arrive. In all of them nothing is acknowledged that has not been accepted, and the FIN
    is accepted at most once, at the stream's end. While calls of `handleTCP` do not overlap,
    the host connection has taken a prefix of the guest's stream; while it has not failed,
    every accepted byte is in it, in `handleTCP`'s hand or in the pending buffer, which is
    empty once a connection is set; and the FIN is passed on only after all bytes. -/
theorem upload_integrity (G : GuestStream) (key : FlowKey) (nextSeq : Seq) :
    (∀ s, Reach G true false key nextSeq s →
      (∀ a ∈ s.acks, ∃ q, a = G.num q ∧ q ≤ s.taken + s.fins) ∧ s.fins ≤ 1 ∧ (s.fins = 1 → G.len = some s.taken)) ∧
    ∀ s, Reach G true true key nextSeq s →
      (s.host <+: G.upTo s.taken ∧ (∀ a ∈ s.acks, ∃ q, a = G.num q ∧ q ≤ s.taken + s.fins) ∧
        s.fins ≤ 1 ∧ (s.fins = 1 → G.len = some s.taken)) ∧
      (s.hostDown = false → ∃ i, OnlyReader s i ∧ s.host ++ (s.handlers i).inHand ++ s.flow.pending.flatten = G.upTo s.taken) ∧
      (s.hostDown = false → s.flow.conn = true → s.flow.pending = []) ∧
      (s.closeWrites ≠ 0 → s.fins = 1 ∧ (s.hostDown = false → s.host = G.upTo s.taken)) := by
  have hbooks : ∀ s, Books G s →
      (∀ a ∈ s.acks, ∃ q, a = G.num q ∧ q ≤ s.taken + s.fins) ∧ s.fins ≤ 1 ∧ (s.fins = 1 → G.len = some s.taken) := by
    intro s h
    have hpos : pos s = s.taken + s.fins := by rw [pos, h.fins]
    refine ⟨fun a ha => ?_, ?_, fun hf => h.at'.fin ?_⟩
    · obtain ⟨q, hq, rfl⟩ := h.acks a ha
      exact ⟨q, rfl, by omega⟩
    · rw [h.fins]
      split <;> omega
    · have hfins := h.fins
      rw [hf] at hfins
      by_contra hno
      rw [if_neg hno] at hfins
      cases hfins
  refine ⟨fun s h => hbooks s (reach_books h), fun s h => ?_⟩
  obtain ⟨i, honly, hi⟩ := reach_inv h
  obtain ⟨hacks, hle, hlen⟩ := hbooks s hi.toBooks
  refine ⟨⟨hi.hostPrefix, hacks, hle, hlen⟩, fun h0 => ⟨i, honly, hi.kept h0⟩,
    fun h0 hc => (hi.connected (hi.connConnected hc h0)).2, fun hc => ⟨?_, (hi.closed hc).2⟩⟩
  rw [hi.fins, (hi.closed hc).1]
  rfl

/-! ## What the restrictions leave out -/

/-- A connected flow between two segments, expecting position `t`. -/
structure Ready (G : GuestStream) (s : St) (t : Nat) : Prop where
  handlers : ∀ i, s.handlers i = .idle
  connected : s.flow.connected = true
  conn : s.flow.conn = true
  hostDown : s.hostDown = false
  clientFIN : s.flow.clientFIN = false
  next : s.flow.clientNext = G.num t

section Deliver

variable {G : GuestStream} {w b : Bool} {key : FlowKey} {nextSeq : Seq}

theorem connect_ready (G : GuestStream) (w b : Bool) (key : FlowKey) (nextSeq : Seq) :
    ∃ s, Reach G w b key nextSeq s ∧ Ready G s 0 ∧ s.host = [] ∧ s.taken = 0 := by
  have h0 : Reach G w b key nextSeq (start key nextSeq G) := Reach.init
  have h1 := Reach.step h0 (.dial _ rfl)
  have h2 := Reach.step h1 (.flush _ rfl)
  exact ⟨_, h2, ⟨fun _ => rfl, rfl, rfl, rfl, rfl, by simp [connectLocked, start, openTCP, GuestStream.num]⟩, rfl, rfl⟩

theorem newData_next {f : TcpFlow} (seg : Segment) (hnum : seg.seq = f.clientNext) : newData f seg = seg.data := by
  simp [newData, trim, hnum]

/-- A segment numbered like the next byte expected is taken whole. -/
theorem handleLocked_next {f : TcpFlow} (seg : Segment) (hcon : f.connected = true) (hconn : f.conn = true)
    (hnum : seg.seq = f.clientNext) (hfin : seg.fin = false) : handleLocked f seg = (takeData (handleACK f seg) seg.data,
      { data := seg.data, conn := true, reply := !seg.data.isEmpty || seg.fin, fin := false }) := by
  simp [handleLocked, newData_next seg hnum, hcon, hconn, finAccepted, hfin]

/-- It is written to the host. -/
theorem deliver {s : St} {t : Nat} (hr : Reach G w b key nextSeq s) (h : Ready G s t) (seg : Segment) (o : Nat)
    (hc : Carries G seg o) (hne : seg.data ≠ []) (hfin : seg.fin = false) (hnum : G.num o = G.num t)
    (hw : w = true → Near s seg o) :
    ∃ s', Reach G w b key nextSeq s' ∧ Ready G s' (t + seg.data.length) ∧ s'.host = s.host ++ seg.data := by
  have hloc := handleLocked_next seg h.connected h.conn (by rw [hc.seq, hnum, h.next]) hfin
  have h1 := Reach.step hr (.segment s 0 seg o (h.handlers 0) hc hw fun _ j _ => h.handlers j)
  rw [hloc] at h1
  have h2 := Reach.step h1 (.write _ 0 _ rfl hne rfl h.hostDown)
  have h3 := Reach.step h2 (.reply _ 0 _ rfl)
  have hfr : ∀ (b : Bool) (x : St), (if b = true then sendFrame x else x).flow = x.flow ∧
      (if b = true then sendFrame x else x).hostDown = x.hostDown ∧ (if b = true then sendFrame x else x).host = x.host ∧
        (if b = true then sendFrame x else x).handlers = x.handlers := by
    intro b x
    cases b <;> exact ⟨rfl, rfl, rfl, rfl⟩
  have h4 := Reach.step h3 (.finish _ 0 _ (by rw [(hfr _ _).2.2.2]; rfl))
  refine ⟨_, h4, ⟨fun i => ?_, ?_, ?_, ?_, ?_, ?_⟩, ?_⟩
  · simp only [St.at, (hfr _ _).2.2.2]
    split
    · rfl
    · exact h.handlers i
  · simp only [St.at, (hfr _ _).1]; simpa [takeData] using h.connected
  · simp only [St.at, (hfr _ _).1]; simpa [takeData] using h.conn
  · simp only [St.at, (hfr _ _).2.1]; exact h.hostDown
  · simp only [St.at, (hfr _ _).1]; simpa [takeData] using h.clientFIN
  · simp only [St.at, (hfr _ _).1]; simp [takeData, h.next, GuestStream.num, seqAt_add]
  · simp only [St.at, (hfr _ _).2.2.1]

end Deliver

/-- A stream whose first 2^32 bytes are 0 and the rest 1. -/
def longStream : GuestStream := ⟨0, fun i => if i < 2 ^ 32 then 0 else 1, none⟩

/-- A stream that counts its bytes. -/
def countStream : GuestStream := ⟨0, UInt8.ofNat, none⟩

/-- `n` bytes of a stream from `o`. -/
def pieceOf (G : GuestStream) (o n : Nat) (hn : n ≤ 65495) : Segment where
  seq := G.num o
  ack := 0
  window := 0
  fin := false
  syn := false
  rst := false
  ackFlag := false
  data := G.slice o n
  fits := by simpa using hn

section Pieces

variable {G : GuestStream} {n : Nat} (hn : n ≤ 65495)

theorem pieceOf_byte (o : Nat) {i : Nat} (hi : i < n) : (pieceOf G o n hn).data[i]? = some (G.byte (o + i)) :=
  slice_getElem? G.byte o hi

theorem pieceOf_carries (hendless : G.len = none) (o : Nat) : Carries G (pieceOf G o n hn) o where
  seq := rfl
  data := by simp [pieceOf]
  fin := by simp [pieceOf]
  within := by simp [hendless]
  plain := ⟨rfl, rfl⟩

theorem pieceOf_ne (h0 : 0 < n) (o : Nat) : (pieceOf G o n hn).data ≠ [] := by
  intro h
  have := congrArg List.length h
  simp [pieceOf] at this
  omega

include hn in
theorem long_run (h0 : 0 < n) (key : FlowKey) (k : Nat) :
    ∃ s, Reach longStream false true key 0 s ∧ Ready longStream s (k * n) ∧ s.host = longStream.upTo (k * n) := by
  induction k with
  | zero =>
    obtain ⟨s, h1, h2, h3, -⟩ := connect_ready longStream false true key 0
    exact ⟨s, h1, by simpa using h2, by simp [h3, GuestStream.upTo, GuestStream.slice]⟩
  | succ k ih =>
    obtain ⟨s, h1, h2, h3⟩ := ih
    obtain ⟨s', h1', h2', h3'⟩ :=
      deliver h1 h2 (pieceOf longStream (k * n) n hn) _ (pieceOf_carries hn rfl _) (pieceOf_ne hn h0 _) rfl rfl (by simp)
    have hlen : k * n + (pieceOf longStream (k * n) n hn).data.length = (k + 1) * n := by
      simp [pieceOf, Nat.succ_mul]
    rw [hlen] at h2'
    refine ⟨s', h1', h2', ?_⟩
    rw [h3', h3, pieceOf, upTo_append, Nat.succ_mul]

end Pieces

/-- After 2^32 bytes a duplicate of the first segment carries the next expected number:
    its bytes are written to the host a second time. -/
theorem wraps_onto_old_segment :
    ∃ s, Reach longStream false true ⟨1, 2, 3, 4⟩ 0 s ∧ ∀ n, s.host ≠ longStream.upTo n := by
  have hn : 1024 ≤ 65495 := by decide
  obtain ⟨s, h1, h2, h3⟩ := long_run hn (by decide) ⟨1, 2, 3, 4⟩ 4194304
  have hwrap : longStream.num 0 = longStream.num (4194304 * 1024) := (seqAt_period _ 0).symm
  obtain ⟨s', h1', -, h3'⟩ :=
    deliver h1 h2 (pieceOf longStream 0 1024 hn) 0 (pieceOf_carries hn rfl 0) (pieceOf_ne hn (by decide) 0) rfl hwrap (by simp)
  have hlen0 : (longStream.upTo (4194304 * 1024)).length = 2 ^ 32 := by simp
  refine ⟨s', h1', fun n hn' => ?_⟩
  have hlen : n = 2 ^ 32 + 1024 := by
    have := congrArg List.length hn'
    rw [h3', h3] at this
    simpa [pieceOf] using this.symm
  -- position 2^32 holds a 0, the first byte of the duplicate
  have h0 : s'.host[2 ^ 32]? = some 0 := by
    rw [h3', h3, ← hlen0, List.getElem?_append_right (Nat.le_refl _), Nat.sub_self]
    rw [pieceOf_byte hn 0 (by omega)]
    simp [longStream]
  rw [hn', GuestStream.upTo, GuestStream.slice, slice_getElem? _ _ (by omega)] at h0
  simp [longStream] at h0

/-- Two readers hold the next two segments, and the second writes first. -/
theorem readers_swapped : ∃ s, Reach countStream true false ⟨1, 2, 3, 4⟩ 0 s ∧ s.host = [3, 4, 5] := by
  have hn : 3 ≤ 65495 := by decide
  obtain ⟨s, h0, h, hhost, htaken⟩ := connect_ready countStream true false ⟨1, 2, 3, 4⟩ 0
  have hnear : Near s (pieceOf countStream 0 3 hn) 0 := by
    simp only [Near, pos, htaken, h.clientFIN, pieceOf, piece_length]
    decide
  have h1 :=
    Reach.step h0 (.segment s 0 (pieceOf countStream 0 3 hn) 0 (h.handlers 0) (pieceOf_carries hn rfl 0) (fun _ => hnear) nofun)
  rw [handleLocked_next (pieceOf countStream 0 3 hn) h.connected h.conn h.next.symm rfl,
    newData_next (pieceOf countStream 0 3 hn) h.next.symm] at h1
  -- the other reader comes in before the bytes are written
  have hnext : (takeData (handleACK s.flow (pieceOf countStream 0 3 hn)) (pieceOf countStream 0 3 hn).data).clientNext =
      countStream.num 3 := by
    show (handleACK s.flow (pieceOf countStream 0 3 hn)).clientNext + BitVec.ofNat 32 (countStream.slice 0 3).length = _
    rw [handleACK_clientNext, h.next, piece_length]
    exact (seqAt_add _ 0 3).symm
  have hnear' : ∀ t : St, t.taken = s.taken + (pieceOf countStream 0 3 hn).data.length → t.flow.clientFIN = false →
      Near t (pieceOf countStream 3 3 hn) 3 := by
    intro t ht hfin
    simp only [Near, pos, ht, htaken, hfin, pieceOf, piece_length]
    decide
  have hopen : (takeData (handleACK s.flow (pieceOf countStream 0 3 hn)) (pieceOf countStream 0 3 hn).data).clientFIN =
    false := by
    simpa [takeData] using h.clientFIN
  have hcon : (takeData (handleACK s.flow (pieceOf countStream 0 3 hn)) (pieceOf countStream 0 3 hn).data).connected = true := by
    simpa [takeData] using h.connected
  have hconn : (takeData (handleACK s.flow (pieceOf countStream 0 3 hn)) (pieceOf countStream 0 3 hn).data).conn = true := by
    simpa [takeData] using h.conn
  have h2 := Reach.step h1 (.segment _ 1 (pieceOf countStream 3 3 hn) 3 (h.handlers 1) (pieceOf_carries hn rfl 3)
    (fun _ => hnear' _ rfl hopen) nofun)
  rw [handleLocked_next (pieceOf countStream 3 3 hn) hcon hconn hnext.symm rfl] at h2
  have h3 := Reach.step h2 (.write _ 1 _ rfl (pieceOf_ne hn (by decide) 3) rfl h.hostDown)
  exact ⟨_, h3, by show s.host ++ _ = _; rw [hhost]; rfl⟩

/-- Neither restriction can go. -/
theorem upload_not_a_prefix :
    (∃ s, Reach countStream true false ⟨1, 2, 3, 4⟩ 0 s ∧ ∀ n, s.host ≠ countStream.upTo n) ∧
      ∃ s, Reach longStream false true ⟨1, 2, 3, 4⟩ 0 s ∧ ∀ n, s.host ≠ longStream.upTo n := by
  obtain ⟨s, hr, hhost⟩ := readers_swapped
  refine ⟨⟨s, hr, fun n hn => ?_⟩, wraps_onto_old_segment⟩
  rw [hhost] at hn
  have hlen := congrArg List.length hn
  rw [upTo_length] at hlen
  subst hlen
  exact absurd hn (by decide)

end Be300.NetBridge.Upload
