/-
  Be300.Cf.ReadOut — reading a received frame out of the ring through the remote DMA port.

  The driver sets the remote address to the fourth byte of the frame's page and the count
  to the frame's length, and reads the data port in accesses of any widths (`readOut`).
  The port steps the address by one byte at a time (`dataReads_bytes`): it goes on from
  pstop into the memory behind the ring, where `ringWrite` went back to pstart.
-/

import Be300.Cf.RxRing

namespace Be300.Cf.Ne2000

open Be300.Lib
open Be300.Lib.Ring (slot)

/-! ## The driver's read -/

/-- The register writes that start a remote read of `count` bytes at `addr`. -/
def startRead (s : Card) (addr count : Nat) : Card :=
  let s := writeReg s 0 (crSta ||| crRd2)
  let s := writeReg s 8 (UInt8.ofNat addr)
  let s := writeReg s 9 (UInt8.ofNat (addr / 256))
  let s := writeReg s 10 (UInt8.ofNat count)
  let s := writeReg s 11 (UInt8.ofNat (count / 256))
  writeReg s 0 (crSta ||| crRd0)

/-- The data port read once for each width. -/
def dataReads : List Nat → Card → List UInt8 × Card
  | [], s => ([], s)
  | width :: widths, s =>
    let (bytes, s) := dataRead width s
    let (rest, s) := dataReads widths s
    (bytes ++ rest, s)

/-- The frame of `len` bytes at `page`, read in accesses of the given widths. -/
def readOut (s : Card) (page len : Nat) (widths : List Nat) : List UInt8 :=
  (dataReads widths (startRead s (256 * page + 4) len)).1

/-- The `k` bytes of the card's memory from `addr` on, as the port's address runs. -/
def linear (s : Card) (addr k : Nat) : List UInt8 := (List.range k).map fun i => memRead s (addr + i)

/-! ## What the port returns -/

section Port

variable {s : Card}

theorem memRead_mod (s : Card) (addr : Nat) : memRead s (addr % 65536) = memRead s addr := by
  unfold memRead memSize
  rw [Nat.mod_mod_of_dvd addr (by decide)]

theorem linear_congr {s' : Card} {a b : Nat} (hmem : s'.mem = s.mem) (hab : a % 65536 = b % 65536) (k : Nat) :
    linear s' a k = linear s b k := by
  unfold linear
  apply List.map_congr_left
  intro i _
  rw [← memRead_mod s', ← memRead_mod s, Nat.add_mod_eq_add_mod_right i hab]
  unfold memRead
  rw [hmem]

theorem linear_add (s : Card) (addr j k : Nat) : linear s addr (j + k) = linear s addr j ++ linear s (addr + j) k := by
  unfold linear
  rw [List.range_add, List.map_append, List.map_map]
  simp only [Function.comp_def, Nat.add_assoc]

theorem linear_eq_iff (s : Card) (addr : Nat) (l : List UInt8) :
    linear s addr l.length = l ↔ ∀ i (hi : i < l.length), memRead s (addr + i) = l[i] := by
  constructor
  · intro heq i hi
    have hget := congrArg (·[i]?) heq
    simpa [linear, hi] using hget
  · intro hall
    apply List.ext_getElem
    · simp [linear]
    · intro i h1 h2
      simpa [linear] using hall i h2

theorem remoteDone_fields (s : Card) :
    (remoteDoneIfNeeded s).mem = s.mem ∧ (remoteDoneIfNeeded s).remoteAddr = s.remoteAddr := by
  unfold remoteDoneIfNeeded
  split <;> exact ⟨rfl, rfl⟩

/-- One access returns the next bytes of the memory and moves the address past them. -/
theorem dataRead_spec (size : Nat) (s : Card) :
    (dataRead size s).1 = linear s s.remoteAddr.toNat size ∧ (dataRead size s).2.mem = s.mem ∧
      (dataRead size s).2.remoteAddr.toNat % 65536 = (s.remoteAddr.toNat + size) % 65536 := by
  induction size generalizing s with
  | zero =>
    obtain ⟨hmem, haddr⟩ := remoteDone_fields s
    exact ⟨rfl, hmem, by rw [dataRead, haddr, Nat.add_zero]⟩
  | succ size ih =>
    obtain ⟨hbytes, hmem, haddr⟩ := ih (remoteNext s)
    have hnext : (remoteNext s).remoteAddr.toNat % 65536 = (s.remoteAddr.toNat + 1) % 65536 := by
      simp [remoteNext]
    refine ⟨?_, hmem, ?_⟩
    · have hhead : (dataRead (size + 1) s).1 = memRead s s.remoteAddr.toNat :: (dataRead size (remoteNext s)).1 := rfl
      have hrest : linear (remoteNext s) (remoteNext s).remoteAddr.toNat size = linear s (s.remoteAddr.toNat + 1) size :=
        linear_congr rfl hnext size
      rw [hhead, hbytes, hrest, Nat.add_comm size 1, linear_add]
      rfl
    · have htail : (dataRead (size + 1) s).2 = (dataRead size (remoteNext s)).2 := rfl
      rw [htail, haddr, Nat.add_mod_eq_add_mod_right size hnext, Nat.add_assoc, Nat.add_comm 1]

/-- The widths only cut the bytes into pieces. -/
theorem dataReads_bytes (widths : List Nat) (s : Card) : (dataReads widths s).1 = linear s s.remoteAddr.toNat widths.sum := by
  induction widths generalizing s with
  | nil => rfl
  | cons width widths ih =>
    obtain ⟨hbytes, hmem, haddr⟩ := dataRead_spec width s
    have hcut : (dataReads (width :: widths) s).1 = (dataRead width s).1 ++ (dataReads widths (dataRead width s).2).1 := rfl
    rw [hcut, List.sum_cons, linear_add, ih, hbytes, linear_congr hmem haddr]

/-- A command that sends nothing leaves the memory alone. -/
theorem writeCr_mem (s : Card) (value : UInt8) : (writeCr s value).mem = s.mem := by
  unfold writeCr
  simp only [remoteDoneIfNeeded, transmit, apply_ite Card.mem, ite_self]

theorem page_started (s : Card) : page (writeCr s (crSta ||| crRd2)) = 0 := by
  obtain ⟨c, hc⟩ : ∃ c, (writeCr s (crSta ||| crRd2)).cr = (c &&& ~~~crPsMask) ||| ((crSta ||| crRd2) &&& crPsMask) := ⟨_, rfl⟩
  have hnone : (crSta ||| crRd2) &&& crPsMask = 0 := by decide
  have hout : ~~~crPsMask &&& crPsMask = 0 := by decide
  rw [page, hc, hnone, UInt8.or_zero, UInt8.and_assoc, hout, UInt8.and_zero]
  rfl

/-- A read command takes the address registers over. -/
theorem writeCr_read (s : Card) : (writeCr s (crSta ||| crRd0)).remoteAddr = UInt16.ofNat (word s.rsar0 s.rsar1) := by
  have hrd : (crSta ||| crRd0) &&& crRdMask = crRd0 := by decide
  have htx : ¬ (crSta ||| crRd0) &&& crTxp ≠ 0 := by decide
  have hstp : ¬ (crSta ||| crRd0) &&& crStp ≠ 0 := by decide
  have hsta : (crSta ||| crRd0) &&& crSta ≠ 0 := by decide
  unfold writeCr
  simp only [hrd, if_neg htx, if_neg hstp, if_pos hsta, true_or, if_true, (remoteDone_fields _).2]

/-- The four writes to the address and count registers. -/
theorem setRemote_eq {s : Card} (hpage : page s = 0) (a b c d : UInt8) :
    writeReg (writeReg (writeReg (writeReg s 8 a) 9 b) 10 c) 11 d =
      { s with rsar0 := a, rsar1 := b, rbcr0 := c, rbcr1 := d } := by
  have hcr : (s.cr &&& crPsMask) >>> 6 = 0 := UInt8.toNat_inj.mp hpage
  simp [writeReg, page, hcr]

theorem startRead_spec (s : Card) {addr : Nat} (count : Nat) (haddr : addr < 65536) :
    (startRead s addr count).mem = s.mem ∧ (startRead s addr count).remoteAddr.toNat = addr := by
  have hstart : startRead s addr count = writeCr (writeReg (writeReg (writeReg (writeReg (writeCr s (crSta ||| crRd2)) 8
      (UInt8.ofNat addr)) 9 (UInt8.ofNat (addr / 256))) 10 (UInt8.ofNat count)) 11 (UInt8.ofNat (count / 256)))
      (crSta ||| crRd0) := rfl
  rw [hstart, setRemote_eq (page_started s), writeCr_mem, writeCr_read]
  refine ⟨writeCr_mem s _, ?_⟩
  simp only [word, UInt16.toNat_ofNat', UInt8.toNat_ofNat']
  omega

theorem readOut_eq (s : Card) {page len : Nat} (hpage : page < 256) (widths : List Nat) :
    readOut s page len widths = linear s (256 * page + 4) widths.sum := by
  obtain ⟨hmem, haddr⟩ := startRead_spec s len (show 256 * page + 4 < 65536 by omega)
  rw [readOut, dataReads_bytes, haddr]
  exact linear_congr hmem rfl _

end Port

/-! ## A stored frame read out -/

/-- The memory behind the ring holds what the ring's first bytes hold, as far as a frame
    of `len` bytes at `page` reaches past pstop. -/
def Repeats (s : Card) (page len : Nat) : Prop :=
  ∀ i, 256 * s.pstop.toNat + i < 256 * page + 4 + len →
    memRead s (256 * s.pstop.toNat + i) = s.mem (256 * s.pstart.toNat + i)

section Frames

variable {s : Card} {x : Nat} {packet : List UInt8}

theorem Stored.getElem (h : Stored s x packet) {i : Nat} (hi : i < packet.length) :
    s.mem (byteAt s (256 * x + 4 + i)) = packet[i] := by
  obtain ⟨-, hbytes, -⟩ := h.read
  rw [ringBytes_pageAt] at hbytes
  have hget := bytesFrom_getElem (s := s) (x := 256 * x + 4) hi
  rw [hbytes, List.getElem?_eq_getElem hi, Option.some.injEq] at hget
  exact hget.symm

/-- Byte `i` of a frame in page `pageAt s x`: before pstop, or from pstart on. -/
theorem byteAt_frame (hs : Configured s) {i : Nat} (hi : 4 + i < 256 * (s.pstop.toNat - s.pstart.toNat)) :
    byteAt s (256 * x + 4 + i) =
      if 256 * pageAt s x + 4 + i < 256 * s.pstop.toNat then 256 * pageAt s x + 4 + i
      else 256 * s.pstart.toNat + (256 * pageAt s x + 4 + i - 256 * s.pstop.toNat) := by
  have hstop := hs.stop
  have hfirst := byteAt_page s x (o := 0) (by omega)
  have hstep := Ring.slot_step (o := 256 * s.pstart.toNat) (256 * x) hi
  unfold byteAt at hfirst ⊢
  rw [Nat.add_zero, Nat.add_zero] at hfirst
  rw [Nat.add_assoc, hstep, hfirst, ← Nat.add_assoc]
  split
  · rw [if_pos (by omega)]
  · rw [if_neg (by omega)]
    omega

theorem linear_frame_iff (hs : Configured s) (h : Stored s x packet)
    (hroom : framePages packet ≤ s.pstop.toNat - s.pstart.toNat) :
    linear s (256 * pageAt s x + 4) packet.length = packet ↔ Repeats s (pageAt s x) packet.length := by
  have hbytes := framePages_bytes packet
  have hstop := hs.stop
  have hmem := hs.mem
  have hpage := pageAt_bounds hs x
  -- byte `i` comes back when its linear address and its cell hold the same
  have heach : linear s (256 * pageAt s x + 4) packet.length = packet ↔
      ∀ i < packet.length, memRead s (256 * pageAt s x + 4 + i) = s.mem (byteAt s (256 * x + 4 + i)) := by
    rw [linear_eq_iff]
    constructor
    · intro hall i hi
      rw [hall i hi, h.getElem hi]
    · intro hall i hi
      rw [hall i hi, h.getElem hi]
  rw [heach]
  constructor
  · intro hall i hi
    have hbyte := hall (256 * s.pstop.toNat + i - (256 * pageAt s x + 4)) (by omega)
    rw [byteAt_frame hs (by omega), if_neg (by omega)] at hbyte
    rw [show 256 * pageAt s x + 4 + (256 * s.pstop.toNat + i - (256 * pageAt s x + 4)) = 256 * s.pstop.toNat + i by omega,
      Nat.add_sub_cancel_left] at hbyte
    exact hbyte
  · intro hrep i hi
    rw [byteAt_frame hs (by omega)]
    split
    · rename_i hin
      unfold memRead memSize
      rw [Nat.mod_eq_of_lt (by omega)]
    · rename_i hout
      have hbyte := hrep (256 * pageAt s x + 4 + i - 256 * s.pstop.toNat) (by omega)
      rwa [show 256 * s.pstop.toNat + (256 * pageAt s x + 4 + i - 256 * s.pstop.toNat) = 256 * pageAt s x + 4 + i by omega]
        at hbyte

/-- Where the links lead, the unread frame of that number is stored. -/
theorem Inv.unread {t : St} {B R C k : Nat} (hi : Inv t B R C) (hk : t.unread[k]? = some packet) :
    ∃ x, readPast t.card k t.next = pageAt t.card x ∧ Stored t.card x packet ∧
      framePages packet ≤ t.card.pstop.toNat - t.card.pstart.toNat := by
  obtain ⟨hlt, hget⟩ := List.getElem?_eq_some_iff.mp hk
  obtain ⟨x, hx, hpast, hqueue⟩ := hi.queue.readPast hi.config (Nat.le_of_lt hlt)
  rw [List.drop_eq_getElem_cons hlt, hget] at hqueue
  have hend := hqueue.2.le
  have hread := hi.read
  have hroom := hi.room
  rw [hi.next] at hpast
  exact ⟨x, hpast, hqueue.1, by omega⟩

/-- The read-out of an unread frame, in accesses of any widths. -/
theorem Inv.readOut_iff {t : St} {B R C k : Nat} (hi : Inv t B R C) (hk : t.unread[k]? = some packet) {widths : List Nat}
    (hcover : packet.length ≤ widths.sum) :
    (readOut t.card (readPast t.card k t.next) packet.length widths).take packet.length = packet ↔
      Repeats t.card (readPast t.card k t.next) packet.length := by
  obtain ⟨x, hpast, hstored, hroom⟩ := hi.unread hk
  have hpage := pageAt_bounds hi.config x
  have hmem := hi.config.mem
  have hall : widths.sum = packet.length + (widths.sum - packet.length) := by omega
  rw [hpast, readOut_eq _ (by omega), hall, linear_add, List.take_left' (by simp [linear])]
  exact linear_frame_iff hi.config hstored hroom

end Frames

/-- In every state reached, an unread frame read out at its page comes back, in accesses of
    any widths, exactly when it ends before pstop or the memory behind the ring repeats the
    ring's first bytes. -/
theorem read_out_iff (ne : Ether) {s : Card} (hs : Configured s) {t : St} (h : Run ne ⟨s, s.curr.toNat, []⟩ t) {k : Nat}
    {packet : List UInt8} (hk : t.unread[k]? = some packet) {widths : List Nat} (hcover : packet.length ≤ widths.sum) :
    (readOut t.card (readPast t.card k t.next) packet.length widths).take packet.length = packet ↔
      Repeats t.card (readPast t.card k t.next) packet.length := by
  obtain ⟨B, R, C, hi⟩ := inv_run hs h
  exact hi.readOut_iff hk hcover

theorem filled_third : readPast filled 2 0x41 = 0x43 ∧ filled.pstop.toNat = 0x45 := by decide +kernel

/-- The third frame of three, in accesses of one, two and four bytes. -/
theorem third_read_out : (readOut filled 0x43 14 [1, 4, 1, 4, 2, 2]).take 14 = frame 14 3 := by
  have hs : Configured fivePages := ⟨by decide, by decide, by decide, by decide, by decide⟩
  have hiff : ∀ k packet widths {t next unread}, Run ethernet ⟨fivePages, 0x41, []⟩ ⟨t, next, unread⟩ → unread[k]? = some packet →
      packet.length ≤ List.sum widths →
      ((readOut t (readPast t k next) packet.length widths).take packet.length = packet ↔
        Repeats t (readPast t k next) packet.length) := fun _ _ _ _ _ _ h hk hcover => read_out_iff ethernet hs h hk hcover
  have hlen : (frame 14 3).length = 14 := List.length_replicate
  have hread := hiff 2 (frame 14 3) [1, 4, 1, 4, 2, 2] filled_run rfl (by decide)
  rw [hlen, filled_third.1] at hread
  apply hread.mpr
  -- the frame ends in its page
  intro i hi
  rw [filled_third.2] at hi
  omega

/-- A card with a ring of four pages at the end of its memory, the last one current. -/
def lastPage : Card := { started with pstart := 0x7C, bnry := 0x7E, curr := 0x7F }

/-- A frame of two pages is stored on both sides of pstop, and its second part is read
    from address 0. -/
theorem wrapped_misread :
    ∃ t, Configured lastPage ∧ Run ethernet ⟨lastPage, lastPage.curr.toNat, []⟩ t ∧
      t.unread[0]? = some (List.replicate 300 7) ∧
      (readOut t.card (readPast t.card 0 t.next) 300 (List.replicate 150 2)).take 300 ≠ List.replicate 300 7 := by
  have hs : Configured lastPage := ⟨by decide, by decide, by decide, by decide, by decide⟩
  have hlen : (List.replicate 300 (7 : UInt8)).length = 300 := List.length_replicate
  have hshort : Short (List.replicate 300 7) := by
    unfold Short
    omega
  have haccept : acceptPacket ethernet lastPage (List.replicate 300 7) = true := by decide +kernel
  have hfits : Fits lastPage (List.replicate 300 7) := by decide +kernel
  have hstep : Step ethernet ⟨lastPage, lastPage.curr.toNat, []⟩ _ := Step.receive (List.replicate 300 7) hshort
  have hrun := Run.init.step hstep
  simp only [haccept, hfits, and_self, if_true, List.nil_append] at hrun
  -- the first byte behind the ring is the station address
  obtain ⟨status, heq⟩ := receive_stored (x := 0x7F - 0x7C) hs hshort haccept hfits (by decide)
  have hstart : (receivePacket ethernet lastPage (List.replicate 300 7)).pstart.toNat = 124 := congrArg (·.pstart.toNat) heq
  have hstop : (receivePacket ethernet lastPage (List.replicate 300 7)).pstop.toNat = 128 := congrArg (·.pstop.toNat) heq
  have hmem := congrArg Card.mem heq
  have hbehind : (receivePacket ethernet lastPage (List.replicate 300 7)).mem 0 = 2 := by
    simp only [hmem]
    rw [Ring.put_outside (by decide) _ _ _ (by decide)]
    decide
  clear hmem heq
  revert hrun hstart hstop hbehind
  generalize receivePacket ethernet lastPage (List.replicate 300 7) = card
  intro hrun hstart hstop hbehind
  refine ⟨_, hs, hrun, rfl, ?_⟩
  obtain ⟨B, R, C, hi⟩ := inv_run hs hrun
  have hget : [List.replicate 300 (7 : UInt8)][0]? = some (List.replicate 300 7) := rfl
  have hcover : (List.replicate 300 (7 : UInt8)).length ≤ (List.replicate 150 2).sum := by
    apply Nat.le_of_eq
    rw [hlen, List.sum_replicate_nat]
  have hiff := hi.readOut_iff hget hcover
  rw [hlen] at hiff
  rw [Ne, hiff]
  intro hrep
  -- the first byte of the ring is byte 252 of the frame
  obtain ⟨x, hpast, hstored, -⟩ := hi.unread hget
  have hzero := hrep 0
  have hcell := byteAt_frame (x := x) (i := 252) hi.config
  have hfirst := hstored.getElem (i := 252) (by omega)
  have hpage : lastPage.curr.toNat = 127 := rfl
  simp only [readPast, hpage] at hpast
  simp only [hstart, hstop, ← hpast, readPast, hpage] at hzero hcell
  have hread : memRead card (256 * 128 + 0) = 2 := by
    have hmod : (256 * 128 + 0) % memSize = 0 := rfl
    rw [memRead, hmod]
    exact hbehind
  have haddr : 256 * 124 + (256 * 127 + 4 + 252 - 256 * 128) = 256 * 124 + 0 := by omega
  rw [hcell (by decide), if_neg (by decide), haddr, List.getElem_replicate] at hfirst
  rw [hzero (by decide)] at hread
  rw [hread] at hfirst
  exact absurd hfirst (by decide)

end Be300.Cf.Ne2000
