/-
  Be300.Cf.RxRing — the receive ring of the NE2000, as the card and the driver use it.

  The driver keeps a page `next` it reads from. It finds the frames there by following
  each header's link up to the card's current page (`visit`), and moves the boundary page
  to any page up to `next`. Between frames it may write the other registers and use the
  remote DMA port outside the ring (`Step`).

  Pages are counted without end: `Inv` numbers the boundary B, the read pointer R and the
  current page C with B ≤ R ≤ C < B + n on a ring of n pages, and says that the records of
  the unread frames lie end to end from R to C (`Queue`). A frame is stored only when its
  pages from C on end before B + n, so that what lies from B to C stays (`receive_stored`).
  `ring_sound` is the run-level result.
-/

import Be300.Lib.Ring
import Be300.Cf.Ne2000

namespace Be300.Cf.Ne2000

open Be300.Lib
open Be300.Lib.Ring (slot get put gap slot_lt le_slot slot_add slot_sub slot_gap gap_slot)

/-! ## The driver's side -/

structure Configured (s : Card) : Prop where
  start : 0 < s.pstart.toNat
  stop : s.pstart.toNat < s.pstop.toNat
  mem : s.pstop.toNat ≤ 0x80
  curr : s.pstart.toNat ≤ s.curr.toNat ∧ s.curr.toNat < s.pstop.toNat
  bnry : s.pstart.toNat ≤ s.bnry.toNat ∧ s.bnry.toNat < s.pstop.toNat

/-- The steps from page `a` forward to page `b`. -/
def pageGap (s : Card) (a b : Nat) : Nat := gap s.pstart.toNat s.pstop.toNat a b

def link (s : Card) (page : Nat) : Nat := (s.mem (256 * page + 1)).toNat

def headerLength (s : Card) (page : Nat) : Nat := word (s.mem (256 * page + 2)) (s.mem (256 * page + 3))

/-- `k` bytes of the ring from offset `off` in page `page`, going on at `pstart` after `pstop`. -/
def ringBytes (s : Card) (page off k : Nat) : List UInt8 :=
  get (256 * s.pstart.toNat) (256 * (s.pstop.toNat - s.pstart.toNat)) s.mem (256 * (page - s.pstart.toNat) + off) k

/-- The header length and the frame of each record from `page` to the current page. -/
def visit (s : Card) : Nat → Nat → List (Nat × List UInt8)
  | 0, _ => []
  | fuel + 1, page =>
    if page = s.curr.toNat then []
    else (headerLength s page, ringBytes s page 4 (headerLength s page - 4)) :: visit s fuel (link s page)

/-- The page that `k` links lead to. -/
def readPast (s : Card) : Nat → Nat → Nat
  | 0, page => page
  | k + 1, page => readPast s k (link s page)

/-- The bound on the frames the network hands over. -/
def Short (packet : List UInt8) : Prop := packet.length < 65000

/-- The pages a frame takes, with its header and checksum. -/
def framePages (packet : List UInt8) : Nat := (packet.length + 8 + 255) / 256

/-- Fewer pages are needed than lie from the current page to the boundary. -/
def Fits (s : Card) (packet : List UInt8) : Prop := framePages packet < pageGap s s.curr.toNat s.bnry.toNat

instance (s : Card) (packet : List UInt8) : Decidable (Fits s packet) := inferInstanceAs (Decidable (_ < _))

/-- The registers that move the ring. -/
def ringRegister (s : Card) (reg : Nat) : Bool :=
  if page s = 1 then reg % 16 == 7 else reg % 16 == 1 || reg % 16 == 2 || reg % 16 == 3

structure St where
  card : Card
  next : Nat
  unread : List (List UInt8)

inductive Step (ne : Ether) : St → St → Prop
  | receive {t : St} (packet : List UInt8) (hshort : Short packet) :
      Step ne t { t with
        card := receivePacket ne t.card packet
        unread := if acceptPacket ne t.card packet ∧ Fits t.card packet then t.unread ++ [packet] else t.unread }
  | advance {t : St} (k : Nat) (bnry : UInt8) (hpage : page t.card ≠ 1) (hk : k ≤ t.unread.length)
      (hring : t.card.pstart.toNat ≤ bnry.toNat ∧ bnry.toNat < t.card.pstop.toNat)
      (hread : pageGap t.card t.card.bnry.toNat bnry.toNat ≤
        pageGap t.card t.card.bnry.toNat (readPast t.card k t.next)) :
      Step ne t ⟨writeReg t.card 3 bnry, readPast t.card k t.next, t.unread.drop k⟩
  | write {t : St} (reg : Nat) (value : UInt8) (hreg : ringRegister t.card reg = false) :
      Step ne t { t with card := writeReg t.card reg value }
  | dataRead {t : St} (size : Nat) : Step ne t { t with card := (dataRead size t.card).2 }
  | dataWrite {t : St} (value : List UInt8)
      (hout : ∀ i < value.length, (t.card.remoteAddr.toNat + i) % 65536 < 256 * t.card.pstart.toNat ∨
        256 * t.card.pstop.toNat ≤ (t.card.remoteAddr.toNat + i) % 65536) :
      Step ne t { t with card := dataWrite value t.card }

inductive Run (ne : Ether) (s : St) : St → Prop
  | init : Run ne s s
  | step {t u : St} : Run ne s t → Step ne t u → Run ne s u

/-! ## What a write to the ring does -/

section Writes

variable {s : Card}

theorem ringStart_eq (hs : Configured s) : ringStart s = s.pstart.toNat := by
  have h := hs.start
  unfold ringStart
  rw [if_pos (by omega)]

theorem ringStop_eq (hs : Configured s) : ringStop s = s.pstop.toNat := by
  have h := hs.stop
  unfold ringStop
  rw [ringStart_eq hs, if_pos (by omega)]

theorem ringWrite_spec (hs : Configured s) (v : UInt8) {o : Nat} (ho : 256 * s.pstart.toNat + o < 65536) :
    ringWrite s (256 * s.pstart.toNat + o) v =
      { s with mem := Function.update s.mem (slot (256 * s.pstart.toNat) (256 * (s.pstop.toNat - s.pstart.toNat)) o) v } := by
  have h1 := hs.start
  have h2 := hs.stop
  have h3 := hs.mem
  have hlt := slot_lt (o := 256 * s.pstart.toNat) (n := 256 * (s.pstop.toNat - s.pstart.toNat)) (by omega) o
  unfold ringWrite
  rw [if_pos (by omega), if_pos (by omega)]
  -- both branches name the cell of `o`
  have haddr : (if 256 * s.pstart.toNat + o < 256 * s.pstart.toNat ∨ 256 * s.pstop.toNat ≤ 256 * s.pstart.toNat + o then
      ((((256 * s.pstart.toNat : Nat) : Int) + (((256 * s.pstart.toNat + o : Nat) : Int) - (256 * s.pstart.toNat : Nat)).tmod
        (((256 * s.pstop.toNat : Nat) : Int) - (256 * s.pstart.toNat : Nat))) % 65536).toNat
      else 256 * s.pstart.toNat + o) = slot (256 * s.pstart.toNat) (256 * (s.pstop.toNat - s.pstart.toNat)) o := by
    unfold slot at hlt ⊢
    split
    · rw [show ((256 * s.pstart.toNat + o : Nat) : Int) - (256 * s.pstart.toNat : Nat) = (o : Int) by omega,
        show ((256 * s.pstop.toNat : Nat) : Int) - (256 * s.pstart.toNat : Nat)
          = ((256 * (s.pstop.toNat - s.pstart.toNat) : Nat) : Int) by omega, ← Int.ofNat_tmod]
      omega
    · rw [Nat.mod_eq_of_lt (by omega)]
  simp only [haddr, memWrite]
  rw [if_pos (by unfold memSize; omega)]

theorem Configured.with_mem (hs : Configured s) (m : Nat → UInt8) : Configured { s with mem := m } :=
  ⟨hs.start, hs.stop, hs.mem, hs.curr, hs.bnry⟩

theorem ringWriteAll_spec (data : List UInt8) {s : Card} (hs : Configured s) {o : Nat}
    (ho : 256 * s.pstart.toNat + o + data.length ≤ 65535) :
    ringWriteAll s (256 * s.pstart.toNat + o) data =
      { s with mem := put (256 * s.pstart.toNat) (256 * (s.pstop.toNat - s.pstart.toNat)) data o s.mem } := by
  induction data generalizing s o with
  | nil => rfl
  | cons b data ih =>
    simp only [List.length_cons] at ho
    rw [ringWriteAll, ringWrite_spec hs b (show 256 * s.pstart.toNat + o < 65536 by omega),
      Nat.mod_eq_of_lt (show 256 * s.pstart.toNat + o + 1 < 65536 by omega), Nat.add_assoc]
    exact ih (hs.with_mem _) (by simp only; omega)

theorem ringWriteAll_append (l m : List UInt8) (s : Card) {off : Nat} (h : off + l.length ≤ 65535) :
    ringWriteAll s off (l ++ m) = ringWriteAll (ringWriteAll s off l) (off + l.length) m := by
  induction l generalizing s off with
  | nil => rfl
  | cons b l ih =>
    simp only [List.length_cons] at h ⊢
    have hoff : (off + 1) % 65536 = off + 1 := Nat.mod_eq_of_lt (by omega)
    rw [List.cons_append, ringWriteAll, ringWriteAll, hoff, ih _ (by omega),
      show off + 1 + l.length = off + (l.length + 1) by omega]

theorem wrapPage_eq {lo hi p k : Nat} (hlo : lo ≤ p) (hp : p < hi) (hk : k < hi - lo) :
    wrapPage lo hi (p + k) = if p + k < hi then p + k else p + k - (hi - lo) := by
  rw [wrapPage]
  split
  · rw [wrapPage, dif_neg (by omega), if_neg (by omega)]
    omega
  · rw [if_pos (by omega)]

end Writes

/-! ## Records and the queue -/

/-- The page of position `x`. -/
def pageAt (s : Card) (x : Nat) : Nat := slot s.pstart.toNat (s.pstop.toNat - s.pstart.toNat) x

/-- The cell of byte position `x`. -/
def byteAt (s : Card) (x : Nat) : Nat := slot (256 * s.pstart.toNat) (256 * (s.pstop.toNat - s.pstart.toNat)) x

def bytesFrom (s : Card) (x k : Nat) : List UInt8 :=
  get (256 * s.pstart.toNat) (256 * (s.pstop.toNat - s.pstart.toNat)) s.mem x k

/-- What is stored for a frame: header, frame, checksum. -/
def record (status : UInt8) (next : Nat) (packet : List UInt8) : List UInt8 :=
  [status, UInt8.ofNat next, UInt8.ofNat (packet.length + 4), UInt8.ofNat ((packet.length + 4) / 256)] ++
    (packet ++ [0, 0, 0, 0])

@[simp] theorem record_length (status : UInt8) (next : Nat) (packet : List UInt8) :
    (record status next packet).length = packet.length + 8 := by
  simp [record]

/-- Position `x` holds the record of `packet`. -/
def Stored (s : Card) (x : Nat) (packet : List UInt8) : Prop :=
  Short packet ∧
    ∃ status, bytesFrom s (256 * x) (packet.length + 8) = record status (pageAt s (x + framePages packet)) packet

/-- From `x` to `y` lie the records of the frames, in order. -/
def Queue (s : Card) : Nat → List (List UInt8) → Nat → Prop
  | x, [], y => x = y
  | x, packet :: l, y => Stored s x packet ∧ Queue s (x + framePages packet) l y

section Positions

variable {s : Card}

theorem framePages_pos (packet : List UInt8) : 0 < framePages packet := by unfold framePages; omega

theorem framePages_bytes (packet : List UInt8) : packet.length + 8 ≤ 256 * framePages packet := by
  unfold framePages
  omega

/-- The bytes of a page follow one another. -/
theorem byteAt_page (s : Card) (x : Nat) {o : Nat} (ho : o < 256) : byteAt s (256 * x + o) = 256 * pageAt s x + o := by
  unfold byteAt pageAt slot
  generalize s.pstop.toNat - s.pstart.toNat = n
  have hmod : (256 * x + o) % (256 * n) = 256 * (x % n) + o := by
    rcases Nat.eq_zero_or_pos n with rfl | hn
    · simp
    · have hx := Nat.mod_lt x hn
      have hlt : 256 * (x % n) + o < 256 * n := by omega
      have hsplit : 256 * x + o = 256 * n * (x / n) + (256 * (x % n) + o) := by
        rw [Nat.mul_assoc, ← Nat.add_assoc, ← Nat.mul_add, Nat.div_add_mod]
      rw [hsplit, Nat.mul_add_mod, Nat.mod_eq_of_lt hlt]
  rw [hmod, Nat.mul_add, Nat.add_assoc]

theorem pageAt_bounds (hs : Configured s) (x : Nat) : s.pstart.toNat ≤ pageAt s x ∧ pageAt s x < s.pstop.toNat := by
  have h := slot_lt (o := s.pstart.toNat) (n := s.pstop.toNat - s.pstart.toNat) (by have := hs.stop; omega) x
  have hstop := hs.stop
  exact ⟨le_slot x, by unfold pageAt; omega⟩

theorem pageGap_pageAt (hs : Configured s) {x y : Nat} (hxy : x ≤ y) (hy : y < x + (s.pstop.toNat - s.pstart.toNat)) :
    pageGap s (pageAt s x) (pageAt s y) = y - x := by
  have h := gap_slot (o := s.pstart.toNat) hxy hy
  have hstop := hs.stop
  rw [show s.pstart.toNat + (s.pstop.toNat - s.pstart.toNat) = s.pstop.toNat by omega] at h
  exact h

/-- A page's bytes from offset `o` on are those of its position. -/
theorem ringBytes_pageAt (s : Card) (x o k : Nat) : ringBytes s (pageAt s x) o k = bytesFrom s (256 * x + o) k := by
  have hpage := byteAt_page s x (show 0 < 256 by omega)
  unfold ringBytes bytesFrom Ring.get
  apply List.map_congr_left
  intro i _
  congr 1
  unfold byteAt at hpage
  rw [Nat.add_assoc (256 * x), slot_add (256 * x), show 256 * x = 256 * x + 0 from rfl, hpage, slot, Nat.add_assoc,
    Nat.mul_sub, Nat.add_zero]

theorem Queue.le {l : List (List UInt8)} {x y : Nat} (h : Queue s x l y) : x + l.length ≤ y := by
  induction l generalizing x with
  | nil => exact Nat.le_of_eq h
  | cons packet l ih =>
    have hrest := ih h.2
    have hpos := framePages_pos packet
    simp only [List.length_cons]
    omega

theorem Queue.append {l : List (List UInt8)} {x y : Nat} (h : Queue s x l y) {packet : List UInt8} (hp : Stored s y packet) :
    Queue s x (l ++ [packet]) (y + framePages packet) := by
  induction l generalizing x with
  | nil =>
    cases h
    exact ⟨hp, rfl⟩
  | cons first l ih => exact ⟨h.1, ih h.2⟩

/-- A queue stays while its bytes and the ring's bounds stay. -/
theorem Queue.congr {s' : Card} {l : List (List UInt8)} {x y : Nat} (h : Queue s x l y) (hstart : s'.pstart = s.pstart)
    (hstop : s'.pstop = s.pstop) (hmem : ∀ z, 256 * x ≤ z → z < 256 * y → s'.mem (byteAt s z) = s.mem (byteAt s z)) :
    Queue s' x l y := by
  induction l generalizing x with
  | nil => exact h
  | cons packet l ih =>
    obtain ⟨⟨hshort, status, hget⟩, hrest⟩ := h
    have hend := hrest.le
    have hbytes := framePages_bytes packet
    have hpos := framePages_pos packet
    refine ⟨⟨hshort, status, ?_⟩, ih hrest fun z h1 h2 => hmem z (by omega) h2⟩
    have hsame : bytesFrom s' (256 * x) (packet.length + 8) = bytesFrom s (256 * x) (packet.length + 8) := by
      unfold bytesFrom
      rw [hstart, hstop]
      exact Ring.get_congr fun z h1 h2 => hmem z h1 (by omega)
    rw [hsame, hget]
    unfold pageAt
    rw [hstart, hstop]

end Positions

/-! ## Receiving a frame -/

section Receive

variable {ne : Ether} {s : Card} {packet : List UInt8}

theorem ringHasSpace_iff (hs : Configured s) (pages : Nat) :
    ringHasSpace s pages = true ↔ pages < pageGap s s.curr.toNat s.bnry.toNat := by
  have hc := hs.curr
  have hb := hs.bnry
  unfold ringHasSpace
  have hcurr : ¬ (s.curr.toNat < s.pstart.toNat ∨ s.pstop.toNat ≤ s.curr.toNat) := by omega
  have hbnry : ¬ (s.bnry.toNat < s.pstart.toNat ∨ s.pstop.toNat ≤ s.bnry.toNat) := by omega
  simp only [ringStart_eq hs, ringStop_eq hs, if_neg hcurr, if_neg hbnry, decide_eq_true_iff]
  rfl

theorem nextPage_eq (hs : Configured s) {x k : Nat} (hx : pageAt s x = s.curr.toNat)
    (hk : k < s.pstop.toNat - s.pstart.toNat) : nextPage s s.curr.toNat k = UInt8.ofNat (pageAt s (x + k)) := by
  have hc := hs.curr
  have hstop := hs.stop
  have hstep := Ring.slot_step (o := s.pstart.toNat) x hk
  unfold nextPage
  rw [ringStart_eq hs, ringStop_eq hs, wrapPage_eq hc.1 hc.2 hk]
  congr 1
  unfold pageAt at hx ⊢
  rw [hstep, hx, show s.pstart.toNat + (s.pstop.toNat - s.pstart.toNat) = s.pstop.toNat by omega]

/-- The page count the code computes for a frame. -/
theorem pages_eq (hshort : Short packet) :
    let pages := (((packet.length + 4) % 65536 + 4) % 65536 + 255) / 256 % 256
    (if pages = 0 then 1 else pages) = framePages packet := by
  have hpos := framePages_pos packet
  unfold Short at hshort
  have h1 : (packet.length + 4) % 65536 = packet.length + 4 := Nat.mod_eq_of_lt (by omega)
  have h2 : (packet.length + 4 + 4) % 65536 = packet.length + 8 := Nat.mod_eq_of_lt (by omega)
  have h3 : framePages packet % 256 = framePages packet := Nat.mod_eq_of_lt (by unfold framePages; omega)
  unfold framePages at hpos h3 ⊢
  simp only [h1, h2, h3]
  rw [if_neg (by omega)]

theorem receive_rejected (ha : acceptPacket ne s packet = false) : receivePacket ne s packet = s := by
  simp [receivePacket, ha]

theorem receive_overflow (hs : Configured s) (hshort : Short packet) (ha : acceptPacket ne s packet = true)
    (hf : ¬ Fits s packet) : receivePacket ne s packet = { s with isr := s.isr ||| isrOvw } := by
  have hspace : ringHasSpace s (framePages packet) = false := by
    rw [Bool.eq_false_iff, Ne, ringHasSpace_iff hs]
    exact hf
  have hpages := pages_eq hshort
  simp only at hpages
  simp only [receivePacket, ha, Bool.not_true, Bool.false_eq_true, if_false, hpages, hspace, Bool.not_false, if_true]

theorem record_written (s : Card) (status : UInt8) (next : Nat) (packet : List UInt8) {off : Nat}
    (h : off + packet.length + 8 ≤ 65535) :
    ringWriteAll s off (record status next packet) =
      ringWriteAll (ringWriteAll (ringWriteAll s off
        [status, UInt8.ofNat next, UInt8.ofNat (packet.length + 4), UInt8.ofNat ((packet.length + 4) / 256)]) (off + 4) packet)
        (off + 4 + packet.length) [0, 0, 0, 0] := by
  rw [record, ringWriteAll_append _ _ _ (by simp only [List.length_cons, List.length_nil]; omega),
    ringWriteAll_append _ _ _ (by simp only [List.length_cons, List.length_nil]; omega)]
  rfl

theorem fits_lt (hs : Configured s) (hf : Fits s packet) : framePages packet < s.pstop.toNat - s.pstart.toNat := by
  have hc := hs.curr
  have hb := hs.bnry
  unfold Fits pageGap gap at hf
  split at hf <;> omega

theorem receive_stored (hs : Configured s) (hshort : Short packet) (ha : acceptPacket ne s packet = true)
    (hf : Fits s packet) {x : Nat} (hx : pageAt s x = s.curr.toNat) :
    ∃ status, receivePacket ne s packet =
      { s with
        mem := put (256 * s.pstart.toNat) (256 * (s.pstop.toNat - s.pstart.toNat))
          (record status (pageAt s (x + framePages packet)) packet) (256 * x) s.mem
        curr := UInt8.ofNat (pageAt s (x + framePages packet)), rsr := rsrPrx, isr := s.isr ||| isrPrx } := by
  have hc := hs.curr
  have hmem := hs.mem
  have hspace := (ringHasSpace_iff hs _).mpr hf
  have hpages := pages_eq hshort
  have hlt := fits_lt hs hf
  have hbytes := framePages_bytes packet
  have hnext := nextPage_eq hs hx hlt
  have hcurr : ¬ (s.curr < s.pstart ∨ s.pstop ≤ s.curr) := by
    simp only [UInt8.lt_iff_toNat_lt, UInt8.le_iff_toNat_le]
    omega
  have hfour : (256 * s.curr.toNat + 4) % 65536 = 256 * s.curr.toNat + 4 := Nat.mod_eq_of_lt (by omega)
  have hend : (256 * s.curr.toNat + 4 + packet.length) % 65536 = 256 * s.curr.toNat + 4 + packet.length :=
    Nat.mod_eq_of_lt (by omega)
  have hlen : (packet.length + 4) % 65536 = packet.length + 4 := Nat.mod_eq_of_lt (by omega)
  refine ⟨rsrPrx ||| (if ne.eq packet s.par then rsrPhy else 0), ?_⟩
  simp only at hpages
  simp only [receivePacket, ha, Bool.not_true, Bool.false_eq_true, if_false, hpages, hspace, hcurr, hnext]
  simp only [hfour, hend, hlen]
  -- header, frame and checksum are one record, from the offset of the current page in the ring on
  rw [← record_written s _ _ packet (by omega), show 256 * s.curr.toNat =
    256 * s.pstart.toNat + 256 * (s.curr.toNat - s.pstart.toNat) by omega, ringWriteAll_spec _ hs (by rw [record_length]; omega)]
  have hstart : (256 * (s.curr.toNat - s.pstart.toNat)) % (256 * (s.pstop.toNat - s.pstart.toNat)) =
      (256 * x) % (256 * (s.pstop.toNat - s.pstart.toNat)) := by
    rw [← hx, Nat.mul_mod_mul_left, Nat.mul_mod_mul_left]
    unfold pageAt slot
    rw [Nat.add_sub_cancel_left, Nat.mod_mod]
  rw [Ring.put_mod _ hstart]

end Receive

/-! ## The invariant -/

/-- The counters of boundary, read pointer and current page. -/
structure Inv (t : St) (B R C : Nat) : Prop where
  config : Configured t.card
  bnry : pageAt t.card B = t.card.bnry.toNat
  next : pageAt t.card R = t.next
  curr : pageAt t.card C = t.card.curr.toNat
  read : B ≤ R
  room : C < B + (t.card.pstop.toNat - t.card.pstart.toNat)
  queue : Queue t.card R t.unread C

/-- The ring of `s'` is the ring of `s`: its registers and its bytes. -/
structure SameRing (s s' : Card) : Prop where
  pstart : s'.pstart = s.pstart
  pstop : s'.pstop = s.pstop
  bnry : s'.bnry = s.bnry
  curr : s'.curr = s.curr
  mem : ∀ a, 256 * s.pstart.toNat ≤ a → a < 256 * s.pstop.toNat → s'.mem a = s.mem a

theorem SameRing.refl (s : Card) : SameRing s s := ⟨rfl, rfl, rfl, rfl, fun _ _ _ => rfl⟩

theorem SameRing.trans {s s' s'' : Card} (h : SameRing s s') (h' : SameRing s' s'') : SameRing s s'' where
  pstart := h'.pstart.trans h.pstart
  pstop := h'.pstop.trans h.pstop
  bnry := h'.bnry.trans h.bnry
  curr := h'.curr.trans h.curr
  mem a h1 h2 := (h'.mem a (by rw [h.pstart]; exact h1) (by rw [h.pstop]; exact h2)).trans (h.mem a h1 h2)

section Same

variable {s : Card}

theorem remoteDone_same (s : Card) : SameRing s (remoteDoneIfNeeded s) := by
  unfold remoteDoneIfNeeded
  split <;> exact ⟨rfl, rfl, rfl, rfl, fun _ _ _ => rfl⟩

theorem writeCr_same (s : Card) (value : UInt8) : SameRing s (writeCr s value) := by
  unfold writeCr
  constructor <;> simp only [remoteDoneIfNeeded, transmit, apply_ite Card.pstart, apply_ite Card.pstop, apply_ite Card.bnry,
    apply_ite Card.curr, apply_ite Card.mem, ite_self, implies_true]

theorem writeReg_same {reg : Nat} (hreg : ringRegister s reg = false) (value : UInt8) : SameRing s (writeReg s reg value) := by
  unfold ringRegister at hreg
  unfold writeReg
  by_cases h0 : reg % 16 = 0
  · simp only [h0, if_true]
    exact writeCr_same s value
  · simp only [h0, if_false]
    by_cases hpage : page s = 1
    · simp only [hpage, if_true] at hreg ⊢
      split
      · exact ⟨rfl, rfl, rfl, rfl, fun _ _ _ => rfl⟩
      · split
        · simp_all
        · exact ⟨rfl, rfl, rfl, rfl, fun _ _ _ => rfl⟩
    · simp only [hpage, if_false] at hreg ⊢
      split <;> first | exact ⟨rfl, rfl, rfl, rfl, fun _ _ _ => rfl⟩ | simp_all

theorem dataRead_same (size : Nat) (s : Card) : SameRing s (dataRead size s).2 := by
  induction size generalizing s with
  | zero => exact remoteDone_same s
  | succ size ih =>
    have hone : SameRing s (remoteNext s) := ⟨rfl, rfl, rfl, rfl, fun _ _ _ => rfl⟩
    exact hone.trans (ih (remoteNext s))

theorem dataWrite_same (value : List UInt8) (s : Card)
    (hout : ∀ i < value.length, (s.remoteAddr.toNat + i) % 65536 < 256 * s.pstart.toNat ∨
      256 * s.pstop.toNat ≤ (s.remoteAddr.toNat + i) % 65536) :
    SameRing s (dataWrite value s) := by
  induction value generalizing s with
  | nil => exact remoteDone_same s
  | cons b value ih =>
    have h0 := hout 0 (by simp)
    rw [Nat.add_zero, Nat.mod_eq_of_lt s.remoteAddr.toNat_lt] at h0
    have hone : SameRing s (remoteNext (memWrite s s.remoteAddr.toNat b)) := by
      unfold memWrite remoteNext
      split
      · refine ⟨rfl, rfl, rfl, rfl, fun a h1 h2 => ?_⟩
        exact Function.update_of_ne (by omega) _ _
      · exact ⟨rfl, rfl, rfl, rfl, fun _ _ _ => rfl⟩
    have hnext : (remoteNext (memWrite s s.remoteAddr.toNat b)).remoteAddr.toNat = (s.remoteAddr.toNat + 1) % 65536 := by
      unfold memWrite remoteNext
      split <;> simp
    refine hone.trans (ih _ fun i hi => ?_)
    have hi' := hout (i + 1) (by simp only [List.length_cons]; omega)
    rw [hnext, hone.pstart, hone.pstop, Nat.mod_add_mod,
      show s.remoteAddr.toNat + 1 + i = s.remoteAddr.toNat + (i + 1) by omega]
    exact hi'

end Same

variable {ne : Ether} {t u : St} {B R C : Nat}

theorem Configured.same {s s' : Card} (hs : Configured s) (h : SameRing s s') : Configured s' := by
  obtain ⟨h1, h2, h3, h4, h5⟩ := hs
  constructor <;> simp only [h.pstart, h.pstop, h.curr, h.bnry] <;> assumption

/-- The bytes of the ring have their cells in it. -/
theorem byteAt_bounds {s : Card} (hs : Configured s) (z : Nat) :
    256 * s.pstart.toNat ≤ byteAt s z ∧ byteAt s z < 256 * s.pstop.toNat := by
  have hstop := hs.stop
  have h := slot_lt (o := 256 * s.pstart.toNat) (n := 256 * (s.pstop.toNat - s.pstart.toNat)) (by omega) z
  exact ⟨le_slot z, by unfold byteAt; omega⟩

theorem Inv.same {card : Card} (hi : Inv t B R C) (h : SameRing t.card card) : Inv { t with card } B R C where
  config := hi.config.same h
  bnry := by simpa only [pageAt, h.pstart, h.pstop, h.bnry] using hi.bnry
  next := by simpa only [pageAt, h.pstart, h.pstop] using hi.next
  curr := by simpa only [pageAt, h.pstart, h.pstop, h.curr] using hi.curr
  read := hi.read
  room := by simpa only [h.pstart, h.pstop] using hi.room
  queue := by
    refine hi.queue.congr h.pstart h.pstop fun z _ _ => ?_
    have hz := byteAt_bounds hi.config z
    exact h.mem _ hz.1 hz.2

theorem Inv.order (hi : Inv t B R C) : B ≤ C := Nat.le_trans hi.read (Nat.le_of_add_right_le hi.queue.le)

/-- A frame that fits ends before the boundary comes round again. -/
theorem Inv.fits {packet : List UInt8} (hi : Inv t B R C) (hf : Fits t.card packet) :
    C + framePages packet < B + (t.card.pstop.toNat - t.card.pstart.toNat) := by
  have hstop := hi.config.stop
  have hc := hi.config.curr
  have hb := hi.config.bnry
  have hroom := hi.room
  have hgap := pageGap_pageAt hi.config hi.order hroom
  rw [hi.bnry, hi.curr] at hgap
  have hne : t.card.bnry.toNat ≠ t.card.curr.toNat := by
    intro heq
    unfold Fits pageGap gap at hf
    rw [heq, if_pos (Nat.le_refl _)] at hf
    omega
  have hround := Ring.gap_back (o := t.card.pstart.toNat) (n := t.card.pstop.toNat - t.card.pstart.toNat) hb.1 (by omega)
    hc.1 (by omega) hne
  rw [show t.card.pstart.toNat + (t.card.pstop.toNat - t.card.pstart.toNat) = t.card.pstop.toNat by omega] at hround
  unfold Fits at hf
  unfold pageGap at hf hgap
  omega

/-! ## One step -/

theorem Inv.receive {packet : List UInt8} (hi : Inv t B R C) (hshort : Short packet)
    (ha : acceptPacket ne t.card packet = true) (hf : Fits t.card packet) :
    Inv ⟨receivePacket ne t.card packet, t.next, t.unread ++ [packet]⟩ B R (C + framePages packet) := by
  obtain ⟨status, heq⟩ := receive_stored hi.config hshort ha hf hi.curr
  have hroom := hi.fits hf
  have hbytes := framePages_bytes packet
  have hpage := pageAt_bounds hi.config (C + framePages packet)
  have hmem := hi.config.mem
  have hcurr : (UInt8.ofNat (pageAt t.card (C + framePages packet))).toNat = pageAt t.card (C + framePages packet) := by
    rw [UInt8.toNat_ofNat']
    exact Nat.mod_eq_of_lt (by omega)
  have hlen : (record status (pageAt t.card (C + framePages packet)) packet).length ≤
      256 * (t.card.pstop.toNat - t.card.pstart.toNat) := by
    rw [record_length]
    have horder := hi.order
    omega
  rw [heq]
  refine ⟨⟨hi.config.start, hi.config.stop, hi.config.mem, ?_, hi.config.bnry⟩, hi.bnry, hi.next, hcurr.symm, hi.read, hroom, ?_⟩
  · simp only [hcurr]
    exact hpage
  · apply Queue.append
    · refine hi.queue.congr rfl rfl fun z h1 h2 => Ring.put_before _ _ _ h2 ?_
      have hread := hi.read
      rw [record_length]
      omega
    · refine ⟨hshort, status, ?_⟩
      have hget := Ring.get_put (o := 256 * t.card.pstart.toNat) _ (256 * C) t.card.mem hlen
      rw [record_length] at hget
      exact hget

theorem bytesFrom_getElem {s : Card} {x k i : Nat} (hi : i < k) : (bytesFrom s x k)[i]? = some (s.mem (byteAt s (x + i))) := by
  simp [bytesFrom, Ring.get, byteAt, hi]

/-- What the driver finds at the page of a stored frame. -/
theorem Stored.read {s : Card} {x : Nat} {packet : List UInt8} (h : Stored s x packet) :
    headerLength s (pageAt s x) = packet.length + 4 ∧ ringBytes s (pageAt s x) 4 packet.length = packet ∧
      link s (pageAt s x) = pageAt s (x + framePages packet) % 256 := by
  obtain ⟨hshort, status, hget⟩ := h
  unfold Short at hshort
  have hbyte : ∀ o < 4, some (s.mem (256 * pageAt s x + o)) =
      (record status (pageAt s (x + framePages packet)) packet)[o]? := by
    intro o ho
    rw [← byteAt_page s x (by omega), ← bytesFrom_getElem (k := packet.length + 8) (by omega), hget]
  have h1 := hbyte 1 (by omega)
  have h2 := hbyte 2 (by omega)
  have h3 := hbyte 3 (by omega)
  simp only [record, List.cons_append, List.getElem?_cons_succ, List.getElem?_cons_zero, Option.some.injEq] at h1 h2 h3
  refine ⟨?_, ?_, ?_⟩
  · rw [headerLength, h2, h3, word, UInt8.toNat_ofNat', UInt8.toNat_ofNat']
    have hhi : (packet.length + 4) / 256 < 256 := by omega
    rw [Nat.mod_eq_of_lt hhi]
    omega
  · rw [ringBytes_pageAt]
    unfold bytesFrom at hget
    rw [show packet.length + 8 = 4 + (packet.length + 4) by omega, Ring.get_append, Ring.get_append] at hget
    have hdata := (List.append_inj hget (by simp [Ring.get])).2
    exact (List.append_inj hdata (by simp [Ring.get])).1
  · rw [link, h1, UInt8.toNat_ofNat']

theorem link_stored {s : Card} (hs : Configured s) {x : Nat} {packet : List UInt8} (h : Stored s x packet) :
    link s (pageAt s x) = pageAt s (x + framePages packet) := by
  have hpage := pageAt_bounds hs (x + framePages packet)
  have hmem := hs.mem
  rw [h.read.2.2]
  exact Nat.mod_eq_of_lt (by omega)

/-- `k` links lead past the first `k` frames. -/
theorem Queue.readPast {s : Card} (hs : Configured s) {l : List (List UInt8)} {x y k : Nat} (h : Queue s x l y)
    (hk : k ≤ l.length) : ∃ z, x ≤ z ∧ Ne2000.readPast s k (pageAt s x) = pageAt s z ∧ Queue s z (l.drop k) y := by
  induction k generalizing x l with
  | zero => exact ⟨x, Nat.le_refl x, rfl, h⟩
  | succ k ih =>
    rcases l with _ | ⟨packet, l⟩
    · simp at hk
    · obtain ⟨z, hz, hread, hrest⟩ := ih h.2 (by simpa using hk)
      refine ⟨z, by omega, ?_, hrest⟩
      rw [Ne2000.readPast, link_stored hs h.1]
      exact hread

/-- The links from the first frame lead through all of them, to the current page. -/
theorem Queue.visit {s : Card} (hs : Configured s) {l : List (List UInt8)} {x y fuel : Nat} (h : Queue s x l y)
    (hcurr : pageAt s y = s.curr.toNat) (hroom : y < x + (s.pstop.toNat - s.pstart.toNat)) (hfuel : l.length < fuel) :
    Ne2000.visit s fuel (pageAt s x) = l.map fun packet => (packet.length + 4, packet) := by
  induction l generalizing x fuel with
  | nil =>
    cases h
    rcases fuel with _ | fuel
    · simp at hfuel
    · simp [Ne2000.visit, hcurr]
  | cons packet l ih =>
    have hpos := framePages_pos packet
    have hend := h.2.le
    obtain ⟨hlen, hbytes, -⟩ := h.1.read
    rcases fuel with _ | fuel
    · simp at hfuel
    · have hne : pageAt s x ≠ s.curr.toNat := by
        rw [← hcurr]
        exact Ring.slot_ne (by omega) hroom
      rw [Ne2000.visit, if_neg hne, hlen, Nat.add_sub_cancel, hbytes, link_stored hs h.1,
        ih h.2 (by omega) (by simpa using hfuel)]
      rfl

theorem Inv.advance {k : Nat} {bnry : UInt8} (hi : Inv t B R C) (hpage : page t.card ≠ 1) (hk : k ≤ t.unread.length)
    (hring : t.card.pstart.toNat ≤ bnry.toNat ∧ bnry.toNat < t.card.pstop.toNat)
    (hread : pageGap t.card t.card.bnry.toNat bnry.toNat ≤ pageGap t.card t.card.bnry.toNat (readPast t.card k t.next)) :
    ∃ B' R', Inv ⟨writeReg t.card 3 bnry, readPast t.card k t.next, t.unread.drop k⟩ B' R' C := by
  obtain ⟨z, hz, hpast, hqueue⟩ := hi.queue.readPast hi.config hk
  have hstop := hi.config.stop
  have hroom := hi.room
  have hzc := hqueue.le
  have hbz := hi.read
  rw [hi.next] at hpast
  have hgap := pageGap_pageAt hi.config (show B ≤ z by omega) (by omega)
  rw [hi.bnry, ← hpast] at hgap
  rw [hgap] at hread
  have hslot := slot_gap (o := t.card.pstart.toNat) (n := t.card.pstop.toNat - t.card.pstart.toNat) hi.bnry (by omega) hring.1
    (by omega)
  rw [show t.card.pstart.toNat + (t.card.pstop.toNat - t.card.pstart.toNat) = t.card.pstop.toNat by omega] at hslot
  have hwrite : writeReg t.card 3 bnry = { t.card with bnry } := by
    simp [writeReg, hpage]
  rw [hwrite]
  unfold pageGap at hread
  refine ⟨B + gap t.card.pstart.toNat t.card.pstop.toNat t.card.bnry.toNat bnry.toNat, z,
    ⟨hi.config.start, hstop, hi.config.mem, hi.config.curr, hring⟩, hslot, hpast.symm, hi.curr, by omega, ?_, ?_⟩
  · exact Nat.lt_of_lt_of_le hroom (by simp only; omega)
  · exact hqueue.congr rfl rfl fun _ _ _ => rfl

/-- Every step keeps the invariant. -/
theorem Inv.step (hi : Inv t B R C) (h : Step ne t u) : ∃ B' R' C', Inv u B' R' C' := by
  cases h with
  | receive packet hshort =>
    rcases Bool.eq_false_or_eq_true (acceptPacket ne t.card packet) with ha | ha
    · by_cases hf : Fits t.card packet
      · simp only [ha, hf, and_self, if_true]
        exact ⟨B, R, _, hi.receive hshort ha hf⟩
      · simp only [hf, and_false, if_false, receive_overflow hi.config hshort ha hf]
        exact ⟨B, R, C, hi.same ⟨rfl, rfl, rfl, rfl, fun _ _ _ => rfl⟩⟩
    · simp only [ha, Bool.false_eq_true, false_and, if_false, receive_rejected ha]
      exact ⟨B, R, C, hi⟩
  | advance k bnry hpage hk hring hread =>
    obtain ⟨B', R', hi'⟩ := hi.advance hpage hk hring hread
    exact ⟨B', R', C, hi'⟩
  | write reg value hreg => exact ⟨B, R, C, hi.same (writeReg_same hreg value)⟩
  | dataRead size => exact ⟨B, R, C, hi.same (dataRead_same size t.card)⟩
  | dataWrite value hout => exact ⟨B, R, C, hi.same (dataWrite_same value t.card hout)⟩

theorem inv_start {s : Card} (hs : Configured s) : ∃ B R C, Inv ⟨s, s.curr.toNat, []⟩ B R C := by
  have hstop := hs.stop
  have hb := hs.bnry
  have hc := hs.curr
  have hslot := Ring.slot_sub (o := s.pstart.toNat) (n := s.pstop.toNat - s.pstart.toNat) hb.1 (by omega)
  have hgap := slot_gap hslot (by omega) hc.1 (by omega)
  have hlt := Ring.gap_lt (o := s.pstart.toNat) (n := s.pstop.toNat - s.pstart.toNat) hb.1 (by omega) hc.1 (by omega)
  exact ⟨_, _, _, hs, hslot, hgap, hgap, by omega, Nat.add_lt_add_left hlt _, rfl⟩

theorem inv_run {s : Card} (hs : Configured s) (h : Run ne ⟨s, s.curr.toNat, []⟩ t) : ∃ B R C, Inv t B R C := by
  induction h with
  | init => exact inv_start hs
  | step _ hstep ih =>
    obtain ⟨B, R, C, hi⟩ := ih
    exact hi.step hstep

/-! ## Every run -/

/-- In every state reached, the links from the read pointer visit the unread frames in
    order, and a frame that arrives next leaves the pages from the boundary to the current
    page alone and, when it is accepted and does not fit, only sets the overflow bit. -/
theorem ring_sound (ne : Ether) {s : Card} (hs : Configured s) {t : St} (h : Run ne ⟨s, s.curr.toNat, []⟩ t) :
    visit t.card (t.card.pstop.toNat - t.card.pstart.toNat) t.next =
        t.unread.map (fun packet => (packet.length + 4, packet)) ∧
      ∀ packet, packet.length < 65000 →
        (∀ page o, t.card.pstart.toNat ≤ page → page < t.card.pstop.toNat → o < 256 →
          pageGap t.card t.card.bnry.toNat page < pageGap t.card t.card.bnry.toNat t.card.curr.toNat →
          (receivePacket ne t.card packet).mem (256 * page + o) = t.card.mem (256 * page + o)) ∧
        (acceptPacket ne t.card packet = true → ¬ Fits t.card packet →
          receivePacket ne t.card packet = { t.card with isr := t.card.isr ||| isrOvw }) := by
  obtain ⟨B, R, C, hi⟩ := inv_run hs h
  have hroom := hi.room
  have hread := hi.read
  have horder := hi.order
  have hlen := hi.queue.le
  refine ⟨?_, fun packet hshort => ⟨fun page o h1 h2 ho hgap => ?_, receive_overflow hi.config hshort⟩⟩
  · rw [← hi.next]
    exact hi.queue.visit hi.config hi.curr (by omega) (by omega)
  · rcases Bool.eq_false_or_eq_true (acceptPacket ne t.card packet) with ha | ha
    · by_cases hf : Fits t.card packet
      · obtain ⟨status, heq⟩ := receive_stored hi.config hshort ha hf hi.curr
        have hfits := hi.fits hf
        have hbytes := framePages_bytes packet
        have hstop := hi.config.stop
        have hb := hi.config.bnry
        -- the page is that of a position between the boundary and the current page
        have hall := pageGap_pageAt hi.config horder hroom
        rw [hi.bnry, hi.curr] at hall
        have hslot := slot_gap (o := t.card.pstart.toNat) (n := t.card.pstop.toNat - t.card.pstart.toNat) hi.bnry (by omega) h1
          (by omega)
        rw [show t.card.pstart.toNat + (t.card.pstop.toNat - t.card.pstart.toNat) = t.card.pstop.toNat by omega] at hslot
        have hbyte := byteAt_page t.card (B + pageGap t.card t.card.bnry.toNat page) ho
        rw [show pageAt t.card (B + pageGap t.card t.card.bnry.toNat page) = page from hslot] at hbyte
        rw [heq, ← hbyte]
        apply Ring.put_before
        · omega
        · rw [record_length]
          omega
      · rw [receive_overflow hi.config hshort ha hf]
    · rw [receive_rejected ha]

/-- The tests on a destination address as Ethernet has them. -/
def ethernet : Ether where
  eq a b := a.take 6 == b.take 6
  broadcast a := (a.take 6).all (· == 0xFF)
  multicast a := a.getD 0 0 &&& 1 != 0

/-- The card after a reset and the driver's start command, promiscuous. -/
def started : Card :=
  writeReg (writeReg
    (reset ⟨fun _ => 0, [2, 0, 0, 0, 0, 1], [], 0, 0, 0, 0, 0, 0, 0, 0, 0, 0, 0, 0, 0, 0, 0, 0, 0, 0, 0, 0, 0, 0, []⟩)
    12 rcrPro) 0 (crSta ||| crRd2)

/-- It, with a ring of five pages. -/
def fivePages : Card := writeReg started 2 0x45

/-- A frame of `n` bytes. -/
def frame (n : Nat) (b : UInt8) : List UInt8 := List.replicate n b

theorem frame_short {n : Nat} (h : n < 65000) (b : UInt8) : Short (frame n b) := by
  rw [Short, frame, List.length_replicate]
  exact h

theorem received_step {s u : Card} {next : Nat} {unread : List (List UInt8)} {packet : List UInt8} (hshort : Short packet)
    (ha : acceptPacket ne s packet = true) (hf : Fits s packet) (hu : receivePacket ne s packet = u) :
    Step ne ⟨s, next, unread⟩ ⟨u, next, unread ++ [packet]⟩ := by
  have hstep : Step ne ⟨s, next, unread⟩ _ := Step.receive packet hshort
  rwa [if_pos ⟨ha, hf⟩, hu] at hstep

theorem read_step {s u : Card} {next next' : Nat} {unread : List (List UInt8)} (k : Nat) (bnry : UInt8) (hpage : page s ≠ 1)
    (hk : k ≤ unread.length) (hring : s.pstart.toNat ≤ bnry.toNat ∧ bnry.toNat < s.pstop.toNat)
    (hread : pageGap s s.bnry.toNat bnry.toNat ≤ pageGap s s.bnry.toNat next') (hnext : readPast s k next = next')
    (hu : writeReg s 3 bnry = u) : Step ne ⟨s, next, unread⟩ ⟨u, next', unread.drop k⟩ := by
  subst hnext hu
  exact Step.advance k bnry hpage hk hring hread

def firstIn : Card := receivePacket ethernet fivePages (frame 14 1)

def secondIn : Card := receivePacket ethernet firstIn (frame 14 2)

/-- Three frames of a page each: the ring is full but for its last page. -/
def filled : Card := receivePacket ethernet secondIn (frame 14 3)

/-- The first two are read, -/
def emptied : Card := writeReg filled 3 0x42

/-- and a frame of two pages comes, in the last page and the first. -/
def wrapped : Card := receivePacket ethernet emptied (frame 300 4)

theorem filled_run : Run ethernet ⟨fivePages, 0x41, []⟩ ⟨filled, 0x41, [frame 14 1, frame 14 2, frame 14 3]⟩ := by
  have hkeeps : (acceptPacket ethernet fivePages (frame 14 1) = true ∧ Fits fivePages (frame 14 1)) ∧
      (acceptPacket ethernet firstIn (frame 14 2) = true ∧ Fits firstIn (frame 14 2)) ∧
      acceptPacket ethernet secondIn (frame 14 3) = true ∧ Fits secondIn (frame 14 3) := by decide +kernel
  obtain ⟨hfirst, hsecond, hthird⟩ := hkeeps
  have hfirstIn : Run ethernet ⟨fivePages, 0x41, []⟩ ⟨firstIn, 0x41, [frame 14 1]⟩ :=
    Run.init.step (received_step (frame_short (by decide) 1) hfirst.1 hfirst.2 rfl)
  have hsecondIn : Run ethernet ⟨fivePages, 0x41, []⟩ ⟨secondIn, 0x41, [frame 14 1, frame 14 2]⟩ :=
    hfirstIn.step (received_step (frame_short (by decide) 2) hsecond.1 hsecond.2 rfl)
  exact hsecondIn.step (received_step (frame_short (by decide) 3) hthird.1 hthird.2 rfl)

theorem wrapped_run : wrapped.curr = 0x41 ∧ Run ethernet ⟨fivePages, 0x41, []⟩ ⟨wrapped, 0x43, [frame 14 3, frame 300 4]⟩ := by
  have hreads : page filled ≠ 1 ∧ (filled.pstart.toNat ≤ (0x42 : UInt8).toNat ∧ (0x42 : UInt8).toNat < filled.pstop.toNat) ∧
      pageGap filled filled.bnry.toNat (0x42 : UInt8).toNat ≤ pageGap filled filled.bnry.toNat 0x43 ∧
      readPast filled 2 0x41 = 0x43 := by decide +kernel
  have hkeeps : acceptPacket ethernet emptied (frame 300 4) = true ∧ Fits emptied (frame 300 4) ∧ wrapped.curr = 0x41 := by
    decide +kernel
  obtain ⟨hpage, hring, hread, hnext⟩ := hreads
  obtain ⟨htaken, hfits, hcurr⟩ := hkeeps
  have hemptied : Run ethernet ⟨fivePages, 0x41, []⟩ ⟨emptied, 0x43, [frame 14 3]⟩ :=
    filled_run.step (read_step 2 0x42 hpage (Nat.le_succ 2) hring hread hnext rfl)
  exact ⟨hcurr, hemptied.step (received_step (frame_short (by decide) 4) htaken hfits rfl)⟩

/-- The links lead from the last page round to the first ones. -/
theorem wrapped_visit : wrapped.curr = 0x41 ∧
    visit wrapped (wrapped.pstop.toNat - wrapped.pstart.toNat) 0x43 = [(18, frame 14 3), (304, frame 300 4)] := by
  have hs : Configured fivePages := ⟨by decide, by decide, by decide, by decide, by decide⟩
  have hvisit : ∀ {t next unread}, Run ethernet ⟨fivePages, 0x41, []⟩ ⟨t, next, unread⟩ →
      visit t (t.pstop.toNat - t.pstart.toNat) next = unread.map (fun packet => (packet.length + 4, packet)) :=
    fun h => (ring_sound ethernet hs h).1
  have hlen : ∀ n b, (frame n b).length + 4 = n + 4 := fun n b => by rw [frame, List.length_replicate]
  refine ⟨wrapped_run.1, ?_⟩
  rw [hvisit wrapped_run.2, List.map_cons, List.map_cons, List.map_nil, hlen, hlen]

end Be300.Cf.Ne2000
