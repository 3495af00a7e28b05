/-
  Be300.Xi825.Events — buffers and event queues of the XI-825 over whole runs.

  The numbers in use are those on the two queues and those that ALLOC gave to the host and
  no TX command took back: `Pool` says so, that they are distinct, and that the next number
  is free. `Events` ties the event bits and the two head registers to the queues. An
  operation is described by what it does to the queues, the numbers in use and the event
  registers (`Effect`), and every step keeps `Inv`.
-/

import Be300.Xi825.Card
import Mathlib.Data.List.Nodup
import Mathlib.Data.List.Perm.Subperm

namespace Be300.Xi825

open Lib

/-! ## Bits of the event register -/

theorem bit_or (a b e : UInt16) : (a ||| b) &&& e ≠ 0 ↔ a &&& e ≠ 0 ∨ b &&& e ≠ 0 := by
  have hsplit : (a ||| b) &&& e = (a &&& e) ||| (b &&& e) := by
    apply UInt16.eq_of_toBitVec_eq
    simp only [UInt16.toBitVec_and, UInt16.toBitVec_or]
    exact BitVec.and_or_distrib_right
  rw [hsplit, Ne, UInt16.or_eq_zero_iff, not_and_or]

/-- The bits of `ev` are not those of another event. -/
theorem bit_other {ev e : UInt16} (he : ev &&& e = 0) (x : UInt16) : (x ||| ev) &&& e = x &&& e := by
  apply UInt16.eq_of_toBitVec_eq
  have hzero : ev.toBitVec &&& e.toBitVec = 0#16 := congrArg UInt16.toBitVec he
  simp only [UInt16.toBitVec_and, UInt16.toBitVec_or, BitVec.and_or_distrib_right, hzero, BitVec.or_zero]

/-- A mask of one bit. -/
def IsBit (e : UInt16) : Prop := ∀ x : UInt16, x &&& e = 0 ∨ x &&& e = e

theorem isBit_shift (i : Nat) {e : UInt16} (he : e.toBitVec = BitVec.twoPow 16 i) : IsBit e := by
  intro x
  have hand := BitVec.and_twoPow x.toBitVec i
  rw [← he] at hand
  rcases Bool.eq_false_or_eq_true (x.toBitVec.getLsbD i) with hx | hx
  · right
    apply UInt16.eq_of_toBitVec_eq
    simpa [hx] using hand
  · left
    apply UInt16.eq_of_toBitVec_eq
    simpa [hx] using hand

theorem isBit_info : IsBit evInfo := isBit_shift 7 (by decide)
theorem isBit_rx : IsBit evRx := isBit_shift 0 (by decide)

theorem bit_clear {e : UInt16} (he : IsBit e) (a v : UInt16) :
    (a &&& ~~~v) &&& e ≠ 0 ↔ a &&& e ≠ 0 ∧ v &&& e = 0 := by
  rw [UInt16.and_assoc]
  rcases he v with hv | hv
  · have hnot : ~~~v &&& e = e := by
      have hall : (v ||| ~~~v) &&& e = e := by rw [UInt16.or_not_self, UInt16.neg_one_and]
      have hsplit : (v ||| ~~~v) &&& e = (v &&& e) ||| (~~~v &&& e) := by
        apply UInt16.eq_of_toBitVec_eq
        simp only [UInt16.toBitVec_and, UInt16.toBitVec_or]
        exact BitVec.and_or_distrib_right
      rw [hsplit, hv, UInt16.zero_or] at hall
      exact hall
    rw [hnot]
    simp [hv]
  · have hnot : ~~~v &&& e = 0 := by
      rw [← hv, ← UInt16.and_assoc, UInt16.not_and_self, UInt16.zero_and]
    rw [hnot, UInt16.and_zero]
    constructor
    · exact fun h => absurd rfl h
    · rintro ⟨ha, hz⟩
      rw [hz] at hv
      rw [← hv, UInt16.and_zero] at ha
      exact absurd rfl ha

/-! ## The numbers in use -/

def fids (s : Card) : List Nat := Slots.keys bufferKey s.buffers

structure Pool (s : Card) (owned : List Nat) : Prop where
  slots : s.buffers.length = bufferCount
  used : (fids s).Perm owned
  distinct : owned.Nodup
  low : ∀ id ∈ s.nextFid :: owned, 0x100 ≤ id ∧ id < 0x8100
  next : s.nextFid ∉ owned

section Pool

variable {s s' : Card} {owned : List Nat} {l : List Buffer}

theorem skipUsed_spec (l : List Buffer) (fuel fid : Nat) (hfid : fid + fuel < 65536) :
    fid ≤ skipUsed l fuel fid ∧ skipUsed l fuel fid ≤ fid + fuel ∧
      (skipUsed l fuel fid ∉ Slots.keys bufferKey l ∨ ∀ i < fuel, fid + i ∈ Slots.keys bufferKey l) := by
  induction fuel generalizing fid with
  | zero => exact ⟨Nat.le_refl _, Nat.le_refl _, Or.inr fun i hi => absurd hi (Nat.not_lt_zero i)⟩
  | succ fuel ih =>
    rw [skipUsed]
    by_cases hused : (buffer l fid).isSome
    · rw [if_pos hused, Nat.mod_eq_of_lt (by omega)]
      obtain ⟨hle, hlt, hfree⟩ := ih (fid + 1) (by omega)
      refine ⟨by omega, by omega, hfree.imp_right fun hall i hi => ?_⟩
      rcases i with _ | i
      · exact Slots.lookup_isSome.mp hused
      · rw [show fid + (i + 1) = fid + 1 + i by omega]
        exact hall i (by omega)
    · rw [if_neg hused]
      exact ⟨Nat.le_refl _, by omega, Or.inl fun hin => hused (Slots.lookup_isSome.mpr hin)⟩

/-- Twenty-five numbers in a row are not all in use. -/
theorem skipUsed_free (hlen : l.length = bufferCount) (fid : Nat) (hfid : fid + 25 < 65536) :
    skipUsed l (bufferCount + 1) fid ∉ Slots.keys bufferKey l := by
  rcases (skipUsed_spec l (bufferCount + 1) fid hfid).2.2 with hfree | hall
  · exact hfree
  · have hsub : (List.range (bufferCount + 1)).map (fid + ·) ⊆ Slots.keys bufferKey l := by
      intro x hx
      obtain ⟨i, hi, rfl⟩ := List.mem_map.mp hx
      exact hall i (List.mem_range.mp hi)
    have hnodup : ((List.range (bufferCount + 1)).map (fid + ·)).Nodup :=
      List.Nodup.map (fun a b hab => Nat.add_left_cancel hab) List.nodup_range
    have hcount := hnodup.subperm hsub |>.length_le
    have hkeys : (Slots.keys bufferKey l).length ≤ l.length := List.length_filterMap_le _ _
    rw [List.length_map, List.length_range] at hcount
    omega

theorem followingFid_spec (hlen : l.length = bufferCount) {fid : Nat} (hlow : 0x100 ≤ fid ∧ fid < 0x8100) :
    (0x100 ≤ followingFid l fid ∧ followingFid l fid < 0x8100) ∧ followingFid l fid ∉ Slots.keys bufferKey l := by
  unfold followingFid
  rw [Nat.mod_eq_of_lt (by omega)]
  simp only
  split
  · have hskip := skipUsed_spec l (bufferCount + 1) 0x100 (by decide)
    have hfree := skipUsed_free hlen 0x100 (by decide)
    unfold bufferCount at hskip hfree ⊢
    exact ⟨by omega, hfree⟩
  · have hskip := skipUsed_spec l (bufferCount + 1) (fid + 1) (by unfold bufferCount; omega)
    have hfree := skipUsed_free hlen (fid + 1) (by omega)
    unfold bufferCount at hskip hfree ⊢
    exact ⟨by omega, hfree⟩

/-- What an allocation changes. -/
theorem allocate_eq {length id : Nat} {data : Nat → UInt8} (h : allocate s length data = some (s', id)) :
    id = s.nextFid ∧ ∃ b buffers, b.used = true ∧ b.id = s.nextFid ∧ b.length = length ∧ b.data = data ∧
      Slots.place (fun b => !b.used) b s.buffers = some buffers ∧
      s' = { s with buffers, nextFid := followingFid buffers s.nextFid } := by
  unfold allocate at h
  split at h
  · cases h
  · simp only at h
    split at h
    · cases h
    · rename_i buffers hplace
      cases h
      exact ⟨rfl, _, _, rfl, rfl, rfl, rfl, hplace, rfl⟩

theorem free_key (b : Buffer) (h : (!b.used) = true) : bufferKey b = none := by
  unfold bufferKey
  rw [if_neg (by simpa using h)]

theorem Pool.allocate (h : Pool s owned) {length id : Nat} {data : Nat → UInt8}
    (ha : Xi825.allocate s length data = some (s', id)) : Pool s' (id :: owned) := by
  obtain ⟨rfl, b, buffers, hused, hid, -, -, hplace, rfl⟩ := allocate_eq ha
  have hkey : bufferKey b = some s.nextFid := by rw [bufferKey, if_pos hused, hid]
  have hkeys := Slots.keys_place hplace hkey fun c _ hc => free_key c hc
  have hlen : buffers.length = bufferCount := (Slots.place_length hplace).trans h.slots
  have hnext := followingFid_spec hlen (h.low s.nextFid (by simp))
  have hperm : (Slots.keys bufferKey buffers).Perm (s.nextFid :: owned) := hkeys.trans (h.used.cons _)
  refine ⟨hlen, hperm, List.nodup_cons.mpr ⟨h.next, h.distinct⟩, ?_, ?_⟩
  · intro id hin
    rcases List.mem_cons.mp hin with heq | hin
    · rw [heq]
      exact hnext.1
    · exact h.low id hin
  · exact fun hin => hnext.2 (hperm.mem_iff.mpr hin)

theorem release_key (k : Nat) (b : Buffer) (_ : bufferKey b = some k) :
    bufferKey { b with used := false } = none := rfl

theorem Pool.release (h : Pool s owned) (id : Nat) : Pool (release s id) (owned.erase id) := by
  have hkeys : fids (Xi825.release s id) = (fids s).erase id := Slots.keys_remove (release_key id)
  refine ⟨?_, ?_, h.distinct.erase id, ?_, fun hin => h.next (List.mem_of_mem_erase hin)⟩
  · exact Slots.length_modify.trans h.slots
  · rw [hkeys]
    exact h.used.erase id
  · intro x hx
    rcases List.mem_cons.mp hx with rfl | hx
    · exact h.low _ (by simp [Xi825.release])
    · exact h.low x (by simp [List.mem_of_mem_erase hx])

/-- The pool only sees the buffers and the next number. -/
theorem Pool.congr (h : Pool s owned) {owned' : List Nat} (hlen : s'.buffers.length = s.buffers.length)
    (hfids : fids s' = fids s) (hnext : s'.nextFid = s.nextFid) (hperm : owned.Perm owned') : Pool s' owned' := by
  refine ⟨hlen.trans h.slots, ?_, hperm.nodup_iff.mp h.distinct, ?_, ?_⟩
  · rw [hfids]
    exact h.used.trans hperm
  · rw [hnext]
    intro id hin
    refine h.low id ?_
    rcases List.mem_cons.mp hin with heq | hin
    · exact List.mem_cons.mpr (Or.inl heq)
    · exact List.mem_cons.mpr (Or.inr (hperm.mem_iff.mpr hin))
  · rw [hnext]
    exact fun hin => h.next (hperm.mem_iff.mpr hin)

end Pool

/-! ## The queues and their registers -/

structure Shown (s : Card) (q : Fifo Nat) (ev : UInt16) (reg : Nat) : Prop where
  fits : q.Fits 8
  bit : s.regs regEvstat &&& ev ≠ 0 ↔ q.count ≠ 0
  head : q.count ≠ 0 → (s.regs reg).toNat = q.front

def infoFids (s : Card) : List Nat := s.infoQueue.contents 8
def rxFids (s : Card) : List Nat := s.rxQueue.contents 8

/-- Record numbers are no buffer numbers. -/
def RecordIds (l : List Record) : Prop := ∀ r ∈ l, r.id = 0 ∨ 0x8100 ≤ r.id

/-- `host` are the numbers that ALLOC gave out and that no TX command took back. -/
structure Inv (s : Card) (host : List Nat) : Prop where
  pool : Pool s (infoFids s ++ rxFids s ++ host)
  info : Shown s s.infoQueue evInfo regInfofid
  rx : Shown s s.rxQueue evRx regRxfid
  records : RecordIds s.records

/-- A change that the buffers and the events do not see. -/
structure Quiet (s s' : Card) : Prop where
  slots : s'.buffers.length = s.buffers.length
  fids : fids s' = fids s
  next : s'.nextFid = s.nextFid
  infoQueue : s'.infoQueue = s.infoQueue
  rxQueue : s'.rxQueue = s.rxQueue
  infoBit : s'.regs regEvstat &&& evInfo = s.regs regEvstat &&& evInfo
  rxBit : s'.regs regEvstat &&& evRx = s.regs regEvstat &&& evRx
  infofid : s'.regs regInfofid = s.regs regInfofid
  rxfid : s'.regs regRxfid = s.regs regRxfid
  records : RecordIds s.records → RecordIds s'.records

section Quiet

variable {s s' s'' : Card} {host : List Nat}

theorem Quiet.refl (s : Card) : Quiet s s := ⟨rfl, rfl, rfl, rfl, rfl, rfl, rfl, rfl, rfl, id⟩

theorem Quiet.trans (h : Quiet s s') (h' : Quiet s' s'') : Quiet s s'' where
  slots := h'.slots.trans h.slots
  fids := h'.fids.trans h.fids
  next := h'.next.trans h.next
  infoQueue := h'.infoQueue.trans h.infoQueue
  rxQueue := h'.rxQueue.trans h.rxQueue
  infoBit := h'.infoBit.trans h.infoBit
  rxBit := h'.rxBit.trans h.rxBit
  infofid := h'.infofid.trans h.infofid
  rxfid := h'.rxfid.trans h.rxfid
  records := h'.records ∘ h.records

theorem Quiet.setReg (s : Card) {reg : Nat} (v : UInt16) (hstat : reg ≠ regEvstat) (hinfo : reg ≠ regInfofid)
    (hrx : reg ≠ regRxfid) : Quiet s (setReg s reg v) := by
  have hother : ∀ r, reg ≠ r → (Xi825.setReg s reg v).regs r = s.regs r := fun r hr => if_neg (Ne.symm hr)
  refine ⟨rfl, rfl, rfl, rfl, rfl, ?_, ?_, hother _ hinfo, hother _ hrx, id⟩
  · rw [hother _ hstat]
  · rw [hother _ hstat]

theorem Quiet.raise (s : Card) {ev : UInt16} (hinfo : ev &&& evInfo = 0) (hrx : ev &&& evRx = 0) : Quiet s (raise s ev) := by
  exact ⟨rfl, rfl, rfl, rfl, rfl, bit_other hinfo _, bit_other hrx _, rfl, rfl, id⟩

theorem Shown.congr {q : Fifo Nat} {ev : UInt16} {reg : Nat} (h : Shown s q ev reg)
    (hbit : s'.regs regEvstat &&& ev = s.regs regEvstat &&& ev) (hreg : s'.regs reg = s.regs reg) : Shown s' q ev reg := by
  refine ⟨h.fits, ?_, ?_⟩
  · rw [hbit]
    exact h.bit
  · rw [hreg]
    exact h.head

theorem Inv.quiet (h : Inv s host) (hq : Quiet s s') : Inv s' host where
  pool := by
    unfold infoFids rxFids
    rw [hq.infoQueue, hq.rxQueue]
    exact h.pool.congr hq.slots hq.fids hq.next (List.Perm.refl _)
  info := by
    rw [hq.infoQueue]
    exact h.info.congr hq.infoBit hq.infofid
  rx := by
    rw [hq.rxQueue]
    exact h.rx.congr hq.rxBit hq.rxfid
  records := hq.records h.records

end Quiet

/-! ## Pushing and popping -/

section Queues

variable {s s' : Card} {host : List Nat}

/-- A number pushed on a queue that shows its head. -/
theorem Shown.push {q : Fifo Nat} {ev : UInt16} {reg id : Nat} (h : Shown s q ev reg) (hroom : q.count < 8) (hid : id < 65536)
    (hev : ev ≠ 0) (hstat : s'.regs regEvstat = s.regs regEvstat ||| ev)
    (hreg : s'.regs reg = UInt16.ofNat (q.push 8 id).front) (hmem : ∀ x ∈ q.contents 8, x < 65536) :
    Shown s' (q.push 8 id) ev reg := by
  have hcount : (q.push 8 id).count ≠ 0 := Nat.succ_ne_zero _
  refine ⟨Fifo.fits_push h.fits hroom id, ?_, ?_⟩
  · rw [hstat, bit_or, UInt16.and_self]
    exact ⟨fun _ => hcount, fun _ => Or.inr hev⟩
  · intro _
    have hfront : (q.push 8 id).front ∈ q.contents 8 ++ [id] := by
      rw [← Fifo.contents_push hroom, Fifo.contents_pop (Fifo.fits_push h.fits hroom id) (by decide) hcount]
      exact List.mem_cons_self
    rw [hreg, UInt16.toNat_ofNat']
    apply Nat.mod_eq_of_lt
    rcases List.mem_append.mp hfront with hin | hin
    · exact hmem _ hin
    · rw [List.mem_singleton.mp hin]
      exact hid

theorem Inv.low (h : Inv s host) {id : Nat} (hid : id ∈ infoFids s ++ rxFids s ++ host) : id < 65536 := by
  have hlow := h.pool.low id (List.mem_cons_of_mem _ hid)
  omega

theorem Inv.nextFid_lt (h : Inv s host) : s.nextFid < 65536 := by
  have hlow := h.pool.low s.nextFid List.mem_cons_self
  omega

theorem Inv.info_pushed (h : Inv s host) (type : Nat) (data : List UInt8) :
    Inv (Xi825.info s type data).1 host ∧ rxFids (Xi825.info s type data).1 = rxFids s ∧
      ∃ new, infoFids (Xi825.info s type data).1 = infoFids s ++ new := by
  have hquiet : Quiet s (raise s evInfdrop) := Quiet.raise s (by decide) (by decide)
  have hdropped : Inv (raise s evInfdrop) host ∧ rxFids (raise s evInfdrop) = rxFids s ∧
      ∃ new, infoFids (raise s evInfdrop) = infoFids s ++ new := ⟨h.quiet hquiet, rfl, [], (List.append_nil _).symm⟩
  unfold Xi825.info
  split
  · exact hdropped
  · rename_i hroom
    split
    · exact hdropped
    · rename_i u id halloc
      have hpool := h.pool.allocate halloc
      have hid : id < 65536 := by
        rw [(allocate_eq halloc).1]
        exact h.nextFid_lt
      obtain ⟨-, b, buffers, -, -, -, -, -, rfl⟩ := allocate_eq halloc
      have hcount := h.info.fits.count
      have hcontents : (s.infoQueue.push 8 id).contents 8 = infoFids s ++ [id] := Fifo.contents_push (by omega) id
      refine ⟨⟨?_, ?_, ?_, h.records⟩, rfl, [id], hcontents⟩
      · refine hpool.congr rfl rfl rfl ?_
        simp only [infoFids, rxFids] at hcontents ⊢
        show (id :: (s.infoQueue.contents 8 ++ s.rxQueue.contents 8 ++ host)).Perm
          ((s.infoQueue.push 8 id).contents 8 ++ s.rxQueue.contents 8 ++ host)
        rw [hcontents]
        simp only [List.append_assoc, List.singleton_append]
        exact List.perm_middle.symm
      · exact h.info.push (by omega) hid (by decide) rfl rfl fun x hx =>
          h.low (List.mem_append_left _ (List.mem_append_left _ hx))
      · exact h.rx.congr (bit_other (by decide) _) rfl

theorem Inv.receive (h : Inv s host) (eth : List UInt8) :
    Inv (Xi825.receive s eth).1 host ∧ infoFids (Xi825.receive s eth).1 = infoFids s ∧
      ∃ new, rxFids (Xi825.receive s eth).1 = rxFids s ++ new := by
  have hsame : Inv s host ∧ infoFids s = infoFids s ∧ ∃ new, rxFids s = rxFids s ++ new :=
    ⟨h, rfl, [], (List.append_nil _).symm⟩
  unfold Xi825.receive
  split
  · exact hsame
  · rename_i haccept
    split
    · exact hsame
    · split
      · exact hsame
      · rename_i u id halloc
        have hpool := h.pool.allocate halloc
        have hid : id < 65536 := by
          rw [(allocate_eq halloc).1]
          exact h.nextFid_lt
        obtain ⟨-, b, buffers, -, -, -, -, -, rfl⟩ := allocate_eq halloc
        have hcount := h.rx.fits.count
        have hroom : s.rxQueue.count < 8 := by
          simp only [Bool.or_eq_true, not_or, beq_iff_eq] at haccept
          omega
        have hcontents : (s.rxQueue.push 8 id).contents 8 = rxFids s ++ [id] := Fifo.contents_push hroom id
        refine ⟨⟨?_, ?_, ?_, h.records⟩, rfl, [id], hcontents⟩
        · refine hpool.congr rfl rfl rfl ?_
          simp only [infoFids, rxFids] at hcontents ⊢
          show (id :: (s.infoQueue.contents 8 ++ s.rxQueue.contents 8 ++ host)).Perm
            (s.infoQueue.contents 8 ++ (s.rxQueue.push 8 id).contents 8 ++ host)
          rw [hcontents]
          simp only [List.append_assoc, List.singleton_append]
          exact List.perm_middle.symm.trans (List.perm_middle.symm.append_left _)
        · exact h.info.congr (bit_other (by decide) _) rfl
        · exact h.rx.push hroom hid (by decide) rfl rfl fun x hx =>
            h.low (List.mem_append_left _ (List.mem_append_right _ hx))

/-- The numbers that an acknowledgement takes off a queue. -/
def gone (value ev : UInt16) (q : List Nat) : List Nat := if value &&& ev ≠ 0 then q.take 1 else []

/-- A queue whose bit the acknowledgement has already cleared. -/
structure Cleared (s : Card) (q : Fifo Nat) (ev value : UInt16) : Prop where
  fits : q.Fits 8
  bit : s.regs regEvstat &&& ev ≠ 0 ↔ q.count ≠ 0 ∧ value &&& ev = 0

/-- The queue after the acknowledgement. -/
def popped (q : Fifo Nat) (ev value : UInt16) : Fifo Nat := if value &&& ev ≠ 0 ∧ q.count ≠ 0 then q.pop 8 else q

theorem contents_popped {q : Fifo Nat} (hfits : q.Fits 8) (ev value : UInt16) :
    q.contents 8 = gone value ev (q.contents 8) ++ (popped q ev value).contents 8 := by
  unfold popped gone
  by_cases hcount : q.count = 0
  · have hnil : q.contents 8 = [] := Fifo.contents_eq_nil.mpr hcount
    simp [hcount, hnil]
  · by_cases hv : value &&& ev ≠ 0
    · rw [if_pos hv, if_pos ⟨hv, hcount⟩, Fifo.contents_pop hfits (by decide) hcount]
      simp only [List.take_succ_cons, List.take_zero, List.singleton_append]
    · rw [if_neg hv, if_neg (fun h => hv h.1), List.nil_append]

theorem Cleared.popped {q : Fifo Nat} {ev value : UInt16} {reg : Nat} (h : Cleared s q ev value) (hev : ev ≠ 0)
    (hmem : ∀ x ∈ q.contents 8, x < 65536)
    (hstat : s'.regs regEvstat = if (popped q ev value).count ≠ 0 then s.regs regEvstat ||| ev else s.regs regEvstat)
    (hreg : (popped q ev value).count ≠ 0 → s'.regs reg = UInt16.ofNat (popped q ev value).front) :
    Shown s' (popped q ev value) ev reg := by
  have hfits : (Xi825.popped q ev value).Fits 8 := by
    unfold Xi825.popped
    split
    · rename_i hpop
      exact Fifo.fits_pop h.fits (by decide) hpop.2
    · exact h.fits
  refine ⟨hfits, ?_, fun hcount => ?_⟩
  · rw [hstat]
    by_cases hcount : (Xi825.popped q ev value).count ≠ 0
    · rw [if_pos hcount, bit_or, UInt16.and_self]
      exact ⟨fun _ => hcount, fun _ => Or.inr hev⟩
    · rw [if_neg hcount, h.bit]
      constructor
      · -- a queue that is left alone keeps its count
        rintro ⟨hold, hv⟩
        rw [Xi825.popped, if_neg (fun hpop => hpop.1 hv)] at hcount
        exact absurd hold hcount
      · exact fun hnew => absurd hnew hcount
  · have hfront : (Xi825.popped q ev value).front ∈ q.contents 8 := by
      rw [contents_popped h.fits ev value, Fifo.contents_pop hfits (by decide) hcount]
      simp
    rw [hreg hcount, UInt16.toNat_ofNat']
    exact Nat.mod_eq_of_lt (hmem _ hfront)

/-- The number taken off is released. -/
theorem Pool.popped {q : Fifo Nat} {A B : List Nat} (hfits : q.Fits 8) (h : Pool s (A ++ (q.contents 8 ++ B)))
    (ev value : UInt16) :
    Pool (if value &&& ev ≠ 0 ∧ q.count ≠ 0 then Xi825.release s q.front else s)
      (A ++ ((popped q ev value).contents 8 ++ B)) := by
  unfold Xi825.popped
  split
  · rename_i hpop
    have hrelease := h.release q.front
    have hdistinct := h.distinct
    rw [Fifo.contents_pop hfits (by decide) hpop.2, List.cons_append] at hrelease hdistinct
    have hnot : q.front ∉ A := by
      intro hin
      exact (List.nodup_append.mp hdistinct).2.2 _ hin _ List.mem_cons_self rfl
    rw [List.erase_append_right _ hnot, List.erase_cons_head] at hrelease
    exact hrelease
  · exact h

theorem popInfo_eq (s : Card) (value : UInt16) :
    popInfo s value =
      let q := popped s.infoQueue evInfo value
      let s' := { (if value &&& evInfo ≠ 0 ∧ s.infoQueue.count ≠ 0 then release s s.infoQueue.front else s) with infoQueue := q }
      if q.count ≠ 0 then raise (setReg s' regInfofid (UInt16.ofNat q.front)) evInfo else s' := by
  unfold popInfo popped
  by_cases h : value &&& evInfo ≠ 0 ∧ s.infoQueue.count ≠ 0
  · simp only [if_pos h]
  · simp only [if_neg h]

theorem popRx_eq (s : Card) (value : UInt16) :
    popRx s value =
      let q := popped s.rxQueue evRx value
      let s' := { (if value &&& evRx ≠ 0 ∧ s.rxQueue.count ≠ 0 then release s s.rxQueue.front else s) with rxQueue := q }
      if q.count ≠ 0 then raise (setReg s' regRxfid (UInt16.ofNat q.front)) evRx else s' := by
  unfold popRx popped
  by_cases h : value &&& evRx ≠ 0 ∧ s.rxQueue.count ≠ 0
  · simp only [if_pos h]
  · simp only [if_neg h]

/-- The release of a number leaves all but the buffers. -/
theorem release_fields (c : Prop) [Decidable c] (s : Card) (id : Nat) :
    (if c then release s id else s).regs = s.regs ∧ (if c then release s id else s).records = s.records ∧
      (if c then release s id else s).infoQueue = s.infoQueue ∧ (if c then release s id else s).rxQueue = s.rxQueue := by
  split <;> exact ⟨rfl, rfl, rfl, rfl⟩

theorem popInfo_spec {B : List Nat} {value : UInt16} (h : Cleared s s.infoQueue evInfo value)
    (hpool : Pool s (infoFids s ++ B)) :
    Pool (popInfo s value) (infoFids (popInfo s value) ++ B) ∧
      infoFids s = gone value evInfo (infoFids s) ++ infoFids (popInfo s value) ∧
      Shown (popInfo s value) (popInfo s value).infoQueue evInfo regInfofid ∧ (popInfo s value).rxQueue = s.rxQueue ∧
      (popInfo s value).regs regEvstat &&& evRx = s.regs regEvstat &&& evRx ∧ (popInfo s value).records = s.records := by
  obtain ⟨hregs, hrecords, -, hother⟩ := release_fields (value &&& evInfo ≠ 0 ∧ s.infoQueue.count ≠ 0) s s.infoQueue.front
  have hpopped := Pool.popped (A := []) h.fits hpool evInfo value
  have hmem : ∀ x ∈ s.infoQueue.contents 8, x < 65536 := by
    intro x hx
    have hlow := hpool.low x (List.mem_cons_of_mem _ (List.mem_append_left _ hx))
    omega
  have hcontents := contents_popped h.fits evInfo value
  rw [popInfo_eq]
  simp only
  generalize hu : (if value &&& evInfo ≠ 0 ∧ s.infoQueue.count ≠ 0 then release s s.infoQueue.front else s) = u at *
  split
  · rename_i hcount
    refine ⟨hpopped.congr rfl rfl rfl (List.Perm.refl _), hcontents, ?_, hother, ?_, hrecords⟩
    · apply h.popped (by decide) hmem
      · rw [if_pos hcount]
        exact congrArg (· regEvstat ||| evInfo) hregs
      · exact fun _ => rfl
    · rw [← hregs]
      exact bit_other (by decide) _
  · rename_i hcount
    refine ⟨hpopped.congr rfl rfl rfl (List.Perm.refl _), hcontents, ?_, hother, ?_, hrecords⟩
    · apply h.popped (by decide) hmem
      · rw [if_neg hcount, ← hregs]
      · exact fun hnew => absurd hnew hcount
    · rw [← hregs]

theorem popRx_spec {A B : List Nat} {value : UInt16} (h : Cleared s s.rxQueue evRx value)
    (hpool : Pool s (A ++ (rxFids s ++ B))) :
    Pool (popRx s value) (A ++ (rxFids (popRx s value) ++ B)) ∧
      rxFids s = gone value evRx (rxFids s) ++ rxFids (popRx s value) ∧
      Shown (popRx s value) (popRx s value).rxQueue evRx regRxfid ∧ (popRx s value).infoQueue = s.infoQueue ∧
      (popRx s value).regs regEvstat &&& evInfo = s.regs regEvstat &&& evInfo ∧
      (popRx s value).regs regInfofid = s.regs regInfofid ∧ (popRx s value).records = s.records := by
  obtain ⟨hregs, hrecords, hother, -⟩ := release_fields (value &&& evRx ≠ 0 ∧ s.rxQueue.count ≠ 0) s s.rxQueue.front
  have hpopped := Pool.popped h.fits hpool evRx value
  have hmem : ∀ x ∈ s.rxQueue.contents 8, x < 65536 := by
    intro x hx
    have hlow := hpool.low x (List.mem_cons_of_mem _ (List.mem_append_right _ (List.mem_append_left _ hx)))
    omega
  have hcontents := contents_popped h.fits evRx value
  rw [popRx_eq]
  simp only
  generalize hu : (if value &&& evRx ≠ 0 ∧ s.rxQueue.count ≠ 0 then release s s.rxQueue.front else s) = u at *
  split
  · rename_i hcount
    refine ⟨hpopped.congr rfl rfl rfl (List.Perm.refl _), hcontents, ?_, hother, ?_, ?_, hrecords⟩
    · apply h.popped (by decide) hmem
      · rw [if_pos hcount]
        exact congrArg (· regEvstat ||| evRx) hregs
      · exact fun _ => rfl
    · rw [← hregs]
      exact bit_other (by decide) _
    · rw [← hregs]
      rfl
  · rename_i hcount
    refine ⟨hpopped.congr rfl rfl rfl (List.Perm.refl _), hcontents, ?_, hother, ?_, ?_, hrecords⟩
    · apply h.popped (by decide) hmem
      · rw [if_neg hcount, ← hregs]
      · exact fun hnew => absurd hnew hcount
    · rw [← hregs]
    · rw [← hregs]

theorem Shown.cleared {q : Fifo Nat} {ev : UInt16} {reg : Nat} (h : Shown s q ev reg) (he : IsBit ev) (value : UInt16) :
    Cleared (setReg s regEvstat (s.regs regEvstat &&& ~~~value)) q ev value := by
  refine ⟨h.fits, ?_⟩
  show (s.regs regEvstat &&& ~~~value) &&& ev ≠ 0 ↔ _
  rw [bit_clear he, h.bit]

/-- An acknowledgement takes the heads off that it names, and only these are released. -/
theorem Inv.ack (h : Inv s host) (value : UInt16) :
    Inv (Xi825.ack s value) host ∧ infoFids s = gone value evInfo (infoFids s) ++ infoFids (Xi825.ack s value) ∧
      rxFids s = gone value evRx (rxFids s) ++ rxFids (Xi825.ack s value) := by
  have hpool : Pool (setReg s regEvstat (s.regs regEvstat &&& ~~~value)) (infoFids s ++ (rxFids s ++ host)) := by
    rw [← List.append_assoc]
    exact h.pool.congr rfl rfl rfl (List.Perm.refl _)
  obtain ⟨hpool1, hinfo, hshown, hrx, hbit, hrecords⟩ := popInfo_spec (h.info.cleared isBit_info value) hpool
  have hclear := h.rx.cleared isBit_rx value
  show Inv (popRx (popInfo (setReg s regEvstat (s.regs regEvstat &&& ~~~value)) value) value) host ∧ _ ∧ _
  unfold Xi825.ack
  generalize htcard : popInfo (setReg s regEvstat (s.regs regEvstat &&& ~~~value)) value = t at *
  have hqueue : t.rxQueue = s.rxQueue := hrx
  have hfids : rxFids t = rxFids s := congrArg (Fifo.contents 8) hqueue
  have hclear' : Cleared t t.rxQueue evRx value := by
    rw [hqueue]
    refine ⟨hclear.fits, ?_⟩
    rw [hbit]
    exact hclear.bit
  have hpool' : Pool t (infoFids t ++ (rxFids t ++ host)) := by
    rw [hfids]
    exact hpool1
  obtain ⟨hpool2, hrxFids, hshown', hinfoQueue, hinfoBit, hinfofid, hrecords'⟩ := popRx_spec hclear' hpool'
  have hinfoFids : infoFids (popRx t value) = infoFids t := congrArg (Fifo.contents 8) hinfoQueue
  refine ⟨⟨?_, ?_, hshown', ?_⟩, ?_, ?_⟩
  · rw [hinfoFids, List.append_assoc]
    exact hpool2
  · rw [hinfoQueue]
    exact hshown.congr hinfoBit hinfofid
  · rw [hrecords', hrecords]
    exact h.records
  · rw [hinfoFids]
    exact hinfo
  · rw [← hfids]
    exact hrxFids

end Queues

/-! ## The commands -/

section Commands

variable {s s' : Card} {host : List Nat}

theorem recordIds_modify {l : List Record} (h : RecordIds l) (id : Nat) {f : Record → Record}
    (hf : ∀ r, r.id = id → (f r).id = id) : RecordIds (Slots.modify recordKey id f l) := by
  intro x hx
  rcases Slots.mem_modify hx with hold | ⟨r, hr, rfl⟩
  · exact h x hold
  · have hid : r.id = id := Option.some.inj (Slots.lookup_key hr : recordKey r = some id)
    rw [hf r hid, ← hid]
    exact h r (Slots.lookup_mem hr)

theorem recordIds_place {l l' : List Record} (h : RecordIds l) {r : Record} (hr : 0x8100 ≤ r.id)
    (hplace : Slots.place (fun r => r.id == 0) r l = some l') : RecordIds l' := by
  intro x hx
  rcases Slots.mem_place hplace hx with rfl | hold
  · exact Or.inr hr
  · exact h x hold

theorem recordIds_add {l : List Record} (h : RecordIds l) {id : Nat} (hid : 0x8100 ≤ id) (data : List UInt8) :
    RecordIds (addRecord l id data) := by
  unfold addRecord
  split
  · exact h
  · split
    · exact recordIds_modify h id fun _ _ => rfl
    · cases hplace : Slots.place (fun r => r.id == 0) (newRecord id data) l with
      | none => exact h
      | some l' => exact recordIds_place h (show 0x8100 ≤ (newRecord id data).id from hid) hplace

theorem recordIds_addAll {added : List (Nat × List UInt8)} (hadded : ∀ r ∈ added, 0x8100 ≤ r.1) {l : List Record}
    (h : RecordIds l) : RecordIds (addRecords l added) := by
  induction added generalizing l with
  | nil => exact h
  | cons r added ih =>
    exact ih (fun x hx => hadded x (List.mem_cons_of_mem _ hx)) (recordIds_add h (hadded r List.mem_cons_self) r.2)

theorem resetRecords_ids (s : Card) : ∀ r ∈ resetRecords s, 0x8100 ≤ r.1 := by
  unfold resetRecords scalar
  split
  · split <;> simp
  · simp

theorem fids_free (n : Nat) : Slots.keys bufferKey (List.replicate n freeBuffer) = [] := by
  unfold Slots.keys
  rw [List.filterMap_eq_nil_iff]
  intro b hb
  rw [List.eq_of_mem_replicate hb]
  rfl

theorem Shown.empty (hregs : s.regs = fun _ => 0) (ev : UInt16) (reg : Nat) : Shown s ⟨fun _ => 0, 0, 0⟩ ev reg := by
  refine ⟨⟨by decide, by decide⟩, ?_, fun hcount => absurd rfl hcount⟩
  rw [hregs]
  simp

theorem Inv.resetState (s : Card) : Inv (Xi825.resetState s) [] := by
  have hfree : RecordIds (List.replicate recordCount freeRecord) := by
    intro r hr
    rw [List.eq_of_mem_replicate hr]
    exact Or.inl rfl
  have hrecords : (Xi825.resetState s).records = addRecords (List.replicate recordCount freeRecord) (resetRecords s) := by
    unfold Xi825.resetState
    with_reducible rfl
  have hfids : fids (Xi825.resetState s) = [] := fids_free bufferCount
  have hqueues : infoFids (Xi825.resetState s) ++ rxFids (Xi825.resetState s) ++ [] = [] := rfl
  constructor
  · rw [hqueues]
    refine ⟨List.length_replicate, ?_, List.nodup_nil, ?_, List.not_mem_nil⟩
    · rw [hfids]
    · intro id hid
      have hnext : (Xi825.resetState s).nextFid = 0x100 := by
        unfold Xi825.resetState
        with_reducible rfl
      rw [List.mem_singleton.mp hid, hnext]
      decide
  · exact Shown.empty rfl _ _
  · exact Shown.empty rfl _ _
  · rw [hrecords]
    exact recordIds_addAll (resetRecords_ids s) hfree

theorem Inv.reset (s : Card) : Inv (Xi825.reset s) [] := by
  unfold Xi825.reset
  split
  · apply (Inv.resetState s).quiet
    exact ⟨rfl, rfl, rfl, rfl, rfl, rfl, rfl, rfl, rfl, fun h => recordIds_add h (by decide) _⟩
  · exact Inv.resetState s

theorem Inv.scan (h : Inv s host) : Inv (Xi825.scan s) host ∧ rxFids (Xi825.scan s) = rxFids s ∧
    ∃ new, infoFids (Xi825.scan s) = infoFids s ++ new := by
  unfold Xi825.scan
  split
  · split
    · exact h.info_pushed _ _
    · exact h.info_pushed _ _
  · exact h.info_pushed _ _

theorem refreshed_id {id : Nat} {data : List UInt8} (h : refreshed s id = some data) : 0x8100 ≤ id := by
  by_contra hlow
  rw [refreshed, if_neg (by omega), if_neg (by omega), if_neg (by omega), if_neg (by omega), if_neg (by omega), if_neg (by omega),
    if_neg (by omega)] at h
  cases h

theorem Quiet.fetch (s : Card) (param : Nat) : Quiet s (fetch s param) := by
  unfold Xi825.fetch refreshRecord
  split
  · rename_i data hdata
    exact ⟨rfl, rfl, rfl, rfl, rfl, rfl, rfl, rfl, rfl, fun h =>
      recordIds_modify (recordIds_add h (refreshed_id hdata) data) param fun _ hr => hr⟩
  · exact ⟨rfl, rfl, rfl, rfl, rfl, rfl, rfl, rfl, rfl, fun h => recordIds_modify h param fun _ hr => hr⟩

theorem Inv.commit (h : Inv s host) (r : Record) (param : Nat) : Inv (Xi825.commit s r param).1 host ∧
    rxFids (Xi825.commit s r param).1 = rxFids s ∧ ∃ new, infoFids (Xi825.commit s r param).1 = infoFids s ++ new := by
  unfold Xi825.commit
  simp only
  split
  · exact ⟨h, rfl, [], (List.append_nil _).symm⟩
  · generalize hu : (Card.mk _ _ _ _ _ _ _ _ _ _ _ _ _ _ _) = u
    have hquiet : Quiet s u := by
      rw [← hu]
      exact ⟨rfl, rfl, rfl, rfl, rfl, rfl, rfl, rfl, rfl, fun h => recordIds_modify h param fun _ hr => hr⟩
    have hinfo : infoFids u = infoFids s := congrArg (Fifo.contents 8) hquiet.infoQueue
    have hrx : rxFids u = rxFids s := congrArg (Fifo.contents 8) hquiet.rxQueue
    split
    · have hscan := (h.quiet hquiet).scan
      rw [hinfo, hrx] at hscan
      exact hscan
    · exact ⟨h.quiet hquiet, hrx, [], by rw [hinfo, List.append_nil]⟩

theorem Inv.perm (h : Inv s host) {host' : List Nat} (hperm : host.Perm host') : Inv s host' :=
  ⟨h.pool.congr rfl rfl rfl (hperm.append_left _), h.info, h.rx, h.records⟩

/-- ALLOC hands out the one number that comes into use. -/
theorem Inv.alloc (h : Inv s host) {length id : Nat} {data : Nat → UInt8} (halloc : allocate s length data = some (s', id)) :
    Inv s' (id :: host) ∧ (fids s').filter (· ∉ fids s) = [id] ∧ s'.infoQueue = s.infoQueue ∧ s'.rxQueue = s.rxQueue := by
  have hpool := h.pool.allocate halloc
  have hused := hpool.used
  have hnew : id ∉ fids s := by
    intro hin
    exact (List.nodup_cons.mp hpool.distinct).1 (h.pool.used.mem_iff.mp hin)
  obtain ⟨-, b, buffers, -, -, -, -, -, rfl⟩ := allocate_eq halloc
  have hkeep : ∀ x ∈ infoFids s ++ rxFids s ++ host, x ∈ fids s := fun x hx => h.pool.used.mem_iff.mpr hx
  refine ⟨⟨hpool.congr rfl rfl rfl ?_, h.info.congr rfl rfl, h.rx.congr rfl rfl, h.records⟩, ?_, rfl, rfl⟩
  · exact List.perm_middle.symm
  · apply List.perm_singleton.mp
    refine (hused.filter _).trans (List.Perm.of_eq ?_)
    rw [List.filter_cons_of_pos (by simpa using hnew), List.filter_eq_nil_iff.mpr]
    intro x hx
    simpa using hkeep x hx

/-- A TX command that succeeds ends with the reclaim event or with the release. -/
theorem sendBuffer_cases {b : Buffer} {value : UInt16} {param : Nat} {t : Card} (h : sendBuffer s b value param = some t) :
    ∃ u, Quiet s u ∧ (t = raise (setReg u regAllocfid (UInt16.ofNat param)) evAlloc ∨ t = release u param) := by
  unfold sendBuffer at h
  simp only [Option.bind_eq_bind, Option.bind_eq_some_iff] at h
  obtain ⟨frame, -, data, -, control, -, h⟩ := h
  generalize hu : (Card.mk _ _ _ _ _ _ _ _ _ _ _ _ _ _ _) = u at h
  have hquiet : Quiet s u := by
    rw [← hu]
    refine ⟨Slots.length_modify, Slots.keys_modify ?_, rfl, rfl, rfl, rfl, rfl, rfl, rfl, id⟩
    intro c hc
    exact hc
  -- the status bits it reports are not those of the queues
  have hreport : ∀ ok : Bool, Quiet u (if ok = true then if control &&& 2 ≠ 0 then raise u evTx else u
      else if control &&& 4 ≠ 0 then raise u evTxexc else u) := by
    intro ok
    split
    · split
      · exact Quiet.raise u (by decide) (by decide)
      · exact Quiet.refl u
    · split
      · exact Quiet.raise u (by decide) (by decide)
      · exact Quiet.refl u
  have hsent := (hquiet.trans (hreport frame.isSome)).trans
    (Quiet.setReg _ (UInt16.ofNat param) (by decide : regTxfid ≠ regEvstat) (by decide) (by decide))
  split at h
  · exact ⟨_, hsent, Or.inl (Option.some.inj h).symm⟩
  · exact ⟨_, hsent, Or.inr (Option.some.inj h).symm⟩

theorem Inv.host_used (h : Inv s host) : host.filter (· ∈ fids s) = host := by
  rw [List.filter_eq_self]
  intro x hx
  simpa using h.pool.used.mem_iff.mpr (List.mem_append_right _ hx)

theorem Inv.send (h : Inv s host) {b : Buffer} {value : UInt16} {param : Nat} {t : Card}
    (hown : param ∉ infoFids s ++ rxFids s) (hsend : sendBuffer s b value param = some t) :
    Inv t (host.filter (· ∈ fids t)) ∧ t.infoQueue = s.infoQueue ∧ t.rxQueue = s.rxQueue := by
  obtain ⟨u, hquiet, rfl | rfl⟩ := sendBuffer_cases hsend
  · have hall := (hquiet.trans (Quiet.setReg u (UInt16.ofNat param) (by decide : regAllocfid ≠ regEvstat) (by decide)
      (by decide))).trans (Quiet.raise _ (by decide : evAlloc &&& evInfo = 0) (by decide))
    refine ⟨?_, hall.infoQueue, hall.rxQueue⟩
    rw [(h.quiet hall).host_used]
    exact h.quiet hall
  · have hu := h.quiet hquiet
    have hrelease := hu.pool.release param
    have hinfo : infoFids u = infoFids s := congrArg (Fifo.contents 8) hquiet.infoQueue
    have hrx : rxFids u = rxFids s := congrArg (Fifo.contents 8) hquiet.rxQueue
    rw [hinfo, hrx, List.erase_append_right _ hown] at hrelease
    have hkeep : host.filter (· ∈ fids (release u param)) = host.erase param := by
      have hdistinct := (List.nodup_append.mp hu.pool.distinct).2.1
      rw [hdistinct.erase_eq_filter]
      apply List.filter_congr
      intro x hx
      have hmem : x ∈ fids (release u param) ↔ x ∈ infoFids s ++ rxFids s ++ host.erase param := hrelease.used.mem_iff
      have hnot : x ∉ infoFids s ++ rxFids s := by
        intro hin
        have hdisj := (List.nodup_append.mp h.pool.distinct).2.2
        exact hdisj x hin x hx rfl
      rw [List.mem_append, hdistinct.mem_erase_iff] at hmem
      have hiff : x ∈ fids (release u param) ↔ x ≠ param := by
        rw [hmem]
        simp [hnot, hx]
      rw [Bool.eq_iff_iff]
      simpa using hiff
    refine ⟨?_, hquiet.infoQueue, hquiet.rxQueue⟩
    rw [hkeep]
    refine ⟨?_, ?_, ?_, hu.records⟩
    · show Pool (release u param) (infoFids u ++ rxFids u ++ host.erase param)
      rw [hinfo, hrx]
      exact hrelease
    · exact hu.info.congr rfl rfl
    · exact hu.rx.congr rfl rfl

/-- What the host holds after a command. -/
def hostAfter (s s' : Card) (op : Nat) (host : List Nat) : List Nat :=
  if op = 0x00 then []
  else if op = 0x0a then (fids s').filter (· ∉ fids s) ++ host
  else if op = 0x0b then host.filter (· ∈ fids s')
  else host

/-- A change that at most adds to the info queue. -/
structure Grows (s s' : Card) : Prop where
  info : ∃ new, infoFids s' = infoFids s ++ new
  rx : ∃ new, rxFids s' = rxFids s ++ new

theorem Grows.of_eq (hinfo : s'.infoQueue = s.infoQueue) (hrx : s'.rxQueue = s.rxQueue) : Grows s s' := by
  refine ⟨⟨[], ?_⟩, ⟨[], ?_⟩⟩
  · rw [infoFids, hinfo, List.append_nil, infoFids]
  · rw [rxFids, hrx, List.append_nil, rxFids]

theorem Grows.of_info (h : rxFids s' = rxFids s ∧ ∃ new, infoFids s' = infoFids s ++ new) : Grows s s' :=
  ⟨h.2, [], by rw [h.1, List.append_nil]⟩

theorem hostAfter_same (h : Inv s host) (hfids : fids s' = fids s) {op : Nat} (hop : op ≠ 0) :
    hostAfter s s' op host = host := by
  unfold hostAfter
  rw [if_neg hop, hfids]
  split
  · have hnone : (fids s).filter (· ∉ fids s) = [] := by
      rw [List.filter_eq_nil_iff]
      intro x hx
      simpa using hx
    rw [hnone, List.nil_append]
  · split
    · exact h.host_used
    · rfl

theorem hostAfter_congr {u t t' : Card} (hu : fids u = fids s) (ht : fids t' = fids t) {op : Nat} :
    hostAfter u t op host = hostAfter s t' op host := by
  unfold hostAfter
  rw [hu, ht]

theorem Inv.perform (h : Inv s host) (value : UInt16)
    (hown : (value &&& 0x3f).toNat = 0x0b → (s.regs regParam0).toNat ∉ infoFids s ++ rxFids s) :
    Inv (Xi825.perform s value).1 (hostAfter s (Xi825.perform s value).1 (value &&& 0x3f).toNat host) ∧
      ((value &&& 0x3f).toNat ≠ 0 → Grows s (Xi825.perform s value).1) := by
  have hquiet : ∀ (t : Card) (op : Nat), op ≠ 0 → Quiet s t → Inv t (hostAfter s t op host) ∧ (op ≠ 0 → Grows s t) := by
    intro t op hop hq
    rw [hostAfter_same h hq.fids hop]
    exact ⟨h.quiet hq, fun _ => Grows.of_eq hq.infoQueue hq.rxQueue⟩
  have hgrows : ∀ (t : Card) (op : Nat), op ≠ 0x00 ∧ op ≠ 0x0a ∧ op ≠ 0x0b →
      Inv t host ∧ rxFids t = rxFids s ∧ (∃ new, infoFids t = infoFids s ++ new) →
      Inv t (hostAfter s t op host) ∧ (op ≠ 0 → Grows s t) := by
    intro t op hop ht
    rw [hostAfter, if_neg hop.1, if_neg hop.2.1, if_neg hop.2.2]
    exact ⟨ht.1, fun _ => Grows.of_info ht.2⟩
  unfold Xi825.perform
  generalize hop : (value &&& 0x3f).toNat = op at hown ⊢
  simp only
  split
  · exact ⟨Inv.reset s, fun hne => absurd rfl hne⟩
  · split
    · exact hquiet s _ (by decide) (Quiet.refl s)
    · exact hquiet _ _ (by decide) ⟨rfl, rfl, rfl, rfl, rfl, rfl, rfl, rfl, rfl, id⟩
  · exact hquiet _ _ (by decide) ⟨rfl, rfl, rfl, rfl, rfl, rfl, rfl, rfl, rfl, id⟩
  · split
    · exact hquiet s _ (by decide) (Quiet.refl s)
    · split
      · exact hquiet s _ (by decide) (Quiet.refl s)
      · rename_i u id halloc
        obtain ⟨hu, hnew, hinfo, hrx⟩ := h.alloc halloc
        have hq := ((Quiet.setReg u (UInt16.ofNat id) (by decide : regResp0 ≠ regEvstat) (by decide) (by decide)).trans
          (Quiet.setReg _ (UInt16.ofNat id) (by decide : regAllocfid ≠ regEvstat) (by decide) (by decide))).trans
          (Quiet.raise _ (by decide : evAlloc &&& evInfo = 0) (by decide))
        refine ⟨?_, fun _ => Grows.of_eq (hq.infoQueue.trans hinfo) (hq.rxQueue.trans hrx)⟩
        rw [hostAfter, if_neg (by decide), if_pos rfl, hq.fids, hnew]
        exact hu.quiet hq
  · split
    · exact hquiet s _ (by decide) (Quiet.refl s)
    · rename_i b hb
      split
      · exact hquiet s _ (by decide) (Quiet.refl s)
      · cases hsend : sendBuffer s b value (s.regs regParam0).toNat with
        | none => exact hquiet s _ (by decide) (Quiet.refl s)
        | some t =>
          obtain ⟨ht, hinfo, hrx⟩ := h.send (hown rfl) hsend
          refine ⟨?_, fun _ => Grows.of_eq hinfo hrx⟩
          rw [hostAfter, if_neg (by decide), if_neg (by decide), if_pos rfl]
          exact ht
  · split
    · exact hgrows _ _ (by decide) (h.info_pushed _ _)
    · split
      · exact hgrows _ _ (by decide) h.scan
      · split
        · exact hquiet _ _ (by decide) ⟨rfl, rfl, rfl, rfl, rfl, rfl, rfl, rfl, rfl, id⟩
        · exact hquiet s _ (by decide) (Quiet.refl s)
  · split
    · exact hquiet s _ (by decide) (Quiet.refl s)
    · rename_i r hr
      split
      · exact hgrows _ _ (by decide) (h.commit r _)
      · exact hquiet _ _ (by decide) (Quiet.fetch s _)
  · rename_i hne _ _ _ _ _ _
    exact hquiet s _ hne (Quiet.refl s)

/-- A command is its operation between changes of registers that show no queue. -/
theorem Inv.command (h : Inv s host) (value : UInt16)
    (hown : (value &&& 0x3f).toNat = 0x0b → (s.regs regParam0).toNat ∉ infoFids s ++ rxFids s) :
    Inv (Xi825.command s value) (hostAfter s (Xi825.command s value) (value &&& 0x3f).toNat host) ∧
      ((value &&& 0x3f).toNat ≠ 0 → Grows s (Xi825.command s value)) := by
  have hset : ∀ (t : Card) (reg : Nat) (v : UInt16), reg < 8 → Quiet t (setReg t reg v) := by
    intro t reg v hreg
    exact Quiet.setReg t v (by unfold regEvstat; omega) (by unfold regInfofid; omega) (by unfold regRxfid; omega)
  have hbefore := (((hset s regCmd (value &&& 0x7fff) (by decide)).trans (hset _ regResp0 0 (by decide))).trans
    (hset _ (regResp0 + 1) 0 (by decide))).trans (hset _ (regResp0 + 2) 0 (by decide))
  unfold Xi825.command
  simp only
  generalize hu : setReg (setReg (setReg (setReg s regCmd (value &&& 0x7fff)) regResp0 0) (regResp0 + 1) 0) (regResp0 + 2) 0 = u
    at hbefore ⊢
  have hparam : u.regs regParam0 = s.regs regParam0 := by
    rw [← hu]
    rfl
  have hinfo : infoFids u = infoFids s := congrArg (Fifo.contents 8) hbefore.infoQueue
  have hrx : rxFids u = rxFids s := congrArg (Fifo.contents 8) hbefore.rxQueue
  obtain ⟨hinv, hgrow⟩ := (h.quiet hbefore).perform value (by rw [hparam, hinfo, hrx]; exact hown)
  generalize (value &&& 0x3f).toNat = op at hinv hgrow ⊢
  generalize hp : Xi825.perform u value = p at hinv hgrow ⊢
  obtain ⟨t, result⟩ := p
  simp only at hinv hgrow ⊢
  have hafter := (hset t regStatus ((value &&& 0x3f) ||| UInt16.ofNat (result * 256)) (by decide)).trans
    (Quiet.raise _ (by decide : evCmd &&& evInfo = 0) (by decide))
  refine ⟨?_, fun hop => ⟨?_, ?_⟩⟩
  · rw [hostAfter_congr hbefore.fids hafter.fids] at hinv
    exact hinv.quiet hafter
  · obtain ⟨new, hnew⟩ := (hgrow hop).info
    refine ⟨new, ?_⟩
    rw [← hinfo, ← hnew]
    exact congrArg (Fifo.contents 8) hafter.infoQueue
  · obtain ⟨new, hnew⟩ := (hgrow hop).rx
    refine ⟨new, ?_⟩
    rw [← hrx, ← hnew]
    exact congrArg (Fifo.contents 8) hafter.rxQueue

/-! ## Accesses -/

theorem Quiet.bapWrite (s : Card) (port pos : Nat) (bytes : List UInt8) : Quiet s (bapWrite s port pos bytes) := by
  unfold Xi825.bapWrite
  simp only
  split
  · exact ⟨rfl, rfl, rfl, rfl, rfl, rfl, rfl, rfl, rfl, fun h => recordIds_modify h _ fun _ hr => hr⟩
  · exact ⟨Slots.length_modify, Slots.keys_modify fun _ hb => hb, rfl, rfl, rfl, rfl, rfl, rfl, rfl, id⟩

theorem Quiet.bapData (s : Card) {port : Nat} (hport : port < 2) (size : Nat) (write : Option Nat) :
    Quiet s (bapData s port size write).2 := by
  have hset : ∀ (t : Card) (v : UInt16), Quiet t (Xi825.setReg t (regOffset0 + port) v) := by
    intro t v
    exact Quiet.setReg t v (by unfold regOffset0 regEvstat; omega) (by unfold regOffset0 regInfofid; omega)
      (by unfold regOffset0 regRxfid; omega)
  unfold Xi825.bapData
  simp only
  split
  · exact hset s _
  · split
    · exact hset s _
    · cases write with
      | none => exact hset s _
      | some value => exact (Quiet.bapWrite s port _ _).trans (hset _ _)

theorem Inv.tick (h : Inv s host) : Inv (Xi825.tick s) host ∧ Grows s (Xi825.tick s) := by
  unfold Xi825.tick
  simp only
  generalize hconnected : canAssociate { s with transmit := true } = connected
  generalize hu : (Card.mk _ _ _ _ _ _ _ _ _ _ _ _ _ _ _) = u
  have hquiet : Quiet s u := by
    rw [← hu]
    exact ⟨rfl, rfl, rfl, rfl, rfl, rfl, rfl, rfl, rfl, id⟩
  have hinfo : infoFids u = infoFids s := congrArg (Fifo.contents 8) hquiet.infoQueue
  have hrx : rxFids u = rxFids s := congrArg (Fifo.contents 8) hquiet.rxQueue
  generalize le 2 (if connected = true then 1 else 2) = data
  split
  · obtain ⟨hinv, hrest⟩ := (h.quiet hquiet).info_pushed 0xf200 data
    rw [hinfo, hrx] at hrest
    split
    · refine ⟨hinv.quiet ⟨rfl, rfl, rfl, rfl, rfl, rfl, rfl, rfl, rfl, id⟩, Grows.of_info hrest⟩
    · exact ⟨hinv, Grows.of_info hrest⟩
  · exact ⟨h.quiet hquiet, Grows.of_eq hquiet.infoQueue hquiet.rxQueue⟩

end Commands

/-- One access to the card: a write has at most two bytes (`write_run`). -/
inductive Access where
  | read (offset size : Nat)
  | write (offset size value : Nat)
  | receive (eth : List UInt8)
  | tick

def step (s : Card) : Access → Card
  | .read offset size => (read s offset size).2
  | .write offset size value => writeShort s offset size value
  | .receive eth => (receive s eth).1
  | .tick => tick s

/-- What an access writes to the register `reg`, if it does. -/
def written (s : Card) (reg : Nat) : Access → Option UInt16
  | .write offset size value =>
    if dataPort offset size = none ∧ offset / 2 = reg then
      some (if size = 1 then mergeByte (s.regs (offset / 2)) offset value else UInt16.ofNat value)
    else none
  | _ => none

/-- The operation that an access commands. -/
def opOf (s : Card) (a : Access) : Option Nat := (written s regCmd a).map fun v => (v &&& 0x3f).toNat

/-- A TX command names no queued number. -/
def Own (s : Card) (a : Access) : Prop :=
  opOf s a = some 0x0b → (s.regs regParam0).toNat ∉ infoFids s ++ rxFids s

/-- The states of the card with what the host holds in each. -/
inductive Run (s : Card) : Card → List Nat → Prop
  | init : Run s s []
  | step {t : Card} {host : List Nat} (a : Access) : Run s t host → Own t a →
      Run s (step t a) (match opOf t a with | some op => hostAfter t (step t a) op host | none => host)

section Accesses

variable {s t : Card} {host : List Nat}

theorem Quiet.writeReg (s : Card) {reg : Nat} (hcmd : reg ≠ regCmd) (hack : reg ≠ regEvack) (v : UInt16) :
    Quiet s (writeReg s reg v) := by
  unfold Xi825.writeReg
  rw [if_neg hcmd, if_neg hack]
  split
  · rename_i hreg
    unfold regOffset0 at hreg
    exact Quiet.setReg s _ (by unfold regEvstat; omega) (by unfold regInfofid; omega) (by unfold regRxfid; omega)
  · split
    · rename_i hreg
      unfold regInten regSelect0 at hreg
      exact Quiet.setReg s _ (by unfold regEvstat; omega) (by unfold regInfofid; omega) (by unfold regRxfid; omega)
    · exact Quiet.refl s

theorem dataPort_lt {offset size port : Nat} (h : dataPort offset size = some port) : port < 2 := by
  unfold dataPort at h
  repeat' split at h
  all_goals first | (cases h; decide) | cases h

theorem Quiet.read (s : Card) (offset size : Nat) : Quiet s (read s offset size).2 := by
  unfold Xi825.read
  split
  · exact Quiet.refl s
  · split
    · rename_i port hport
      exact Quiet.bapData s (dataPort_lt hport) size none
    · exact Quiet.refl s

/-- An access that is no acknowledgement and no INIT keeps the queues and may add to them. -/
theorem Inv.step (h : Inv s host) {a : Access} (hown : Own s a) :
    Inv (Xi825.step s a) (match opOf s a with | some op => hostAfter s (Xi825.step s a) op host | none => host) ∧
      (written s regEvack a = none → opOf s a ≠ some 0 → Grows s (Xi825.step s a)) := by
  have hquiet : ∀ t, Quiet s t → Inv t host ∧ Grows s t := fun t hq => ⟨h.quiet hq, Grows.of_eq hq.infoQueue hq.rxQueue⟩
  cases a with
  | read offset size =>
    obtain ⟨hinv, hgrow⟩ := hquiet _ (Quiet.read s offset size)
    exact ⟨hinv, fun _ _ => hgrow⟩
  | write offset size value =>
    have hshort : Xi825.step s (.write offset size value) = writeShort s offset size value := rfl
    rw [hshort]
    unfold writeShort
    cases hport : dataPort offset size with
    | some port =>
      obtain ⟨hinv, hgrow⟩ := hquiet _ (Quiet.bapData s (dataPort_lt hport) size (some (value % 65536)))
      have hnone : opOf s (.write offset size value) = none := by
        simp [opOf, written, hport]
      rw [hnone]
      exact ⟨hinv, fun _ _ => hgrow⟩
    | none =>
      have hwritten : ∀ reg, written s reg (.write offset size value) = if offset / 2 = reg then
          some (if size = 1 then mergeByte (s.regs (offset / 2)) offset value else UInt16.ofNat value) else none := by
        intro reg
        simp [written, hport]
      unfold Own opOf at hown
      unfold opOf
      simp only [hwritten] at hown ⊢
      generalize (if size = 1 then mergeByte (s.regs (offset / 2)) offset value else UInt16.ofNat value) = v at hown ⊢
      generalize offset / 2 = reg at hown ⊢
      by_cases hcmd : reg = regCmd
      · -- the command register
        simp only [hcmd, if_true, Option.map_some] at hown ⊢
        obtain ⟨hinv, hgrow⟩ := h.command v fun hop => hown (congrArg some hop)
        exact ⟨hinv, fun _ hop => hgrow fun heq => hop (congrArg some heq)⟩
      · simp only [hcmd, if_false, Option.map_none]
        by_cases hack : reg = regEvack
        · -- the acknowledgement
          have hstep : writeReg s reg v = Xi825.ack s v := by rw [hack]; rfl
          rw [hstep]
          exact ⟨(h.ack v).1, fun hnone => by simp [hack] at hnone⟩
        · obtain ⟨hinv, hgrow⟩ := hquiet _ (Quiet.writeReg s hcmd hack v)
          exact ⟨hinv, fun _ _ => hgrow⟩
  | receive eth =>
    obtain ⟨hinv, hinfo, hrx⟩ := h.receive eth
    exact ⟨hinv, fun _ _ => ⟨⟨[], by rw [List.append_nil]; exact hinfo⟩, hrx⟩⟩
  | tick => exact ⟨h.tick.1, fun _ _ => h.tick.2⟩

theorem Inv.attach (security : Wifi.Security) (mac : List UInt8) (hermes : Bool) (firmware : Nat) (cis : List UInt8) :
    Inv (Xi825.attach security mac hermes firmware cis) [] := by
  unfold Xi825.attach
  generalize hu : Xi825.init security mac hermes firmware = u
  have hinit : Inv u [] := by
    rw [← hu]
    exact Inv.reset _
  exact hinit.quiet ⟨rfl, rfl, rfl, rfl, rfl, rfl, rfl, rfl, rfl, fun h => recordIds_add h (by decide) cis⟩

theorem Inv.run {security : Wifi.Security} {mac : List UInt8} {hermes : Bool} {firmware : Nat} {cis : List UInt8}
    (h : Run (Xi825.attach security mac hermes firmware cis) t host) : Inv t host := by
  induction h with
  | init => exact Inv.attach security mac hermes firmware cis
  | step a _ hown ih => exact (ih.step hown).1

theorem Inv.acked (h : Inv s host) (value : UInt16) :
    (fids s).Perm (gone value evInfo (infoFids s) ++ gone value evRx (rxFids s) ++ fids (Xi825.ack s value)) := by
  obtain ⟨hinv, hinfo, hrx⟩ := h.ack value
  have hold := h.pool.used
  have hnew := hinv.pool.used
  generalize gone value evInfo (infoFids s) = g at hinfo ⊢
  generalize gone value evRx (rxFids s) = g' at hrx ⊢
  rw [hinfo, hrx] at hold
  refine hold.trans (List.Perm.trans ?_ (hnew.symm.append_left _))
  simp only [List.append_assoc]
  apply List.Perm.append_left
  -- the two middle parts change places
  rw [← List.append_assoc, ← List.append_assoc g']
  exact List.perm_append_comm.append_right _

theorem Shown.queue {q : Fifo Nat} {ev : UInt16} {reg : Nat} (h : Shown s q ev reg) :
    q.count ≤ 8 ∧ (s.regs regEvstat &&& ev ≠ 0 ↔ q.contents 8 ≠ []) ∧
      ∀ id l, q.contents 8 = id :: l → (s.regs reg).toNat = id := by
  refine ⟨h.fits.count, ?_, fun id l hq => ?_⟩
  · rw [h.bit, Ne, Ne, Fifo.contents_eq_nil]
  · have hcount : q.count ≠ 0 := by
      intro hzero
      rw [Fifo.contents_eq_nil.mpr hzero] at hq
      cases hq
    rw [Fifo.contents_pop h.fits (by decide) hcount] at hq
    rw [h.head hcount]
    exact (List.cons.inj hq).1

theorem step_written {reg : Nat} {a : Access} {v : UInt16} (h : written s reg a = some v) : step s a = writeReg s reg v := by
  cases a with
  | write offset size value =>
    simp only [written, Option.ite_none_right_eq_some, Option.some.injEq] at h
    obtain ⟨⟨hport, hreg⟩, hv⟩ := h
    show writeShort s offset size value = _
    unfold writeShort
    rw [hport]
    simp only
    rw [hv, hreg]
  | read offset size => cases h
  | receive eth => cases h
  | tick => cases h

theorem command_init (s : Card) {value : UInt16} (h : (value &&& 0x3f).toNat = 0) :
    infoFids (Xi825.command s value) = [] ∧ rxFids (Xi825.command s value) = [] := by
  have hreset : ∀ u, (reset u).infoQueue = ⟨fun _ => 0, 0, 0⟩ ∧ (reset u).rxQueue = ⟨fun _ => 0, 0, 0⟩ := by
    intro u
    unfold reset
    split <;> exact ⟨rfl, rfl⟩
  unfold Xi825.command perform
  simp only [h]
  refine ⟨?_, ?_⟩
  · exact congrArg (Fifo.contents 8) (hreset _).1
  · exact congrArg (Fifo.contents 8) (hreset _).2

/-- INIT empties the queues and frees every buffer. -/
theorem Inv.init (h : Inv s host) {a : Access} (hop : opOf s a = some 0) :
    infoFids (Xi825.step s a) = [] ∧ rxFids (Xi825.step s a) = [] ∧ fids (Xi825.step s a) = [] := by
  have hown : Own s a := fun htx => by rw [hop] at htx; cases htx
  obtain ⟨v, hv, hzero⟩ := Option.map_eq_some_iff.mp hop
  have hstep : Xi825.step s a = Xi825.command s v := step_written hv
  obtain ⟨hinfo, hrx⟩ := command_init s hzero
  rw [← hstep] at hinfo hrx
  have hinv := (h.step hown).1
  rw [hop] at hinv
  have hused := hinv.pool.used
  rw [hinfo, hrx] at hused
  exact ⟨hinfo, hrx, hused.eq_nil⟩

end Accesses

/-! ## Every run -/

/-- The TX commands in the parts of a longer write name no queued number. -/
def Owns : Card → List (Nat × Nat × Nat) → Prop
  | _, [] => True
  | s, p :: l => Own s (.write p.1 p.2.1 p.2.2) ∧ Owns (writeShort s p.1 p.2.1 p.2.2) l

/-- A write of any width through the window is a run of its parts. -/
theorem write_run {s t : Card} {host : List Nat} (h : Run s t host) {offset size value : Nat}
    (hown : Owns t (pieces offset size value)) : ∃ host', Run s (write t offset size value) host' := by
  unfold write
  split
  · exact ⟨host, h⟩
  · generalize pieces offset size value = l at hown ⊢
    induction l generalizing t host with
    | nil => exact ⟨host, h⟩
    | cons p l ih => exact ih (h.step (.write p.1 p.2.1 p.2.2) hown.1) hown.2

/-- In every state reached, the buffers in use have distinct numbers that no record has, the
    event bits and head registers show the queues, and the numbers in use are those on the
    queues and those the host holds. Short of INIT, an access takes a number off a queue only
    as an acknowledgement that names the queue, which releases just that number. A write of any
    width goes on as a run of its parts. -/
theorem events_sound (security : Wifi.Security) (mac : List UInt8) (hermes : Bool) (firmware : Nat) (cis : List UInt8)
    {t : Card} {host : List Nat} (h : Run (attach security mac hermes firmware cis) t host) :
    ((fids t).Nodup ∧ ∀ id ∈ fids t, ∀ r ∈ t.records, r.id ≠ id) ∧
      (t.infoQueue.count ≤ 8 ∧ (t.regs regEvstat &&& evInfo ≠ 0 ↔ infoFids t ≠ []) ∧
        ∀ id l, infoFids t = id :: l → (t.regs regInfofid).toNat = id) ∧
      (t.rxQueue.count ≤ 8 ∧ (t.regs regEvstat &&& evRx ≠ 0 ↔ rxFids t ≠ []) ∧
        ∀ id l, rxFids t = id :: l → (t.regs regRxfid).toNat = id) ∧
      (fids t).Perm (infoFids t ++ rxFids t ++ host) ∧
      (∀ a v, written t regEvack a = some v →
        infoFids t = gone v evInfo (infoFids t) ++ infoFids (step t a) ∧
          rxFids t = gone v evRx (rxFids t) ++ rxFids (step t a) ∧
          (fids t).Perm (gone v evInfo (infoFids t) ++ gone v evRx (rxFids t) ++ fids (step t a))) ∧
      (∀ a, Own t a → written t regEvack a = none → opOf t a ≠ some 0 →
        ∃ info rx, infoFids (step t a) = infoFids t ++ info ∧ rxFids (step t a) = rxFids t ++ rx ∧
          ∀ id ∈ infoFids t ++ rxFids t, id ∈ fids (step t a)) ∧
      (∀ a, opOf t a = some 0 → infoFids (step t a) = [] ∧ rxFids (step t a) = [] ∧ fids (step t a) = []) ∧
      ∀ offset size value, Owns t (pieces offset size value) →
        ∃ host', Run (attach security mac hermes firmware cis) (write t offset size value) host' := by
  have hi := Inv.run h
  refine ⟨⟨hi.pool.used.nodup_iff.mpr hi.pool.distinct, ?_⟩, hi.info.queue, hi.rx.queue, hi.pool.used, ?_, ?_, fun a => hi.init,
    fun offset size value hown => write_run h hown⟩
  · intro id hid r hr
    have hlow := hi.pool.low id (List.mem_cons_of_mem _ (hi.pool.used.mem_iff.mp hid))
    have hrecord := hi.records r hr
    omega
  · intro a v hv
    rw [step_written hv]
    exact ⟨(hi.ack v).2.1, (hi.ack v).2.2, hi.acked v⟩
  · intro a hown hack hop
    obtain ⟨hinv, hgrow⟩ := hi.step hown
    obtain ⟨⟨info, hinfo⟩, rx, hrx⟩ := hgrow hack hop
    refine ⟨info, rx, hinfo, hrx, fun id hid => ?_⟩
    apply hinv.pool.used.mem_iff.mpr
    rw [hinfo, hrx]
    simp only [List.mem_append] at hid ⊢
    tauto

/-- The access point of an open network. -/
def openNetwork : Wifi.Security := Wifi.init ⟨fun _ _ => none, fun _ _ => none, fun _ l => l, fun _ _ => none, fun _ => none⟩
  [2, 0x60, 0xb3, 0, 0, 1] 0 none

def started : Card := attach openNetwork [2, 0x60, 0xb3, 0, 0, 1] false 0 [1, 3, 0xdc, 0, 0xff]

/-- The card after an inquiry for the tallies. -/
def inquired : Card := step (step started (.write 2 2 0xf100)) (.write 0 2 0x11)

theorem inquired_fids : infoFids inquired = [0x100] ∧ 0x100 ∈ fids inquired := by decide

theorem inquired_run : ∃ host, Run started inquired host := by
  have hfirst : Own started (.write 2 2 0xf100) := by
    intro h
    exact absurd h (by decide)
  have hsecond : Own (step started (.write 2 2 0xf100)) (.write 0 2 0x11) := by
    intro h
    exact absurd h (by decide)
  exact ⟨_, (Run.init.step _ hfirst).step _ hsecond⟩

/-- Two inquiries, the first one's answer acknowledged. -/
def inquiredTwice : Card := step inquired (.write 0 2 0x11)

def acknowledged : Card := step inquiredTwice (.write (2 * regEvack) 2 evInfo.toNat)

theorem acknowledged_fids : infoFids acknowledged = [0x101] := by decide

theorem acknowledged_run : (∃ host, Run started inquiredTwice host) ∧ ∃ host, Run started acknowledged host := by
  obtain ⟨host, hrun⟩ := inquired_run
  have hcommand : Own inquired (.write 0 2 0x11) := by
    intro h
    exact absurd h (by decide)
  have hack : Own inquiredTwice (.write (2 * regEvack) 2 evInfo.toNat) := by
    intro h
    exact absurd h (by decide)
  have htwice := hrun.step _ hcommand
  exact ⟨⟨_, htwice⟩, _, htwice.step _ hack⟩

/-- The acknowledgement releases the first answer's buffer alone, and the second one is shown. -/
theorem acknowledged_shown :
    (fids inquiredTwice).Perm (0x100 :: fids acknowledged) ∧ (acknowledged.regs regInfofid).toNat = 0x101 := by
  obtain ⟨⟨host, hrun⟩, host', hrun'⟩ := acknowledged_run
  have htwice := events_sound openNetwork [2, 0x60, 0xb3, 0, 0, 1] false 0 [1, 3, 0xdc, 0, 0xff] hrun
  have hacked := events_sound openNetwork [2, 0x60, 0xb3, 0, 0, 1] false 0 [1, 3, 0xdc, 0, 0xff] hrun'
  refine ⟨(htwice.2.2.2.2.1 (.write (2 * regEvack) 2 evInfo.toNat) evInfo rfl).2.2, ?_⟩
  exact hacked.2.1.2.2 0x101 [] acknowledged_fids

/-- INIT frees a queued buffer that was never acknowledged. -/
theorem init_frees_queued :
    ∃ t host, Run started t host ∧ 0x100 ∈ infoFids t ∧ Own t (.write 0 2 0) ∧ written t regEvack (.write 0 2 0) = none ∧
      0x100 ∉ fids (step t (.write 0 2 0)) := by
  obtain ⟨host, hrun⟩ := inquired_run
  have hop : opOf inquired (.write 0 2 0) = some 0 := rfl
  refine ⟨inquired, host, hrun, ?_, ?_, rfl, ?_⟩
  · rw [inquired_fids.1]
    exact List.mem_singleton_self _
  · intro h
    rw [hop] at h
    cases h
  · rw [((Inv.run hrun).init hop).2.2]
    exact List.not_mem_nil

end Be300.Xi825
