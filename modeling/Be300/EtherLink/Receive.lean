/-
  Be300.EtherLink.Receive — the receive FIFO of `src/hw/el3.c`.

  `frames` are the frames waiting in the ring, `history` what a run adds to them, takes from
  them with RxDiscard or drops with a reset, and `readBytes` the bytes its FIFO reads bring.

  Proved (`frames_in_order`): from any reachable state and whatever the driver and the network
  do, at most eight frames wait, and they are the accepted ones in order less those discarded
  or dropped; the length register names the length of the oldest; and reads of any widths,
  with other accesses and arrivals between them, bring that frame's bytes in order.
-/

import Be300.EtherLink.Transmit
import Be300.Lib.Queue

namespace Be300.EtherLink

open Lib

def frameIn (slot : RxSlot) : List UInt8 := (List.range slot.length).map slot.data

def frames (s : El3) : List (List UInt8) := (s.rx.contents el3RxFrames).map frameIn

/-- A frame that finds the receiver on, passes the filter and finds room. -/
def Accepts (s : El3) (frame : List UInt8) : Prop :=
  ¬(s.rxEnabled = false ∨ frame.length < 14 ∨ rxSize < frame.length) ∧ ¬wanted s frame = false ∧ ¬s.rx.count = el3RxFrames

instance (s : El3) (frame : List UInt8) : Decidable (Accepts s frame) := by
  unfold Accepts
  infer_instance

def commandTraffic (s : El3) (value : Nat) : List (Traffic (List UInt8)) :=
  match value % 2 ^ 16 / 2 ^ 11 with
  | 0 => [.dropped]
  | 5 => [.dropped]
  | 8 => if s.rx.count = 0 then [] else [.left (frameIn s.rx.front)]
  | _ => []

def traffic (s : El3) : Access → List (Traffic (List UInt8))
  | .read _ _ => []
  | .write offset size value => if offset % 16 = 0x0E ∧ 2 ≤ size then commandTraffic s value else []
  | .receive frame => if Accepts s frame then [.arrived [frame]] else []

def history : El3 → List Access → List (Traffic (List UInt8))
  | _, [] => []
  | s, a :: accesses => traffic s a ++ history (step s a).1 accesses

/-- The bytes of a read of the FIFO while a frame waits. -/
def readPart (s : El3) : Access → List UInt8
  | .read offset size => if s.window = 1 ∧ offset % 16 < 4 ∧ s.rx.count ≠ 0 then writeBytes size (el3Read s offset size).2 else []
  | _ => []

def readBytes : El3 → List Access → List UInt8
  | _, [] => []
  | s, a :: accesses => readPart s a ++ readBytes (step s a).1 accesses

/-- Slots hold frames of the lengths that are accepted. -/
structure RxInRange (s : El3) : Prop where
  fits : s.rx.Fits el3RxFrames
  lengths : ∀ slot ∈ s.rx.contents el3RxFrames, slot.length ≤ rxSize

section Rx

variable {s : El3}

theorem frameIn_copied (frame : List UInt8) (old : RxSlot) : frameIn (copied frame old) = frame := by
  apply List.ext_getElem
  · simp [frameIn, copied]
  · intro i hi hi'
    simp [frameIn, copied, hi']

theorem accepted_rx {frame : List UInt8} (h : Accepts s frame) :
    (el3Receive s frame).1 = { s with rx := s.rx.push el3RxFrames (copied frame (s.rx.get el3RxFrames s.rx.count)) } := by
  rw [el3Receive, if_neg h.1, if_neg h.2.1, if_neg h.2.2]

theorem refused_rx {frame : List UInt8} (h : ¬Accepts s frame) :
    (el3Receive s frame).1.rx = s.rx ∧ (el3Receive s frame).1.rxPos = s.rxPos := by
  unfold el3Receive
  split
  · exact ⟨rfl, rfl⟩
  split
  · exact ⟨rfl, rfl⟩
  split
  · exact ⟨rfl, rfl⟩
  · rename_i hlength hwanted hroom
    exact absurd ⟨hlength, hwanted, hroom⟩ h

/-- The ring with a frame behind the others. -/
theorem receive_spec {frame : List UInt8} (h : RxInRange s) (haccepts : Accepts s frame) :
    RxInRange (el3Receive s frame).1 ∧ frames (el3Receive s frame).1 = frames s ++ [frame] := by
  have hroom : s.rx.count < el3RxFrames := Nat.lt_of_le_of_ne h.fits.count haccepts.2.2
  rw [accepted_rx haccepts]
  have hcontents := Fifo.contents_push hroom (copied frame (s.rx.get el3RxFrames s.rx.count))
  constructor
  · refine ⟨Fifo.fits_push h.fits hroom _, ?_⟩
    intro slot hslot
    rw [show ({ s with rx := s.rx.push el3RxFrames (copied frame (s.rx.get el3RxFrames s.rx.count)) } : El3).rx = _ from rfl,
      hcontents, List.mem_append, List.mem_singleton] at hslot
    rcases hslot with hold | rfl
    · exact h.lengths slot hold
    · exact Nat.le_of_not_lt fun hlong => haccepts.1 (Or.inr (Or.inr hlong))
  · unfold frames
    rw [show ({ s with rx := s.rx.push el3RxFrames (copied frame (s.rx.get el3RxFrames s.rx.count)) } : El3).rx = _ from rfl,
      hcontents, List.map_append, List.map_singleton, frameIn_copied]

theorem clear_spec (s t : El3) (h : t.rx = s.rx.clear) : RxInRange t ∧ frames t = [] := by
  have hnone : t.rx.contents el3RxFrames = [] := by
    rw [h]
    exact Fifo.contents_clear s.rx
  constructor
  · constructor
    · rw [h]
      exact Fifo.fits_clear (by decide) s.rx
    · intro slot hslot
      rw [hnone] at hslot
      cases hslot
  · rw [frames, hnone]
    rfl

theorem same_spec {t : El3} (h : RxInRange s) (hrx : t.rx = s.rx) : RxInRange t ∧ frames t = frames s := by
  constructor
  · constructor
    · rw [hrx]
      exact h.fits
    · rw [hrx]
      exact h.lengths
  · rw [frames, hrx]
    rfl

/-- RxDiscard takes the oldest frame. -/
theorem pop_spec (h : RxInRange s) (hsome : s.rx.count ≠ 0) :
    RxInRange (rxPop s) ∧ frames s = frameIn s.rx.front :: frames (rxPop s) := by
  have hcap : el3RxFrames < 2 ^ 32 := by decide
  have hcontents := Fifo.contents_pop h.fits hcap hsome
  rw [rxPop, if_neg hsome]
  constructor
  · refine ⟨Fifo.fits_pop h.fits hcap hsome, ?_⟩
    intro slot hslot
    exact h.lengths slot (by rw [hcontents]; exact List.mem_cons_of_mem _ hslot)
  · rw [frames, hcontents, List.map_cons]
    rfl

theorem command_flow (value : Nat) (h : RxInRange s) :
    RxInRange (command s value) ∧ Flow (frames s) (commandTraffic s value) (frames (command s value)) := by
  have hquiet : ∀ t : El3, t.rx = s.rx → RxInRange t ∧ Flow (frames s) [] (frames t) := by
    intro t ht
    obtain ⟨hrange, hsame⟩ := same_spec h ht
    rw [hsame]
    exact ⟨hrange, .nil⟩
  have hdrop : ∀ t : El3, t.rx = s.rx.clear → RxInRange t ∧ Flow (frames s) [.dropped] (frames t) := by
    intro t ht
    obtain ⟨hrange, hnone⟩ := clear_spec s t ht
    rw [hnone]
    exact ⟨hrange, .dropped .nil⟩
  unfold command commandTraffic
  generalize value % 2 ^ 16 / 2 ^ 11 = op
  simp only
  split
  · exact hdrop (el3Reset s) rfl
  · exact hquiet _ rfl
  · exact hquiet _ rfl
  · exact hquiet _ rfl
  · exact hdrop { s with rx := s.rx.clear, rxPos := 0, rxEnabled := false } rfl
  · by_cases hnone : s.rx.count = 0
    · simp only [if_pos hnone]
      exact hquiet _ (by rw [rxPop, if_pos hnone])
    · obtain ⟨hrange, hfront⟩ := pop_spec h hnone
      simp only [if_neg hnone]
      rw [hfront]
      exact ⟨hrange, .left .nil⟩
  · exact hquiet _ rfl
  · exact hquiet _ rfl
  · exact hquiet { s with tx := [], txStatus := [], txEnabled := false } rfl
  · exact hquiet _ rfl
  · exact hquiet _ rfl
  · exact hquiet _ rfl
  · exact hquiet _ rfl
  · exact hquiet _ rfl
  · rename_i hother _ _ _ hother' hother'' _ _ _ _ _ _ _ _
    split
    · exact absurd rfl hother
    · exact absurd rfl hother'
    · exact absurd rfl hother''
    · exact hquiet _ rfl

/-- An access other than a command or an accepted frame leaves the ring as it is. -/
theorem window0_rx (s : El3) (offset value : Nat) : (writeWindow0 s offset value).rx = s.rx ∧
    (writeWindow0 s offset value).rxPos = s.rxPos := by
  unfold writeWindow0
  split
  · exact ⟨rfl, rfl⟩
  · exact ⟨rfl, rfl⟩
  · exact ⟨rfl, rfl⟩
  · exact ⟨rfl, rfl⟩
  · exact ⟨rfl, rfl⟩

theorem write_rx {offset size : Nat} (value : Nat) (h : ¬(offset % 16 = 0x0E ∧ 2 ≤ size)) :
    (el3Write s offset size value).1.rx = s.rx ∧ (el3Write s offset size value).1.rxPos = s.rxPos := by
  unfold el3Write
  simp only [if_neg h]
  split
  · obtain ⟨hkept, -⟩ := fifoWrite_spec s size value
    exact ⟨hkept.rx, hkept.rxPos⟩
  split
  · exact ⟨rfl, rfl⟩
  split
  · exact ⟨rfl, rfl⟩
  split
  · exact window0_rx s _ value
  split
  · exact ⟨rfl, rfl⟩
  · exact ⟨rfl, rfl⟩

theorem write_command {offset size : Nat} (value : Nat) (h : offset % 16 = 0x0E ∧ 2 ≤ size) :
    (el3Write s offset size value).1 = command s value := by
  unfold el3Write
  simp only [if_pos h]

theorem read_rx (s : El3) (offset size : Nat) : (el3Read s offset size).1.rx = s.rx := by
  unfold el3Read fifoRead
  simp only
  split
  · rfl
  split
  · split
    · rfl
    · rfl
  · rfl

theorem step_flow (a : Access) (h : RxInRange s) :
    RxInRange (step s a).1 ∧ Flow (frames s) (traffic s a) (frames (step s a).1) := by
  have hquiet : ∀ t : El3, t.rx = s.rx → RxInRange t ∧ Flow (frames s) [] (frames t) := by
    intro t ht
    obtain ⟨hrange, hsame⟩ := same_spec h ht
    rw [hsame]
    exact ⟨hrange, .nil⟩
  rcases a with ⟨offset, size⟩ | ⟨offset, size, value⟩ | frame
  · exact hquiet _ (read_rx s offset size)
  · by_cases hcommand : offset % 16 = 0x0E ∧ 2 ≤ size
    · rw [show (step s (.write offset size value)).1 = command s value from write_command value hcommand,
        show traffic s (.write offset size value) = commandTraffic s value from if_pos hcommand]
      exact command_flow value h
    · rw [show traffic s (.write offset size value) = [] from if_neg hcommand]
      exact hquiet _ (write_rx value hcommand).1
  · by_cases haccepts : Accepts s frame
    · obtain ⟨hrange, hframes⟩ := receive_spec h haccepts
      rw [show traffic s (.receive frame) = [.arrived [frame]] from if_pos haccepts,
        show frames (step s (.receive frame)).1 = frames s ++ [frame] from hframes]
      exact ⟨hrange, .arrived .nil⟩
    · rw [show traffic s (.receive frame) = [] from if_neg haccepts]
      exact hquiet _ (refused_rx haccepts).1

theorem run_flow (accesses : List Access) (h : RxInRange s) :
    RxInRange (run s accesses) ∧ Flow (frames s) (history s accesses) (frames (run s accesses)) := by
  induction accesses generalizing s with
  | nil => exact ⟨h, .nil⟩
  | cons a accesses ih =>
    obtain ⟨hrange, hflow⟩ := step_flow a h
    obtain ⟨hrange', hflow'⟩ := ih hrange
    exact ⟨hrange', hflow.append hflow'⟩

theorem Reachable.rxInRange (h : Reachable s) : RxInRange s := by
  obtain ⟨connected, mac, accesses, rfl⟩ := h
  exact (run_flow accesses (clear_spec _ (el3Init connected mac) rfl).1).1

end Rx

/-! ## Reading a frame -/

section Reading

variable {s : El3} {data : Nat → UInt8}

/-- A byte of a slot, from any position. -/
def byteAt (data : Nat → UInt8) (p : Nat) : UInt8 := if p % 2 ^ 32 < rxSize then data (p % 2 ^ 32) else 0

theorem low_byte (b : UInt8) (rest : Nat) : UInt8.ofNat (b.toNat ||| rest <<< 8) = b ∧ (b.toNat ||| rest <<< 8) >>> 8 = rest := by
  have hlt := b.toNat_lt
  have hsum : b.toNat ||| rest <<< 8 = rest * 256 + b.toNat := by
    rw [Nat.or_comm, ← Nat.shiftLeft_add_eq_or_of_lt hlt, Nat.shiftLeft_eq]
  rw [hsum]
  constructor
  · apply UInt8.toNat_inj.mp
    rw [UInt8.toNat_ofNat']
    omega
  · rw [Nat.shiftRight_eq_div_pow]
    omega

theorem fifoReadFrom_bytes (size : Nat) {pos p : Nat} (hp : p % 2 ^ 32 = pos) :
    writeBytes size (fifoReadFrom data pos size) = (List.range size).map fun i => byteAt data (p + i) := by
  induction size generalizing pos p with
  | zero => rfl
  | succ size ih =>
    have hbyte : (if pos < rxSize then (data pos).toNat else 0) = (byteAt data p).toNat := by
      rw [byteAt, hp]
      split
      · rfl
      · rfl
    obtain ⟨hlow, hrest⟩ := low_byte (byteAt data p) (fifoReadFrom data ((pos + 1) % 2 ^ 32) size)
    have hnext : (p + 1) % 2 ^ 32 = (pos + 1) % 2 ^ 32 := by omega
    rw [fifoReadFrom, hbyte, writeBytes, hlow, hrest, ih hnext, List.range_succ_eq_map, List.map_cons, List.map_map]
    congr 1
    apply List.map_congr_left
    intro i _
    rw [show p + 1 + i = p + (i + 1) by omega]
    rfl

/-- The history of a run in which no frame is discarded or dropped. -/
def OnlyArrivals (h : List (Traffic (List UInt8))) : Prop := ∀ t ∈ h, ∃ frame, t = .arrived [frame]

/-- A command that takes no frame leaves the ring as it is. -/
theorem command_keeps {value : Nat} (hsome : s.rx.count ≠ 0) (harrivals : OnlyArrivals (commandTraffic s value)) :
    (command s value).rx = s.rx ∧ (command s value).rxPos = s.rxPos := by
  have hnone : ∀ t l, commandTraffic s value = t :: l → ∃ frame, t = .arrived [frame] := by
    intro t l h
    exact harrivals t (by rw [h]; exact List.mem_cons_self)
  unfold commandTraffic at hnone
  unfold command
  generalize value % 2 ^ 16 / 2 ^ 11 = op at hnone ⊢
  simp only
  split
  · obtain ⟨frame, h⟩ := hnone _ _ rfl
    cases h
  · exact ⟨rfl, rfl⟩
  · exact ⟨rfl, rfl⟩
  · exact ⟨rfl, rfl⟩
  · obtain ⟨frame, h⟩ := hnone _ _ rfl
    cases h
  · obtain ⟨frame, h⟩ := hnone _ _ (if_neg hsome)
    cases h
  · exact ⟨rfl, rfl⟩
  · exact ⟨rfl, rfl⟩
  · exact ⟨rfl, rfl⟩
  · exact ⟨rfl, rfl⟩
  · exact ⟨rfl, rfl⟩
  · exact ⟨rfl, rfl⟩
  · exact ⟨rfl, rfl⟩
  · exact ⟨rfl, rfl⟩
  · exact ⟨rfl, rfl⟩

/-- The bytes an access reads, and where it leaves the oldest frame. -/
structure Reads (s t : El3) (part : List UInt8) (n : Nat) : Prop where
  count : t.rx.count ≠ 0
  front : t.rx.front = s.rx.front
  pos : t.rxPos = (s.rxPos + n) % 2 ^ 32
  part : part = (List.range n).map fun i => byteAt s.rx.front.data (s.rxPos + i)

theorem Reads.still {t : El3} (hsome : s.rx.count ≠ 0) (hpos : s.rxPos < 2 ^ 32) (hrx : t.rx = s.rx) (hkept : t.rxPos = s.rxPos) :
    Reads s t [] 0 :=
  ⟨by rw [hrx]; exact hsome, by rw [hrx], by rw [hkept, Nat.add_zero, Nat.mod_eq_of_lt hpos], rfl⟩

theorem read_bytes (offset size : Nat) (hsome : s.rx.count ≠ 0) (hpos : s.rxPos < 2 ^ 32) :
    ∃ n, Reads s (el3Read s offset size).1 (readPart s (.read offset size)) n := by
  by_cases hfifo : s.window = 1 ∧ offset % 16 < 4
  · have hread : el3Read s offset size =
        ({ s with rxPos := (s.rxPos + size) % 2 ^ 32 }, fifoReadFrom s.rx.front.data s.rxPos size) := by
      unfold el3Read fifoRead
      simp only [if_neg (show ¬0x0E ≤ offset % 16 by omega), if_pos hfifo, if_neg hsome]
    have hpart : readPart s (.read offset size) = writeBytes size (el3Read s offset size).2 := if_pos ⟨hfifo.1, hfifo.2, hsome⟩
    rw [hpart, hread]
    exact ⟨size, hsome, rfl, rfl, fifoReadFrom_bytes size (Nat.mod_eq_of_lt hpos)⟩
  · have hread : (el3Read s offset size).1 = s := by
      unfold el3Read
      simp only [if_neg hfifo]
      split
      · rfl
      · rfl
    have hpart : readPart s (.read offset size) = [] := if_neg fun h => hfifo ⟨h.1, h.2.1⟩
    rw [hpart, hread]
    exact ⟨0, .still hsome hpos rfl rfl⟩

/-- The oldest frame stays where it is, and a FIFO read brings its next bytes. -/
theorem step_reads {a : Access} (h : RxInRange s) (hsome : s.rx.count ≠ 0) (hpos : s.rxPos < 2 ^ 32)
    (harrivals : OnlyArrivals (traffic s a)) : ∃ n, Reads s (step s a).1 (readPart s a) n := by
  rcases a with ⟨offset, size⟩ | ⟨offset, size, value⟩ | frame
  · exact read_bytes offset size hsome hpos
  · by_cases hcommand : offset % 16 = 0x0E ∧ 2 ≤ size
    · rw [show traffic s (.write offset size value) = commandTraffic s value from if_pos hcommand] at harrivals
      obtain ⟨hrx, hkept⟩ := command_keeps hsome harrivals
      rw [show (step s (.write offset size value)).1 = command s value from write_command value hcommand]
      exact ⟨0, .still hsome hpos hrx hkept⟩
    · obtain ⟨hrx, hkept⟩ := write_rx (s := s) value hcommand
      exact ⟨0, .still hsome hpos hrx hkept⟩
  · by_cases haccepts : Accepts s frame
    · have hroom : s.rx.count < el3RxFrames := Nat.lt_of_le_of_ne h.fits.count haccepts.2.2
      have hplace : s.rx.head ≠ (s.rx.head + s.rx.count) % el3RxFrames := by
        have hne := Fifo.place_ne s.rx.head (Nat.pos_of_ne_zero hsome) (show s.rx.count < 0 + el3RxFrames by omega)
        rwa [Nat.add_zero, Nat.mod_eq_of_lt h.fits.head] at hne
      rw [show (step s (.receive frame)).1 = _ from accepted_rx haccepts]
      refine ⟨0, Nat.succ_ne_zero _, if_neg hplace, ?_, rfl⟩
      rw [Nat.add_zero, Nat.mod_eq_of_lt hpos]
    · obtain ⟨hrx, hkept⟩ := refused_rx haccepts
      exact ⟨0, .still hsome hpos hrx hkept⟩

theorem run_reads {accesses : List Access} (h : RxInRange s) (hsome : s.rx.count ≠ 0) (hpos : s.rxPos < 2 ^ 32)
    (harrivals : OnlyArrivals (history s accesses)) :
    ∃ n, readBytes s accesses = (List.range n).map fun i => byteAt s.rx.front.data (s.rxPos + i) := by
  induction accesses generalizing s with
  | nil => exact ⟨0, rfl⟩
  | cons a accesses ih =>
    obtain ⟨n, hreads⟩ := step_reads h hsome hpos fun t ht => harrivals t (List.mem_append_left _ ht)
    have hpos' : (step s a).1.rxPos < 2 ^ 32 := by
      rw [hreads.pos]
      exact Nat.mod_lt _ (by decide)
    obtain ⟨m, hrest⟩ := ih (step_flow a h).1 hreads.count hpos' fun t ht => harrivals t (List.mem_append_right _ ht)
    refine ⟨n + m, ?_⟩
    rw [readBytes, hrest, hreads.part, hreads.front, hreads.pos, List.range_add, List.map_append, List.map_map]
    congr 1
    apply List.map_congr_left
    intro i _
    unfold byteAt
    rw [show ((s.rxPos + n) % 2 ^ 32 + i) % 2 ^ 32 = (s.rxPos + (n + i)) % 2 ^ 32 by omega]
    rfl

/-- Whatever the driver and the network do, the frames that wait are the accepted ones in order,
    and the driver reads the oldest one byte for byte. -/
theorem frames_in_order (hs : Reachable s) (accesses : List Access) :
    (frames (run s accesses)).length ≤ 8 ∧
    Flow (frames s) (history s accesses) (frames (run s accesses)) ∧
    ∀ (frame : List UInt8) (rest : List (List UInt8)), frames s = frame :: rest →
      (s.window = 1 → (el3Read s 0x08 2).2 = frame.length) ∧
      (s.rxPos = 0 → OnlyArrivals (history s accesses) →
        ∀ i (hi : i < (readBytes s accesses).length) (hi' : i < frame.length), (readBytes s accesses)[i] = frame[i]) := by
  have hrange := hs.rxInRange
  obtain ⟨hafter, hflow⟩ := run_flow accesses hrange
  refine ⟨?_, hflow, ?_⟩
  · rw [frames, List.length_map, Fifo.length_contents]
    exact hafter.fits.count
  · intro frame rest hframes
    have hsome : s.rx.count ≠ 0 := by
      intro hnone
      rw [frames, Fifo.contents_eq_nil.mpr hnone] at hframes
      cases hframes
    have hfront : frame = frameIn s.rx.front := by
      have hpop := (pop_spec hrange hsome).2
      rw [hframes] at hpop
      exact (List.cons.inj hpop).1
    have hshort : s.rx.front.length ≤ rxSize := by
      apply hrange.lengths
      rw [Fifo.contents_pop hrange.fits (by decide) hsome]
      exact List.mem_cons_self
    have hlength : frame.length = s.rx.front.length := by
      rw [hfront]
      simp [frameIn]
    constructor
    · intro hwindow
      have hreg : reg16 s 0x08 = UInt16.ofNat (s.rx.front.length % 2 ^ 11) := by
        unfold reg16
        rw [hwindow]
        exact if_neg hsome
      have hread : (el3Read s 0x08 2).2 = (reg16 s 0x08).toNat := by
        unfold el3Read
        simp
      unfold rxSize at hshort
      rw [hread, hreg, hlength, UInt16.toNat_ofNat']
      omega
    · intro hpos harrivals i hi hi'
      obtain ⟨n, hbytes⟩ := run_reads hrange hsome (by rw [hpos]; decide) harrivals
      have hin : i < rxSize := by omega
      simp only [hbytes, hfront, List.getElem_map, List.getElem_range, frameIn, hpos, Nat.zero_add, byteAt]
      rw [Nat.mod_eq_of_lt (show i < 2 ^ 32 by unfold rxSize at hin; omega), if_pos hin]

/-- Every frame let in, one there, and window 1 selected. -/
def oneReceived : El3 :=
  run (el3Init true fun _ => 0)
    [.write 0x0E 2 0x2000, .write 0x0E 2 0x8008, .receive [1, 2, 3, 4, 5, 6, 7, 8, 9, 10, 11, 12, 13, 14], .write 0x0E 2 0x0801]

theorem frames_in_order_one : (el3Read oneReceived 0x08 2).2 = 14 ∧
    (readBytes oneReceived [.read 0 4, .receive [], .read 0 2])[5]? = some 6 := by
  have hs : Reachable oneReceived := ⟨_, _, _, rfl⟩
  obtain ⟨-, -, hfirst⟩ := frames_in_order hs [.read 0 4, .receive [], .read 0 2]
  obtain ⟨hlength, hread⟩ := hfirst [1, 2, 3, 4, 5, 6, 7, 8, 9, 10, 11, 12, 13, 14] [] (by decide)
  have harrivals : history oneReceived [.read 0 4, .receive [], .read 0 2] = [] := by decide
  refine ⟨hlength rfl, ?_⟩
  rw [List.getElem?_eq_getElem (by decide), hread rfl (by rw [harrivals]; intro t ht; cases ht) 5 (by decide) (by decide)]
  rfl

end Reading

end Be300.EtherLink
