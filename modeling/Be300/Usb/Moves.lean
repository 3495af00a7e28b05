/-
  Be300.Usb.Moves — what the USB function and its redirection can do.

  `View` is what requests, bulk data and the offer to the peer depend on. A `Move` changes it
  in one way and records it; every event is a chain of them (`step_steps`). The invariants
  are about moves.
-/

import Mathlib.Logic.Relation
import Be300.Usb.Redir

namespace Be300.Usb

open Lib

/-! ## Views -/

structure UView where
  ctrl : Ctrl
  ctrlPending : Bool
  out : Fifo Packet
  outPos : Nat
  inStage : Packet
  inFifo : Fifo Packet
  log : List Note

structure View where
  u : UView
  fd : Bool
  connecting : Bool
  newPeer : Bool
  hello : Bool
  caps : Nat
  connected : Bool
  bulkIn : Fifo Xfer
  bulkOut : Fifo Xfer
  mpsIn : Nat
  mpsOut : Nat

def Usbf.view (u : Usbf) : UView :=
  { ctrl := u.ctrl, ctrlPending := u.ctrlPending, out := u.out, outPos := u.outPos, inStage := u.inStage, inFifo := u.inFifo
    log := u.log }

def Dev.view (d : Dev) : View :=
  { u := d.toUsbf.view, fd := d.ch.fd, connecting := d.ch.connecting, newPeer := d.ch.newPeer, hello := d.peerHello
    caps := d.peerCaps, connected := d.connected, bulkIn := d.bulkIn, bulkOut := d.bulkOut, mpsIn := d.mpsBulkIn
    mpsOut := d.mpsBulkOut }

namespace View

def up (v : View) : Bool := v.fd && !v.connecting

def wide (caps : Nat) : Bool := ourCaps.testBit cap64bitsIds && caps.testBit cap64bitsIds

def wire (v : View) (id : Nat) : Nat := if wide v.caps then id % 2 ^ 64 else id % 2 ^ 32

def notes (v : View) (l : List Note) : View := { v with u := { v.u with log := v.u.log ++ l } }

def idle (v : View) : View := { v with u := { v.u with ctrl := { v.u.ctrl with active := false, done := false } } }

/-- Without its transfers. -/
def emptied (v : View) : View := { v.idle with bulkIn := v.bulkIn.clear, bulkOut := v.bulkOut.clear }

/-- Without its peer. -/
def alone (v : View) : View := { v with fd := false, connecting := false, newPeer := false, hello := false, caps := 0 }

/-- After the loss of the peer. -/
def lost (v : View) : View :=
  if v.connected then { v.alone.emptied with connected := false }.notes [.lost, .dropped] else v.alone.notes [.lost]

/-- The chunk of the oldest OUT request that comes next. -/
def chunk (v : View) : List UInt8 :=
  (v.bulkOut.front.data.drop v.bulkOut.front.off).take
    (min (v.bulkOut.front.len - v.bulkOut.front.off) (if v.mpsOut ≠ 0 then v.mpsOut else epMaxPacket))

end View

/-! ## Moves -/

/-- What the controller records. -/
def Note.ofController : Note → Bool
  | .flushed => true
  | .took _ => true
  | .staged _ => true
  | .committed _ => true
  | _ => false

/-- Of the controller. -/
inductive UMove (v : UView) : UView → Prop where
  | took (h : v.out.count ≠ 0) (hmore : v.outPos + 1 < v.out.front.len) :
      UMove v { v with outPos := v.outPos + 1, log := v.log ++ [.took (v.out.front.data v.outPos)] }
  | tookLast (h : v.out.count ≠ 0) (hlast : v.out.front.len ≤ v.outPos + 1) :
      UMove v { v with
        out := v.out.pop outSlots, outPos := 0
        log := v.log ++ [.took (if v.outPos < v.out.front.len then v.out.front.data v.outPos else 0)] }
  | staged (data : Nat → UInt8) (len : Nat) (hlen : len ≤ epMaxPacket) (requested : Bool)
      (h : requested = true → v.inFifo.count < inSlots) :
      UMove v { v with inStage := { data, len }, log := v.log ++ [.staged requested] }
  | committed : UMove v { v with
      inFifo := if v.inFifo.count < inSlots then v.inFifo.push inSlots v.inStage else v.inFifo
      inStage := { v.inStage with len := 0 }, log := v.log ++ [.committed v.inStage.bytes] }
  | cleared : UMove v { v with inStage := { v.inStage with len := 0 } }
  | flushed (out inFifo : Fifo Packet) (inStage : Packet) (hout : out.head = 0 ∧ out.count = 0)
      (hin : inFifo.head = 0 ∧ inFifo.count = 0) (hstage : inStage.len = 0) :
      UMove v { v with out, outPos := 0, inStage, inFifo, log := v.log ++ [.flushed] }
  | completed (ok : Bool) (h : v.ctrlPending = true) : UMove v { v with
      ctrlPending := false, ctrl := if v.ctrl.active then { v.ctrl with done := true, ok } else v.ctrl }
  | setup : UMove v { v with ctrlPending := true }

/-- A reply to a request. -/
def reply (type : Nat) : Bool := type == urControlPacket || type == urBulkPacket

/-- The status of a bulk reply. -/
def bulkStatus (header : List UInt8) : UInt8 := at' header 1

/-- The device is offered: interfaces, endpoints and the device itself, in this order. -/
def Offer (l : List Note) : Prop :=
  ∃ a b c e i j k x y z, l = a ++ .sent urInterfaceInfo i x [] :: b ++ .sent urEpInfo j y [] :: c ++
    .sent urDeviceConnect k z [] :: e ∧
    ∀ id header data, .sent urDeviceDisconnect id header data ∉ e

/-- Of the stream, before a tick looks at it. -/
inductive Dial (v : View) : View → Prop where
  | peer (h : v.fd = false ∨ v.connecting = true) (newPeer : Bool) :
      Dial v ({ v with fd := true, connecting := false, newPeer := v.newPeer || newPeer }.notes [.peer])
  | dialling (h : v.fd = false) : Dial v { v with fd := true, connecting := true }
  | failed (h : v.connecting = true) : Dial v { v with fd := false, connecting := false }

inductive Move (v : View) : View → Prop where
  | usb {u : UView} (h : UMove v.u u) : Move v { v with u }
  | greeted (h : v.newPeer = true) : Move v { v with newPeer := false, hello := false, caps := 0 }
  | hello (h : v.up = true) (caps : Nat) : Move v ({ v with hello := true, caps }.notes [.hello caps])
  | lost : Move v v.lost
  | reset : Move v (v.emptied.notes [.dropped])
  | detached : Move v ({ v.emptied with connected := false }.notes [.dropped])
  | attached (hup : v.up = true) (hhello : v.hello = true) (hnew : v.newPeer = false) (hconnected : v.connected = false)
      (hempty : v.u.out.count = 0 ∧ v.u.inFifo.count = 0 ∧ v.u.inStage.len = 0) : Move v (v.notes [.attached])
  | described (mpsIn mpsOut : Nat) : Move v ({ v with mpsIn, mpsOut }.notes [.described mpsIn mpsOut])
  /-- Either the offer is complete, or the peer was lost in it. -/
  | connected {l offer : List Note} (hlog : v.u.log = l ++ .attached :: offer) (hnot : Note.connected ∉ offer)
      (h : .lost ∈ offer ∨ Offer offer ∧ (∀ caps, .hello caps ∉ offer) ∧ v.up = true ∧ v.hello = true ∧ v.newPeer = false) :
      Move v ({ v with connected := true }.notes [.connected])
  | sent (h : v.up = true) {type : Nat} (htype : reply type = false)
      (hdisconnect : type = urDeviceDisconnect → v.connected = false)
      (id : Nat) (header data : List UInt8) : Move v (v.notes [.sent type id header data])
  | wrote (n : Nat) : Move v (v.notes [.wrote n])
  /-- A request answered at once. -/
  | refused {id : Nat} (hid : v.wire id = id) {type : Nat} (htype : reply type = true) (header data : List UInt8)
      (hstatus : type = urBulkPacket → data = [] ∧ bulkStatus header ≠ urSuccess ∧ bulkStatus header ≠ urBabble) :
      Move v (v.notes [.request id, .sent type id header data])
  | deferred {id : Nat} (hid : v.wire id = id) (hup : v.up = true) (hnew : v.newPeer = false) (hconnected : v.connected = true)
      (hpending : v.u.ctrlPending = true) (hdr : List UInt8) :
      Move v ({ v with u := { v.u with ctrl := { v.u.ctrl with active := true, done := false, id, hdr } } }.notes
        [.request id, .deferred id])
  | queuedOut {id : Nat} (hid : v.wire id = id) (hup : v.up = true) (hnew : v.newPeer = false) (hconnected : v.connected = true)
      (hroom : v.bulkOut.count < urQueueLen) {ep : UInt8} (hep : ep &&& 0x80 = 0) (data : List UInt8) :
      Move v ({ v with bulkOut := v.bulkOut.push urQueueLen { id, ep, data, len := data.length, off := 0 } }.notes
        [.request id, .queued id data])
  | queuedIn {id : Nat} (hid : v.wire id = id) (hup : v.up = true) (hnew : v.newPeer = false) (hconnected : v.connected = true)
      (hroom : v.bulkIn.count < urQueueLen) {ep : UInt8} (hep : ep &&& 0x80 ≠ 0) (len : Nat) :
      Move v ({ v with bulkIn := v.bulkIn.push urQueueLen { id, ep, data := [], len, off := 0 } }.notes [.request id])
  | answered (h : v.u.ctrl.active = true) (header data : List UInt8) :
      Move v (v.idle.notes [.sent urControlPacket (v.wire v.u.ctrl.id) header data])
  | idled (h : v.up = false) : Move v v.idle
  | cancelledIn {i : Nat} (hi : i < v.bulkIn.count) {header : List UInt8} (hstatus : bulkStatus header = urCancelled) :
      Move v ({ v with bulkIn := v.bulkIn.removeAt urQueueLen i }.notes
        [.sent urBulkPacket (v.wire (v.bulkIn.get urQueueLen i).id) header []])
  | cancelledOut {i : Nat} (hi : i < v.bulkOut.count) {header : List UInt8} (hstatus : bulkStatus header = urCancelled) :
      Move v ({ v with bulkOut := v.bulkOut.removeAt urQueueLen i }.notes
        [.sent urBulkPacket (v.wire (v.bulkOut.get urQueueLen i).id) header []])
  /-- A chunk of the oldest OUT request is put in the FIFO. -/
  | outMoved (hcount : v.bulkOut.count ≠ 0) (hroom : v.u.out.count < outSlots) (hlen : v.chunk.length ≤ epMaxPacket)
      (hne : v.chunk ≠ []) {data : Nat → UInt8} (hdata : ∀ i < v.chunk.length, data i = v.chunk.getD i 0) (off : Nat)
      (hoff : off = v.bulkOut.front.off + min (v.bulkOut.front.len - v.bulkOut.front.off)
        (if v.mpsOut ≠ 0 then v.mpsOut else epMaxPacket)) :
      Move v ({ v with
        bulkOut := v.bulkOut.setFront { v.bulkOut.front with off }
        u := { v.u with out := v.u.out.push outSlots { data, len := v.chunk.length } } }.notes [.accepted v.chunk])
  | outSkipped (hne : v.chunk = []) (off : Nat)
      (hoff : off = v.bulkOut.front.off + min (v.bulkOut.front.len - v.bulkOut.front.off)
        (if v.mpsOut ≠ 0 then v.mpsOut else epMaxPacket)) :
      Move v { v with bulkOut := v.bulkOut.setFront { v.bulkOut.front with off } }
  | outDone (hcount : v.bulkOut.count ≠ 0) (hoff : v.bulkOut.front.len ≤ v.bulkOut.front.off) {header : List UInt8}
      (hstatus : bulkStatus header = urSuccess) (n : Nat) :
      Move v ({ v with bulkOut := v.bulkOut.pop urQueueLen }.notes
        [.sent urBulkPacket (v.wire v.bulkOut.front.id) header [], .wrote n])
  /-- The peer is lost in the reply, and an element is taken from the queue all the same. -/
  | outLost (id : Nat) {header : List UInt8} (hstatus : bulkStatus header = urSuccess) :
      Move v { (v.notes [.sent urBulkPacket id header []]).lost with
        bulkOut := (v.notes [.sent urBulkPacket id header []]).lost.bulkOut.pop urQueueLen }
  | outSilent (h : v.up = false) (hcount : v.bulkOut.count ≠ 0) : Move v { v with bulkOut := v.bulkOut.pop urQueueLen }
  /-- A packet is given to the oldest IN request. -/
  | inMoved (hcount : v.bulkIn.count ≠ 0) (hpacket : v.u.inFifo.count ≠ 0) {pkt : List UInt8}
      (hpkt : pkt = v.u.inFifo.front.bytes.take epMaxPacket) {room : Nat}
        (hroom : room = v.bulkIn.front.len - v.bulkIn.front.off) :
      Move v ({ v with
        bulkIn := v.bulkIn.setFront { v.bulkIn.front with
          data := v.bulkIn.front.data ++ pkt.take (min pkt.length room), off := v.bulkIn.front.off + min pkt.length room }
        u := { v.u with inFifo := v.u.inFifo.pop inSlots } }.notes [.moved pkt.length room])
  | inDone (hcount : v.bulkIn.count ≠ 0) {l : List Note} {m room : Nat} (hlog : v.u.log = l ++ [.moved m room])
      (hdone : room ≤ m ∨ m < (if v.mpsIn ≠ 0 then v.mpsIn else epMaxPacket)) {header : List UInt8}
      (hstatus : bulkStatus header = if m > room then urBabble else urSuccess) (n : Nat) :
      Move v ({ v with bulkIn := v.bulkIn.pop urQueueLen }.notes
        [.sent urBulkPacket (v.wire v.bulkIn.front.id) header
          (if v.bulkIn.front.ep &&& 0x80 ≠ 0 then v.bulkIn.front.data else []), .wrote n])
  | inLost (id : Nat) {header data : List UInt8} (hstatus : bulkStatus header = urSuccess ∨ bulkStatus header = urBabble) :
      Move v { (v.notes [.sent urBulkPacket id header data]).lost with
        bulkIn := (v.notes [.sent urBulkPacket id header data]).lost.bulkIn.pop urQueueLen }
  | inSilent (h : v.up = false) (hcount : v.bulkIn.count ≠ 0) : Move v { v with bulkIn := v.bulkIn.pop urQueueLen }

abbrev UMoves : UView → UView → Prop := Relation.ReflTransGen UMove

abbrev Moves : View → View → Prop := Relation.ReflTransGen Move

abbrev Steps : View → View → Prop := Relation.ReflTransGen fun v w => Dial v w ∨ Move v w

/-! ## The controller -/

section Controller

variable {u : Usbf}

theorem finishControl_moves (u : Usbf) (ok : Bool) : UMoves u.view (finishControl u ok).view := by
  unfold finishControl
  by_cases hpending : u.ctrlPending = true
  · rw [if_pos hpending]
    have hmove := UMove.completed (v := u.view) ok hpending
    unfold onCtrlDone
    by_cases hactive : u.ctrl.active = true
    · rw [if_pos (show u.view.ctrl.active = true from hactive)] at hmove
      rw [if_pos (show _ = true from hactive)]
      exact .single hmove
    · rw [if_neg (show ¬ u.view.ctrl.active = true from hactive)] at hmove
      rw [if_neg (show ¬ _ = true from hactive)]
      exact .single hmove
  · rw [if_neg hpending]

theorem flushFifos_moves (u : Usbf) : UMoves u.view (flushFifos u).view :=
  .single (.flushed u.out.clear u.inFifo.clear { u.inStage with len := 0 } ⟨rfl, rfl⟩ ⟨rfl, rfl⟩ rfl)

theorem finished_pending (u : Usbf) (ok : Bool) : (finishControl u ok).ctrlPending = false := by
  unfold finishControl onCtrlDone
  by_cases hpending : u.ctrlPending = true
  · rw [if_pos hpending]
    split <;> rfl
  · rw [if_neg hpending]
    simpa using hpending

theorem usbfReset_moves (u : Usbf) : UMoves u.view (usbfReset u).view := by
  refine (finishControl_moves u false).trans ?_
  have hinit : ∀ t : Usbf, t.ctrlPending = false → UMove t.view
    ({ usbfInit t with usbAttached := u.usbAttached } : Usbf).view := by
    intro t ht
    have hmove := UMove.flushed (v := t.view) ⟨fun _ => ⟨fun _ => 0, 0⟩, 0, 0⟩ ⟨fun _ => ⟨fun _ => 0, 0⟩, 0, 0⟩ ⟨fun _ => 0, 0⟩
      ⟨rfl, rfl⟩ ⟨rfl, rfl⟩ rfl
    rw [show t.view.ctrlPending = false from ht] at hmove
    exact hmove
  exact .single (hinit _ (finished_pending u false))

theorem outByte_moves (u : Usbf) : UMoves u.view (outByte u).2.view := by
  unfold outByte
  by_cases hpending : outPending u = true
  · rw [if_pos hpending]
    have hcount : u.view.out.count ≠ 0 := bne_iff_ne.mp hpending
    by_cases hlast : u.outPos + 1 ≥ u.out.front.len
    · simp only
      rw [if_pos (show (u.note _).outPos + 1 ≥ u.out.front.len from hlast)]
      exact .single (.tookLast hcount hlast)
    · simp only
      rw [if_neg (show ¬ (u.note _).outPos + 1 ≥ u.out.front.len from hlast), if_pos (by omega)]
      exact .single (.took hcount (Nat.lt_of_not_le hlast))
  · rw [if_neg hpending]

theorem store_view (ram : Bool) (pa : Nat) (b : UInt8) (u : Usbf) : (store ram pa b u).view = u.view := by
  unfold store
  split <;> rfl

theorem drainOut_moves (ram : Bool) (n pa : Nat) (u : Usbf) : UMoves u.view (drainOut ram n pa u).view := by
  induction n generalizing pa u with
  | zero => exact .refl
  | succ n ih =>
    unfold drainOut
    split
    · have hrest := ih (pa + 1) (store ram pa (outByte u).1 (outByte u).2)
      rw [store_view] at hrest
      exact (outByte_moves u).trans hrest
    · exact .refl

theorem queueIn_moves (u : Usbf) : UMoves u.view (queueIn u).view := .single .committed

theorem fillStage_moves (u : Usbf) {len : Nat} (hlen : len ≤ epMaxPacket) (ram : Option (Nat → UInt8)) :
    UMoves u.view (fillStage u len ram).view := by
  refine .single (.staged _ len hlen (txRequest u) fun h => ?_)
  unfold txRequest at h
  exact of_decide_eq_true (Bool.and_eq_true_iff.mp h).2

theorem dma_moves (u : Usbf) (ram : Nat → Nat → Option (Nat → UInt8)) : UMoves u.view (dma u ram).view := by
  have hlen : min u.dmaLen.toNat epMaxPacket ≤ epMaxPacket := Nat.min_le_right _ _
  unfold dma
  simp only
  generalize min u.dmaLen.toNat epMaxPacket = len at hlen ⊢
  generalize (if len = 0 then none else ram (u.dmaAddr % 0x20000000) len) = bytes
  by_cases htx : u.dmaDir &&& 0x01 ≠ 0
  · rw [if_pos htx]
    refine (fillStage_moves u hlen bytes).trans ?_
    by_cases hfull : len = epMaxPacket
    · rw [if_pos hfull]
      exact queueIn_moves (fillStage u len bytes)
    · rw [if_neg hfull]
      exact .refl
  · rw [if_neg htx]
    exact drainOut_moves bytes.isSome len (u.dmaAddr % 0x20000000) u

theorem commit_moves (u : Usbf) (val : UInt8) : UMoves u.view (commit u val).view := by
  unfold commit
  simp only
  have hstatus : UMoves u.view (if val &&& 0x01 ≠ 0 then
      finishControl { u with intstat := update u.intstat 2 (u.intstat 2 ||| 0x08) } true else u).view := by
    split
    · exact finishControl_moves { u with intstat := update u.intstat 2 (u.intstat 2 ||| 0x08) } true
    · exact .refl
  refine hstatus.trans ?_
  generalize (if val &&& 0x01 ≠ 0 then
      finishControl { u with intstat := update u.intstat 2 (u.intstat 2 ||| 0x08) } true else u) = t
  have hpacket : UMoves t.view (if val &&& 0x02 ≠ 0 then queueIn t else t).view := by
    split
    · exact queueIn_moves t
    · exact .refl
  refine hpacket.trans ?_
  generalize (if val &&& 0x02 ≠ 0 then queueIn t else t) = t'
  split <;> exact .refl

theorem resetPulse_moves (u : Usbf) : UMoves u.view (resetPulse u).view :=
  (finishControl_moves u false).trans (flushFifos_moves (finishControl u false))

theorem notify_view (u : Usbf) : (notify u).view = u.view := rfl

theorem readSetup_view (u : Usbf) : (readSetup u).2.view = u.view := by
  unfold readSetup
  simp only
  split
  · split <;> rfl
  · rfl

theorem read_ite {c : Prop} [Decidable c] {v : UView} {x y : Nat × Usbf} (hx : UMoves v x.2.view) (hy : UMoves v y.2.view) :
    UMoves v (if c then x else y).2.view := by
  split <;> assumption

theorem write_ite {c : Prop} [Decidable c] {v : UView} {x y : Usbf} (hx : UMoves v x.view) (hy : UMoves v y.view) :
    UMoves v (if c then x else y).view := by
  split <;> assumption

theorem read_moves (u : Usbf) (off : Nat) : UMoves u.view (read u off).2.view := by
  have hsetup : UMoves u.view (readSetup u).2.view := by
    rw [readSetup_view]
  unfold read
  simp only
  repeat' apply read_ite
  all_goals first
    | exact .refl
    | exact hsetup
    | exact outByte_moves u

theorem writeRegister_moves (u : Usbf) (off val : Nat) (ram : Nat → Nat → Option (Nat → UInt8)) :
    UMoves u.view (writeRegister u off val ram).view := by
  have hstall : UMoves u.view (if UInt8.ofNat val &&& 0x08 ≠ 0 ∧ u.ctrlPending then finishControl u false else u).view :=
    write_ite (finishControl_moves u false) .refl
  unfold writeRegister
  simp only
  refine write_ite .refl (write_ite .refl (write_ite (write_ite (dma_moves u ram) .refl) ?_))
  refine write_ite .refl (write_ite .refl (write_ite .refl (write_ite .refl (write_ite .refl (write_ite .refl ?_)))))
  refine write_ite (write_ite (resetPulse_moves u) .refl)
    (write_ite .refl (write_ite (write_ite .refl .refl) (write_ite hstall ?_)))
  refine write_ite .refl (write_ite .refl (write_ite .refl (write_ite .refl (write_ite .refl (write_ite .refl ?_)))))
  refine write_ite .refl (write_ite (write_ite (.single .cleared) .refl) (write_ite (commit_moves u _) ?_))
  exact write_ite (write_ite .refl .refl) (write_ite .refl .refl)

theorem write_moves (u : Usbf) (off val : Nat) (ram : Nat → Nat → Option (Nat → UInt8)) :
    UMoves u.view (write u off val ram).view :=
  write_ite .refl (writeRegister_moves u _ val ram)

theorem hostAttach_moves (u : Usbf) (attached : Bool) : UMoves u.view (hostAttach u attached).view := by
  unfold hostAttach
  refine write_ite .refl ?_
  simp only
  rw [notify_view]
  refine write_ite .refl ?_
  exact (finishControl_moves { u with usbAttached := attached } false).trans
    (flushFifos_moves (finishControl { u with usbAttached := attached } false))

theorem hostBusReset_moves (u : Usbf) : UMoves u.view (hostBusReset u).view :=
  (finishControl_moves u false).trans (flushFifos_moves (finishControl u false))

theorem standardRequest_view (u : Usbf) (s : Nat → UInt8) : (standardRequest u s).2.2.view = u.view := by
  have hite : ∀ (c : Prop) [Decidable c] (x y : CtrlResult × List UInt8 × Usbf), x.2.2.view = u.view → y.2.2.view = u.view →
      (if c then x else y).2.2.view = u.view := by
    intro c _ x y hx hy
    split <;> assumption
  unfold standardRequest
  simp only
  repeat' apply hite
  all_goals rfl

/-- A request is answered by the controller, which does not change the view, or left to the guest. -/
theorem hostControl_cases (u : Usbf) (s : Nat → UInt8) :
    (hostControl u s).1 ≠ .pending ∧ (hostControl u s).2.2.view = u.view ∨
      (hostControl u s).1 = .pending ∧ UMoves u.view (hostControl u s).2.2.view ∧
        (hostControl u s).2.2.view.ctrlPending = true := by
  unfold hostControl
  by_cases h1 : !u.usbAttached ∨ !descriptorsReady u
  · rw [if_pos h1]
    exact Or.inl ⟨nofun, rfl⟩
  rw [if_neg h1]
  by_cases h2 : s 0 &&& 0x60 = 0
  · rw [if_pos h2]
    exact Or.inl ⟨standardRequest_status u s, standardRequest_view u s⟩
  · rw [if_neg h2]
    exact Or.inr ⟨rfl, (finishControl_moves u false).tail .setup, rfl⟩

theorem hostOut_cases (u : Usbf) (data : List UInt8) :
    hostOut u data = (false, u) ∨ data = [] ∧ hostOut u data = (true, u) ∨
      u.out.count < outSlots ∧ data.length ≤ epMaxPacket ∧ data ≠ [] ∧ ∃ f : Nat → UInt8,
        (∀ i < data.length, f i = data.getD i 0) ∧
        hostOut u data = (true, notify { u with
          out := u.out.push outSlots { data := f, len := data.length }, log := u.log ++ [.accepted data] }) := by
  unfold hostOut
  by_cases h : !u.usbAttached ∨ u.config = 0 ∨ data.length > epMaxPacket ∨ u.out.count ≥ outSlots
  · rw [if_pos h]
    exact Or.inl rfl
  rw [if_neg h]
  push Not at h
  by_cases hnil : data = []
  · rw [if_pos hnil]
    exact Or.inr (Or.inl ⟨hnil, rfl⟩)
  · rw [if_neg hnil]
    exact Or.inr (Or.inr ⟨by omega, by omega, hnil, _, fun i hi => if_pos hi, rfl⟩)

theorem hostIn_cases (u : Usbf) (max : Nat) :
    hostIn u max = (none, u) ∨ u.inFifo.count ≠ 0 ∧
      hostIn u max = (some (u.inFifo.front.bytes.take max), notify { u with inFifo := u.inFifo.pop inSlots }) := by
  unfold hostIn
  by_cases h : !u.usbAttached ∨ u.config = 0 ∨ u.inFifo.count = 0
  · rw [if_pos h]
    exact Or.inl rfl
  · rw [if_neg h]
    exact Or.inr ⟨fun h0 => h (Or.inr (Or.inr h0)), rfl⟩

theorem hostIntrIn_view (u : Usbf) (max : Nat) : (hostIntrIn u max).2.view = u.view := by
  unfold hostIntrIn
  split <;> rfl

end Controller

/-! ## The connection -/

section Connection

variable {d : Dev} {v w : View}

theorem lift_moves {u u' : UView} (h : UMoves u u') (v : View) : Moves { v with u } { v with u := u' } :=
  h.lift (fun u => { v with u }) fun _ _ hmove => Move.usb (v := { v with u := _ }) hmove

theorem on_moves (d : Dev) {f : Usbf → Usbf} (h : UMoves d.toUsbf.view (f d.toUsbf).view) : Moves d.view (d.on f).view :=
  lift_moves h d.view

theorem wire_view (d : Dev) (id : Nat) : wireId d id = d.view.wire id := by
  unfold wireId hdrLen View.wire View.wide bothCap
  show (if (if (ourCaps.testBit cap64bitsIds && d.peerCaps.testBit cap64bitsIds) = true then 16 else 12) = 16 then _ else _) = _
  by_cases hwide : (ourCaps.testBit cap64bitsIds && d.peerCaps.testBit cap64bitsIds) = true
  · rw [if_pos hwide, if_pos rfl]
    exact (if_pos hwide).symm
  · rw [if_neg hwide, if_neg (by decide)]
    exact (if_neg hwide).symm

theorem deviceDetach_moves (d : Dev) : Moves d.view (deviceDetach d).view := by
  unfold deviceDetach
  by_cases h : d.connected = true
  · rw [if_pos h]
    exact .head .detached (on_moves (dropTransfers { d with connected := false }) (hostAttach_moves _ false))
  · rw [if_neg h]

/-- After the loss only the controller moves. -/
theorem peerLost_view (d : Dev) : ∃ u, UMoves d.view.lost.u u ∧ (peerLost d).view = { d.view.lost with u } := by
  unfold peerLost deviceDetach
  by_cases h : d.connected = true
  · rw [if_pos (show (d.noted .lost).connected = true from h)]
    have hlost : d.view.lost = View.notes { d.view.alone.emptied with connected := false } [.lost, .dropped] :=
      if_pos (show d.view.connected = true from h)
    have hattach := hostAttach_moves (dropTransfers { d.noted .lost with connected := false }).toUsbf false
    have hlog : (dropTransfers { d.noted .lost with connected := false }).toUsbf.view = d.view.lost.u := by
      rw [hlost]
      show { d.view.emptied.u with log := d.log ++ [Note.lost] ++ [Note.dropped] } = _
      rw [List.append_assoc]
      rfl
    refine ⟨_, hlog ▸ hattach, ?_⟩
    rw [hlost]
    rfl
  · rw [if_neg (show ¬ (d.noted .lost).connected = true from h)]
    have hlost : d.view.lost = d.view.alone.notes [.lost] := if_neg (show ¬ d.view.connected = true from h)
    refine ⟨d.view.lost.u, .refl, ?_⟩
    rw [hlost]
    rfl

theorem peerLost_moves (d : Dev) : Moves d.view (peerLost d).view := by
  obtain ⟨u, hu, hview⟩ := peerLost_view d
  rw [hview]
  exact .head .lost (lift_moves hu d.view.lost)

/-- What a packet's sending does. -/
inductive Sends (v : View) (n : Note) : View → Prop where
  | silent (h : v.up = false) : Sends v n v
  | wrote (h : v.up = true) (k : Nat) : Sends v n (v.notes [n, .wrote k])
  | lost (h : v.up = true) {u : UView} (hu : UMoves (v.notes [n]).lost.u u) : Sends v n { (v.notes [n]).lost with u }

theorem flushTx_cases (d : Dev) : (∃ k, (flushTx d).view = d.view.notes [.wrote k]) ∨
    ∃ u, UMoves d.view.lost.u u ∧ (flushTx d).view = { d.view.lost with u } := by
  unfold flushTx
  generalize writeLoop d.writes 0 d.tx.length = result
  obtain ⟨writes, off, lost⟩ := result
  cases lost with
  | true => exact Or.inr (peerLost_view { d with writes, tx := d.tx.drop off })
  | false => exact Or.inl ⟨off, rfl⟩

theorem flushTx_moves (d : Dev) : Moves d.view (flushTx d).view := by
  rcases flushTx_cases d with ⟨k, h⟩ | ⟨u, hu, h⟩
  · rw [h]
    exact .single (.wrote k)
  · rw [h]
    exact .head .lost (lift_moves hu d.view.lost)

theorem notes_notes (v : View) (l m : List Note) : (v.notes l).notes m = v.notes (l ++ m) := by
  unfold View.notes
  simp only [List.append_assoc]

theorem sendPacket_sends (d : Dev) (type id : Nat) (th data : List UInt8) :
    Sends d.view (.sent type (d.view.wire id) th data) (sendPacket d type id th data).view := by
  unfold sendPacket
  by_cases hup : d.up = true
  · rw [if_neg (by simp [hup]), wire_view]
    rcases flushTx_cases { d with
      tx := d.tx ++ header d type (th.length + data.length) id ++ th ++ data
      log := d.log ++ [.sent type (d.view.wire id) th data] } with ⟨k, h⟩ | ⟨u, hu, h⟩
    · rw [h]
      show Sends d.view _ ((d.view.notes [_]).notes [.wrote k])
      rw [notes_notes]
      exact .wrote (show d.view.up = true from hup) k
    · rw [h]
      exact .lost (show d.view.up = true from hup) hu
  · rw [if_pos (by simpa using hup)]
    have hdown : d.up = false := by simpa using hup
    exact .silent hdown

theorem Sends.moves {type id : Nat} {header data : List UInt8} (h : Sends v (.sent type id header data) w)
    (htype : reply type = false) (hdisconnect : type = urDeviceDisconnect → v.connected = false) : Moves v w := by
  cases h with
  | silent h => exact .refl
  | wrote h k =>
    have hnotes : (v.notes [.sent type id header data]).notes [.wrote k] = v.notes [.sent type id header data, .wrote k] :=
      notes_notes v _ _
    rw [← hnotes]
    exact .head (.sent h htype hdisconnect id header data) (.single (.wrote k))
  | lost h hu => exact .head (.sent h htype hdisconnect id header data) (.head .lost (lift_moves hu _))

theorem Sends.refused {type id : Nat} {header data : List UInt8} (h : Sends (v.notes [.request id]) (.sent type id header data) w)
    (hup : v.up = true) (hid : v.wire id = id) (htype : reply type = true)
    (hstatus : type = urBulkPacket → data = [] ∧ bulkStatus header ≠ urSuccess ∧ bulkStatus header ≠ urBabble) : Moves v w := by
  have hmove := Move.refused hid htype header data hstatus
  cases h with
  | silent h => exact absurd (hup.symm.trans h) (by decide)
  | wrote h k =>
    rw [notes_notes, show [Note.request id] ++ [.sent type id header data, .wrote k] =
      [.request id, .sent type id header data] ++ [.wrote k] from rfl, ← notes_notes]
    exact .head hmove (.single (.wrote k))
  | lost h hu =>
    rw [notes_notes] at hu ⊢
    exact .head hmove (.head .lost (lift_moves hu _))

theorem Sends.answered {header data : List UInt8} (h : Sends v.idle (.sent urControlPacket (v.wire v.u.ctrl.id) header data) w)
    (hactive : v.u.ctrl.active = true) : Moves v w := by
  have hmove := Move.answered hactive header data
  cases h with
  | silent h => exact .single (.idled h)
  | wrote h k =>
    rw [show [Note.sent urControlPacket (v.wire v.u.ctrl.id) header data, .wrote k] =
      [.sent urControlPacket (v.wire v.u.ctrl.id) header data] ++ [.wrote k] from rfl, ← notes_notes]
    exact .head hmove (.single (.wrote k))
  | lost h hu => exact .head hmove (.head .lost (lift_moves hu _))

/-- A cancelled bulk request, taken from its queue. -/
theorem Sends.cancelled {t : View} {n : Note} (h : Sends t n w) (hup : t.up = true) (hmove : Move v (t.notes [n])) :
    Moves v w := by
  cases h with
  | silent h => exact absurd (hup.symm.trans h) (by decide)
  | wrote h k =>
    rw [show [n, Note.wrote k] = [n] ++ [.wrote k] from rfl, ← notes_notes]
    exact .head hmove (.single (.wrote k))
  | lost h hu => exact .head hmove (.head .lost (lift_moves hu _))

theorem Sends.outDone {header : List UInt8} (h : Sends v (.sent urBulkPacket (v.wire v.bulkOut.front.id) header []) w)
    (hcount : v.bulkOut.count ≠ 0) (hoff : v.bulkOut.front.len ≤ v.bulkOut.front.off) (hstatus : bulkStatus header = urSuccess) :
    Moves v { w with bulkOut := w.bulkOut.pop urQueueLen } := by
  cases h with
  | silent h => exact .single (.outSilent h hcount)
  | wrote h k => exact .single (.outDone hcount hoff hstatus k)
  | lost h hu =>
    refine .head (.outLost (v.wire v.bulkOut.front.id) hstatus) ?_
    exact lift_moves hu { (v.notes [.sent urBulkPacket (v.wire v.bulkOut.front.id) header []]).lost with
      bulkOut := (v.notes [.sent urBulkPacket (v.wire v.bulkOut.front.id) header []]).lost.bulkOut.pop urQueueLen }

theorem Sends.inDone {header : List UInt8} (h : Sends v (.sent urBulkPacket (v.wire v.bulkIn.front.id) header
      (if v.bulkIn.front.ep &&& 0x80 ≠ 0 then v.bulkIn.front.data else [])) w)
    (hcount : v.bulkIn.count ≠ 0) {l : List Note} {m room : Nat} (hlog : v.u.log = l ++ [.moved m room])
    (hdone : room ≤ m ∨ m < (if v.mpsIn ≠ 0 then v.mpsIn else epMaxPacket))
    (hstatus : bulkStatus header = if m > room then urBabble else urSuccess) :
    Moves v { w with bulkIn := w.bulkIn.pop urQueueLen } := by
  cases h with
  | silent h => exact .single (.inSilent h hcount)
  | wrote h k => exact .single (.inDone hcount hlog hdone hstatus k)
  | lost _ hu =>
    generalize (if v.bulkIn.front.ep &&& 0x80 ≠ 0 then v.bulkIn.front.data else []) = data at hu ⊢
    have hends : bulkStatus header = urSuccess ∨ bulkStatus header = urBabble := by
      rw [hstatus]
      split
      · exact Or.inr rfl
      · exact Or.inl rfl
    refine .head (@Move.inLost v (v.wire v.bulkIn.front.id) header data hends) ?_
    exact lift_moves hu { (v.notes [.sent urBulkPacket (v.wire v.bulkIn.front.id) header data]).lost with
      bulkIn := (v.notes [.sent urBulkPacket (v.wire v.bulkIn.front.id) header data]).lost.bulkIn.pop urQueueLen }

theorem replyControl_sends (d : Dev) (id : Nat) (hdr : List UInt8) (status : UInt8) (data : List UInt8) :
    ∃ header data', Sends d.view (.sent urControlPacket (d.view.wire id) header data') (replyControl d id hdr status data).view :=
  ⟨_, _, sendPacket_sends d urControlPacket id _ _⟩

theorem replyBulk_sends (d : Dev) (id : Nat) (ep status : UInt8) (data : List UInt8) (len : Nat) :
    ∃ header, bulkStatus header = status ∧
      Sends d.view (.sent urBulkPacket (d.view.wire id) header (if ep &&& 0x80 ≠ 0 then data else []))
        (replyBulk d id ep status data len).view := by
  refine ⟨_, ?_, sendPacket_sends d urBulkPacket id _ _⟩
  unfold bulkHdrLen
  split <;> rfl

end Connection

/-! ## The offer -/

section Offer

variable {d : Dev} {v w : View} {l notes : List Note}

theorem umove_log {u u' : UView} (h : UMove u u') : ∃ m, u'.log = u.log ++ m ∧ ∀ n ∈ m, n.ofController = true := by
  cases h with
  | cleared => exact ⟨[], (List.append_nil _).symm, by simp⟩
  | completed => exact ⟨[], (List.append_nil _).symm, by simp⟩
  | setup => exact ⟨[], (List.append_nil _).symm, by simp⟩
  | _ => exact ⟨[_], rfl, by simp [Note.ofController]⟩

theorem umoves_log {u u' : UView} (h : UMoves u u') : ∃ m, u'.log = u.log ++ m ∧ ∀ n ∈ m, n.ofController = true := by
  induction h with
  | refl => exact ⟨[], (List.append_nil _).symm, by simp⟩
  | tail _ hmove ih =>
    obtain ⟨m, hm, hall⟩ := ih
    obtain ⟨m', hm', hall'⟩ := umove_log hmove
    refine ⟨m ++ m', by rw [hm', hm, List.append_assoc], fun n hn => ?_⟩
    exact (List.mem_append.mp hn).elim (hall n) (hall' n)

/-- The offer has got as far as these notes. -/
def Offering (l notes : List Note) (v : View) : Prop :=
  v.u.log = l ++ notes ∧ Note.connected ∉ notes ∧ v.up = true ∧ v.hello = true ∧ v.newPeer = false

/-- The peer was lost in the offer. -/
def Broken (l : List Note) (v : View) : Prop :=
  v.up = false ∧ ∃ notes, v.u.log = l ++ notes ∧ Note.connected ∉ notes ∧ .lost ∈ notes

theorem lost_up (v : View) : v.lost.up = false := by
  unfold View.lost
  split <;> rfl

theorem lost_log (v : View) : ∃ m, v.lost.u.log = v.u.log ++ .lost :: m ∧ Note.connected ∉ m := by
  unfold View.lost
  split
  · exact ⟨[.dropped], rfl, by simp⟩
  · exact ⟨[], rfl, by simp⟩

theorem Offering.sends (h : Offering l notes v) {n : Note} (hn : n ≠ .connected) (hsend : Sends v n w) :
    (∃ k, Offering l (notes ++ [n, .wrote k]) w) ∨ Broken l w := by
  obtain ⟨hlog, hnot, hup, hhello, hnew⟩ := h
  cases hsend with
  | silent h => exact absurd (hup.symm.trans h) (by decide)
  | wrote _ k =>
    refine Or.inl ⟨k, ?_, by simp [hnot, Ne.symm hn], hup, hhello, hnew⟩
    show v.u.log ++ [n, .wrote k] = _
    rw [hlog, List.append_assoc]
  | lost _ hu =>
    obtain ⟨m, hm, hconn⟩ := lost_log (v.notes [n])
    obtain ⟨m', hm', hall⟩ := umoves_log hu
    refine Or.inr ⟨lost_up _, notes ++ n :: .lost :: (m ++ m'), ?_, ?_, by simp⟩
    · show _ = _
      rw [hm', hm]
      show v.u.log ++ [n] ++ .lost :: m ++ m' = _
      rw [hlog]
      simp
    · have hcontroller : Note.connected ∉ m' := fun h => absurd (hall _ h) (by decide)
      simp [hnot, hconn, hcontroller, Ne.symm hn]

theorem Broken.sends (h : Broken l v) {n : Note} (hsend : Sends v n w) : Broken l w := by
  cases hsend with
  | silent _ => exact h
  | wrote hup _ => exact absurd (hup.symm.trans h.1) (by decide)
  | lost hup _ => exact absurd (hup.symm.trans h.1) (by decide)

theorem standard_view (d : Dev) {rt : UInt8} (hrt : rt &&& 0x60 = 0) (req : UInt8) (value index : Nat) :
    (standard d rt req value index).2.view = d.view := by
  have hview : (hostControl d.toUsbf (setupBytes ([rt, req] ++ le 2 value ++ le 2 index ++ [0, 0]))).2.2.view =
    d.toUsbf.view := by
    unfold hostControl
    split
    · rfl
    · rw [if_pos (show setupBytes ([rt, req] ++ le 2 value ++ le 2 index ++ [0, 0]) 0 &&& 0x60 = 0 from hrt)]
      exact standardRequest_view _ _
  show { d.view with u := (hostControl d.toUsbf (setupBytes ([rt, req] ++ le 2 value ++ le 2 index ++ [0, 0]))).2.2.view } =
    d.view
  rw [hview]
  rfl

theorem busReset_view (d : Dev) : (busReset d).view = (d.on hostBusReset).view := standard_view _ (by decide) _ _ _

theorem busReset_moves (d : Dev) : Moves d.view (busReset d).view := by
  rw [busReset_view]
  exact on_moves d (hostBusReset_moves _)

/-- The description of the endpoints, and the two packets. -/
theorem sendInterface_sends (d : Dev) : ∃ mpsIn mpsOut ii ei t,
    Sends ({ d.view with mpsIn, mpsOut }.notes [.described mpsIn mpsOut]) (.sent urInterfaceInfo (d.view.wire 0) ii []) t ∧
      Sends t (.sent urEpInfo (t.wire 0) ei []) (sendInterfaceAndEpInfo d).view := by
  unfold sendInterfaceAndEpInfo
  simp only
  generalize parseConfig _ _ _ = e
  generalize le 4 e.interfaces.length ++ (List.range 4).flatMap (column e.interfaces) = ii
  have hinterfaces := sendPacket_sends { d with
    epBulkIn := e.bulkIn, epBulkOut := e.bulkOut, epIntrIn := e.intrIn, mpsBulkIn := e.mpsIn, mpsBulkOut := e.mpsOut
    log := d.log ++ [.described e.mpsIn e.mpsOut] } urInterfaceInfo 0 ii []
  exact ⟨e.mpsIn, e.mpsOut, ii, _, _, hinterfaces, sendPacket_sends _ urEpInfo 0 _ _⟩

theorem sendInterface_moves (d : Dev) : Moves d.view (sendInterfaceAndEpInfo d).view := by
  obtain ⟨mpsIn, mpsOut, ii, ei, t, h1, h2⟩ := sendInterface_sends d
  exact .head (.described mpsIn mpsOut) ((h1.moves rfl (by intro h; cases h)).trans (h2.moves rfl (by intro h; cases h)))

theorem sendDeviceConnect_sends (d : Dev) :
    ∃ h, Sends d.view (.sent urDeviceConnect (d.view.wire 0) h []) (sendDeviceConnect d).view :=
  ⟨_, sendPacket_sends d urDeviceConnect 0 _ _⟩

theorem offer_moves (d : Dev) (hup : d.up = true) (hhello : d.peerHello = true) (hnew : d.ch.newPeer = false)
    (hconnected : d.connected = false) : Moves d.view (offer d).view := by
  have hattach : Moves d.view (busReset (d.on (hostAttach · true))).view :=
    (on_moves d (hostAttach_moves _ true)).trans (busReset_moves _)
  have hreset := busReset_view (d.on (hostAttach · true))
  unfold offer
  simp only
  generalize busReset (d.on (hostAttach · true)) = d₀ at hattach hreset ⊢
  have hempty : d₀.view.u.out.count = 0 ∧ d₀.view.u.inFifo.count = 0 ∧ d₀.view.u.inStage.len = 0 := by
    rw [hreset]
    exact ⟨rfl, rfl, rfl⟩
  have hstart : d₀.view.up = true ∧ d₀.view.hello = true ∧ d₀.view.newPeer = false ∧ d₀.view.connected = false := by
    rw [hreset]
    exact ⟨hup, hhello, hnew, hconnected⟩
  obtain ⟨hup₀, hhello₀, hnew₀, hconnected₀⟩ := hstart
  have hattached := Move.attached hup₀ hhello₀ hnew₀ hconnected₀ hempty
  have hinterface := sendInterface_moves (d₀.noted .attached)
  obtain ⟨mpsIn, mpsOut, ii, ei, t, hii, hei⟩ := sendInterface_sends (d₀.noted .attached)
  generalize sendInterfaceAndEpInfo (d₀.noted .attached) = d₁ at hinterface hei ⊢
  obtain ⟨h, hdc⟩ := sendDeviceConnect_sends d₁
  have hconnect : Moves d₁.view (sendDeviceConnect d₁).view := hdc.moves rfl (by intro h; cases h)
  generalize sendDeviceConnect d₁ = d₂ at hdc hconnect ⊢
  refine hattach.trans (.head hattached (hinterface.trans (hconnect.trans (.single ?_))))
  -- the notes of the offer so far
  have hdescribed : Offering (d₀.log ++ [.attached]) [.described mpsIn mpsOut]
      ({ (d₀.noted .attached).view with mpsIn, mpsOut }.notes [.described mpsIn mpsOut]) :=
    ⟨rfl, by simp, hup₀, hhello₀, hnew₀⟩
  have hfinal : (∃ k₁ k₂ k₃ i j, Offering (d₀.log ++ [.attached]) [.described mpsIn mpsOut, .sent urInterfaceInfo i ii [],
    .wrote k₁,
      .sent urEpInfo j ei [], .wrote k₂, .sent urDeviceConnect (d₁.view.wire 0) h [], .wrote k₃] d₂.view) ∨
      Broken (d₀.log ++ [.attached]) d₂.view := by
    rcases hdescribed.sends (by nofun) hii with ⟨k₁, h1⟩ | h1
    · rcases h1.sends (by nofun) hei with ⟨k₂, h2⟩ | h2
      · rcases h2.sends (by nofun) hdc with ⟨k₃, h3⟩ | h3
        · exact Or.inl ⟨k₁, k₂, k₃, _, _, h3⟩
        · exact Or.inr h3
      · exact Or.inr (h2.sends hdc)
    · exact Or.inr ((h1.sends hei).sends hdc)
  rcases hfinal with ⟨k₁, k₂, k₃, i, j, hlog, hnot, hup₂, hhello₂, hnew₂⟩ | ⟨-, notes, hlog, hnot, hlost⟩
  · rw [List.append_assoc, List.singleton_append] at hlog
    refine Move.connected (v := d₂.view) hlog hnot (Or.inr ⟨?_, by simp, hup₂, hhello₂, hnew₂⟩)
    exact ⟨[.described mpsIn mpsOut], [.wrote k₁], [.wrote k₂], [.wrote k₃], i, j, _, ii, ei, h, rfl, by simp⟩
  · rw [List.append_assoc, List.singleton_append] at hlog
    exact Move.connected (v := d₂.view) hlog hnot (Or.inl hlost)

theorem deviceDisconnect_moves (d : Dev) : Moves d.view (deviceDisconnect d).view := by
  unfold deviceDisconnect
  by_cases h : d.connected = true
  · rw [if_pos h]
    refine .head .detached ?_
    have hsend := sendPacket_sends (dropTransfers { d with connected := false }) urDeviceDisconnect 0 [] []
    have hmoves : Moves (dropTransfers { d with connected := false }).view _ := hsend.moves rfl fun _ => rfl
    exact hmoves.trans (on_moves _ (hostAttach_moves _ false))
  · rw [if_neg h]

theorem updateConnection_moves (d : Dev) (hnew : d.ch.newPeer = false) : Moves d.view (updateConnection d).view := by
  unfold updateConnection
  simp only
  generalize hwant : (d.present && d.peerHello && d.up && descriptorsReady d.toUsbf) = want
  by_cases hoffer : (want && !d.connected) = true
  · rw [if_pos hoffer]
    obtain ⟨hw, hc⟩ := Bool.and_eq_true_iff.mp hoffer
    rw [hw] at hwant
    obtain ⟨⟨⟨-, hhello⟩, hup⟩, -⟩ : ((d.present = true ∧ d.peerHello = true) ∧ d.up = true) ∧ _ := by
      simpa only [Bool.and_eq_true] using hwant
    exact offer_moves d hup hhello hnew (by simpa using hc)
  · rw [if_neg hoffer]
    split
    · split
      · exact deviceDisconnect_moves d
      · exact deviceDetach_moves d
    · exact .refl

end Offer

/-! ## Endpoints -/

section Endpoints

variable {d : Dev}

theorem setFront_front (q : Fifo Xfer) (x : Xfer) : (q.setFront x).front = x := if_pos rfl

theorem serviceOut_moves (fuel : Nat) (d : Dev) : Moves d.view (serviceOut fuel d).view := by
  induction fuel generalizing d with
  | zero => exact .refl
  | succ fuel ih =>
    unfold serviceOut
    by_cases hcount : d.bulkOut.count = 0
    · rw [if_pos hcount]
    rw [if_neg hcount]
    simp only
    generalize hchunk : min (d.bulkOut.front.len - d.bulkOut.front.off)
      (if d.mpsBulkOut ≠ 0 then d.mpsBulkOut else epMaxPacket) = chunk
    have hview : (d.bulkOut.front.data.drop d.bulkOut.front.off).take chunk = d.view.chunk := by rw [← hchunk]; rfl
    rw [hview]
    -- the rest, once the chunk is taken
    have hrest : ∀ u : Usbf, Moves d.view ({ d with
        toUsbf := u, bulkOut := d.bulkOut.setFront { d.bulkOut.front with off := d.bulkOut.front.off + chunk } } : Dev).view →
        Moves d.view (if d.bulkOut.front.off + chunk < d.bulkOut.front.len then serviceOut fuel { d with
            toUsbf := u, bulkOut := d.bulkOut.setFront { d.bulkOut.front with off := d.bulkOut.front.off + chunk } }
          else serviceOut fuel { (replyBulk { d with
              toUsbf := u, bulkOut := d.bulkOut.setFront { d.bulkOut.front with off := d.bulkOut.front.off + chunk } }
              d.bulkOut.front.id d.bulkOut.front.ep urSuccess [] d.bulkOut.front.len) with
            bulkOut := (replyBulk { d with
              toUsbf := u, bulkOut := d.bulkOut.setFront { d.bulkOut.front with off := d.bulkOut.front.off + chunk } }
              d.bulkOut.front.id d.bulkOut.front.ep urSuccess [] d.bulkOut.front.len).bulkOut.pop urQueueLen }).view := by
      intro u hmoved
      have hfront := setFront_front d.bulkOut { d.bulkOut.front with off := d.bulkOut.front.off + chunk }
      have hsome : (d.bulkOut.setFront { d.bulkOut.front with off := d.bulkOut.front.off + chunk }).count ≠ 0 := hcount
      generalize d.bulkOut.setFront { d.bulkOut.front with off := d.bulkOut.front.off + chunk } = q at hmoved hfront hsome ⊢
      by_cases hmore : d.bulkOut.front.off + chunk < d.bulkOut.front.len
      · rw [if_pos hmore]
        exact hmoved.trans (ih _)
      · rw [if_neg hmore]
        obtain ⟨header, hstatus, hsend⟩ := replyBulk_sends { d with toUsbf := u, bulkOut := q } d.bulkOut.front.id
          d.bulkOut.front.ep urSuccess [] d.bulkOut.front.len
        rw [ite_self] at hsend
        generalize replyBulk _ d.bulkOut.front.id d.bulkOut.front.ep urSuccess [] d.bulkOut.front.len = e at hsend ⊢
        rw [show d.bulkOut.front.id = q.front.id by rw [hfront]] at hsend
        have hfull : q.front.len ≤ q.front.off := by
          rw [hfront]
          exact Nat.le_of_not_lt hmore
        exact hmoved.trans ((hsend.outDone hsome hfull hstatus).trans (ih { e with bulkOut := e.bulkOut.pop urQueueLen }))
    rcases hostOut_cases d.toUsbf d.view.chunk with hrefused | ⟨hnil, htaken⟩ | ⟨hroom, hlen, hne, f, hf, htaken⟩
    · rw [hrefused]
      exact .refl
    · rw [htaken]
      exact hrest d.toUsbf (.single (.outSkipped hnil _ (by rw [← hchunk]; rfl)))
    · rw [htaken]
      exact hrest _ (.single (.outMoved hcount hroom hlen hne hf _ (by rw [← hchunk]; rfl)))

theorem serviceIn_moves (fuel : Nat) (d : Dev) : Moves d.view (serviceIn fuel d).view := by
  induction fuel generalizing d with
  | zero => exact .refl
  | succ fuel ih =>
    unfold serviceIn
    by_cases hcount : d.bulkIn.count = 0
    · rw [if_pos hcount]
    rw [if_neg hcount]
    simp only
    rcases hostIn_cases d.toUsbf epMaxPacket with hnak | ⟨hpacket, htaken⟩
    · rw [hnak]
    · rw [htaken]
      simp only
      generalize hpkt : d.inFifo.front.bytes.take epMaxPacket = pkt
      generalize hroom : d.bulkIn.front.len - d.bulkIn.front.off = room
      generalize hx : d.bulkIn.front = x at hroom ⊢
      generalize hy : ({ x with data := x.data ++ pkt.take (min pkt.length room), off := x.off + min pkt.length room } : Xfer) = y
      generalize ht : ({ d with
        toUsbf := (notify { d.toUsbf with inFifo := d.inFifo.pop inSlots }).note (.moved pkt.length room)
        bulkIn := d.bulkIn.setFront y } : Dev) = t
      have hmoved : Moves d.view t.view := by
        rw [← ht, ← hy, ← hx]
        refine .single (.inMoved hcount hpacket hpkt.symm ?_)
        rw [← hroom, ← hx]
        rfl
      have hmps : d.mpsBulkIn = t.view.mpsIn := by rw [← ht]; rfl
      have hlog : t.view.u.log = d.log ++ [.moved pkt.length room] := by rw [← ht]; rfl
      have hsome : t.view.bulkIn.count ≠ 0 := by rw [← ht]; exact hcount
      have hfront : t.view.bulkIn.front = y := by rw [← ht]; exact setFront_front d.bulkIn y
      by_cases hdone : (if pkt.length > room then urBabble else urSuccess) ≠ urSuccess ∨
          (min pkt.length room < if d.mpsBulkIn ≠ 0 then d.mpsBulkIn else epMaxPacket) ∨ x.off + min pkt.length room = x.len
      · rw [if_pos hdone]
        obtain ⟨header, hstatus, hsend⟩ := replyBulk_sends t x.id x.ep (if pkt.length > room then urBabble else urSuccess)
          (x.data ++ pkt.take (min pkt.length room)) (x.off + min pkt.length room)
        generalize replyBulk t x.id x.ep _ _ _ = e at hsend ⊢
        have hreply : Sends t.view (.sent urBulkPacket (t.view.wire t.view.bulkIn.front.id) header
            (if t.view.bulkIn.front.ep &&& 0x80 ≠ 0 then t.view.bulkIn.front.data else [])) e.view := by
          rw [hfront, ← hy]
          exact hsend
        have hfull : room ≤ pkt.length ∨ pkt.length < (if t.view.mpsIn ≠ 0 then t.view.mpsIn else epMaxPacket) := by
          rw [← hmps]
          by_cases hlong : room ≤ pkt.length
          · exact Or.inl hlong
          · rw [if_neg (by omega)] at hdone
            rcases hdone with hdone | hdone | hdone
            · exact absurd rfl hdone
            · exact Or.inr (by rwa [Nat.min_eq_left (by omega)] at hdone)
            · omega
        exact hmoved.trans ((hreply.inDone hsome hlog hfull hstatus).trans (ih { e with bulkIn := e.bulkIn.pop urQueueLen }))
      · rw [if_neg hdone]
        exact hmoved.trans (ih t)

theorem serviceIntr_moves (d : Dev) (due : Bool) : Moves d.view (serviceIntr d due).view := by
  unfold serviceIntr
  split
  · have hview := hostIntrIn_view d.toUsbf epMaxPacket
    generalize hostIntrIn d.toUsbf epMaxPacket = result at hview ⊢
    obtain ⟨pkt, u⟩ := result
    have hsame : ∀ seq, ({ d with toUsbf := u, intrSeq := seq } : Dev).view = d.view := by
      intro seq
      show { d.view with u := u.view } = d.view
      rw [hview]
      rfl
    cases pkt with
    | none =>
      show Moves d.view ({ d with toUsbf := u, intrSeq := d.intrSeq } : Dev).view
      rw [hsame]
    | some pkt =>
      have hsend := sendPacket_sends { d with toUsbf := u, intrSeq := d.intrSeq + 1 } urInterruptPacket d.intrSeq
        ([d.epIntrIn, urSuccess] ++ le 2 pkt.length) pkt
      rw [hsame] at hsend
      exact hsend.moves rfl (by intro h; cases h)
  · exact .refl

theorem serviceEndpoints_moves (d : Dev) (due : Bool) : Moves d.view (serviceEndpoints d due).view := by
  unfold serviceEndpoints
  split
  · exact (serviceOut_moves _ d).trans ((serviceIn_moves _ _).trans (serviceIntr_moves _ due))
  · exact .refl

theorem sendCtrlReply_moves (d : Dev) : Moves d.view (sendCtrlReply d).view := by
  unfold sendCtrlReply
  by_cases h : d.ctrl.active = true ∧ d.ctrl.done = true
  · rw [if_pos h]
    obtain ⟨header, data, hsend⟩ := replyControl_sends { d with ctrl := { d.ctrl with active := false, done := false } } d.ctrl.id
      d.ctrl.hdr (if d.ctrl.ok then urSuccess else urStall) []
    have hanswer : Sends d.view.idle (.sent urControlPacket (d.view.wire d.view.u.ctrl.id) header data) _ := hsend
    exact hanswer.answered h.1
  · rw [if_neg h]

end Endpoints

/-! ## Packets -/

section Packets

variable {d : Dev} {v w : View} {id : Nat}

theorem handleControl_moves (hup : d.up = true) (hnew : d.ch.newPeer = false) (hid : d.view.wire id = id) (p : List UInt8) :
    Moves d.view (handleControl d id p).view := by
  have hrefused : ∀ (e : Dev) (status : UInt8) (data : List UInt8), e.view = d.view →
      Moves d.view (replyControl (e.noted (.request id)) id (p.take 10) status data).view := by
    intro e status data he
    obtain ⟨header, data', hsend⟩ := replyControl_sends (e.noted (.request id)) id (p.take 10) status data
    have hsend' : Sends (e.view.notes [.request id]) (.sent urControlPacket (e.view.wire id) header data') _ := hsend
    rw [he, hid] at hsend'
    exact hsend'.refused hup hid rfl (by intro h; cases h)
  unfold handleControl
  split
  · exact .refl
  by_cases hconnected : d.connected = true
  · rw [if_neg (by simp [hconnected])]
    have hcases := hostControl_cases d.toUsbf (setupBytes ([at' p 2, at' p 1] ++ (p.drop 4).take 6))
    generalize hostControl d.toUsbf (setupBytes ([at' p 2, at' p 1] ++ (p.drop 4).take 6)) = result at hcases ⊢
    obtain ⟨rc, bytes, u⟩ := result
    have hsame : u.view = d.toUsbf.view → ({ d with toUsbf := u } : Dev).view = d.view := by
      intro h
      show { d.view with u := u.view } = d.view
      rw [h]
      rfl
    rcases hcases with ⟨hrc, hview⟩ | ⟨hrc, hmoves, hpending⟩
    · cases rc with
      | ok => exact hrefused { d with toUsbf := u } urSuccess bytes (hsame hview)
      | stall => exact hrefused { d with toUsbf := u } urStall bytes (hsame hview)
      | pending => exact absurd rfl hrc
    · have hrc' : rc = .pending := hrc
      subst hrc'
      refine (lift_moves hmoves d.view).tail ?_
      exact Move.deferred (v := { d.view with u := u.view }) hid hup hnew hconnected hpending (p.take 10)
  · rw [if_pos (by simpa using hconnected)]
    exact hrefused d urIoerror [] rfl

theorem handleBulk_moves (hup : d.up = true) (hnew : d.ch.newPeer = false) (hid : d.view.wire id = id) (p : List UInt8) :
    Moves d.view (handleBulk d id p).view := by
  have hrefused : ∀ (ep status : UInt8), status ≠ urSuccess → status ≠ urBabble →
      Moves d.view (replyBulk (d.noted (.request id)) id ep status [] 0).view := by
    intro ep status hsuccess hbabble
    obtain ⟨header, hstatus, hsend⟩ := replyBulk_sends (d.noted (.request id)) id ep status [] 0
    rw [ite_self] at hsend
    have hsend' : Sends (d.view.notes [.request id]) (.sent urBulkPacket (d.view.wire id) header []) _ := hsend
    rw [hid] at hsend'
    exact hsend'.refused hup hid rfl fun _ => ⟨rfl, hstatus ▸ hsuccess, hstatus ▸ hbabble⟩
  unfold handleBulk
  simp only
  split
  · exact .refl
  generalize le16 (at' p 2) (at' p 3) + (if bulkHdrLen d = 10 then 65536 * le16 (at' p 8) (at' p 9) else 0) = blen
  by_cases hconnected : d.connected = true
  · rw [if_neg (by simp [hconnected])]
    split
    · exact hrefused _ _ (by decide) (by decide)
    by_cases hep : at' p 0 &&& 0x80 = 0
    · rw [if_pos hep]
      by_cases hfull : d.bulkOut.count ≥ urQueueLen
      · rw [if_pos hfull]
        exact hrefused _ _ (by decide) (by decide)
      · rw [if_neg hfull]
        have hmove := Move.queuedOut (v := d.view) hid hup hnew hconnected (Nat.lt_of_not_le hfull) hep (p.drop (bulkHdrLen d))
        rw [List.length_drop] at hmove
        exact .single hmove
    · rw [if_neg hep]
      split
      · exact hrefused _ _ (by decide) (by decide)
      by_cases hfull : d.bulkIn.count ≥ urQueueLen
      · rw [if_pos hfull]
        exact hrefused _ _ (by decide) (by decide)
      · rw [if_neg hfull]
        exact .single (Move.queuedIn (v := d.view) hid hup hnew hconnected (Nat.lt_of_not_le hfull) hep _)
  · rw [if_pos (by simpa using hconnected)]
    exact hrefused _ _ (by decide) (by decide)

theorem findId_some {q : Fifo Xfer} {i : Nat} (h : findId q id = some i) : i < q.count ∧ (q.get urQueueLen i).id = id := by
  have hmem := List.mem_of_find?_eq_some h
  have hid := List.find?_some h
  exact ⟨List.mem_range.mp hmem, beq_iff_eq.mp hid⟩

theorem handleCancel_moves (hup : d.up = true) (id : Nat) : Moves d.view (handleCancel d id).view := by
  unfold handleCancel
  by_cases hctrl : d.ctrl.active = true ∧ d.ctrl.id = id
  · rw [if_pos hctrl]
    obtain ⟨hactive, rfl⟩ := hctrl
    obtain ⟨header, data, hsend⟩ := replyControl_sends { d with ctrl := { d.ctrl with active := false, done := false } } d.ctrl.id
      d.ctrl.hdr urCancelled []
    have hanswer : Sends d.view.idle (.sent urControlPacket (d.view.wire d.view.u.ctrl.id) header data) _ := hsend
    exact hanswer.answered hactive
  rw [if_neg hctrl]
  cases hin : findId d.bulkIn id with
  | some i =>
    obtain ⟨hi, rfl⟩ := findId_some hin
    obtain ⟨header, hstatus, hsend⟩ := replyBulk_sends { d with bulkIn := d.bulkIn.removeAt urQueueLen i }
      (d.bulkIn.get urQueueLen i).id (d.bulkIn.get urQueueLen i).ep urCancelled [] 0
    rw [ite_self] at hsend
    exact hsend.cancelled hup (Move.cancelledIn (v := d.view) hi hstatus)
  | none =>
    cases hout : findId d.bulkOut id with
    | some i =>
      obtain ⟨hi, rfl⟩ := findId_some hout
      obtain ⟨header, hstatus, hsend⟩ := replyBulk_sends { d with bulkOut := d.bulkOut.removeAt urQueueLen i }
        (d.bulkOut.get urQueueLen i).id (d.bulkOut.get urQueueLen i).ep urCancelled [] 0
      rw [ite_self] at hsend
      exact hsend.cancelled hup (Move.cancelledOut (v := d.view) hi hstatus)
    | none => exact .refl

/-- A packet that is no reply to a request, and no disconnect. -/
theorem sendPacket_moves {type : Nat} (htype : reply type = false) (hdisconnect : type ≠ urDeviceDisconnect) (d : Dev) (id : Nat)
    (th data : List UInt8) : Moves d.view (sendPacket d type id th data).view :=
  (sendPacket_sends d type id th data).moves htype fun h => absurd h hdisconnect

theorem handleHello_moves (hup : d.up = true) (p : List UInt8) : Moves d.view (handleHello d p).view := by
  unfold handleHello
  split
  · exact .refl
  · exact .single (Move.hello (v := d.view) hup _)

theorem handleSetConfiguration_moves (d : Dev) (id : Nat) (p : List UInt8) :
    Moves d.view (handleSetConfiguration d id p).view := by
  unfold handleSetConfiguration
  split
  · exact .refl
  split
  · exact sendPacket_moves rfl (by decide) d id _ _
  · have hview := standard_view d (show (0x00 : UInt8) &&& 0x60 = 0 by decide) 0x09 (at' p 0).toNat 0
    generalize standard d 0x00 0x09 (at' p 0).toNat 0 = result at hview ⊢
    obtain ⟨rc, e⟩ := result
    have he : e.view = d.view := hview
    have hsend : ∀ status, Moves d.view (sendPacket e urConfigurationStatus id [status, e.config] []).view := by
      intro status
      rw [← he]
      exact sendPacket_moves rfl (by decide) e id _ _
    simp only
    split
    · exact (hsend _).trans (sendInterface_moves _)
    · exact hsend _

theorem handleSetAltSetting_moves (d : Dev) (id : Nat) (p : List UInt8) : Moves d.view (handleSetAltSetting d id p).view := by
  unfold handleSetAltSetting
  split
  · exact .refl
  split
  · exact sendPacket_moves rfl (by decide) d id _ _
  · have hview := standard_view d (show (0x01 : UInt8) &&& 0x60 = 0 by decide) 0x0B (at' p 1).toNat (at' p 0).toNat
    generalize standard d 0x01 0x0B (at' p 1).toNat (at' p 0).toNat = result at hview ⊢
    obtain ⟨rc, e⟩ := result
    have he : e.view = d.view := hview
    rw [← he]
    exact sendPacket_moves rfl (by decide) e id _ _

theorem handlePacket_moves (hup : d.up = true) (hnew : d.ch.newPeer = false) (hid : d.view.wire id = id) (type : Nat)
    (p : List UInt8) :
    Moves d.view (handlePacket d type id p).view := by
  have hite : ∀ (c : Prop) [Decidable c] (x y : Dev), Moves d.view x.view → Moves d.view y.view →
    Moves d.view (if c then x else y).view := by
    intro c _ x y hx hy
    split <;> assumption
  unfold handlePacket
  refine hite _ _ _ (handleHello_moves hup p) (hite _ _ _ (hite _ _ _ ?_ .refl)
    (hite _ _ _ (handleSetConfiguration_moves d id p) ?_))
  · exact .head .reset (busReset_moves (dropTransfers d))
  refine hite _ _ _ (sendPacket_moves rfl (by decide) d id _ _) (hite _ _ _ (handleSetAltSetting_moves d id p) ?_)
  refine hite _ _ _ (sendPacket_moves rfl (by decide) d id _ _) (hite _ _ _ (hite _ _ _ .refl (hite _ _ _ ?_ ?_)) ?_)
  · exact sendPacket_moves rfl (by decide) { d with intrReceiving := true } id _ _
  · exact sendPacket_moves rfl (by decide) d id _ _
  refine hite _ _ _ (hite _ _ _ .refl (sendPacket_moves rfl (by decide) { d with intrReceiving := false } id _ _)) ?_
  refine hite _ _ _ (handleCancel_moves hup id) (hite _ _ _ (handleControl_moves hup hnew hid p) ?_)
  exact hite _ _ _ (handleBulk_moves hup hnew hid p) (hite _ _ _ (sendPacket_moves rfl (by decide) d id _ _) .refl)

end Packets

/-! ## Ticks -/

section Ticks

variable {d : Dev} {v w : View}

/-- A peer is no longer coming, and has been greeted. -/
structure View.Settled (v : View) : Prop where
  connecting : v.connecting = false
  newPeer : v.newPeer = false

theorem lost_settled (v : View) : v.lost.Settled := by
  unfold View.lost
  split <;> exact ⟨rfl, rfl⟩

theorem Move.settled (h : Move v w) (hv : v.Settled) : w.Settled := by
  obtain ⟨hconnecting, hnew⟩ := hv
  cases h with
  | greeted => exact ⟨hconnecting, rfl⟩
  | lost => exact lost_settled v
  | outLost id => exact ⟨(lost_settled (v.notes _)).1, (lost_settled (v.notes _)).2⟩
  | inLost id => exact ⟨(lost_settled (v.notes _)).1, (lost_settled (v.notes _)).2⟩
  | _ => exact ⟨hconnecting, hnew⟩

theorem Moves.settled (h : Moves v w) (hv : v.Settled) : w.Settled := by
  induction h with
  | refl => exact hv
  | tail _ hmove ih => exact hmove.settled ih

theorem Move.log (h : Move v w) : ∃ m, w.u.log = v.u.log ++ m := by
  have hlost : ∀ n, ∃ m, (v.notes [n]).lost.u.log = v.u.log ++ m := by
    intro n
    obtain ⟨m, hm, -⟩ := lost_log (v.notes [n])
    exact ⟨n :: .lost :: m, by rw [hm]; exact List.append_assoc _ _ _⟩
  cases h with
  | usb h =>
    obtain ⟨m, hm, -⟩ := umove_log h
    exact ⟨m, hm⟩
  | lost =>
    obtain ⟨m, hm, -⟩ := lost_log v
    exact ⟨_, hm⟩
  | outLost id => exact hlost _
  | inLost id => exact hlost _
  | greeted | idled | outSilent | inSilent | outSkipped => exact ⟨[], (List.append_nil _).symm⟩
  | _ => exact ⟨_, rfl⟩

theorem Dial.log (h : Dial v w) : ∃ m, w.u.log = v.u.log ++ m := by
  cases h with
  | peer => exact ⟨_, rfl⟩
  | dialling => exact ⟨[], (List.append_nil _).symm⟩
  | failed => exact ⟨[], (List.append_nil _).symm⟩

theorem readLoop_moves (reads : List ReadResult) (d : Dev) : Moves d.view (readLoop reads d).2.view := by
  induction reads generalizing d with
  | nil => exact .refl
  | cons r rs ih =>
    cases r with
    | bytes l =>
      unfold readLoop
      simp only
      split
      · exact peerLost_moves d
      · exact ih { d with rx := d.rx ++ l }
    | intr => exact ih d
    | wouldBlock => exact .refl
    | error => exact peerLost_moves d

/-- A header's id fits it. -/
theorem wire_header (d : Dev) (f : Nat → UInt8) : d.view.wire (rd (hdrLen d - 8) f 8) = rd (hdrLen d - 8) f 8 := by
  rw [← wire_view]
  have hrd := rd_lt (hdrLen d - 8) f 8
  unfold wireId
  by_cases h : hdrLen d = 16
  · rw [if_pos h]
    rw [h] at hrd ⊢
    exact Nat.mod_eq_of_lt hrd
  · have h12 : hdrLen d = 12 := by
      unfold hdrLen at h ⊢
      split
      · rename_i hcap
        rw [if_pos hcap] at h
        exact absurd rfl h
      · rfl
    rw [if_neg h]
    rw [h12] at hrd ⊢
    exact Nat.mod_eq_of_lt hrd

theorem packetLoop_moves (fuel : Nat) (b : List UInt8) (d : Dev) (hd : d.view.Settled) :
    Moves d.view (packetLoop fuel b d).2.view := by
  induction fuel generalizing b d with
  | zero => exact .refl
  | succ fuel ih =>
    unfold packetLoop
    simp only
    by_cases hfd : d.ch.fd = true
    · rw [if_neg (by simp [hfd])]
      split
      · exact .refl
      split
      · exact peerLost_moves d
      split
      · exact .refl
      have hconnecting : d.ch.connecting = false := hd.connecting
      have hup : d.up = true := by
        unfold Dev.up
        rw [hfd, hconnecting]
        rfl
      have hpacket := handlePacket_moves hup hd.newPeer (wire_header d (at' b)) (rd 4 (at' b) 0)
        ((b.drop (hdrLen d)).take (rd 4 (at' b) 4))
      exact hpacket.trans (ih _ _ (hpacket.settled hd))
    · rw [if_pos (by simpa using hfd)]

theorem drainRx_moves (d : Dev) (reads : List ReadResult) (hd : d.view.Settled) : Moves d.view (drainRx d reads).view := by
  unfold drainRx
  have hread : Moves d.view (if d.ch.fd then readLoop reads d else (true, peerLost d)).2.view := by
    split
    · exact readLoop_moves reads d
    · exact peerLost_moves d
  generalize (if d.ch.fd then readLoop reads d else (true, peerLost d)) = result at hread ⊢
  obtain ⟨lost, e⟩ := result
  cases lost with
  | true => exact hread
  | false =>
    have hpackets := packetLoop_moves (e.rx.length + 1) e.rx e (hread.settled hd)
    simp only
    rw [if_neg Bool.false_ne_true]
    generalize packetLoop (e.rx.length + 1) e.rx e = result at hpackets ⊢
    obtain ⟨rx, e'⟩ := result
    simp only
    split
    · exact hread.trans hpackets
    · exact hread.trans hpackets

/-- A connection in progress has a descriptor. -/
def View.Opening (v : View) : Prop := v.connecting = true → v.fd = true

theorem lost_opening (v : View) : v.lost.Opening := fun h => absurd ((lost_settled v).connecting.symm.trans h) (by decide)

theorem Move.opening (h : Move v w) (hv : v.Opening) : w.Opening := by
  cases h with
  | lost => exact lost_opening v
  | outLost id => exact lost_opening (v.notes _)
  | inLost id => exact lost_opening (v.notes _)
  | _ => exact hv

theorem Dial.opening (h : Dial v w) : w.Opening := by
  cases h with
  | peer => exact fun _ => rfl
  | dialling => exact fun _ => rfl
  | failed => nofun

theorem Steps.opening (h : Steps v w) (hv : v.Opening) : w.Opening := by
  induction h with
  | refl => exact hv
  | tail _ hstep ih => exact hstep.elim Dial.opening fun hmove => hmove.opening ih

theorem chardevTick_dials (d : Dev) (env : Env) (hd : d.view.Opening) :
    (chardevTick d env).view = d.view ∨ Dial d.view (chardevTick d env).view := by
  have hpeer : ∀ newPeer : Bool, d.ch.fd = false →
      Dial d.view ({ d.view with fd := true, connecting := false, newPeer := d.view.newPeer || newPeer }.notes [.peer]) :=
    fun newPeer hfd => Dial.peer (v := d.view) (Or.inl hfd) newPeer
  unfold chardevTick
  split
  · split
    · rename_i h
      have hfd : d.ch.fd = false := by simpa using h.1
      have hmove := hpeer true hfd
      have hconnecting : d.view.connecting = false :=
        Bool.eq_false_iff.mpr fun hopen => absurd (hfd.symm.trans (hd hopen)) (by decide)
      rw [Bool.or_true, ← hconnecting] at hmove
      exact Or.inr hmove
    · exact Or.inl rfl
  · split
    · exact Or.inl rfl
    · rename_i hfd
      have hfd' : d.ch.fd = false := by simpa using hfd
      split
      · exact Or.inl rfl
      · exact Or.inr (.dialling hfd')
      · have hmove := hpeer false hfd'
        rw [Bool.or_false] at hmove
        exact Or.inr hmove
  · exact Or.inl rfl

theorem settle_dials (d : Dev) (result : ConnectResult) :
    (settle d result).view = d.view ∨ Dial d.view (settle d result).view := by
  unfold settle
  split
  · rename_i h
    obtain ⟨hfd, hconnecting⟩ := h
    cases result with
    | pending => exact Or.inl rfl
    | failed => exact Or.inr (.failed hconnecting)
    | done =>
      have hmove := Dial.peer (v := d.view) (Or.inr hconnecting) true
      rw [Bool.or_true] at hmove
      have hsame : ({ d with ch := { d.ch with connecting := false, newPeer := true }, log := d.log ++ [.peer] } : Dev).view =
          { d.view with fd := true, connecting := false, newPeer := true }.notes [.peer] := by
        show View.notes { d.view with connecting := false, newPeer := true } [.peer] = _
        rw [show d.view = { d.view with fd := true } by rw [← hfd]; rfl]
      exact Or.inr (hsame ▸ hmove)
  · exact Or.inl rfl

theorem greet_moves (d : Dev) : Moves d.view (greet d).view := by
  unfold greet
  split
  · rename_i hnew
    have hgreeted := Move.greeted (v := d.view) hnew
    refine .head hgreeted ?_
    exact sendPacket_moves rfl (by decide) { d with
      ch := { d.ch with newPeer := false }, peerHello := false, peerCaps := 0, rx := [], tx := [] } urHello _ _
  · exact .refl

theorem greet_settled (d : Dev) (h : d.up = true) : (greet d).view.Settled := by
  have hconnecting : d.ch.connecting = false := by
    unfold Dev.up at h
    simpa using (Bool.and_eq_true_iff.mp h).2
  unfold greet
  split
  · have hmoves : Moves _ (sendHello { d with
      ch := { d.ch with newPeer := false }, peerHello := false, peerCaps := 0, rx := [], tx := [] }).view :=
      sendPacket_moves rfl (by decide) _ urHello _ _
    exact hmoves.settled ⟨hconnecting, rfl⟩
  · rename_i hnew
    have hnew' : d.ch.newPeer = false := by simpa using hnew
    exact ⟨hconnecting, hnew'⟩

theorem moves_steps (h : Moves v w) : Steps v w := by
  induction h with
  | refl => exact .refl
  | tail _ hmove ih => exact ih.tail (Or.inr hmove)

theorem tick_steps (d : Dev) (env : Env) (hd : d.view.Opening) : Steps d.view (tick d env).view := by
  have hdials : ∀ {x y : View}, y = x ∨ Dial x y → Steps x y := by
    intro x y h
    rcases h with rfl | h
    · exact .refl
    · exact .single (Or.inl h)
  unfold tick
  simp only
  have hpeer : Steps d.view (settle (chardevTick { d with writes := env.writes } env) env.connect).view :=
    (hdials (chardevTick_dials { d with writes := env.writes } env hd)).trans (hdials (settle_dials _ _))
  generalize settle (chardevTick { d with writes := env.writes } env) env.connect = e at hpeer ⊢
  refine hpeer.trans (moves_steps ?_)
  by_cases hup : e.up = true
  · rw [if_neg (by simp [hup])]
    have hread := drainRx_moves (greet e) env.reads (greet_settled e hup)
    have hsettled := hread.settled (greet_settled e hup)
    generalize drainRx (greet e) env.reads = e' at hread hsettled ⊢
    refine (greet_moves e).trans (hread.trans ?_)
    split
    · exact .refl
    · refine (updateConnection_moves e' hsettled.newPeer).trans ((sendCtrlReply_moves _).trans ?_)
      exact (serviceEndpoints_moves _ _).trans (flushTx_moves _)
  · rw [if_pos (by simpa using hup)]
    exact deviceDetach_moves e

theorem step_steps (d : Dev) (e : Event) (hd : d.view.Opening) : Steps d.view (step d e).view := by
  cases e with
  | present b => exact .refl
  | read off => exact moves_steps (on_moves d (read_moves d.toUsbf off))
  | write off val ram => exact moves_steps (on_moves d (write_moves d.toUsbf off val ram))
  | reset => exact moves_steps (on_moves d (usbfReset_moves d.toUsbf))
  | tick env => exact tick_steps d env hd

/-- Every run is a chain of moves. -/
theorem run_steps (d : Dev) (events : List Event) (hd : d.view.Opening) : Steps d.view (run d events).view := by
  induction events generalizing d with
  | nil => exact .refl
  | cons e events ih =>
    have hstep := step_steps d e hd
    exact hstep.trans (ih (step d e) (hstep.opening hd))

end Ticks

end Be300.Usb
