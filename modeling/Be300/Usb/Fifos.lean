/-
  Be300.Usb.Fifos — the FIFOs of the USB function (`src/hw/usbf.c`): what the host sent to
  EP2, the packets the guest committed to EP1 and EP3, and the bytes of a control request.

  The guest takes EP2's bytes one by one from a register or with a DMA, which goes on in a
  packet where the other has stopped; a byte is listed with whether its packet ends there. A
  commit into a full EP1 FIFO is lost, and one to EP3 replaces a packet not fetched yet. A reset
  makes the last control request readable again.

  Proved (`fifos_consistent`): after any operations counts and positions are in range; what
  has left each FIFO is the oldest of what was in it (`Flow`), and is what the operations gave
  (`Handed`); and an operation that changes `irqPending` has called `irq_changed` in the state
  it leaves (`Heard`).
-/

import Be300.Lib.Queue
import Be300.Usb.Operations

namespace Be300.Usb

open Lib

/-! ## Ports -/

/-- The FIFOs and their positions. -/
structure Ports where
  out : Fifo Packet
  outPos : Nat
  inStage : Packet
  inFifo : Fifo Packet
  ep3Stage : Packet
  ep3 : Packet
  ep3Ready : Bool
  setup : List UInt8
  setupPos : Nat

def Usbf.ports (u : Usbf) : Ports :=
  { out := u.out, outPos := u.outPos, inStage := u.inStage, inFifo := u.inFifo, ep3Stage := u.ep3Stage, ep3 := u.ep3
    ep3Ready := u.ep3Ready, setup := u.setup, setupPos := u.setupPos }

structure InRange (p : Ports) : Prop where
  out : p.out.Fits outSlots
  outLen : ∀ x ∈ p.out.contents outSlots, 0 < x.len ∧ x.len ≤ epMaxPacket
  outNone : p.out.count = 0 → p.outPos = 0
  outPos : p.out.count ≠ 0 → p.outPos < p.out.front.len
  inFifo : p.inFifo.Fits inSlots
  inLen : ∀ x ∈ p.inFifo.contents inSlots, x.len ≤ epMaxPacket
  inStage : p.inStage.len ≤ epMaxPacket
  ep3Stage : p.ep3Stage.len ≤ epMaxPacket
  ep3 : p.ep3.len ≤ epMaxPacket
  setupPos : p.setupPos ≤ 8

/-! ## Contents -/

/-- A packet's bytes, each with whether it is the last. -/
def marked (x : Packet) : List (UInt8 × Bool) := (List.range x.len).map fun i => (x.data i, decide (i + 1 = x.len))

def outBytes (p : Ports) : List (UInt8 × Bool) := ((p.out.contents outSlots).flatMap marked).drop p.outPos

def inPackets (p : Ports) : List (List UInt8) := (p.inFifo.contents inSlots).map Packet.bytes

def ep3Packets (p : Ports) : List (List UInt8) := if p.ep3Ready then [p.ep3.bytes] else []

/-- The eight bytes of a request. -/
def setupWhole (setup : List UInt8) : List UInt8 := (List.range 8).map fun i => setup.getD i 0

def setupLeft (p : Ports) : List UInt8 := (setupWhole p.setup).drop p.setupPos

/-! ## Traffic -/

def flushes (u : Usbf) : Operation → Bool
  | .write off val _ => decide (off / 4 * 4 = regReset) && UInt8.ofNat val &&& 0x01 != 0
  | .reset => true
  | .attach attached => u.usbAttached && !attached
  | .busReset => true
  | _ => false

/-- A DMA starts. -/
def starts (off val : Nat) : Bool :=
  decide (off / 4 * 4 = regDmaStart) && UInt8.ofNat val &&& 0x01 != 0 && UInt8.ofNat val &&& 0x10 == 0

def commitBit (off val : Nat) (bit : UInt8) : Bool := decide (off / 4 * 4 = regEpCommit) && UInt8.ofNat val &&& bit != 0

def dmaLength (u : Usbf) : Nat := min u.dmaLen.toNat epMaxPacket

/-- Where a DMA goes, if it goes to RAM. -/
def dmaRam (u : Usbf) (ram : Nat → Nat → Option (Nat → UInt8)) : Option (Nat → UInt8) :=
  if dmaLength u = 0 then none else ram (u.dmaAddr % 0x20000000) (dmaLength u)

def dmaFill (u : Usbf) (ram : Nat → Nat → Option (Nat → UInt8)) : Usbf := fillStage u (dmaLength u) (dmaRam u ram)

def taken (u : Usbf) : List (Traffic (UInt8 × Bool)) :=
  if outPending u then [.left ((outByte u).1, decide (u.outPos + 1 = u.out.front.len))] else []

/-- The bytes that a DMA takes. -/
def drained : Nat → Usbf → List (Traffic (UInt8 × Bool))
  | 0, _ => []
  | n + 1, u => if outPending u then taken u ++ drained n (outByte u).2 else []

def queued (u : Usbf) : List (Traffic (List UInt8)) := if u.inFifo.count < inSlots then [.arrived [u.inStage.bytes]] else []

def outTraffic (u : Usbf) (op : Operation) : List (Traffic (UInt8 × Bool)) :=
  if flushes u op then [.dropped]
  else match op with
    | .read off => if off / 4 * 4 = regOutFifo then taken u else []
    | .write off val _ => if starts off val ∧ u.dmaDir &&& 0x01 = 0 then drained (dmaLength u) u else []
    | .hostOut data =>
      if (hostOut u data).1 then [.arrived (marked { data := fun i => data.getD i 0, len := data.length })] else []
    | _ => []

def inTraffic (u : Usbf) (op : Operation) : List (Traffic (List UInt8)) :=
  if flushes u op then [.dropped]
  else match op with
    | .write off val ram =>
      if starts off val ∧ u.dmaDir &&& 0x01 ≠ 0 ∧ dmaLength u = epMaxPacket then queued (dmaFill u ram)
      else if commitBit off val 0x02 then queued u
      else []
    | .hostIn max => if (hostIn u max).1.isSome then [.left u.inFifo.front.bytes] else []
    | _ => []

def ep3Traffic (u : Usbf) (op : Operation) : List (Traffic (List UInt8)) :=
  if flushes u op then [.dropped]
  else match op with
    | .write off val _ => if commitBit off val 0x04 then [.dropped, .arrived [u.ep3Stage.bytes]] else []
    | .hostIntrIn max => if (hostIntrIn u max).1.isSome then [.left u.ep3.bytes] else []
    | _ => []

def setupTraffic (u : Usbf) (op : Operation) : List (Traffic UInt8) :=
  if flushes u op then [.dropped, .arrived (setupWhole (operate u op).setup)]
  else match op with
    | .read off => if off / 4 * 4 = regSetupFifo ∧ u.setupPos < 8 then [.left (readSetup u).1] else []
    | .control s => if (hostControl u s).1 = .pending then [.dropped, .arrived ((List.range 8).map s)] else []
    | _ => []

/-! ## What the operations do to the ports -/

section Ports

variable {u v : Usbf}

theorem finishControl_ports (u : Usbf) (ok : Bool) : (finishControl u ok).ports = u.ports := by
  unfold finishControl onCtrlDone
  split
  · split <;> rfl
  · rfl

theorem ports_ite {c : Prop} [Decidable c] {x y : Usbf} {p : Ports} (hx : x.ports = p) (hy : y.ports = p) :
    (if c then x else y).ports = p := by
  split
  · exact hx
  · exact hy

/-- The registers whose writes reach the ports. -/
theorem writeRegister_ports (u : Usbf) (reg val : Nat) (ram : Nat → Nat → Option (Nat → UInt8)) :
    (writeRegister u reg val ram).ports =
      if reg = regDmaStart then
        if UInt8.ofNat val &&& 0x01 ≠ 0 ∧ UInt8.ofNat val &&& 0x10 = 0 then (dma u ram).ports else u.ports
      else if reg = regReset then if UInt8.ofNat val &&& 0x01 ≠ 0 then (resetPulse u).ports else u.ports
      else if reg = regEpCtrl then
        if UInt8.ofNat val &&& 0x04 ≠ 0 then { u.ports with inStage := { u.inStage with len := 0 } } else u.ports
      else if reg = regEpCommit then (commit u (UInt8.ofNat val)).ports
      else if reg = regEp3Fifo then
        if u.ep3Stage.len < epMaxPacket then
          { u.ports with
            ep3Stage := { data := update u.ep3Stage.data u.ep3Stage.len (UInt8.ofNat val), len := u.ep3Stage.len + 1 } }
        else u.ports
      else u.ports := by
  unfold writeRegister
  simp only
  by_cases hdma : reg = regDmaStart
  · subst hdma
    rw [if_pos rfl]
    exact apply_ite Usbf.ports _ (dma u ram) u
  by_cases hreset : reg = regReset
  · subst hreset
    rw [if_neg hdma]
    exact apply_ite Usbf.ports _ (resetPulse u) u
  by_cases hctrl : reg = regEpCtrl
  · subst hctrl
    rw [if_neg hdma, if_neg hreset]
    exact apply_ite Usbf.ports _ { u with inStage := { u.inStage with len := 0 } } u
  by_cases hcommit : reg = regEpCommit
  · subst hcommit
    rw [if_neg hdma, if_neg hreset, if_neg hctrl]
    rfl
  by_cases hep3 : reg = regEp3Fifo
  · subst hep3
    rw [if_neg hdma, if_neg hreset, if_neg hctrl, if_neg hcommit]
    exact apply_ite Usbf.ports _ { u with
      ep3Stage := { data := update u.ep3Stage.data u.ep3Stage.len (UInt8.ofNat val), len := u.ep3Stage.len + 1 } } u
  · rw [if_neg hdma, if_neg hreset, if_neg hctrl, if_neg hcommit, if_neg hep3, if_neg hdma, if_neg hreset, if_neg hctrl,
      if_neg hcommit, if_neg hep3]
    repeat' apply ports_ite
    all_goals rfl

theorem write_ports (u : Usbf) (off val : Nat) (ram : Nat → Nat → Option (Nat → UInt8)) :
    (write u off val ram).ports = (writeRegister u (off / 4 * 4) val ram).ports := by
  unfold write
  simp only
  split
  · rename_i hdesc
    rw [writeRegister_ports, if_neg fun h => ?_, if_neg fun h => ?_, if_neg fun h => ?_, if_neg fun h => ?_, if_neg fun h => ?_]
    all_goals (try simp only [h, descBase, descWords, regDmaStart, regReset, regEpCtrl, regEpCommit,
      regEp3Fifo] at hdesc); (try omega)
    rfl
  · rfl

/-! ## The OUT FIFO -/

/-- The next byte, if there is one. -/
def Ports.take (p : Ports) : Ports :=
  if p.out.count = 0 then p
  else if p.outPos + 1 ≥ p.out.front.len then { p with out := p.out.pop outSlots, outPos := 0 }
  else { p with outPos := p.outPos + 1 }

theorem outByte_ports (u : Usbf) : (outByte u).2.ports = u.ports.take := by
  unfold outByte Ports.take outPending
  by_cases hnone : u.out.count = 0
  · rw [if_neg (by simp [hnone]), if_pos (show u.ports.out.count = 0 from hnone)]
  · rw [if_pos (by simp [hnone]), if_neg (show ¬ u.ports.out.count = 0 from hnone)]
    by_cases hlast : u.outPos + 1 ≥ u.out.front.len
    · rw [if_pos (show u.ports.outPos + 1 ≥ u.ports.out.front.len from hlast)]
      simp only
      rw [if_pos (show (u.note _).outPos + 1 ≥ u.out.front.len from hlast)]
      rfl
    · rw [if_neg (show ¬ u.ports.outPos + 1 ≥ u.ports.out.front.len from hlast)]
      simp only
      rw [if_neg (show ¬ (u.note _).outPos + 1 ≥ u.out.front.len from hlast)]
      rfl

theorem take_inRange {p : Ports} (h : InRange p) : InRange p.take := by
  unfold Ports.take
  split
  · exact h
  rename_i hsome
  have hcontents := Fifo.contents_pop h.out (by decide) hsome
  split
  · rename_i hlast
    have hlen : ∀ x ∈ (p.out.pop outSlots).contents outSlots, 0 < x.len ∧ x.len ≤ epMaxPacket := by
      intro x hx
      apply h.outLen
      rw [hcontents]
      exact List.mem_cons_of_mem _ hx
    refine { h with out := Fifo.fits_pop h.out (by decide) hsome, outLen := hlen, outNone := fun _ => rfl, outPos := ?_ }
    intro hmore
    have hfits := Fifo.fits_pop h.out (by decide) hsome
    apply (hlen _ _).1
    rw [Fifo.contents_pop hfits (by decide) hmore]
    exact List.mem_cons_self ..
  · rename_i hmore
    exact { h with outNone := fun hnone => absurd hnone hsome, outPos := fun _ => Nat.lt_of_not_le hmore }

theorem marked_drop (x : Packet) {i : Nat} (h : i < x.len) :
    (marked x).drop i = (x.data i, decide (i + 1 = x.len)) :: (marked x).drop (i + 1) := by
  have hlen : i < (marked x).length := by simpa [marked] using h
  rw [List.drop_eq_getElem_cons hlen]
  congr 1
  simp [marked]

theorem outBytes_take {p : Ports} (h : InRange p) (hsome : p.out.count ≠ 0) :
    outBytes p = (p.out.front.data p.outPos, decide (p.outPos + 1 = p.out.front.len)) :: outBytes p.take := by
  have hpos := h.outPos hsome
  have hlength : (marked p.out.front).length = p.out.front.len := by simp [marked]
  unfold outBytes Ports.take
  rw [if_neg hsome]
  have hcontents := Fifo.contents_pop h.out (by decide) hsome
  by_cases hlast : p.outPos + 1 ≥ p.out.front.len
  · rw [if_pos hlast, hcontents, List.flatMap_cons, List.drop_append_of_le_length (by omega), marked_drop _ hpos,
      List.drop_of_length_le (by omega)]
    simp only [List.drop_zero, List.cons_append, List.nil_append]
  · rw [if_neg hlast, hcontents, List.flatMap_cons]
    show List.drop p.outPos (marked p.out.front ++ _) = _ :: List.drop (p.outPos + 1) (marked p.out.front ++ _)
    rw [List.drop_append_of_le_length (by omega), marked_drop _ hpos, List.drop_append_of_le_length (by omega)]
    rfl

/-- The byte that is next. -/
def Ports.next (p : Ports) : UInt8 := if p.out.count = 0 then 0 else if p.outPos < p.out.front.len then p.out.front.data p.outPos
    else 0

theorem outByte_value (u : Usbf) : (outByte u).1 = u.ports.next := by
  unfold outByte Ports.next outPending
  by_cases hnone : u.out.count = 0
  · rw [if_neg (by simp [hnone]), if_pos (show u.ports.out.count = 0 from hnone)]
  · rw [if_pos (by simp [hnone]), if_neg (show ¬ u.ports.out.count = 0 from hnone)]
    simp only
    rw [apply_ite Prod.fst]
    exact ite_self _

theorem outByte_flow (h : InRange u.ports) : Flow (outBytes u.ports) (taken u) (outBytes (outByte u).2.ports) := by
  rw [outByte_ports, taken]
  by_cases hsome : outPending u = true
  · have hcount : u.out.count ≠ 0 := bne_iff_ne.mp hsome
    have hpos : u.outPos < u.out.front.len := h.outPos hcount
    have hbyte : (outByte u).1 = u.out.front.data u.outPos := by
      rw [outByte_value, Ports.next, if_neg (show ¬ u.ports.out.count = 0 from hcount),
        if_pos (show u.ports.outPos < u.ports.out.front.len from hpos)]
      rfl
    rw [if_pos hsome, hbyte, outBytes_take h hcount]
    exact .left .nil
  · have hnone : u.out.count = 0 := by
      unfold outPending at hsome
      simpa using hsome
    rw [if_neg hsome, Ports.take, if_pos (show u.ports.out.count = 0 from hnone)]
    exact .nil

theorem store_ports (ram : Bool) (pa : Nat) (b : UInt8) (u : Usbf) : (store ram pa b u).ports = u.ports := ports_ite rfl rfl

theorem outPending_ports {v : Usbf} (h : v.ports = u.ports) : outPending v = outPending u :=
  congrArg (fun p : Ports => p.out.count != 0) h

theorem taken_ports {v : Usbf} (h : v.ports = u.ports) : taken v = taken u := by
  have hfront : v.out.front = u.out.front := congrArg (fun p : Ports => p.out.front) h
  have hpos : v.outPos = u.outPos := congrArg Ports.outPos h
  rw [taken, taken, outPending_ports h, outByte_value, outByte_value, h, hfront, hpos]

theorem drained_ports {v : Usbf} (h : v.ports = u.ports) (n : Nat) : drained n v = drained n u := by
  induction n generalizing u v with
  | zero => rfl
  | succ n ih =>
    have hnext : (outByte v).2.ports = (outByte u).2.ports := by rw [outByte_ports, outByte_ports, h]
    rw [drained, drained, outPending_ports h, taken_ports h, ih hnext]

theorem drainOut_flow (ram : Bool) (n pa : Nat) (h : InRange u.ports) :
    Flow (outBytes u.ports) (drained n u) (outBytes (drainOut ram n pa u).ports) ∧ InRange (drainOut ram n pa u).ports := by
  induction n generalizing pa u with
  | zero => exact ⟨.nil, h⟩
  | succ n ih =>
    unfold drained drainOut
    split
    · have hstore := store_ports ram pa (outByte u).1 (outByte u).2
      have hnext : InRange (store ram pa (outByte u).1 (outByte u).2).ports := by
        rw [hstore, outByte_ports]
        exact take_inRange h
      obtain ⟨hflow, hrange⟩ := ih (pa + 1) hnext
      rw [hstore, drained_ports hstore] at hflow
      exact ⟨(outByte_flow h).append hflow, hrange⟩
    · exact ⟨.nil, h⟩

theorem outByte_stores (u : Usbf) : (outByte u).2.stores = u.stores := by
  unfold outByte
  split
  · simp only
    repeat' split
    all_goals rfl
  · rfl

/-- What a DMA puts in RAM is what it takes, in its order. -/
theorem drainOut_stores (ram : Bool) (n pa : Nat) (u : Usbf) : (drainOut ram n pa u).stores = u.stores ++
    if ram then (Traffic.leavings (drained n u)).mapIdx fun i x => (pa + i, x.1) else [] := by
  induction n generalizing pa u with
  | zero => cases ram <;> exact (List.append_nil _).symm
  | succ n ih =>
    unfold drained drainOut
    split
    · rename_i hsome
      have hstore := store_ports ram pa (outByte u).1 (outByte u).2
      rw [ih, drained_ports hstore]
      have hleft : Traffic.leavings (taken u ++ drained n (outByte u).2) =
          ((outByte u).1, decide (u.outPos + 1 = u.out.front.len)) :: Traffic.leavings (drained n (outByte u).2) := by
        rw [taken, if_pos hsome]
        rfl
      cases ram with
      | false => simp [store, outByte_stores]
      | true =>
        rw [hleft]
        simp [store, outByte_stores, Nat.add_left_comm, Nat.add_comm]
    · cases ram <;> exact (List.append_nil _).symm

/-- What is not the OUT FIFO's. -/
structure Beside (p q : Ports) : Prop where
  inStage : q.inStage = p.inStage
  inFifo : q.inFifo = p.inFifo
  ep3Stage : q.ep3Stage = p.ep3Stage
  ep3 : q.ep3 = p.ep3
  ep3Ready : q.ep3Ready = p.ep3Ready
  setup : q.setup = p.setup
  setupPos : q.setupPos = p.setupPos

theorem take_beside (p : Ports) : Beside p p.take := by
  unfold Ports.take
  split
  · exact ⟨rfl, rfl, rfl, rfl, rfl, rfl, rfl⟩
  split
  · exact ⟨rfl, rfl, rfl, rfl, rfl, rfl, rfl⟩
  · exact ⟨rfl, rfl, rfl, rfl, rfl, rfl, rfl⟩

theorem drainOut_beside (ram : Bool) (n pa : Nat) (u : Usbf) : Beside u.ports (drainOut ram n pa u).ports := by
  induction n generalizing pa u with
  | zero => exact ⟨rfl, rfl, rfl, rfl, rfl, rfl, rfl⟩
  | succ n ih =>
    unfold drainOut
    split
    · have hfirst := take_beside u.ports
      have hrest := ih (pa + 1) (store ram pa (outByte u).1 (outByte u).2)
      rw [store_ports, outByte_ports] at hrest
      exact ⟨hrest.inStage.trans hfirst.inStage, hrest.inFifo.trans hfirst.inFifo, hrest.ep3Stage.trans hfirst.ep3Stage,
        hrest.ep3.trans hfirst.ep3, hrest.ep3Ready.trans hfirst.ep3Ready, hrest.setup.trans hfirst.setup,
        hrest.setupPos.trans hfirst.setupPos⟩
    · exact ⟨rfl, rfl, rfl, rfl, rfl, rfl, rfl⟩

theorem outPos_le {p : Ports} (h : InRange p) : p.outPos ≤ ((p.out.contents outSlots).flatMap marked).length := by
  by_cases hsome : p.out.count = 0
  · rw [h.outNone hsome]
    exact Nat.zero_le _
  · have hpos := h.outPos hsome
    rw [Fifo.contents_pop h.out (by decide) hsome, List.flatMap_cons, List.length_append]
    have hlength : (marked p.out.front).length = p.out.front.len := by simp [marked]
    omega

def Ports.put (p : Ports) (x : Packet) : Ports := { p with out := p.out.push outSlots x }

theorem outBytes_put {p : Ports} (h : InRange p) (hroom : p.out.count < outSlots) (x : Packet) :
    outBytes (p.put x) = outBytes p ++ marked x := by
  have hpush := Fifo.contents_push hroom x
  unfold outBytes Ports.put
  simp only
  rw [hpush, List.flatMap_append, List.flatMap_singleton, List.drop_append_of_le_length (outPos_le h)]

theorem put_inRange {p : Ports} (h : InRange p) (hroom : p.out.count < outSlots) {x : Packet}
    (hx : 0 < x.len ∧ x.len ≤ epMaxPacket) :
    InRange (p.put x) := by
  have hfits := Fifo.fits_push h.out hroom x
  have hpush := Fifo.contents_push hroom x
  have hlen : ∀ y ∈ (p.out.push outSlots x).contents outSlots, 0 < y.len ∧ y.len ≤ epMaxPacket := by
    intro y hy
    rw [hpush] at hy
    rcases List.mem_append.mp hy with hy | hy
    · exact h.outLen y hy
    · rw [List.mem_singleton.mp hy]
      exact hx
  have hcontents := Fifo.contents_pop hfits (by decide) (Nat.succ_ne_zero p.out.count)
  refine { h with out := hfits, outLen := hlen, outNone := fun hnone => absurd hnone (Nat.succ_ne_zero _), outPos := fun _ => ?_ }
  show p.outPos < (p.out.push outSlots x).front.len
  by_cases hsome : p.out.count = 0
  · rw [h.outNone hsome]
    apply (hlen _ _).1
    rw [hcontents]
    exact List.mem_cons_self ..
  · -- the packet goes behind the one being read
    rw [hpush, Fifo.contents_pop h.out (by decide) hsome, List.cons_append] at hcontents
    rw [← (List.cons.inj hcontents).1]
    exact h.outPos hsome

theorem hostOut_flow (h : InRange u.ports) (data : List UInt8) :
    Flow (outBytes u.ports)
      (if (hostOut u data).1 then [.arrived (marked { data := fun i => data.getD i 0, len := data.length })] else [])
      (outBytes (hostOut u data).2.ports) ∧ InRange (hostOut u data).2.ports ∧ Beside u.ports (hostOut u data).2.ports := by
  unfold hostOut
  split
  · exact ⟨.nil, h, ⟨rfl, rfl, rfl, rfl, rfl, rfl, rfl⟩⟩
  rename_i hroom
  push Not at hroom
  obtain ⟨-, -, hlen, hcount⟩ := hroom
  split
  · rename_i hnil
    subst hnil
    refine ⟨.arrived ?_, h, ⟨rfl, rfl, rfl, rfl, rfl, rfl, rfl⟩⟩
    have hnone : marked { data := fun i => ([] : List UInt8).getD i 0, len := ([] : List UInt8).length } = [] := rfl
    rw [hnone, List.append_nil]
    exact .nil
  · rename_i hsome
    have hx : 0 < data.length ∧ data.length ≤ epMaxPacket := ⟨List.length_pos_of_ne_nil hsome, by omega⟩
    have hroom : u.out.count < outSlots := by omega
    have hroom : u.ports.out.count < outSlots := hroom
    have hmarked : marked { data := fun i => data.getD i 0, len := data.length } = marked
        { data := fun i => if i < data.length then data.getD i 0 else (u.out.get outSlots u.out.count).data i
          len := data.length } := by
      unfold marked
      apply List.map_congr_left
      intro i hi
      simp only
      rw [if_pos (List.mem_range.mp hi)]
    refine ⟨.arrived ?_, put_inRange h hroom hx, ⟨rfl, rfl, rfl, rfl, rfl, rfl, rfl⟩⟩
    rw [hmarked, ← outBytes_put h hroom]
    exact .nil

/-! ## The IN FIFOs -/

def Ports.queue (p : Ports) : Ports :=
  { p with
    inFifo := if p.inFifo.count < inSlots then p.inFifo.push inSlots p.inStage else p.inFifo
    inStage := { p.inStage with len := 0 } }

theorem queueIn_ports (u : Usbf) : (queueIn u).ports = u.ports.queue := rfl

theorem queue_inRange {p : Ports} (h : InRange p) : InRange p.queue := by
  unfold Ports.queue
  split
  · rename_i hroom
    have hpush := Fifo.contents_push hroom p.inStage
    refine { h with inFifo := Fifo.fits_push h.inFifo hroom p.inStage, inLen := ?_, inStage := Nat.zero_le _ }
    intro x hx
    rw [hpush] at hx
    rcases List.mem_append.mp hx with hx | hx
    · exact h.inLen x hx
    · rw [List.mem_singleton.mp hx]
      exact h.inStage
  · exact { h with inStage := Nat.zero_le _ }

theorem queue_flow (u : Usbf) : Flow (inPackets u.ports) (queued u) (inPackets u.ports.queue) := by
  unfold queued inPackets Ports.queue
  by_cases hroom : u.inFifo.count < inSlots
  · have hpush := Fifo.contents_push hroom u.inStage
    rw [if_pos hroom]
    apply Flow.arrived
    simp only
    rw [if_pos (show u.ports.inFifo.count < inSlots from hroom)]
    show Flow _ [] (((u.inFifo.push inSlots u.inStage).contents inSlots).map Packet.bytes)
    rw [hpush, List.map_append]
    exact .nil
  · rw [if_neg hroom]
    simp only
    rw [if_neg (show ¬ u.ports.inFifo.count < inSlots from hroom)]
    exact .nil

theorem hostIn_flow (h : InRange u.ports) (max : Nat) :
    Flow (inPackets u.ports) (if (hostIn u max).1.isSome then [.left u.inFifo.front.bytes] else [])
      (inPackets (hostIn u max).2.ports) ∧
      InRange (hostIn u max).2.ports := by
  unfold hostIn
  split
  · exact ⟨.nil, h⟩
  · rename_i hsome
    have hcount : u.inFifo.count ≠ 0 := by
      intro hnone
      exact hsome (.inr (.inr hnone))
    have hpop := Fifo.contents_pop h.inFifo (by decide) hcount
    refine ⟨?_, { h with inFifo := Fifo.fits_pop h.inFifo (by decide) hcount, inLen := ?_ }⟩
    · show Flow ((u.inFifo.contents inSlots).map Packet.bytes) _ (((u.inFifo.pop inSlots).contents inSlots).map Packet.bytes)
      rw [show u.inFifo.contents inSlots = _ from hpop, List.map_cons]
      exact .left .nil
    · intro x hx
      apply h.inLen
      rw [hpop]
      exact List.mem_cons_of_mem _ hx

theorem fillStage_inRange (h : InRange u.ports) {len : Nat} (hlen : len ≤ epMaxPacket) (ram : Option (Nat → UInt8)) :
    InRange (fillStage u len ram).ports := { h with inStage := hlen }

/-! ## Operations -/

/-- What an operation does to the FIFOs is its traffic. -/
structure Passes (u : Usbf) (op : Operation) : Prop where
  inRange : InRange (operate u op).ports
  out : Flow (outBytes u.ports) (outTraffic u op) (outBytes (operate u op).ports)
  packets : Flow (inPackets u.ports) (inTraffic u op) (inPackets (operate u op).ports)
  ep3 : Flow (ep3Packets u.ports) (ep3Traffic u op) (ep3Packets (operate u op).ports)
  setup : Flow (setupLeft u.ports) (setupTraffic u op) (setupLeft (operate u op).ports)

structure Flushed (p : Ports) : Prop where
  out : p.out.head = 0 ∧ p.out.count = 0
  outPos : p.outPos = 0
  inFifo : p.inFifo.head = 0 ∧ p.inFifo.count = 0
  inStage : p.inStage.len = 0
  ep3Stage : p.ep3Stage.len = 0
  ep3 : p.ep3.len ≤ epMaxPacket
  ep3Ready : p.ep3Ready = false
  setupPos : p.setupPos = 0

theorem flushFifos_flushed (h : InRange u.ports) : Flushed (flushFifos u).ports :=
  ⟨⟨rfl, rfl⟩, rfl, ⟨rfl, rfl⟩, rfl, rfl, h.ep3, rfl, rfl⟩

theorem operate_flushed (h : InRange u.ports) {op : Operation} (hflush : flushes u op = true) : Flushed (operate u op).ports := by
  have hfinished : ∀ v : Usbf, v.ports = u.ports → Flushed (flushFifos (finishControl v false)).ports := by
    intro v hv
    apply flushFifos_flushed
    rw [finishControl_ports, hv]
    exact h
  cases op with
  | write off val ram =>
    unfold flushes at hflush
    obtain ⟨hreg, hbit⟩ := Bool.and_eq_true_iff.mp hflush
    have hreg := of_decide_eq_true hreg
    show Flushed (write u off val ram).ports
    rw [write_ports, hreg, writeRegister_ports, if_neg (by decide), if_pos rfl, if_pos (bne_iff_ne.mp hbit)]
    exact hfinished u rfl
  | reset => exact ⟨⟨rfl, rfl⟩, rfl, ⟨rfl, rfl⟩, rfl, rfl, Nat.zero_le _, rfl, rfl⟩
  | attach attached =>
    unfold flushes at hflush
    obtain ⟨hwas, hoff⟩ := Bool.and_eq_true_iff.mp hflush
    show Flushed (hostAttach u attached).ports
    have hoff : attached = false := by simpa using hoff
    subst hoff
    unfold hostAttach
    rw [if_neg (by rw [hwas]; decide)]
    exact hfinished { u with usbAttached := false } rfl
  | busReset => exact hfinished u rfl
  | read off => cases hflush
  | control s => cases hflush
  | hostOut data => cases hflush
  | hostIn max => cases hflush
  | hostIntrIn max => cases hflush

theorem flush_passes (h : InRange u.ports) {op : Operation} (hflush : flushes u op = true) : Passes u op := by
  have hflushed := operate_flushed h hflush
  have hout : (operate u op).ports.out.contents outSlots = [] := Fifo.contents_eq_nil.mpr hflushed.out.2
  have hin : (operate u op).ports.inFifo.contents inSlots = [] := Fifo.contents_eq_nil.mpr hflushed.inFifo.2
  constructor
  · constructor
    · exact ⟨by rw [hflushed.out.1]; decide, by rw [hflushed.out.2]; decide⟩
    · rw [hout]
      exact nofun
    · exact fun _ => hflushed.outPos
    · exact fun hsome => absurd hflushed.out.2 hsome
    · exact ⟨by rw [hflushed.inFifo.1]; decide, by rw [hflushed.inFifo.2]; decide⟩
    · rw [hin]
      exact nofun
    · rw [hflushed.inStage]
      exact Nat.zero_le _
    · rw [hflushed.ep3Stage]
      exact Nat.zero_le _
    · exact hflushed.ep3
    · rw [hflushed.setupPos]
      exact Nat.zero_le _
  · have hnone : outBytes (operate u op).ports = [] := by
      rw [outBytes, hout]
      simp
    unfold outTraffic
    rw [if_pos hflush, hnone]
    exact .dropped .nil
  · have hnone : inPackets (operate u op).ports = [] := by rw [inPackets, hin, List.map_nil]
    unfold inTraffic
    rw [if_pos hflush, hnone]
    exact .dropped .nil
  · have hnone : ep3Packets (operate u op).ports = [] := by
      rw [ep3Packets, hflushed.ep3Ready]
      rfl
    unfold ep3Traffic
    rw [if_pos hflush, hnone]
    exact .dropped .nil
  · have hwhole : setupLeft (operate u op).ports = setupWhole (operate u op).setup := by
      rw [setupLeft, hflushed.setupPos]
      rfl
    unfold setupTraffic
    rw [if_pos hflush, hwhole]
    exact .dropped (.arrived .nil)

/-- Without traffic; the stages may change. -/
theorem staged_passes {op : Operation} (hrange : InRange (operate u op).ports)
    (hsame : outBytes (operate u op).ports = outBytes u.ports ∧ inPackets (operate u op).ports = inPackets u.ports ∧
      ep3Packets (operate u op).ports = ep3Packets u.ports ∧ setupLeft (operate u op).ports = setupLeft u.ports)
    (hquiet : outTraffic u op = [] ∧ inTraffic u op = [] ∧ ep3Traffic u op = [] ∧ setupTraffic u op = []) : Passes u op := by
  obtain ⟨hout, hin, hep3, hsetup⟩ := hquiet
  obtain ⟨hbytes, hpackets, hep3s, hsetups⟩ := hsame
  constructor
  · exact hrange
  · rw [hbytes, hout]
    exact .nil
  · rw [hpackets, hin]
    exact .nil
  · rw [hep3s, hep3]
    exact .nil
  · rw [hsetups, hsetup]
    exact .nil

theorem quiet_passes (h : InRange u.ports) {op : Operation} (hports : (operate u op).ports = u.ports)
    (hquiet : outTraffic u op = [] ∧ inTraffic u op = [] ∧ ep3Traffic u op = [] ∧ setupTraffic u op = []) : Passes u op := by
  apply staged_passes _ _ hquiet
  · rw [hports]
    exact h
  · rw [hports]
    exact ⟨rfl, rfl, rfl, rfl⟩

theorem beside_passes {op : Operation} (hbeside : Beside u.ports (operate u op).ports)
    (hout : Flow (outBytes u.ports) (outTraffic u op) (outBytes (operate u op).ports)) (hrange : InRange (operate u op).ports)
    (hquiet : inTraffic u op = [] ∧ ep3Traffic u op = [] ∧ setupTraffic u op = []) : Passes u op := by
  obtain ⟨hin, hep3, hsetup⟩ := hquiet
  refine ⟨hrange, hout, ?_, ?_, ?_⟩
  · rw [hin, inPackets, inPackets, hbeside.inFifo]
    exact .nil
  · rw [hep3, ep3Packets, ep3Packets, hbeside.ep3, hbeside.ep3Ready]
    exact .nil
  · rw [hsetup, setupLeft, setupLeft, hbeside.setup, hbeside.setupPos]
    exact .nil

theorem readSetup_passes (h : InRange u.ports) :
    InRange (readSetup u).2.ports ∧ Flow (setupLeft u.ports) (if u.setupPos < 8 then [.left (readSetup u).1] else [])
      (setupLeft (readSetup u).2.ports) ∧
        (readSetup u).2.ports = { u.ports with setupPos := (readSetup u).2.setupPos } := by
  unfold readSetup
  by_cases hmore : u.setupPos < 8
  · rw [if_pos hmore]
    have hlen : u.setupPos < (setupWhole u.setup).length := by simpa [setupWhole] using hmore
    have hbyte : setupLeft u.ports = u.setup.getD (u.setupPos % 8) 0 :: (setupWhole u.setup).drop (u.setupPos + 1) := by
      show (setupWhole u.setup).drop u.setupPos = _
      rw [List.drop_eq_getElem_cons hlen, Nat.mod_eq_of_lt hmore]
      congr 1
      simp [setupWhole]
    rw [hbyte]
    simp only
    rw [if_pos hmore]
    by_cases hlast : u.setupPos + 1 = 8
    · rw [if_pos hlast]
      refine ⟨{ h with setupPos := Nat.le_refl 8 }, ?_, rfl⟩
      rw [hlast]
      exact .left .nil
    · rw [if_neg hlast]
      exact ⟨{ h with setupPos := hmore }, .left .nil, rfl⟩
  · rw [if_neg hmore]
    simp only
    rw [if_neg hmore]
    exact ⟨h, .nil, rfl⟩

theorem read_passes (h : InRange u.ports) (off : Nat) : Passes u (.read off) := by
  have hstate := read_state u off
  by_cases hsetup : off / 4 * 4 = regSetupFifo
  · rw [if_pos hsetup] at hstate
    have hports : (operate u (.read off)).ports = (readSetup u).2.ports := congrArg Usbf.ports hstate
    obtain ⟨hrange, hflow, hrest⟩ := readSetup_passes h
    have hnot : off / 4 * 4 ≠ regOutFifo := by
      rw [hsetup]
      decide
    constructor
    · rw [hports]
      exact hrange
    · have hquiet : outTraffic u (.read off) = [] := by simp [outTraffic, flushes, hnot]
      rw [hports, hquiet, hrest]
      exact .nil
    · rw [hports, hrest]
      exact .nil
    · rw [hports, hrest]
      exact .nil
    · have hleft : setupTraffic u (.read off) = if u.setupPos < 8 then [.left (readSetup u).1] else [] := by
        simp [setupTraffic, flushes, hsetup]
      rw [hports, hleft]
      exact hflow
  rw [if_neg hsetup] at hstate
  by_cases hout : off / 4 * 4 = regOutFifo
  · rw [if_pos hout] at hstate
    have hports : (operate u (.read off)).ports = (notify (outByte u).2).ports := congrArg Usbf.ports hstate
    have hports : (operate u (.read off)).ports = (outByte u).2.ports := hports
    have htaken : outTraffic u (.read off) = taken u := by simp [outTraffic, flushes, hout]
    apply beside_passes
    · rw [hports, outByte_ports]
      exact take_beside u.ports
    · rw [hports, htaken]
      exact outByte_flow h
    · rw [hports, outByte_ports]
      exact take_inRange h
    · exact ⟨rfl, rfl, by simp [setupTraffic, flushes, hsetup]⟩
  · rw [if_neg hout] at hstate
    have hports : (operate u (.read off)).ports = u.ports := congrArg Usbf.ports hstate
    apply quiet_passes h hports
    exact ⟨by simp [outTraffic, flushes, hout], rfl, rfl, by simp [setupTraffic, flushes, hsetup]⟩

theorem dma_ports (u : Usbf) (ram : Nat → Nat → Option (Nat → UInt8)) : (dma u ram).ports =
    if u.dmaDir &&& 0x01 ≠ 0 then if dmaLength u = epMaxPacket then (dmaFill u ram).ports.queue else (dmaFill u ram).ports
    else (drainOut (dmaRam u ram).isSome (dmaLength u) (u.dmaAddr % 0x20000000) u).ports := by
  unfold dma
  by_cases htx : u.dmaDir &&& 0x01 ≠ 0
  · rw [if_pos htx]
    simp only
    rw [if_pos htx]
    show (if dmaLength u = epMaxPacket then queueIn (dmaFill u ram) else dmaFill u ram).ports = _
    exact apply_ite Usbf.ports _ (queueIn (dmaFill u ram)) (dmaFill u ram)
  · rw [if_neg htx]
    simp only
    rw [if_neg htx]
    rfl

/-- A fill of the EP1 buffer, which is sent if it is a whole packet. -/
theorem fill_passes (h : InRange u.ports) (ram : Nat → Nat → Option (Nat → UInt8)) {op : Operation}
    (hports : (operate u op).ports =
      if dmaLength u = epMaxPacket then (dmaFill u ram).ports.queue else (dmaFill u ram).ports)
    (hin : inTraffic u op = if dmaLength u = epMaxPacket then queued (dmaFill u ram) else [])
    (hquiet : outTraffic u op = [] ∧ ep3Traffic u op = [] ∧ setupTraffic u op = []) : Passes u op := by
  obtain ⟨hout, hep3, hsetup⟩ := hquiet
  have hfill : InRange (dmaFill u ram).ports := fillStage_inRange h (Nat.min_le_right _ _) _
  by_cases hfull : dmaLength u = epMaxPacket
  · rw [if_pos hfull] at hports hin
    constructor
    · rw [hports]
      exact queue_inRange hfill
    · rw [hports, hout]
      exact .nil
    · rw [hports, hin]
      exact queue_flow (dmaFill u ram)
    · rw [hports, hep3]
      exact .nil
    · rw [hports, hsetup]
      exact .nil
  · rw [if_neg hfull] at hports hin
    constructor
    · rw [hports]
      exact hfill
    · rw [hports, hout]
      exact .nil
    · rw [hports, hin]
      exact .nil
    · rw [hports, hep3]
      exact .nil
    · rw [hports, hsetup]
      exact .nil

def Ports.commitEp3 (p : Ports) : Ports :=
  { p with ep3 := p.ep3Stage, ep3Ready := true, ep3Stage := { p.ep3Stage with len := 0 } }

theorem commit_ports (u : Usbf) (b : UInt8) : (commit u b).ports =
    if b &&& 0x04 ≠ 0 then (if b &&& 0x02 ≠ 0 then u.ports.queue else u.ports).commitEp3
    else if b &&& 0x02 ≠ 0 then u.ports.queue else u.ports := by
  have hfinished : (if b &&& 0x01 ≠ 0 then finishControl { u with intstat := update u.intstat 2 (u.intstat 2 ||| 0x08) } true
      else u).ports = u.ports := ports_ite (finishControl_ports _ true) rfl
  unfold commit
  simp only
  generalize (if b &&& 0x01 ≠ 0 then finishControl { u with intstat := update u.intstat 2 (u.intstat 2 ||| 0x08) } true else u) =
    v
    at hfinished ⊢
  have hqueued : (if b &&& 0x02 ≠ 0 then queueIn v else v).ports = if b &&& 0x02 ≠ 0 then u.ports.queue else u.ports := by
    split
    · rw [queueIn_ports, hfinished]
    · exact hfinished
  generalize (if b &&& 0x02 ≠ 0 then queueIn v else v) = w at hqueued ⊢
  rw [← hqueued]
  exact apply_ite Usbf.ports _ { w with ep3 := w.ep3Stage, ep3Ready := true, ep3Stage := { w.ep3Stage with len := 0 } } w

theorem commit_passes (h : InRange u.ports) {op : Operation} (b : UInt8) (hports : (operate u op).ports = (commit u b).ports)
    (hin : inTraffic u op = if b &&& 0x02 ≠ 0 then queued u else [])
    (hep3 : ep3Traffic u op = if b &&& 0x04 ≠ 0 then [.dropped, .arrived [u.ep3Stage.bytes]] else [])
    (hquiet : outTraffic u op = [] ∧ setupTraffic u op = []) : Passes u op := by
  obtain ⟨hout, hsetup⟩ := hquiet
  rw [commit_ports] at hports
  have hqueue : InRange (if b &&& 0x02 ≠ 0 then u.ports.queue else u.ports) := by
    split
    · exact queue_inRange h
    · exact h
  have hflow : Flow (inPackets u.ports) (inTraffic u op) (inPackets (if b &&& 0x02 ≠ 0 then u.ports.queue else u.ports)) := by
    rw [hin]
    split
    · exact queue_flow u
    · exact .nil
  -- EP1's part leaves the other FIFOs as they are
  have hrest : ∃ stage fifo, (if b &&& 0x02 ≠ 0 then u.ports.queue else u.ports) =
      { u.ports with inStage := stage, inFifo := fifo } := by
    split
    · exact ⟨_, _, rfl⟩
    · exact ⟨_, _, rfl⟩
  generalize (if b &&& 0x02 ≠ 0 then u.ports.queue else u.ports) = p at hports hqueue hflow hrest
  obtain ⟨stage, fifo, rfl⟩ := hrest
  by_cases hcommit : b &&& 0x04 ≠ 0
  · rw [if_pos hcommit] at hports hep3
    constructor
    · rw [hports]
      exact { hqueue with ep3 := h.ep3Stage, ep3Stage := Nat.zero_le _ }
    · rw [hports, hout]
      exact .nil
    · rw [hports]
      exact hflow
    · rw [hports, hep3]
      exact .dropped (.arrived .nil)
    · rw [hports, hsetup]
      exact .nil
  · rw [if_neg hcommit] at hports hep3
    constructor
    · rw [hports]
      exact hqueue
    · rw [hports, hout]
      exact .nil
    · rw [hports]
      exact hflow
    · rw [hports, hep3]
      exact .nil
    · rw [hports, hsetup]
      exact .nil

theorem write_passes (h : InRange u.ports) {off val : Nat} {ram : Nat → Nat → Option (Nat → UInt8)}
    (hflush : flushes u (.write off val ram) = false) : Passes u (.write off val ram) := by
  have hports : (operate u (.write off val ram)).ports = _ := (write_ports u off val ram).trans (writeRegister_ports u _ val ram)
  have hsetup : setupTraffic u (.write off val ram) = [] := by simp [setupTraffic, hflush]
  by_cases hdma : off / 4 * 4 = regDmaStart
  · rw [if_pos hdma] at hports
    have hcommits : ∀ bit, commitBit off val bit = false := by
      intro bit
      simp [commitBit, hdma, regDmaStart, regEpCommit]
    have hep3 : ep3Traffic u (.write off val ram) = [] := by simp [ep3Traffic, hflush, hcommits]
    by_cases hstart : UInt8.ofNat val &&& 0x01 ≠ 0 ∧ UInt8.ofNat val &&& 0x10 = 0
    · have hstarts : starts off val = true := by simp [starts, hdma, hstart]
      rw [if_pos hstart, dma_ports] at hports
      by_cases htx : u.dmaDir &&& 0x01 ≠ 0
      · rw [if_pos htx] at hports
        apply fill_passes h ram hports
        · simp [inTraffic, hflush, hstarts, hcommits, htx]
        · exact ⟨by simp [outTraffic, hflush, htx], hep3, hsetup⟩
      · rw [if_neg htx] at hports
        obtain ⟨hflow, hrange⟩ := drainOut_flow (dmaRam u ram).isSome (dmaLength u) (u.dmaAddr % 0x20000000) h
        have htx' : u.dmaDir &&& 0x01 = 0 := by simpa using htx
        apply beside_passes
        · rw [hports]
          exact drainOut_beside ..
        · have hdrained : outTraffic u (.write off val ram) = drained (dmaLength u) u := by
            simp [outTraffic, hflush, hstarts, htx']
          rw [hports, hdrained]
          exact hflow
        · rw [hports]
          exact hrange
        · exact ⟨by simp [inTraffic, hflush, hcommits, htx'], hep3, hsetup⟩
    · have hstarts : starts off val = false := by
        simpa [starts, hdma] using hstart
      rw [if_neg hstart] at hports
      apply quiet_passes h hports
      exact ⟨by simp [outTraffic, hflush, hstarts], by simp [inTraffic, hflush, hstarts, hcommits], hep3, hsetup⟩
  rw [if_neg hdma] at hports
  have hstarts : starts off val = false := by simp [starts, hdma]
  have hout : outTraffic u (.write off val ram) = [] := by simp [outTraffic, hflush, hstarts]
  by_cases hcommit : off / 4 * 4 = regEpCommit
  · rw [if_neg (by rw [hcommit]; decide), if_neg (by rw [hcommit]; decide), if_pos hcommit] at hports
    apply commit_passes h (UInt8.ofNat val) hports
    · simp [inTraffic, hflush, hstarts, commitBit, hcommit]
    · simp [ep3Traffic, hflush, commitBit, hcommit]
    · exact ⟨hout, hsetup⟩
  have hcommits : ∀ bit, commitBit off val bit = false := by
    intro bit
    simp [commitBit, hcommit]
  have hquiet : outTraffic u (.write off val ram) = [] ∧ inTraffic u (.write off val ram) = [] ∧
      ep3Traffic u (.write off val ram) = [] ∧ setupTraffic u (.write off val ram) = [] :=
    ⟨hout, by simp [inTraffic, hflush, hstarts, hcommits], by simp [ep3Traffic, hflush, hcommits], hsetup⟩
  by_cases hreset : off / 4 * 4 = regReset
  · have hbit : ¬ UInt8.ofNat val &&& 0x01 ≠ 0 := by simpa [flushes, hreset] using hflush
    rw [if_pos hreset, if_neg hbit] at hports
    exact quiet_passes h hports hquiet
  rw [if_neg hreset] at hports
  by_cases hctrl : off / 4 * 4 = regEpCtrl
  · rw [if_pos hctrl] at hports
    split at hports
    · apply staged_passes _ _ hquiet
      · rw [hports]
        exact { h with inStage := Nat.zero_le _ }
      · rw [hports]
        exact ⟨rfl, rfl, rfl, rfl⟩
    · exact quiet_passes h hports hquiet
  rw [if_neg hctrl, if_neg hcommit] at hports
  by_cases hep3 : off / 4 * 4 = regEp3Fifo
  · rw [if_pos hep3] at hports
    split at hports
    · rename_i hroom
      apply staged_passes _ _ hquiet
      · rw [hports]
        exact { h with ep3Stage := hroom }
      · rw [hports]
        exact ⟨rfl, rfl, rfl, rfl⟩
    · exact quiet_passes h hports hquiet
  · rw [if_neg hep3] at hports
    exact quiet_passes h hports hquiet

theorem standardRequest_ports (u : Usbf) (s : Nat → UInt8) : (standardRequest u s).2.2.ports = u.ports := by
  have hite : ∀ (c : Prop) [Decidable c] (x y : CtrlResult × List UInt8 × Usbf), x.2.2.ports = u.ports →
      y.2.2.ports = u.ports → (if c then x else y).2.2.ports = u.ports := by
    intro c _ x y hx hy
    split
    · exact hx
    · exact hy
  unfold standardRequest
  simp only
  repeat' apply hite
  all_goals rfl

theorem control_passes (h : InRange u.ports) (s : Nat → UInt8) : Passes u (.control s) := by
  have hanswered : (hostControl u s).1 ≠ .pending → (hostControl u s).2.2.ports = u.ports → Passes u (.control s) := by
    intro hstatus hports
    have hports : (operate u (.control s)).ports = u.ports := hports
    exact quiet_passes h hports ⟨rfl, rfl, rfl, if_neg hstatus⟩
  by_cases hready : !u.usbAttached ∨ !descriptorsReady u
  · have hstall : hostControl u s = (.stall, [], u) := by rw [hostControl, if_pos hready]
    rw [hstall] at hanswered
    apply hanswered
    · intro h
      cases h
    · rfl
  by_cases hstandard : s 0 &&& 0x60 = 0
  · have hanswer : hostControl u s = standardRequest u s := by rw [hostControl, if_neg hready, if_pos hstandard]
    rw [hanswer] at hanswered
    exact hanswered (standardRequest_status u s) (standardRequest_ports u s)
  · have hpending : hostControl u s = (.pending, [], notify { finishControl u false with
        setup := (List.range 8).map s, setupPos := 0, ctrlPending := true
        intstat := update (finishControl u false).intstat 1 ((finishControl u false).intstat 1 ||| 0x31) }) := by
      rw [hostControl, if_neg hready, if_neg hstandard]
    have hports : (operate u (.control s)).ports = { u.ports with setup := (List.range 8).map s, setupPos := 0 } := by
      show (hostControl u s).2.2.ports = _
      rw [hpending, ← finishControl_ports u false]
      rfl
    constructor
    · rw [hports]
      exact { h with setupPos := Nat.zero_le _ }
    · rw [hports]
      exact .nil
    · rw [hports]
      exact .nil
    · rw [hports]
      exact .nil
    · have htraffic : setupTraffic u (.control s) = [.dropped, .arrived ((List.range 8).map s)] := by
        unfold setupTraffic
        simp only
        rw [hpending]
        rfl
      have hwhole : setupWhole ((List.range 8).map s) = (List.range 8).map s := by
        unfold setupWhole
        apply List.map_congr_left
        intro i hi
        rw [List.mem_range] at hi
        simp [hi]
      rw [hports, htraffic]
      apply Flow.dropped
      apply Flow.arrived
      rw [setupLeft, hwhole]
      exact .nil

theorem operate_passes (h : InRange u.ports) (op : Operation) : Passes u op := by
  by_cases hflush : flushes u op = true
  · exact flush_passes h hflush
  rw [Bool.not_eq_true] at hflush
  cases op with
  | read off => exact read_passes h off
  | write off val ram => exact write_passes h hflush
  | reset => cases hflush
  | attach attached =>
    have hports : (hostAttach u attached).ports = u.ports := by
      unfold hostAttach
      split
      · rfl
      · rename_i hdiffer
        cases attached with
        | true => rfl
        | false =>
          simp only [flushes, Bool.not_false, Bool.and_true] at hflush
          exact absurd hflush hdiffer
    have hports : (operate u (.attach attached)).ports = u.ports := hports
    apply quiet_passes h hports
    simp [outTraffic, inTraffic, ep3Traffic, setupTraffic, hflush]
  | busReset => cases hflush
  | control s => exact control_passes h s
  | hostOut data =>
    obtain ⟨hflow, hrange, hbeside⟩ := hostOut_flow h data
    exact beside_passes hbeside hflow hrange ⟨rfl, rfl, rfl⟩
  | hostIn max =>
    obtain ⟨hflow, hrange⟩ := hostIn_flow h max
    have hrest : ∃ fifo, (hostIn u max).2.ports = { u.ports with inFifo := fifo } := by
      unfold hostIn
      split
      · exact ⟨_, rfl⟩
      · exact ⟨_, rfl⟩
    obtain ⟨fifo, hports⟩ := hrest
    have hports : (operate u (.hostIn max)).ports = { u.ports with inFifo := fifo } := hports
    refine ⟨hrange, ?_, hflow, ?_, ?_⟩
    · rw [hports]
      exact .nil
    · rw [hports]
      exact .nil
    · rw [hports]
      exact .nil
  | hostIntrIn max =>
    by_cases hnone : !u.usbAttached ∨ u.config = 0 ∨ !u.ep3Ready
    · have hresult : hostIntrIn u max = (none, u) := by rw [hostIntrIn, if_pos hnone]
      have hports : (operate u (.hostIntrIn max)).ports = u.ports := by
        show (hostIntrIn u max).2.ports = u.ports
        rw [hresult]
      apply quiet_passes h hports
      refine ⟨rfl, rfl, ?_, rfl⟩
      unfold ep3Traffic
      simp only
      rw [hresult]
      rfl
    · have hresult : hostIntrIn u max = (some (u.ep3.bytes.take max), notify { u with ep3Ready := false }) :=
        by rw [hostIntrIn, if_neg hnone]
      have hports : (operate u (.hostIntrIn max)).ports = { u.ports with ep3Ready := false } := by
        show (hostIntrIn u max).2.ports = _
        rw [hresult]
        rfl
      have hready : u.ep3Ready = true := by
        by_contra hbusy
        exact hnone (.inr (.inr (by simpa using hbusy)))
      constructor
      · rw [hports]
        exact { h with }
      · rw [hports]
        exact .nil
      · rw [hports]
        exact .nil
      · have htraffic : ep3Traffic u (.hostIntrIn max) = [.left u.ep3.bytes] := by
          unfold ep3Traffic
          simp only
          rw [hresult]
          rfl
        have hfull : ep3Packets u.ports = [u.ep3.bytes] := if_pos hready
        rw [hports, htraffic, hfull]
        exact .left .nil
      · rw [hports]
        exact .nil

/-! ## What operations give -/

/-- A DMA of the guest's that reaches RAM. -/
def reachesRam (u : Usbf) : Operation → Bool
  | .write _ _ ram => (dmaRam u ram).isSome
  | _ => false

/-- What leaves a FIFO is what the operation gives: a byte to a read, bytes at rising addresses
    to RAM, to the host as much of a packet as it asks for. -/
structure Handed (u : Usbf) (op : Operation) : Prop where
  out : ∀ off, op = .read off → off / 4 * 4 = regOutFifo →
    (operation u op).1 = .value (((Traffic.leavings (outTraffic u op)).map fun x => x.1.toNat).headD 0)
  setup : ∀ off x, op = .read off → x ∈ Traffic.leavings (setupTraffic u op) → (operation u op).1 = .value x.toNat
  stores : (operate u op).stores = u.stores ++
    if reachesRam u op then (Traffic.leavings (outTraffic u op)).mapIdx fun i x => (u.dmaAddr % 0x20000000 + i, x.1) else []
  packet : ∀ max, op = .hostIn max → (operation u op).1 = .packet ((Traffic.leavings (inTraffic u op)).head?.map (·.take max))
  ep3 : ∀ max, op = .hostIntrIn max → (operation u op).1 = .packet ((Traffic.leavings (ep3Traffic u op)).head?.map (·.take max))

theorem stores_ite {c : Prop} [Decidable c] {x y : Usbf} {l : List (Nat × UInt8)} (hx : x.stores = l) (hy : y.stores = l) :
    (if c then x else y).stores = l := by
  split
  · exact hx
  · exact hy

theorem finishControl_stores (u : Usbf) (ok : Bool) : (finishControl u ok).stores = u.stores := by
  unfold finishControl onCtrlDone
  split
  · split <;> rfl
  · rfl

theorem commit_stores (u : Usbf) (val : UInt8) : (commit u val).stores = u.stores := by
  unfold commit
  simp only
  have hstatus : (if val &&& 0x01 ≠ 0 then
      finishControl { u with intstat := update u.intstat 2 (u.intstat 2 ||| 0x08) } true else u).stores = u.stores :=
    stores_ite (finishControl_stores _ true) rfl
  generalize (if val &&& 0x01 ≠ 0 then
      finishControl { u with intstat := update u.intstat 2 (u.intstat 2 ||| 0x08) } true else u) = t at hstatus ⊢
  have hpacket : (if val &&& 0x02 ≠ 0 then queueIn t else t).stores = t.stores := stores_ite rfl rfl
  rw [← hstatus, ← hpacket]
  exact stores_ite rfl rfl

theorem dma_stores (u : Usbf) (ram : Nat → Nat → Option (Nat → UInt8)) : (dma u ram).stores =
    if u.dmaDir &&& 0x01 ≠ 0 then u.stores
    else (drainOut (dmaRam u ram).isSome (dmaLength u) (u.dmaAddr % 0x20000000) u).stores := by
  unfold dma
  simp only
  split
  · exact stores_ite rfl rfl
  · rfl

/-- The one register whose writes reach RAM. -/
theorem writeRegister_stores (u : Usbf) (reg val : Nat) (ram : Nat → Nat → Option (Nat → UInt8)) :
    (writeRegister u reg val ram).stores =
      if reg = regDmaStart then
        if UInt8.ofNat val &&& 0x01 ≠ 0 ∧ UInt8.ofNat val &&& 0x10 = 0 then (dma u ram).stores else u.stores
      else u.stores := by
  by_cases hdma : reg = regDmaStart
  · subst hdma
    rw [if_pos rfl]
    exact apply_ite Usbf.stores _ (dma u ram) u
  have hstall : (if UInt8.ofNat val &&& 0x08 ≠ 0 ∧ u.ctrlPending then finishControl u false else u).stores = u.stores :=
    stores_ite (finishControl_stores u false) rfl
  unfold writeRegister
  simp only
  rw [if_neg hdma, if_neg hdma]
  refine stores_ite rfl (stores_ite rfl ?_)
  refine stores_ite rfl (stores_ite rfl (stores_ite rfl (stores_ite rfl (stores_ite rfl (stores_ite rfl ?_)))))
  refine stores_ite (stores_ite (finishControl_stores u false) rfl)
    (stores_ite rfl (stores_ite (stores_ite rfl rfl) (stores_ite hstall ?_)))
  refine stores_ite rfl (stores_ite rfl (stores_ite rfl (stores_ite rfl (stores_ite rfl (stores_ite rfl ?_)))))
  refine stores_ite rfl (stores_ite (stores_ite rfl rfl) (stores_ite (commit_stores u _) ?_))
  exact stores_ite (stores_ite rfl rfl) (stores_ite rfl rfl)

theorem write_stores (u : Usbf) (off val : Nat) (ram : Nat → Nat → Option (Nat → UInt8)) :
    (write u off val ram).stores = u.stores ++ if (dmaRam u ram).isSome then
      (Traffic.leavings (outTraffic u (.write off val ram))).mapIdx fun i x => (u.dmaAddr % 0x20000000 + i, x.1) else [] := by
  have hwrite : (write u off val ram).stores = (writeRegister u (off / 4 * 4) val ram).stores := by
    unfold write
    simp only
    split
    · rename_i hdesc
      rw [writeRegister_stores, if_neg fun h => ?_]
      rw [h] at hdesc
      exact absurd hdesc (by decide)
    · rfl
  have hquiet : Traffic.leavings (outTraffic u (.write off val ram)) = [] → (write u off val ram).stores = u.stores →
      (write u off val ram).stores = u.stores ++ if (dmaRam u ram).isSome then
        (Traffic.leavings (outTraffic u (.write off val ram))).mapIdx fun i x => (u.dmaAddr % 0x20000000 + i, x.1) else [] := by
    intro hleft hsame
    rw [hleft, hsame, List.mapIdx_nil, ite_self, List.append_nil]
  rw [writeRegister_stores] at hwrite
  by_cases hdma : off / 4 * 4 = regDmaStart
  · have hflush : flushes u (.write off val ram) = false := by simp [flushes, hdma, regDmaStart, regReset]
    rw [if_pos hdma] at hwrite
    by_cases hstart : UInt8.ofNat val &&& 0x01 ≠ 0 ∧ UInt8.ofNat val &&& 0x10 = 0
    · have hstarts : starts off val = true := by simp [starts, hdma, hstart]
      rw [if_pos hstart, dma_stores] at hwrite
      by_cases htx : u.dmaDir &&& 0x01 ≠ 0
      · rw [if_pos htx] at hwrite
        exact hquiet (by simp [outTraffic, hflush, htx, Traffic.leavings]) hwrite
      · have hrx : u.dmaDir &&& 0x01 = 0 := by simpa using htx
        have hdrained : outTraffic u (.write off val ram) = drained (dmaLength u) u := by
          simp [outTraffic, hflush, hstarts, hrx]
        rw [if_neg htx, drainOut_stores] at hwrite
        rw [hwrite, hdrained]
    · have hstarts : starts off val = false := by simpa [starts, hdma] using hstart
      rw [if_neg hstart] at hwrite
      exact hquiet (by simp [outTraffic, hflush, hstarts, Traffic.leavings]) hwrite
  · have hstarts : starts off val = false := by simp [starts, hdma]
    rw [if_neg hdma] at hwrite
    refine hquiet ?_ hwrite
    unfold outTraffic
    split
    · rfl
    · simp [hstarts, Traffic.leavings]

theorem operate_stores (u : Usbf) (op : Operation) : (operate u op).stores = u.stores ++
    if reachesRam u op then (Traffic.leavings (outTraffic u op)).mapIdx fun i x => (u.dmaAddr % 0x20000000 + i, x.1) else [] := by
  have hsame : ∀ v : Usbf, v.stores = u.stores → v.stores = u.stores ++ [] := fun v hv => hv.trans (List.append_nil _).symm
  cases op with
  | read off =>
    apply hsame
    show (read u off).2.stores = u.stores
    rw [read_state]
    refine stores_ite ?_ (stores_ite (outByte_stores u) rfl)
    unfold readSetup
    simp only
    repeat' split
    all_goals rfl
  | write off val ram => exact write_stores u off val ram
  | reset => exact hsame _ (finishControl_stores u false)
  | attach attached =>
    apply hsame
    show (hostAttach u attached).stores = u.stores
    unfold hostAttach
    refine stores_ite rfl ?_
    exact stores_ite (c := attached = true) rfl (finishControl_stores _ false)
  | busReset => exact hsame _ (finishControl_stores u false)
  | control s =>
    apply hsame
    show (hostControl u s).2.2.stores = u.stores
    have hanswered := standardRequest_answered u s
    unfold hostControl
    split
    · rfl
    split
    · generalize (standardRequest u s).2.2 = v at hanswered ⊢
      cases hanswered <;> rfl
    · exact finishControl_stores u false
  | hostOut data =>
    apply hsame
    show (hostOut u data).2.stores = u.stores
    unfold hostOut
    repeat' split
    all_goals rfl
  | hostIn max =>
    apply hsame
    show (hostIn u max).2.stores = u.stores
    unfold hostIn
    split <;> rfl
  | hostIntrIn max =>
    apply hsame
    show (hostIntrIn u max).2.stores = u.stores
    unfold hostIntrIn
    split <;> rfl

theorem operate_handed (u : Usbf) (op : Operation) : Handed u op := by
  refine ⟨?_, ?_, operate_stores u op, ?_, ?_⟩
  · rintro off rfl hreg
    have htaken : outTraffic u (.read off) = taken u := by simp [outTraffic, flushes, hreg]
    have hvalue : (operation u (.read off)).1 = .value (outByte u).1.toNat := by
      unfold operation read
      simp only [hreg]
      rfl
    rw [htaken, hvalue, taken]
    split
    · rfl
    · rename_i hnone
      rw [outByte, if_neg hnone]
      rfl
  · rintro off x rfl hx
    by_cases hreg : off / 4 * 4 = regSetupFifo
    · have hvalue : (operation u (.read off)).1 = .value (readSetup u).1.toNat := by
        unfold operation read
        simp only [hreg]
        rfl
      have hleft : setupTraffic u (.read off) = if u.setupPos < 8 then [.left (readSetup u).1] else [] := by
        simp [setupTraffic, flushes, hreg]
      rw [hleft] at hx
      split at hx
      · rw [hvalue, List.mem_singleton.mp hx]
      · cases hx
    · simp [setupTraffic, flushes, hreg, Traffic.leavings] at hx
  · rintro max rfl
    unfold operation inTraffic hostIn
    simp only [flushes]
    split
    · rfl
    · rfl
  · rintro max rfl
    unfold operation ep3Traffic hostIntrIn
    simp only [flushes]
    split
    · rfl
    · rfl

/-! ## Runs -/

def history {α : Type} (traffic : Usbf → Operation → List (Traffic α)) (u : Usbf) : List Operation → List (Traffic α)
  | [] => []
  | op :: ops => traffic u op ++ history traffic (operate u op) ops

theorem history_flow {α : Type} {contents : Ports → List α} {traffic : Usbf → Operation → List (Traffic α)}
    (hstep : ∀ u op, Passes u op → Flow (contents u.ports) (traffic u op) (contents (operate u op).ports))
    (h : InRange u.ports) (ops : List Operation) :
    Flow (contents u.ports) (history traffic u ops) (contents (operations u ops).ports) := by
  induction ops generalizing u with
  | nil => exact .nil
  | cons op ops ih =>
    have hpasses := operate_passes h op
    exact (hstep u op hpasses).append (ih hpasses.inRange)

theorem operations_inRange (h : InRange u.ports) (ops : List Operation) : InRange (operations u ops).ports := by
  induction ops generalizing u with
  | nil => exact h
  | cons op ops ih => exact ih (operate_passes h op).inRange

theorem usbfInit_inRange (u : Usbf) : InRange (usbfInit u).ports := by
  refine ⟨⟨Nat.succ_pos _, Nat.zero_le _⟩, nofun, fun _ => rfl, fun hsome => absurd rfl hsome, ⟨Nat.succ_pos _, Nat.zero_le _⟩,
    nofun,
    ?_, ?_, ?_, ?_⟩
  · exact Nat.zero_le _
  · exact Nat.zero_le _
  · exact Nat.zero_le _
  · exact Nat.zero_le _

/-- After any operations: what is in range, what went through the FIFOs, in order, and to whom,
    and what has been told of the interrupt. -/
theorem fifos_consistent (u : Usbf) (ops : List Operation) :
    InRange (operations (usbfInit u) ops).ports ∧
    (Flow [] (history outTraffic (usbfInit u) ops) (outBytes (operations (usbfInit u) ops).ports) ∧
      Flow [] (history inTraffic (usbfInit u) ops) (inPackets (operations (usbfInit u) ops).ports) ∧
      Flow [] (history ep3Traffic (usbfInit u) ops) (ep3Packets (operations (usbfInit u) ops).ports) ∧
      Flow (setupWhole []) (history setupTraffic (usbfInit u) ops) (setupLeft (operations (usbfInit u) ops).ports)) ∧
    ((Traffic.leavings (history outTraffic (usbfInit u) ops)).Sublist (Traffic.arrivals (history outTraffic (usbfInit u) ops)) ∧
      (Traffic.leavings (history inTraffic (usbfInit u) ops)).Sublist (Traffic.arrivals (history inTraffic (usbfInit u) ops)) ∧
      (Traffic.leavings (history ep3Traffic (usbfInit u) ops)).Sublist (Traffic.arrivals (history ep3Traffic (usbfInit u) ops))) ∧
    (∀ op, Handed (operations (usbfInit u) ops) op) ∧
    (∃ l, (operations (usbfInit u) ops).calls = (usbfInit u).calls ++ l ∧
      l.getLastD (irqPending (usbfInit u)) = irqPending (operations (usbfInit u) ops)) ∧
    ∀ op, Heard (operations (usbfInit u) ops) (operate (operations (usbfInit u) ops) op) := by
  have hinit := usbfInit_inRange u
  have hout : Flow [] (history outTraffic (usbfInit u) ops) _ := history_flow (fun _ _ hpasses => hpasses.out) hinit ops
  have hin : Flow [] (history inTraffic (usbfInit u) ops) _ := history_flow (fun _ _ hpasses => hpasses.packets) hinit ops
  have hep3 : Flow [] (history ep3Traffic (usbfInit u) ops) _ := history_flow (fun _ _ hpasses => hpasses.ep3) hinit ops
  have hsetup : Flow (setupWhole []) (history setupTraffic (usbfInit u) ops) _ :=
    history_flow (fun _ _ hpasses => hpasses.setup) hinit ops
  have hsub : ∀ {α : Type} {h : List (Traffic α)} {r : List α}, Flow [] h r →
    (Traffic.leavings h).Sublist (Traffic.arrivals h) := by
    intro α h r hflow
    exact (List.sublist_append_left _ _).trans hflow.leavings_sublist
  exact ⟨operations_inRange hinit ops, ⟨hout, hin, hep3, hsetup⟩, ⟨hsub hout, hsub hin, hsub hep3⟩,
    operate_handed _, level_followed _ ops, operate_heard _⟩

end Ports

end Be300.Usb
