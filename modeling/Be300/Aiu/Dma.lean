/-
  Be300.Aiu.Dma — the wave output of the audio block (`src/hw/aiu.c`): two buffers in guest
  memory that the host's clock drains in turn.

  `latch` holds the companion's register bytes. The arithmetic on times and frame counts is
  modulo 2^64, as the code's is. `emitted` are the physical addresses of the frames that went
  to `ui_audio_queue_pcm` since the start, `drained` the buffers whose status was raised
  since then. `startedAt` and `skipped` record when playback started and how far the
  catch-up limit has moved its origin; the code keeps only their sum, `startNs`.
-/

import Mathlib.Logic.Function.Basic
import Mathlib.Tactic.Common
import Mathlib.Algebra.Ring.Nat
import Be300.Lib.Bytes

namespace Be300.Aiu

open Be300.Lib (rd at')

def aiuFrameStage : Nat := 512
def aiuMinBatch : Nat := 64
def aiuMaxBufBytes : Nat := 0x10000
def aiuMaxCatchupNs : Nat := 100000000

def aiuRegCodecCmd : Nat := 0x03C0
def aiuRegCtrl : Nat := 0x0880
def aiuRegFormat : Nat := 0x0888
def aiuRegDmaEnable : Nat := 0x0898
def aiuRegArm : Nat := 0x08A0
def aiuRegBufStart (idx : Bool) : Nat := if idx then 0x08B8 else 0x08B0
def aiuRegBufEnd (idx : Bool) : Nat := if idx then 0x08BC else 0x08B4
def aiuRegAck0 : Nat := 0x08C8
def aiuRegAck1 : Nat := 0x08CC

def u32 (n : Nat) : Nat := n % 2 ^ 32
def u64 (n : Nat) : Nat := n % 2 ^ 64

/-- `a - b` on `uint64_t`. -/
def sub64 (a b : Nat) : Nat := (a + 2 ^ 64 - b % 2 ^ 64) % 2 ^ 64

/-- `a - b` on `uint32_t`. -/
def sub32 (a b : Nat) : Nat := (a + 2 ^ 32 - b % 2 ^ 32) % 2 ^ 32

/-- A buffer as it was latched. -/
structure Buffer where
  idx : Bool
  start : Nat
  len : Nat
  deriving DecidableEq

/-- What does not change: whether audio is on, and the physical addresses that guest memory backs. -/
structure Board where
  enableAudio : Bool
  ram : Nat → Bool

structure AiuState where
  latch : Nat → UInt8
  running : Bool
  curBuf : Bool
  bufStart : Bool → Nat
  bufLen : Bool → Nat
  pos : Nat
  status : Bool → Bool
  codecDouble : Bool
  rateHz : Nat
  channels : Nat
  startNs : Nat
  framesDone : Nat
  irqCount : Nat
  clock : Nat
  emitted : List Nat
  drained : List Buffer
  startedAt : Nat
  skipped : Nat

def aiuInit (latch : Nat → UInt8) : AiuState where
  latch := latch
  running := false
  curBuf := false
  bufStart := fun _ => 0
  bufLen := fun _ => 0
  pos := 0
  status := fun _ => false
  codecDouble := false
  rateHz := 0
  channels := 0
  startNs := 0
  framesDone := 0
  irqCount := 0
  clock := 0
  emitted := []
  drained := []
  startedAt := 0
  skipped := 0

/-! ## Registers -/

def aiuReg (s : AiuState) (off : Nat) : Nat := rd 4 s.latch off

def aiuRateHz (s : AiuState) : Nat :=
  let base :=
    match aiuReg s aiuRegCtrl &&& 0x70 with
    | 0x40 => 8000
    | 0x10 => 11025
    | 0x30 => 16000
    | _ => 22050
  if s.codecDouble then base * 2 else base

def aiuChannels (s : AiuState) : Nat := if aiuReg s aiuRegFormat &&& 0x2 ≠ 0 then 1 else 2

/-- The buffer that the registers describe. -/
def programmed (s : AiuState) (idx : Bool) : Buffer :=
  let start := aiuReg s (aiuRegBufStart idx) &&& 0x1FFFFFFF
  let stop := aiuReg s (aiuRegBufEnd idx) &&& 0x1FFFFFFF
  { idx, start, len := if start ≤ stop ∧ stop - start < aiuMaxBufBytes then stop - start + 1 else 0 }

def aiuLoadBuffer (s : AiuState) (idx : Bool) : AiuState :=
  { s with
    bufStart := Function.update s.bufStart idx (programmed s idx).start
    bufLen := Function.update s.bufLen idx (programmed s idx).len }

def aiuReadStatus (s : AiuState) : Nat := (if s.status false then 1 else 0) + (if s.status true then 2 else 0)

def aiuIrqPending (s : AiuState) : Bool := s.status false || s.status true

def aiuHandlesWrite (off len : Nat) : Bool :=
  (off < aiuRegAck1 + 4 && aiuRegDmaEnable < off + len) || (off < aiuRegCodecCmd + 4 && aiuRegCodecCmd < off + len)

def aiuStart (s : AiuState) : AiuState :=
  let s := { s with running := true, curBuf := false, pos := 0, rateHz := aiuRateHz s, channels := aiuChannels s }
  let s := aiuLoadBuffer (aiuLoadBuffer s false) true
  { s with startNs := u64 s.clock, framesDone := 0, emitted := [], drained := [], startedAt := s.clock, skipped := 0 }

def aiuStop (s : AiuState) : AiuState := { s with running := false }

/-- The codec bit and the acknowledgements of a write. -/
def noteCommand (off val : Nat) (s : AiuState) : AiuState :=
  let s := if off = aiuRegCodecCmd ∧ val &&& 0xF000 = 0xD000 then { s with codecDouble := decide (val &&& 0x80 ≠ 0) } else s
  let s := if off = aiuRegAck0 ∧ val &&& 1 ≠ 0 then { s with status := Function.update s.status false false } else s
  if off = aiuRegAck1 ∧ val &&& 1 ≠ 0 then { s with status := Function.update s.status true false } else s

def aiuNoteWrite (off val : Nat) (s : AiuState) : AiuState :=
  let s := noteCommand off val s
  let wantRun := aiuReg s aiuRegDmaEnable &&& 1 ≠ 0 ∧ aiuReg s aiuRegArm &&& 1 ≠ 0
  if wantRun ∧ !s.running then aiuStart s else if ¬wantRun ∧ s.running then aiuStop s else s

/-! ## The DMA cursor -/

/-- The loop of `aiu_emit`: the addresses of the frames that go to the host. -/
def emitLoop (b : Board) (frameBytes : Nat) : Nat → Nat → Nat → List Nat
  | 0, _, _ => []
  | fuel + 1, pa, frames =>
    if frames = 0 then []
    else
      let n := min frames aiuFrameStage
      let pageLeft := 0x1000 - pa % 0x1000
      let n := if pageLeft < n * frameBytes then pageLeft / frameBytes else n
      -- a frame across two pages is skipped
      if n = 0 then emitLoop b frameBytes fuel (u32 (pa + frameBytes)) (frames - 1)
      else if !b.ram pa then []
      else (List.range n).map (fun i => u32 (pa + i * frameBytes)) ++ emitLoop b frameBytes fuel (u32 (pa + n * frameBytes))
        (frames - n)

def aiuEmit (b : Board) (pa frames : Nat) (s : AiuState) : AiuState :=
  if b.enableAudio then { s with emitted := s.emitted ++ emitLoop b (2 * s.channels) frames pa frames } else s

/-- The nanoseconds that the frames consumed so far take. -/
def playedNs (s : AiuState) : Nat := u64 (s.framesDone * 1000000000) / s.rateHz

/-- More time has passed than one tick may consume. -/
def Stalled (now : Nat) (s : AiuState) : Prop := u64 (aiuMaxCatchupNs + playedNs s) < sub64 now s.startNs

instance (now : Nat) (s : AiuState) : Decidable (Stalled now s) := inferInstanceAs (Decidable (_ < _))

def catchUp (now : Nat) (s : AiuState) : AiuState :=
  if Stalled now s then
    { s with startNs := sub64 now (playedNs s), skipped := s.skipped + (sub64 now (playedNs s) - s.startNs) }
  else s

/-- The frames due since the start. -/
def framesDue (now : Nat) (s : AiuState) : Nat := u64 (sub64 now s.startNs * s.rateHz) / 1000000000

/-- The buffer that is being drained. -/
def current (s : AiuState) : Buffer := ⟨s.curBuf, s.bufStart s.curBuf, s.bufLen s.curBuf⟩

def framesLeft (s : AiuState) : Nat :=
  if s.bufLen s.curBuf < 2 * s.channels then 0 else sub32 (s.bufLen s.curBuf) s.pos / (2 * s.channels)

def consume (b : Board) (n : Nat) (s : AiuState) : AiuState :=
  let s := aiuEmit b (u32 (s.bufStart s.curBuf + s.pos)) n s
  { s with pos := u32 (s.pos + n * (2 * s.channels)), framesDone := u64 (s.framesDone + n) }

/-- The status of the buffer is raised, and the other buffer is next. -/
def switch (s : AiuState) : AiuState :=
  let s := { s with
    status := Function.update s.status s.curBuf true
    irqCount := u64 (s.irqCount + 1)
    drained := s.drained ++ [current s]
    curBuf := !s.curBuf
    pos := 0 }
  aiuLoadBuffer s s.curBuf

/-- The loop of `aiu_tick`. It does not end where the fuel runs out. -/
def serviceLoop (b : Board) : Nat → Nat → AiuState → Option AiuState
  | 0, due, s => if due = 0 then some s else none
  | fuel + 1, due, s =>
    if due = 0 then some s
    else
      let left := framesLeft s
      let n := min due left
      let s := if 0 < n then consume b n s else s
      let due := due - n
      if n = left then
        -- two empty buffers would make the loop spin
        if left = 0 then some { switch s with framesDone := u64 ((switch s).framesDone + due) }
        else serviceLoop b fuel due (switch s)
      else serviceLoop b fuel due s

def aiuTick (b : Board) (s : AiuState) : Option AiuState :=
  let now := u64 s.clock
  if !s.running ∨ s.rateHz = 0 then some s
  else
    let s := catchUp now s
    if framesDue now s ≤ s.framesDone then some s
    else
      let due := framesDue now s - s.framesDone
      if due < aiuMinBatch ∧ 2 * s.channels ≤ s.bufLen s.curBuf ∧ due < sub32 (s.bufLen s.curBuf) s.pos / (2 * s.channels)
        then some s
      else serviceLoop b due due s

/-! ## Runs -/

inductive Event
  /-- The host's clock goes on. -/
  | wait (ns : Nat)
  /-- The guest writes the bytes to the companion's registers. -/
  | write (off : Nat) (data : List UInt8)
  | tick

/-- A write to the plain latch, as `be300_latch_write` hands it on. -/
def latchWrite (off : Nat) (data : List UInt8) (s : AiuState) : AiuState :=
  let s := { s with latch := fun a => if off ≤ a ∧ a < off + data.length then data.getD (a - off) 0 else s.latch a }
  if aiuHandlesWrite off data.length then aiuNoteWrite off (u32 (rd data.length (at' data) 0)) s else s

def step (b : Board) (s : AiuState) : Event → Option AiuState
  | .wait ns => some { s with clock := s.clock + ns }
  | .write off data => some (latchWrite off data s)
  | .tick => aiuTick b s

def run (b : Board) (s : AiuState) : List Event → Option AiuState
  | [] => some s
  | e :: es => (step b s e).bind fun s => run b s es

end Be300.Aiu
