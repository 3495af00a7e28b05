/-
  Be300.Aiu.Playback — what playback emits and how far it has come, over every run of register
  writes and ticks (`src/hw/aiu.c`).

  A tick drains as many frames as are due (`Ticked`), as long as its products fit 64 bits
  (`Exact`). After ten days of 22050 Hz they do not, and the cursor sticks.
-/

import Be300.Aiu.Service

namespace Be300.Aiu

open Be300.Lib (rd at')

/-! ## Ticks -/

/-- The nanoseconds of playback: those since the start, less the time skipped. -/
def elapsed (s : AiuState) : Nat := s.clock - (s.startedAt + s.skipped)

/-- The frames that playback is due for. -/
def dueFrames (s : AiuState) : Nat := elapsed s * s.rateHz / 1000000000

/-- A state of playback, running or stopped. -/
structure Playing (b : Board) (s : AiuState) : Prop where
  cursor : Cursor b s
  within : Within s
  rate : 8000 ≤ s.rateHz ∧ s.rateHz ≤ 44100
  origin : s.startNs = s.startedAt + s.skipped ∧ s.startNs ≤ s.clock
  frames : s.framesDone ≤ dueFrames s + 1

/-- What a tick of a running device does, and the buffers that it drains: their status is raised, and no other. -/
structure Ticked (s s' : AiuState) (new : List Buffer) : Prop where
  drained : s'.drained = s.drained ++ new
  irqs : s'.irqCount = u64 (s.irqCount + new.length)
  status : ∀ idx, s'.status idx = (s.status idx || new.any fun buf => buf.idx == idx)
  frames : s.framesDone ≤ s'.framesDone
  /-- As many frames are consumed as are due, or fewer by less than a batch; one more where the time of a skip was rounded. -/
  due : s'.framesDone ≤ dueFrames s' + 1 ∧ dueFrames s' < s'.framesDone + aiuMinBatch
  /-- Time is skipped only after a stall, up to the time of the frames consumed. -/
  skipped : s'.skipped = s.skipped ∨
    aiuMaxCatchupNs + s.framesDone * 1000000000 / s.rateHz < elapsed s ∧ elapsed s' = s.framesDone * 1000000000 / s.rateHz

/-- The products of a tick fit 64 bits, and so does the clock. -/
def Exact (s : AiuState) : Event → Prop
  | .wait _ => True
  | .write _ _ => s.clock < 2 ^ 64
  | .tick => s.clock < 2 ^ 64 ∧ (s.running = true → s.framesDone * 1000000000 < 2 ^ 64 ∧
      (s.clock - s.startNs ≤ aiuMaxCatchupNs + s.framesDone * 1000000000 / s.rateHz → (s.clock - s.startNs) * s.rateHz < 2 ^ 64))

section Tick

variable {b : Board} {s : AiuState}

/-- The time of some frames, rounded down, is due for all of them but one. -/
theorem frames_of_time {f r : Nat} (hr : 0 < r) (hr' : r ≤ 1000000000) : f ≤ f * 1000000000 / r * r / 1000000000 + 1 := by
  have hlt := Nat.lt_div_mul_add hr (a := f * 1000000000)
  have := Nat.lt_div_mul_add (a := f * 1000000000 / r * r) (show 0 < 1000000000 by decide)
  omega

theorem playedNs_exact (h : s.framesDone * 1000000000 < 2 ^ 64) : playedNs s = s.framesDone * 1000000000 / s.rateHz := by
  rw [playedNs, u64_of_lt h]

/-- The time of a stall is skipped, up to the frames consumed, and nothing is due. -/
theorem stalled_tick (h : Playing b s) (hrun : s.running = true) (hclock : s.clock < 2 ^ 64)
    (hdone : s.framesDone * 1000000000 < 2 ^ 64)
    (hstall : aiuMaxCatchupNs + s.framesDone * 1000000000 / s.rateHz < s.clock - s.startNs) :
    ∃ s', aiuTick b s = some s' ∧ Playing b s' ∧ Ticked s s' [] := by
  have hrate := h.rate
  have horigin := h.origin
  have hplayed := playedNs_exact hdone
  obtain ⟨p, hp⟩ : ∃ p, p = s.framesDone * 1000000000 / s.rateHz := ⟨_, rfl⟩
  rw [← hp] at hplayed hstall
  have hback : sub64 s.clock p = s.clock - p := sub64_of_le (by omega) hclock
  have hcatch : catchUp s.clock s = { s with startNs := s.clock - p, skipped := s.skipped + (s.clock - p - s.startNs) } := by
    have hwide : u64 (aiuMaxCatchupNs + p) = aiuMaxCatchupNs + p := u64_of_lt (by omega)
    rw [catchUp, if_pos (show Stalled s.clock s by rw [Stalled, hplayed, hwide, sub64_of_le horigin.2 hclock]; exact hstall),
      hplayed, hback]
  obtain ⟨s', hs'⟩ : ∃ s', s' = { s with startNs := s.clock - p, skipped := s.skipped + (s.clock - p - s.startNs) } := ⟨_, rfl⟩
  have helapsed : elapsed s' = p := by
    rw [hs', elapsed]
    simp only
    omega
  have hmul : p * s.rateHz < 2 ^ 64 := (hp ▸ Nat.div_mul_le_self _ _).trans_lt hdone
  have hdue : framesDue s.clock s' = dueFrames s' := by
    have hsub : sub64 s.clock s'.startNs = p := by
      rw [hs', sub64_of_le (by simp only; omega) hclock]
      simp only
      omega
    rw [framesDue, hsub, dueFrames, helapsed, hs', u64_of_lt hmul]
  have hle : dueFrames s' ≤ s.framesDone := by
    rw [dueFrames, helapsed, hs']
    refine Nat.div_le_of_le_mul ?_
    have := hp ▸ Nat.div_mul_le_self (s.framesDone * 1000000000) s.rateHz
    simp only
    omega
  have hnear : s.framesDone ≤ dueFrames s' + 1 := by
    rw [dueFrames, helapsed, hs', hp]
    exact frames_of_time (by omega) (by omega)
  refine ⟨s', ?_, ?_, ?_⟩
  · rw [aiuTick]
    simp only
    rw [if_neg (by simp [hrun]; omega), u64_of_lt hclock, hcatch, ← hs', hdue, if_pos (by rw [hs'] at hle ⊢; exact hle)]
  · rw [hs'] at hnear ⊢
    exact ⟨⟨h.cursor.channels, h.cursor.current, h.cursor.bounds, h.cursor.whole, h.cursor.pos, h.cursor.emitted, h.cursor.turns,
      h.cursor.turn,
      h.cursor.counts⟩, h.within, h.rate, ⟨by simp only; omega, by simp only; omega⟩, hnear⟩
  · have hskip : aiuMaxCatchupNs + s.framesDone * 1000000000 / s.rateHz < elapsed s := by
      rw [elapsed, ← horigin.1, ← hp]
      exact hstall
    have hfields : s'.drained = s.drained ∧ s'.irqCount = s.irqCount ∧ s'.status = s.status ∧ s'.framesDone = s.framesDone := by
      rw [hs']
      exact ⟨rfl, rfl, rfl, rfl⟩
    rcases hfields with ⟨hdrained, hirqs, hstatus, hframes⟩
    refine ⟨by rw [hdrained, List.append_nil], by rw [hirqs]; exact (u64_of_lt h.cursor.counts.2).symm,
      fun idx => by rw [hstatus]; exact (Bool.or_false _).symm,
      Nat.le_of_eq hframes.symm, ⟨hframes ▸ hnear, ?_⟩, Or.inr ⟨hskip, helapsed.trans hp⟩⟩
    rw [hframes, aiuMinBatch]
    omega

/-- A tick without a stall. -/
theorem timely_eq (h : Playing b s) (hrun : s.running = true) (hclock : s.clock < 2 ^ 64)
    (hdone : s.framesDone * 1000000000 < 2 ^ 64)
    (htime : s.clock - s.startNs ≤ aiuMaxCatchupNs + s.framesDone * 1000000000 / s.rateHz) :
    aiuTick b s = if u64 ((s.clock - s.startNs) * s.rateHz) / 1000000000 ≤ s.framesDone then some s
      else if u64 ((s.clock - s.startNs) * s.rateHz) / 1000000000 - s.framesDone < aiuMinBatch ∧
        2 * s.channels ≤ s.bufLen s.curBuf ∧
        u64 ((s.clock - s.startNs) * s.rateHz) / 1000000000 - s.framesDone < sub32 (s.bufLen s.curBuf) s.pos / (2 * s.channels)
          then some s
      else serviceLoop b (u64 ((s.clock - s.startNs) * s.rateHz) / 1000000000 - s.framesDone)
        (u64 ((s.clock - s.startNs) * s.rateHz) / 1000000000 - s.framesDone) s := by
  have hrate := h.rate
  have hsub : sub64 s.clock s.startNs = s.clock - s.startNs := sub64_of_le h.origin.2 hclock
  have hcatch : catchUp s.clock s = s := by
    refine if_neg ?_
    rw [Stalled, playedNs_exact hdone, hsub]
    refine Nat.not_lt.mpr (htime.trans (Nat.le_of_eq (u64_of_lt ?_).symm))
    have hmul := (Nat.mul_le_mul_left (s.framesDone * 1000000000 / s.rateHz) hrate.1).trans (Nat.div_mul_le_self _ _)
    rw [aiuMaxCatchupNs]
    omega
  rw [aiuTick]
  simp only
  rw [if_neg (by simp [hrun]; omega), u64_of_lt hclock, hcatch, framesDue, hsub]

/-- Without a stall, what is due is consumed, or left for a batch. -/
theorem timely_tick (h : Playing b s) (hrun : s.running = true) (hnext : Next b s) (hclock : s.clock < 2 ^ 64)
    (hdone : s.framesDone * 1000000000 < 2 ^ 64)
    (htime : s.clock - s.startNs ≤ aiuMaxCatchupNs + s.framesDone * 1000000000 / s.rateHz)
    (hproduct : (s.clock - s.startNs) * s.rateHz < 2 ^ 64) :
    ∃ s' new, aiuTick b s = some s' ∧ Playing b s' ∧ Ticked s s' new := by
  have horigin := h.origin
  have hdue : u64 ((s.clock - s.startNs) * s.rateHz) / 1000000000 = dueFrames s := by
    rw [u64_of_lt hproduct, dueFrames, elapsed, ← horigin.1]
  have htick := timely_eq h hrun hclock hdone htime
  rw [hdue] at htick
  have hsame (hnear : s.framesDone ≤ dueFrames s + 1) (hbatch : dueFrames s < s.framesDone + aiuMinBatch) : Ticked s s [] :=
    ⟨(List.append_nil _).symm, (u64_of_lt h.cursor.counts.2).symm, fun _ => (Bool.or_false _).symm, Nat.le_refl _,
      ⟨hnear, hbatch⟩, Or.inl rfl⟩
  rw [htick]
  by_cases hnone : dueFrames s ≤ s.framesDone
  · rw [if_pos hnone]
    exact ⟨s, [], rfl, h, hsame h.frames (by rw [aiuMinBatch]; omega)⟩
  · rw [if_neg hnone]
    split
    · rename_i hfew
      exact ⟨s, [], rfl, h, hsame h.frames (by omega)⟩
    · rcases serviceLoop_keeps h.cursor hnext h.within (Nat.le_refl (dueFrames s - s.framesDone))
        with ⟨s', new, hloop, hcursor, hwithin, hserves⟩
      have hsmall : dueFrames s < 2 ^ 64 := by
        rw [dueFrames, elapsed, ← horigin.1]
        exact (Nat.div_le_self _ _).trans_lt hproduct
      have hframes : s'.framesDone = dueFrames s := by
        rw [hserves.frames, Nat.add_sub_cancel' (by omega), u64_of_lt hsmall]
      have hall : dueFrames s' = dueFrames s ∧ elapsed s' = elapsed s ∧ s'.skipped = s.skipped ∧ s'.rateHz = s.rateHz ∧
          s'.startNs = s.startNs ∧ s'.startedAt = s.startedAt ∧ s'.clock = s.clock := by
        rw [hserves.rest]
        exact ⟨rfl, rfl, rfl, rfl, rfl, rfl, rfl⟩
      rcases hall with ⟨hdue', -, hskipped, hrate', hstart, hstarted, hclock'⟩
      refine ⟨s', new, hloop, ⟨hcursor, hwithin, by rw [hrate']; exact h.rate, ?_, ?_⟩, ?_⟩
      · rw [hstart, hstarted, hskipped, hclock']
        exact h.origin
      · rw [hframes, hdue']
        exact Nat.le_succ _
      · refine ⟨hserves.drained, hserves.irqs, hserves.status, by omega, ?_, Or.inl hskipped⟩
        rw [hframes, hdue', aiuMinBatch]
        omega

theorem tick_keeps (h : Playing b s) (hrun : s.running = true) (hnext : Next b s) (hexact : Exact s .tick) :
    ∃ s' new, aiuTick b s = some s' ∧ Playing b s' ∧ Ticked s s' new := by
  rcases hexact with ⟨hclock, hproducts⟩
  rcases hproducts hrun with ⟨hdone, htimely⟩
  rcases Nat.lt_or_ge (aiuMaxCatchupNs + s.framesDone * 1000000000 / s.rateHz) (s.clock - s.startNs) with hstall | htime
  · rcases stalled_tick h hrun hclock hdone hstall with ⟨s', htick⟩
    exact ⟨s', [], htick⟩
  · exact timely_tick h hrun hnext hclock hdone htime (htimely htime)

end Tick

/-! ## Runs -/

/-- Before the first start nothing has been played. -/
structure Fresh (s : AiuState) : Prop where
  idle : s.running = false
  cursor : s.curBuf = false ∧ s.pos = 0
  nothing : s.emitted = [] ∧ s.drained = []
  counts : s.irqCount < 2 ^ 64

def Inv (b : Board) (s : AiuState) : Prop := Fresh s ∨ Playing b s

/-- The position is within the buffer, and the frames up to it have been emitted, after those of the buffers drained in turn. -/
structure Sound (b : Board) (s : AiuState) : Prop where
  inside : s.pos ≤ s.bufLen s.curBuf
  emitted : s.emitted = emission b s
  turns : ∀ k buf, s.drained[k]? = some buf → buf.idx = decide (k % 2 = 1)
  turn : s.curBuf = decide (s.drained.length % 2 = 1)

/-- The buffers that a start or a tick may latch are frame-aligned memory. -/
def PlacedAt (b : Board) (s : AiuState) : Event → Prop
  | .wait _ => True
  | .write off data => s.running = false → (latchWrite off data s).running = true → Next b (latchWrite off data s)
  | .tick => s.running = true → Next b s

/-- `P` holds at every event of a run, of the state before it. -/
def Along (b : Board) (P : AiuState → Event → Prop) (s : AiuState) : List Event → Prop
  | [] => True
  | e :: es => P s e ∧ ∀ s', step b s e = some s' → Along b P s' es

/-- A write acknowledges the status of a buffer. -/
def acknowledges (off : Nat) (data : List UInt8) (idx : Bool) : Bool :=
  aiuHandlesWrite off data.length && decide (off = (if idx then aiuRegAck1 else aiuRegAck0) ∧
    u32 (rd data.length (at' data) 0) &&& 1 ≠ 0)

/-- Where the running device does not tick no status is raised, and only what a write acknowledges is cleared. -/
def Unraised (s s' : AiuState) : Event → Prop
  | .wait _ => s'.status = s.status ∧ s'.irqCount = s.irqCount
  | .write off data => (∀ idx, s'.status idx = (s.status idx && !acknowledges off data idx)) ∧ s'.irqCount = s.irqCount
  | .tick => s.running = false → s' = s

/-- The event ends, in a sound state, and the status is raised by a tick of the running device, as it should be, and by nothing
    else. -/
def Right (b : Board) (s : AiuState) (e : Event) : Prop :=
  Sound b s ∧ ∃ s', step b s e = some s' ∧ Sound b s' ∧ (e = .tick → s.running = true → ∃ new, Ticked s s' new) ∧ Unraised s s' e

section Run

variable {b : Board} {s s' : AiuState} {e : Event} {es : List Event}

theorem Inv.sound (h : Inv b s) : Sound b s := by
  rcases h with hfresh | hplaying
  · refine ⟨by rw [hfresh.cursor.2]; exact Nat.zero_le _, ?_, ?_, ?_⟩
    · rw [emission, hfresh.nothing.1, hfresh.nothing.2, hfresh.cursor.2, Nat.zero_div]
      split <;> rfl
    · intro k buf hk
      rw [hfresh.nothing.2] at hk
      cases hk
    · rw [hfresh.nothing.2, hfresh.cursor.1]
      rfl
  · exact ⟨hplaying.cursor.pos, hplaying.cursor.emitted, hplaying.cursor.turns, hplaying.cursor.turn⟩

theorem rate_bounds (s : AiuState) : 8000 ≤ aiuRateHz s ∧ aiuRateHz s ≤ 44100 := by
  unfold aiuRateHz
  simp only
  split <;> split <;> decide

theorem start_keeps (hclock : s.clock < 2 ^ 64) (hcounts : s.irqCount < 2 ^ 64) (hnext : Next b (aiuStart s)) :
    Playing b (aiuStart s) := by
  have hch : (aiuStart s).channels = 1 ∨ (aiuStart s).channels = 2 := by
    show aiuChannels s = 1 ∨ aiuChannels s = 2
    unfold aiuChannels
    split
    · exact Or.inl rfl
    · exact Or.inr rfl
  have hcur : current (aiuStart s) = programmed (aiuStart s) false := rfl
  refine ⟨⟨hch, hcur ▸ hnext false, ?_, Nat.dvd_zero _, Nat.zero_le _, ?_, ?_, rfl, ⟨Nat.two_pow_pos 64, hcounts⟩⟩, ?_,
    rate_bounds s, ⟨?_, ?_⟩, Nat.zero_le _⟩
  · exact reg_bounds (aiuStart s) false
  · rw [emission]
    split
    · show [] = [] ++ ((current (aiuStart s)).frames _).take (0 / _)
      rw [Nat.zero_div]
      rfl
    · rfl
  · intro k buf hk
    cases hk
  · intro hroom
    show 0 + 2 * (aiuStart s).channels ≤ _
    rw [Nat.zero_add]
    exact hroom
  · show u64 s.clock = s.clock + 0
    exact u64_of_lt hclock
  · show u64 s.clock ≤ s.clock
    exact Nat.mod_le _ _

theorem Inv.counts (h : Inv b s) : s.irqCount < 2 ^ 64 := by
  rcases h with hfresh | hplaying
  · exact hfresh.counts
  · exact hplaying.cursor.counts.2

/-- The registers, the codec bit and the status do not matter for it, and a device may stop. -/
theorem Inv.note (h : Inv b s) (latch : Nat → UInt8) (double : Bool) (status : Bool → Bool) (running : Bool)
    (hrun : running = true → s.running = true) :
    Inv b { s with latch := latch, codecDouble := double, status := status, running := running } := by
  rcases h with hfresh | hplaying
  · refine Or.inl ⟨?_, hfresh.cursor, hfresh.nothing, hfresh.counts⟩
    cases running with
    | false => rfl
    | true => exact absurd (hrun rfl) (by rw [hfresh.idle]; exact Bool.false_ne_true)
  · have hc := hplaying.cursor
    exact Or.inr ⟨⟨hc.channels, hc.current, hc.bounds, hc.whole, hc.pos, hc.emitted, hc.turns, hc.turn, hc.counts⟩,
      hplaying.within, hplaying.rate,
      hplaying.origin, hplaying.frames⟩

theorem noteCommand_note (off val : Nat) (s : AiuState) :
    ∃ double status, noteCommand off val s = { s with codecDouble := double, status := status } := by
  unfold noteCommand
  simp only
  split <;> split <;> split <;> exact ⟨_, _, rfl⟩

theorem write_keeps (h : Inv b s) (hclock : s.clock < 2 ^ 64) {off : Nat} {data : List UInt8}
    (hplaced : PlacedAt b s (.write off data)) :
    Inv b (latchWrite off data s) := by
  unfold PlacedAt at hplaced
  unfold latchWrite at hplaced ⊢
  simp only at hplaced ⊢
  obtain ⟨latch, hlatch⟩ : ∃ latch : Nat → UInt8, latch = fun a => if off ≤ a ∧ a < off + data.length then data.getD (a - off) 0
    else s.latch a :=
    ⟨_, rfl⟩
  rw [← hlatch] at hplaced ⊢
  split
  · rename_i hhandles
    rw [if_pos hhandles] at hplaced
    rcases noteCommand_note off (u32 (rd data.length (at' data) 0)) { s with latch := latch } with ⟨double, status, hnote⟩
    unfold aiuNoteWrite at hplaced ⊢
    simp only at hplaced ⊢
    rw [hnote] at hplaced ⊢
    have hkeep := h.note latch double status s.running id
    split
    · rename_i hstart
      rw [if_pos hstart] at hplaced
      have hidle : s.running = false := by simpa using hstart.2
      exact Or.inr (start_keeps hclock hkeep.counts (hplaced hidle rfl))
    · split
      · exact h.note latch double status false (fun hfalse => absurd hfalse Bool.false_ne_true)
      · exact hkeep
  · exact h.note latch s.codecDouble s.status s.running id

theorem wait_keeps (h : Inv b s) (ns : Nat) : Inv b { s with clock := s.clock + ns } := by
  rcases h with hfresh | hplaying
  · exact Or.inl ⟨hfresh.idle, hfresh.cursor, hfresh.nothing, hfresh.counts⟩
  · have hc := hplaying.cursor
    refine Or.inr ⟨⟨hc.channels, hc.current, hc.bounds, hc.whole, hc.pos, hc.emitted, hc.turns, hc.turn, hc.counts⟩,
      hplaying.within, hplaying.rate,
      ⟨hplaying.origin.1, Nat.le_add_right_of_le hplaying.origin.2⟩, hplaying.frames.trans (Nat.succ_le_succ ?_)⟩
    refine Nat.div_le_div_right (Nat.mul_le_mul_right _ ?_)
    simp only [elapsed]
    omega

theorem cleared (t : AiuState) (reg idx : Bool) (p : Prop) [Decidable p] :
    (if p then { t with status := Function.update t.status reg false } else t).status idx =
      (t.status idx && !decide (idx = reg ∧ p)) := by
  by_cases hp : p
  · rw [if_pos hp]
    by_cases hidx : idx = reg
    · rw [hidx, decide_eq_true ⟨rfl, hp⟩, Bool.not_true, Bool.and_false]
      exact Function.update_self reg false t.status
    · rw [decide_eq_false fun h => hidx h.1, Bool.not_false, Bool.and_true]
      exact Function.update_of_ne hidx false t.status
  · rw [if_neg hp, decide_eq_false fun h => hp h.2, Bool.not_false, Bool.and_true]

theorem noteCommand_status (off val : Nat) (s : AiuState) (idx : Bool) : (noteCommand off val s).status idx =
    (s.status idx && !decide (off = (if idx then aiuRegAck1 else aiuRegAck0) ∧ val &&& 1 ≠ 0)) := by
  have hcodec : (if off = aiuRegCodecCmd ∧ val &&& 0xF000 = 0xD000 then { s with codecDouble := decide (val &&& 0x80 ≠ 0) }
    else s).status =
      s.status := by split <;> rfl
  unfold noteCommand
  simp only
  rw [cleared, cleared, hcodec]
  cases idx with
  | false =>
    rw [decide_eq_false fun h : false = true ∧ _ => Bool.false_ne_true h.1, Bool.not_false, Bool.and_true]
    simp
  | true =>
    rw [decide_eq_false fun h : true = false ∧ _ => Bool.false_ne_true h.1.symm, Bool.not_false, Bool.and_true]
    simp

theorem noteCommand_irqs (off val : Nat) (s : AiuState) : (noteCommand off val s).irqCount = s.irqCount := by
  rcases noteCommand_note off val s with ⟨double, status, hnote⟩
  rw [hnote]

/-- A start or a stop leaves the status alone. -/
theorem noteWrite_same (off val : Nat) (s : AiuState) :
    (aiuNoteWrite off val s).status = (noteCommand off val s).status ∧ (aiuNoteWrite off val s).irqCount = s.irqCount := by
  have hirqs := noteCommand_irqs off val s
  unfold aiuNoteWrite
  simp only
  split
  · exact ⟨rfl, hirqs⟩
  · split <;> exact ⟨rfl, hirqs⟩

theorem write_unraised (off : Nat) (data : List UInt8) (s : AiuState) : Unraised s (latchWrite off data s) (.write off data) := by
  unfold Unraised latchWrite acknowledges
  simp only
  split
  · rename_i hhandles
    obtain ⟨hstatus, hirqs⟩ := noteWrite_same off (u32 (rd data.length (at' data) 0))
      { s with latch := fun a => if off ≤ a ∧ a < off + data.length then data.getD (a - off) 0 else s.latch a }
    refine ⟨fun idx => ?_, hirqs⟩
    rw [hstatus, noteCommand_status, hhandles, Bool.true_and]
  · rename_i hhandles
    refine ⟨fun idx => ?_, rfl⟩
    rw [Bool.not_eq_true] at hhandles
    rw [hhandles, Bool.false_and, Bool.not_false, Bool.and_true]

/-- One event, the buffers placed and the products small. -/
theorem step_right (h : Inv b s) (hplaced : PlacedAt b s e) (hexact : Exact s e) :
    Right b s e ∧ ∀ s', step b s e = some s' → Inv b s' := by
  cases e with
  | wait ns =>
    have hkeep := wait_keeps h ns
    exact ⟨⟨h.sound, _, rfl, hkeep.sound, fun htick => (by cases htick), rfl, rfl⟩, fun s' hs' => Option.some.inj hs' ▸ hkeep⟩
  | write off data =>
    have hkeep := write_keeps h hexact hplaced
    exact ⟨⟨h.sound, _, rfl, hkeep.sound, fun htick => (by cases htick), write_unraised off data s⟩,
      fun s' hs' => Option.some.inj hs' ▸ hkeep⟩
  | tick =>
    cases hrun : s.running with
    | false =>
      have hnone : step b s .tick = some s := by
        rw [step, aiuTick]
        simp only
        rw [if_pos (Or.inl (by simp [hrun]))]
      refine ⟨⟨h.sound, s, hnone, h.sound, fun _ htrue => absurd (hrun.symm.trans htrue) Bool.false_ne_true, fun _ => rfl⟩,
        fun s' hs' => ?_⟩
      rw [hnone] at hs'
      exact Option.some.inj hs' ▸ h
    | true =>
      rcases h with hfresh | hplaying
      · exact absurd (hfresh.idle.symm.trans hrun) Bool.false_ne_true
      · rcases tick_keeps hplaying hrun (hplaced hrun) hexact with ⟨s', new, htick, hkeep, hticked⟩
        have hnever : Unraised s s' .tick := fun hfalse => absurd (hfalse.symm.trans hrun) Bool.false_ne_true
        refine ⟨⟨Inv.sound (Or.inr hplaying), s', htick, Inv.sound (Or.inr hkeep), fun _ _ => ⟨new, hticked⟩, hnever⟩,
          fun s'' hs'' => ?_⟩
        rw [show step b s .tick = some s' from htick] at hs''
        exact Or.inr (Option.some.inj hs'' ▸ hkeep)

theorem along_right (h : Inv b s) (hplaced : Along b (PlacedAt b) s es) (hexact : Along b Exact s es) :
    Along b (Right b) s es ∧ ∃ s', run b s es = some s' ∧ Sound b s' := by
  induction es generalizing s with
  | nil => exact ⟨trivial, s, rfl, h.sound⟩
  | cons e es ih =>
    rcases step_right h hplaced.1 hexact.1 with ⟨hright, hkeep⟩
    rcases hright.2 with ⟨s', hstep, -, -⟩
    rcases ih (hkeep s' hstep) (hplaced.2 s' hstep) (hexact.2 s' hstep) with ⟨hrest, s'', hrun, hsound⟩
    refine ⟨⟨hright, fun t ht => ?_⟩, s'', ?_, hsound⟩
    · rw [hstep] at ht
      exact Option.some.inj ht ▸ hrest
    · rw [run, hstep]
      exact hrun

end Run

/-! ## How long playback runs -/

/-- Frames of 22050 Hz, drained every tenth of a second since the start. -/
structure Steady (b : Board) (k : Nat) (s : AiuState) : Prop where
  cursor : Cursor b s
  within : Within s
  next : Next b s
  running : s.running = true
  rate : s.rateHz = 22050
  origin : s.startNs = 0 ∧ s.startedAt = 0 ∧ s.skipped = 0
  clock : s.clock = 100000000 * k
  frames : s.framesDone = 2205 * k

def rounds : Nat → List Event
  | 0 => []
  | n + 1 => .wait 100000000 :: .tick :: rounds n

section Long

variable {b : Board} {s s' : AiuState} {e : Event} {es : List Event} {P : AiuState → Event → Prop} {k n : Nat}

theorem along_cons (h : step b s e = some s') : Along b P s (e :: es) ↔ P s e ∧ Along b P s' es := by
  refine and_congr_right fun _ => ⟨fun hall => hall s' h, fun hrest t ht => ?_⟩
  rw [h] at ht
  exact Option.some.inj ht ▸ hrest

theorem along_append (h : run b s es = some s') (es' : List Event) :
    Along b P s (es ++ es') ↔ Along b P s es ∧ Along b P s' es' := by
  induction es generalizing s with
  | nil =>
    obtain rfl := Option.some.inj h
    exact (iff_of_eq (true_and _)).symm
  | cons e es ih =>
    rcases Option.bind_eq_some_iff.mp h with ⟨t, hstep, hrun⟩
    rw [List.cons_append, along_cons hstep, along_cons hstep, ih hrun, and_assoc]

/-- The state a tenth of a second later. -/
theorem Steady.later (h : Steady b k s) : ∃ t, step b s (.wait 100000000) = some t ∧ Playing b t ∧ Next b t ∧ t.running = true ∧
    t.clock = 100000000 * (k + 1) ∧ t.rateHz = 22050 ∧ t.startNs = 0 ∧ t.startedAt + t.skipped = 0 ∧ t.framesDone = 2205 * k := by
  have hclock := h.clock
  have horigin := h.origin
  have hplaying : Playing b s := by
    refine ⟨h.cursor, h.within, by rw [h.rate]; decide, by omega, ?_⟩
    rw [dueFrames, elapsed, h.rate, h.frames, h.clock]
    omega
  refine ⟨_, rfl, ?_, h.next, h.running, ?_, h.rate, h.origin.1, by simp only; omega, h.frames⟩
  · rcases wait_keeps (Or.inr hplaying) 100000000 with hfresh | hkeep
    · exact absurd (hfresh.idle.symm.trans h.running) Bool.false_ne_true
    · exact hkeep
  · show s.clock + 100000000 = _
    omega

/-- A round drains its 2205 frames, while the product of time and rate fits 64 bits. -/
theorem Steady.round (h : Steady b k s) (hk : k < 8365870) :
    ∃ t s', step b s (.wait 100000000) = some t ∧ step b t .tick = some s' ∧ Steady b (k + 1) s' ∧ PlacedAt b t .tick ∧
      Exact t .tick := by
  rcases h.later with ⟨t, hwait, hplaying, hnext, hrun, hclock, hrate, hstart, horigin, hframes⟩
  have hexact : Exact t .tick := by
    refine ⟨by omega, fun _ => ⟨by omega, fun _ => ?_⟩⟩
    rw [hclock, hstart, hrate]
    omega
  have htick := timely_eq hplaying hrun hexact.1 (hexact.2 hrun).1
    (by rw [hclock, hstart, hframes, hrate, aiuMaxCatchupNs]; omega)
  have hdue : u64 ((t.clock - t.startNs) * t.rateHz) / 1000000000 = 2205 * (k + 1) := by
    rw [hclock, hstart, hrate, u64]
    omega
  rw [hdue, hframes, if_neg (by omega), if_neg (by rw [aiuMinBatch]; omega)] at htick
  rcases serviceLoop_keeps hplaying.cursor hnext hplaying.within (Nat.le_refl (2205 * (k + 1) - 2205 * k))
    with ⟨s', new, hloop, hcursor, hwithin, hserves⟩
  refine ⟨t, s', hwait, htick.trans hloop, ?_, fun _ => hnext, hexact⟩
  have hkept : s'.running = t.running ∧ s'.rateHz = t.rateHz ∧ s'.startNs = t.startNs ∧ s'.startedAt = t.startedAt ∧
    s'.skipped = t.skipped ∧
      s'.clock = t.clock := by
    rw [hserves.rest]
    exact ⟨rfl, rfl, rfl, rfl, rfl, rfl⟩
  rcases hkept with ⟨hrun', hrate', hstart', hstarted', hskipped', hclock'⟩
  refine ⟨hcursor, hwithin, hserves.next hnext, hrun'.trans hrun, hrate'.trans hrate, ⟨hstart'.trans hstart, by omega, by omega⟩,
    hclock'.trans hclock, ?_⟩
  rw [hserves.frames, hframes, u64]
  omega

theorem Steady.rounds_exact (h : Steady b k s) (hk : k + n ≤ 8365870) :
    Along b (PlacedAt b) s (rounds n) ∧ Along b Exact s (rounds n) := by
  induction n generalizing k s with
  | zero => exact ⟨trivial, trivial⟩
  | succ n ih =>
    rcases h.round (by omega) with ⟨t, s', hwait, htick, hkeep, hplaced, hexact⟩
    have hrest := ih hkeep (by omega)
    rw [rounds, along_cons hwait, along_cons hwait, along_cons htick, along_cons htick]
    exact ⟨⟨trivial, hplaced, hrest.1⟩, trivial, hexact, hrest.2⟩

/-- The product wraps after 8365870 rounds, and the next one drains nothing. -/
theorem Steady.sticks (h : Steady b 8365870 s) : Along b (PlacedAt b) s (rounds 1) ∧ ¬ Along b (Right b) s (rounds 1) := by
  rcases h.later with ⟨t, hwait, hplaying, hnext, hrun, hclock, hrate, hstart, horigin, hframes⟩
  have htick : step b t .tick = some t := by
    refine (timely_eq hplaying hrun (by omega) (by omega) (by rw [hclock, hstart, hframes, hrate, aiuMaxCatchupNs])).trans
      (if_pos ?_)
    rw [hclock, hstart, hrate, hframes, u64]
    omega
  rw [show rounds 1 = [.wait 100000000, .tick] from rfl, along_cons hwait, along_cons hwait, along_cons htick, along_cons htick]
  refine ⟨⟨trivial, fun _ => hnext, trivial⟩, fun hright => ?_⟩
  rcases hright.2.1.2 with ⟨t', ht', -, hticked, -⟩
  rw [htick] at ht'
  obtain rfl := Option.some.inj ht'
  rcases hticked rfl hrun with ⟨new, hdone⟩
  have hbatch := hdone.due.2
  rw [dueFrames, elapsed, horigin, hclock, hrate, hframes, aiuMinBatch] at hbatch
  omega

theorem Steady.rounds_stick (h : Steady b k s) (hk : k + n = 8365870) :
    Along b (PlacedAt b) s (rounds (n + 1)) ∧ ¬ Along b (Right b) s (rounds (n + 1)) := by
  induction n generalizing k s with
  | zero =>
    obtain rfl : k = 8365870 := hk
    exact h.sticks
  | succ n ih =>
    rcases h.round (by omega) with ⟨t, s', hwait, htick, hkeep, hplaced, -⟩
    have hrest := ih hkeep (by omega)
    rw [rounds, along_cons hwait, along_cons hwait, along_cons htick, along_cons htick]
    exact ⟨⟨trivial, hplaced, hrest.1⟩, fun hright => hrest.2 hright.2.2⟩

end Long

/-- Two buffers of a page each, the second after the first. -/
def opening : List Event :=
  [.write 0x8B4 [0xFF, 0x0F, 0, 0], .write 0x8B8 [0, 0x10, 0, 0], .write 0x8BC [0xFF, 0x1F, 0, 0], .write 0x898 [1, 0, 0, 0],
    .write 0x8A0 [1, 0, 0, 0]]

def plain : Board := ⟨true, fun _ => true⟩

def opened : AiuState :=
  latchWrite 0x8A0 [1, 0, 0, 0] (latchWrite 0x898 [1, 0, 0, 0]
    (latchWrite 0x8BC [0xFF, 0x1F, 0, 0] (latchWrite 0x8B8 [0, 0x10, 0, 0]
    (latchWrite 0x8B4 [0xFF, 0x0F, 0, 0] (aiuInit fun _ => 0)))))

theorem opened_buffers :
    programmed opened false = ⟨false, 0, 0x1000⟩ ∧ programmed opened true = ⟨true, 0x1000, 0x1000⟩ := ⟨rfl, rfl⟩

theorem opened_next : Next plain opened := by
  intro idx
  cases idx with
  | false => exact ⟨opened_buffers.1 ▸ Nat.dvd_zero _, fun _ _ _ => rfl⟩
  | true => exact ⟨opened_buffers.2 ▸ ⟨1024, rfl⟩, fun _ _ _ => rfl⟩

theorem opened_steady : Steady plain 0 opened := by
  have hplaying : Playing plain opened := start_keeps (Nat.two_pow_pos 64) (Nat.two_pow_pos 64) opened_next
  exact ⟨hplaying.cursor, hplaying.within, opened_next, rfl, rfl, ⟨rfl, rfl, rfl⟩, rfl, rfl⟩

theorem opening_run : run plain (aiuInit fun _ => 0) opening = some opened := rfl

/-- The writes before the last do not start playback. -/
theorem opening_exact :
    Along plain (PlacedAt plain) (aiuInit fun _ => 0) opening ∧ Along plain Exact (aiuInit fun _ => 0) opening := by
  rw [opening, along_cons rfl, along_cons rfl, along_cons rfl, along_cons rfl, along_cons rfl]
  rw [along_cons rfl, along_cons rfl, along_cons rfl, along_cons rfl, along_cons rfl]
  have hsoon : (0 : Nat) < 2 ^ 64 := Nat.two_pow_pos 64
  refine ⟨⟨?_, ?_, ?_, ?_, fun _ _ => opened_next, trivial⟩, hsoon, hsoon, hsoon, hsoon, hsoon, trivial⟩
  all_goals exact fun _ hstart => absurd hstart Bool.false_ne_true

end Be300.Aiu
