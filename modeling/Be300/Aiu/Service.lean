/-
  Be300.Aiu.Service — the loops of `aiu_tick` (`src/hw/aiu.c`): frames are emitted page by page,
  and the two buffers are drained in turn.

  `Cursor` is the loop's invariant: the frames of the drained buffers and of the current one up
  to its position have been emitted, each once and in order. `Serves` is what the loop does.
-/

import Mathlib.Tactic.Ring
import Be300.Aiu.Dma

namespace Be300.Aiu

/-! ## Emitting -/

/-- The addresses of a buffer's complete frames. -/
def Buffer.frames (frameBytes : Nat) (buf : Buffer) : List Nat :=
  (List.range (buf.len / frameBytes)).map fun i => buf.start + i * frameBytes

/-- A buffer of frame-aligned memory. -/
structure Placed (b : Board) (channels : Nat) (buf : Buffer) : Prop where
  aligned : 2 * channels ∣ buf.start
  backed : ∀ a, buf.start ≤ a → a < buf.start + buf.len → b.ram a = true

section Emit

variable {b : Board} {fb fuel pa frames : Nat}

theorem u32_of_lt {n : Nat} (h : n < 2 ^ 32) : u32 n = n := Nat.mod_eq_of_lt h
theorem u64_of_lt {n : Nat} (h : n < 2 ^ 64) : u64 n = n := Nat.mod_eq_of_lt h

theorem sub64_of_le {n m : Nat} (h : m ≤ n) (hn : n < 2 ^ 64) : sub64 n m = n - m := by
  unfold sub64
  omega

theorem sub32_of_le {n m : Nat} (h : m ≤ n) (hn : n < 2 ^ 32) : sub32 n m = n - m := by
  unfold sub32
  omega

/-- The frames of aligned memory are all emitted, page by page. -/
theorem emitLoop_frames (hfb : fb = 2 ∨ fb = 4) (hfuel : frames ≤ fuel) (halign : fb ∣ pa) (hend : pa + frames * fb < 2 ^ 32)
    (hram : ∀ a, pa ≤ a → a < pa + frames * fb → b.ram a = true) :
    emitLoop b fb fuel pa frames = (List.range frames).map fun i => pa + i * fb := by
  induction fuel generalizing pa frames with
  | zero =>
    obtain rfl : frames = 0 := Nat.le_zero.mp hfuel
    rfl
  | succ fuel ih =>
    rw [emitLoop]
    by_cases hzero : frames = 0
    · rw [if_pos hzero, hzero]
      rfl
    · rw [if_neg hzero]
      simp only
      have hpage : fb ∣ 0x1000 - pa % 0x1000 := by rcases hfb with rfl | rfl <;> omega
      have hpos : 0 < fb := by omega
      have hroom : fb ≤ 0x1000 - pa % 0x1000 := Nat.le_of_dvd (by omega) hpage
      -- the chunk: at most a stage, at most what is left of the page
      obtain ⟨n, hn⟩ : ∃ n, n = if 0x1000 - pa % 0x1000 < min frames aiuFrameStage * fb then (0x1000 - pa % 0x1000) / fb
          else min frames aiuFrameStage := ⟨_, rfl⟩
      have hone : 1 ≤ n ∧ n ≤ frames := by
        rw [hn]
        split
        · rename_i hlt
          refine ⟨(Nat.one_le_div_iff hpos).mpr hroom, ?_⟩
          have := Nat.div_lt_of_lt_mul (Nat.mul_comm _ fb ▸ hlt)
          omega
        · simp only [aiuFrameStage]
          omega
      rw [← hn, if_neg (by omega)]
      have hsum : n * fb + (frames - n) * fb = frames * fb := by rw [← Nat.add_mul, Nat.add_sub_cancel' hone.2]
      have hstep : fb ≤ frames * fb := Nat.le_mul_of_pos_left fb (by omega)
      rw [hram pa (Nat.le_refl pa) (by omega), if_neg (by simp), u32_of_lt (by omega)]
      rw [ih (by omega) (Nat.dvd_add halign (Nat.dvd_mul_left fb n)) (by omega) (fun a ha hlt => hram a (by omega) (by omega))]
      have hchunk : (List.range n).map (fun i => u32 (pa + i * fb)) = (List.range n).map fun i => pa + i * fb := by
        refine List.map_congr_left fun i hi => u32_of_lt ?_
        have : i * fb ≤ n * fb := Nat.mul_le_mul_right fb (Nat.le_of_lt (List.mem_range.mp hi))
        omega
      rw [hchunk]
      conv_rhs => rw [← Nat.add_sub_cancel' hone.2, List.range_add, List.map_append, List.map_map]
      congr 1
      refine List.map_congr_left fun i _ => ?_
      simp only [Function.comp]
      ring

end Emit

/-! ## Draining -/

/-- What has been emitted: the drained buffers' frames and those of the current one before the position. -/
def emission (b : Board) (s : AiuState) : List Nat :=
  if b.enableAudio then
    s.drained.flatMap (Buffer.frames (2 * s.channels)) ++ ((current s).frames (2 * s.channels)).take (s.pos / (2 * s.channels))
  else []

/-- The registers describe placed buffers. -/
def Next (b : Board) (s : AiuState) : Prop := ∀ idx, Placed b s.channels (programmed s idx)

/-- The cursor within the loop. -/
structure Cursor (b : Board) (s : AiuState) : Prop where
  channels : s.channels = 1 ∨ s.channels = 2
  current : Placed b s.channels (current s)
  bounds : s.bufStart s.curBuf < 2 ^ 29 ∧ s.bufLen s.curBuf ≤ aiuMaxBufBytes
  whole : 2 * s.channels ∣ s.pos
  pos : s.pos ≤ s.bufLen s.curBuf
  emitted : s.emitted = emission b s
  turns : ∀ k buf, s.drained[k]? = some buf → buf.idx = decide (k % 2 = 1)
  turn : s.curBuf = decide (s.drained.length % 2 = 1)
  counts : s.framesDone < 2 ^ 64 ∧ s.irqCount < 2 ^ 64

/-- A frame is left, if the buffer has one. -/
def Within (s : AiuState) : Prop := 2 * s.channels ≤ s.bufLen s.curBuf → s.pos + 2 * s.channels ≤ s.bufLen s.curBuf

/-- What the loop changes, and the buffers that it drains. -/
structure Serves (due : Nat) (s s' : AiuState) (new : List Buffer) : Prop where
  rest : s' = { s with
    curBuf := s'.curBuf, bufStart := s'.bufStart, bufLen := s'.bufLen, pos := s'.pos, status := s'.status,
    framesDone := s'.framesDone, irqCount := s'.irqCount, emitted := s'.emitted, drained := s'.drained }
  frames : s'.framesDone = u64 (s.framesDone + due)
  drained : s'.drained = s.drained ++ new
  irqs : s'.irqCount = u64 (s.irqCount + new.length)
  status : ∀ idx, s'.status idx = (s.status idx || new.any fun buf => buf.idx == idx)

section Serve

variable {b : Board} {due due' : Nat} {s s' s'' : AiuState} {new new' : List Buffer}

theorem u64_add (n m : Nat) : u64 (u64 n + m) = u64 (n + m) := Nat.mod_add_mod n (2 ^ 64) m

theorem Serves.trans (h : Serves due s s' new) (h' : Serves due' s' s'' new') : Serves (due + due') s s'' (new ++ new') where
  rest := by
    rw [h'.rest]
    conv_lhs => rw [h.rest]
  frames := by rw [h'.frames, h.frames, u64_add, Nat.add_assoc]
  drained := by rw [h'.drained, h.drained, List.append_assoc]
  irqs := by rw [h'.irqs, h.irqs, u64_add, List.length_append, Nat.add_assoc]
  status := fun idx => by rw [h'.status, h.status, List.any_append, Bool.or_assoc]

theorem Serves.refl (h : Cursor b s) : Serves 0 s s [] where
  rest := rfl
  frames := (u64_of_lt h.counts.1).symm
  drained := (List.append_nil _).symm
  irqs := (u64_of_lt h.counts.2).symm
  status := fun _ => (Bool.or_false _).symm

theorem Serves.next (h : Serves due s s' new) (hnext : Next b s) : Next b s' := by
  rw [h.rest]
  exact hnext

theorem reg_bounds (s : AiuState) (idx : Bool) : (programmed s idx).start < 2 ^ 29 ∧ (programmed s idx).len ≤ aiuMaxBufBytes := by
  refine ⟨Nat.lt_of_le_of_lt (Nat.and_le_right) (by decide), ?_⟩
  simp only [programmed]
  split
  · rename_i h
    exact h.2
  · exact Nat.zero_le _

theorem Buffer.frames_take (fb : Nat) (buf : Buffer) {k : Nat} (h : k ≤ buf.len / fb) :
    (buf.frames fb).take k = (List.range k).map fun i => buf.start + i * fb := by
  rw [frames, ← List.map_take, List.take_range, Nat.min_eq_left h]

/-- The frames left, where there are any. -/
theorem framesLeft_eq (h : Cursor b s) (hpos : 0 < framesLeft s) :
    framesLeft s = (s.bufLen s.curBuf - s.pos) / (2 * s.channels) := by
  unfold framesLeft at hpos ⊢
  split at hpos
  · exact absurd hpos (Nat.lt_irrefl 0)
  · rename_i hlen
    rw [if_neg hlen, sub32_of_le h.pos (h.bounds.2.trans_lt (by decide))]

/-- Frames are consumed up to the end of the buffer at most. -/
theorem consume_keeps (h : Cursor b s) {n : Nat} (hn : n ≤ framesLeft s) (hpos : 0 < n) :
    Cursor b (consume b n s) ∧ Serves n s (consume b n s) [] ∧ (consume b n s).pos = s.pos + n * (2 * s.channels) := by
  have hleft := framesLeft_eq h (by omega)
  obtain ⟨fb, hfb⟩ : ∃ fb, fb = 2 * s.channels := ⟨_, rfl⟩
  have hwidth : fb = 2 ∨ fb = 4 := by
    rcases h.channels with hc | hc <;> omega
  rw [hleft, ← hfb] at hn
  have hroom : n * fb ≤ s.bufLen s.curBuf - s.pos := (Nat.mul_le_mul_right fb hn).trans (Nat.div_mul_le_self _ fb)
  have hend : s.pos + n * fb ≤ s.bufLen s.curBuf := by
    have := h.pos
    omega
  have hlen := h.bounds.2
  have hstart := h.bounds.1
  simp only [aiuMaxBufBytes] at hlen
  have hposnew : u32 (s.pos + n * fb) = s.pos + n * fb := u32_of_lt (by omega)
  have hpa : u32 (s.bufStart s.curBuf + s.pos) = s.bufStart s.curBuf + s.pos := u32_of_lt (by omega)
  have hwhole : s.pos / fb * fb = s.pos := Nat.div_mul_cancel (hfb ▸ h.whole)
  have hframes : (s.pos + n * fb) / fb = s.pos / fb + n := Nat.add_mul_div_right _ _ (by omega)
  have hemit : emitLoop b fb n (s.bufStart s.curBuf + s.pos) n = (List.range n).map fun i =>
    s.bufStart s.curBuf + s.pos + i * fb := by
    refine emitLoop_frames hwidth (Nat.le_refl n) (Nat.dvd_add (hfb ▸ h.current.aligned) (hfb ▸ h.whole))
      (by omega) fun a ha hlt => ?_
    exact h.current.backed a (by simp only [current]; omega) (by simp only [current]; omega)
  have hsplit : ((current s).frames fb).take ((s.pos + n * fb) / fb) =
      ((current s).frames fb).take (s.pos / fb) ++ (List.range n).map fun i => s.bufStart s.curBuf + s.pos + i * fb := by
    have hall : s.pos / fb + n ≤ (current s).len / fb := by
      rw [← hframes]
      exact Nat.div_le_div_right hend
    rw [hframes, Buffer.frames_take fb _ hall, Buffer.frames_take fb _ (by omega), List.range_add, List.map_append, List.map_map]
    congr 1
    refine List.map_congr_left fun i _ => ?_
    simp only [Function.comp, current]
    rw [Nat.add_mul, hwhole, Nat.add_assoc]
  have hsame : consume b n s = { s with
      pos := u32 (s.pos + n * (2 * s.channels)), framesDone := u64 (s.framesDone + n),
      emitted := (aiuEmit b (u32 (s.bufStart s.curBuf + s.pos)) n s).emitted } := by
    unfold consume aiuEmit
    split <;> rfl
  rw [hsame]
  have hserves : Serves n s { s with
      pos := u32 (s.pos + n * (2 * s.channels)), framesDone := u64 (s.framesDone + n),
      emitted := (aiuEmit b (u32 (s.bufStart s.curBuf + s.pos)) n s).emitted } [] :=
    ⟨rfl, rfl, (List.append_nil _).symm, (u64_of_lt h.counts.2).symm, fun _ => (Bool.or_false _).symm⟩
  refine ⟨?_, hserves, hfb ▸ hposnew⟩
  refine ⟨h.channels, h.current, h.bounds, ?_, ?_, ?_, h.turns, h.turn, ⟨Nat.mod_lt _ (by decide), h.counts.2⟩⟩
  · show 2 * s.channels ∣ u32 (s.pos + n * (2 * s.channels))
    rw [← hfb, hposnew]
    exact Nat.dvd_add (hfb ▸ h.whole) (Nat.dvd_mul_left fb n)
  · show u32 (s.pos + n * (2 * s.channels)) ≤ s.bufLen s.curBuf
    rw [← hfb, hposnew]
    exact hend
  have hold := h.emitted
  unfold emission at hold
  unfold aiuEmit emission
  by_cases haudio : b.enableAudio = true
  · rw [if_pos haudio] at hold
    rw [if_pos haudio, if_pos haudio]
    show s.emitted ++ emitLoop b (2 * s.channels) n (u32 (s.bufStart s.curBuf + s.pos)) n =
      s.drained.flatMap (Buffer.frames (2 * s.channels)) ++
        ((current s).frames (2 * s.channels)).take (u32 (s.pos + n * (2 * s.channels)) / (2 * s.channels))
    rw [hold, ← hfb, hpa, hemit, hposnew, hsplit, List.append_assoc]
  · rw [if_neg haudio] at hold
    rw [if_neg haudio, if_neg haudio]
    exact hold

theorem consume_buffer (b : Board) (n : Nat) (s : AiuState) :
    (consume b n s).curBuf = s.curBuf ∧ (consume b n s).bufLen = s.bufLen ∧ (consume b n s).channels = s.channels := by
  unfold consume aiuEmit
  split <;> exact ⟨rfl, rfl, rfl⟩

/-- The end of a buffer: what is left of it is no frame. -/
theorem switch_keeps (h : Cursor b s) (hnext : Next b s) (hend : s.bufLen s.curBuf < s.pos + 2 * s.channels) :
    Cursor b (switch s) ∧ Within (switch s) ∧ Serves 0 s (switch s) [current s] := by
  have hcur : current (switch s) = programmed s (!s.curBuf) := by
    simp only [switch, aiuLoadBuffer, current, Function.update_self]
    rfl
  have hall : ((current s).frames (2 * s.channels)).take (s.pos / (2 * s.channels)) = (current s).frames (2 * s.channels) := by
    have hcount : (current s).len / (2 * s.channels) = s.pos / (2 * s.channels) := by
      rcases h.whole with ⟨k, hk⟩
      have hpos := h.pos
      have hc : 0 < 2 * s.channels := by rcases h.channels with hc | hc <;> omega
      rw [hk, Nat.mul_div_cancel_left k hc]
      refine Nat.div_eq_of_lt_le ?_ ?_
      · rw [Nat.mul_comm, ← hk]
        exact hpos
      · rw [Nat.succ_mul, Nat.mul_comm, ← hk]
        exact hend
    rw [List.take_of_length_le]
    rw [Buffer.frames, List.length_map, List.length_range, hcount]
  refine ⟨⟨h.channels, ?_, ?_, Nat.dvd_zero _, Nat.zero_le _, ?_, ?_, ?_, h.counts.1, Nat.mod_lt _ (by decide)⟩, ?_, ?_⟩
  · rw [hcur]
    exact hnext _
  · have hbounds := reg_bounds s (!s.curBuf)
    rw [← hcur] at hbounds
    exact hbounds
  · have hold := h.emitted
    unfold emission at hold ⊢
    by_cases haudio : b.enableAudio = true
    · rw [if_pos haudio] at hold ⊢
      show s.emitted = (s.drained ++ [current s]).flatMap (Buffer.frames (2 * s.channels)) ++ _
      rw [hold, hall, List.flatMap_append, List.flatMap_singleton, show (switch s).pos = 0 from rfl, Nat.zero_div, List.take_zero,
        List.append_nil]
    · rw [if_neg haudio] at hold ⊢
      exact hold
  · intro k buf hk
    have hget : (s.drained ++ [current s])[k]? = some buf := hk
    by_cases hlast : k < s.drained.length
    · rw [List.getElem?_append_left hlast] at hget
      exact h.turns k buf hget
    · rw [List.getElem?_append_right (Nat.not_lt.mp hlast)] at hget
      have hzero := (List.getElem?_eq_some_iff.mp hget).1
      rw [List.length_singleton] at hzero
      obtain rfl : k = s.drained.length := by omega
      rw [Nat.sub_self] at hget
      rw [← Option.some.inj hget]
      exact h.turn
  · show (!s.curBuf) = decide ((s.drained ++ [current s]).length % 2 = 1)
    rw [h.turn, List.length_append, List.length_singleton]
    by_cases hodd : s.drained.length % 2 = 1
    · rw [decide_eq_true hodd, decide_eq_false (by omega)]
      rfl
    · rw [decide_eq_false hodd, decide_eq_true (by omega)]
      rfl
  · intro hroom
    show 0 + 2 * s.channels ≤ _
    rw [Nat.zero_add]
    exact hroom
  · refine ⟨rfl, (u64_of_lt h.counts.1).symm, rfl, rfl, fun idx => ?_⟩
    show Function.update s.status s.curBuf true idx = _
    rw [List.any_cons, List.any_nil, Bool.or_false]
    by_cases hidx : idx = s.curBuf
    · rw [hidx, Function.update_self]
      simp [current]
    · rw [Function.update_of_ne hidx, show ((current s).idx == idx) = false from beq_false_of_ne (Ne.symm hidx), Bool.or_false]

/-- The loop ends, and drains as many frames as are due. -/
theorem serviceLoop_keeps (h : Cursor b s) (hnext : Next b s) (hin : Within s) {fuel : Nat} (hfuel : due ≤ fuel) :
    ∃ s' new, serviceLoop b fuel due s = some s' ∧ Cursor b s' ∧ Within s' ∧ Serves due s s' new := by
  induction fuel generalizing due s with
  | zero =>
    obtain rfl : due = 0 := Nat.le_zero.mp hfuel
    exact ⟨s, [], rfl, h, hin, Serves.refl h⟩
  | succ fuel ih =>
    rw [serviceLoop]
    by_cases hzero : due = 0
    · subst hzero
      exact ⟨s, [], if_pos rfl, h, hin, Serves.refl h⟩
    · rw [if_neg hzero]
      simp only
      have hc : 0 < 2 * s.channels := by rcases h.channels with hc | hc <;> omega
      rcases Nat.eq_zero_or_pos (framesLeft s) with hleft | hleft
      · -- an empty buffer: all that is due is taken as consumed
        have hempty : s.bufLen s.curBuf < s.pos + 2 * s.channels := by
          by_contra hroom
          have hdiv := hleft
          unfold framesLeft at hdiv
          rw [if_neg (by omega), sub32_of_le h.pos (h.bounds.2.trans_lt (by decide)), Nat.div_eq_zero_iff] at hdiv
          omega
        rcases switch_keeps h hnext hempty with ⟨hcursor, hwithin, hserves⟩
        rw [hleft, Nat.min_zero, if_neg (Nat.lt_irrefl 0), if_pos rfl, if_pos rfl, Nat.sub_zero]
        refine ⟨_, [current s], rfl, ?_, hwithin, ?_⟩
        · exact ⟨hcursor.channels, hcursor.current, hcursor.bounds, hcursor.whole, hcursor.pos, hcursor.emitted, hcursor.turns,
            hcursor.turn, Nat.mod_lt _ (by decide), hcursor.counts.2⟩
        · exact ⟨rfl, rfl, hserves.drained, hserves.irqs, hserves.status⟩
      · have hdiv := framesLeft_eq h hleft
        rcases Nat.lt_or_ge due (framesLeft s) with hlt | hge
        · -- the last frames that are due
          rcases consume_keeps h (Nat.le_of_lt hlt) (Nat.pos_of_ne_zero hzero) with ⟨hcursor, hserves, hpos⟩
          have hwithin : Within (consume b due s) := by
            rcases consume_buffer b due s with ⟨hcur, hlen, hch⟩
            intro _
            have hmul : (due + 1) * (2 * s.channels) ≤ s.bufLen s.curBuf - s.pos :=
              (Nat.mul_le_mul_right _ (hdiv ▸ hlt)).trans (Nat.div_mul_le_self _ _)
            rw [Nat.succ_mul] at hmul
            rw [hpos, hlen, hcur, hch]
            omega
          rw [Nat.min_eq_left (Nat.le_of_lt hlt), if_pos (Nat.pos_of_ne_zero hzero), if_neg (Nat.ne_of_lt hlt), Nat.sub_self]
          rcases ih hcursor (hserves.next hnext) hwithin (Nat.zero_le fuel) with ⟨s', new, hrun, hcursor', hwithin', hserves'⟩
          exact ⟨s', new, hrun, hcursor', hwithin', by simpa using hserves.trans hserves'⟩
        · -- the rest of the buffer
          rcases consume_keeps h (Nat.le_refl _) hleft with ⟨hcursor, hserves, hpos⟩
          have hend : (consume b (framesLeft s) s).bufLen (consume b (framesLeft s) s).curBuf <
              (consume b (framesLeft s) s).pos + 2 * (consume b (framesLeft s) s).channels := by
            rcases consume_buffer b (framesLeft s) s with ⟨hcur, hlen, hch⟩
            have hmul := Nat.lt_mul_div_succ (s.bufLen s.curBuf - s.pos) hc
            rw [← hdiv, Nat.mul_succ, Nat.mul_comm] at hmul
            have hle := h.pos
            rw [hpos, hlen, hcur, hch]
            omega
          rcases switch_keeps hcursor (hserves.next hnext) hend with ⟨hcursor', hwithin', hserves'⟩
          rw [Nat.min_eq_right hge, if_pos hleft, if_pos rfl, if_neg (by omega)]
          have hfuel' : due - framesLeft s ≤ fuel := by omega
          rcases ih hcursor' ((hserves.trans hserves').next hnext) hwithin' hfuel'
            with ⟨s'', new, hrun, hcursor'', hwithin'', hserves''⟩
          have hall := (hserves.trans hserves').trans hserves''
          rw [Nat.add_zero, Nat.add_sub_cancel' hge] at hall
          exact ⟨s'', _, hrun, hcursor'', hwithin'', hall⟩

end Serve

end Be300.Aiu
