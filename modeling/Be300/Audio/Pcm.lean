/-
  Be300.Audio.Pcm — the conversion of guest samples to the host's rate (`audio_pcm_convert`
  of `src/audio_pcm.c`).

  A read of the input past its end, a store past the end of `output` and an integer that
  leaves its C type are faults; a `Checked` value is one, or the first fault. `output` is the
  list of the frames stored in it, and `sunk` what the sink was called with.

  Proved (`convert_chunks`): a stream that is fed in any calls is converted without a fault,
  to the frames that lie on the lines between its frames at the positions `k * rate / 44100`,
  each sample truncated; one call for the whole stream gives the same frames and leaves the
  same state.
-/

import Be300.Lib.Ends
import Be300.Lib.Interpolate
import Mathlib.Algebra.Ring.Nat
import Mathlib.Algebra.Ring.Int.Defs

namespace Be300.Audio

open Lib (Ends Gives gives_of_eq ends_ok ends_pure ends_bind ends_ite ends_mono gives_iff linear truncate)

def audioPcmRate : Nat := 44100
def audioPcmChannels : Nat := 2

/-- Left and right. -/
abbrev Frame := Int16 × Int16

structure Resampler where
  rate : UInt32
  channels : UInt8
  primed : Bool
  /-- Next output position, in 1/44100 input frames. -/
  phase : Nat
  previous : Frame
  deriving DecidableEq

def audioPcmReset : Resampler := ⟨0, 0, false, 0, 0, 0⟩

inductive Fault where
  | outside (i : Nat)
  | overflow
  deriving DecidableEq

abbrev Checked := Except Fault

@[irreducible] def int16 (x : Int) : Checked Int16 := if -2 ^ 15 ≤ x ∧ x < 2 ^ 15 then .ok (Int16.ofInt x) else .error .overflow

@[irreducible] def int64 (x : Int) : Checked Int := if -2 ^ 63 ≤ x ∧ x < 2 ^ 63 then .ok x else .error .overflow

@[irreducible] def uint64 (x : Int) : Checked Nat := if 0 ≤ x ∧ x < 2 ^ 64 then .ok x.toNat else .error .overflow

/-! ## The conversion -/

/-- `output` up to `produced`, and the sink. -/
structure Output where
  output : List Frame
  sunk : List (List Frame)

def Output.store (o : Output) (f : Frame) : Checked Output :=
  if o.output.length < 512 then .ok { o with output := o.output ++ [f] }
  else .error (.outside (o.output.length * audioPcmChannels))

def Output.flush (o : Output) : Output :=
  if o.output.length = 512 then { output := [], sunk := o.sunk ++ [o.output] } else o

/-- One channel of a frame between two. -/
def weigh (previous current : Int16) (phase : Nat) : Checked Int16 := do
  let fraction ← int64 phase
  let rest ← int64 (audioPcmRate - fraction)
  let weighted ← int64 ((← int64 (previous.toInt * rest)) + (← int64 (current.toInt * fraction)))
  int16 (weighted.tdiv audioPcmRate)

/-- A source rate, which is not zero. -/
abbrev Rate := { rate : UInt32 // 0 < rate.toNat }

/-- The frames that are due up to the current one. -/
def between (rate : Rate) (previous current : Frame) (phase : Nat) (o : Output) : Checked (Nat × Output) :=
  if phase ≤ audioPcmRate then do
    let o ← o.store (← weigh previous.1 current.1 phase, ← weigh previous.2 current.2 phase)
    if phase + rate.1.toNat < 2 ^ 64 then between rate previous current (phase + rate.1.toNat) o.flush
    else .error .overflow
  else .ok (phase, o)
termination_by audioPcmRate + 1 - phase
decreasing_by
  have := rate.2
  omega

/-- A frame of the input. -/
def step (rate : Rate) (s : Resampler) (o : Output) (current : Frame) : Checked (Resampler × Output) := do
  let (s, o) ←
    if !s.primed then do
      let o ← o.store current
      pure ({ s with phase := rate.1.toNat, primed := true }, o)
    else do
      let (phase, o) ← between rate s.previous current s.phase o
      let phase ← uint64 (phase - audioPcmRate)
      pure ({ s with phase }, o)
  return ({ s with previous := current }, o.flush)

def sample (input : List Int16) (i : Nat) : Checked Int16 := if _h : i < input.length then .ok input[i] else .error (.outside i)

def current (input : List Int16) (channels i : Nat) : Checked Frame := do
  return (← sample input (i * channels), ← sample input (i * channels + channels - 1))

def frameLoop (rate : Rate) (input : List Int16) (channels : Nat) : List Nat → Resampler → Output → Checked (Resampler × Output)
  | [], s, o => .ok (s, o)
  | i :: rest, s, o => do
    let (s, o) ← step rate s o (← current input channels i)
    frameLoop rate input channels rest s o

def sourceRate (rate : UInt32) : Rate := if h : 0 < rate.toNat then ⟨rate, h⟩ else ⟨44100, by decide⟩

def sourceChannels (channels : UInt8) : UInt8 := if channels = 0 then 1 else channels

/-- With what the sink is called. -/
def audioPcmConvert (s : Resampler) (input : List Int16) (frames : Nat) (rate : UInt32) (channels : UInt8) :
    Checked (Resampler × List (List Frame)) :=
  if frames = 0 then .ok (s, [])
  else
    let rate := sourceRate rate
    let channels := sourceChannels channels
    if channels.toNat > audioPcmChannels then .ok (s, [])
    else do
      let s := if s.rate ≠ rate.1 ∨ s.channels ≠ channels then { audioPcmReset with rate := rate.1, channels } else s
      let (s, o) ← frameLoop rate input channels.toNat (List.range frames) s ⟨[], []⟩
      return (s, if o.output ≠ [] then o.sunk ++ [o.output] else o.sunk)

/-! ## One frame between two -/

theorem int64_ok {x : Int} (h : -2 ^ 63 ≤ x ∧ x < 2 ^ 63) : int64 x = .ok x := by
  unfold int64
  exact if_pos h

theorem uint64_ok {x : Int} (h : 0 ≤ x ∧ x < 2 ^ 64) : uint64 x = .ok x.toNat := by
  unfold uint64
  exact if_pos h

/-- A mean of two samples is as small as they are. -/
theorem mean_bounds {a b p : Int} (ha : -32768 ≤ a ∧ a ≤ 32767) (hb : -32768 ≤ b ∧ b ≤ 32767) (hp : 0 ≤ p ∧ p ≤ 44100) :
    -32768 * 44100 ≤ a * (44100 - p) + b * p ∧ a * (44100 - p) + b * p ≤ 32767 * 44100 := by
  constructor
  · have h1 : -32768 * (44100 - p) ≤ a * (44100 - p) := Int.mul_le_mul_of_nonneg_right ha.1 (by omega)
    have h2 : -32768 * p ≤ b * p := Int.mul_le_mul_of_nonneg_right hb.1 hp.1
    omega
  · have h1 : a * (44100 - p) ≤ 32767 * (44100 - p) := Int.mul_le_mul_of_nonneg_right ha.2 (by omega)
    have h2 : b * p ≤ 32767 * p := Int.mul_le_mul_of_nonneg_right hb.2 hp.1
    omega

theorem tdiv_bounds {w : Int} (h : -32768 * 44100 ≤ w ∧ w ≤ 32767 * 44100) : -2 ^ 15 ≤ w.tdiv 44100 ∧ w.tdiv 44100 < 2 ^ 15 := by
  rw [Int.tdiv_eq_ediv, show Int.sign 44100 = 1 from rfl]
  split <;> omega

theorem sample_bounds (a : Int16) : -32768 ≤ a.toInt ∧ a.toInt ≤ 32767 := by
  have h1 := a.le_toInt
  have h2 := a.toInt_lt
  omega

theorem weigh_gives (previous current : Int16) {phase : Nat} (h : phase ≤ audioPcmRate) :
    Gives (fun v => v.toInt = (previous.toInt * (44100 - phase) + current.toInt * phase).tdiv 44100)
      (weigh previous current phase) := by
  have hphase : phase ≤ 44100 := h
  have ha := sample_bounds previous
  have hb := sample_bounds current
  have hp : (0 : Int) ≤ phase ∧ (phase : Int) ≤ 44100 := by omega
  have hleft := mean_bounds (p := phase) ha (b := 0) (by omega) hp
  have hright := mean_bounds (p := phase) (a := 0) (by omega) hb hp
  have hsum := mean_bounds ha hb hp
  have hin := tdiv_bounds hsum
  rw [zero_mul, add_zero] at hleft
  rw [zero_mul, zero_add] at hright
  have hfraction : int64 (phase : Int) = .ok (phase : Int) := int64_ok (by omega)
  have hrest : int64 ((audioPcmRate : Int) - phase) = .ok (44100 - phase : Int) := int64_ok (by unfold audioPcmRate; omega)
  have hprevious : int64 (previous.toInt * (44100 - phase)) = .ok (previous.toInt * (44100 - phase)) := int64_ok (by omega)
  have hcurrent : int64 (current.toInt * phase) = .ok (current.toInt * phase) := int64_ok (by omega)
  have hweighted : int64 (previous.toInt * (44100 - phase) + current.toInt * phase) =
      .ok (previous.toInt * (44100 - phase) + current.toInt * phase) := int64_ok (by omega)
  unfold weigh
  apply ends_bind (gives_of_eq hfraction)
  rintro _ rfl
  apply ends_bind (gives_of_eq hrest)
  rintro _ rfl
  apply ends_bind (gives_of_eq hprevious)
  rintro _ rfl
  apply ends_bind (gives_of_eq hcurrent)
  rintro _ rfl
  apply ends_bind (gives_of_eq hweighted)
  rintro _ rfl
  unfold int16
  rw [show ((audioPcmRate : Nat) : Int) = 44100 from rfl, if_pos hin]
  exact ends_ok (Int16.toInt_ofInt_of_le hin.1 hin.2)

/-! ## The frames of a stream -/

def ints (f : Frame) : Int × Int := (f.1.toInt, f.2.toInt)

/-- How many output frames are due after `n` frames of a stream. -/
def due (rate : Rate) (n : Nat) : Nat := if n = 0 then 0 else (n - 1) * audioPcmRate / rate.1.toNat + 1

/-- Output frame `k` of a stream. -/
def interpolated (rate : Rate) (stream : List Frame) (k : Nat) : Int × Int :=
  let channel (f : Frame → Int16) :=
    truncate (linear (fun j => ((f (stream.getD j 0)).toInt : ℚ)) ((k * rate.1.toNat : Nat) / audioPcmRate))
  (channel Prod.fst, channel Prod.snd)

def converted (rate : Rate) (stream : List Frame) : List (Int × Int) :=
  (List.range (due rate stream.length)).map (interpolated rate stream)

section Streams

variable {rate : Rate} {stream : List Frame} {s : Resampler} {o : Output}

theorem due_succ_succ (q : Nat) : due rate (q + 2) = (q + 1) * audioPcmRate / rate.1.toNat + 1 := rfl

/-- A frame that lies between the frames `q` and `q + 1`, or on one of them. -/
theorem interpolated_between {q phase k : Nat} (hk : phase + q * audioPcmRate = k * rate.1.toNat)
    (hphase : phase ≤ audioPcmRate) :
    interpolated rate stream k =
      (((stream.getD q 0).1.toInt * (44100 - phase) + (stream.getD (q + 1) 0).1.toInt * phase).tdiv 44100,
        ((stream.getD q 0).2.toInt * (44100 - phase) + (stream.getD (q + 1) 0).2.toInt * phase).tdiv 44100) := by
  have hchannel : ∀ f : Frame → Int16,
      truncate (linear (fun j => ((f (stream.getD j 0)).toInt : ℚ)) ((k * rate.1.toNat : Nat) / audioPcmRate)) =
        ((f (stream.getD q 0)).toInt * (44100 - phase) + (f (stream.getD (q + 1) 0)).toInt * phase).tdiv 44100 := by
    intro f
    rw [← hk, Nat.add_comm, Lib.linear_between _ q phase audioPcmRate (by decide) hphase]
    have hdiv := Lib.truncate_div (K := ℚ)
      ((f (stream.getD q 0)).toInt * (44100 - phase) + (f (stream.getD (q + 1) 0)).toInt * phase) audioPcmRate
    rw [show ((44100 : Int)) = ((audioPcmRate : Nat) : Int) from rfl] at *
    rw [← hdiv]
    push_cast
    rfl
  exact Prod.ext (hchannel Prod.fst) (hchannel Prod.snd)

theorem due_le {n k : Nat} (hk : k < due rate n) : k * rate.1.toNat ≤ (n - 1) * audioPcmRate := by
  unfold due at hk
  split at hk
  · exact absurd hk (Nat.not_lt_zero k)
  · exact (Nat.le_div_iff_mul_le rate.2).mp (Nat.lt_succ_iff.mp hk)

/-- The frames of a shorter stream are those of the longer one. -/
theorem interpolated_append {k : Nat} (more : List Frame) (hk : k < due rate stream.length) :
    interpolated rate (stream ++ more) k = interpolated rate stream k := by
  have hle := due_le hk
  have hsome : stream.length ≠ 0 := by
    intro h
    rw [h] at hk
    exact absurd hk (Nat.not_lt_zero k)
  have hmod := Nat.mod_lt (k * rate.1.toNat) (show audioPcmRate > 0 by decide)
  have hdiv : k * rate.1.toNat % audioPcmRate + k * rate.1.toNat / audioPcmRate * audioPcmRate = k * rate.1.toNat :=
    Nat.mod_add_div' ..
  generalize k * rate.1.toNat / audioPcmRate = q at hdiv
  have hphase : k * rate.1.toNat % audioPcmRate ≤ audioPcmRate := hmod.le
  rw [interpolated_between hdiv hphase, interpolated_between hdiv hphase]
  have hq : q < stream.length := by
    have := Nat.le_of_mul_le_mul_right (show q * audioPcmRate ≤ (stream.length - 1) * audioPcmRate by omega) (by decide)
    omega
  have hfirst : (stream ++ more).getD q 0 = stream.getD q 0 := by
    rw [List.getD_eq_getElem?_getD, List.getElem?_append_left hq, ← List.getD_eq_getElem?_getD]
  rw [hfirst]
  rcases Nat.eq_zero_or_pos (k * rate.1.toNat % audioPcmRate) with hzero | hpos
  · rw [hzero]
    simp
  · have hnext : q + 1 < stream.length := by
      have := Nat.lt_of_mul_lt_mul_right (show q * audioPcmRate < (stream.length - 1) * audioPcmRate by omega)
      omega
    rw [show (stream ++ more).getD (q + 1) 0 = stream.getD (q + 1) 0 by
      rw [List.getD_eq_getElem?_getD, List.getElem?_append_left hnext, ← List.getD_eq_getElem?_getD]]

theorem converted_append (more : List Frame) :
    (List.range (due rate stream.length)).map (interpolated rate (stream ++ more)) = converted rate stream :=
  List.map_congr_left fun _ hk => interpolated_append more (List.mem_range.mp hk)

/-! ## A frame more -/

/-- What was stored, in the sink or still in `output`. -/
def Output.frames (o : Output) : List Frame := o.sunk.flatten ++ o.output

theorem flush_frames : o.flush.frames = o.frames := by
  unfold Output.flush Output.frames
  split
  · simp
  · rfl

theorem flush_room (h : o.output.length ≤ 512) : o.flush.output.length < 512 := by
  unfold Output.flush
  split
  · exact Nat.succ_pos 511
  · omega

theorem store_gives (f : Frame) (h : o.output.length < 512) :
    Gives (fun p => p.frames = o.frames ++ [f] ∧ p.output.length ≤ 512) (o.store f) := by
  unfold Output.store
  rw [if_pos h]
  apply ends_ok
  simp only [Output.frames, List.length_append, List.length_singleton, List.append_assoc]
  exact ⟨trivial, h⟩

/-- After the frames `k` on are stored that are due up to the frame `q + 1`. -/
theorem between_gives {q : Nat} (P : List (Int × Int)) {k phase : Nat} (hk : phase + q * audioPcmRate = k * rate.1.toNat)
    (hpos : 0 < k) (hphase : phase ≤ audioPcmRate + rate.1.toNat) (hroom : o.output.length < 512)
    (ho : P ++ o.frames.map ints = (List.range k).map (interpolated rate stream)) :
    Gives (fun r => r.1 + q * audioPcmRate = due rate (q + 2) * rate.1.toNat ∧ audioPcmRate < r.1 ∧ r.1 < 2 ^ 64 ∧
        r.2.output.length < 512 ∧ P ++ r.2.frames.map ints = (List.range (due rate (q + 2))).map (interpolated rate stream))
      (between rate (stream.getD q 0) (stream.getD (q + 1) 0) phase o) := by
  have hrate := rate.1.toNat_lt
  have hrate0 := rate.2
  generalize hm : audioPcmRate + 1 - phase = m
  induction m using Nat.strongRecOn generalizing phase k o with
  | ind m ih =>
    unfold between
    apply ends_ite
    · intro hle
      apply ends_bind (weigh_gives _ _ hle)
      intro left hleft
      apply ends_bind (weigh_gives _ _ hle)
      intro right hright
      apply ends_bind (store_gives (left, right) hroom)
      rintro p ⟨hp, hlength⟩
      have h44 : phase ≤ 44100 := hle
      rw [if_pos (by omega)]
      apply ih (audioPcmRate + 1 - (phase + rate.1.toNat)) (by omega) (k := k + 1) (by rw [Nat.succ_mul]; omega)
        (by omega) (by omega) (flush_room hlength) _ rfl
      rw [flush_frames, hp, List.map_append, ← List.append_assoc, ho, List.range_succ, List.map_append,
        List.map_singleton, List.map_singleton, interpolated_between hk hle]
      congr 2
      exact Prod.ext hleft hright
    · intro hgt
      have hk' : k = due rate (q + 2) := by
        obtain ⟨j, rfl⟩ : ∃ j, k = j + 1 := ⟨k - 1, by omega⟩
        rw [Nat.succ_mul] at hk
        rw [due_succ_succ, Nat.succ_inj]
        apply Eq.symm
        apply Nat.div_eq_of_lt_le
        · rw [Nat.succ_mul]
          omega
        · rw [Nat.succ_mul, Nat.succ_mul]
          omega
      apply ends_ok
      rw [← hk']
      exact ⟨hk, by omega, by unfold audioPcmRate at hphase; omega, hroom, ho⟩

/-- The state between two calls. -/
structure At (rate : Rate) (channels : UInt8) (stream : List Frame) (s : Resampler) : Prop where
  sameRate : s.rate = rate.1
  sameChannels : s.channels = channels
  primed : s.primed = !stream.isEmpty
  previous : stream ≠ [] → s.previous = stream.getD (stream.length - 1) 0
  phase : stream ≠ [] → s.phase + (stream.length - 1) * audioPcmRate = due rate stream.length * rate.1.toNat

theorem At.unique {channels : UInt8} {t : Resampler} (hs : At rate channels stream s) (ht : At rate channels stream t)
    (hne : stream ≠ []) : s = t := by
  have hphase := (hs.phase hne).trans (ht.phase hne).symm
  obtain ⟨h1, h2, h3, h4, -⟩ := hs
  obtain ⟨k1, k2, k3, k4, -⟩ := ht
  cases s
  cases t
  simp only [Resampler.mk.injEq]
  exact ⟨h1.trans k1.symm, h2.trans k2.symm, h3.trans k3.symm, Nat.add_right_cancel hphase, (h4 hne).trans (k4 hne).symm⟩

theorem converted_singleton (x : Frame) : converted rate [x] = converted rate [] ++ [ints x] := by
  have hzero := @interpolated_between rate [x] 0 0 0 (by simp) (Nat.zero_le _)
  have hone : due rate 1 = 1 := by simp [due]
  unfold converted
  rw [List.length_singleton, hone, show List.range 1 = [0] from rfl, List.map_singleton, hzero]
  simp [due, ints]

theorem getD_last (l : List Frame) (x : Frame) : (l ++ [x]).getD ((l ++ [x]).length - 1) 0 = x := by
  rw [List.length_append, List.length_singleton, Nat.add_sub_cancel, List.getD_eq_getElem?_getD,
    List.getElem?_append_right (Nat.le_refl _), Nat.sub_self]
  rfl

theorem step_gives {channels : UInt8} (P : List (Int × Int)) (x : Frame) (hs : At rate channels stream s)
    (hroom : o.output.length < 512) (ho : P ++ o.frames.map ints = converted rate stream) :
    Gives (fun r => At rate channels (stream ++ [x]) r.1 ∧ r.2.output.length < 512 ∧
      P ++ r.2.frames.map ints = converted rate (stream ++ [x])) (step rate s o x) := by
  unfold step
  rcases stream.eq_nil_or_concat with rfl | ⟨before, last, hstream⟩
  · have hprimed : s.primed = false := hs.primed
    rw [hprimed]
    apply ends_ite
    case hy =>
      intro h
      exact absurd rfl h
    intro _
    apply ends_bind (store_gives x hroom)
    rintro p ⟨hp, hlength⟩
    apply ends_pure
    refine ⟨⟨hs.sameRate, hs.sameChannels, rfl, fun _ => rfl, fun _ => ?_⟩, flush_room hlength, ?_⟩
    · simp [due]
    · rw [flush_frames, hp, List.map_append, ← List.append_assoc, ho]
      exact (converted_singleton x).symm
  · have hne : stream ≠ [] := by
      rw [hstream, List.concat_eq_append]
      exact List.append_ne_nil_of_right_ne_nil _ (List.cons_ne_nil _ _)
    have hprimed : s.primed = true := by
      rw [hs.primed]
      simpa using hne
    obtain ⟨q, hq⟩ : ∃ q, stream.length = q + 1 := ⟨stream.length - 1, by have := List.length_pos_of_ne_nil hne; omega⟩
    have hphase := hs.phase hne
    have hprevious := hs.previous hne
    rw [hq, Nat.add_sub_cancel] at hphase hprevious
    rw [hprimed]
    apply ends_ite
    · intro h
      exact absurd h (by decide)
    intro _
    have hfirst : (stream ++ [x]).getD q 0 = s.previous := by
      rw [hprevious, List.getD_eq_getElem?_getD, List.getElem?_append_left (by omega), ← List.getD_eq_getElem?_getD]
    have hlast : (stream ++ [x]).getD (q + 1) 0 = x := by
      have := getD_last stream x
      rwa [List.length_append, List.length_singleton, hq, Nat.add_sub_cancel] at this
    have hdue : (q * audioPcmRate / rate.1.toNat + 1) * rate.1.toNat = due rate (q + 1) * rate.1.toNat := rfl
    have hmul := Nat.div_mul_le_self (q * audioPcmRate) rate.1.toNat
    rw [Nat.succ_mul] at hdue
    have hbetween := @between_gives rate (stream ++ [x]) _ q P _ _ hphase (Nat.succ_pos _) (by omega) hroom (by
      rw [ho, ← hq]
      exact (converted_append [x]).symm)
    rw [hfirst, hlast] at hbetween
    apply ends_bind hbetween
    rintro ⟨phase, p⟩ ⟨hafter, hgt, hlt, hlength, hp⟩
    apply ends_bind (gives_of_eq (uint64_ok (x := (phase : Int) - audioPcmRate) (by omega)))
    rintro _ rfl
    apply ends_pure
    have hmore : (stream ++ [x]).length = q + 2 := by rw [List.length_append, List.length_singleton, hq]
    refine ⟨⟨hs.sameRate, hs.sameChannels, by simp, fun _ => ?_, fun _ => ?_⟩, flush_room (Nat.le_of_lt hlength), ?_⟩
    · exact (getD_last stream x).symm
    · rw [hmore, ← hafter, show q + 2 - 1 = q + 1 from rfl, Nat.succ_mul]
      dsimp only at hgt ⊢
      omega
    · rw [flush_frames, hp]
      unfold converted
      rw [hmore]

/-! ## Calls -/

/-- Frame `i` of an input. -/
def frameAt (input : List Int16) (channels i : Nat) : Frame :=
  (input.getD (i * channels) 0, input.getD (i * channels + channels - 1) 0)

def framesOf (input : List Int16) (channels frames : Nat) : List Frame := (List.range frames).map (frameAt input channels)

theorem sample_eq {input : List Int16} {i : Nat} (h : i < input.length) : sample input i = .ok (input.getD i 0) := by
  unfold sample
  rw [dif_pos h]
  simp [h]

theorem current_eq {input : List Int16} {channels i : Nat} (hchannels : 0 < channels) (h : (i + 1) * channels ≤ input.length) :
    current input channels i = .ok (frameAt input channels i) := by
  rw [Nat.succ_mul] at h
  unfold current
  rw [sample_eq (by omega), sample_eq (by omega)]
  rfl

theorem frameLoop_gives {channels : UInt8} (P : List (Int × Int)) {input : List Int16} (hchannels : 0 < channels.toNat)
    (is : List Nat)
    (his : ∀ i ∈ is, (i + 1) * channels.toNat ≤ input.length) (hs : At rate channels stream s) (hroom : o.output.length < 512)
    (ho : P ++ o.frames.map ints = converted rate stream) :
    Gives (fun r => At rate channels (stream ++ is.map (frameAt input channels.toNat)) r.1 ∧
      P ++ r.2.frames.map ints = converted rate (stream ++ is.map (frameAt input channels.toNat)))
      (frameLoop rate input channels.toNat is s o) := by
  induction is generalizing stream s o with
  | nil =>
    apply ends_ok
    rw [List.map_nil, List.append_nil]
    exact ⟨hs, ho⟩
  | cons i rest ih =>
    unfold frameLoop
    apply ends_bind (gives_of_eq (current_eq hchannels (his i (List.mem_cons_self ..))))
    rintro _ rfl
    apply ends_bind (step_gives P _ hs hroom ho)
    rintro ⟨t, p⟩ ⟨ht, hlength, hp⟩
    have hrest := ih (fun j hj => his j (List.mem_cons_of_mem _ hj)) ht hlength hp
    rwa [List.append_assoc] at hrest

end Streams

/-- The samples and the frames a call is given. -/
structure Call where
  input : List Int16
  frames : Nat

/-- The input has that many frames. -/
def Call.Whole (channels : UInt8) (c : Call) : Prop := c.frames * channels.toNat ≤ c.input.length

/-- The calls one after the other, and what the sink gets. -/
def feed (rate : UInt32) (channels : UInt8) : Resampler → List Call → Checked (Resampler × List Frame)
  | s, [] => .ok (s, [])
  | s, c :: calls => do
    let (s, sunk) ← audioPcmConvert s c.input c.frames rate channels
    let (s, more) ← feed rate channels s calls
    return (s, sunk.flatten ++ more)

/-- The samples of the calls in one. -/
def joined (channels : UInt8) (calls : List Call) : Call :=
  ⟨calls.flatMap fun c => c.input.take (c.frames * channels.toNat), (calls.map Call.frames).sum⟩

/-- The next call with frames begins a stream. -/
def Starts (rate : UInt32) (channels : UInt8) (s : Resampler) : Prop :=
  s.primed = false ∨ s.rate ≠ rate ∨ s.channels ≠ channels

/-- The state after some frames of a stream that began in `start`. -/
def After (rate : Rate) (channels : UInt8) (start : Resampler) (stream : List Frame) (s : Resampler) : Prop :=
  if stream = [] then s = start else At rate channels stream s

section Calls

variable {rate : UInt32} {channels : UInt8} {s start : Resampler} {stream : List Frame}

theorem sourceChannels_pos (channels : UInt8) : 0 < (sourceChannels channels).toNat := by
  unfold sourceChannels
  split
  · decide
  · rename_i h
    exact Nat.pos_of_ne_zero fun h0 => h (UInt8.toNat_inj.mp h0)

/-- The state a call goes on from. -/
theorem begins {format : Rate} {ch : UInt8} (hstart : Starts format.1 ch start) (hs : After format ch start stream s) :
    At format ch stream (if s.rate ≠ format.1 ∨ s.channels ≠ ch then { audioPcmReset with rate := format.1, channels := ch }
      else s) := by
  unfold After at hs
  by_cases hnil : stream = []
  · rw [if_pos hnil] at hs
    subst hnil hs
    by_cases hother : s.rate ≠ format.1 ∨ s.channels ≠ ch
    · rw [if_pos hother]
      exact ⟨rfl, rfl, rfl, fun h => absurd rfl h, fun h => absurd rfl h⟩
    · rw [if_neg hother]
      rw [not_or, Decidable.not_not, Decidable.not_not] at hother
      have hprimed : s.primed = false := by
        rcases hstart with h | h | h
        · exact h
        · exact absurd hother.1 h
        · exact absurd hother.2 h
      exact ⟨hother.1, hother.2, hprimed, fun h => absurd rfl h, fun h => absurd rfl h⟩
  · rw [if_neg hnil] at hs
    rw [if_neg (by rw [not_or, Decidable.not_not, Decidable.not_not]; exact ⟨hs.sameRate, hs.sameChannels⟩)]
    exact hs

theorem convert_gives (P : List (Int × Int)) (c : Call) (hchannels : (sourceChannels channels).toNat ≤ 2)
    (hc : c.Whole (sourceChannels channels)) (hstart : Starts (sourceRate rate).1 (sourceChannels channels) start)
    (hs : After (sourceRate rate) (sourceChannels channels) start stream s) (hP : P = converted (sourceRate rate) stream) :
    Gives (fun r => After (sourceRate rate) (sourceChannels channels) start
        (stream ++ framesOf c.input (sourceChannels channels).toNat c.frames) r.1 ∧
      P ++ r.2.flatten.map ints = converted (sourceRate rate)
        (stream ++ framesOf c.input (sourceChannels channels).toNat c.frames))
      (audioPcmConvert s c.input c.frames rate channels) := by
  unfold audioPcmConvert
  apply ends_ite
  · intro hnone
    apply ends_ok
    rw [hnone, framesOf, List.range_zero, List.map_nil, List.append_nil, List.flatten_nil, List.map_nil, List.append_nil]
    exact ⟨hs, hP⟩
  intro hsome
  simp only
  rw [if_neg (show ¬ (sourceChannels channels).toNat > audioPcmChannels from Nat.not_lt.mpr hchannels)]
  have hindices : ∀ i ∈ List.range c.frames, (i + 1) * (sourceChannels channels).toNat ≤ c.input.length := by
    intro i hi
    exact Nat.le_trans (Nat.mul_le_mul_right _ (List.mem_range.mp hi)) hc
  have hempty : P ++ (⟨[], []⟩ : Output).frames.map ints = converted (sourceRate rate) stream := by
    rw [hP]
    exact List.append_nil _
  have hroom : (⟨[], []⟩ : Output).output.length < 512 := Nat.succ_pos 511
  apply ends_bind (frameLoop_gives P (sourceChannels_pos channels) (List.range c.frames) hindices (begins hstart hs) hroom hempty)
  rintro ⟨u, p⟩ ⟨hu, hp⟩
  apply ends_pure
  constructor
  · unfold After
    rw [if_neg]
    · exact hu
    · intro hnil
      have hlength := congrArg List.length hnil
      rw [List.length_append, framesOf, List.length_map, List.length_range] at hlength
      exact hsome (Nat.eq_zero_of_add_eq_zero_left hlength)
  · have hall : (if p.output ≠ [] then p.sunk ++ [p.output] else p.sunk).flatten = p.frames := by
      unfold Output.frames
      split
      · simp
      · rename_i h
        rw [Decidable.not_not.mp h, List.append_nil]
    rw [hall]
    exact hp

/-- The frames of all calls. -/
def streamOf (channels : Nat) (calls : List Call) : List Frame := calls.flatMap fun c => framesOf c.input channels c.frames

theorem feed_gives (P : List (Int × Int)) (calls : List Call) (hchannels : (sourceChannels channels).toNat ≤ 2)
    (hcalls : ∀ c ∈ calls, c.Whole (sourceChannels channels))
      (hstart : Starts (sourceRate rate).1 (sourceChannels channels) start)
    (hs : After (sourceRate rate) (sourceChannels channels) start stream s) (hP : P = converted (sourceRate rate) stream) :
    Gives (fun r => After (sourceRate rate) (sourceChannels channels) start
        (stream ++ streamOf (sourceChannels channels).toNat calls) r.1 ∧
      P ++ r.2.map ints = converted (sourceRate rate) (stream ++ streamOf (sourceChannels channels).toNat calls))
      (feed rate channels s calls) := by
  induction calls generalizing stream s P with
  | nil =>
    apply ends_ok
    rw [streamOf, List.flatMap_nil, List.append_nil, List.map_nil, List.append_nil]
    exact ⟨hs, hP⟩
  | cons c calls ih =>
    unfold feed
    apply ends_bind (convert_gives P c hchannels (hcalls c (List.mem_cons_self ..)) hstart hs hP)
    rintro ⟨t, sunk⟩ ⟨ht, hsunk⟩
    apply ends_bind (ih _ (fun d hd => hcalls d (List.mem_cons_of_mem _ hd)) ht hsunk)
    rintro ⟨u, more⟩ ⟨hu, hmore⟩
    apply ends_pure
    rw [List.append_assoc] at hu
    refine ⟨hu, ?_⟩
    rw [List.map_append, ← List.append_assoc]
    refine hmore.trans ?_
    rw [List.append_assoc]
    rfl

theorem frameAt_congr {a b : List Int16} {ch i : Nat} (hch : 0 < ch) (h : ∀ j < (i + 1) * ch, a.getD j 0 = b.getD j 0) :
    frameAt a ch i = frameAt b ch i := by
  rw [Nat.succ_mul] at h
  exact Prod.ext (h _ (by omega)) (h _ (by omega))

/-- Frames of whole samples and of more after them. -/
theorem framesOf_append {ch n : Nat} (hch : 0 < ch) (a b : List Int16) (ha : n * ch ≤ a.length) (m : Nat) :
    framesOf (a.take (n * ch) ++ b) ch (n + m) = framesOf a ch n ++ framesOf b ch m := by
  have hlength : (a.take (n * ch)).length = n * ch := by rw [List.length_take, Nat.min_eq_left ha]
  unfold framesOf
  rw [List.range_add, List.map_append, List.map_map]
  congr 1
  · apply List.map_congr_left
    intro i hi
    apply frameAt_congr hch
    intro j hj
    have hin : j < n * ch := Nat.lt_of_lt_of_le hj (Nat.mul_le_mul_right _ (List.mem_range.mp hi))
    rw [List.getD_eq_getElem?_getD, List.getElem?_append_left (by omega), List.getElem?_take_of_lt hin,
      ← List.getD_eq_getElem?_getD]
  · apply List.map_congr_left
    intro i _
    have hat : ∀ j, (a.take (n * ch) ++ b).getD (n * ch + j) 0 = b.getD j 0 := by
      intro j
      rw [List.getD_eq_getElem?_getD, List.getElem?_append_right (by omega), hlength, Nat.add_sub_cancel_left,
        ← List.getD_eq_getElem?_getD]
    show frameAt _ ch (n + i) = frameAt b ch i
    unfold frameAt
    rw [Nat.add_mul, hat, show n * ch + i * ch + ch - 1 = n * ch + (i * ch + ch - 1) by omega, hat]

/-- The frames of the joined samples are those of the calls. -/
theorem framesOf_joined (calls : List Call) (hchannels : 0 < channels.toNat) (hcalls : ∀ c ∈ calls, c.Whole channels) :
    framesOf (joined channels calls).input channels.toNat (joined channels calls).frames = streamOf channels.toNat calls := by
  induction calls with
  | nil => rfl
  | cons c calls ih =>
    have hrest := ih fun d hd => hcalls d (List.mem_cons_of_mem _ hd)
    have happend := framesOf_append hchannels c.input (joined channels calls).input (hcalls c (List.mem_cons_self ..))
      (joined channels calls).frames
    rw [hrest] at happend
    exact happend

theorem joined_whole (calls : List Call) (hcalls : ∀ c ∈ calls, c.Whole channels) : (joined channels calls).Whole channels := by
  induction calls with
  | nil => exact Nat.le_of_eq (Nat.zero_mul _)
  | cons c calls ih =>
    have hrest := ih fun d hd => hcalls d (List.mem_cons_of_mem _ hd)
    have hfirst := hcalls c (List.mem_cons_self ..)
    unfold Call.Whole at hrest hfirst ⊢
    show (c.frames + (joined channels calls).frames) * channels.toNat ≤
      (c.input.take (c.frames * channels.toNat) ++ (joined channels calls).input).length
    rw [Nat.add_mul, List.length_append, List.length_take, Nat.min_eq_left hfirst]
    omega

theorem ints_injective : Function.Injective ints := by
  intro a b h
  exact Prod.ext (Int16.toInt_inj.mp (congrArg Prod.fst h)) (Int16.toInt_inj.mp (congrArg Prod.snd h))

/-- The frames determine the state. -/
theorem After.unique {format : Rate} {ch : UInt8} {t : Resampler} (hs : After format ch start stream s)
    (ht : After format ch start stream t) : s = t := by
  unfold After at hs ht
  split at hs
  · rename_i h
    rw [if_pos h] at ht
    exact hs.trans ht.symm
  · rename_i h
    rw [if_neg h] at ht
    exact hs.unique ht h

end Calls

/-- A stream fed in any calls is converted to the frames on the lines between its own, as in
    one call, and without a fault. -/
theorem convert_chunks (rate : UInt32) (channels : UInt8) (s : Resampler) (calls : List Call)
    (hchannels : (sourceChannels channels).toNat ≤ audioPcmChannels) (hcalls : ∀ c ∈ calls, c.Whole (sourceChannels channels))
    (hs : Starts (sourceRate rate).1 (sourceChannels channels) s) :
    ∃ t out sunk, feed rate channels s calls = .ok (t, out) ∧
      audioPcmConvert s (joined (sourceChannels channels) calls).input
        (joined (sourceChannels channels) calls).frames rate channels =
        .ok (t, sunk) ∧
      sunk.flatten = out ∧
      out.map ints = converted (sourceRate rate)
        (framesOf (joined (sourceChannels channels) calls).input (sourceChannels channels).toNat
          (joined (sourceChannels channels) calls).frames) := by
  have hempty : After (sourceRate rate) (sourceChannels channels) s [] s := by
    unfold After
    rw [if_pos rfl]
  have hnone : [] = converted (sourceRate rate) [] := rfl
  have hjoined := framesOf_joined calls (sourceChannels_pos channels) hcalls
  obtain ⟨⟨t, out⟩, hfeed, ht, hout⟩ := gives_iff.mp (feed_gives [] calls hchannels hcalls hs hempty hnone)
  obtain ⟨⟨u, sunk⟩, hone, hu, hsunk⟩ :=
    gives_iff.mp (convert_gives [] (joined (sourceChannels channels) calls) hchannels (joined_whole calls hcalls) hs hempty hnone)
  rw [List.nil_append] at ht hout hu hsunk
  rw [hjoined] at hu hsunk
  rw [List.nil_append] at hout hsunk
  obtain rfl : t = u := ht.unique hu
  refine ⟨t, out, sunk, hfeed, hone, ?_, ?_⟩
  · exact ints_injective.list_map (hsunk.trans hout.symm)
  · rw [hjoined]
    exact hout

/-- Two frames at half the rate, with an empty call between them. -/
theorem convert_two_frames :
    ∃ t out sunk, feed 22050 2 audioPcmReset [⟨[0, 10], 1⟩, ⟨[], 0⟩, ⟨[100, -25], 1⟩] = .ok (t, out) ∧
      audioPcmConvert audioPcmReset [0, 10, 100, -25] 2 22050 2 = .ok (t, sunk) ∧ sunk.flatten = out ∧
      out.map ints = converted (sourceRate 22050) [(0, 10), (100, -25)] :=
  convert_chunks 22050 2 audioPcmReset [⟨[0, 10], 1⟩, ⟨[], 0⟩, ⟨[100, -25], 1⟩] (by decide)
    (by unfold Call.Whole; decide) (Or.inl rfl)

end Be300.Audio
