/-
  Be300.Audio.Ring — the ring of host frames between the converter and the audio device
  (`audio_pcm_ring_put` and `audio_pcm_ring_drain` of `src/audio_pcm.c`).

  A `memcpy` past an end of the ring or of the caller's frames is a fault, and so is a
  difference below zero. The caller's frames are a list, whose length is the `frames` it
  passes, or no list where its pointer is null.

  Proved (`ring_newest`): from a cleared ring on, calls in any order end without a fault and
  give what a queue gives that keeps the newest half second of frames.
-/

import Be300.Audio.Pcm
import Be300.Lib.Newest
import Be300.Lib.Ring

namespace Be300.Audio

open Be300.Lib (Ends Gives ends_ok ends_bind ends_mono gives_iff)
open Be300.Lib
open Be300.Lib.Ring (slot get put put_cons put_append put_mod put_before get_put get_congr get_append get_length)

def audioPcmRingFrames : Nat := audioPcmRate / 2

structure PcmRing where
  pcm : Nat → Frame
  head : Nat
  frames : Nat

def audioPcmRingClear (r : PcmRing) : PcmRing := { r with head := 0, frames := 0 }

/-- `memcpy` of frames into the ring, from frame `i` on. -/
def storeFrames (pcm : Nat → Frame) (i : Nat) (l : List Frame) : Checked (Nat → Frame) :=
  if i + l.length ≤ audioPcmRingFrames then .ok fun j => if i ≤ j then l.getD (j - i) (pcm j) else pcm j
  else .error (.outside (i + l.length))

/-- `memcpy` of `n` frames out of the ring. -/
def loadFrames (pcm : Nat → Frame) (i n : Nat) : Checked (List Frame) :=
  if i + n ≤ audioPcmRingFrames then .ok ((List.range n).map fun k => pcm (i + k)) else .error (.outside (i + n))

/-- `n` of the caller's frames, from frame `i` on. -/
def callerFrames (l : List Frame) (i n : Nat) : Checked (List Frame) :=
  if i + n ≤ l.length then .ok ((l.drop i).take n) else .error (.outside (i + n))

def audioPcmRingPut (r : PcmRing) : Option (List Frame) → Checked PcmRing
  | none => .ok r
  | some pcm =>
    if pcm.length = 0 then .ok r
    else do
      let pcm := if audioPcmRingFrames < pcm.length then pcm.drop (pcm.length - audioPcmRingFrames) else pcm
      let first := min (← uint64 (audioPcmRingFrames - r.head)) pcm.length
      let ring ← storeFrames r.pcm r.head (← callerFrames pcm 0 first)
      let ring ← storeFrames ring 0 (← callerFrames pcm first (pcm.length - first))
      .ok {
        pcm := ring
        head := (r.head + pcm.length) % audioPcmRingFrames
        frames := min (r.frames + pcm.length) audioPcmRingFrames }

/-- The frames that are copied to `pcm`, if it is not null; their number is what is returned. -/
def audioPcmRingDrain (r : PcmRing) (pcm : Bool) (maxFrames : Nat) : Checked (List Frame × PcmRing) :=
  if pcm = false then .ok ([], r)
  else do
    let frames := min r.frames maxFrames
    let tail := (← uint64 ((r.head + audioPcmRingFrames : Nat) - r.frames)) % audioPcmRingFrames
    let first := min (← uint64 (audioPcmRingFrames - tail)) frames
    let front ← loadFrames r.pcm tail first
    let rest ← loadFrames r.pcm 0 (frames - first)
    .ok (front ++ rest, { r with frames := r.frames - frames })

inductive RingCall where
  | put (pcm : Option (List Frame))
  | drain (pcm : Bool) (maxFrames : Nat)

def ringCall (r : PcmRing) : RingCall → Checked (List Frame × PcmRing)
  | .put pcm => return ([], ← audioPcmRingPut r pcm)
  | .drain pcm maxFrames => audioPcmRingDrain r pcm maxFrames

/-- What each call gives, and the ring after them. -/
def ringCalls (r : PcmRing) : List RingCall → Checked (List (List Frame) × PcmRing)
  | [] => .ok ([], r)
  | c :: cs => do
    let (given, r) ← ringCall r c
    let (rest, r) ← ringCalls r cs
    .ok (given :: rest, r)

/-! ## The copies -/

theorem uint64_sub {a b : Nat} (h : b ≤ a) (ha : a < 2 ^ 64) : uint64 ((a : Int) - b) = .ok (a - b) := by
  unfold uint64
  rw [if_pos (by omega)]
  congr 1
  omega

theorem storeFrames_ok {pcm : Nat → Frame} {i : Nat} {l : List Frame} (h : i + l.length ≤ audioPcmRingFrames) :
    storeFrames pcm i l = .ok (put 0 audioPcmRingFrames l i pcm) := by
  rw [storeFrames, if_pos h]
  congr 1
  induction l generalizing i pcm with
  | nil =>
    funext j
    simp [Be300.Lib.Ring.put]
  | cons v l ih =>
    rw [List.length_cons] at h
    have hslot : slot 0 audioPcmRingFrames i = i := by rw [slot, Nat.mod_eq_of_lt (by omega), Nat.zero_add]
    rw [put_cons, ← ih (by omega), hslot]
    funext j
    rcases Nat.lt_trichotomy j i with hlt | heq | hgt
    · rw [if_neg (by omega), if_neg (by omega), Function.update_of_ne (by omega)]
    · rw [if_pos (by omega), if_neg (by omega), heq, Function.update_self, Nat.sub_self, List.getD_cons_zero]
    · rw [if_pos (by omega), if_pos (by omega), Function.update_of_ne (by omega), show j - i = j - (i + 1) + 1 by omega,
        List.getD_cons_succ]

theorem loadFrames_ok {pcm : Nat → Frame} {i n : Nat} (h : i + n ≤ audioPcmRingFrames) :
    loadFrames pcm i n = .ok (get 0 audioPcmRingFrames pcm i n) := by
  rw [loadFrames, if_pos h]
  congr 1
  apply List.map_congr_left
  intro k hk
  have hlt := List.mem_range.mp hk
  rw [slot, Nat.mod_eq_of_lt (by omega), Nat.zero_add]

theorem callerFrames_ok {l : List Frame} {i n : Nat} (h : i + n ≤ l.length) : callerFrames l i n = .ok ((l.drop i).take n) := by
  rw [callerFrames, if_pos h]

theorem get_mod (pcm : Nat → Frame) {x y : Nat} (h : x % audioPcmRingFrames = y % audioPcmRingFrames) (k : Nat) :
    get 0 audioPcmRingFrames pcm x k = get 0 audioPcmRingFrames pcm y k := by
  apply List.map_congr_left
  intro i _
  rw [slot, slot, Nat.add_mod_eq_add_mod_right i h]

/-! ## The ring as a queue -/

structure PcmRing.Fits (r : PcmRing) : Prop where
  head : r.head < audioPcmRingFrames
  frames : r.frames ≤ audioPcmRingFrames

/-- The frames of the ring, the oldest first. -/
def PcmRing.contents (r : PcmRing) : List Frame :=
  get 0 audioPcmRingFrames r.pcm (r.head + audioPcmRingFrames - r.frames) r.frames

theorem PcmRing.contents_length (r : PcmRing) : r.contents.length = r.frames := get_length _ _ _

theorem PcmRing.Fits.contents_le {r : PcmRing} (h : r.Fits) : r.contents.length ≤ audioPcmRingFrames := by
  rw [r.contents_length]
  exact h.frames

/-- A copy that wraps is one write of the ring. -/
theorem put_wrapped {head : Nat} (hhead : head < audioPcmRingFrames) (pcm : Nat → Frame) (l : List Frame) {first : Nat}
    (hfirst : first = min (audioPcmRingFrames - head) l.length) :
    put 0 audioPcmRingFrames ((l.drop first).take (l.length - first)) 0
      (put 0 audioPcmRingFrames ((l.drop 0).take first) head pcm) =
      put 0 audioPcmRingFrames l head pcm := by
  rw [List.drop_zero, List.take_of_length_le (by rw [List.length_drop])]
  conv_rhs => rw [← List.take_append_drop first l, put_append, List.length_take, Nat.min_eq_left (by omega)]
  by_cases hall : first = l.length
  · rw [List.drop_eq_nil_of_le (by omega)]
    rfl
  · apply put_mod
    rw [show head + first = audioPcmRingFrames by omega, Nat.mod_self, Nat.zero_mod]

/-- So is one that is read. -/
theorem get_wrapped {tail frames : Nat} (htail : tail < audioPcmRingFrames) (pcm : Nat → Frame) {first : Nat}
    (hfirst : first = min (audioPcmRingFrames - tail) frames) :
    get 0 audioPcmRingFrames pcm tail first ++ get 0 audioPcmRingFrames pcm 0 (frames - first) =
      get 0 audioPcmRingFrames pcm tail frames := by
  conv_rhs => rw [show frames = first + (frames - first) by omega, get_append]
  by_cases hall : first = frames
  · rw [hall, Nat.sub_self]
    rfl
  · congr 1
    apply get_mod
    rw [show tail + first = audioPcmRingFrames by omega, Nat.mod_self, Nat.zero_mod]

/-! ## The calls -/

/-- A put of no more than the ring holds. -/
theorem contents_put {r : PcmRing} (h : r.Fits) {l : List Frame} (hl : l.length ≤ audioPcmRingFrames) :
    (PcmRing.mk (put 0 audioPcmRingFrames l r.head r.pcm) ((r.head + l.length) % audioPcmRingFrames)
      (min (r.frames + l.length) audioPcmRingFrames)).contents = Newest.keep audioPcmRingFrames (r.contents ++ l) := by
  have hhead := h.head
  have hframes := h.frames
  obtain ⟨kept, hkept⟩ : ∃ kept, min (r.frames + l.length) audioPcmRingFrames = kept + l.length :=
    ⟨min r.frames (audioPcmRingFrames - l.length), by omega⟩
  have hle : kept ≤ r.frames := by omega
  have hold : r.contents.drop (r.frames - kept) = get 0 audioPcmRingFrames r.pcm (r.head + audioPcmRingFrames - kept) kept := by
    unfold PcmRing.contents
    rw [show r.frames = (r.frames - kept) + kept by omega, get_append, Nat.add_sub_cancel]
    rw [List.drop_append_of_le_length (by rw [get_length]), List.drop_eq_nil_of_le (by rw [get_length]), List.nil_append]
    congr 1
    omega
  rw [Newest.keep_append_short hl, r.contents_length, show r.frames + l.length - audioPcmRingFrames = r.frames - kept by omega,
    hold]
  unfold PcmRing.contents
  simp only
  have hend : ((r.head + l.length) % audioPcmRingFrames + audioPcmRingFrames - (kept + l.length)) % audioPcmRingFrames =
      (r.head + audioPcmRingFrames - kept) % audioPcmRingFrames := by
    have hwrap : (r.head + l.length) % audioPcmRingFrames = r.head + l.length ∨
        (r.head + l.length) % audioPcmRingFrames + audioPcmRingFrames = r.head + l.length := by
      rcases Nat.lt_or_ge (r.head + l.length) audioPcmRingFrames with hlt | hge
      · exact Or.inl (Nat.mod_eq_of_lt hlt)
      · right
        rw [Nat.mod_eq_sub_mod hge, Nat.mod_eq_of_lt (by omega)]
        omega
    rcases hwrap with hwrap | hwrap
    · rw [hwrap]
      congr 1
      omega
    · rw [hwrap, show r.head + audioPcmRingFrames - kept = r.head + l.length - (kept + l.length) + audioPcmRingFrames by omega,
        Nat.add_mod_right]
  rw [hkept, get_mod _ hend, get_append]
  have hput : put 0 audioPcmRingFrames l r.head r.pcm = put 0 audioPcmRingFrames l (r.head + audioPcmRingFrames) r.pcm :=
    put_mod l (Nat.add_mod_right _ _).symm r.pcm
  congr 1
  · apply get_congr
    intro y h1 h2
    rw [hput]
    exact Be300.Lib.Ring.put_before l _ _ (by omega) (by omega)
  · rw [show r.head + audioPcmRingFrames - kept + kept = r.head + audioPcmRingFrames by omega, hput]
    exact get_put l _ _ hl

theorem audioPcmRingPut_gives {r : PcmRing} (h : r.Fits) (pcm : List Frame) :
    Gives (fun r' => r'.Fits ∧ r'.contents = Newest.keep audioPcmRingFrames (r.contents ++ pcm))
      (audioPcmRingPut r (some pcm)) := by
  unfold audioPcmRingPut
  apply Lib.ends_ite
  · intro hnil
    rw [List.length_eq_zero_iff.mp hnil, List.append_nil, Newest.keep_of_le h.contents_le]
    exact ends_ok ⟨h, rfl⟩
  · intro _
    have hcut : Newest.keep audioPcmRingFrames (r.contents ++ pcm) = Newest.keep audioPcmRingFrames (r.contents ++
        if audioPcmRingFrames < pcm.length then pcm.drop (pcm.length - audioPcmRingFrames) else pcm) := by
      split
      · have hlen : (pcm.drop (pcm.length - audioPcmRingFrames)).length = audioPcmRingFrames := by
          rw [List.length_drop]
          omega
        rw [Newest.keep_append_long (by omega), Newest.keep_append_long (by omega), hlen, Nat.sub_self, List.drop_zero]
      · rfl
    have hle : (if audioPcmRingFrames < pcm.length then pcm.drop (pcm.length - audioPcmRingFrames) else pcm).length ≤
      audioPcmRingFrames := by
      split
      · rw [List.length_drop]
        omega
      · omega
    rw [hcut]
    generalize (if audioPcmRingFrames < pcm.length then pcm.drop (pcm.length - audioPcmRingFrames) else pcm) = l at hle ⊢
    have hhead := h.head
    simp only [uint64_sub (Nat.le_of_lt h.head) (show audioPcmRingFrames < 2 ^ 64 by decide), bind, Except.bind]
    generalize hfirst : min (audioPcmRingFrames - r.head) l.length = first
    rw [callerFrames_ok (by omega)]
    simp only
    rw [storeFrames_ok (by rw [List.length_take, List.length_drop]; omega)]
    simp only
    rw [callerFrames_ok (by omega)]
    simp only
    rw [storeFrames_ok (by rw [List.length_take, List.length_drop]; omega), put_wrapped h.head r.pcm l hfirst.symm]
    exact ends_ok ⟨⟨Nat.mod_lt _ (by decide), Nat.min_le_right _ _⟩, contents_put h hle⟩

theorem audioPcmRingDrain_gives {r : PcmRing} (h : r.Fits) (maxFrames : Nat) :
    Gives (fun x => x.2.Fits ∧ x.1 = r.contents.take maxFrames ∧ x.2.contents = r.contents.drop maxFrames)
      (audioPcmRingDrain r true maxFrames) := by
  have hhead := h.head
  have hframes := h.frames
  have htail : (r.head + audioPcmRingFrames - r.frames) % audioPcmRingFrames < audioPcmRingFrames := Nat.mod_lt _ (by decide)
  unfold audioPcmRingDrain
  rw [if_neg (by decide)]
  simp only [uint64_sub (show r.frames ≤ r.head + audioPcmRingFrames by omega)
    (show _ < 2 ^ 64 by unfold audioPcmRingFrames audioPcmRate at *; omega),
    uint64_sub (Nat.le_of_lt htail) (show audioPcmRingFrames < 2 ^ 64 by decide), bind, Except.bind]
  generalize hn : min r.frames maxFrames = n
  generalize hfirst : min (audioPcmRingFrames - (r.head + audioPcmRingFrames - r.frames) % audioPcmRingFrames) n = first
  rw [loadFrames_ok (by omega)]
  simp only
  rw [loadFrames_ok (by omega)]
  have hsplit : r.contents = get 0 audioPcmRingFrames r.pcm (r.head + audioPcmRingFrames - r.frames) n ++
      get 0 audioPcmRingFrames r.pcm (r.head + audioPcmRingFrames - r.frames + n) (r.frames - n) := by
    rw [← get_append, show n + (r.frames - n) = r.frames by omega]
    rfl
  have htake : r.contents.take maxFrames = r.contents.take n := by
    rw [← hn, ← r.contents_length, List.take_eq_take_iff]
    omega
  have hdrop : r.contents.drop maxFrames = r.contents.drop n := by
    rw [← hn, ← r.contents_length]
    rcases Nat.le_total r.contents.length maxFrames with hle | hle
    · rw [Nat.min_eq_left hle, List.drop_length, List.drop_eq_nil_of_le hle]
    · rw [Nat.min_eq_right hle]
  have hlen : (get 0 audioPcmRingFrames r.pcm (r.head + audioPcmRingFrames - r.frames) n).length = n := get_length _ _ _
  refine ends_ok ⟨⟨hhead, ?_⟩, ?_, ?_⟩
  · show r.frames - n ≤ _
    omega
  · rw [get_wrapped htail r.pcm hfirst.symm, get_mod _ (Nat.mod_mod _ _), htake, hsplit, List.take_append_of_le_length (by omega),
      List.take_of_length_le (by omega)]
  · rw [hdrop, hsplit, List.drop_append_of_le_length (by omega), List.drop_eq_nil_of_le (by omega), List.nil_append]
    unfold PcmRing.contents
    simp only
    congr 1
    omega

/-! ## Runs -/

/-- What a call is to the queue. -/
def RingCall.op : RingCall → Newest.Op Frame
  | .put pcm => .put (pcm.getD [])
  | .drain pcm maxFrames => .take (if pcm then maxFrames else 0)

theorem ringCall_gives {r : PcmRing} (h : r.Fits) (c : RingCall) {s : Newest.State Frame} (hs : s.queue = r.contents) :
    Gives (fun x => x.2.Fits ∧ x.1 = (Newest.step audioPcmRingFrames s c.op).1 ∧
      (Newest.step audioPcmRingFrames s c.op).2.queue = x.2.contents) (ringCall r c) := by
  rcases c with pcm | ⟨pcm, maxFrames⟩
  · rcases pcm with _ | pcm
    · refine ends_ok ⟨h, rfl, ?_⟩
      simp only [RingCall.op, Newest.step, Option.getD_none]
      rw [List.append_nil, hs, Newest.keep_of_le h.contents_le]
    · refine ends_bind (audioPcmRingPut_gives h pcm) ?_
      rintro r' ⟨hfits, hcontents⟩
      refine ends_ok ⟨hfits, rfl, ?_⟩
      simp only [RingCall.op, Newest.step, Option.getD_some]
      rw [hs, hcontents]
  · cases pcm with
    | false => exact ends_ok ⟨h, rfl, hs⟩
    | true =>
      refine ends_mono (audioPcmRingDrain_gives h maxFrames) ?_
      rintro x ⟨hfits, hgiven, hrest⟩
      refine ⟨hfits, ?_, ?_⟩
      · show _ = s.queue.take maxFrames
        rw [hs, hgiven]
      · show s.queue.drop maxFrames = _
        rw [hs, hrest]

theorem ringCalls_gives {r : PcmRing} (h : r.Fits) (cs : List RingCall) {s : Newest.State Frame} (hs : s.queue = r.contents) :
    Gives (fun x => x.2.Fits ∧ x.1 = (Newest.run audioPcmRingFrames s (cs.map RingCall.op)).1 ∧
      (Newest.run audioPcmRingFrames s (cs.map RingCall.op)).2.queue = x.2.contents) (ringCalls r cs) := by
  induction cs generalizing r s with
  | nil => exact ends_ok ⟨h, rfl, hs⟩
  | cons c cs ih =>
    refine ends_bind (ringCall_gives h c hs) ?_
    rintro ⟨given, r'⟩ ⟨hfits, hgiven, hqueue⟩
    refine ends_bind (ih hfits hqueue) ?_
    rintro ⟨rest, r''⟩ ⟨hfits', hrest, hqueue'⟩
    exact ends_ok ⟨hfits', congrArg₂ List.cons hgiven hrest, hqueue'⟩

/-- From a cleared ring on, the calls give what the queue of the newest frames gives: the
    frames put are, in their order, those drained and those overwritten, and those that the
    ring still holds. -/
theorem ring_newest (r : PcmRing) (cs : List RingCall) : ∃ given r', ringCalls (audioPcmRingClear r) cs = .ok (given, r') ∧
    r'.frames ≤ audioPcmRingFrames ∧
    given = (Newest.run audioPcmRingFrames .empty (cs.map RingCall.op)).1 ∧
    r'.contents = (Newest.run audioPcmRingFrames .empty (cs.map RingCall.op)).2.queue ∧
    ∃ departed, given.flatten = Newest.taken departed ∧
      departed.map Prod.snd ++ r'.contents = Newest.arrivals (cs.map RingCall.op) := by
  have hclear : (audioPcmRingClear r).Fits := ⟨show 0 < audioPcmRingFrames by decide, Nat.zero_le _⟩
  obtain ⟨⟨given, r'⟩, hrun, hfits, hgiven, hqueue⟩ := gives_iff.mp (ringCalls_gives hclear cs (s := Newest.State.empty) rfl)
  refine ⟨given, r', hrun, hfits.frames, hgiven, hqueue.symm,
    (Newest.run audioPcmRingFrames .empty (cs.map RingCall.op)).2.departed, ?_, ?_⟩
  · rw [Newest.run_taken, ← hgiven]
    rfl
  · have hall := Newest.run_departed (n := audioPcmRingFrames) .empty (cs.map RingCall.op)
    simpa [Newest.State.empty, ← hqueue] using hall

end Be300.Audio
