/-
  Be300.Nk.Lzss — the LZSS stream of a kernel image (`tools/nk_lzss.py`).

  A stream is groups of a flag byte and up to eight tokens, a token a byte or a copy from a
  ring of 4096 bytes that is written from 0xFEE on. `decodeLzss` replays the ring byte by
  byte; `encodeLzss` looks up earlier positions of the next three bytes and takes the
  longest of the `maxCandidates` latest.

  Proved (`lzss_round_trip`): whatever the encoder writes tells its data by tokens
  (`encodeLzss_tells`), and decoding what tells some data gives the data, or as much of it
  as was asked for (`decodeLoop_tells`).
-/

import Be300.Lib.Bytes
import Be300.Lib.Window
import Mathlib.Data.Nat.Bitwise

namespace Be300.Nk

open Lib (at')
open Lib.Ring (slot)
open Lib.Window (Token Tells Holds)

def lzssRingSize : Nat := 4096
def lzssRingMask : Nat := 0xFFF
def lzssStartR : Nat := 0xFEE
def lzssMinMatch : Nat := 3
def lzssMaxMatch : Nat := 18

/-! ## The decoder -/

/-- `state` 0, 1 and 2. -/
inductive Mode where
  | flag
  | token
  | copy
  deriving DecidableEq, Repr

structure Decoder where
  text : Nat → UInt8
  ringIndex : Nat
  flags : Nat
  mode : Mode
  low : Nat
  srcOff : Nat
  out : List UInt8

/-- `output_limit` bytes are out. -/
def full : Option Nat → List UInt8 → Bool
  | none, _ => false
  | some limit, out => limit ≤ out.length

def Decoder.emit (d : Decoder) (byte : UInt8) : Decoder :=
  { d with
    out := d.out ++ [byte]
    text := Function.update d.text d.ringIndex byte
    ringIndex := (d.ringIndex + 1) &&& lzssRingMask }

/-- `for _ in range(match_len)`. -/
def copyLoop (limit : Option Nat) : Nat → Nat → Decoder → Decoder
  | 0, _, d => d
  | n + 1, matchPos, d =>
    let d := d.emit (d.text (matchPos &&& lzssRingMask))
    if full limit d.out then d else copyLoop limit n (matchPos + 1) d

def decodeStep (src : List UInt8) (limit : Option Nat) (d : Decoder) : Decoder :=
  let byte := at' src d.srcOff
  match d.mode with
  | .flag =>
    if (d.flags >>> 1) &&& 0x100 = 0 then
      { d with flags := byte.toNat ||| 0xFF00, srcOff := d.srcOff + 1, mode := .token }
    else { d with flags := d.flags >>> 1, mode := .token }
  | .token =>
    if d.flags &&& 1 ≠ 0 then { d.emit byte with srcOff := d.srcOff + 1, mode := .flag }
    else { d with low := byte.toNat, srcOff := d.srcOff + 1, mode := .copy }
  | .copy =>
    let matchPos := d.low ||| ((byte.toNat &&& 0xF0) <<< 4)
    let matchLen := (byte.toNat &&& 0x0F) + lzssMinMatch
    { copyLoop limit matchLen matchPos d with srcOff := d.srcOff + 1, mode := .flag }

@[simp] theorem copyLoop_srcOff (limit : Option Nat) (n matchPos : Nat) (d : Decoder) :
    (copyLoop limit n matchPos d).srcOff = d.srcOff := by
  induction n generalizing matchPos d with
  | zero => rfl
  | succ n ih =>
    unfold copyLoop
    dsimp only
    split
    · rfl
    · rw [ih]
      rfl

/-- Every step takes a byte, or is about to. -/
theorem decodeStep_progress (src : List UInt8) (limit : Option Nat) (d : Decoder) (h : d.srcOff < src.length) :
    2 * (src.length - (decodeStep src limit d).srcOff) + (if (decodeStep src limit d).mode = .flag then 1 else 0) <
      2 * (src.length - d.srcOff) + (if d.mode = .flag then 1 else 0) := by
  unfold decodeStep
  dsimp only
  cases hmode : d.mode <;> dsimp only <;> (try split) <;> simp <;> omega

/-- `while src_off < len(src)`. -/
def decodeLoop (src : List UInt8) (limit : Option Nat) (d : Decoder) : Decoder :=
  if _h : d.srcOff < src.length then
    if full limit d.out then d else decodeLoop src limit (decodeStep src limit d)
  else d
termination_by 2 * (src.length - d.srcOff) + (if d.mode = .flag then 1 else 0)
decreasing_by exact decodeStep_progress src limit d _h

/-- The bytes that come out, and how many of the stream went in. -/
def decodeLzss (src : List UInt8) (limit : Option Nat) : List UInt8 × Nat :=
  let d := decodeLoop src limit ⟨fun _ => 0, lzssStartR, 0, .flag, 0, 0, []⟩
  (d.out, d.srcOff)

/-! ## The encoder -/

/-- `match_len` goes up while the bytes agree, at most `n` times. -/
def extend (data : List UInt8) (pos srcOff : Nat) : Nat → Nat → Nat
  | 0, matchLen => matchLen
  | n + 1, matchLen =>
    if at' data (pos + matchLen) = at' data (srcOff + matchLen) then extend data pos srcOff n (matchLen + 1) else matchLen

/-- `for pos in reversed(candidates)`; `best` is the best length and its position. -/
def search (data : List UInt8) (maxCandidates : Int) (srcOff : Nat) : List Nat → Int → Nat × Nat → Nat × Nat
  | [], _, best => best
  | pos :: rest, checked, best =>
    if maxCandidates < checked + 1 then best
    else
      let maxLen := min lzssMaxMatch (data.length - srcOff)
      let matchLen := extend data pos srcOff (maxLen - lzssMinMatch) lzssMinMatch
      if best.1 < matchLen then
        if matchLen = lzssMaxMatch then (matchLen, pos) else search data maxCandidates srcOff rest (checked + 1) (matchLen, pos)
      else search data maxCandidates srcOff rest (checked + 1) best

/-- The three bytes from `off` on. -/
def keyAt (data : List UInt8) (off : Nat) : List UInt8 := (data.drop off).take lzssMinMatch

structure Encoder where
  positions : List UInt8 → List Nat
  out : List UInt8
  srcOff : Nat

/-- Positions that are out of the window are dropped; a subtraction below 0 drops none. -/
def Encoder.pruneKey (e : Encoder) (key : List UInt8) (minPos : Nat) : Encoder :=
  { e with positions := Function.update e.positions key ((e.positions key).dropWhile (· < minPos)) }

def Encoder.findMatch (data : List UInt8) (maxCandidates : Int) (e : Encoder) : (Nat × Nat) × Encoder :=
  if e.srcOff + (lzssMinMatch - 1) < data.length then
    let key := keyAt data e.srcOff
    let e := e.pruneKey key (e.srcOff - lzssRingSize)
    (search data maxCandidates e.srcOff (e.positions key).reverse 0 (0, 0), e)
  else ((0, 0), e)

/-- `for rel in range(step)`, from `rel` on. -/
def Encoder.remember (data : List UInt8) : Nat → Nat → Encoder → Encoder
  | 0, _, e => e
  | n + 1, rel, e =>
    if e.srcOff + rel + (lzssMinMatch - 1) < data.length then
      let key := keyAt data (e.srcOff + rel)
      Encoder.remember data n (rel + 1)
        { e with positions := Function.update e.positions key (e.positions key ++ [e.srcOff + rel]) }
    else Encoder.remember data n (rel + 1) e

def ringIndexForOutputPos (pos : Nat) : Nat := (lzssStartR + pos) &&& lzssRingMask

/-- The two bytes of a copy. -/
def copyBytes (pos len : Nat) : List UInt8 :=
  let matchPos := ringIndexForOutputPos pos
  [UInt8.ofNat (matchPos &&& 0xFF), UInt8.ofNat (((matchPos >>> 4) &&& 0xF0) ||| (len - lzssMinMatch))]

/-- `for _ in range(8)`, with `n` to go; the flags at its end. -/
def groupLoop (data : List UInt8) (maxCandidates : Int) : Nat → Nat → Nat → Encoder → Nat × Encoder
  | 0, flags, _, e => (flags, e)
  | n + 1, flags, bit, e =>
    if data.length ≤ e.srcOff then (flags, e)
    else
      let (best, e) := e.findMatch data maxCandidates
      if lzssMinMatch ≤ best.1 then
        let e := Encoder.remember data best.1 0 { e with out := e.out ++ copyBytes best.2 best.1 }
        groupLoop data maxCandidates n flags (bit <<< 1) { e with srcOff := e.srcOff + best.1 }
      else
        let e := Encoder.remember data 1 0 { e with out := e.out ++ [at' data e.srcOff] }
        groupLoop data maxCandidates n (flags ||| bit) (bit <<< 1) { e with srcOff := e.srcOff + 1 }

/-- A flag byte and its tokens. -/
def encodeGroup (data : List UInt8) (maxCandidates : Int) (e : Encoder) : Encoder :=
  let (flags, e') := groupLoop data maxCandidates 8 0 1 { e with out := e.out ++ [0] }
  { e' with out := e'.out.set e.out.length (UInt8.ofNat flags) }

@[simp] theorem remember_srcOff (data : List UInt8) (n rel : Nat)
  (e : Encoder) : (Encoder.remember data n rel e).srcOff = e.srcOff := by
  induction n generalizing rel e with
  | zero => rfl
  | succ n ih =>
    unfold Encoder.remember
    dsimp only
    split
    · rw [ih]
    · rw [ih]

@[simp] theorem findMatch_srcOff (data : List UInt8) (maxCandidates : Int) (e : Encoder) :
    (e.findMatch data maxCandidates).2.srcOff = e.srcOff := by
  unfold Encoder.findMatch
  split <;> rfl

theorem groupLoop_mono (data : List UInt8) (maxCandidates : Int) (n flags bit : Nat) (e : Encoder) :
    e.srcOff ≤ (groupLoop data maxCandidates n flags bit e).2.srcOff := by
  induction n generalizing flags bit e with
  | zero => exact Nat.le_refl _
  | succ n ih =>
    unfold groupLoop
    split
    · exact Nat.le_refl _
    dsimp only
    split
    · refine Nat.le_trans ?_ (ih _ _ _)
      simp
    · refine Nat.le_trans ?_ (ih _ _ _)
      simp

theorem encodeGroup_progress (data : List UInt8) (maxCandidates : Int) (e : Encoder) (h : e.srcOff < data.length) :
    data.length - (encodeGroup data maxCandidates e).srcOff < data.length - e.srcOff := by
  have hlt : e.srcOff < (encodeGroup data maxCandidates e).srcOff := by
    unfold encodeGroup groupLoop
    dsimp only
    rw [if_neg (by omega)]
    split
    · rename_i hlong
      refine Nat.lt_of_lt_of_le ?_ (groupLoop_mono data maxCandidates 7 _ _ _)
      simp only [remember_srcOff, findMatch_srcOff]
      unfold lzssMinMatch at hlong
      omega
    · refine Nat.lt_of_lt_of_le ?_ (groupLoop_mono data maxCandidates 7 _ _ _)
      simp only [remember_srcOff, findMatch_srcOff]
      omega
  omega

/-- `while src_off < total`. -/
def encodeLoop (data : List UInt8) (maxCandidates : Int) (e : Encoder) : List UInt8 :=
  if _h : e.srcOff < data.length then encodeLoop data maxCandidates (encodeGroup data maxCandidates e) else e.out
termination_by data.length - e.srcOff
decreasing_by exact encodeGroup_progress data maxCandidates e _h

def encodeLzss (data : List UInt8) (maxCandidates : Int) : List UInt8 := encodeLoop data maxCandidates ⟨fun _ => [], [], 0⟩

/-! ## The bytes of a token stream -/

/-- A flag is set for a byte. -/
def bit : Token UInt8 → Nat
  | .lit _ => 1
  | .copy _ _ => 0

def flagBits : List (Token UInt8) → Nat
  | [] => 0
  | t :: ts => bit t + 2 * flagBits ts

def tokenBytes : Token UInt8 → List UInt8
  | .lit b => [b]
  | .copy pos len => copyBytes pos len

/-- The bytes of the tokens, where `k` more belong to the group at hand. -/
def emit : Nat → List (Token UInt8) → List UInt8
  | _, [] => []
  | 0, t :: ts => UInt8.ofNat (flagBits (t :: ts.take 7)) :: (tokenBytes t ++ emit 7 ts)
  | k + 1, t :: ts => tokenBytes t ++ emit k ts

/-- What LZSS tells data by. -/
abbrev Told (data : List UInt8) : Nat → List (Token UInt8) → Prop := Tells lzssRingSize lzssMinMatch lzssMaxMatch data

theorem flagBits_lt (ts : List (Token UInt8)) : flagBits ts < 2 ^ ts.length := by
  induction ts with
  | nil => exact Nat.one_pos
  | cons t ts ih =>
    have hbit : bit t ≤ 1 := by cases t <;> simp [bit]
    simp only [flagBits, List.length_cons, Nat.pow_succ]
    omega

theorem emit_append (ts rest : List (Token UInt8)) {k : Nat} (h : ts.length ≤ k) :
    emit k (ts ++ rest) = ts.flatMap tokenBytes ++ emit (k - ts.length) rest := by
  induction ts generalizing k with
  | nil => rfl
  | cons t ts ih =>
    simp only [List.length_cons] at h
    obtain ⟨j, rfl⟩ : ∃ j, k = j + 1 := ⟨k - 1, by omega⟩
    rw [List.cons_append, emit, ih (by omega), List.flatMap_cons, List.append_assoc, List.length_cons, Nat.add_sub_add_right]

/-- A group, and what follows it. -/
theorem emit_group {ts rest : List (Token UInt8)} (hne : ts ≠ []) (hlen : ts.length ≤ 8) (hfull : ts.length = 8 ∨ rest = []) :
    emit 0 (ts ++ rest) = UInt8.ofNat (flagBits ts) :: (ts.flatMap tokenBytes ++ emit 0 rest) := by
  cases ts with
  | nil => exact absurd rfl hne
  | cons t ts =>
    simp only [List.length_cons] at hlen hfull
    have hgroup : (ts ++ rest).take 7 = ts := by
      rcases hfull with hlast | rfl
      · rw [List.take_left' (by omega)]
      · rw [List.append_nil, List.take_of_length_le (by omega)]
    have hrest : emit (7 - ts.length) rest = emit 0 rest := by
      rcases hfull with hlast | rfl
      · rw [show 7 - ts.length = 0 by omega]
      · cases 7 - ts.length <;> rfl
    rw [List.cons_append, emit, hgroup, emit_append ts rest (by omega), hrest, List.flatMap_cons, List.append_assoc]

/-! ## What the encoder writes -/

section Encode

variable {data : List UInt8} {maxCandidates : Int} {e : Encoder}

theorem at'_eq {i j : Nat} (hi : i < data.length) (hj : j < data.length) (h : at' data i = at' data j) : data[i]? = data[j]? := by
  simp only [at', List.getD_eq_getElem?_getD, List.getElem?_eq_getElem hi, List.getElem?_eq_getElem hj, Option.getD_some] at h ⊢
  rw [h]

/-- The bytes from `pos` on are those from `srcOff` on, `len` of them. -/
def Same (data : List UInt8) (pos srcOff len : Nat) : Prop := ∀ k < len, data[pos + k]? = data[srcOff + k]?

theorem same_of_key {p s : Nat} (h : keyAt data p = keyAt data s) : Same data p s lzssMinMatch := by
  intro k hk
  have hget := congrArg (·[k]?) h
  simp only [keyAt, List.getElem?_take_of_lt hk, List.getElem?_drop] at hget
  exact hget

theorem extend_spec {pos srcOff : Nat} (hpos : pos < srcOff) (n l : Nat) (hin : srcOff + l + n ≤ data.length)
    (hsame : Same data pos srcOff l) :
    l ≤ extend data pos srcOff n l ∧ extend data pos srcOff n l ≤ l + n ∧ Same data pos srcOff (extend data pos srcOff n l) := by
  induction n generalizing l with
  | zero => exact ⟨Nat.le_refl _, Nat.le_refl _, hsame⟩
  | succ n ih =>
    unfold extend
    split
    · rename_i hbyte
      have hmore : Same data pos srcOff (l + 1) := by
        intro k hk
        rcases Nat.lt_succ_iff_lt_or_eq.mp hk with hlt | rfl
        · exact hsame k hlt
        · exact at'_eq (by omega) (by omega) hbyte
      obtain ⟨h1, h2, h3⟩ := ih (l + 1) (by omega) hmore
      exact ⟨by omega, by omega, h3⟩
    · exact ⟨Nat.le_refl _, by omega, hsame⟩

/-- A copy that may be taken at `srcOff`, or none. -/
def Best (data : List UInt8) (srcOff : Nat) (best : Nat × Nat) : Prop :=
  lzssMinMatch ≤ best.1 → best.2 < srcOff ∧ srcOff ≤ best.2 + lzssRingSize ∧ best.1 ≤ lzssMaxMatch ∧
    srcOff + best.1 ≤ data.length ∧ Same data best.2 srcOff best.1

theorem search_best {srcOff : Nat} (hkey : srcOff + 2 < data.length) (candidates : List Nat) (checked : Int) (best : Nat × Nat)
    (hcand : ∀ pos ∈ candidates, pos < srcOff ∧ srcOff ≤ pos + lzssRingSize ∧ keyAt data pos = keyAt data srcOff)
    (hbest : Best data srcOff best) : Best data srcOff (search data maxCandidates srcOff candidates checked best) := by
  induction candidates generalizing checked best with
  | nil => exact hbest
  | cons pos rest ih =>
    have hrest : ∀ p ∈ rest, p < srcOff ∧ srcOff ≤ p + lzssRingSize ∧ keyAt data p = keyAt data srcOff :=
      fun p hp => hcand p (List.mem_cons_of_mem pos hp)
    obtain ⟨hpos, hback, hsame⟩ := hcand pos List.mem_cons_self
    have hmax : min lzssMaxMatch (data.length - srcOff) ≤ 18 ∧ min lzssMaxMatch (data.length - srcOff) ≤ data.length - srcOff :=
      ⟨Nat.min_le_left _ _, Nat.min_le_right _ _⟩
    have hmin : 3 ≤ min lzssMaxMatch (data.length - srcOff) := by
      unfold lzssMaxMatch
      omega
    obtain ⟨-, hle, hext⟩ := extend_spec hpos (min lzssMaxMatch (data.length - srcOff) - lzssMinMatch) lzssMinMatch
      (by unfold lzssMinMatch; omega) (same_of_key hsame)
    have hnew : Best data srcOff (extend data pos srcOff (min lzssMaxMatch (data.length - srcOff) - lzssMinMatch) lzssMinMatch,
      pos) := by
      intro _
      unfold lzssMinMatch at hle hext ⊢
      exact ⟨hpos, hback, by unfold lzssMaxMatch at *; dsimp only; omega, by dsimp only; omega, hext⟩
    unfold search
    dsimp only
    split
    · exact hbest
    split
    · split
      · exact hnew
      · exact ih _ _ hrest hnew
    · exact ih _ _ hrest hbest

/-- The positions of three bytes stand in order, below `upto`. -/
structure Known (data : List UInt8) (e : Encoder) (upto : Nat) : Prop where
  sorted : ∀ key, (e.positions key).Pairwise (· < ·)
  stands : ∀ key, ∀ p ∈ e.positions key, p < upto ∧ keyAt data p = key

theorem le_of_mem_dropWhile {l : List Nat} {m p : Nat} (hl : l.Pairwise (· < ·)) (h : p ∈ l.dropWhile (· < m)) : m ≤ p := by
  induction l with
  | nil => cases h
  | cons x l ih =>
    rw [List.pairwise_cons] at hl
    rw [List.dropWhile_cons] at h
    split at h
    · exact ih hl.2 h
    · rename_i hx
      simp only [decide_eq_true_eq, Nat.not_lt] at hx
      rcases List.mem_cons.mp h with rfl | hmem
      · exact hx
      · exact Nat.le_trans hx (Nat.le_of_lt (hl.1 p hmem))

theorem Known.prune {upto : Nat} (h : Known data e upto) (key : List UInt8) (m : Nat) : Known data (e.pruneKey key m) upto := by
  constructor
  · intro k
    by_cases hk : k = key
    · subst hk
      simp only [Encoder.pruneKey, Function.update_self]
      exact (h.sorted k).sublist (List.dropWhile_sublist _)
    · simp only [Encoder.pruneKey, Function.update_of_ne hk]
      exact h.sorted k
  · intro k p hp
    by_cases hk : k = key
    · subst hk
      simp only [Encoder.pruneKey, Function.update_self] at hp
      exact h.stands k p ((List.dropWhile_sublist _).mem hp)
    · simp only [Encoder.pruneKey, Function.update_of_ne hk] at hp
      exact h.stands k p hp

/-- The position of the next three bytes is added. -/
theorem Known.add {upto : Nat} (h : Known data e upto) :
    Known data { e with positions := Function.update e.positions (keyAt data upto) (e.positions (keyAt data upto) ++ [upto]) }
      (upto + 1) := by
  constructor
  · intro k
    by_cases hk : k = keyAt data upto
    · subst hk
      simp only [Function.update_self]
      refine List.pairwise_append.mpr ⟨h.sorted _, List.pairwise_singleton _ _, ?_⟩
      intro p hp q hq
      rw [List.mem_singleton.mp hq]
      exact (h.stands _ p hp).1
    · simp only [Function.update_of_ne hk]
      exact h.sorted k
  · intro k p hp
    by_cases hk : k = keyAt data upto
    · subst hk
      simp only [Function.update_self, List.mem_append, List.mem_singleton] at hp
      rcases hp with hp | rfl
      · obtain ⟨hlt, hkey⟩ := h.stands _ p hp
        exact ⟨Nat.lt_succ_of_lt hlt, hkey⟩
      · exact ⟨Nat.lt_succ_self p, rfl⟩
    · simp only [Function.update_of_ne hk] at hp
      obtain ⟨hlt, hkey⟩ := h.stands k p hp
      exact ⟨Nat.lt_succ_of_lt hlt, hkey⟩

theorem Known.mono {upto upto' : Nat} (h : Known data e upto) (hle : upto ≤ upto') : Known data e upto' := by
  refine ⟨h.sorted, ?_⟩
  intro key p hp
  obtain ⟨hlt, hkey⟩ := h.stands key p hp
  exact ⟨Nat.lt_of_lt_of_le hlt hle, hkey⟩

theorem Known.remember (n rel : Nat) (h : Known data e (e.srcOff + rel)) :
    Known data (Encoder.remember data n rel e) (e.srcOff + (rel + n)) := by
  induction n generalizing rel e with
  | zero => exact h
  | succ n ih =>
    have hcount : rel + 1 + n = rel + (n + 1) := by omega
    unfold Encoder.remember
    dsimp only
    split
    · have hadded := ih (rel + 1) h.add
      rw [hcount] at hadded
      exact hadded
    · have hkept := ih (rel + 1) (h.mono (by omega))
      rw [hcount] at hkept
      exact hkept

theorem findMatch_spec (maxCandidates : Int) (h : Known data e e.srcOff) :
    Best data e.srcOff (e.findMatch data maxCandidates).1 ∧
      Known data (e.findMatch data maxCandidates).2 e.srcOff ∧ (e.findMatch data maxCandidates).2.out = e.out := by
  have hnone : Best data e.srcOff (0, 0) := by
    intro hlong
    unfold lzssMinMatch at hlong
    omega
  unfold Encoder.findMatch
  split
  · rename_i hkey
    dsimp only
    have hpruned := h.prune (keyAt data e.srcOff) (e.srcOff - lzssRingSize)
    refine ⟨search_best hkey _ _ _ ?_ hnone, hpruned, rfl⟩
    intro pos hpos
    rw [List.mem_reverse] at hpos
    obtain ⟨hlt, hsame⟩ := hpruned.stands _ pos hpos
    simp only [Encoder.pruneKey, Function.update_self] at hpos
    have hge := le_of_mem_dropWhile (h.sorted _) hpos
    exact ⟨hlt, by omega, hsame⟩
  · exact ⟨hnone, h, rfl⟩

@[simp] theorem remember_out (n rel : Nat) : (Encoder.remember data n rel e).out = e.out := by
  induction n generalizing rel e with
  | zero => rfl
  | succ n ih =>
    unfold Encoder.remember
    dsimp only
    split
    · rw [ih]
    · rw [ih]

/-- After a token of `len` bytes. -/
theorem Known.take (h : Known data e e.srcOff) (bytes : List UInt8) (len : Nat) :
    let e' := Encoder.remember data len 0 { e with out := e.out ++ bytes }
    Known data { e' with srcOff := e'.srcOff + len } (e'.srcOff + len) := by
  have hkept := Known.remember (e := { e with out := e.out ++ bytes }) len 0 ⟨h.sorted, h.stands⟩
  rw [Nat.zero_add] at hkept
  intro e'
  have hoff : e'.srcOff = e.srcOff := remember_srcOff data len 0 _
  rw [hoff]
  exact ⟨hkept.sorted, hkept.stands⟩

/-- What the loop over a group leaves: tokens that tell what it took, and their flags. -/
structure Wrote (data : List UInt8) (n i flags : Nat) (e : Encoder) (r : Nat × Encoder) (ts : List (Token UInt8)) : Prop where
  few : ts.length ≤ n
  all : ts.length = n ∨ data.length ≤ r.2.srcOff
  flags : r.1 = flags + 2 ^ i * flagBits ts
  out : r.2.out = e.out ++ ts.flatMap tokenBytes
  known : Known data r.2 r.2.srcOff
  inside : r.2.srcOff ≤ data.length
  tells : ∀ rest, Told data r.2.srcOff rest → Told data e.srcOff (ts ++ rest)

theorem groupLoop_wrote (maxCandidates : Int) (n i flags : Nat) (h : Known data e e.srcOff) (hin : e.srcOff ≤ data.length)
    (hflags : flags < 2 ^ i) :
    ∃ ts, Wrote data n i flags e (groupLoop data maxCandidates n flags (2 ^ i) e) ts := by
  induction n generalizing i flags e with
  | zero => exact ⟨[], Nat.le_refl 0, Or.inl rfl, by simp [groupLoop, flagBits], by simp [groupLoop], h, hin, fun _ hr => hr⟩
  | succ n ih =>
    have hbit : 2 ^ i <<< 1 = 2 ^ (i + 1) := (Nat.shiftLeft_eq _ _).trans (Nat.pow_add 2 i 1).symm
    have hpow : flags + 2 ^ i < 2 ^ (i + 1) := by
      rw [Nat.pow_succ]
      omega
    unfold groupLoop
    split
    · rename_i hend
      exact ⟨[], Nat.zero_le _, Or.inr hend, by simp [flagBits], by simp, h, hin, fun _ hr => hr⟩
    rename_i hmore
    dsimp only
    obtain ⟨hbest, hknown, hout⟩ := findMatch_spec maxCandidates h
    have hoff := findMatch_srcOff data maxCandidates e
    generalize e.findMatch data maxCandidates = found at *
    obtain ⟨⟨len, pos⟩, e1⟩ := found
    dsimp only at hbest hknown hout hoff ⊢
    rw [← hoff] at hknown
    split
    · -- a copy: its flag stays clear
      rename_i hlong
      obtain ⟨hpos, hback, hmax, hfits, hsame⟩ := hbest hlong
      dsimp only at hpos hback hmax hfits hsame
      have hnext := hknown.take (copyBytes pos len) len
      rw [hbit]
      obtain ⟨ts, hw⟩ := ih (i + 1) flags hnext (by simp only [remember_srcOff, hoff]; exact hfits) (by omega)
      refine ⟨.copy pos len :: ts, ?_, ?_, ?_, ?_, hw.known, hw.inside, ?_⟩
      · exact Nat.succ_le_succ hw.few
      · rcases hw.all with hall | hend
        · exact Or.inl (congrArg Nat.succ hall)
        · exact Or.inr hend
      · rw [hw.flags, flagBits, bit, Nat.pow_succ, Nat.zero_add, Nat.mul_assoc]
      · rw [hw.out]
        simp only [remember_out, hout, List.flatMap_cons, tokenBytes, List.append_assoc]
      · intro rest hrest
        have htail := hw.tells rest hrest
        simp only [remember_srcOff, hoff] at htail
        exact .copy hpos hback ⟨hlong, hmax⟩ hfits hsame htail
    · -- a byte: its flag is set
      have hnext := hknown.take [at' data e1.srcOff] 1
      have hor : flags ||| 2 ^ i = flags + 2 ^ i := by
        have hadd := Nat.two_pow_add_eq_or_of_lt hflags 1
        rw [Nat.mul_one] at hadd
        rw [Nat.or_comm, ← hadd, Nat.add_comm]
      rw [hbit, hor]
      obtain ⟨ts, hw⟩ := ih (i + 1) (flags + 2 ^ i) hnext (by simp only [remember_srcOff, hoff]; omega) hpow
      refine ⟨.lit (at' data e1.srcOff) :: ts, ?_, ?_, ?_, ?_, hw.known, hw.inside, ?_⟩
      · exact Nat.succ_le_succ hw.few
      · rcases hw.all with hall | hend
        · exact Or.inl (congrArg Nat.succ hall)
        · exact Or.inr hend
      · rw [hw.flags, flagBits, bit, Nat.pow_succ, Nat.mul_add, Nat.mul_one, Nat.mul_assoc, Nat.add_assoc]
      · rw [hw.out]
        simp only [remember_out, hout, List.flatMap_cons, tokenBytes, List.append_assoc]
      · intro rest hrest
        have htail := hw.tells rest hrest
        simp only [remember_srcOff, hoff] at htail ⊢
        refine .lit ?_ htail
        rw [at', List.getD_eq_getElem?_getD, List.getElem?_eq_getElem (by omega), Option.getD_some]

/-- A group's flag byte and tokens. -/
theorem encodeGroup_out (maxCandidates : Int) (h : Known data e e.srcOff) (hin : e.srcOff ≤ data.length) :
    ∃ ts, Wrote data 8 0 0 e (flagBits ts, { encodeGroup data maxCandidates e with out := e.out ++ ts.flatMap tokenBytes }) ts ∧
      (encodeGroup data maxCandidates e).out = e.out ++ UInt8.ofNat (flagBits ts) :: ts.flatMap tokenBytes := by
  obtain ⟨ts, hw⟩ :=
    groupLoop_wrote maxCandidates (e := { e with out := e.out ++ [0] }) 8 0 0 ⟨h.sorted, h.stands⟩ hin (by decide)
  unfold encodeGroup
  rw [Nat.pow_zero] at hw
  generalize groupLoop data maxCandidates 8 0 1 { e with out := e.out ++ [0] } = r at *
  obtain ⟨flags, e'⟩ := r
  have hflags : flags = flagBits ts := by
    have := hw.flags
    rw [Nat.pow_zero, Nat.one_mul, Nat.zero_add] at this
    exact this
  have hout : e'.out = e.out ++ [0] ++ ts.flatMap tokenBytes := hw.out
  refine ⟨ts, ⟨hw.few, hw.all, by simp, rfl, ⟨hw.known.sorted, hw.known.stands⟩, hw.inside, hw.tells⟩, ?_⟩
  dsimp only
  rw [hflags, hout, List.append_assoc, List.set_append_right _ _ (Nat.le_refl _), Nat.sub_self]
  rfl

/-- What the encoder writes from here on tells the rest of the data. -/
theorem encodeLoop_tells (h : Known data e e.srcOff) (hin : e.srcOff ≤ data.length) :
    ∃ ts, Told data e.srcOff ts ∧ encodeLoop data maxCandidates e = e.out ++ emit 0 ts := by
  fun_induction encodeLoop data maxCandidates e with
  | case1 e hmore ih =>
    obtain ⟨ts, hw, hout⟩ := encodeGroup_out maxCandidates h hin
    have hprogress := encodeGroup_progress data maxCandidates e hmore
    obtain ⟨rest, hrest, hloop⟩ := ih ⟨hw.known.sorted, hw.known.stands⟩ hw.inside
    refine ⟨ts ++ rest, hw.tells rest hrest, ?_⟩
    have hne : ts ≠ [] := by
      rintro rfl
      rcases hw.all with hall | hend
      · cases hall
      · have hdone : Told data (encodeGroup data maxCandidates e).srcOff [] := by
          rw [Nat.le_antisymm hw.inside hend]
          exact .done
        have hnow := (hw.tells [] hdone).eq_of_nil
        omega
    have hfull : ts.length = 8 ∨ rest = [] := by
      rcases hw.all with hall | hend
      · exact Or.inl hall
      · exact Or.inr (hrest.nil_of_le (by decide) hend)
    rw [hloop, hout, emit_group hne hw.few hfull, List.append_assoc]
    rfl
  | case2 e hend =>
    have heq : e.srcOff = data.length := Nat.le_antisymm hin (Nat.le_of_not_lt hend)
    refine ⟨[], ?_, by rw [emit, List.append_nil]⟩
    rw [heq]
    exact .done

/-- The encoder's output tells its data. -/
theorem encodeLzss_tells (data : List UInt8) (maxCandidates : Int) :
    ∃ ts, Told data 0 ts ∧ encodeLzss data maxCandidates = emit 0 ts := by
  have hstart : Known data ⟨fun _ => [], [], 0⟩ 0 := ⟨fun _ => List.Pairwise.nil, fun _ _ hp => by cases hp⟩
  exact encodeLoop_tells hstart (Nat.zero_le _)

end Encode

/-! ## What the decoder makes of it -/

section Decode

variable {data src : List UInt8} {limit : Option Nat} {d : Decoder}

/-- `p` bytes are out, and the ring holds the last of them. -/
structure Track (data : List UInt8) (p : Nat) (d : Decoder) : Prop where
  out : d.out = data.take p
  ring : Holds lzssRingSize lzssStartR d.text d.out
  ringIndex : d.ringIndex = slot 0 lzssRingSize (lzssStartR + p)

theorem and_mask (x : Nat) : x &&& lzssRingMask = slot 0 lzssRingSize x := by
  rw [slot, Nat.zero_add]
  exact Nat.and_two_pow_sub_one_eq_mod x 12

theorem Track.emit {p : Nat} {b : UInt8} (h : Track data p d) (hb : data[p]? = some b) : Track data (p + 1) (d.emit b) := by
  obtain ⟨hin, -⟩ := List.getElem?_eq_some_iff.mp hb
  have hlen : d.out.length = p := by
    rw [h.out, List.length_take]
    omega
  constructor
  · show d.out ++ [b] = _
    rw [h.out, List.take_add_one, hb]
    rfl
  · have hpush := h.ring.push (b := b)
    rw [hlen, ← h.ringIndex] at hpush
    exact hpush
  · show (d.ringIndex + 1) &&& lzssRingMask = _
    rw [and_mask, h.ringIndex]
    simp only [slot, Nat.zero_add, Nat.mod_add_mod, Nat.add_assoc]

theorem Track.length {p : Nat} (h : Track data p d) (hin : p ≤ data.length) : d.out.length = p := by
  rw [h.out, List.length_take]
  omega

theorem Track.full_iff {p : Nat} (h : Track data p d) (limit : Option Nat) (hin : p ≤ data.length) :
    full limit d.out = true ↔ ∃ L, limit = some L ∧ L ≤ p := by
  cases limit with
  | none => simp [full]
  | some L => simp [full, h.length hin]

/-- Where not enough is out, more was asked for. -/
theorem Track.room {p : Nat} (h : Track data p d) (hin : p ≤ data.length) (hroom : full limit d.out = false) (L : Nat)
    (hL : limit = some L) : p < L := by
  refine Nat.lt_of_not_le fun hreached => ?_
  rw [(h.full_iff limit hin).mpr ⟨L, hL, hreached⟩] at hroom
  cases hroom

/-- The copy goes on with the data, until it is done or enough is out. -/
theorem copyLoop_track {p pos : Nat} (n k : Nat) (h : Track data (p + k) d) (hpos : pos < p) (hback : p ≤ pos + lzssRingSize)
    (hin : p + (k + n) ≤ data.length) (hsame : ∀ j < k + n, data[pos + j]? = data[p + j]?) (hroom : full limit d.out = false)
    {matchPos : Nat} (hmatch : slot 0 lzssRingSize matchPos = slot 0 lzssRingSize (lzssStartR + (pos + k))) :
    ∃ m ≤ n, Track data (p + (k + m)) (copyLoop limit n matchPos d) ∧ (m = n ∨ limit = some (p + (k + m))) ∧
      (∀ L, limit = some L → p + (k + m) ≤ L) ∧ (copyLoop limit n matchPos d).flags = d.flags := by
  induction n generalizing k d matchPos with
  | zero =>
    refine ⟨0, Nat.le_refl _, h, Or.inl rfl, ?_, rfl⟩
    intro L hL
    exact Nat.le_of_lt (h.room hin hroom L hL)
  | succ n ih =>
    have hlt : p + k < data.length := by omega
    have hring : d.text (matchPos &&& lzssRingMask) = data[p + k] := by
      have hheld := h.ring
      rw [h.out] at hheld
      rw [and_mask, hmatch]
      exact hheld.next hlt hpos hback (hsame k (by omega))
    have hnext : Track data (p + (k + 1)) (d.emit (d.text (matchPos &&& lzssRingMask))) := by
      rw [hring]
      exact h.emit (List.getElem?_eq_getElem hlt)
    have hfull := hnext.full_iff limit (by omega)
    have hstep : slot 0 lzssRingSize (matchPos + 1) = slot 0 lzssRingSize (lzssStartR + (pos + (k + 1))) := by
      have hshift : lzssStartR + (pos + (k + 1)) = lzssStartR + (pos + k) + 1 := by omega
      rw [hshift, Lib.Ring.slot_add, Lib.Ring.slot_add (lzssStartR + (pos + k)), hmatch]
    unfold copyLoop
    dsimp only
    by_cases hstop : full limit (d.emit (d.text (matchPos &&& lzssRingMask))).out = true
    · rw [if_pos hstop]
      obtain ⟨L, hL, hle⟩ := hfull.mp hstop
      have hbelow := h.room (Nat.le_of_lt hlt) hroom L hL
      have heq : L = p + (k + 1) := Nat.le_antisymm hle hbelow
      rw [heq] at hL
      exact ⟨1, Nat.succ_le_succ (Nat.zero_le n), hnext, Or.inr hL, fun M hM => Nat.le_of_eq (Option.some.inj (hL.symm.trans hM)),
        rfl⟩
    · rw [if_neg hstop]
      obtain ⟨m, hm, htrack, hdone, hbound, hflags⟩ := ih (k + 1) hnext (by omega) (fun j hj => hsame j (by omega))
        (Bool.eq_false_iff.mpr hstop) hstep
      have hcount : k + 1 + m = k + (m + 1) := by omega
      rw [hcount] at htrack hdone hbound
      refine ⟨m + 1, Nat.succ_le_succ hm, htrack, ?_, hbound, hflags⟩
      rcases hdone with hall | hreached
      · exact Or.inl (by omega)
      · exact Or.inr hreached

/-! ### Flags -/

/-- Between tokens, with `k` flags left in the group. -/
def Flagged (k flags : Nat) (ts : List (Token UInt8)) : Prop :=
  match k with
  | 0 => (flags >>> 1) &&& 0x100 = 0
  | k + 1 => flags >>> 1 = flagBits (ts.take (k + 1)) + 255 * 2 ^ (k + 1)

/-- At a token, with `k` more flags after its own. -/
def AtToken (k flags : Nat) (t : Token UInt8) (ts : List (Token UInt8)) : Prop :=
  flags = bit t + 2 * (flagBits (ts.take k) + 255 * 2 ^ k)

theorem AtToken.flag {k flags : Nat} {t : Token UInt8} {ts : List (Token UInt8)} (h : AtToken k flags t ts) :
    flags &&& 1 = bit t := by
  have hbit : bit t ≤ 1 := by cases t <;> simp [bit]
  rw [Nat.and_one_is_mod, h]
  omega

theorem AtToken.flagged {k flags : Nat} {t : Token UInt8} {ts : List (Token UInt8)} (h : AtToken k flags t ts) :
    Flagged k flags ts := by
  have hbit : bit t ≤ 1 := by cases t <;> simp [bit]
  have hhalf : flags >>> 1 = flagBits (ts.take k) + 255 * 2 ^ k := by
    rw [Nat.shiftRight_eq_div_pow, h]
    omega
  cases k with
  | zero =>
    rw [Flagged, hhalf, List.take_zero]
    decide
  | succ k => exact hhalf

theorem and_0x100 (x : Nat) : x &&& 0x100 = 0 ↔ x / 256 % 2 = 0 := by
  have hand := Nat.and_two_pow x 8
  have htest := Nat.testBit_eq_decide_div_mod_eq (x := x) (i := 8)
  rw [show (0x100 : Nat) = 2 ^ 8 from rfl, hand, htest]
  simp

set_option maxRecDepth 4000 in
theorem and_0xF0 : ∀ y < 256, y &&& 0xF0 = 2 ^ 4 * (y / 16) := by decide

theorem ofNat_toNat {x : Nat} (h : x < 256) : (UInt8.ofNat x).toNat = x := by
  rw [UInt8.toNat_ofNat']
  exact Nat.mod_eq_of_lt h

theorem at'_mid (pre rest : List UInt8) (b : UInt8) : at' (pre ++ b :: rest) pre.length = b := by
  rw [← Nat.add_zero pre.length, Lib.at'_append_right]
  rfl

/-- At a token: where its bytes are, and what follows them. -/
structure Begun (src : List UInt8) (d d' : Decoder) (t : Token UInt8) (ts : List (Token UInt8)) (k : Nat)
    (pre : List UInt8) : Prop where
  token : d' = { d with flags := d'.flags, srcOff := pre.length, mode := .token }
  left : k ≤ 7
  flags : AtToken k d'.flags t ts
  bytes : src = pre ++ (tokenBytes t ++ emit k ts)

section Begun

variable {d' : Decoder} {t : Token UInt8} {ts : List (Token UInt8)} {k : Nat} {pre : List UInt8}

theorem Begun.mode (h : Begun src d d' t ts k pre) : d'.mode = .token := by rw [h.token]

theorem Begun.srcOff (h : Begun src d d' t ts k pre) : d'.srcOff = pre.length := by rw [h.token]

theorem Begun.room (h : Begun src d d' t ts k pre) (hroom : full limit d.out = false) : full limit d'.out = false := by
  rw [h.token]
  exact hroom

theorem Begun.track {p : Nat} (h : Begun src d d' t ts k pre) (htrack : Track data p d) : Track data p d' := by
  rw [h.token]
  exact ⟨htrack.out, htrack.ring, htrack.ringIndex⟩

end Begun

/-- The flag of the next token comes from the group's byte, or from a new group's. -/
theorem decodeStep_flag (limit : Option Nat) {t : Token UInt8} {ts : List (Token UInt8)} {k : Nat} {pre : List UInt8}
    (hmode : d.mode = .flag)
    (hk : k ≤ 7) (hflags : Flagged k d.flags (t :: ts)) (hsrc : src = pre ++ emit k (t :: ts)) (hoff : d.srcOff = pre.length) :
    ∃ k' pre', Begun src d (decodeStep src limit d) t ts k' pre' := by
  unfold decodeStep
  simp only [hmode]
  cases k with
  | zero =>
    rw [Flagged] at hflags
    rw [emit] at hsrc
    rw [if_pos hflags, hoff, hsrc, at'_mid]
    refine ⟨7, pre ++ [UInt8.ofNat (flagBits (t :: ts.take 7))], ?_, Nat.le_refl 7, ?_, ?_⟩
    · rw [List.length_append]
      rfl
    · have hlt := flagBits_lt (t :: ts.take 7)
      have hlen := List.length_take_le 7 ts
      have hpow : 2 ^ (t :: ts.take 7).length ≤ 2 ^ 8 := Nat.pow_le_pow_right (by decide) (Nat.succ_le_succ hlen)
      have hbyte : flagBits (t :: ts.take 7) < 2 ^ 8 := Nat.lt_of_lt_of_le hlt hpow
      have hor := Nat.two_pow_add_eq_or_of_lt hbyte 255
      show (UInt8.ofNat (flagBits (t :: ts.take 7))).toNat ||| 0xFF00 = _
      rw [ofNat_toNat hbyte, Nat.or_comm, show (0xFF00 : Nat) = 2 ^ 8 * 255 from rfl, ← hor, flagBits]
      omega
    · rw [List.append_assoc]
      rfl
  | succ k =>
    rw [Flagged] at hflags
    have hlt := flagBits_lt ((t :: ts).take (k + 1))
    have hpow : 2 ^ ((t :: ts).take (k + 1)).length ≤ 2 ^ (k + 1) := Nat.pow_le_pow_right (by decide) (List.length_take_le _ _)
    have hset : ¬ (d.flags >>> 1) &&& 0x100 = 0 := by
      rw [and_0x100, hflags]
      have hsmall : flagBits ((t :: ts).take (k + 1)) < 2 ^ (k + 1) := Nat.lt_of_lt_of_le hlt hpow
      generalize flagBits ((t :: ts).take (k + 1)) = x at hsmall ⊢
      have hcases : k = 0 ∨ k = 1 ∨ k = 2 ∨ k = 3 ∨ k = 4 ∨ k = 5 ∨ k = 6 := by omega
      rcases hcases with rfl | rfl | rfl | rfl | rfl | rfl | rfl <;> omega
    rw [if_neg hset]
    refine ⟨k, pre, ?_, Nat.le_of_succ_le hk, ?_, hsrc⟩
    · rw [hoff]
    · show d.flags >>> 1 = _
      rw [hflags, List.take_succ_cons, flagBits, Nat.pow_succ]
      omega

/-- What the bytes of a copy are read as. -/
theorem copyBytes_read (pos : Nat) {len : Nat} (hlen : 3 ≤ len ∧ len ≤ 18) :
    ∃ low high, copyBytes pos len = [low, high] ∧
      low.toNat ||| ((high.toNat &&& 0xF0) <<< 4) = slot 0 lzssRingSize (lzssStartR + pos) ∧
        (high.toNat &&& 0x0F) + lzssMinMatch = len := by
  have hindex : ringIndexForOutputPos pos = slot 0 lzssRingSize (lzssStartR + pos) := and_mask _
  have hlt : slot 0 lzssRingSize (lzssStartR + pos) < 4096 := Lib.Ring.slot_lt (o := 0) (n := lzssRingSize) (by decide) _
  unfold copyBytes
  rw [hindex]
  generalize slot 0 lzssRingSize (lzssStartR + pos) = x at *
  have hlow : x &&& 0xFF = x % 256 := Nat.and_two_pow_sub_one_eq_mod x 8
  have hhigh : ((x >>> 4) &&& 0xF0) ||| (len - lzssMinMatch) = 2 ^ 4 * (x / 256) + (len - 3) := by
    have hor := Nat.two_pow_add_eq_or_of_lt (show len - 3 < 2 ^ 4 by omega) (x / 256)
    rw [Nat.shiftRight_eq_div_pow, and_0xF0 _ (by omega), Nat.div_div_eq_div_mul, hor]
    rfl
  refine ⟨_, _, rfl, ?_, ?_⟩
  · have hor := Nat.two_pow_add_eq_or_of_lt (show x % 256 < 2 ^ 8 by omega) (x / 256)
    rw [hlow, hhigh, ofNat_toNat (by omega), ofNat_toNat (by omega), and_0xF0 _ (by omega), Nat.shiftLeft_eq, Nat.or_comm,
      show 2 ^ 4 * ((2 ^ 4 * (x / 256) + (len - 3)) / 16) * 2 ^ 4 = 2 ^ 8 * (x / 256) by omega, ← hor]
    omega
  · have hmask : (2 ^ 4 * (x / 256) + (len - 3)) &&& 0x0F = (2 ^ 4 * (x / 256) + (len - 3)) % 16 :=
      Nat.and_two_pow_sub_one_eq_mod _ 4
    rw [hhigh, ofNat_toNat (by omega), hmask]
    unfold lzssMinMatch
    omega

theorem decodeLoop_next (hoff : d.srcOff < src.length) (hroom : full limit d.out = false) :
    decodeLoop src limit d = decodeLoop src limit (decodeStep src limit d) := by
  rw [decodeLoop, dif_pos hoff, hroom]
  rfl

/-- Nothing more comes out. -/
theorem decodeLoop_stop (h : src.length ≤ d.srcOff ∨ full limit d.out = true) : decodeLoop src limit d = d := by
  rw [decodeLoop]
  split
  · rename_i hoff
    rcases h with hend | hfull
    · exact absurd hoff (Nat.not_lt.mpr hend)
    · rw [if_pos hfull]
  · rfl

theorem decodeLoop_begin {t : Token UInt8} {ts : List (Token UInt8)} {k : Nat} {pre : List UInt8} (hmode : d.mode = .flag)
    (hk : k ≤ 7) (hflags : Flagged k d.flags (t :: ts)) (hsrc : src = pre ++ emit k (t :: ts)) (hoff : d.srcOff = pre.length)
    (hroom : full limit d.out = false) :
    ∃ d' k' pre', decodeLoop src limit d = decodeLoop src limit d' ∧ Begun src d d' t ts k' pre' := by
  obtain ⟨k', pre', hbegun⟩ := decodeStep_flag limit hmode hk hflags hsrc hoff
  have hmore : d.srcOff < src.length := by
    rw [hsrc, hoff]
    cases k with
    | zero => simp [emit]
    | succ k => cases t <;> simp [emit, tokenBytes, copyBytes]
  exact ⟨decodeStep src limit d, k', pre', decodeLoop_next hmore hroom, hbegun⟩

/-- What should come of it: all the data and the whole stream, or as much as was asked for. -/
def Decoded (data src : List UInt8) (limit : Option Nat) (d : Decoder) : Prop :=
  match limit with
  | none => d.out = data ∧ d.srcOff = src.length
  | some L => d.out = data.take L

/-- No more was asked for than is there, and no less than is out. -/
def Asked (data : List UInt8) (limit : Option Nat) (p : Nat) : Prop := ∀ L, limit = some L → p ≤ L ∧ L ≤ data.length

/-- Once enough is out, the loop ends. -/
theorem decoded_of_full {p : Nat} (htrack : Track data p d) (hin : p ≤ data.length) (hasked : Asked data limit p)
    (hfull : full limit d.out = true) : Decoded data src limit (decodeLoop src limit d) := by
  rw [decodeLoop_stop (Or.inr hfull)]
  obtain ⟨L, rfl, hle⟩ := (htrack.full_iff limit hin).mp hfull
  obtain ⟨hge, -⟩ := hasked L rfl
  rw [Nat.le_antisymm hge hle] at htrack
  exact htrack.out

/-- A byte of the stream comes out. -/
theorem decodeLoop_lit {p k : Nat} {b : UInt8} {ts : List (Token UInt8)} {pre : List UInt8} (hb : data[p]? = some b)
    (htrack : Track data p d) (hmode : d.mode = .token) (hflags : AtToken k d.flags (.lit b) ts)
    (hsrc : src = pre ++ (tokenBytes (.lit b) ++ emit k ts)) (hoff : d.srcOff = pre.length) (hroom : full limit d.out = false) :
    ∃ d', decodeLoop src limit d = decodeLoop src limit d' ∧ Track data (p + 1) d' ∧ d'.mode = .flag ∧ Flagged k d'.flags ts ∧
      src = (pre ++ [b]) ++ emit k ts ∧ d'.srcOff = (pre ++ [b]).length := by
  have hbyte : at' src d.srcOff = b := by
    rw [hsrc, hoff]
    exact at'_mid pre (emit k ts) b
  have hmore : d.srcOff < src.length := by
    rw [hsrc, hoff, tokenBytes]
    simp
  have hset : d.flags &&& 1 ≠ 0 := by
    rw [hflags.flag]
    exact Nat.one_ne_zero
  have hstep : decodeStep src limit d = { d.emit b with srcOff := d.srcOff + 1, mode := .flag } := by
    simp only [decodeStep, hmode, hbyte]
    rw [if_pos hset]
  have hemit := htrack.emit hb
  refine ⟨{ d.emit b with srcOff := d.srcOff + 1, mode := .flag }, ?_, ⟨hemit.out, hemit.ring, hemit.ringIndex⟩, rfl,
    hflags.flagged,
    ?_, ?_⟩
  · rw [decodeLoop_next hmore hroom, hstep]
  · rw [hsrc, tokenBytes, List.append_assoc]
  · rw [List.length_append, ← hoff]
    rfl

/-- A copy comes out, or as much of it as was asked for. -/
theorem decodeLoop_copy {p pos len k : Nat} {ts : List (Token UInt8)} {pre : List UInt8} (hbehind : pos < p)
    (hback : p ≤ pos + lzssRingSize) (hlong : lzssMinMatch ≤ len ∧ len ≤ lzssMaxMatch) (hfits : p + len ≤ data.length)
    (hsame : ∀ j < len, data[pos + j]? = data[p + j]?) (htrack : Track data p d) (hmode : d.mode = .token)
    (hflags : AtToken k d.flags (.copy pos len) ts) (hsrc : src = pre ++ (copyBytes pos len ++ emit k ts))
    (hoff : d.srcOff = pre.length) (hroom : full limit d.out = false) :
    ∃ d' m, decodeLoop src limit d = decodeLoop src limit d' ∧ m ≤ len ∧ Track data (p + m) d' ∧
      (m = len ∨ limit = some (p + m)) ∧
      (∀ L, limit = some L → p + m ≤ L) ∧ d'.mode = .flag ∧ Flagged k d'.flags ts ∧
        src = (pre ++ copyBytes pos len) ++ emit k ts ∧
      d'.srcOff = (pre ++ copyBytes pos len).length := by
  obtain ⟨low, high, hbytes, hmatch, hlen⟩ := copyBytes_read pos hlong
  rw [hbytes] at hsrc ⊢
  have hlow : at' src d.srcOff = low := by
    rw [hsrc, hoff]
    exact at'_mid pre (high :: emit k ts) low
  have hhigh : at' src (d.srcOff + 1) = high := by
    have hsplit : src = (pre ++ [low]) ++ high :: emit k ts := by
      rw [hsrc, List.append_assoc]
      rfl
    have hcount : d.srcOff + 1 = (pre ++ [low]).length := by
      rw [List.length_append, ← hoff]
      rfl
    rw [hcount, hsplit]
    exact at'_mid (pre ++ [low]) (emit k ts) high
  have hmore : d.srcOff + 1 < src.length := by
    rw [hsrc, hoff]
    simp
  have hclear : ¬ (d.flags &&& 1 ≠ 0) := by
    rw [hflags.flag]
    exact not_not_intro rfl
  have hfirst : decodeStep src limit d = { d with low := low.toNat, srcOff := d.srcOff + 1, mode := .copy } := by
    simp only [decodeStep, hmode, hlow]
    rw [if_neg hclear]
  have hsecond : decodeStep src limit { d with low := low.toNat, srcOff := d.srcOff + 1, mode := .copy } =
      { copyLoop limit len (slot 0 lzssRingSize (lzssStartR + pos))
          { d with low := low.toNat, srcOff := d.srcOff + 1, mode := .copy } with
        srcOff := d.srcOff + 1 + 1, mode := .flag } := by
    simp only [decodeStep, hhigh, hmatch, hlen]
  obtain ⟨m, hm, htaken, hdone, hbound, hkept⟩ :=
    copyLoop_track (d := { d with low := low.toNat, srcOff := d.srcOff + 1, mode := .copy }) (p := p) len 0
      ⟨htrack.out, htrack.ring, htrack.ringIndex⟩ hbehind hback (by omega) (fun j hj => hsame j (by omega)) hroom
      (show slot 0 lzssRingSize (slot 0 lzssRingSize (lzssStartR + pos)) = _ by simp [slot])
  rw [Nat.zero_add] at htaken hdone hbound
  refine ⟨{ copyLoop limit len (slot 0 lzssRingSize (lzssStartR + pos))
        { d with low := low.toNat, srcOff := d.srcOff + 1, mode := .copy } with
      srcOff := d.srcOff + 1 + 1, mode := .flag }, m, ?_, hm, ⟨htaken.out, htaken.ring, htaken.ringIndex⟩, hdone, hbound, rfl,
      ?_, ?_, ?_⟩
  · rw [decodeLoop_next (Nat.lt_of_succ_lt hmore) hroom, hfirst]
    exact (decodeLoop_next (d := { d with low := low.toNat, srcOff := d.srcOff + 1, mode := .copy }) hmore hroom).trans
      (congrArg (decodeLoop src limit) hsecond)
  · show Flagged k (copyLoop limit len _ _).flags ts
    rw [hkept]
    exact hflags.flagged
  · rw [hsrc, List.append_assoc]
  · rw [List.length_append, ← hoff]
    rfl

/-- Decoding what tells the rest of some data gives the data, or as much as was asked for. -/
theorem decodeLoop_tells {p k : Nat} {ts : List (Token UInt8)} {pre : List UInt8} (h : Told data p ts) (htrack : Track data p d)
    (hmode : d.mode = .flag) (hk : k ≤ 7) (hflags : Flagged k d.flags ts) (hsrc : src = pre ++ emit k ts)
    (hoff : d.srcOff = pre.length) (hasked : Asked data limit p) : Decoded data src limit (decodeLoop src limit d) := by
  induction h generalizing d k pre with
  | done =>
    have hend : src.length = d.srcOff := by rw [hsrc, hoff, emit, List.append_nil]
    rw [decodeLoop_stop (Or.inl (Nat.le_of_eq hend))]
    have hout := htrack.out
    cases limit with
    | none =>
      rw [List.take_length] at hout
      exact ⟨hout, hend.symm⟩
    | some L =>
      obtain ⟨hle, hin⟩ := hasked L rfl
      rw [Nat.le_antisymm hle hin] at hout
      exact hout
  | @lit p b rest here tail ih =>
    have hin : p ≤ data.length := Nat.le_of_succ_le tail.le
    by_cases hstop : full limit d.out = true
    · exact decoded_of_full htrack hin hasked hstop
    have hroom := Bool.eq_false_iff.mpr hstop
    obtain ⟨d1, k', pre', hloop, hbegun⟩ := decodeLoop_begin hmode hk hflags hsrc hoff hroom
    obtain ⟨d', hloop', h1, h2, h3, h4, h5⟩ := decodeLoop_lit here (hbegun.track htrack) hbegun.mode hbegun.flags hbegun.bytes
      hbegun.srcOff (hbegun.room hroom)
    rw [hloop, hloop']
    refine ih h1 h2 hbegun.left h3 h4 h5 ?_
    intro L hL
    exact ⟨htrack.room hin hroom L hL, (hasked L hL).2⟩
  | @copy p pos len rest behind back long fits same tail ih =>
    have hin : p ≤ data.length := Nat.le_trans (Nat.le_add_right p len) fits
    by_cases hstop : full limit d.out = true
    · exact decoded_of_full htrack hin hasked hstop
    have hroom := Bool.eq_false_iff.mpr hstop
    obtain ⟨d1, k', pre', hloop, hbegun⟩ := decodeLoop_begin hmode hk hflags hsrc hoff hroom
    obtain ⟨d', m, hloop', hm, h1, hdone, hbound, h2, h3, h4, h5⟩ := decodeLoop_copy behind back long fits same
      (hbegun.track htrack) hbegun.mode hbegun.flags hbegun.bytes hbegun.srcOff (hbegun.room hroom)
    have hasked' : Asked data limit (p + m) := fun L hL => ⟨hbound L hL, (hasked L hL).2⟩
    rw [hloop, hloop']
    rcases hdone with rfl | hreached
    · exact ih h1 h2 hbegun.left h3 h4 h5 hasked'
    · have hfits' : p + m ≤ data.length := Nat.le_trans (Nat.add_le_add_left hm p) fits
      exact decoded_of_full h1 hfits' hasked' ((h1.full_iff limit hfits').mpr ⟨p + m, hreached, Nat.le_refl _⟩)

end Decode

/-- For all data and every bound on the search, decoding the encoding gives the data and takes
    the whole of it; and as much as is asked for, when less is asked for. -/
theorem lzss_round_trip (data : List UInt8) (maxCandidates : Int) :
    decodeLzss (encodeLzss data maxCandidates) none = (data, (encodeLzss data maxCandidates).length) ∧
      ∀ n, 1 ≤ n → n ≤ data.length → (decodeLzss (encodeLzss data maxCandidates) (some n)).1 = data.take n := by
  obtain ⟨ts, htold, hbytes⟩ := encodeLzss_tells data maxCandidates
  have hstart : Track data 0 ⟨fun _ => 0, lzssStartR, 0, .flag, 0, 0, []⟩ := ⟨rfl, Holds.nil, rfl⟩
  have hsrc : encodeLzss data maxCandidates = [] ++ emit 0 ts := hbytes
  have hload : Flagged 0 0 ts := by rw [Flagged]; decide
  have hdecoded : ∀ limit, Asked data limit 0 → Decoded data (encodeLzss data maxCandidates) limit
      (decodeLoop (encodeLzss data maxCandidates) limit ⟨fun _ => 0, lzssStartR, 0, .flag, 0, 0, []⟩) :=
    fun limit hasked => decodeLoop_tells htold hstart rfl (Nat.zero_le 7) hload hsrc rfl hasked
  constructor
  · obtain ⟨hout, hoff⟩ := hdecoded none (fun _ hL => by cases hL)
    exact Prod.ext hout hoff
  · intro n _ hn
    refine hdecoded (some n) ?_
    intro L hL
    cases hL
    exact ⟨Nat.zero_le n, hn⟩

/-- Three bytes of a run of four. -/
theorem lzss_run : (decodeLzss (encodeLzss [0x61, 0x61, 0x61, 0x61] 256) (some 3)).1 = [0x61, 0x61, 0x61] :=
  (lzss_round_trip [0x61, 0x61, 0x61, 0x61] 256).2 3 (by decide) (by decide)

end Be300.Nk
