/-
  Be300.Wifi.Download — the firmware the host loads into the card.

  A `Block` is announced with its length, written to the data register in any pieces, and
  submitted. From a reset, the card is ready exactly when the blocks are an `Image`: the
  helper, an empty block, the records and the last header (`ready_iff`). Blocks that are
  neither an image nor the start of one have made it fail (`deviates`), and it stays failed
  (`failed_stays`). A record without a payload is a deviation.
-/

import Be300.Wifi.Card
import Mathlib.Data.List.Induction
import Mathlib.Data.Option.Basic

namespace Be300.Wifi

open Card (le32 bytesOf)

/-! ## Images -/

def IsHelper (b : List UInt8) : Prop := b ≠ [] ∧ b.length % 2 = 0 ∧ b.length ≤ 256

def IsHeader (b : List UInt8) (command length : Nat) : Prop := b.length = 16 ∧ le32 b 0 = command ∧ le32 b 8 = length

/-- A header and the payload that it announces. -/
def IsRecord (r : List UInt8 × List UInt8) : Prop :=
  IsHeader r.1 1 r.2.length ∧ r.2.length % 2 = 0 ∧ r.2.length ≤ wl54cfBuffer

def IsFullRecord (r : List UInt8 × List UInt8) : Prop := IsRecord r ∧ r.2 ≠ []

/-- All bytes of a list of blocks. -/
def total (blocks : List (List UInt8)) : Nat := (blocks.map List.length).sum

def recordBlocks (records : List (List UInt8 × List UInt8)) : List (List UInt8) := records.flatMap fun r => [r.1, r.2]

/-- An image, `Rec` saying what its records are. -/
def Image (Rec : List UInt8 × List UInt8 → Prop) (blocks : List (List UInt8)) : Prop :=
  ∃ helpers records last, blocks = helpers ++ [[]] ++ recordBlocks records ++ [last] ∧
    helpers ≠ [] ∧ (∀ h ∈ helpers, IsHelper h) ∧ total helpers ≤ 65536 ∧
    records ≠ [] ∧ (∀ r ∈ records, Rec r) ∧ IsHeader last 4 0 ∧ total (recordBlocks records ++ [last]) ≤ 512 * 1024

/-- The start of an image: some of its helper, or all of it and some records, perhaps with
    the header of the next. -/
inductive Start : List (List UInt8) → Prop
  | helper {helpers : List (List UInt8)} : (∀ h ∈ helpers, IsHelper h) → total helpers ≤ 65536 → Start helpers
  | records {helpers : List (List UInt8)} {records : List (List UInt8 × List UInt8)} :
      helpers ≠ [] → (∀ h ∈ helpers, IsHelper h) → total helpers ≤ 65536 → (∀ r ∈ records, IsFullRecord r) →
      total (recordBlocks records) ≤ 512 * 1024 → Start (helpers ++ [[]] ++ recordBlocks records)
  | header {helpers : List (List UInt8)} {records : List (List UInt8 × List UInt8)} {header : List UInt8} {n : Nat} :
      helpers ≠ [] → (∀ h ∈ helpers, IsHelper h) → total helpers ≤ 65536 → (∀ r ∈ records, IsFullRecord r) →
      IsHeader header 1 n → n ≠ 0 → n % 2 = 0 → n ≤ wl54cfBuffer → total (recordBlocks records ++ [header]) ≤ 512 * 1024 →
      Start (helpers ++ [[]] ++ recordBlocks records ++ [header])

/-! ## Blocks -/

/-- The length a block is announced with, and the writes of its data: sizes and values. -/
structure Block where
  length : Nat
  writes : List (Nat × Nat)

def Block.bytes (b : Block) : List UInt8 := b.writes.flatMap fun w => if 0 < w.1 ∧ w.1 ≤ 8 then bytesOf w.1 w.2 else []

/-- The bytes of a block that is written in full and fits the buffer. -/
def Block.content (b : Block) : Option (List UInt8) :=
  let n := b.length % 65536
  if n ≤ wl54cfBuffer ∧ n ≤ b.bytes.length then some (b.bytes.take n) else none

def Block.accesses (r : Chance) (b : Block) : List Card.Access :=
  .write 0x18 2 b.length r :: b.writes.map (fun w => .write 0x1a w.1 w.2 r) ++
    [.write 0 2 wl54cfCommand r, .write 2 2 wl54cfCommand r]

/-- The card after the blocks. -/
def download (k : Crypto) (r : Chance) (s : Card) (blocks : List Block) : Checked Card :=
  Card.run k s (blocks.flatMap (Block.accesses r))

/-! ## The loader -/

/-- What the download keeps of itself. -/
structure Loader where
  stage : Nat
  request : Nat
  payload : Nat
  helperBytes : Nat
  firmwareBytes : Nat
  deriving DecidableEq

def Card.loader (s : Card) : Loader := ⟨s.firmwareStage, s.request, s.firmwarePayload, s.helperBytes, s.firmwareBytes⟩

namespace Loader

def fail (l : Loader) : Loader := { l with stage := 3, request := 0 }

def helper (l : Loader) (n : Nat) : Loader :=
  if n = 0 then
    if l.helperBytes = 0 then l.fail else { l with stage := 1, request := 16 }
  else if n > 256 ∨ n % 2 = 1 ∨ l.helperBytes > 65536 - n then l.fail
  else { l with helperBytes := l.helperBytes + n }

def station (l : Loader) (b : List UInt8) : Loader :=
  if b.length ≠ l.request then l.fail
  else
    let l := { l with firmwareBytes := (l.firmwareBytes + b.length) % 2 ^ 32 }
    if l.firmwareBytes > 512 * 1024 then l.fail
    else if l.payload ≠ 0 then { l with payload := 0, request := 16 }
    else if le32 b 0 = 4 ∧ le32 b 8 = 0 then
      if l.firmwareBytes ≤ 16 then l.fail else { l with stage := 2, request := 0 }
    else if le32 b 0 = 1 ∧ le32 b 8 ≠ 0 ∧ le32 b 8 ≤ wl54cfBuffer ∧ le32 b 8 % 2 = 0 then
      { l with payload := le32 b 8, request := le32 b 8 }
    else l.fail

/-- A block in stages 0 and 1. -/
def step (l : Loader) : Option (List UInt8) → Loader
  | none => l.fail
  | some b => if l.stage = 0 then l.helper b.length else l.station b

end Loader

section Registers

variable {k : Crypto} {r : Chance} {s : Card}

theorem run_cons (x : Card.Access) (accesses : List Card.Access) :
    Card.run k s (x :: accesses) = (Card.step k s x).bind fun t => Card.run k t accesses := rfl

theorem run_nil (x : Checked Card) : (x.bind fun t => Card.run k t []) = x := by
  cases x <;> rfl

theorem run_append (l m : List Card.Access) : Card.run k s (l ++ m) = (Card.run k s l).bind fun t => Card.run k t m := by
  unfold Card.run
  rw [List.foldlM_append]
  rfl

theorem take_take_append (l m : List UInt8) (n : Nat) : (l.take n ++ m).take n = (l ++ m).take n := by
  rw [List.take_append, List.take_append, List.take_take, Nat.min_self, List.length_take]
  congr 2
  omega

/-- A write to the command buffer appends, up to its length. -/
theorem step_data (size v : Nat) (hs : s.command.data.length ≤ min s.command.length wl54cfBuffer) :
    Card.step k s (.write 0x1a size v r) =
      .ok { s with command := { s.command with
        data := (s.command.data ++ (Block.mk 0 [(size, v)]).bytes).take (min s.command.length wl54cfBuffer) } } := by
  have hbytes : (Block.mk 0 [(size, v)]).bytes = if 0 < size ∧ size ≤ 8 then bytesOf size v else [] := by simp [Block.bytes]
  rw [hbytes, List.take_append, List.take_of_length_le hs]
  simp only [Card.step, Card.write]
  by_cases hsize : 0 < size ∧ size ≤ 8
  · rw [if_neg (by omega), if_neg (by decide), if_pos trivial, if_pos hsize]
    rfl
  · rw [if_pos (by omega), if_neg hsize, List.take_nil, List.append_nil]

theorem run_writes (writes : List (Nat × Nat)) (hs : s.command.data.length ≤ min s.command.length wl54cfBuffer) :
    Card.run k s (writes.map fun w => .write 0x1a w.1 w.2 r) =
      .ok { s with command := { s.command with
        data := (s.command.data ++ (Block.mk 0 writes).bytes).take (min s.command.length wl54cfBuffer) } } := by
  induction writes generalizing s with
  | nil =>
    have hnil : (Block.mk 0 []).bytes = [] := rfl
    rw [hnil, List.append_nil, List.take_of_length_le hs]
    rfl
  | cons w writes ih =>
    have hsplit : (Block.mk 0 (w :: writes)).bytes = (Block.mk 0 [w]).bytes ++ (Block.mk 0 writes).bytes := by
      simp [Block.bytes]
    rw [List.map_cons, run_cons, step_data w.1 w.2 hs]
    dsimp only [Except.bind]
    rw [ih (by simp only [List.length_take]; omega), hsplit]
    dsimp only
    rw [take_take_append, List.append_assoc]

/-- The card when a block is submitted. -/
def submitted (s : Card) (b : Block) : Card :=
  { s with command := ⟨b.length % 65536, b.bytes.take (min (b.length % 65536) wl54cfBuffer)⟩, hostStatus := wl54cfCommand }

theorem run_block (b : Block) : Card.run k s (b.accesses r) = (submitted s b).writeEvents k r wl54cfCommand := by
  have hlength : Card.step k s (.write 0x18 2 b.length r) = .ok { s with command := ⟨b.length % 65536, []⟩ } := rfl
  have hstatus : ∀ t : Card, Card.step k t (.write 0 2 wl54cfCommand r) = .ok { t with hostStatus := wl54cfCommand } :=
    fun _ => rfl
  have hevents : ∀ t : Card, Card.step k t (.write 2 2 wl54cfCommand r) = t.writeEvents k r wl54cfCommand := fun _ => rfl
  rw [Block.accesses, List.cons_append, run_cons, hlength]
  dsimp only [Except.bind]
  rw [run_append, run_writes b.writes (Nat.zero_le _)]
  dsimp only [Except.bind]
  rw [run_cons, hstatus]
  dsimp only [Except.bind]
  rw [run_cons, hevents, List.nil_append]
  exact run_nil _

theorem events_download (hstage : s.firmwareStage < 2) (hstatus : s.hostStatus = wl54cfCommand) :
    s.writeEvents k r wl54cfCommand = .ok { s.firmwareBlock with hostStatus := 0 } := by
  have hnone : wl54cfCommand &&& s.hostStatus = 4 := by rw [hstatus]; rfl
  unfold Card.writeEvents
  rw [hnone]
  simp [hstage, wl54cfCommand, wl54cfTx, wl54cfRx]

theorem loader_firmwareBlock (hstage : s.firmwareStage < 2) :
    s.firmwareBlock.loader = s.loader.step (if s.command.data.length ≠ s.command.length ∨ s.command.length > wl54cfBuffer
      then none
      else some s.command.data) := by
  unfold Card.firmwareBlock
  dsimp only
  by_cases hbad : s.command.data.length ≠ s.command.length ∨ s.command.length > wl54cfBuffer
  · rw [if_pos hbad, if_pos hbad]
    rfl
  rw [if_neg hbad, if_neg hbad]
  have hlength : s.command.data.length = s.command.length := by
    rw [not_or, Decidable.not_not] at hbad
    exact hbad.1
  unfold Loader.step
  dsimp only
  by_cases hzero : s.firmwareStage = 0
  · rw [if_pos hzero, if_pos (show s.loader.stage = 0 from hzero), hlength]
    unfold Card.helperBlock Loader.helper
    simp only [apply_ite Card.loader]
    rfl
  · rw [if_neg hzero, if_neg (show ¬ s.loader.stage = 0 from hzero), if_pos (show s.firmwareStage = 1 by omega)]
    unfold Card.stationBlock Loader.station
    rw [hlength]
    simp only [apply_ite Card.loader]
    rfl

/-- The loader of a card that is given a block. -/
theorem loader_block (b : Block) (hstage : s.firmwareStage < 2) :
    ∃ t, Card.run k s (b.accesses r) = .ok t ∧ t.loader = s.loader.step b.content := by
  rw [run_block, events_download (s := submitted s b) hstage rfl]
  refine ⟨_, rfl, ?_⟩
  have hloader := loader_firmwareBlock (s := submitted s b) hstage
  have hcontent : b.content = if (submitted s b).command.data.length ≠ (submitted s b).command.length ∨
      (submitted s b).command.length > wl54cfBuffer then none else some (submitted s b).command.data := by
    unfold Block.content submitted
    dsimp only
    rw [List.length_take]
    by_cases hfull : b.length % 65536 ≤ wl54cfBuffer ∧ b.length % 65536 ≤ b.bytes.length
    · rw [if_pos hfull, if_neg (by omega), Nat.min_eq_left hfull.1]
    · rw [if_neg hfull, if_pos (by omega)]
  rw [hcontent]
  exact hloader

theorem failed_block (b : Block) (hstage : s.firmwareStage = 3) :
    ∃ t, Card.run k s (b.accesses r) = .ok t ∧ t.firmwareStage = 3 := by
  have hstage' : (submitted s b).firmwareStage = 3 := hstage
  have hstatus : (submitted s b).hostStatus = wl54cfCommand := rfl
  rw [run_block]
  refine ⟨{ submitted s b with hostStatus := 0 }, ?_, hstage⟩
  simp [Card.writeEvents, hstage', hstatus, wl54cfCommand, wl54cfTx, wl54cfRx]

end Registers

/-! ## The loader and the images -/

section Grammar

variable {helpers : List (List UInt8)} {records : List (List UInt8 × List UInt8)} {header : List UInt8} {n : Nat}

@[simp] theorem total_nil : total [] = 0 := rfl

@[simp] theorem total_append (l m : List (List UInt8)) : total (l ++ m) = total l + total m := by simp [total]

@[simp] theorem total_singleton (b : List UInt8) : total [b] = b.length := by simp [total]

@[simp] theorem recordBlocks_append (l m : List (List UInt8 × List UInt8)) :
    recordBlocks (l ++ m) = recordBlocks l ++ recordBlocks m := by simp [recordBlocks]

@[simp] theorem recordBlocks_singleton (r : List UInt8 × List UInt8) : recordBlocks [r] = [r.1, r.2] := by simp [recordBlocks]

/-- The loader has taken the blocks, and they are the start of an image. -/
inductive Tracks : Loader → List (List UInt8) → Prop
  | helper {helpers : List (List UInt8)} : (∀ h ∈ helpers, IsHelper h) → total helpers ≤ 65536 →
      Tracks ⟨0, 0, 0, total helpers, 0⟩ helpers
  | records {helpers : List (List UInt8)} {records : List (List UInt8 × List UInt8)} :
      helpers ≠ [] → (∀ h ∈ helpers, IsHelper h) → total helpers ≤ 65536 → (∀ r ∈ records, IsFullRecord r) →
      total (recordBlocks records) ≤ 512 * 1024 →
      Tracks ⟨1, 16, 0, total helpers, total (recordBlocks records)⟩ (helpers ++ [[]] ++ recordBlocks records)
  | header {helpers : List (List UInt8)} {records : List (List UInt8 × List UInt8)} {header : List UInt8} {n : Nat} :
      helpers ≠ [] → (∀ h ∈ helpers, IsHelper h) → total helpers ≤ 65536 → (∀ r ∈ records, IsFullRecord r) →
      IsHeader header 1 n → n ≠ 0 → n % 2 = 0 → n ≤ wl54cfBuffer → total (recordBlocks records ++ [header]) ≤ 512 * 1024 →
      Tracks ⟨1, n, n, total helpers, total (recordBlocks records ++ [header])⟩
        (helpers ++ [[]] ++ recordBlocks records ++ [header])

theorem Tracks.stage_lt {l : Loader} {bs : List (List UInt8)} (h : Tracks l bs) : l.stage < 2 := by
  cases h with
  | helper => exact Nat.succ_pos _
  | records => exact Nat.lt_succ_self _
  | header => exact Nat.lt_succ_self _

theorem Tracks.start {l : Loader} {bs : List (List UInt8)} (h : Tracks l bs) : Start bs := by
  cases h with
  | helper hall htotal => exact .helper hall htotal
  | records hne hall htotal hrecords hbytes => exact .records hne hall htotal hrecords hbytes
  | header hne hall htotal hrecords hheader h0 h2 hmax hbytes => exact .header hne hall htotal hrecords hheader h0 h2 hmax hbytes

theorem total_pos (hne : helpers ≠ []) (hall : ∀ h ∈ helpers, IsHelper h) : 0 < total helpers := by
  cases helpers with
  | nil => exact absurd rfl hne
  | cons h rest =>
    have hlength := List.length_pos_iff.mpr (hall h List.mem_cons_self).1
    simp only [total, List.map_cons, List.sum_cons]
    omega

theorem records_total (hrecords : ∀ r ∈ records, IsFullRecord r) (hne : records ≠ []) : 16 < total (recordBlocks records) := by
  cases records with
  | nil => exact absurd rfl hne
  | cons r rest =>
    obtain ⟨⟨hheader, -, -⟩, hpayload⟩ := hrecords r List.mem_cons_self
    have hlength := List.length_pos_iff.mpr hpayload
    have hsixteen := hheader.1
    have hsplit : recordBlocks (r :: rest) = [r.1] ++ ([r.2] ++ recordBlocks rest) := rfl
    rw [hsplit, total_append, total_append, total_singleton, total_singleton]
    omega

/-! ### One block -/

theorem step_helper (b : List UInt8) (hb : IsHelper b) (htotal : total (helpers ++ [b]) ≤ 65536) :
    Loader.step ⟨0, 0, 0, total helpers, 0⟩ (some b) = ⟨0, 0, 0, total (helpers ++ [b]), 0⟩ := by
  obtain ⟨hne, heven, hmax⟩ := hb
  have hlength := List.length_pos_iff.mpr hne
  rw [total_append, total_singleton] at htotal ⊢
  simp only [Loader.step, ↓reduceIte, Loader.helper]
  rw [if_neg (by omega), if_neg (by omega)]

theorem step_empty (hne : helpers ≠ []) (hall : ∀ h ∈ helpers, IsHelper h) :
    Loader.step ⟨0, 0, 0, total helpers, 0⟩ (some []) = ⟨1, 16, 0, total helpers, 0⟩ := by
  have hpos := total_pos hne hall
  simp only [Loader.step, ↓reduceIte, Loader.helper, List.length_nil]
  rw [if_neg (by omega)]

theorem step_header {helperBytes bytes : Nat} (hheader : IsHeader header 1 n) (h0 : n ≠ 0) (h2 : n % 2 = 0)
    (hmax : n ≤ wl54cfBuffer)
    (hbytes : bytes + 16 ≤ 512 * 1024) :
    Loader.step ⟨1, 16, 0, helperBytes, bytes⟩ (some header) = ⟨1, n, n, helperBytes, bytes + 16⟩ := by
  obtain ⟨hlength, hcommand, hpayload⟩ := hheader
  have hmod : (bytes + 16) % 2 ^ 32 = bytes + 16 := Nat.mod_eq_of_lt (by omega)
  simp only [Loader.step, Nat.one_ne_zero, ↓reduceIte, Loader.station, hlength, hcommand, hpayload, hmod, ne_eq,
    not_true_eq_false]
  rw [if_neg (by omega), if_neg (by omega), if_pos ⟨trivial, h0, hmax, h2⟩]

theorem step_payload {helperBytes bytes : Nat} {payload : List UInt8} (h0 : payload ≠ [])
    (hbytes : bytes + payload.length ≤ 512 * 1024) :
    Loader.step ⟨1, payload.length, payload.length, helperBytes, bytes⟩
      (some payload) = ⟨1, 16, 0, helperBytes, bytes + payload.length⟩ := by
  have hpos := List.length_pos_iff.mpr h0
  have hmod : (bytes + payload.length) % 2 ^ 32 = bytes + payload.length := Nat.mod_eq_of_lt (by omega)
  simp only [Loader.step, Nat.one_ne_zero, ↓reduceIte, Loader.station, hmod, ne_eq, not_true_eq_false]
  rw [if_neg (by omega), if_pos (by omega)]

theorem step_last {helperBytes bytes : Nat} (hheader : IsHeader header 4 0) (hsome : 0 < bytes)
    (hbytes : bytes + 16 ≤ 512 * 1024) :
    (Loader.step ⟨1, 16, 0, helperBytes, bytes⟩ (some header)).stage = 2 := by
  obtain ⟨hlength, hcommand, hpayload⟩ := hheader
  have hmod : (bytes + 16) % 2 ^ 32 = bytes + 16 := Nat.mod_eq_of_lt (by omega)
  simp only [Loader.step, Nat.one_ne_zero, ↓reduceIte, Loader.station, hlength, hcommand, hpayload, hmod, ne_eq,
    not_true_eq_false]
  rw [if_neg (show ¬ bytes + 16 > 512 * 1024 by omega), if_pos ⟨trivial, trivial⟩, if_neg (show ¬ bytes + 16 ≤ 16 by omega)]

/-- What a block does to a loader that is on its way. -/
theorem Tracks.step_cases {l : Loader} {bs : List (List UInt8)} (h : Tracks l bs) (b : Option (List UInt8)) :
    (∃ data, b = some data ∧ Tracks (l.step b) (bs ++ [data])) ∨
      (∃ data, b = some data ∧ (l.step b).stage = 2 ∧ Image IsFullRecord (bs ++ [data])) ∨ (l.step b).stage = 3 := by
  cases b with
  | none => exact .inr (.inr rfl)
  | some b =>
    cases h with
    | helper hall htotal =>
      by_cases hempty : b = []
      · subst hempty
        by_cases hne : bs = []
        · subst hne
          exact .inr (.inr rfl)
        · left
          refine ⟨[], rfl, ?_⟩
          rw [step_empty hne hall]
          have hrecords := @Tracks.records _ [] hne hall htotal (fun r hr => absurd hr List.not_mem_nil) (Nat.zero_le _)
          simpa [recordBlocks] using hrecords
      · by_cases hb : b.length % 2 = 0 ∧ b.length ≤ 256 ∧ total (bs ++ [b]) ≤ 65536
        · left
          refine ⟨b, rfl, ?_⟩
          have hhelper : IsHelper b := ⟨hempty, hb.1, hb.2.1⟩
          rw [step_helper b hhelper hb.2.2]
          refine .helper ?_ hb.2.2
          intro x hx
          rcases List.mem_append.mp hx with hx | hx
          · exact hall x hx
          · rw [List.mem_singleton.mp hx]
            exact hhelper
        · right
          right
          have hlength := List.length_pos_iff.mpr hempty
          rw [total_append, total_singleton] at hb
          simp only [Loader.step, ↓reduceIte, Loader.helper]
          rw [if_neg (by omega), if_pos (by omega)]
          rfl
    | @records helpers records hne hall htotal hrecords hbytes =>
      by_cases hlength : b.length = 16
      case neg =>
        right
        right
        simp only [Loader.step, Nat.one_ne_zero, ↓reduceIte, Loader.station]
        rw [if_pos hlength]
        rfl
      by_cases hfits : total (recordBlocks records) + 16 ≤ 512 * 1024
      case neg =>
        right
        right
        have hmod : (total (recordBlocks records) + 16) % 2 ^ 32 = total (recordBlocks records) + 16 :=
          Nat.mod_eq_of_lt (by omega)
        simp only [Loader.step, Nat.one_ne_zero, ↓reduceIte, Loader.station, hlength, hmod, ne_eq, not_true_eq_false]
        rw [if_pos (by omega)]
        rfl
      have htotal' : total (recordBlocks records ++ [b]) = total (recordBlocks records) + 16 := by
        rw [total_append, total_singleton, hlength]
      by_cases hlast : le32 b 0 = 4 ∧ le32 b 8 = 0
      · have hheader : IsHeader b 4 0 := ⟨hlength, hlast.1, hlast.2⟩
        by_cases hsome : records = []
        · right
          right
          subst hsome
          simp [Loader.step, Loader.station, hlength, hlast, recordBlocks, Loader.fail]
        · right
          left
          have hpos := records_total hrecords hsome
          refine ⟨b, rfl, step_last hheader (by omega) hfits, helpers, records, b, rfl, hne, hall, htotal, hsome, hrecords,
            hheader, ?_⟩
          omega
      by_cases hnext : le32 b 0 = 1 ∧ le32 b 8 ≠ 0 ∧ le32 b 8 ≤ wl54cfBuffer ∧ le32 b 8 % 2 = 0
      · left
        have hheader : IsHeader b 1 (le32 b 8) := ⟨hlength, hnext.1, rfl⟩
        refine ⟨b, rfl, ?_⟩
        rw [step_header hheader hnext.2.1 hnext.2.2.2 hnext.2.2.1 hfits, ← htotal']
        exact .header hne hall htotal hrecords hheader hnext.2.1 hnext.2.2.2 hnext.2.2.1 (by omega)
      · right
        right
        have hmod : (total (recordBlocks records) + 16) % 2 ^ 32 = total (recordBlocks records) + 16 :=
          Nat.mod_eq_of_lt (by omega)
        simp only [Loader.step, Nat.one_ne_zero, ↓reduceIte, Loader.station, hlength, hmod, ne_eq, not_true_eq_false]
        rw [if_neg (by omega), if_neg hlast, if_neg hnext]
        rfl
    | @header helpers records header n hne hall htotal hrecords hheader h0 h2 hmax hbytes =>
      by_cases hlength : b.length = n
      case neg =>
        right
        right
        simp only [Loader.step, Nat.one_ne_zero, ↓reduceIte, Loader.station]
        rw [if_pos hlength]
        rfl
      by_cases hfits : total (recordBlocks records ++ [header]) + n ≤ 512 * 1024
      case neg =>
        right
        right
        have hmod : (total (recordBlocks records ++ [header]) + n) % 2 ^ 32 = total (recordBlocks records ++ [header]) + n :=
          Nat.mod_eq_of_lt (by unfold wl54cfBuffer at hmax; omega)
        simp only [Loader.step, Nat.one_ne_zero, ↓reduceIte, Loader.station, hlength, hmod, ne_eq, not_true_eq_false]
        rw [if_pos (by omega)]
        rfl
      left
      subst hlength
      have hpayload : b ≠ [] := List.length_pos_iff.mp (by omega)
      have hrecord : IsFullRecord (header, b) := ⟨⟨hheader, h2, hmax⟩, hpayload⟩
      have hblocks : recordBlocks (records ++ [(header, b)]) = recordBlocks records ++ [header] ++ [b] := by simp
      refine ⟨b, rfl, ?_⟩
      rw [step_payload hpayload hfits]
      have htracks := @Tracks.records _ (records ++ [(header, b)]) hne hall htotal
        (fun r hr => (List.mem_append.mp hr).elim (hrecords r) fun h => List.mem_singleton.mp h ▸ hrecord)
        (by rw [hblocks, total_append, total_singleton]; exact hfits)
      rw [hblocks, total_append _ [b], total_singleton] at htracks
      simpa only [List.append_assoc] using htracks

/-! ### All blocks -/

/-- The loader after some blocks from a reset. -/
def loaded (bs : List (List UInt8)) : Loader := (bs.map some).foldl Loader.step ⟨0, 0, 0, 0, 0⟩

theorem loaded_append (bs : List (List UInt8)) (b : List UInt8) : loaded (bs ++ [b]) = (loaded bs).step (some b) := by
  simp [loaded]

theorem loaded_helpers (hall : ∀ h ∈ helpers, IsHelper h) (htotal : total helpers ≤ 65536) :
    loaded helpers = ⟨0, 0, 0, total helpers, 0⟩ := by
  induction helpers using List.reverseRecOn with
  | nil => rfl
  | append_singleton helpers b ih =>
    have hless : total helpers ≤ 65536 := by
      rw [total_append] at htotal
      omega
    rw [loaded_append, ih (fun h hh => hall h (List.mem_append_left _ hh)) hless]
    exact step_helper b (hall b (List.mem_append_right _ (List.mem_singleton_self b))) htotal

theorem loaded_records (hne : helpers ≠ []) (hall : ∀ h ∈ helpers, IsHelper h) (htotal : total helpers ≤ 65536)
    (hrecords : ∀ r ∈ records, IsFullRecord r) (hbytes : total (recordBlocks records) ≤ 512 * 1024) :
    loaded (helpers ++ [[]] ++ recordBlocks records) = ⟨1, 16, 0, total helpers, total (recordBlocks records)⟩ := by
  induction records using List.reverseRecOn with
  | nil =>
    have hnil : recordBlocks [] = [] := rfl
    rw [hnil, List.append_nil, loaded_append, loaded_helpers hall htotal, step_empty hne hall]
    rfl
  | append_singleton records r ih =>
    obtain ⟨⟨hheader, heven, hmax⟩, hpayload⟩ := hrecords r (List.mem_append_right _ (List.mem_singleton_self r))
    have hsplit : recordBlocks (records ++ [r]) = recordBlocks records ++ [r.1] ++ [r.2] := by simp
    have hsixteen := hheader.1
    rw [hsplit, total_append, total_append, total_singleton, total_singleton, hsixteen] at hbytes ⊢
    rw [← List.append_assoc, loaded_append, ← List.append_assoc, loaded_append,
      ih (fun r hr => hrecords r (List.mem_append_left _ hr)) (by omega),
      step_header hheader (Nat.ne_of_gt (List.length_pos_iff.mpr hpayload)) heven hmax (by omega), step_payload hpayload hbytes]

theorem loaded_start {bs : List (List UInt8)} (h : Start bs) : Tracks (loaded bs) bs := by
  cases h with
  | helper hall htotal =>
    rw [loaded_helpers hall htotal]
    exact .helper hall htotal
  | records hne hall htotal hrecords hbytes =>
    rw [loaded_records hne hall htotal hrecords hbytes]
    exact .records hne hall htotal hrecords hbytes
  | header hne hall htotal hrecords hheader h0 h2 hmax hbytes =>
    have hsixteen := hheader.1
    have htracks := Tracks.header hne hall htotal hrecords hheader h0 h2 hmax hbytes
    rw [total_append, total_singleton, hsixteen] at hbytes
    rw [loaded_append, loaded_records hne hall htotal hrecords (by omega), step_header hheader h0 h2 hmax hbytes]
    rw [total_append, total_singleton, hsixteen] at htracks
    exact htracks

theorem loaded_image {bs : List (List UInt8)} (h : Image IsFullRecord bs) :
    ∃ before last, bs = before ++ [last] ∧ Start before ∧ (loaded bs).stage = 2 := by
  obtain ⟨helpers, records, last, rfl, hne, hall, htotal, hsome, hrecords, hheader, hbytes⟩ := h
  have hpos := records_total hrecords hsome
  have hsixteen := hheader.1
  rw [total_append, total_singleton, hsixteen] at hbytes
  refine ⟨_, last, rfl, .records hne hall htotal hrecords (by omega), ?_⟩
  rw [loaded_append, loaded_records hne hall htotal hrecords (by omega)]
  exact step_last hheader (by omega) hbytes

/-- What comes before a block of the start of an image is one too. -/
theorem Start.dropLast {bs : List (List UInt8)} {b : List UInt8} (h : Start (bs ++ [b])) : Start bs := by
  generalize hall' : bs ++ [b] = blocks at h
  cases h with
  | helper hall htotal =>
    subst hall'
    rw [total_append] at htotal
    exact .helper (fun h hh => hall h (List.mem_append_left _ hh)) (by omega)
  | @records helpers records hne hall htotal hrecords hbytes =>
    rcases List.eq_nil_or_concat' records with rfl | ⟨before, r, rfl⟩
    · rw [show recordBlocks [] = [] from rfl, List.append_nil] at hall'
      rw [(List.append_inj' hall' rfl).1]
      exact .helper hall htotal
    · obtain ⟨⟨hheader, heven, hmax⟩, hpayload⟩ := hrecords r (List.mem_append_right _ (List.mem_singleton_self r))
      have hsplit : recordBlocks (before ++ [r]) = recordBlocks before ++ [r.1] ++ [r.2] := by simp
      rw [hsplit, total_append] at hbytes
      rw [hsplit, ← List.append_assoc] at hall'
      rw [(List.append_inj' hall' rfl).1, ← List.append_assoc]
      exact .header hne hall htotal (fun r hr => hrecords r (List.mem_append_left _ hr)) hheader
        (Nat.ne_of_gt (List.length_pos_iff.mpr hpayload)) heven hmax (by omega)
  | @header helpers records header n hne hall htotal hrecords hheader h0 h2 hmax hbytes =>
    rw [(List.append_inj' hall' rfl).1]
    rw [total_append] at hbytes
    exact .records hne hall htotal hrecords (by omega)

end Grammar

/-! ## The card -/

/-- The stage the card is in after the blocks, unless a command made it read elsewhere. -/
def stageAfter (k : Crypto) (r : Chance) (s : Card) (blocks : List Block) : Option Nat :=
  (download k r s blocks).toOption.map fun t => t.firmwareStage

/-- The last of the blocks, and no earlier one, makes the card ready. -/
def ReadyAt (k : Crypto) (r : Chance) (s : Card) (blocks : List Block) : Prop :=
  stageAfter k r s blocks = some 2 ∧ ∀ before, before <+: blocks → before ≠ blocks → stageAfter k r s before ≠ some 2

/-- The blocks are complete, and their contents are such. -/
def Delivers (P : List (List UInt8) → Prop) (blocks : List Block) : Prop :=
  ∃ bs, blocks.map Block.content = bs.map some ∧ P bs

section Card

variable {k : Crypto} {r : Chance} {s : Card}

theorem download_append (blocks : List Block) (b : Block) :
    download k r s (blocks ++ [b]) = (download k r s blocks).bind fun t => Card.run k t (b.accesses r) := by
  unfold download
  rw [List.flatMap_append, run_append]
  simp

/-- Blocks that start an image bring the card where they bring the loader. -/
def OnItsWay (k : Crypto) (r : Chance) (s : Card) (blocks : List Block) : Prop :=
  ∃ bs t, blocks.map Block.content = bs.map some ∧ download k r s.reset blocks = .ok t ∧ t.loader = loaded bs ∧
    Tracks (loaded bs) bs

theorem OnItsWay.stage {blocks : List Block} (h : OnItsWay k r s blocks) :
    ∃ n < 2, stageAfter k r s.reset blocks = some n := by
  obtain ⟨bs, t, -, hrun, hloader, htracks⟩ := h
  refine ⟨t.firmwareStage, ?_, ?_⟩
  · have hstage : t.loader.stage < 2 := by
      rw [hloader]
      exact htracks.stage_lt
    exact hstage
  · unfold stageAfter
    rw [hrun]
    rfl

/-- The next block is a block for the loader. -/
theorem OnItsWay.next {blocks : List Block} (h : OnItsWay k r s blocks) (b : Block) :
    ∃ bs t, blocks.map Block.content = bs.map some ∧ Tracks (loaded bs) bs ∧
      download k r s.reset (blocks ++ [b]) = .ok t ∧ t.loader = (loaded bs).step b.content := by
  obtain ⟨bs, t, hcontent, hrun, hloader, htracks⟩ := h
  have hstage : t.firmwareStage < 2 := by
    have hlt : t.loader.stage < 2 := by
      rw [hloader]
      exact htracks.stage_lt
    exact hlt
  obtain ⟨u, hblock, hnext⟩ := loader_block (k := k) (r := r) b hstage
  refine ⟨bs, u, hcontent, htracks, ?_, ?_⟩
  · rw [download_append, hrun]
    exact hblock
  · rw [hnext, hloader]

/-- Blocks that are on their way to an image, or have reached one, or failed. -/
theorem download_cases (s : Card) (blocks : List Block) :
    OnItsWay k r s blocks ∨ (∃ before, before <+: blocks ∧ Delivers (Image IsFullRecord) before) ∨
      ∃ t, download k r s.reset blocks = .ok t ∧ t.firmwareStage = 3 := by
  induction blocks using List.reverseRecOn with
  | nil => exact .inl ⟨[], s.reset, rfl, rfl, rfl, .helper (fun h hh => absurd hh List.not_mem_nil) (Nat.zero_le _)⟩
  | append_singleton blocks b ih =>
    rcases ih with hway | ⟨before, hbefore, himage⟩ | ⟨t, hrun, hstage⟩
    · obtain ⟨bs, t, hcontent, htracks, hrun, hloader⟩ := hway.next b
      have hnext : ∀ data, b.content = some data → (blocks ++ [b]).map Block.content = (bs ++ [data]).map some := by
        intro data hdata
        rw [List.map_append, List.map_append, hcontent, List.map_singleton, List.map_singleton, hdata]
      rcases htracks.step_cases b.content with ⟨data, hdata, hstep⟩ | ⟨data, hdata, -, himage⟩ | hfail
      · left
        rw [hdata, ← loaded_append] at hstep hloader
        exact ⟨bs ++ [data], t, hnext data hdata, hrun, hloader, hstep⟩
      · exact .inr (.inl ⟨_, List.prefix_rfl, bs ++ [data], hnext data hdata, himage⟩)
      · refine .inr (.inr ⟨t, hrun, ?_⟩)
        rw [← hloader] at hfail
        exact hfail
    · exact .inr (.inl ⟨before, hbefore.trans (List.prefix_append _ _), himage⟩)
    · obtain ⟨u, hblock, hfailed⟩ := failed_block (k := k) (r := r) b hstage
      refine .inr (.inr ⟨u, ?_, hfailed⟩)
      rw [download_append, hrun]
      exact hblock

theorem onItsWay_of_start {blocks : List Block} (h : Delivers Start blocks) : OnItsWay k r s blocks := by
  obtain ⟨bs, hcontent, hstart⟩ := h
  induction blocks using List.reverseRecOn generalizing bs with
  | nil =>
    have hnil : bs = [] := by simpa using hcontent
    subst hnil
    exact ⟨[], s.reset, rfl, rfl, rfl, loaded_start hstart⟩
  | append_singleton blocks b ih =>
    rw [List.map_append, List.map_singleton] at hcontent
    obtain ⟨before, last, rfl, hbefore, hlast⟩ := List.map_eq_append_iff.mp hcontent.symm
    obtain ⟨data, rfl, hdata⟩ := List.map_eq_singleton_iff.mp hlast
    obtain ⟨bs', t, hcontent', -, hrun, hloader⟩ := (ih before hbefore.symm hstart.dropLast).next b
    have hsame : bs' = before := by
      rw [← hbefore] at hcontent'
      exact (List.map_injective_iff.mpr (Option.some_injective _) hcontent').symm
    subst hsame
    rw [← hdata, ← loaded_append] at hloader
    refine ⟨bs' ++ [data], t, ?_, hrun, hloader, loaded_start hstart⟩
    rw [List.map_append, List.map_append, ← hbefore, List.map_singleton, List.map_singleton, hdata]

theorem delivers_begin {before blocks : List Block} (h : Delivers Start blocks) (hbefore : before <+: blocks) :
    Delivers Start before := by
  obtain ⟨after, rfl⟩ := hbefore
  induction after using List.reverseRecOn with
  | nil =>
    rw [List.append_nil] at h
    exact h
  | append_singleton after b ih =>
    apply ih
    obtain ⟨bs, hcontent, hstart⟩ := h
    rw [← List.append_assoc, List.map_append, List.map_singleton] at hcontent
    obtain ⟨rest, last, rfl, hrest, hlast⟩ := List.map_eq_append_iff.mp hcontent.symm
    obtain ⟨data, rfl, -⟩ := List.map_eq_singleton_iff.mp hlast
    exact ⟨rest, hrest.symm, hstart.dropLast⟩

/-- An image makes the card ready, with its last block. -/
theorem ready_of_image {blocks : List Block} (h : Delivers (Image IsFullRecord) blocks) : ReadyAt k r s.reset blocks := by
  obtain ⟨bs, hcontent, himage⟩ := h
  obtain ⟨before, last, rfl, hstart, hstage⟩ := loaded_image himage
  rw [List.map_append, List.map_singleton] at hcontent
  obtain ⟨rest, final, rfl, hrest, hfinal⟩ := List.map_eq_append_iff.mp hcontent
  obtain ⟨b, rfl, hb⟩ := List.map_eq_singleton_iff.mp hfinal
  have hdelivers : Delivers Start rest := ⟨before, hrest, hstart⟩
  constructor
  · obtain ⟨bs, t, hsame, -, hrun, hloader⟩ := (onItsWay_of_start (k := k) (r := r) (s := s) hdelivers).next b
    have hbs : bs = before := by
      rw [hrest] at hsame
      exact (List.map_injective_iff.mpr (Option.some_injective _) hsame).symm
    rw [hbs, hb, ← loaded_append] at hloader
    unfold stageAfter
    rw [hrun]
    have hready : t.loader.stage = 2 := by
      rw [hloader]
      exact hstage
    exact congrArg some hready
  · intro earlier hearlier hne hready
    have hprefix : earlier <+: rest := (List.prefix_concat_iff.mp hearlier).resolve_left hne
    obtain ⟨n, hn, hstage⟩ := (onItsWay_of_start (k := k) (r := r) (s := s) (delivers_begin hdelivers hprefix)).stage
    rw [hready] at hstage
    have htwo := Option.some.inj hstage
    omega

theorem ready_iff (s : Card) (blocks : List Block) : ReadyAt k r s.reset blocks ↔ Delivers (Image IsFullRecord) blocks := by
  constructor
  · intro h
    rcases download_cases (k := k) (r := r) s blocks with hway | ⟨before, hbefore, himage⟩ | ⟨t, hrun, hstage⟩
    · obtain ⟨n, hn, hstage⟩ := hway.stage
      have htwo := Option.some.inj (h.1.symm.trans hstage)
      omega
    · rcases eq_or_ne before blocks with rfl | hne
      · exact himage
      · exact absurd (ready_of_image himage).1 (h.2 before hbefore hne)
    · have hthree := h.1
      unfold stageAfter at hthree
      rw [hrun] at hthree
      have htwo : t.firmwareStage = 2 := Option.some.inj hthree
      omega
  · exact ready_of_image

theorem failed_stays {blocks : List Block} {t : Card} (hrun : download k r s blocks = .ok t) (hstage : t.firmwareStage = 3)
    (more : List Block) : ∃ u, download k r s (blocks ++ more) = .ok u ∧ u.firmwareStage = 3 := by
  induction more using List.reverseRecOn with
  | nil => exact ⟨t, by rw [List.append_nil, hrun], hstage⟩
  | append_singleton more b ih =>
    obtain ⟨u, hu, hfailed⟩ := ih
    obtain ⟨v, hv, hlast⟩ := failed_block (k := k) (r := r) b hfailed
    refine ⟨v, ?_, hlast⟩
    rw [← List.append_assoc, download_append, hu]
    exact hv

/-- Blocks that neither start an image nor contain one have failed for good. -/
theorem deviates (s : Card) {blocks : List Block} (hstart : ¬ Delivers Start blocks)
    (himage : ∀ before, before <+: blocks → ¬ Delivers (Image IsFullRecord) before) (more : List Block) :
    stageAfter k r s.reset (blocks ++ more) = some 3 := by
  rcases download_cases (k := k) (r := r) s blocks with
    ⟨bs, -, hcontent, -, -, htracks⟩ | ⟨before, hbefore, h⟩ | ⟨t, hrun, hstage⟩
  · exact absurd ⟨bs, hcontent, htracks.start⟩ hstart
  · exact absurd h (himage before hbefore)
  · obtain ⟨u, hu, hfailed⟩ := failed_stays hrun hstage more
    unfold stageAfter
    rw [hu]
    exact congrArg some hfailed

end Card

/-- A reset card becomes ready exactly with the last block of an image. While the blocks
    start an image it waits for more, and otherwise, unless it is ready, it has failed and
    stays so. -/
theorem firmware_download (k : Crypto) (r : Chance) (s : Card) (blocks : List Block) :
    (ReadyAt k r s.reset blocks ↔ Delivers (Image IsFullRecord) blocks) ∧
      (Delivers Start blocks → ∃ n < 2, stageAfter k r s.reset blocks = some n) ∧
      (¬ Delivers Start blocks → (∀ before, before <+: blocks → ¬ Delivers (Image IsFullRecord) before) →
        ∀ more, stageAfter k r s.reset (blocks ++ more) = some 3) := by
  refine ⟨ready_iff s blocks, ?_, ?_⟩
  · intro h
    exact (onItsWay_of_start h).stage
  · intro hstart himage more
    exact deviates s hstart himage more

/-- A block written a byte at a time. -/
def bytewise (bytes : List UInt8) : Block := ⟨bytes.length, bytes.map fun b => (1, b.toNat)⟩

def headerBytes (command length : Nat) : List UInt8 := Lib.le 4 command ++ zeros 4 ++ Lib.le 4 length ++ zeros 4

/-- A helper of two bytes, a record of none, one of two and the last header. -/
def emptyRecord : List (List UInt8) := [[0, 0], [], headerBytes 1 0, [], headerBytes 1 2, [0, 0], headerBytes 4 0]

/-- A record without a payload makes the card fail. -/
theorem empty_record_fails :
    Delivers (Image IsRecord) (emptyRecord.map bytewise) ∧ ∀ k r s, ¬ ReadyAt k r (Card.reset s) (emptyRecord.map bytewise) := by
  have hcontent : (emptyRecord.map bytewise).map Block.content = emptyRecord.map some := by decide
  constructor
  · refine ⟨emptyRecord, hcontent, [[0, 0]], [(headerBytes 1 0, []), (headerBytes 1 2, [0, 0])], headerBytes 4 0, rfl, ?_⟩
    simp only [List.mem_cons, List.not_mem_nil, or_false, forall_eq_or_imp, forall_eq, IsHelper, IsRecord, IsHeader]
    decide
  · intro k r s h
    obtain ⟨bs, hbs, himage⟩ := (ready_iff s _).mp h
    rw [hcontent] at hbs
    rw [← List.map_injective_iff.mpr (Option.some_injective _) hbs] at himage
    obtain ⟨-, -, -, -, hstage⟩ := loaded_image himage
    exact absurd hstage (by decide)

end Be300.Wifi
