/-
  Be300.Cf.Sectors — sectors written to the storage card and read back.

  A transfer is at byte `p` of its sector `q`. While a write goes on, the image is the old
  one under the sectors received so far (`Writing`); while a read goes on, the buffer is
  the image's sector `q` (`Reading`). An access of any width that stays in its sector moves
  either on by its bytes, so that what READ SECTORS returns is what WRITE SECTORS received
  (`sectors_round_trip`).
-/

import Mathlib.Data.List.GetD
import Be300.Cf.Transfer

namespace Be300.Cf.Ata

/-- `img` under the first `len` bytes of `data` from `off` on. -/
def overlay (img : Nat → UInt8) (off : Nat) (data : List UInt8) (len : Nat) : Nat → UInt8 := fun a =>
  if off ≤ a ∧ a < off + len then data.getD (a - off) 0 else img a

/-- Accesses of these widths, the first at byte `p` of a sector, each stay in their sector. -/
def Fit : Nat → List Nat → Prop
  | _, [] => True
  | p, w :: ws => 0 < w ∧ p + w ≤ 512 ∧ Fit ((p + w) % 512) ws

instance decidableFit : ∀ (p : Nat) (widths : List Nat), Decidable (Fit p widths)
  | _, [] => isTrue trivial
  | p, w :: ws =>
    have := decidableFit ((p + w) % 512) ws
    inferInstanceAs (Decidable (0 < w ∧ p + w ≤ 512 ∧ Fit ((p + w) % 512) ws))

/-- `base` is where the window has the data port. -/
def Taskfile (base : Nat) : Prop := base % 0x400 = 0x1F0 ∨ base % 0x400 = 0x170 ∨ base % 0x400 = 0x180

/-- Where the task file is accessed. -/
inductive Route where
  | window (base : Nat)
  | boot

namespace Route

def write : Route → Nat → List UInt8 → Access
  | window base, reg, value => .windowWrite (base + reg) value
  | boot, reg, value => .bootWrite (0xC170 + reg) value

def read : Route → Nat → Nat → Access
  | window base, reg, size => .windowRead (base + reg) size
  | boot, reg, size => .bootRead (0xC170 + reg) size

/-- The card answers there. -/
def Open (s : Card) : Route → Prop
  | window base => Taskfile base
  | boot => s.bootVisible = true

end Route

theorem decode_taskfile {base : Nat} (hbase : Taskfile base) {r : Nat} (hr : r ≤ 7) :
    decodeTaskfileOffset (base + r) = some (.reg r) := by
  unfold decodeTaskfileOffset
  simp only
  rcases hbase with h | h | h
  · rw [if_pos (by omega), show (base + r) % 1024 - 0x1F0 = r by omega]
  · rw [if_neg (by omega), if_pos (by omega), show (base + r) % 1024 - 0x170 = r by omega]
  · rw [if_neg (by omega), if_neg (by omega), if_pos (by omega), show (base + r) % 1024 - 0x180 = r by omega]

theorem decode_boot {r : Nat} (hr : r ≤ 7) : decodeBootOffset (0xC170 + r) = some (.reg r) := by
  unfold decodeBootOffset
  rw [if_pos (by omega), show 0xC170 + r - 0xC170 = r by omega]

/-! ## Receiving sectors -/

/-- `done` has been received for the `n` sectors from `lba` on: `q` sectors and `p` bytes. -/
structure Writing (r : Route) (img : Nat → UInt8) (lba n : Nat) (done : List UInt8) (q p : Nat) (s : Card) : Prop where
  attached : s.attached = true
  shown : r.Open s
  count : done.length = 512 * q + p
  lt : p < 512
  image : s.image = overlay img (512 * lba) done (512 * q)
  active : q < n → s.pendingWrite = true ∧ s.dataLength = 512 ∧ s.dataPos = p ∧ s.transferLba = lba + q ∧
    s.transferRemaining = n - q ∧ ∀ i < p, s.dataBuffer i = done.getD (512 * q + i) 0

section Write

variable {r : Route} {img : Nat → UInt8} {lba n q p : Nat} {done : List UInt8} {s : Card}

/-- The buffer once a chunk is put in it. -/
theorem filled_done (h : Writing r img lba n done q p s) (hq : q < n) (chunk : List UInt8) {i : Nat} (hi : i < p + chunk.length) :
    filled s chunk i = (done ++ chunk).getD (512 * q + i) 0 := by
  obtain ⟨-, -, hpos, -, -, hbuf⟩ := h.active hq
  have hcount := h.count
  unfold filled
  rw [hpos]
  by_cases hp : p ≤ i
  · rw [if_pos ⟨hp, hi⟩, List.getD_append_right _ _ _ _ (by omega)]
    congr 1
    omega
  · rw [if_neg (by omega), hbuf i (by omega), List.getD_append _ _ _ _ (by omega)]

theorem Writing.chunk (h : Writing r img lba n done q p s) (hq : q < n) (hbound : lba + n < 2 ^ 32) {chunk : List UInt8}
    (hfit : p + chunk.length ≤ 512) :
    Writing r img lba n (done ++ chunk) ((512 * q + p + chunk.length) / 512) ((p + chunk.length) % 512) (dataWrite s chunk) := by
  obtain ⟨hpending, hlength, hpos, htlba, hremaining, hbuf⟩ := h.active hq
  have hcount := h.count
  have hlt := h.lt
  have hwrite := writeBytes_spec (s := s) chunk (by omega)
  have hdata : dataWrite s chunk = if p + chunk.length ≥ 512 then
      commitWrite { s with dataBuffer := filled s chunk, dataPos := p + chunk.length }
      else { s with dataBuffer := filled s chunk, dataPos := p + chunk.length } := by
    unfold dataWrite
    rw [if_neg (by simp [hpending, hlength]), hwrite]
    simp only [hpos, hlength]
  rw [hdata]
  by_cases hend : p + chunk.length < 512
  · -- the sector is not full yet
    rw [if_neg (by omega), show (512 * q + p + chunk.length) / 512 = q by omega, Nat.mod_eq_of_lt hend]
    refine ⟨h.attached, h.shown, by rw [List.length_append]; omega, hend, ?_,
      fun _ => ⟨hpending, hlength, rfl, htlba, hremaining, ?_⟩⟩
    · simp only [h.image]
      funext a
      unfold overlay
      split
      · rename_i ha
        rw [List.getD_append _ _ _ _ (by omega)]
      · rfl
    · intro i hi
      exact filled_done h hq chunk hi
  · have hfull : p + chunk.length = 512 := by omega
    rw [if_pos (by omega), show (512 * q + p + chunk.length) / 512 = q + 1 by omega, show (p + chunk.length) % 512 = 0 by omega]
    have himage : (commitWrite { s with dataBuffer := filled s chunk, dataPos := p + chunk.length }).image =
        overlay img (512 * lba) (done ++ chunk) (512 * (q + 1)) := by
      have hcommit : (commitWrite { s with dataBuffer := filled s chunk, dataPos := p + chunk.length }).image =
          fun a => if s.transferLba * sectorSize ≤ a ∧ a < s.transferLba * sectorSize + sectorSize then
            filled s chunk (a - s.transferLba * sectorSize) else s.image a := by
        unfold commitWrite
        simp only
        split <;> rfl
      rw [hcommit, htlba, h.image, show (lba + q) * sectorSize = 512 * lba + 512 * q by unfold sectorSize; omega]
      funext a
      unfold overlay sectorSize
      by_cases h1 : 512 * lba ≤ a ∧ a < 512 * lba + 512 * q
      · rw [if_neg (by omega), if_pos h1, if_pos (by omega), List.getD_append _ _ _ _ (by omega)]
      · by_cases h2 : 512 * lba + 512 * q ≤ a ∧ a < 512 * lba + 512 * q + 512
        · rw [if_pos h2, if_pos (by omega), filled_done h hq chunk (by omega)]
          congr 1
          omega
        · rw [if_neg h2, if_neg h1, if_neg (by omega)]
    refine ⟨?_, ?_, by rw [List.length_append]; omega, by omega, himage, fun hmore => ?_⟩
    · unfold commitWrite
      simp only
      split <;> exact h.attached
    · unfold commitWrite
      simp only
      split <;> exact h.shown
    · have hrem : n - q - 1 > 0 := by omega
      have hnext : (lba + q + 1) % 2 ^ 32 = lba + (q + 1) := Nat.mod_eq_of_lt (by omega)
      unfold commitWrite
      simp only [hremaining, htlba]
      rw [if_pos hrem]
      exact ⟨rfl, rfl, rfl, hnext, by simp only [prepareWriteSector]; omega, fun i hi => by omega⟩

theorem step_write (hr : r.Open s) (hatt : s.attached = true) (reg : Nat) {value : List UInt8} (hne : value ≠ []) :
    ∃ boot, (boot && !s.bootVisible) = false ∧
      (reg ≤ 7 → step s (r.write reg value) = writePort s boot (some (.reg reg)) value) := by
  have hif : ¬ (value = [] ∨ (!s.attached) = true) := by simp [hne, hatt]
  cases r with
  | window base =>
    refine ⟨false, rfl, fun hreg => ?_⟩
    show (if value = [] ∨ (!s.attached) = true then s else writePort s false (decodeTaskfileOffset (base + reg)) value) = _
    rw [if_neg hif, decode_taskfile hr hreg]
  | boot =>
    have hvisible : s.bootVisible = true := hr
    refine ⟨true, by simp [hvisible], fun hreg => ?_⟩
    show (if value = [] ∨ (!s.attached) = true then s else writePort s true (decodeBootOffset (0xC170 + reg)) value) = _
    rw [if_neg hif, decode_boot hreg]

theorem step_data (hr : r.Open s) (hatt : s.attached = true) {chunk : List UInt8} (hne : chunk ≠ []) :
    step s (r.write 0 chunk) = dataWrite s chunk := by
  obtain ⟨boot, hshown, hstep⟩ := step_write hr hatt 0 hne
  rw [hstep (by omega)]
  exact if_neg (by simpa using hshown)

/-- All chunks of a write. -/
theorem Writing.run (hbound : lba + n < 2 ^ 32)
    (chunks : List (List UInt8)) (h : Writing r img lba n done q p s) (hfit : Fit p (chunks.map List.length))
    (htotal : done.length + chunks.flatten.length ≤ 512 * n) :
    ∃ q' p', Writing r img lba n (done ++ chunks.flatten) q' p' (run s (chunks.map (r.write 0))) := by
  induction chunks generalizing done q p s with
  | nil =>
    refine ⟨q, p, ?_⟩
    rw [List.flatten_nil, List.append_nil]
    exact h
  | cons chunk chunks ih =>
    obtain ⟨hpos, hin, hrest⟩ := hfit
    simp only [List.flatten_cons, List.length_append] at htotal
    have hcount := h.count
    have hne : chunk ≠ [] := fun hnil => by rw [hnil] at hpos; exact absurd hpos (by simp)
    have hstep : Ata.run s ((chunk :: chunks).map (r.write 0)) =
        Ata.run (dataWrite s chunk) (chunks.map (r.write 0)) := by
      rw [← step_data h.shown h.attached hne]
      rfl
    rw [hstep, List.flatten_cons, ← List.append_assoc]
    exact ih (h.chunk (by omega) hbound hin) hrest (by rw [List.length_append]; omega)

end Write

/-! ## Sending sectors -/

/-- Of the `n` sectors from `lba` on, `q` sectors and `p` bytes have been sent. -/
structure Reading (r : Route) (img : Nat → UInt8) (lba n q p : Nat) (s : Card) : Prop where
  attached : s.attached = true
  shown : r.Open s
  range : 512 * (lba + n) ≤ s.imageSize
  lt : p < 512
  image : s.image = img
  active : q < n → s.pendingWrite = false ∧ s.dataLength = 512 ∧ s.dataPos = p ∧ s.transferLba = lba + q ∧
    s.transferRemaining = n - q ∧ ∀ i < 512, s.dataBuffer i = img (512 * (lba + q) + i)

/-- The bytes an access returns, and the card. -/
def access (s : Card) : Access → List UInt8 × Card
  | .windowRead offset size => windowRead s offset size
  | .bootRead offset size => bootRead s offset size
  | a => ([], step s a)

/-- The bytes that the accesses return. -/
def values (s : Card) : List Access → List UInt8
  | [] => []
  | a :: l => (access s a).1 ++ values (access s a).2 l

section Read

variable {r : Route} {img : Nat → UInt8} {lba n q p : Nat} {s : Card}

theorem access_snd (s : Card) (a : Access) : (access s a).2 = step s a := by
  cases a <;> rfl

theorem access_data (hr : r.Open s) (hatt : s.attached = true) {size : Nat} (hsize : 0 < size) :
    access s (r.read 0 size) = dataRead s size := by
  cases r with
  | window base =>
    show windowRead s (base + 0) size = dataRead s size
    unfold windowRead
    rw [if_neg (by omega), if_neg (by simp [hatt]), decode_taskfile hr (by omega)]
    rfl
  | boot =>
    have hvisible : s.bootVisible = true := hr
    show bootRead s (0xC170 + 0) size = dataRead s size
    unfold bootRead
    rw [if_neg (by omega), if_neg (by simp [hatt]), decode_boot (by omega)]
    exact if_pos hvisible

theorem readBytes_fst (size : Nat) (h : s.dataPos + size ≤ s.dataLength) :
    (readBytes size s).1 = (List.range size).map fun i => s.dataBuffer (s.dataPos + i) := by
  induction size generalizing s with
  | zero => rfl
  | succ size ih =>
    unfold readBytes
    rw [if_pos (by omega)]
    simp only
    rw [ih (by simp only; omega), List.range_succ_eq_map, List.map_cons, List.map_map]
    congr 1
    apply List.map_congr_left
    intro i _
    simp only [Function.comp_apply]
    congr 1
    omega

theorem loadReadSector_inside (h : s.transferLba * sectorSize + sectorSize ≤ s.imageSize) :
    loadReadSector s = (true, { s with
      dataBuffer := fun i => s.image (s.transferLba * sectorSize + i), dataLength := sectorSize, dataPos := 0,
      pendingWrite := false, statusReg := stDrdy ||| stDsc ||| stDrq }) := by
  unfold loadReadSector
  simp only
  rw [if_neg (by omega), decide_eq_false (by omega), Bool.or_false]

theorem Reading.access (h : Reading r img lba n q p s) (hq : q < n) (hbound : lba + n < 2 ^ 32) {w : Nat} (hfit : p + w ≤ 512) :
    (dataRead s w).1 = (List.range w).map (fun i => img (512 * lba + (512 * q + p) + i)) ∧
      Reading r img lba n ((512 * q + p + w) / 512) ((p + w) % 512) (dataRead s w).2 := by
  obtain ⟨hpending, hlength, hpos, htlba, hremaining, hbuf⟩ := h.active hq
  have hlt := h.lt
  have hrange := h.range
  have hfst := readBytes_fst (s := s) w (by omega)
  have hsnd := readBytes_snd (s := s) w (by omega)
  have hmin : min (s.dataPos + w) s.dataLength = p + w := by rw [hpos, hlength]; exact Nat.min_eq_left hfit
  rw [hmin] at hsnd
  unfold dataRead
  rw [if_neg (by simp [hpending, hlength])]
  generalize readBytes w s = r at hfst hsnd ⊢
  rcases r with ⟨bytes, t⟩
  simp only at hfst hsnd ⊢
  subst hfst hsnd
  refine ⟨?_, ?_⟩
  · apply List.map_congr_left
    intro i hi
    have hi' := List.mem_range.mp hi
    rw [hpos, hbuf (p + i) (by omega)]
    congr 1
    omega
  · by_cases hend : p + w < 512
    · rw [if_neg (by simp only [hlength]; omega), show (512 * q + p + w) / 512 = q by omega, Nat.mod_eq_of_lt hend]
      exact ⟨h.attached, h.shown, hrange, hend, h.image, fun _ => ⟨hpending, hlength, rfl, htlba, hremaining, hbuf⟩⟩
    · rw [if_pos (by simp only [hlength]; omega), show (512 * q + p + w) / 512 = q + 1 by omega,
        show (p + w) % 512 = 0 by omega]
      have hnext : (lba + q + 1) % 2 ^ 32 = lba + (q + 1) := Nat.mod_eq_of_lt (by omega)
      unfold endReadSector
      simp only [hremaining, htlba, hnext]
      split
      · -- the next sector is in the image
        rename_i hmore
        rw [loadReadSector_inside (by
          show (lba + (q + 1)) * sectorSize + sectorSize ≤ s.imageSize
          unfold sectorSize
          omega)]
        refine ⟨h.attached, h.shown, hrange, by omega, h.image, fun _ => ⟨rfl, rfl, rfl, rfl, Nat.sub_sub n q 1, fun i _ => ?_⟩⟩
        rw [← h.image]
        show s.image ((lba + (q + 1)) * sectorSize + i) = s.image (512 * (lba + (q + 1)) + i)
        rw [Nat.mul_comm]
        rfl
      · refine ⟨h.attached, h.shown, hrange, by omega, h.image, fun hlast => by omega⟩

/-- All accesses of a read. -/
theorem Reading.run (hbound : lba + n < 2 ^ 32) (widths : List Nat)
    (h : Reading r img lba n q p s) (hfit : Fit p widths) (htotal : 512 * q + p + widths.sum ≤ 512 * n) :
    values s (widths.map (r.read 0)) =
        (List.range widths.sum).map (fun i => img (512 * lba + (512 * q + p) + i)) ∧
      (Ata.run s (widths.map (r.read 0))).image = img := by
  induction widths generalizing q p s with
  | nil => exact ⟨rfl, h.image⟩
  | cons w widths ih =>
    obtain ⟨hpos, hin, hrest⟩ := hfit
    simp only [List.sum_cons] at htotal
    have hread := access_data h.shown h.attached hpos
    obtain ⟨hbytes, hnext⟩ := h.access (by omega) hbound hin
    obtain ⟨hvalues, himage⟩ := ih hnext hrest (by omega)
    have hstep : step s (r.read 0 w) = (dataRead s w).2 := by rw [← access_snd, hread]
    refine ⟨?_, ?_⟩
    · rw [List.map_cons, values, hread, hbytes, hvalues, List.sum_cons, List.range_add, List.map_append, List.map_map]
      congr 1
      apply List.map_congr_left
      intro i _
      simp only [Function.comp_apply]
      congr 1
      omega
    · rw [List.map_cons]
      show (Ata.run (step s (r.read 0 w)) _).image = img
      rw [hstep]
      exact himage

end Read

/-! ## Commands for a range -/

/-- The registers of a range: sector count, the three address bytes, and the rest of the
    address with the LBA bit. -/
def rangeRegs (lba : Nat) (count : UInt8) : List (Nat × UInt8) :=
  [(2, count), (3, UInt8.ofNat lba), (4, UInt8.ofNat (lba / 256)), (5, UInt8.ofNat (lba / 65536)),
    (6, 0xE0 ||| UInt8.ofNat (lba / 16777216))]

/-- A range put in the task file, and a command. -/
def issue (r : Route) (lba : Nat) (count cmd : UInt8) : List Access :=
  (rangeRegs lba count ++ [(7, cmd)]).map fun (x : Nat × UInt8) => r.write x.1 [x.2]

/-- The number of sectors a count register stands for. -/
def countOf (count : UInt8) : Nat := if count ≠ 0 then count.toNat else 256

/-- The card with its task file set to a range. -/
def select (s : Card) (lba : Nat) (count : UInt8) : Card :=
  { s with
    sectorCount := count, sectorNumber := UInt8.ofNat lba, cylinderLow := UInt8.ofNat (lba / 256),
    cylinderHigh := UInt8.ofNat (lba / 65536), driveHead := 0xE0 ||| UInt8.ofNat (lba / 16777216) }

section Commands

variable {r : Route} {s : Card} {lba : Nat} {count : UInt8}

theorem step_reg (hr : r.Open s) (hatt : s.attached = true) {reg : Nat} (h1 : 1 ≤ reg) (h7 : reg ≤ 7) (b : UInt8) :
    step s (r.write reg [b]) = writeReg8 s reg false b := by
  obtain ⟨boot, hshown, hstep⟩ := step_write hr hatt reg (List.cons_ne_nil b [])
  rw [hstep h7]
  obtain ⟨n, rfl⟩ := Nat.exists_eq_add_of_le' h1
  show (if n + 1 > 7 then s else writeReg8 s (n + 1) boot b) = writeReg8 s (n + 1) false b
  rw [if_neg (by omega)]
  unfold writeReg8
  rw [if_neg (by simpa using hshown), if_neg (by simp)]

/-- Registers written one after another. -/
theorem run_regs (l : List (Nat × UInt8)) (hl : ∀ x ∈ l, 1 ≤ x.1 ∧ x.1 < 7) (cmd : UInt8) (hr : r.Open s)
    (hatt : s.attached = true) :
    run s ((l ++ [(7, cmd)]).map fun (x : Nat × UInt8) => r.write x.1 [x.2]) =
      executeCommand (l.foldl (fun s x => writeReg8 s x.1 false x.2) s) cmd := by
  induction l generalizing s with
  | nil => exact step_reg hr hatt (by omega) (by omega) cmd
  | cons x l ih =>
    obtain ⟨h1, h7⟩ := hl x (List.mem_cons_self ..)
    have hstep := step_reg hr hatt h1 (by omega) x.2
    have hkeep : (writeReg8 s x.1 false x.2).attached = true ∧ r.Open (writeReg8 s x.1 false x.2) := by
      obtain ⟨_, _, _, _, _, _, h⟩ := (writeReg8_regs s false h7 x.2).1
      rw [h]
      exact ⟨hatt, hr⟩
    rw [List.cons_append, List.map_cons, List.foldl_cons]
    show run (step s (r.write x.1 [x.2])) _ = _
    rw [hstep]
    exact ih (fun y hy => hl y (List.mem_cons_of_mem _ hy)) hkeep.2 hkeep.1

theorem run_issue (hr : r.Open s) (hatt : s.attached = true) (lba : Nat) (count cmd : UInt8) :
    run s (issue r lba count cmd) = executeCommand (select s lba count) cmd := by
  have hregs : (rangeRegs lba count).foldl (fun s x => writeReg8 s x.1 false x.2) s = select s lba count := by
    simp only [rangeRegs, List.foldl_cons, List.foldl_nil, writeReg8, Bool.false_eq_true, false_and, if_false, select]
  rw [issue, run_regs (rangeRegs lba count) (by simp [rangeRegs]) cmd hr hatt, hregs]

theorem head_bits : ∀ x : Fin 16, ((0xE0 ||| UInt8.ofNat x) &&& 0x0F : UInt8).toNat = x ∧
    (0xE0 ||| UInt8.ofNat x) &&& dhLba ≠ 0 := by decide

theorem select_lba (s : Card) (hlba : lba < 2 ^ 28) (count : UInt8) :
    currentLba (select s lba count) = lba ∧ (select s lba count).driveHead &&& dhLba ≠ 0 := by
  obtain ⟨hbits, hmode⟩ := head_bits ⟨lba / 16777216, by omega⟩
  refine ⟨?_, hmode⟩
  unfold currentLba select
  simp only at hbits ⊢
  rw [hbits]
  simp only [UInt8.toNat_ofNat']
  omega

theorem countOf_pos (count : UInt8) : 0 < countOf count := sectors_pos (select (loaded (fun _ => 0) 0 []) 0 count)

theorem countOf_le (count : UInt8) : countOf count ≤ 256 := by
  unfold countOf
  split
  · exact Nat.le_of_lt count.toNat_lt
  · exact Nat.le_refl _

theorem execute_read (hatt : s.attached = true) :
    executeCommand s cmdReadSectors = prepareRead { s with commandReg := cmdReadSectors, errorReg := 0 } := by
  unfold executeCommand
  simp only
  rw [if_neg (by simp [hatt]), if_neg (by decide), if_true]

theorem execute_write (hatt : s.attached = true) :
    executeCommand s cmdWriteSectors = beginWrite { s with commandReg := cmdWriteSectors, errorReg := 0 } := by
  unfold executeCommand
  simp only
  rw [if_neg (by simp [hatt]), if_neg (by decide), if_neg (by decide), if_true]

theorem beginWrite_inside (hmode : s.driveHead &&& dhLba ≠ 0) (hin : ¬ (currentLba s + sectors s) * sectorSize > s.imageSize) :
    beginWrite s = prepareWriteSector { s with transferLba := currentLba s, transferRemaining := sectors s } := by
  unfold beginWrite
  rw [if_neg hmode, if_neg hin]

theorem prepareRead_inside (hmode : s.driveHead &&& dhLba ≠ 0) (hin : ¬ (currentLba s + sectors s) * sectorSize > s.imageSize) :
    prepareRead s = (loadReadSector { s with transferLba := currentLba s, transferRemaining := sectors s }).2 := by
  unfold prepareRead
  rw [if_neg hmode, if_neg hin]

theorem writing_begin (hr : r.Open s) (hatt : s.attached = true) (hlba : lba < 2 ^ 28)
    (hrange : 512 * (lba + countOf count) ≤ s.imageSize) :
    Writing r s.image lba (countOf count) [] 0 0 (executeCommand (select s lba count) cmdWriteSectors) := by
  obtain ⟨hcurrent, hmode⟩ := select_lba s hlba count
  have hexec := execute_write (s := select s lba count) hatt
  have hin : ¬ (currentLba (select s lba count) + countOf count) * sectorSize > s.imageSize := by
    rw [hcurrent]
    unfold sectorSize
    omega
  rw [hexec, beginWrite_inside (s := { select s lba count with commandReg := cmdWriteSectors, errorReg := 0 }) hmode hin]
  exact ⟨hatt, hr, rfl, by omega, funext fun a => (if_neg (by omega)).symm,
    fun _ => ⟨rfl, rfl, rfl, hcurrent, rfl, fun i hi => by omega⟩⟩

theorem reading_begin (hr : r.Open s) (hatt : s.attached = true) (hlba : lba < 2 ^ 28)
    (hrange : 512 * (lba + countOf count) ≤ s.imageSize) :
    Reading r s.image lba (countOf count) 0 0 (executeCommand (select s lba count) cmdReadSectors) := by
  obtain ⟨hcurrent, hmode⟩ := select_lba s hlba count
  have hpos := countOf_pos count
  have hexec := execute_read (s := select s lba count) hatt
  have hin : ¬ (currentLba (select s lba count) + countOf count) * sectorSize > s.imageSize := by
    rw [hcurrent]
    unfold sectorSize
    omega
  rw [hexec, prepareRead_inside (s := { select s lba count with commandReg := cmdReadSectors, errorReg := 0 }) hmode hin,
    loadReadSector_inside (by
      show currentLba (select s lba count) * sectorSize + sectorSize ≤ s.imageSize
      rw [hcurrent]
      unfold sectorSize
      omega)]
  refine ⟨hatt, hr, hrange, by omega, rfl, fun _ => ⟨rfl, rfl, rfl, hcurrent, rfl, fun i _ => ?_⟩⟩
  show s.image (currentLba (select s lba count) * sectorSize + i) = s.image (512 * (lba + 0) + i)
  rw [hcurrent, Nat.mul_comm]
  rfl

/-- A request that is not wholly inside the image. -/
theorem request_outside (hatt : s.attached = true) (hmode : s.driveHead &&& dhLba ≠ 0)
    (hrange : (currentLba s + sectors s) * sectorSize > s.imageSize) {cmd : UInt8}
    (hcmd : cmd = cmdReadSectors ∨ cmd = cmdWriteSectors) :
    (executeCommand s cmd).statusReg = stErr ||| stDrdy ||| stDsc ∧ (executeCommand s cmd).errorReg = 0x10 ∧
      (executeCommand s cmd).image = s.image := by
  have hexec : executeCommand s cmd = setError { s with commandReg := cmd, errorReg := 0 } 0x10 := by
    rcases hcmd with rfl | rfl
    · rw [execute_read hatt]
      unfold prepareRead
      rw [if_neg hmode]
      exact if_pos hrange
    · rw [execute_write hatt]
      unfold beginWrite
      rw [if_neg hmode]
      exact if_pos hrange
  rw [hexec]
  refine ⟨?_, rfl, rfl⟩
  unfold setError ready
  simp only [hatt, if_true]
  decide

end Commands

theorem run_append (s : Card) (l m : List Access) : run s (l ++ m) = run (run s l) m := List.foldl_append

theorem step_imageSize {s : Card} (hs : Safe s) (a : Access) : (step s a).imageSize = s.imageSize := by
  have hcases := step_cases s a
  generalize step s a = t at hcases ⊢
  cases hcases with
  | same => rfl
  | read size =>
    rcases dataRead_cases hs size with h | ⟨p, -, -, -, h⟩ | ⟨-, hsame, -⟩
    · rw [h]
    · rw [h]
    · exact hsame.imageSize
  | write value =>
    rcases dataWrite_cases hs value with h | ⟨p, buf, -, -, h⟩ | ⟨-, -, -, -, hsize, -⟩
    · rw [h]
    · rw [h]
    · exact hsize
  | regs t hregs =>
    obtain ⟨_, _, _, _, _, _, rfl⟩ := hregs
    rfl
  | control value => rfl
  | execute s' cmd hregs =>
    have hs' := hregs.safe hs
    obtain ⟨_, _, _, _, _, _, rfl⟩ := hregs
    rcases Bool.eq_false_or_eq_true (readyOnly _ cmd) with h | h
    · rw [execute_ready hs'.attached h]
    · exact (execute_follows hs'.attached h).1.imageSize
  | reset visible floating => rfl

theorem run_imageSize {s : Card} (hs : Safe s) (l : List Access) : (run s l).imageSize = s.imageSize := by
  induction l generalizing s with
  | nil => rfl
  | cons a l ih => exact (ih (hs.step a)).trans (step_imageSize hs a)

/-- After any accesses: what is written to sectors of the image is read back and nothing else
    of the image changes, no access has been outside the image, and a request not wholly
    inside it fails with error 0x10 and leaves it alone. -/
theorem sectors_round_trip (image : Nat → UInt8) (imageSize : Nat) (cis : List UInt8) (l : List Access) :
    let s := run (loaded image imageSize cis) l
    (∀ (r : Route) (lba : Nat) (count : UInt8) (chunks : List (List UInt8)) (widths : List Nat), r.Open s → lba < 2 ^ 28 →
      512 * (lba + countOf count) ≤ imageSize → Fit 0 (chunks.map List.length) →
      chunks.flatten.length = 512 * countOf count → Fit 0 widths → widths.sum = 512 * countOf count →
        let written := run s (issue r lba count cmdWriteSectors ++ chunks.map (r.write 0))
        let request := run written (issue r lba count cmdReadSectors)
        values request (widths.map (r.read 0)) = chunks.flatten ∧
          (run request (widths.map (r.read 0))).image = written.image ∧
          ∀ a, a < 512 * lba ∨ 512 * (lba + countOf count) ≤ a → written.image a = s.image a) ∧
      s.outside = false ∧
      (s.driveHead &&& dhLba ≠ 0 → (currentLba s + sectors s) * sectorSize > imageSize →
        ∀ cmd, cmd = cmdReadSectors ∨ cmd = cmdWriteSectors →
          (executeCommand s cmd).statusReg = stErr ||| stDrdy ||| stDsc ∧ (executeCommand s cmd).errorReg = 0x10 ∧
            (executeCommand s cmd).image = s.image) := by
  intro s
  have hsafe : Safe s := safe_run (safe_loaded image imageSize cis) l
  have hsize : s.imageSize = imageSize := run_imageSize (safe_loaded image imageSize cis) l
  refine ⟨?_, hsafe.inside, fun hmode hrange cmd hcmd => request_outside hsafe.attached hmode (by rw [hsize]; exact hrange) hcmd⟩
  intro r lba count chunks widths hr hlba hrange hfit htotal hfit' hsum
  have hcount := countOf_le count
  -- the write
  have hwritten : run s (issue r lba count cmdWriteSectors ++ chunks.map (r.write 0)) =
      run (executeCommand (select s lba count) cmdWriteSectors) (chunks.map (r.write 0)) := by
    rw [run_append, run_issue hr hsafe.attached]
  obtain ⟨q, p, hdone⟩ := (writing_begin hr hsafe.attached hlba (by rw [hsize]; exact hrange)).run (by omega) chunks hfit
    (Nat.le_of_eq (by rw [List.length_nil, Nat.zero_add, htotal]))
  rw [← hwritten, List.nil_append] at hdone
  have hlen := hdone.count
  have hlt := hdone.lt
  have hq : q = countOf count := by omega
  -- the read
  have hsize' : (run s (issue r lba count cmdWriteSectors ++ chunks.map (r.write 0))).imageSize = imageSize :=
    (run_imageSize hsafe _).trans hsize
  have hrange' : 512 * (lba + countOf count) ≤ (run s
    (issue r lba count cmdWriteSectors ++ chunks.map (r.write 0))).imageSize := by
    rw [hsize']
    exact hrange
  have hreading := reading_begin hdone.shown hdone.attached hlba hrange'
  obtain ⟨hvalues, himage⟩ := hreading.run (by omega) widths hfit' (by omega)
  simp only
  rw [run_issue hdone.shown hdone.attached]
  refine ⟨?_, himage, fun a ha => ?_⟩
  · rw [hvalues, hsum, hdone.image, ← htotal]
    apply List.ext_getElem
    · simp
    · intro i h1 h2
      simp only [List.getElem_map, List.getElem_range]
      unfold overlay
      rw [if_pos (by omega), show 512 * lba + (512 * 0 + 0) + i - 512 * lba = i by omega, List.getD_eq_getElem _ _ h2]
  · rw [hdone.image]
    unfold overlay
    rw [if_neg (by omega)]

set_option maxRecDepth 100000 in
/-- The second of two sectors, written in words and read in halfwords. -/
theorem second_sector :
    let written := run (loaded (fun _ => 0) 1024 []) (issue (.window 0x1F0) 1 1 cmdWriteSectors ++
      (List.replicate 128 [1, 2, 3, 4]).map ((Route.window 0x1F0).write 0))
    values (run written (issue (.window 0x1F0) 1 1 cmdReadSectors)) ((List.replicate 256 2).map ((Route.window 0x1F0).read 0)) =
      (List.replicate 128 [1, 2, 3, 4]).flatten :=
  ((sectors_round_trip (fun _ => 0) 1024 [] []).1 (.window 0x1F0) 1 1 _ _ (Or.inl rfl) (by decide) (by decide)
    (by decide) (by decide) (by decide) (by decide)).1

end Be300.Cf.Ata
