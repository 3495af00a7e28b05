/-
  Be300.Cf.Taskfile — what a command without sectors leaves in the task file.

  RECALIBRATE, EXECUTE DEVICE DIAGNOSTIC and SET FEATURES leave its registers alone. The
  data of IDENTIFY DEVICE are read through the data port as a sector is, and when the last
  byte is read the port counts a sector (`reads_identify`): the sector count becomes 0 and
  the address that of the sector after the last one transferred.
-/

import Be300.Cf.Sectors

namespace Be300.Cf.Ata

/-- The sector count, address and device registers. -/
def taskfile (s : Card) : UInt8 × UInt8 × UInt8 × UInt8 × UInt8 :=
  (s.sectorCount, s.sectorNumber, s.cylinderLow, s.cylinderHigh, s.driveHead)

/-- The commands that are not about sectors. -/
def Sectorless (cmd : UInt8) : Prop := cmd = cmdIdentify ∨ cmd = cmdRecal ∨ cmd = cmdDiagnostic ∨ cmd = cmdSetFeatures

/-- Reads of the data port, each where the card answers. -/
def dataReads (reads : List (Route × Nat)) : List Access := reads.map fun x => x.1.read 0 x.2

/-- The reads take all the data of the command. -/
def TakesAll (cmd : UInt8) (reads : List (Route × Nat)) : Prop :=
  if cmd = cmdIdentify then sectorSize ≤ (reads.map Prod.snd).sum else reads = []

/-- The task file after a sector is counted of a transfer with none left. -/
def counted (s : Card) : UInt8 × UInt8 × UInt8 × UInt8 × UInt8 :=
  taskfile (updateTaskfileAfterSector s ((s.transferLba + 1) % 2 ^ 32) 0)

section Reads

variable {s : Card} {reads : List (Route × Nat)}

/-- Where reads of the data port can be made. -/
def Readable (s : Card) (reads : List (Route × Nat)) : Prop := ∀ x ∈ reads, x.1.Open s ∧ 0 < x.2

theorem Readable.congr {t : Card} (h : Readable s reads) (ht : t.bootVisible = s.bootVisible) : Readable t reads := by
  intro x hx
  obtain ⟨hopen, hpos⟩ := h x hx
  refine ⟨?_, hpos⟩
  cases hroute : x.1 with
  | window base =>
    rw [hroute] at hopen
    exact hopen
  | boot =>
    rw [hroute] at hopen
    exact ht.trans hopen

theorem step_read {r : Route} {size : Nat} (hr : r.Open s) (hatt : s.attached = true) (hsize : 0 < size) :
    step s (r.read 0 size) = (dataRead s size).2 := by
  rw [← access_snd, access_data hr hatt hsize]

/-- Without data, reads change nothing. -/
theorem reads_ended (hatt : s.attached = true) (hlength : s.dataLength = 0) (hreads : Readable s reads) :
    run s (dataReads reads) = s := by
  induction reads with
  | nil => rfl
  | cons x reads ih =>
    obtain ⟨hopen, hpos⟩ := hreads x List.mem_cons_self
    have hstep : step s (x.1.read 0 x.2) = s := by
      rw [step_read hopen hatt hpos]
      unfold dataRead
      rw [if_pos (Or.inl hlength)]
    show run (step s (x.1.read 0 x.2)) (dataReads reads) = s
    rw [hstep]
    exact ih fun y hy => hreads y (List.mem_cons_of_mem x hy)

theorem endReadSector_last (hremaining : s.transferRemaining = 0) : taskfile (endReadSector s) = counted s ∧
    (endReadSector s).dataLength = 0 ∧ (endReadSector s).attached = s.attached ∧
    (endReadSector s).bootVisible = s.bootVisible := by
  unfold endReadSector
  simp only
  rw [hremaining, if_neg (by omega)]
  exact ⟨rfl, rfl, rfl, rfl⟩

/-- Reads of the last data of a transfer. -/
theorem reads_identify (s : Card) (reads : List (Route × Nat)) (hatt : s.attached = true) (hlength : s.dataLength = sectorSize)
    (hpos : s.dataPos < sectorSize)
    (hpending : s.pendingWrite = false) (hremaining : s.transferRemaining = 0) (hreads : Readable s reads) :
    taskfile (run s (dataReads reads)) =
      if sectorSize ≤ s.dataPos + (reads.map Prod.snd).sum then counted s else taskfile s := by
  induction reads generalizing s with
  | nil =>
    rw [if_neg (by simp only [List.map_nil, List.sum_nil]; omega)]
    rfl
  | cons x reads ih =>
    obtain ⟨hopen, hsize⟩ := hreads x List.mem_cons_self
    have hrest : Readable s reads := fun y hy => hreads y (List.mem_cons_of_mem x hy)
    have hread : step s (x.1.read 0 x.2) =
        if min (s.dataPos + x.2) sectorSize ≥ sectorSize then
          endReadSector { s with dataPos := min (s.dataPos + x.2) sectorSize }
        else { s with dataPos := min (s.dataPos + x.2) sectorSize } := by
      rw [step_read hopen hatt hsize]
      unfold dataRead
      rw [if_neg (by rw [hlength, hpending]; decide)]
      simp only
      rw [readBytes_snd x.2 (by rw [hlength]; omega), hlength]
    show taskfile (run (step s (x.1.read 0 x.2)) (dataReads reads)) = _
    rw [hread, List.map_cons, List.sum_cons]
    by_cases hend : sectorSize ≤ s.dataPos + x.2
    · rw [if_pos (by omega), if_pos (by omega)]
      obtain ⟨htask, hzero, hatt', hvisible⟩ := endReadSector_last
        (s := { s with dataPos := min (s.dataPos + x.2) sectorSize }) hremaining
      rw [reads_ended (hatt'.trans hatt) hzero (hrest.congr hvisible), htask]
      rfl
    · have hnext := ih { s with dataPos := min (s.dataPos + x.2) sectorSize } hatt hlength (by simp only; omega)
        hpending hremaining (hrest.congr rfl)
      rw [if_neg (by omega), hnext]
      have hsum : min (s.dataPos + x.2) sectorSize + (reads.map Prod.snd).sum =
          s.dataPos + (x.2 + (reads.map Prod.snd).sum) := by omega
      simp only [hsum]
      rfl

end Reads

section Commands

variable {s : Card} {cmd : UInt8} {reads : List (Route × Nat)}

/-- The upper half of one register with the lower half of another. -/
theorem halves (b x : UInt8) : ((b &&& 0xF0) ||| (x &&& 0x0F)) &&& 0x0F = x &&& 0x0F ∧ (b &&& 0xF0) ||| (b &&& 0x0F) = b := by
  have hbits : ∀ i < 8, i = 0 ∨ i = 1 ∨ i = 2 ∨ i = 3 ∨ i = 4 ∨ i = 5 ∨ i = 6 ∨ i = 7 := by omega
  constructor
  · apply UInt8.toBitVec_inj.mp
    ext i hi
    rcases hbits i hi with rfl | rfl | rfl | rfl | rfl | rfl | rfl | rfl <;> simp
  · apply UInt8.toBitVec_inj.mp
    ext i hi
    rcases hbits i hi with rfl | rfl | rfl | rfl | rfl | rfl | rfl | rfl <;> simp

theorem low_half (b : UInt8) : (b &&& 0x0F).toNat = b.toNat % 16 := by
  rw [UInt8.toNat_and]
  exact Nat.and_two_pow_sub_one_eq_mod b.toNat 4

theorem counted_iff : counted s = taskfile s ↔ s.sectorCount = 0 ∧ currentLba s = (s.transferLba + 1) % 2 ^ 28 := by
  have hlow : (s.transferLba + 1) % 2 ^ 28 = (s.transferLba + 1) % 2 ^ 32 % 2 ^ 28 := by omega
  have hcount : counted s = (0, UInt8.ofNat ((s.transferLba + 1) % 2 ^ 32), UInt8.ofNat ((s.transferLba + 1) % 2 ^ 32 / 256),
      UInt8.ofNat ((s.transferLba + 1) % 2 ^ 32 / 65536),
      (s.driveHead &&& 0xF0) ||| (UInt8.ofNat ((s.transferLba + 1) % 2 ^ 32 / 16777216) &&& 0x0F)) := rfl
  rw [hcount, hlow]
  generalize (s.transferLba + 1) % 2 ^ 32 = n
  have h3 := s.sectorNumber.toNat_lt
  have h4 := s.cylinderLow.toNat_lt
  have h5 := s.cylinderHigh.toNat_lt
  unfold taskfile currentLba
  rw [low_half]
  simp only [Prod.mk.injEq]
  constructor
  · rintro ⟨hzero, hnumber, hcyl, hhigh, hhead⟩
    have hdevice := congrArg (fun b : UInt8 => (b &&& 0x0F).toNat) hhead
    rw [(halves s.driveHead _).1, low_half, low_half, UInt8.toNat_ofNat'] at hdevice
    refine ⟨hzero.symm, ?_⟩
    rw [← hnumber, ← hcyl, ← hhigh]
    simp only [UInt8.toNat_ofNat']
    omega
  · rintro ⟨hzero, hlba⟩
    refine ⟨hzero.symm, ?_, ?_, ?_, ?_⟩
    · apply UInt8.toNat_inj.mp
      rw [UInt8.toNat_ofNat']
      omega
    · apply UInt8.toNat_inj.mp
      rw [UInt8.toNat_ofNat']
      omega
    · apply UInt8.toNat_inj.mp
      rw [UInt8.toNat_ofNat']
      omega
    · have hdevice : UInt8.ofNat (n / 16777216) &&& 0x0F = s.driveHead &&& 0x0F := by
        apply UInt8.toNat_inj.mp
        rw [low_half, low_half, UInt8.toNat_ofNat']
        omega
      rw [hdevice, (halves s.driveHead s.driveHead).2]

/-- A command that is not about sectors changes none of these registers. -/
theorem execute_taskfile (hatt : s.attached = true) (hcmd : Sectorless cmd) : taskfile (executeCommand s cmd) = taskfile s := by
  unfold executeCommand
  simp only
  rw [if_neg (by simp [hatt])]
  rcases hcmd with rfl | rfl | rfl | rfl
  · rw [if_pos rfl]
    rfl
  · rw [if_neg (by decide), if_neg (by decide), if_neg (by decide), if_pos (Or.inl rfl)]
    rfl
  · rw [if_neg (by decide), if_neg (by decide), if_neg (by decide), if_pos (Or.inr (Or.inr rfl))]
    rfl
  · rw [if_neg (by decide), if_neg (by decide), if_neg (by decide), if_neg (by decide), if_pos rfl]
    split <;> rfl

/-- The task file after a command and the reads of its data. -/
theorem command_taskfile (s : Card) (r : Route) (cmd : UInt8) (reads : List (Route × Nat)) (hr : r.Open s)
    (hatt : s.attached = true) (hcmd : Sectorless cmd)
    (hall : TakesAll cmd reads) (hreads : Readable s reads) :
    taskfile (run s (r.write 7 [cmd] :: dataReads reads)) = if cmd = cmdIdentify then counted s else taskfile s := by
  have hstep : step s (r.write 7 [cmd]) = executeCommand s cmd := step_reg hr hatt (by omega) (by omega) cmd
  show taskfile (run (step s (r.write 7 [cmd])) (dataReads reads)) = _
  rw [hstep]
  unfold TakesAll at hall
  by_cases hidentify : cmd = cmdIdentify
  · rw [if_pos hidentify] at hall ⊢
    have hexecute : executeCommand s cmd = prepareIdentify { s with commandReg := cmd, errorReg := 0 } := by
      unfold executeCommand
      simp only
      rw [if_neg (by simp [hatt]), if_pos hidentify]
    rw [hexecute]
    have hdata := reads_identify (prepareIdentify { s with commandReg := cmd, errorReg := 0 }) reads
      hatt rfl (by show 0 < sectorSize; decide) rfl rfl (hreads.congr rfl)
    rw [hdata, if_pos (by show sectorSize ≤ 0 + _; omega)]
    rfl
  · rw [if_neg hidentify] at hall ⊢
    rw [hall]
    exact execute_taskfile hatt hcmd

end Commands

/-- From a loaded card, after any accesses: a command that is not about sectors, with the
    reads of all its data in accesses of any width, leaves the task file as it is exactly
    when it is not IDENTIFY DEVICE, or when the sector count is 0 and the address is that of
    the sector after the last one transferred. -/
theorem taskfile_kept_iff (image : Nat → UInt8) (imageSize : Nat) (cis : List UInt8) (l : List Access) (r : Route) (cmd : UInt8)
    (reads : List (Route × Nat)) (hr : r.Open (run (loaded image imageSize cis) l)) (hcmd : Sectorless cmd)
    (hreads : Readable (run (loaded image imageSize cis) l) reads) (hall : TakesAll cmd reads) :
    taskfile (run (run (loaded image imageSize cis) l) (r.write 7 [cmd] :: dataReads reads)) =
        taskfile (run (loaded image imageSize cis) l) ↔
      cmd ≠ cmdIdentify ∨ (run (loaded image imageSize cis) l).sectorCount = 0 ∧
        currentLba (run (loaded image imageSize cis) l) = ((run (loaded image imageSize cis) l).transferLba + 1) % 2 ^ 28 := by
  have hatt := (safe_run (safe_loaded image imageSize cis) l).attached
  generalize run (loaded image imageSize cis) l = s at hr hreads hatt ⊢
  rw [command_taskfile s r cmd reads hr hatt hcmd hall hreads]
  by_cases hidentify : cmd = cmdIdentify
  · rw [if_pos hidentify, counted_iff]
    simp [hidentify]
  · rw [if_neg hidentify]
    simp [hidentify]

/-- The data port in steps of four bytes. -/
def wordReads : List (Route × Nat) := List.replicate 128 (.window 0x1F0, 4)

theorem wordReads_window {x : Route × Nat} (h : x ∈ wordReads) : x = (.window 0x1F0, 4) := (List.mem_replicate.mp h).2

set_option maxRecDepth 10000 in
theorem wordReads_all : TakesAll cmdIdentify wordReads := by
  unfold TakesAll
  decide

/-- After a sector count of 0 the address of a reset card, 1, is the one IDENTIFY DEVICE goes on to. -/
theorem identify_keeps_zero :
    taskfile (run (run (loaded (fun _ => 0) 512 []) [.windowWrite 0x1F2 [0]])
      (.windowWrite 0x1F7 [cmdIdentify] :: dataReads wordReads)) =
      taskfile (run (loaded (fun _ => 0) 512 []) [.windowWrite 0x1F2 [0]]) := by
  have hreads : Readable (run (loaded (fun _ => 0) 512 []) [.windowWrite 0x1F2 [0]]) wordReads := by
    intro x hx
    rw [wordReads_window hx]
    exact ⟨Or.inl rfl, by decide⟩
  exact (taskfile_kept_iff (fun _ => 0) 512 [] [.windowWrite 0x1F2 [0]] (.window 0x1F0) cmdIdentify wordReads (Or.inl rfl)
    (Or.inl rfl)
    hreads wordReads_all).mpr (Or.inr ⟨rfl, by decide⟩)

/-- IDENTIFY DEVICE after a reset, read in words of four bytes, changes a sector count of 1 to 0. -/
theorem identify_counts_sector :
    taskfile (run (run (loaded (fun _ => 0) 512 []) []) (.windowWrite 0x1F7 [cmdIdentify] :: dataReads wordReads)) ≠
      taskfile (run (loaded (fun _ => 0) 512 []) []) := by
  have hafter := command_taskfile (loaded (fun _ => 0) 512 []) (.window 0x1F0) cmdIdentify wordReads
    (Or.inl rfl) rfl (Or.inl rfl) wordReads_all (by
      intro x hx
      rw [wordReads_window hx]
      exact ⟨Or.inl rfl, by decide⟩)
  intro h
  have hsame := hafter.symm.trans h
  rw [if_pos rfl] at hsame
  exact absurd (counted_iff.mp hsame).1 (by decide)

end Be300.Cf.Ata
