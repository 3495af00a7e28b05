/-
  Be300.Cf.Transfer — the transfers of the storage card, over every run of accesses.

  `Safe` holds whatever the accesses: a transfer's position lies in its buffer, and the
  sectors a write has still to receive lie in the image. `Steady` adds what the status
  register says: DRQ is set exactly while bytes are left, and sectors are received only for
  WRITE SECTORS.

  RECALIBRATE, READ VERIFY, DIAGNOSTIC and the two features `cf_execute_command` knows only
  set the ready bits (`readyOnly`). Issued in the data phase of another command they leave
  its transfer in place without DRQ, and the data port goes on with it. `Clear` says that an
  access issues none of these while bytes are left. `transfer_iff`: the steps of a run keep
  what they should (`Sound`) exactly when they are clear.
-/

import Be300.Cf.Ata

namespace Be300.Cf.Ata

/-! ## What the accesses do -/

/-- Bytes of a transfer are left. -/
def busy (s : Card) : Bool := decide (s.dataPos < s.dataLength)

def drq (s : Card) : Bool := s.statusReg &&& stDrq != 0

/-- The commands that do nothing but set the ready bits. -/
def readyOnly (feature cmd : UInt8) : Bool :=
  cmd == cmdRecal || cmd == cmdReadVerify || cmd == cmdDiagnostic ||
    cmd == cmdSetFeatures && (feature == 0x03 || feature == 0x01)

/-- The window an access goes through, its port and its bytes. -/
def writes (s : Card) : Access → Option (Bool × Option Port × List UInt8)
  | .windowWrite offset value => if value = [] ∨ !s.attached then none else some (false, decodeTaskfileOffset offset, value)
  | .bootWrite offset value => if value = [] ∨ !s.attached then none else some (true, decodeBootOffset offset, value)
  | _ => none

/-- The command an access issues, with the feature register it finds. -/
def command (s : Card) (a : Access) : Option (UInt8 × UInt8) :=
  match writes s a with
  | some (boot, some (.reg (n + 1)), value) =>
    if boot ∧ !s.bootVisible then none
    else (if n + 1 ≤ 7 then value[6 - n]? else none).map fun cmd =>
      (if n = 0 then value.headD s.featureReg else s.featureReg, cmd)
  | _ => none

/-- The bytes an access sends to the data port. -/
def dataBytes (s : Card) (a : Access) : Option (List UInt8) :=
  match writes s a with
  | some (boot, some (.reg 0), value) => if boot ∧ !s.bootVisible then none else some value
  | _ => none

/-- The access resets the task file. -/
def softReset (s : Card) (a : Access) : Bool :=
  match writes s a with
  | some (boot, some .alt, b :: _) => boot && s.bootVisible && b == 0 || b &&& 0x04 != 0
  | _ => false

/-- Only task file registers differ. -/
def TaskRegs (s s' : Card) : Prop :=
  ∃ f c n l h d, s' = { s with
    featureReg := f, sectorCount := c, sectorNumber := n, cylinderLow := l, cylinderHigh := h, driveHead := d }

theorem TaskRegs.refl (s : Card) : TaskRegs s s := ⟨_, _, _, _, _, _, rfl⟩

theorem TaskRegs.trans {s s' s'' : Card} (h : TaskRegs s s') (h' : TaskRegs s' s'') : TaskRegs s s'' := by
  obtain ⟨_, _, _, _, _, _, rfl⟩ := h
  obtain ⟨_, _, _, _, _, _, rfl⟩ := h'
  exact ⟨_, _, _, _, _, _, rfl⟩

section Effects

variable {s : Card} {boot : Bool}

theorem writeReg8_regs (s : Card) (boot : Bool) {reg : Nat} (hreg : reg < 7) (b : UInt8) :
    TaskRegs s (writeReg8 s reg boot b) ∧ (reg ≠ 1 → (writeReg8 s reg boot b).featureReg = s.featureReg) := by
  unfold writeReg8
  split
  · exact ⟨TaskRegs.refl s, fun _ => rfl⟩
  · split
    · exact ⟨⟨_, _, _, _, _, _, rfl⟩, fun h => absurd rfl h⟩
    all_goals first
      | exact ⟨⟨_, _, _, _, _, _, rfl⟩, fun _ => rfl⟩
      | omega

theorem writeReg8_feature (hvisible : (boot && !s.bootVisible) = false) (b : UInt8) :
    (writeReg8 s 1 boot b).featureReg = b := by
  unfold writeReg8
  rw [if_neg (by simpa using hvisible)]
  rfl

theorem writeRegs_hidden (hhidden : (boot && !s.bootVisible) = true) (reg : Nat) (value : List UInt8) :
    writeRegs boot reg value s = s := by
  induction value generalizing reg with
  | nil => rfl
  | cons b value ih =>
    have h8 : writeReg8 s reg boot b = s := if_pos (by simpa using hhidden)
    rw [writeRegs, h8, ih, ite_self]

/-- Past register 7 nothing is written. -/
theorem writeRegs_past {reg : Nat} (hreg : 7 < reg) (value : List UInt8) : writeRegs boot reg value s = s := by
  cases value with
  | nil => rfl
  | cons b value => exact if_pos hreg

/-- Registers are written up to the command register, and then the command is executed. -/
theorem writeRegs_spec {reg : Nat} (h1 : 1 ≤ reg) (h7 : reg ≤ 7) (value : List UInt8) (s : Card)
    (hvisible : (boot && !s.bootVisible) = false) :
    ∃ s', TaskRegs s s' ∧ s'.featureReg = (if reg = 1 then value.headD s.featureReg else s.featureReg) ∧
      writeRegs boot reg value s = match value[7 - reg]? with
        | some cmd => executeCommand s' cmd
        | none => s' := by
  induction value generalizing reg s with
  | nil => exact ⟨s, TaskRegs.refl s, by simp, by simp [writeRegs]⟩
  | cons b value ih =>
    have hstep : writeRegs boot reg (b :: value) s = writeRegs boot (reg + 1) value (writeReg8 s reg boot b) :=
      if_neg (by omega)
    rw [hstep]
    rcases Nat.lt_or_eq_of_le h7 with hlt | rfl
    · obtain ⟨hregs, hother⟩ := writeReg8_regs s boot hlt b
      have hvisible' : (boot && !(writeReg8 s reg boot b).bootVisible) = false := by
        obtain ⟨_, _, _, _, _, _, h⟩ := hregs
        rw [h]
        exact hvisible
      obtain ⟨s', hs', hfeature, heq⟩ := @ih (reg + 1) (by omega) (by omega) (writeReg8 s reg boot b) hvisible'
      refine ⟨s', hregs.trans hs', ?_, ?_⟩
      · rw [hfeature, if_neg (by omega)]
        by_cases hone : reg = 1
        · subst hone
          exact writeReg8_feature hvisible b
        · rw [hother hone, if_neg hone]
      · rw [heq, show 7 - reg = (7 - (reg + 1)) + 1 by omega, List.getElem?_cons_succ]
    · refine ⟨s, TaskRegs.refl s, by simp, ?_⟩
      have h8 : writeReg8 s 7 boot b = executeCommand s b := if_neg (by simpa using hvisible)
      rw [writeRegs_past (by omega), h8]
      rfl

/-- What an access can do to the card. -/
inductive StepCases (s : Card) (a : Access) : Card → Prop
  | same (hcommand : command s a = none) (hreset : softReset s a = false) : StepCases s a s
  | read (size : Nat) (hcommand : command s a = none) (hreset : softReset s a = false) : StepCases s a (dataRead s size).2
  | write (value : List UInt8) (hdata : dataBytes s a = some value) (hcommand : command s a = none)
      (hreset : softReset s a = false) : StepCases s a (dataWrite s value)
  | regs (s' : Card) (hregs : TaskRegs s s') (hcommand : command s a = none) (hreset : softReset s a = false) :
      StepCases s a s'
  | control (value : UInt8) (hcommand : command s a = none) (hreset : softReset s a = false) :
      StepCases s a { s with deviceControl := value }
  | execute (s' : Card) (cmd : UInt8) (hregs : TaskRegs s s') (hcommand : command s a = some (s'.featureReg, cmd))
      (hreset : softReset s a = false) : StepCases s a (executeCommand s' cmd)
  | reset (visible floating : Bool) (hcommand : command s a = none) :
      StepCases s a { resetTaskfile { s with bootVisible := visible } with bootStatusFloating := floating }

theorem writePort_cases {a : Access} {port : Option Port} {value : List UInt8} (hne : value ≠ [])
    (hw : writes s a = some (boot, port, value)) : StepCases s a (writePort s boot port value) := by
  have hno : ∀ (p : Option Port), writes s a = some (boot, p, value) → (∀ n, p ≠ some (.reg (n + 1))) → command s a = none := by
    intro p hp hne
    unfold command
    rw [hp]
    split
    · rename_i h
      cases h
      exact absurd rfl (hne _)
    · rfl
  rcases port with _ | _ | _
  · exact .same (hno _ hw (by simp)) (by simp [softReset, hw])
  · rename_i n
    have hreset : softReset s a = false := by simp [softReset, hw]
    rcases n with _ | n
    · have hcommand := hno _ hw (by simp)
      show StepCases s a (if boot = true ∧ (!s.bootVisible) = true then s else dataWrite s value)
      by_cases hvisible : boot = true ∧ (!s.bootVisible) = true
      · rw [if_pos hvisible]
        exact .same hcommand hreset
      · rw [if_neg hvisible]
        exact .write value (by simp only [dataBytes, hw]; rw [if_neg hvisible]) hcommand hreset
    · show StepCases s a (writeRegs boot (n + 1) value s)
      by_cases hvisible : (boot && !s.bootVisible) = true
      · rw [writeRegs_hidden hvisible]
        refine .same ?_ hreset
        simp only [command, hw]
        rw [if_pos (by simpa using hvisible)]
      · have hshow : ¬ (boot = true ∧ (!s.bootVisible) = true) := by simpa using hvisible
        by_cases h7 : n + 1 ≤ 7
        · obtain ⟨s', hregs, hfeature, heq⟩ := writeRegs_spec (Nat.succ_pos n) h7 value s (Bool.not_eq_true _ ▸ hvisible)
          rw [heq]
          have hcommand : command s a = value[6 - n]?.map fun cmd => (s'.featureReg, cmd) := by
            simp only [command, hw]
            rw [if_neg hshow, if_pos h7, hfeature]
            simp
          rw [show 7 - (n + 1) = 6 - n by omega]
          cases hcmd : value[6 - n]? with
          | none => exact .regs s' hregs (by rw [hcommand, hcmd]; rfl) hreset
          | some cmd => exact .execute s' cmd hregs (by rw [hcommand, hcmd]; rfl) hreset
        · rw [writeRegs_past (by omega)]
          refine .same ?_ hreset
          simp only [command, hw]
          rw [if_neg hshow, if_neg h7]
          rfl
  · have hcommand := hno _ hw (by simp)
    rcases value with _ | ⟨b, rest⟩
    · exact absurd rfl hne
    · unfold writePort writeAlt
      simp only
      by_cases hquiet : boot = true ∧ s.bootVisible = true ∧ b = 0
      · rw [if_pos hquiet]
        exact .reset s.bootVisible false hcommand
      · rw [if_neg hquiet]
        by_cases hsrst : b &&& 0x04 ≠ 0
        · rw [if_pos hsrst]
          exact .reset s.bootVisible s.bootStatusFloating hcommand
        · rw [if_neg hsrst]
          refine .control b hcommand ?_
          simp only [softReset, hw]
          simp only [not_and, Decidable.not_not] at hquiet hsrst
          simp only [hsrst, bne_self_eq_false, Bool.or_false, Bool.and_eq_false_iff]
          by_cases h1 : boot = true
          · by_cases h2 : s.bootVisible = true
            · exact Or.inr (by simpa using hquiet h1 h2)
            · exact Or.inl (Or.inr (by simpa using h2))
          · exact Or.inl (Or.inl (by simpa using h1))

theorem step_cases (s : Card) (a : Access) : StepCases s a (step s a) := by
  cases a with
  | windowRead offset size =>
    have hcommand : command s (.windowRead offset size) = none := rfl
    have hreset : softReset s (.windowRead offset size) = false := rfl
    show StepCases s _ (windowRead s offset size).2
    unfold Ata.windowRead
    repeat' split
    all_goals first
      | exact .same hcommand hreset
      | exact .read size hcommand hreset
  | bootRead offset size =>
    have hcommand : command s (.bootRead offset size) = none := rfl
    have hreset : softReset s (.bootRead offset size) = false := rfl
    show StepCases s _ (bootRead s offset size).2
    unfold Ata.bootRead
    repeat' split
    all_goals first
      | exact .same hcommand hreset
      | exact .read size hcommand hreset
  | windowWrite offset value =>
    show StepCases s _ (if value = [] ∨ (!s.attached) = true then s else writePort s false (decodeTaskfileOffset offset) value)
    by_cases h : value = [] ∨ (!s.attached) = true
    · rw [if_pos h]
      have hw : writes s (.windowWrite offset value) = none := if_pos h
      exact .same (by simp [command, hw]) (by simp [softReset, hw])
    · rw [if_neg h]
      exact writePort_cases (fun hnil => h (Or.inl hnil)) (by simp only [writes]; rw [if_neg h])
  | bootWrite offset value =>
    show StepCases s _ (if value = [] ∨ (!s.attached) = true then s else writePort s true (decodeBootOffset offset) value)
    by_cases h : value = [] ∨ (!s.attached) = true
    · rw [if_pos h]
      have hw : writes s (.bootWrite offset value) = none := if_pos h
      exact .same (by simp [command, hw]) (by simp [softReset, hw])
    · rw [if_neg h]
      exact writePort_cases (fun hnil => h (Or.inl hnil)) (by simp only [writes]; rw [if_neg h])
  | setBootVisible visible => exact .reset (visible && s.attached) false rfl

end Effects

/-! ## Transfers -/

section Transfers

variable {s : Card}

theorem readBytes_snd (size : Nat) (h : s.dataPos ≤ s.dataLength) :
    (readBytes size s).2 = { s with dataPos := min (s.dataPos + size) s.dataLength } := by
  induction size generalizing s with
  | zero => simp [readBytes, Nat.min_eq_left h]
  | succ size ih =>
    unfold readBytes
    split
    · rename_i hlt
      rw [ih (by simp only; omega)]
      simp only [Nat.add_assoc, Nat.add_comm 1 size]
    · rw [ih h]
      congr 1
      omega

/-- The buffer after bytes are put at its position. -/
def filled (s : Card) (value : List UInt8) : Nat → UInt8 := fun i =>
  if s.dataPos ≤ i ∧ i < s.dataPos + value.length then value.getD (i - s.dataPos) 0 else s.dataBuffer i

theorem writeBytes_spec (value : List UInt8) (h : s.dataPos + value.length ≤ s.dataLength) :
    writeBytes value s = { s with dataBuffer := filled s value, dataPos := s.dataPos + value.length } := by
  induction value generalizing s with
  | nil =>
    have hfill : filled s [] = s.dataBuffer := funext fun i => if_neg (by simp only [List.length_nil]; omega)
    rw [hfill]
    rfl
  | cons b value ih =>
    simp only [List.length_cons] at h
    unfold writeBytes
    rw [if_pos (by omega), ih (by simp only; omega)]
    have hfill : filled { s with
        dataBuffer := fun i => if i = s.dataPos then b else s.dataBuffer i
        dataPos := s.dataPos + 1 } value =
        filled s (b :: value) := by
      funext i
      simp only [filled, List.length_cons]
      rcases Nat.lt_trichotomy i s.dataPos with hi | hi | hi
      · rw [if_neg (by omega), if_neg (by omega), if_neg (by omega)]
      · rw [if_neg (by omega), if_pos hi, if_pos (by omega), hi, Nat.sub_self]
        rfl
      · by_cases hend : i < s.dataPos + 1 + value.length
        · rw [if_pos (by omega), if_pos (by omega), show i - s.dataPos = (i - (s.dataPos + 1)) + 1 by omega]
          rfl
        · rw [if_neg (by omega), if_neg (by omega), if_neg (by omega)]
    rw [hfill]
    simp only [List.length_cons, Nat.add_assoc, Nat.add_comm 1 value.length]

theorem writeBytes_pos (value : List UInt8) (h : s.dataPos ≤ s.dataLength) :
    ∃ buf, writeBytes value s = { s with dataBuffer := buf, dataPos := min (s.dataPos + value.length) s.dataLength } := by
  induction value generalizing s with
  | nil => exact ⟨s.dataBuffer, by simp [writeBytes, Nat.min_eq_left h]⟩
  | cons b value ih =>
    unfold writeBytes
    split
    · rename_i hlt
      obtain ⟨buf, hbuf⟩ := ih (s := { s with
        dataBuffer := fun i => if i = s.dataPos then b else s.dataBuffer i, dataPos := s.dataPos + 1 }) hlt
      refine ⟨buf, hbuf.trans ?_⟩
      simp only [List.length_cons, Nat.add_assoc, Nat.add_comm 1 value.length]
    · refine ⟨s.dataBuffer, ?_⟩
      have hpos : min (s.dataPos + (b :: value).length) s.dataLength = s.dataPos := by
        rw [Nat.min_eq_right (by omega)]
        omega
      rw [hpos]

/-- No transfer, and no DRQ. -/
structure Ended (s : Card) : Prop where
  length : s.dataLength = 0
  pos : s.dataPos = 0
  pending : s.pendingWrite = false
  status : drq s = false

/-- The start of a sector, with DRQ. -/
structure Begun (s : Card) : Prop where
  length : s.dataLength = sectorSize
  pos : s.dataPos = 0
  status : drq s = true

/-- The sectors still to be written lie in the image. -/
def WriteInside (s : Card) : Prop :=
  0 < s.transferRemaining ∧ (s.transferLba + s.transferRemaining) * sectorSize ≤ s.imageSize

theorem drq_ready (s : Card) : ready s &&& stDrq = 0 ∧ (stErr ||| ready s) &&& stDrq = 0 := by
  unfold ready
  split <;> decide

theorem drq_off (h : s.statusReg &&& stDrq = 0) : drq s = false := by simp [drq, h]

theorem drq_on (h : s.statusReg = stDrdy ||| stDsc ||| stDrq) : drq s = true := by
  rw [drq, h]
  decide

theorem ended_setError (s : Card) (err : UInt8) : Ended (setError s err) :=
  ⟨rfl, rfl, rfl, drq_off (drq_ready s).2⟩

theorem ended_finish (s : Card) : Ended (finishTransfer s) :=
  ⟨rfl, rfl, rfl, drq_off (drq_ready s).1⟩

theorem ended_reset (s : Card) : Ended (resetTaskfile s) :=
  ⟨rfl, rfl, rfl, drq_off (drq_ready s).1⟩

theorem begun_load (h : s.transferLba * sectorSize + sectorSize ≤ s.imageSize) :
    (loadReadSector s).1 = true ∧ Begun (loadReadSector s).2 ∧ (loadReadSector s).2.pendingWrite = false := by
  unfold loadReadSector
  simp only
  rw [if_neg (by omega)]
  exact ⟨rfl, ⟨rfl, rfl, drq_on rfl⟩, rfl⟩

/-- Neither the card nor its image changes. -/
structure SameCard (s t : Card) : Prop where
  attached : t.attached = s.attached
  image : t.image = s.image
  imageSize : t.imageSize = s.imageSize
  outside : t.outside = s.outside

/-- A read of the image is inside it. -/
theorem loadReadSector_same (s : Card) : SameCard s (loadReadSector s).2 := by
  unfold loadReadSector
  simp only
  split
  · exact ⟨rfl, rfl, rfl, rfl⟩
  · rename_i hinside
    exact ⟨rfl, rfl, rfl, by simp [hinside]⟩

theorem loadReadSector_cases (s : Card) :
    let t := if (loadReadSector s).1 then (loadReadSector s).2 else setError (loadReadSector s).2 0x10
    SameCard s t ∧ t.commandReg = s.commandReg ∧ (Ended t ∨ Begun t ∧ t.pendingWrite = false) := by
  simp only
  by_cases h : s.transferLba * sectorSize + sectorSize ≤ s.imageSize
  · obtain ⟨hok, hbegun, hpending⟩ := begun_load h
    rw [if_pos hok]
    refine ⟨loadReadSector_same s, ?_, Or.inr ⟨hbegun, hpending⟩⟩
    unfold loadReadSector
    simp only
    split <;> rfl
  · have hfail : loadReadSector s = (false, setError s 0x10) := by
      unfold loadReadSector
      simp only
      rw [if_pos (by omega)]
    rw [hfail]
    exact ⟨⟨rfl, rfl, rfl, rfl⟩, rfl, Or.inl (ended_setError _ _)⟩

theorem endReadSector_cases (s : Card) :
    SameCard s (endReadSector s) ∧ (endReadSector s).commandReg = s.commandReg ∧
      (Ended (endReadSector s) ∨ Begun (endReadSector s) ∧ (endReadSector s).pendingWrite = false) := by
  unfold endReadSector
  simp only
  split
  · obtain ⟨⟨h1, h2, h3, h4⟩, hcmd, hcases⟩ := loadReadSector_cases
      { updateTaskfileAfterSector s ((s.transferLba + 1) % 2 ^ 32) (s.transferRemaining - 1) with
        transferLba := (s.transferLba + 1) % 2 ^ 32, transferRemaining := s.transferRemaining - 1 }
    exact ⟨⟨h1, h2, h3, h4⟩, hcmd, hcases⟩
  · exact ⟨⟨rfl, rfl, rfl, rfl⟩, rfl, Or.inl (ended_finish _)⟩

/-- What follows a command that does more than set the ready bits. -/
def Follows (t : Card) (cmd : UInt8) : Prop :=
  Ended t ∨ Begun t ∧ (t.pendingWrite = true ∧ cmd = cmdWriteSectors ∧ WriteInside t ∨
    t.pendingWrite = false ∧ (cmd = cmdIdentify ∨ cmd = cmdReadSectors))

theorem sectors_pos (s : Card) : 0 < sectors s := by
  unfold sectors
  split
  · rename_i hne
    exact Nat.pos_of_ne_zero fun h0 => hne (UInt8.toNat_inj.mp h0)
  · decide

theorem prepareRead_follows (s : Card) : SameCard s (prepareRead s) ∧ (prepareRead s).commandReg = s.commandReg ∧
    Follows (prepareRead s) cmdReadSectors := by
  unfold prepareRead
  split
  · exact ⟨⟨rfl, rfl, rfl, rfl⟩, rfl, Or.inl (ended_setError _ _)⟩
  split
  · exact ⟨⟨rfl, rfl, rfl, rfl⟩, rfl, Or.inl (ended_setError _ _)⟩
  · rename_i hrange
    have hsectors := sectors_pos s
    have hload := begun_load (s := { s with transferLba := currentLba s, transferRemaining := sectors s })
      (Nat.le_trans (Nat.le_of_eq (Nat.succ_mul _ _).symm)
        (Nat.le_trans (Nat.mul_le_mul_right _ (by simp only; omega)) (Nat.le_of_not_lt hrange)))
    obtain ⟨h1, h2, h3, h4⟩ := loadReadSector_same { s with transferLba := currentLba s, transferRemaining := sectors s }
    refine ⟨⟨h1, h2, h3, h4⟩, ?_, Or.inr ⟨hload.2.1, Or.inr ⟨hload.2.2, Or.inr rfl⟩⟩⟩
    unfold loadReadSector
    simp only
    split <;> rfl

theorem beginWrite_follows (s : Card) : SameCard s (beginWrite s) ∧ (beginWrite s).commandReg = s.commandReg ∧
    Follows (beginWrite s) cmdWriteSectors := by
  unfold beginWrite
  split
  · exact ⟨⟨rfl, rfl, rfl, rfl⟩, rfl, Or.inl (ended_setError _ _)⟩
  split
  · exact ⟨⟨rfl, rfl, rfl, rfl⟩, rfl, Or.inl (ended_setError _ _)⟩
  · rename_i hrange
    exact ⟨⟨rfl, rfl, rfl, rfl⟩, rfl,
      Or.inr ⟨⟨rfl, rfl, drq_on rfl⟩, Or.inl ⟨rfl, rfl, sectors_pos s, Nat.le_of_not_lt hrange⟩⟩⟩

theorem execute_ready (hatt : s.attached = true) {cmd : UInt8} (h : readyOnly s.featureReg cmd = true) :
    executeCommand s cmd = { s with commandReg := cmd, errorReg := 0, statusReg := ready s } := by
  unfold executeCommand
  simp only
  rw [if_neg (by simp [hatt])]
  simp only [readyOnly, Bool.or_eq_true, Bool.and_eq_true, beq_iff_eq] at h
  rcases h with ((rfl | rfl) | rfl) | ⟨rfl, h⟩
  · rfl
  · rfl
  · rfl
  · rw [if_neg (by decide), if_neg (by decide), if_neg (by decide), if_neg (by decide), if_pos rfl, if_pos h]
    rfl

theorem execute_follows (hatt : s.attached = true) {cmd : UInt8} (h : readyOnly s.featureReg cmd = false) :
    SameCard s (executeCommand s cmd) ∧ (executeCommand s cmd).commandReg = cmd ∧ Follows (executeCommand s cmd) cmd := by
  have hfail : ∀ t : Card, t.commandReg = cmd → SameCard s t → SameCard s (setError t 0x04) ∧
      (setError t 0x04).commandReg = cmd ∧ Follows (setError t 0x04) cmd :=
    fun t hcmd hsame => ⟨⟨hsame.attached, hsame.image, hsame.imageSize, hsame.outside⟩, hcmd, Or.inl (ended_setError t 0x04)⟩
  unfold executeCommand
  simp only
  rw [if_neg (by simp [hatt])]
  by_cases h1 : cmd = cmdIdentify
  · rw [if_pos h1]
    exact ⟨⟨rfl, rfl, rfl, rfl⟩, rfl, Or.inr ⟨⟨rfl, rfl, drq_on rfl⟩, Or.inr ⟨rfl, Or.inl h1⟩⟩⟩
  rw [if_neg h1]
  by_cases h2 : cmd = cmdReadSectors
  · rw [if_pos h2]
    obtain ⟨⟨hatt', himage, hsize, hout⟩, hcmd, hfollows⟩ := prepareRead_follows { s with commandReg := cmd, errorReg := 0 }
    exact ⟨⟨hatt', himage, hsize, hout⟩, hcmd, h2 ▸ hfollows⟩
  rw [if_neg h2]
  by_cases h3 : cmd = cmdWriteSectors
  · rw [if_pos h3]
    obtain ⟨⟨hatt', himage, hsize, hout⟩, hcmd, hfollows⟩ := beginWrite_follows { s with commandReg := cmd, errorReg := 0 }
    exact ⟨⟨hatt', himage, hsize, hout⟩, hcmd, h3 ▸ hfollows⟩
  rw [if_neg h3]
  simp only [readyOnly, Bool.or_eq_false_iff, Bool.and_eq_false_iff, beq_eq_false_iff_ne] at h
  obtain ⟨⟨⟨hrecal, hverify⟩, hdiagnostic⟩, hfeatures⟩ := h
  rw [if_neg (by simp [hrecal, hverify, hdiagnostic])]
  split
  · rename_i h5
    rw [if_neg]
    · exact hfail _ rfl ⟨rfl, rfl, rfl, rfl⟩
    · rcases hfeatures with hne | ⟨h6, h7⟩
      · exact absurd h5 hne
      · simp [h6, h7]
  · exact hfail _ rfl ⟨rfl, rfl, rfl, rfl⟩

end Transfers

/-! ## Every run -/

/-- Whatever the accesses: the position lies in the buffer, and what is to be written in the image. -/
structure Safe (s : Card) : Prop where
  attached : s.attached = true
  pos : s.dataLength = 0 ∧ s.dataPos = 0 ∨ s.dataLength = sectorSize ∧ s.dataPos < sectorSize
  write : s.pendingWrite = true → s.dataLength = sectorSize ∧ WriteInside s
  inside : s.outside = false

/-- The status register tells of the transfer, and sectors are received for WRITE SECTORS. -/
structure Steady (s : Card) : Prop where
  status : drq s = busy s
  writing : s.pendingWrite = true → s.commandReg = cmdWriteSectors

section Steps

variable {s t : Card}

theorem Ended.busy (h : Ended s) : busy s = false := by simp [Ata.busy, h.length]

theorem Begun.busy (h : Begun s) : busy s = true := by
  simp [Ata.busy, h.length, h.pos]
  decide

theorem Ended.safe (h : Ended t) (hatt : t.attached = true) (hin : t.outside = false) : Safe t :=
  ⟨hatt, Or.inl ⟨h.length, h.pos⟩, fun hw => absurd (h.pending.symm.trans hw) (by decide), hin⟩

theorem Ended.steady (h : Ended t) : Steady t :=
  ⟨h.status.trans h.busy.symm, fun hw => absurd (h.pending.symm.trans hw) (by decide)⟩

theorem Begun.safe (h : Begun t) (hatt : t.attached = true) (hin : t.outside = false)
    (hw : t.pendingWrite = true → WriteInside t) : Safe t :=
  ⟨hatt, Or.inr ⟨h.length, h.pos ▸ by decide⟩, fun hp => ⟨h.length, hw hp⟩, hin⟩

theorem Begun.steady (h : Begun t) (hw : t.pendingWrite = true → t.commandReg = cmdWriteSectors) : Steady t :=
  ⟨h.status.trans h.busy.symm, hw⟩

theorem Follows.safe {cmd : UInt8} (h : Follows t cmd) (hatt : t.attached = true) (hin : t.outside = false) : Safe t := by
  rcases h with h | ⟨h, hcases⟩
  · exact h.safe hatt hin
  · refine h.safe hatt hin fun hw => ?_
    rcases hcases with ⟨-, -, hinside⟩ | ⟨hread, -⟩
    · exact hinside
    · exact absurd (hread.symm.trans hw) (by decide)

theorem Follows.steady {cmd : UInt8} (h : Follows t cmd) (hcmd : t.commandReg = cmd) : Steady t := by
  rcases h with h | ⟨h, hcases⟩
  · exact h.steady
  · refine h.steady fun hw => ?_
    rcases hcases with ⟨-, hwrite, -⟩ | ⟨hread, -⟩
    · exact hcmd.trans hwrite
    · exact absurd (hread.symm.trans hw) (by decide)

/-- A read of the data port: nothing, some bytes, or the rest of a sector. -/
theorem dataRead_cases (hs : Safe s) (size : Nat) :
    (dataRead s size).2 = s ∨
      (∃ p, p < s.dataLength ∧ s.pendingWrite = false ∧ s.dataPos ≤ p ∧ (dataRead s size).2 = { s with dataPos := p }) ∨
      s.pendingWrite = false ∧ SameCard s (dataRead s size).2 ∧ (dataRead s size).2.commandReg = s.commandReg ∧
        (Ended (dataRead s size).2 ∨ Begun (dataRead s size).2 ∧ (dataRead s size).2.pendingWrite = false) := by
  unfold dataRead
  split
  · exact Or.inl rfl
  · rename_i hactive
    obtain ⟨hlen, hpending⟩ := not_or.mp hactive
    replace hpending : s.pendingWrite = false := by simpa using hpending
    obtain ⟨hlength, hpos⟩ := hs.pos.resolve_left fun h => hlen h.1
    have hread := readBytes_snd size (Nat.le_of_lt (hlength.symm ▸ hpos : s.dataPos < s.dataLength))
    generalize readBytes size s = r at hread ⊢
    rcases r with ⟨bytes, t⟩
    simp only at hread ⊢
    subst hread
    by_cases hend : s.dataPos + size < s.dataLength
    · rw [Nat.min_eq_left (Nat.le_of_lt hend), if_neg (by simp only; omega)]
      exact Or.inr (Or.inl ⟨_, hend, hpending, by omega, rfl⟩)
    · rw [Nat.min_eq_right (Nat.le_of_not_lt hend), if_pos (by simp only; omega)]
      obtain ⟨⟨h1, h2, h3, h4⟩, hcmd, hcases⟩ := endReadSector_cases { s with dataPos := s.dataLength }
      exact Or.inr (Or.inr ⟨hpending, ⟨h1, h2, h3, h4⟩, hcmd, hcases⟩)

/-- The commit of a sector that lies in the image. -/
theorem commitWrite_cases (hw : WriteInside s) :
    (commitWrite s).attached = s.attached ∧ (commitWrite s).imageSize = s.imageSize ∧
      (commitWrite s).outside = s.outside ∧ (commitWrite s).commandReg = s.commandReg ∧
      (Ended (commitWrite s) ∨ Begun (commitWrite s) ∧ (commitWrite s).pendingWrite = true ∧ WriteInside (commitWrite s)) := by
  obtain ⟨hpos, hrange⟩ := hw
  have hsector : s.transferLba * sectorSize + sectorSize ≤ s.imageSize :=
    Nat.le_trans (Nat.le_of_eq (Nat.succ_mul _ _).symm) (Nat.le_trans (Nat.mul_le_mul_right _ (by omega)) hrange)
  have hout : (s.outside || decide (s.transferLba * sectorSize + sectorSize > s.imageSize)) = s.outside := by
    rw [decide_eq_false (Nat.not_lt.mpr hsector), Bool.or_false]
  unfold commitWrite
  simp only [hout]
  split
  · rename_i hmore
    refine ⟨rfl, rfl, rfl, rfl, Or.inr ⟨⟨rfl, rfl, drq_on rfl⟩, rfl, hmore, ?_⟩⟩
    exact Nat.le_trans (Nat.mul_le_mul_right _ (by
      have hmod := Nat.mod_le (s.transferLba + 1) (2 ^ 32)
      simp only [prepareWriteSector]
      omega)) hrange
  · exact ⟨rfl, rfl, rfl, rfl, Or.inl (ended_finish _)⟩

/-- A write to the data port: nothing, some bytes, or the rest of a sector. -/
theorem dataWrite_cases (hs : Safe s) (value : List UInt8) :
    dataWrite s value = s ∨
      (∃ p buf, p < s.dataLength ∧ s.dataPos ≤ p ∧ dataWrite s value = { s with dataBuffer := buf, dataPos := p }) ∨
      s.pendingWrite = true ∧ busy s = true ∧ s.dataLength ≤ s.dataPos + value.length ∧
        (dataWrite s value).attached = s.attached ∧ (dataWrite s value).imageSize = s.imageSize ∧
        (dataWrite s value).outside = s.outside ∧ (dataWrite s value).commandReg = s.commandReg ∧
        (Ended (dataWrite s value) ∨
          Begun (dataWrite s value) ∧ (dataWrite s value).pendingWrite = true ∧ WriteInside (dataWrite s value)) := by
  unfold dataWrite
  split
  · exact Or.inl rfl
  · rename_i hactive
    simp only [Bool.or_eq_true, Bool.not_eq_true', decide_eq_true_eq, not_or, Bool.not_eq_false] at hactive
    obtain ⟨hpending, hlen⟩ := hactive
    obtain ⟨hlength, hpos⟩ := hs.pos.resolve_left fun h => hlen h.1
    have hlt : s.dataPos < s.dataLength := hlength.symm ▸ hpos
    obtain ⟨buf, hwrite⟩ := writeBytes_pos value (Nat.le_of_lt hlt)
    simp only [hwrite]
    by_cases hend : s.dataPos + value.length < s.dataLength
    · rw [Nat.min_eq_left (Nat.le_of_lt hend), if_neg (by omega)]
      exact Or.inr (Or.inl ⟨_, buf, hend, by omega, rfl⟩)
    · rw [Nat.min_eq_right (Nat.le_of_not_lt hend), if_pos (Nat.le_refl _)]
      obtain ⟨h1, h2, h3, h4, hcases⟩ := commitWrite_cases (s := { s with dataBuffer := buf, dataPos := s.dataLength })
        (hs.write hpending).2
      exact Or.inr (Or.inr ⟨hpending, decide_eq_true hlt, Nat.le_of_not_lt hend, h1, h2, h3, h4, hcases⟩)

theorem TaskRegs.safe (hs : Safe s) (h : TaskRegs s t) : Safe t := by
  obtain ⟨_, _, _, _, _, _, rfl⟩ := h
  exact ⟨hs.attached, hs.pos, hs.write, hs.inside⟩

theorem TaskRegs.steady (hs : Steady s) (h : TaskRegs s t) : Steady t := by
  obtain ⟨_, _, _, _, _, _, rfl⟩ := h
  exact ⟨hs.status, hs.writing⟩

theorem Safe.step (hs : Safe s) (a : Access) : Safe (step s a) := by
  have hcases := step_cases s a
  generalize Ata.step s a = t at hcases ⊢
  cases hcases with
  | same => exact hs
  | read size =>
    rcases dataRead_cases hs size with h | ⟨p, hp, hpending, -, h⟩ | ⟨hpending, hsame, -, h⟩
    · rw [h]; exact hs
    · rw [h]
      obtain ⟨hlength, -⟩ := hs.pos.resolve_left fun h0 => by omega
      exact ⟨hs.attached, Or.inr ⟨hlength, hlength ▸ hp⟩, fun hw => absurd (hpending.symm.trans hw) (by decide), hs.inside⟩
    · have hatt := hsame.attached.trans hs.attached
      have hin := hsame.outside.trans hs.inside
      rcases h with h | ⟨h, hread⟩
      · exact h.safe hatt hin
      · exact h.safe hatt hin fun hw => absurd (hread.symm.trans hw) (by decide)
  | write value =>
    rcases dataWrite_cases hs value with h | ⟨p, buf, hp, -, h⟩ | ⟨-, -, -, hatt, -, hin, -, h⟩
    · rw [h]; exact hs
    · rw [h]
      obtain ⟨hlength, -⟩ := hs.pos.resolve_left fun h0 => by omega
      exact ⟨hs.attached, Or.inr ⟨hlength, hlength ▸ hp⟩, fun hw => ⟨hlength, (hs.write hw).2⟩, hs.inside⟩
    · rcases h with h | ⟨h, -, hwrite⟩
      · exact h.safe (hatt.trans hs.attached) (hin.trans hs.inside)
      · exact h.safe (hatt.trans hs.attached) (hin.trans hs.inside) fun _ => hwrite
  | regs t hregs => exact hregs.safe hs
  | control value => exact ⟨hs.attached, hs.pos, hs.write, hs.inside⟩
  | execute s' cmd hregs =>
    have hs' := hregs.safe hs
    rcases Bool.eq_false_or_eq_true (readyOnly s'.featureReg cmd) with h | h
    · rw [execute_ready hs'.attached h]
      exact ⟨hs'.attached, hs'.pos, hs'.write, hs'.inside⟩
    · obtain ⟨hsame, -, hfollows⟩ := execute_follows hs'.attached h
      exact hfollows.safe (hsame.attached.trans hs'.attached) (hsame.outside.trans hs'.inside)
  | reset visible floating =>
    have hended := ended_reset { s with bootVisible := visible }
    exact Ended.safe ⟨hended.length, hended.pos, hended.pending, hended.status⟩ hs.attached hs.inside

/-- No ready-only command is issued while bytes are left. -/
def Clear (s : Card) (a : Access) : Prop :=
  ∀ feature cmd, command s a = some (feature, cmd) → busy s = true → readyOnly feature cmd = false

theorem Steady.step (hs : Safe s) (hst : Steady s) {a : Access} (hc : Clear s a) : Steady (step s a) := by
  have hcases := step_cases s a
  generalize Ata.step s a = t at hcases ⊢
  cases hcases with
  | same => exact hst
  | read size =>
    rcases dataRead_cases hs size with h | ⟨p, hp, hpending, hle, h⟩ | ⟨-, -, -, h⟩
    · rw [h]; exact hst
    · rw [h]
      have hbusy : busy s = true := decide_eq_true (by omega)
      exact ⟨(hst.status.trans hbusy).trans (decide_eq_true hp).symm, hst.writing⟩
    · rcases h with h | ⟨h, hread⟩
      · exact h.steady
      · exact h.steady fun hw => absurd (hread.symm.trans hw) (by decide)
  | write value =>
    rcases dataWrite_cases hs value with h | ⟨p, buf, hp, hle, h⟩ | ⟨hpending, -, -, -, -, -, hcmd, h⟩
    · rw [h]; exact hst
    · rw [h]
      have hbusy : busy s = true := decide_eq_true (by omega)
      exact ⟨(hst.status.trans hbusy).trans (decide_eq_true hp).symm, hst.writing⟩
    · rcases h with h | ⟨h, -, -⟩
      · exact h.steady
      · exact h.steady fun _ => hcmd.trans (hst.writing hpending)
  | regs t hregs => exact hregs.steady hst
  | control value => exact ⟨hst.status, hst.writing⟩
  | execute s' cmd hregs hcommand =>
    have hs' := hregs.safe hs
    rcases Bool.eq_false_or_eq_true (readyOnly s'.featureReg cmd) with h | h
    · -- a ready-only command finds no bytes left
      have hidle : busy s = false := by
        rcases Bool.eq_false_or_eq_true (busy s) with hb | hb
        · exact absurd ((hc _ _ hcommand hb).symm.trans h) (by decide)
        · exact hb
      obtain ⟨_, _, _, _, _, _, rfl⟩ := hregs
      rw [execute_ready hs'.attached h]
      refine ⟨(drq_off (drq_ready _).1).trans hidle.symm, fun hw => ?_⟩
      have hfull := (hs.write hw).1
      rcases hs.pos with h0 | h0
      · exact absurd (h0.1.symm.trans hfull) (by decide)
      · exact absurd hidle (by simp [busy, hfull, h0.2])
    · obtain ⟨-, hcmd, hfollows⟩ := execute_follows hs'.attached h
      exact hfollows.steady hcmd
  | reset visible floating =>
    have hended := ended_reset { s with bootVisible := visible }
    exact Ended.steady ⟨hended.length, hended.pos, hended.pending, hended.status⟩

/-- What an access should keep: DRQ exactly while bytes are left, an image changed by the
    last byte of a sector of the current WRITE SECTORS only, and no transfer but its own
    after a command and none after a soft reset. -/
structure Sound (s : Card) (a : Access) : Prop where
  before : drq s = busy s
  status : drq (step s a) = busy (step s a)
  image : (step s a).image ≠ s.image → s.commandReg = cmdWriteSectors ∧ s.pendingWrite = true ∧ busy s = true ∧
    ∃ value, dataBytes s a = some value ∧ s.dataLength ≤ s.dataPos + value.length
  command : ∀ feature cmd, command s a = some (feature, cmd) → busy (step s a) = true →
    (step s a).dataPos = 0 ∧ ((step s a).pendingWrite = true ∧ cmd = cmdWriteSectors ∨
      (step s a).pendingWrite = false ∧ (cmd = cmdIdentify ∨ cmd = cmdReadSectors))
  reset : softReset s a = true → busy (step s a) = false

theorem sound_of_clear (hs : Safe s) (hst : Steady s) {a : Access} (hc : Clear s a) : Sound s a := by
  have hnext := hst.step hs hc
  have hcases := step_cases s a
  refine ⟨hst.status, hnext.status, fun hne => ?_, fun feature cmd hcommand hbusy => ?_, fun hreset => ?_⟩
  · generalize step s a = t at hcases hne
    cases hcases with
    | same => exact absurd rfl hne
    | read size =>
      rcases dataRead_cases hs size with h | ⟨p, -, -, -, h⟩ | ⟨-, hsame, -⟩
      · exact absurd (by rw [h]) hne
      · exact absurd (by rw [h]) hne
      · exact absurd hsame.image hne
    | write value hdata =>
      rcases dataWrite_cases hs value with h | ⟨p, buf, -, -, h⟩ | ⟨hpending, hbusy, hend, -⟩
      · exact absurd (by rw [h]) hne
      · exact absurd (by rw [h]) hne
      · exact ⟨hst.writing hpending, hpending, hbusy, value, hdata, hend⟩
    | regs t hregs =>
      obtain ⟨_, _, _, _, _, _, rfl⟩ := hregs
      exact absurd rfl hne
    | control value => exact absurd rfl hne
    | execute s' cmd hregs =>
      have hs' := hregs.safe hs
      obtain ⟨_, _, _, _, _, _, rfl⟩ := hregs
      rcases Bool.eq_false_or_eq_true (readyOnly _ cmd) with h | h
      · exact absurd (by rw [execute_ready hs'.attached h]) hne
      · exact absurd (execute_follows hs'.attached h).1.image hne
    | reset visible floating => exact absurd rfl hne
  · generalize step s a = t at hcases hbusy ⊢
    cases hcases with
    | execute s' cmd' hregs hcommand' =>
      have hs' := hregs.safe hs
      cases hcommand.symm.trans hcommand'
      rcases Bool.eq_false_or_eq_true (readyOnly s'.featureReg cmd) with h | h
      · obtain ⟨_, _, _, _, _, _, rfl⟩ := hregs
        rw [execute_ready hs'.attached h] at hbusy
        exact absurd ((hc _ _ hcommand hbusy).symm.trans h) (by decide)
      · rcases (execute_follows hs'.attached h).2.2 with hended | ⟨hbegun, hkind⟩
        · exact absurd (hended.busy.symm.trans hbusy) (by decide)
        · refine ⟨hbegun.pos, ?_⟩
          rcases hkind with ⟨hw, hcmd, -⟩ | hread
          · exact Or.inl ⟨hw, hcmd⟩
          · exact Or.inr hread
    | same h => rw [h] at hcommand; cases hcommand
    | read _ h => rw [h] at hcommand; cases hcommand
    | write _ _ h => rw [h] at hcommand; cases hcommand
    | regs _ _ h => rw [h] at hcommand; cases hcommand
    | control _ h => rw [h] at hcommand; cases hcommand
    | reset _ _ h => rw [h] at hcommand; cases hcommand
  · generalize step s a = t at hcases ⊢
    cases hcases with
    | reset visible floating =>
      have hended := ended_reset { s with bootVisible := visible }
      exact Ended.busy ⟨hended.length, hended.pos, hended.pending, hended.status⟩
    | same _ h => rw [h] at hreset; cases hreset
    | read _ _ h => rw [h] at hreset; cases hreset
    | write _ _ _ h => rw [h] at hreset; cases hreset
    | regs _ _ _ h => rw [h] at hreset; cases hreset
    | control _ _ h => rw [h] at hreset; cases hreset
    | execute _ _ _ _ h => rw [h] at hreset; cases hreset

/-- A step that is not clear leaves bytes without DRQ. -/
theorem clear_of_sound (hs : Safe s) {a : Access} (h : Sound s a) : Clear s a := by
  intro feature cmd hcommand hbusy
  rcases Bool.eq_false_or_eq_true (readyOnly feature cmd) with hready | hready
  · exfalso
    have hstatus := h.status
    have hcases := step_cases s a
    generalize step s a = t at hcases hstatus
    cases hcases with
    | execute s' cmd' hregs hcommand' =>
      have hs' := hregs.safe hs
      cases hcommand.symm.trans hcommand'
      obtain ⟨_, _, _, _, _, _, rfl⟩ := hregs
      rw [execute_ready hs'.attached hready, drq_off (drq_ready _).1] at hstatus
      exact absurd (hstatus.trans hbusy) (by decide)
    | same h => rw [h] at hcommand; cases hcommand
    | read _ h => rw [h] at hcommand; cases hcommand
    | write _ _ h => rw [h] at hcommand; cases hcommand
    | regs _ _ h => rw [h] at hcommand; cases hcommand
    | control _ h => rw [h] at hcommand; cases hcommand
    | reset _ _ h => rw [h] at hcommand; cases hcommand
  · exact hready

end Steps

theorem run_concat (s : Card) (l : List Access) (a : Access) : run s (l ++ [a]) = step (run s l) a := by
  rw [run, List.foldl_append]
  rfl

theorem safe_loaded (image : Nat → UInt8) (imageSize : Nat) (cis : List UInt8) : Safe (loaded image imageSize cis) :=
  (ended_reset _).safe rfl rfl

theorem steady_loaded (image : Nat → UInt8) (imageSize : Nat) (cis : List UInt8) : Steady (loaded image imageSize cis) :=
  (ended_reset _).steady

theorem safe_run {s : Card} (hs : Safe s) (l : List Access) : Safe (run s l) := by
  induction l generalizing s with
  | nil => exact hs
  | cons a l ih => exact ih (hs.step a)

theorem steady_run {s : Card} (hs : Safe s) (hst : Steady s) (l : List Access)
    (hc : ∀ before a after, l = before ++ a :: after → Clear (run s before) a) : Steady (run s l) := by
  induction l generalizing s with
  | nil => exact hst
  | cons a l ih =>
    refine ih (hs.step a) (hst.step hs (hc [] a l rfl)) fun before b after hl => ?_
    exact hc (a :: before) b after (by rw [hl, List.cons_append])

/-- From a loaded card, the accesses of a run are sound exactly when they are clear. -/
theorem transfer_iff (image : Nat → UInt8) (imageSize : Nat) (cis : List UInt8) (l : List Access) :
    (∀ before a after, l = before ++ a :: after → Sound (run (loaded image imageSize cis) before) a) ↔
      ∀ before a after, l = before ++ a :: after → Clear (run (loaded image imageSize cis) before) a := by
  have hsafe := safe_loaded image imageSize cis
  constructor
  · intro h before a after hl
    exact clear_of_sound (safe_run hsafe before) (h before a after hl)
  · intro h before a after hl
    refine sound_of_clear (safe_run hsafe before) ?_ (h before a after hl)
    refine steady_run hsafe (steady_loaded image imageSize cis) before fun first b rest hb => ?_
    exact h first b (rest ++ a :: after) (by rw [hl, hb, List.append_assoc, List.cons_append])

/-! ## RECALIBRATE in the data phase of WRITE SECTORS -/

/-- WRITE SECTORS for the second sector of a two-sector image, then RECALIBRATE. -/
def recalAccesses : List Access := [.windowWrite 0x1F7 [cmdWriteSectors], .windowWrite 0x1F7 [cmdRecal]]

/-- 512 bytes at the data port. -/
def dataAccesses : List Access := List.replicate 128 (.windowWrite 0x1F0 [0xAA, 0xAA, 0xAA, 0xAA])

set_option maxRecDepth 100000 in
/-- Bytes are left without DRQ, and at their end the sector is written with RECALIBRATE as
    the current command. -/
theorem recal_keeps_transfer : ¬ (∀ (image : Nat → UInt8) (imageSize : Nat) (cis : List UInt8) (l : List Access),
      ∀ before a after, l = before ++ a :: after → Sound (run (loaded image imageSize cis) before) a) ∧
    (run (loaded (fun _ => 0) 1024 []) (recalAccesses ++ dataAccesses)).image 512 = 0xAA ∧
    (run (loaded (fun _ => 0) 1024 []) (recalAccesses ++ dataAccesses)).commandReg = cmdRecal := by
  refine ⟨fun h => ?_, by decide, by decide⟩
  have hstatus := (h (fun _ => 0) 1024 [] recalAccesses [.windowWrite 0x1F7 [cmdWriteSectors]] _ [] rfl).status
  revert hstatus
  decide

end Be300.Cf.Ata
