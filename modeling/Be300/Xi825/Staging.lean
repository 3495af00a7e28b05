/-
  Be300.Xi825.Staging — staged bytes that are not committed, and records that do not exist.

  `blank` forgets the staged bytes of some records: the card cannot tell, as long as none
  of these is committed (`step_blank`), so staged bytes have no effect before that
  (`Pair.blank`). Number 0 is what a free slot answers to: `ACCESS` of it is not refused
  (`record_store_iff`).
-/

import Be300.Xi825.Records

namespace Be300.Xi825

open Lib

/-! ## Staged bytes forgotten -/

def blankRecord (D : Nat → Bool) (r : Record) : Record := if D r.id then { r with data := fun _ => 0 } else r

/-- The card without the staged bytes of the records in `D`. -/
def blank (D : Nat → Bool) (s : Card) : Card := { s with records := s.records.map (blankRecord D) }

section Blank

variable {D : Nat → Bool} {s : Card}

theorem blankRecord_fields (D : Nat → Bool) (r : Record) : (blankRecord D r).id = r.id ∧ (blankRecord D r).length = r.length ∧
    (blankRecord D r).committed = r.committed := by
  unfold blankRecord
  split <;> exact ⟨rfl, rfl, rfl⟩

theorem record_map (l : List Record) (id : Nat) : record (l.map (blankRecord D)) id = (record l id).map (blankRecord D) := by
  unfold record Slots.lookup
  rw [List.find?_map]
  congr 2
  funext r
  simp only [Function.comp_apply, recordKey, (blankRecord_fields D r).1]
  rfl

theorem committed_blank (id : Nat) : committed (blank D s) id = committed s id := by
  unfold committed
  rw [show (blank D s).records = s.records.map (blankRecord D) from rfl, record_map]
  cases record s.records id with
  | none => rfl
  | some r => exact (blankRecord_fields D r).2.2

theorem blankRecord_twice (r : Record) : blankRecord D (blankRecord D r) = blankRecord D r := by
  unfold blankRecord
  by_cases hr : D r.id = true
  · simp only [hr, if_true]
  · simp only [hr, Bool.false_eq_true, if_false]

theorem map_twice (l : List Record) : (l.map (blankRecord D)).map (blankRecord D) = l.map (blankRecord D) := by
  rw [List.map_map]
  apply List.map_congr_left
  intro r _
  exact blankRecord_twice r

theorem map_modify (l : List Record) (id : Nat) {f : Record → Record}
    (hf : ∀ r, r.id = id → blankRecord D (f (blankRecord D r)) = blankRecord D (f r)) :
    (Slots.modify recordKey id f (l.map (blankRecord D))).map (blankRecord D) =
      (Slots.modify recordKey id f l).map (blankRecord D) := by
  induction l with
  | nil => rfl
  | cons r l ih =>
    have hkey : recordKey (blankRecord D r) = recordKey r := congrArg some (blankRecord_fields D r).1
    rw [List.map_cons, Slots.modify, Slots.modify, hkey]
    split
    · rename_i heq
      rw [List.map_cons, List.map_cons, hf r (Option.some.inj heq), map_twice]
    · rw [List.map_cons, List.map_cons, blankRecord_twice, ih]

theorem modify_congr {l l' : List Record} (h : l.map (blankRecord D) = l'.map (blankRecord D)) (id : Nat) {f : Record → Record}
    (hf : ∀ r, r.id = id → blankRecord D (f (blankRecord D r)) = blankRecord D (f r)) :
    (Slots.modify recordKey id f l).map (blankRecord D) = (Slots.modify recordKey id f l').map (blankRecord D) := by
  rw [← map_modify l id hf, h, map_modify l' id hf]

theorem canAssociate_blank : canAssociate (blank D s) = canAssociate s := by
  have hhermes : hermesKey (blank D s) = hermesKey s := by
    unfold hermesKey
    simp only [committed_blank]
    rfl
  have hprism : prismKey (blank D s) = prismKey s := by
    unfold prismKey
    simp only [committed_blank, show (blank D s).records = s.records.map (blankRecord D) from rfl, record_map]
    congr 2
    funext i
    cases record s.records (0xfc24 + i) with
    | none => rfl
    | some r => simp only [Option.map_some, (blankRecord_fields D r).2.1]; rfl
  have hwants : wantsNetwork (blank D s) = wantsNetwork s := by
    unfold wantsNetwork
    simp only [committed_blank]
    rfl
  unfold canAssociate
  simp only [committed_blank, hhermes, hprism, hwants]
  rfl

theorem allocate_blank (s : Card) (length : Nat) (data : Nat → UInt8) :
    allocate (blank D s) length data = (allocate s length data).map fun p => (blank D p.1, p.2) := by
  unfold allocate
  by_cases h : length > bufferSize ∨ length = 0
  · rw [dif_pos h, dif_pos h]
    rfl
  · rw [dif_neg h, dif_neg h]
    simp only
    rw [show (blank D s).buffers = s.buffers from rfl]
    rw [show (blank D s).nextFid = s.nextFid from rfl]
    have hfits : length ≤ bufferSize := by omega
    cases Slots.place (fun b => !b.used) { id := s.nextFid, length, used := true, data, fits := hfits : Buffer } s.buffers <;> rfl

theorem info_blank (s : Card) (type : Nat) (data : List UInt8) :
    info (blank D s) type data = (blank D (info s type data).1, (info s type data).2) := by
  unfold info
  rw [show (blank D s).infoQueue = s.infoQueue from rfl, allocate_blank]
  split
  · rfl
  · cases allocate s (4 + data.length) (at' (le 2 (1 + data.length / 2) ++ le 2 type ++ data)) with
    | none => rfl
    | some p => rfl

theorem scan_blank (s : Card) : scan (blank D s) = blank D (scan s) := by
  unfold scan
  simp only [info_blank, committed_blank]
  rw [show (blank D s).hermes = s.hermes from rfl, show hermesHostScan (blank D s) = hermesHostScan s from rfl]
  split
  · split <;> rfl
  · rfl

theorem receive_blank (s : Card) (eth : List UInt8) : (receive (blank D s) eth).1 = blank D (receive s eth).1 := by
  unfold receive
  simp only [allocate_blank, committed_blank]
  rw [show (blank D s).associated = s.associated from rfl, show (blank D s).rxQueue = s.rxQueue from rfl,
    show (blank D s).mac = s.mac from rfl]
  split
  · rfl
  · split
    · rfl
    · cases allocate s (60 + 8 + (eth.length - 14)) (at' (receivedData eth)) <;> rfl

theorem tick_blank (s : Card) : tick (blank D s) = blank D (tick s) := by
  have hassoc : canAssociate { blank D s with transmit := true } = canAssociate { s with transmit := true } :=
    canAssociate_blank (s := { s with transmit := true })
  unfold tick
  simp only
  rw [hassoc]
  generalize canAssociate { s with transmit := true } = connected
  generalize le 2 (if connected = true then 1 else 2) = data
  have hreport : ∀ u : Card,
      (if (info (blank D u) 0xf200 data).2 = true then
          { (info (blank D u) 0xf200 data).1 with associated := connected, linkPending := false }
        else (info (blank D u) 0xf200 data).1) =
      blank D (if (info u 0xf200 data).2 = true then
          { (info u 0xf200 data).1 with associated := connected, linkPending := false }
        else (info u 0xf200 data).1) := by
    intro u
    rw [info_blank]
    simp only
    split <;> rfl
  by_cases hc : (s.linkPending || connected != s.associated) = true
  · have hc' : ((blank D s).linkPending || connected != (blank D s).associated) = true := hc
    rw [if_pos hc, if_pos hc']
    exact hreport { s with transmit := true, security := { s.security with authorized := connected } }
  · have hc' : ¬ ((blank D s).linkPending || connected != (blank D s).associated) = true := hc
    rw [if_neg hc, if_neg hc']
    rfl

theorem ack_blank (s : Card) (value : UInt16) : ack (blank D s) value = blank D (ack s value) := by
  have hinfo : ∀ u, popInfo (blank D u) value = blank D (popInfo u value) := by
    intro u
    unfold popInfo
    rw [show (blank D u).infoQueue = u.infoQueue from rfl]
    by_cases hc : value &&& evInfo ≠ 0 ∧ u.infoQueue.count ≠ 0
    · simp only [if_pos hc]
      split <;> rfl
    · simp only [if_neg hc]
      rw [show (blank D u).infoQueue = u.infoQueue from rfl]
      split <;> rfl
  have hrx : ∀ u, popRx (blank D u) value = blank D (popRx u value) := by
    intro u
    unfold popRx
    rw [show (blank D u).rxQueue = u.rxQueue from rfl]
    by_cases hc : value &&& evRx ≠ 0 ∧ u.rxQueue.count ≠ 0
    · simp only [if_pos hc]
      split <;> rfl
    · simp only [if_neg hc]
      rw [show (blank D u).rxQueue = u.rxQueue from rfl]
      split <;> rfl
  unfold ack
  rw [← hrx, ← hinfo]
  rfl

theorem sendBuffer_blank (s : Card) (b : Buffer) (value : UInt16) (param : Nat) :
    sendBuffer (blank D s) b value param = (sendBuffer s b value param).map (blank D) := by
  have hframe : frameOf (blank D s) b = frameOf s b := rfl
  unfold sendBuffer
  rw [hframe]
  cases frameOf s b with
  | none => rfl
  | some frame =>
    simp only [Option.bind_eq_bind, Option.bind_some]
    cases store16 b 0 (if frame.isSome = true then 0 else 1) with
    | none => rfl
    | some data =>
      simp only [Option.bind_some]
      cases load16 b 12 with
      | none => rfl
      | some control =>
        simp only [Option.bind_some]
        -- what is left is a chain of updates that do not look at the records
        have hend : ∀ (t u : Card), blank D t = u → (if value &&& 0x100 ≠ 0 then
            some (raise (setReg (setReg u regTxfid (UInt16.ofNat param)) regAllocfid (UInt16.ofNat param)) evAlloc)
              else some (release (setReg u regTxfid (UInt16.ofNat param)) param)) =
            Option.map (blank D) (if value &&& 0x100 ≠ 0 then
              some (raise (setReg (setReg t regTxfid (UInt16.ofNat param)) regAllocfid (UInt16.ofNat param)) evAlloc)
                else some (release (setReg t regTxfid (UInt16.ofNat param)) param)) := by
          intro t u hu
          subst hu
          split
          · rfl
          · rfl
        apply hend
        cases frame with
        | none =>
          simp only [Option.isSome_none, Bool.false_eq_true, if_false]
          split
          · rfl
          · rfl
        | some eth =>
          simp only [Option.isSome_some, if_true]
          rw [show (blank D s).transmit = s.transmit from rfl]
          split
          · rfl
          · rfl

theorem reset_blank (s : Card) : reset (blank D s) = reset s := by
  have hcis : storedCis (blank D s) = storedCis s := by
    unfold storedCis
    rw [show (blank D s).records = s.records.map (blankRecord D) from rfl, record_map]
    cases record s.records 0xfd13 with
    | none => rfl
    | some r =>
      simp only [Option.map_some]
      rw [(blankRecord_fields D r).2.1, (blankRecord_fields D r).2.2]
  unfold reset
  rw [hcis]
  rfl

theorem refreshed_blank (s : Card) (id : Nat) : refreshed (blank D s) id = refreshed s id := rfl

/-- Two cards that differ in staged bytes only. -/
theorem blank_of {t t' : Card} (ht : { t with records := [] } = { blank D s with records := [] })
    (ht' : { t' with records := [] } = { s with records := [] })
    (h : t.records.map (blankRecord D) = t'.records.map (blankRecord D)) : blank D t = blank D t' := by
  have hrest : { t with records := [] } = { t' with records := [] } := ht.trans ht'.symm
  have hset := congrArg (fun u : Card => { u with records := t'.records.map (blankRecord D) }) hrest
  unfold blank
  rw [h]
  exact hset

/-- `ACCESS` without the write flag of a record that is there. -/
theorem fetch_blank {k : Nat} (hk : (record s.records k).isSome) : blank D (fetch (blank D s) k) = blank D (fetch s k) := by
  have hadd : ∀ data, (addRecord (s.records.map (blankRecord D)) k data).map (blankRecord D) =
      (addRecord s.records k data).map (blankRecord D) := by
    intro data
    have hk' : (record (s.records.map (blankRecord D)) k).isSome := by
      rw [record_map, Option.isSome_map]
      exact hk
    unfold addRecord
    rw [if_pos hk, if_pos hk']
    split
    · exact map_twice s.records
    · exact map_modify s.records k fun _ _ => rfl
  have hrefresh : (refreshRecord (blank D s) k).records.map (blankRecord D) =
      (refreshRecord s k).records.map (blankRecord D) := by
    unfold refreshRecord
    rw [refreshed_blank]
    cases refreshed s k with
    | none => exact map_twice s.records
    | some data => exact hadd data
  have hcommitted : ∀ r : Record, r.id = k →
      blankRecord D ((fun r : Record => { r with data := r.committed }) (blankRecord D r)) =
        blankRecord D { r with data := r.committed } := by
    intro r _
    unfold blankRecord
    by_cases hr : D r.id = true
    · simp only [hr, if_true]
    · simp only [hr, Bool.false_eq_true, if_false]
  have hrecords : (fetch (blank D s) k).records.map (blankRecord D) = (fetch s k).records.map (blankRecord D) :=
    modify_congr hrefresh k hcommitted
  have hother : ∀ u, { fetch u k with records := [] } = { u with records := [] } := by
    intro u
    unfold fetch refreshRecord
    cases refreshed u k <;> rfl
  exact blank_of (hother (blank D s)) (hother s) hrecords

theorem bapWrite_blank (s : Card) (port pos : Nat) (bytes : List UInt8) :
    blank D (bapWrite (blank D s) port pos bytes) = blank D (bapWrite s port pos bytes) := by
  have hrecord : (record (s.records.map (blankRecord D)) (selected s port)).isSome =
      (record s.records (selected s port)).isSome := by
    rw [record_map, Option.isSome_map]
  have hmodify := map_modify (D := D) s.records (selected s port) (f := fun r => { r with data := patch r.data pos bytes }) (by
    intro r _
    unfold blankRecord
    by_cases hr : D r.id = true
    · simp only [hr, if_true]
    · simp only [hr, Bool.false_eq_true, if_false])
  unfold bapWrite
  simp only
  rw [show ((blank D s).regs (regSelect0 + port)).toNat = selected s port from rfl,
    show (s.regs (regSelect0 + port)).toNat = selected s port from rfl,
    show (blank D s).records = s.records.map (blankRecord D) from rfl, hrecord]
  split
  · exact blank_of rfl rfl hmodify
  · exact blank_of rfl rfl (map_twice s.records)

theorem bapMemory_blank (s : Card) (port : Nat) :
    (bapMemory (blank D s) port).map Memory.capacity = (bapMemory s port).map Memory.capacity := by
  unfold bapMemory
  simp only
  rw [show (blank D s).regs = s.regs from rfl, show (blank D s).records = s.records.map (blankRecord D) from rfl, record_map,
    show (blank D s).buffers = s.buffers from rfl]
  cases record s.records (s.regs (regSelect0 + port)).toNat <;> rfl

theorem commit_blank {r : Record} {k : Nat} (hk : D k = false) :
    blank D (commit (blank D s) r k).1 = blank D (commit s r k).1 ∧ (commit (blank D s) r k).2 = (commit s r k).2 := by
  have hmodify := map_modify (D := D) s.records k
    (f := fun c => { c with length := 2 + rd 2 r.data 0 * 2, committed := c.data }) (by
      intro c hc
      have hsame : blankRecord D c = c := by
        unfold blankRecord
        rw [hc, hk]
        rfl
      rw [hsame])
  unfold commit
  simp only
  split
  · refine ⟨?_, rfl⟩
    unfold blank
    rw [map_twice]
  · refine ⟨?_, rfl⟩
    have hblank : ∀ mac, blank D { blank D s with records := (Slots.modify recordKey k (fun c =>
          { c with length := 2 + rd 2 r.data 0 * 2, committed := c.data }) (s.records.map (blankRecord D))), mac := mac } =
        blank D { s with records := (Slots.modify recordKey k (fun c =>
          { c with length := 2 + rd 2 r.data 0 * 2, committed := c.data }) s.records), mac := mac } :=
      fun mac => blank_of rfl rfl hmodify
    simp only
    split
    · rw [← scan_blank, ← scan_blank]
      exact congrArg scan (hblank _)
    · exact hblank _

theorem blank_blank (s : Card) : blank D (blank D s) = blank D s := by
  unfold blank
  rw [map_twice]

theorem perform_other {value : UInt16} (h0 : (value &&& 0x3f).toNat ≠ 0) (h21 : (value &&& 0x3f).toNat ≠ 0x21) :
    perform (blank D s) value = (blank D (perform s value).1, (perform s value).2) := by
  have hregs : (blank D s).regs = s.regs := rfl
  unfold perform
  generalize (value &&& 0x3f).toNat = op at h0 h21
  simp only
  rw [hregs, show (blank D s).buffers = s.buffers from rfl]
  split
  · exact absurd rfl h0
  · split <;> rfl
  · rfl
  · split
    · rfl
    · rw [allocate_blank]
      cases allocate s (s.regs regParam0).toNat fun _ => 0 <;> rfl
  · cases buffer s.buffers (s.regs regParam0).toNat with
    | none => rfl
    | some b =>
      simp only
      split
      · rfl
      · rw [sendBuffer_blank]
        cases sendBuffer s b value (s.regs regParam0).toNat <;> rfl
  · split
    · rw [info_blank]
    · split
      · rw [scan_blank]
      · split <;> rfl
  · exact absurd rfl h21
  · rfl

theorem perform_blank {value : UInt16} (h : ¬ ((value &&& 0x3f).toNat = 0x21 ∧ value &&& 0x100 ≠ 0 ∧ D (param s) = true)) :
    blank D (perform (blank D s) value).1 = blank D (perform s value).1 ∧
      (perform (blank D s) value).2 = (perform s value).2 := by
  by_cases h0 : (value &&& 0x3f).toNat = 0
  · have hreset : ∀ u, perform u value = (reset u, 0) := by
      intro u
      unfold perform
      simp only [h0]
    rw [hreset, hreset, reset_blank]
    exact ⟨rfl, rfl⟩
  · by_cases h21 : (value &&& 0x3f).toNat = 0x21
    · have hrecord : record (blank D s).records (param s) = (record s.records (param s)).map (blankRecord D) :=
        record_map s.records (param s)
      rw [perform_access h21, perform_access h21, show param (blank D s) = param s from rfl, hrecord]
      cases hr : record s.records (param s) with
      | none => exact ⟨blank_blank s, rfl⟩
      | some r =>
        simp only [Option.map_some]
        by_cases hflag : value &&& 0x100 = 0
        · rw [if_neg (fun hne => hne hflag), if_neg (fun hne => hne hflag)]
          exact ⟨fetch_blank (by rw [hr]; rfl), rfl⟩
        · have hk : D (param s) = false := by
            apply Bool.eq_false_iff.mpr
            intro hD
            exact h ⟨h21, hflag, hD⟩
          have hid : r.id = param s := record_id hr
          have hsame : blankRecord D r = r := by
            unfold blankRecord
            rw [hid, hk]
            rfl
          rw [if_pos hflag, if_pos hflag, hsame]
          exact commit_blank hk
    · rw [perform_other h0 h21]
      exact ⟨blank_blank _, rfl⟩

theorem command_blank {value : UInt16} (h : ¬ ((value &&& 0x3f).toNat = 0x21 ∧ value &&& 0x100 ≠ 0 ∧ D (param s) = true)) :
    blank D (command (blank D s) value) = blank D (command s value) := by
  have hperform := perform_blank (D := D)
    (s := setReg (setReg (setReg (setReg s regCmd (value &&& 0x7fff)) regResp0 0) (regResp0 + 1) 0) (regResp0 + 2) 0) h
  obtain ⟨hcard, hresult⟩ := hperform
  have hfinish : ∀ (u : Card) (v : UInt16), blank D (raise (setReg u regStatus v) evCmd) =
      raise (setReg (blank D u) regStatus v) evCmd := fun _ _ => rfl
  unfold command
  simp only
  rw [hfinish, hfinish]
  exact congrArg₂
    (fun u result => raise (setReg u regStatus ((value &&& 0x3f) ||| UInt16.ofNat (result * 256))) evCmd) hcard hresult

theorem setReg_blank {t t' : Card} (h : blank D t = blank D t') (reg : Nat) (v : UInt16) :
    blank D (setReg t reg v) = blank D (setReg t' reg v) := congrArg (fun u => setReg u reg v) h

theorem bapData_blank (s : Card) (port size : Nat) (write : Option Nat) :
    blank D (bapData (blank D s) port size write).2 = blank D (bapData s port size write).2 := by
  have hcapacity := bapMemory_blank (D := D) s port
  cases hm : bapMemory s port with
  | none =>
    rw [hm, Option.map_none, Option.map_eq_none_iff] at hcapacity
    rw [bapData_none hm, bapData_none hcapacity]
    exact setReg_blank (blank_blank s) _ _
  | some m =>
    rw [hm, Option.map_some, Option.map_eq_some_iff] at hcapacity
    obtain ⟨m', hm', hsize⟩ := hcapacity
    rw [bapData_some hm, bapData_some hm', hsize]
    simp only
    rw [show (blank D s).regs = s.regs from rfl]
    split
    · exact setReg_blank (blank_blank s) _ _
    · cases write with
      | none => exact setReg_blank (blank_blank s) _ _
      | some value => exact setReg_blank (bapWrite_blank s port _ _) _ _

/-- Staged bytes do not matter to an access that commits none of them. -/
theorem step_blank {a : Access} (h : ¬ (accessOf s a = some true ∧ D (param s) = true)) :
    blank D (step (blank D s) a) = blank D (step s a) := by
  have hregs : (blank D s).regs = s.regs := rfl
  cases a with
  | read offset size =>
    show blank D (Xi825.read (blank D s) offset size).2 = blank D (Xi825.read s offset size).2
    unfold Xi825.read
    split
    · exact blank_blank s
    · cases dataPort offset size with
      | none => exact blank_blank s
      | some port => exact bapData_blank s port size none
  | write offset size value =>
    show blank D (writeShort (blank D s) offset size value) = blank D (writeShort s offset size value)
    unfold writeShort
    cases hport : dataPort offset size with
    | some port => exact bapData_blank s port size _
    | none =>
      simp only
      rw [hregs]
      have hcommand : offset / 2 = regCmd → written s regCmd (.write offset size value) =
          some (if size = 1 then mergeByte (s.regs (offset / 2)) offset value else UInt16.ofNat value) :=
        fun hreg => if_pos ⟨hport, hreg⟩
      generalize (if size = 1 then mergeByte (s.regs (offset / 2)) offset value else UInt16.ofNat value) = v at hcommand ⊢
      unfold writeReg
      by_cases hcmd : offset / 2 = regCmd
      · rw [if_pos hcmd, if_pos hcmd]
        apply command_blank
        rintro ⟨h21, hflag, hD⟩
        refine h ⟨?_, hD⟩
        rw [accessOf, hcommand hcmd]
        simp [h21, hflag]
      · rw [if_neg hcmd, if_neg hcmd]
        split
        · rw [ack_blank]
          exact blank_blank _
        · split
          · have hcapacity : ∀ port, capacity (blank D s) port = capacity s port := by
              intro port
              unfold capacity
              rw [bapMemory_blank]
            simp only
            rw [hcapacity]
            exact setReg_blank (blank_blank s) _ _
          · split
            · exact setReg_blank (blank_blank s) _ _
            · exact blank_blank s
  | receive eth =>
    show blank D (Xi825.receive (blank D s) eth).1 = blank D (Xi825.receive s eth).1
    rw [receive_blank]
    exact blank_blank _
  | tick =>
    show blank D (Xi825.tick (blank D s)) = blank D (Xi825.tick s)
    rw [tick_blank]
    exact blank_blank _

end Blank

/-! ## Two runs with different staged bytes -/

/-- Two runs from `s` that differ in what they write through the data port to records in
    `D`, none of which is committed. -/
inductive Pair (D : Nat → Bool) (s : Card) : Card → Card → Prop
  | init : Pair D s s s
  | step {t t' : Card} (a : Access) : Pair D s t t' → ¬ (accessOf t a = some true ∧ D (param t) = true) →
      Pair D s (step t a) (step t' a)
  | stage {t t' : Card} {offset size port : Nat} (value value' : Nat) : Pair D s t t' → dataPort offset size = some port →
      (record t.records (selected t port)).isSome → D (selected t port) = true →
      Pair D s (step t (.write offset size value)) (step t' (.write offset size value'))

section Pairs

variable {D : Nat → Bool} {s t t' : Card}

/-- What is written to a record in `D` does not show. -/
theorem stage_blank {port : Nat} (hrecord : (record t.records (selected t port)).isSome) (hD : D (selected t port) = true)
    (size value value' : Nat) :
    blank D (bapData t port size (some value)).2 = blank D (bapData t port size (some value')).2 := by
  obtain ⟨r, hr⟩ := Option.isSome_iff_exists.mp hrecord
  have herase : ∀ pos bytes, blank D (bapWrite t port pos bytes) = blank D t := by
    intro pos bytes
    have hwrite : bapWrite t port pos bytes =
        { t with
          records := Slots.modify recordKey (selected t port) (fun r => { r with data := patch r.data pos bytes }) t.records } :=
      if_pos hrecord
    have hmap : (Slots.modify recordKey (selected t port) (fun r => { r with data := patch r.data pos bytes }) t.records).map
        (blankRecord D) = t.records.map (blankRecord D) := by
      apply Slots.map_modify_same
      intro r hr
      have hr : r.id = selected t port := Option.some.inj hr
      unfold blankRecord
      simp only [hr, hD, if_true]
    rw [hwrite]
    unfold blank
    simp only
    rw [hmap]
  have hsame : ∀ value : Nat, blank D (bapData t port size (some value)).2 =
      blank D (if t.regs (regOffset0 + port) &&& 0x4000 ≠ 0 ∨ (t.regs (regOffset0 + port) &&& 0x3fff).toNat + size > 128 then
          setReg t (regOffset0 + port) (t.regs (regOffset0 + port) ||| 0x4000)
        else
          setReg t (regOffset0 + port) (UInt16.ofNat ((t.regs (regOffset0 + port) &&& 0x3fff).toNat + size))) := by
    intro value
    rw [bapData_some (bapMemory_record hr)]
    simp only [show (Memory.record r).capacity = 128 from rfl]
    split
    · rfl
    · exact setReg_blank (herase _ _) _ _
  rw [hsame value, hsame value']

/-- The two cards differ in nothing but those bytes. -/
theorem Pair.blank (h : Pair D s t t') : Xi825.blank D t = Xi825.blank D t' := by
  induction h with
  | init => rfl
  | @step t t' a _ hcommit ih =>
    have hregs : (Xi825.blank D t).regs = (Xi825.blank D t').regs := congrArg Card.regs ih
    have hregs : t.regs = t'.regs := hregs
    have hwritten : ∀ u u' : Card, u.regs = u'.regs → accessOf u a = accessOf u' a := by
      intro u u' heq
      unfold accessOf written
      cases a with
      | write offset size value => simp only [heq]
      | read offset size => rfl
      | receive eth => rfl
      | tick => rfl
    have hcommit' : ¬ (accessOf t' a = some true ∧ D (param t') = true) := by
      rw [← hwritten t t' hregs, show param t' = param t by unfold param; rw [hregs]]
      exact hcommit
    rw [← step_blank hcommit, ih, step_blank hcommit']
  | @stage t t' offset size port value value' _ hport hrecord hD ih =>
    have hstep : ∀ (u : Card) (v : Nat), Xi825.step u (.write offset size v) = (bapData u port size (some (v % 65536))).2 := by
      intro u v
      show writeShort u offset size v = _
      rw [writeShort, hport]
    rw [hstep, hstep, stage_blank hrecord hD size _ (value' % 65536), ← bapData_blank, ih, bapData_blank]

end Pairs

/-! ## Every run -/

/-- A command that failed: its result is in STATUS, and only registers of commands changed. -/
def Refused (s s' : Card) : Prop := s'.regs regStatus = 0x0121 ∧ { s' with regs := s.regs } = s ∧
  ∀ reg, reg ≠ regCmd ∧ reg ≠ regStatus ∧ ¬ (regResp0 ≤ reg ∧ reg ≤ regResp0 + 2) ∧ reg ≠ regEvstat → s'.regs reg = s.regs reg

/-- What the record store makes of one access: which records exist and what they hold,
    committed and staged, and the accesses that are refused. -/
structure Sound (s : Card) (a : Access) : Prop where
  sized : ∀ r ∈ s.records, Sized r
  committed : opOf s a ≠ some 0 → ∀ id, Config id →
    Xi825.committed (step s a) id = if commits s a id then staged s id else Xi825.committed s id
  staged : opOf s a ≠ some 0 → ∀ id, Config id → Xi825.staged (step s a) id = stagedAfter s a id
  shown : ∀ offset size port, a = .read offset size → dataPort offset size = some port → 0 < size →
    s.regs (regOffset0 + port) &&& 0x4000 = 0 → (s.regs (regOffset0 + port) &&& 0x3fff).toNat + size ≤ 128 →
    Exists s (selected s port) →
    (read s offset size).1 = rd size (Xi825.staged s (selected s port)) (s.regs (regOffset0 + port) &&& 0x3fff).toNat
  refused : ∀ w, accessOf s a = some w → ¬ Exists s (param s) → Refused s (step s a)

/-- A property of every access of a run. -/
def Along (P : Card → Access → Prop) : Card → List Access → Prop
  | _, [] => True
  | s, a :: as => P s a ∧ Along P (step s a) as

/-- `ACCESS` that reads the record with number 0. -/
def FetchesFree (s : Card) (a : Access) : Prop := accessOf s a = some false ∧ param s = 0

section Runs

variable {s : Card} {a : Access}

/-- The card as a command finds it. -/
def prepared (s : Card) (value : UInt16) : Card :=
  setReg (setReg (setReg (setReg s regCmd (value &&& 0x7fff)) regResp0 0) (regResp0 + 1) 0) (regResp0 + 2) 0

theorem access_status {value : UInt16} (h21 : (value &&& 0x3f).toNat = 0x21) :
    (command s value).regs regStatus = 0x21 ||| UInt16.ofNat ((perform (prepared s value) value).2 * 256) := by
  have hop : value &&& 0x3f = 0x21 := UInt16.toNat_inj.mp h21
  show (value &&& 0x3f) ||| UInt16.ofNat ((perform (prepared s value) value).2 * 256) = _
  rw [hop]

theorem access_failed {value : UInt16} (h21 : (value &&& 0x3f).toNat = 0x21)
    (h : perform (prepared s value) value = (prepared s value, 1)) : Refused s (command s value) := by
  have hcommand : command s value = raise (setReg (prepared s value) regStatus
    ((value &&& 0x3f) ||| UInt16.ofNat (1 * 256))) evCmd := by
    show (let p := perform (prepared s value) value
      raise (setReg p.1 regStatus ((value &&& 0x3f) ||| UInt16.ofNat (p.2 * 256))) evCmd) = _
    rw [h]
  refine ⟨?_, ?_, ?_⟩
  · rw [access_status h21, h]
    simp only
    decide
  · rw [hcommand]
    rfl
  · rintro reg ⟨hcmd, hstatus, hresp, hevstat⟩
    have hlow : reg ≠ regResp0 ∧ reg ≠ regResp0 + 1 ∧ reg ≠ regResp0 + 2 := by
      unfold regResp0 at *
      omega
    rw [hcommand]
    unfold raise prepared setReg
    simp [hcmd, hstatus, hevstat, hlow]

theorem access_missing {w : Bool} (hw : accessOf s a = some w) (hmissing : ¬ Exists s (param s)) (ht : Table s.records) :
    Refused s (step s a) ↔ ¬ FetchesFree s a := by
  cases hv : written s regCmd a with
  | none =>
    rw [accessOf, hv] at hw
    cases hw
  | some v =>
    have haccess := hw
    simp only [accessOf, hv, Option.ite_none_right_eq_some, Option.some.injEq] at haccess
    obtain ⟨h21, hflag⟩ := haccess
    have hperform := perform_access (s := prepared s v) h21
    rw [show param (prepared s v) = param s from rfl, show (prepared s v).records = s.records from rfl] at hperform
    have hfree := spare_record.mp ht.spare
    have hstep : step s a = command s v := step_written hv
    unfold FetchesFree
    rw [hstep, hw]
    cases hr : record s.records (param s) with
    | none =>
      rw [hr] at hperform
      have hne : param s ≠ 0 := by
        intro hzero
        rw [hzero] at hr
        rw [hr] at hfree
        cases hfree
      exact ⟨fun _ h => hne h.2, fun _ => access_failed h21 hperform⟩
    | some r =>
      rw [hr] at hperform
      simp only at hperform
      have hzero : param s = 0 := by
        by_contra hne
        apply hmissing
        exact ⟨hne, by rw [hr]; rfl⟩
      rw [hzero] at hperform ⊢
      cases w with
      | true =>
        -- no number below 0xfc00 is committed
        have hcommit : commit (prepared s v) r 0 = (prepared s v, 1) := rfl
        rw [if_pos (by simpa using hflag), hcommit] at hperform
        simp only [Option.some.injEq, Bool.true_eq_false, false_and, not_false_eq_true, iff_true]
        exact access_failed h21 hperform
      | false =>
        rw [if_neg (by simpa using hflag)] at hperform
        simp only [and_self, not_true_eq_false, iff_false]
        rintro ⟨hstatus, -⟩
        rw [access_status h21, hperform] at hstatus
        simp only at hstatus
        exact absurd hstatus (by decide)

/-- A read through the data port of a record that is there. -/
theorem read_staged {offset size port : Nat} (hport : dataPort offset size = some port) (hsize : 0 < size)
    (hok : s.regs (regOffset0 + port) &&& 0x4000 = 0) (hfits : (s.regs (regOffset0 + port) &&& 0x3fff).toNat + size ≤ 128)
    (hexists : Exists s (selected s port)) :
    (read s offset size).1 = rd size (staged s (selected s port)) (s.regs (regOffset0 + port) &&& 0x3fff).toNat := by
  obtain ⟨r, hr⟩ := Option.isSome_iff_exists.mp hexists.2
  have hwindow : inWindow offset size = true := by
    unfold dataPort regData0 regData1 at hport
    unfold inWindow
    simp only [Bool.and_eq_true, decide_eq_true_iff, bne_iff_ne]
    split at hport
    · split at hport
      · omega
      · split at hport
        · omega
        · cases hport
    · cases hport
  have hread : read s offset size = bapData s port size none := by
    unfold read
    rw [hwindow, hport]
    rfl
  rw [hread, bapData_some (bapMemory_record hr)]
  simp only [show (Memory.record r).capacity = 128 from rfl]
  rw [if_neg (by rintro (h | h); exacts [h hok, by omega]), staged, hr]
  rfl

theorem sound_iff (ht : Table s.records) : Sound s a ↔ ¬ FetchesFree s a := by
  constructor
  · rintro hsound ⟨hw, hzero⟩
    have hmissing : ¬ Exists s (param s) := fun hexists => hexists.1 hzero
    exact (access_missing hw hmissing ht).mp (hsound.refused false hw hmissing) ⟨hw, hzero⟩
  · intro hfree
    constructor
    · exact ht.sized
    · exact fun hinit id hid => (step_record hinit hid).1
    · exact fun hinit id hid => (step_record hinit hid).2
    · exact fun offset size port _ hport hsize hok hfits hexists => read_staged hport hsize hok hfits hexists
    · exact fun w hw hmissing => (access_missing hw hmissing ht).mpr hfree

theorem along_iff {as : List Access} (ht : Table s.records) : Along Sound s as ↔ Along (fun s a => ¬ FetchesFree s a) s as := by
  induction as generalizing s with
  | nil => exact Iff.rfl
  | cons a as ih => exact and_congr (sound_iff ht) (ih (ht.step a))

end Runs

/-- In every run from the attached card, each access keeps to the record store exactly when
    none is an `ACCESS` without the write flag of the number 0, and bytes staged in records
    that are not committed change nothing but themselves. -/
theorem record_store_iff (security : Wifi.Security) (mac : List UInt8) (hermes : Bool) (firmware : Nat) (cis : List UInt8) :
    (∀ as, Along Sound (attach security mac hermes firmware cis) as ↔
        Along (fun s a => ¬ FetchesFree s a) (attach security mac hermes firmware cis) as) ∧
      ∀ D t t', Pair D (attach security mac hermes firmware cis) t t' →
        canAssociate t = canAssociate t' ∧ t.associated = t'.associated ∧ ∀ id, committed t id = committed t' id := by
  refine ⟨fun as => along_iff (Table.attach security mac hermes firmware cis), ?_⟩
  intro D t t' hpair
  have hsame := hpair.blank
  have hassociated : (blank D t).associated = (blank D t').associated := congrArg Card.associated hsame
  refine ⟨?_, hassociated, ?_⟩
  · rw [← canAssociate_blank (D := D), hsame, canAssociate_blank]
  · intro id
    rw [← committed_blank (D := D), hsame, committed_blank]

/-- The number 0 is read as if it were a record's. -/
theorem free_record_read : ∃ as, ¬ Along Sound started as := by
  refine ⟨[.write 0 2 0x21], ?_⟩
  intro h
  have hfetch : FetchesFree started (.write 0 2 0x21) := by
    unfold FetchesFree
    decide
  have ht : Table started.records := Table.attach openNetwork [2, 0x60, 0xb3, 0, 0, 1] false 0 [1, 3, 0xdc, 0, 0xff]
  exact (sound_iff ht).mp h.1 hfetch

end Be300.Xi825
