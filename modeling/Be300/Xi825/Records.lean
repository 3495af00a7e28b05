/-
  Be300.Xi825.Records — the record store of the XI-825: what is staged through the data
  port and what ACCESS commits of it.

  `step_record` says what every access makes of the two copies of a configuration record.
  What an access can do to the whole table is a `Turn` (`step_turns`): the records keep
  their numbers and the lengths that their committed bytes give.
-/

import Be300.Xi825.Events
import Mathlib.Logic.Relation

namespace Be300.Xi825

open Lib

/-! ## What leaves the record table alone -/

section Kept

variable {s : Card}

theorem allocate_records {s' : Card} {length id : Nat} {data : Nat → UInt8} (h : allocate s length data = some (s', id)) :
    s'.records = s.records := by
  obtain ⟨-, b, buffers, -, -, -, -, -, rfl⟩ := allocate_eq h
  rfl

theorem info_records (s : Card) (type : Nat) (data : List UInt8) : (info s type data).1.records = s.records := by
  unfold info
  split
  · rfl
  · split
    · rfl
    · rename_i u id halloc
      have hkeep := allocate_records halloc
      exact hkeep

theorem scan_records (s : Card) : (scan s).records = s.records := by
  unfold scan
  split
  · split <;> exact info_records s _ _
  · exact info_records s _ _

theorem receive_records (s : Card) (eth : List UInt8) : (receive s eth).1.records = s.records := by
  unfold receive
  split
  · rfl
  · split
    · rfl
    · split
      · rfl
      · rename_i u id halloc
        have hkeep := allocate_records halloc
        exact hkeep

theorem tick_records (s : Card) : (tick s).records = s.records := by
  unfold tick
  simp only
  generalize canAssociate { s with transmit := true } = connected
  generalize le 2 (if connected = true then 1 else 2) = data
  split
  · split
    · exact info_records _ _ _
    · exact info_records _ _ _
  · rfl

theorem ack_records (s : Card) (value : UInt16) : (ack s value).records = s.records := by
  have hinfo : ∀ u, (popInfo u value).records = u.records := by
    intro u
    rw [popInfo_eq]
    have hkeep := (release_fields (value &&& evInfo ≠ 0 ∧ u.infoQueue.count ≠ 0) u u.infoQueue.front).2.1
    simp only
    split <;> exact hkeep
  have hrx : ∀ u, (popRx u value).records = u.records := by
    intro u
    rw [popRx_eq]
    have hkeep := (release_fields (value &&& evRx ≠ 0 ∧ u.rxQueue.count ≠ 0) u u.rxQueue.front).2.1
    simp only
    split <;> exact hkeep
  exact (hrx _).trans (hinfo _)

theorem sendBuffer_records {b : Buffer} {value : UInt16} {param : Nat} {t : Card} (h : sendBuffer s b value param = some t) :
    t.records = s.records := by
  unfold sendBuffer at h
  simp only [Option.bind_eq_bind, Option.bind_eq_some_iff] at h
  obtain ⟨frame, -, data, -, control, -, h⟩ := h
  have hreport : ∀ (u : Card) (ok : Bool), (if ok = true then if control &&& 2 ≠ 0 then raise u evTx else u
      else if control &&& 4 ≠ 0 then raise u evTxexc else u).records = u.records := by
    intro u ok
    repeat' split
    all_goals rfl
  split at h
  · cases h
    exact hreport _ _
  · cases h
    exact hreport _ _

end Kept

/-! ## Records by number -/

def staged (s : Card) (id : Nat) : Nat → UInt8 :=
  match record s.records id with
  | some r => r.data
  | none => fun _ => 0

/-- A record has the number; 0 is that of a free slot. -/
def Exists (s : Card) (id : Nat) : Prop := id ≠ 0 ∧ (record s.records id).isSome

def selected (s : Card) (port : Nat) : Nat := (s.regs (regSelect0 + port)).toNat

def param (s : Card) : Nat := (s.regs regParam0).toNat

/-- The staged bytes of the record are ones that `ACCESS` commits. -/
def valid (s : Card) (id : Nat) : Bool :=
  (record s.records id).isSome && decide (id / 256 = 0xfc) && rd 2 (staged s id) 0 != 0 && decide (rd 2 (staged s id) 0 ≤ 63) &&
    rd 2 (staged s id) 2 == id

/-- An `ACCESS` command, with its write flag. -/
def accessOf (s : Card) (a : Access) : Option Bool :=
  match written s regCmd a with
  | some v => if (v &&& 0x3f).toNat = 0x21 then some (v &&& 0x100 != 0) else none
  | none => none

def commits (s : Card) (a : Access) (id : Nat) : Bool := accessOf s a == some true && param s == id && valid s id

def fetches (s : Card) (a : Access) (id : Nat) : Bool := accessOf s a == some false && param s == id

/-- Where and what an access writes through the data port: the record, the position, the bytes. -/
def stages (s : Card) : Access → Option (Nat × Nat × List UInt8)
  | .write offset size value =>
    match dataPort offset size with
    | some port =>
      let off := s.regs (regOffset0 + port)
      let pos := (off &&& 0x3fff).toNat
      if off &&& 0x4000 = 0 ∧ pos + size ≤ 128 ∧ (record s.records (selected s port)).isSome then
        some (selected s port, pos, le size (value % 65536))
      else none
    | none => none
  | _ => none

/-- The staged bytes of a record after an access. -/
def stagedAfter (s : Card) (a : Access) (id : Nat) : Nat → UInt8 :=
  if fetches s a id then committed s id
  else
    match stages s a with
    | some (k, pos, bytes) => if k = id then patch (staged s id) pos bytes else staged s id
    | none => staged s id

section Lookup

variable {s s' : Card} {l : List Record} {id k : Nat} {f : Record → Record}

theorem record_id {r : Record} (h : record l id = some r) : r.id = id :=
  Option.some.inj (Slots.lookup_key h : recordKey r = some id)

theorem record_modify (hf : ∀ r, (f r).id = r.id) : record (Slots.modify recordKey k f l) id =
    if id = k then (record l id).map f else record l id := by
  have hkey : ∀ r, recordKey (f r) = recordKey r := fun r => congrArg some (hf r)
  unfold record
  split
  · rename_i heq
    rw [heq]
    exact Slots.lookup_modify_self fun r hr => (hkey r).trans hr
  · rename_i hne
    apply Slots.lookup_modify_ne hne
    intro r hr
    rw [hkey, hr]
    exact fun heq => hne (Option.some.inj heq).symm

theorem committed_congr (h : s'.records = s.records) (id : Nat) :
    committed s' id = committed s id ∧ staged s' id = staged s id := by
  unfold committed staged
  rw [h]
  exact ⟨rfl, rfl⟩

end Lookup

/-! ## What a command makes of the records -/

/-- A configuration record other than the station address. -/
def Config (id : Nat) : Prop := id / 256 = 0xfc ∧ id ≠ 0xfc01

section Commands

variable {s u : Card} {value : UInt16} {id : Nat}

theorem refreshed_config (hid : Config id) : refreshed s id = none := by
  obtain ⟨hpage, hne⟩ := hid
  unfold refreshed
  repeat (rw [if_neg (by omega)])

theorem perform_keeps (h0 : (value &&& 0x3f).toNat ≠ 0) (h21 : (value &&& 0x3f).toNat ≠ 0x21) :
    (perform s value).1.records = s.records := by
  unfold perform
  generalize (value &&& 0x3f).toNat = op at h0 h21 ⊢
  simp only
  split
  · exact absurd rfl h0
  · split <;> rfl
  · rfl
  · split
    · rfl
    · split
      · rfl
      · rename_i t id halloc
        have hkeep := allocate_records halloc
        exact hkeep
  · split
    · rfl
    · rename_i b hb
      split
      · rfl
      · cases hsend : sendBuffer s b value (s.regs regParam0).toNat with
        | none => rfl
        | some t => exact sendBuffer_records hsend
  · split
    · exact info_records _ _ _
    · split
      · exact scan_records s
      · split <;> rfl
  · exact absurd rfl h21
  · rfl

theorem perform_access (h21 : (value &&& 0x3f).toNat = 0x21) : perform s value =
    match record s.records (param s) with
    | none => (s, 1)
    | some r => if value &&& 0x100 ≠ 0 then commit s r (param s) else (fetch s (param s), 0) := by
  unfold perform
  simp only [h21]
  rfl

theorem valid_iff {r : Record} (hr : record s.records id = some r) :
    valid s id = true ↔ ¬ (id / 256 ≠ 0xfc ∨ rd 2 r.data 0 = 0 ∨ rd 2 r.data 0 > 63 ∨ rd 2 r.data 2 ≠ id) := by
  have hstaged : staged s id = r.data := by rw [staged, hr]
  unfold valid
  rw [hr, hstaged]
  simp only [Option.isSome_some, Bool.true_and, Bool.and_eq_true, decide_eq_true_iff, bne_iff_ne, beq_iff_eq]
  omega

theorem commit_spec {r : Record} (hr : record s.records id = some r) :
    (commit s r id).2 = (if valid s id = true then 0 else 1) ∧ (commit s r id).1.records =
      if valid s id = true then
        Slots.modify recordKey id (fun c => { c with length := 2 + rd 2 r.data 0 * 2, committed := c.data }) s.records
      else s.records := by
  have hiff := valid_iff hr
  unfold commit
  simp only
  split
  · rename_i hbad
    rw [if_neg (fun hv => hiff.mp hv hbad), if_neg (fun hv => hiff.mp hv hbad)]
    exact ⟨rfl, rfl⟩
  · rename_i hgood
    rw [if_pos (hiff.mpr hgood), if_pos (hiff.mpr hgood)]
    refine ⟨rfl, ?_⟩
    simp only
    split
    · exact scan_records _
    · rfl

theorem record_add_ne {l : List Record} {k : Nat} (hk : (record l k).isSome) (hne : id ≠ k) (data : List UInt8) :
    record (addRecord l k data) id = record l id := by
  unfold addRecord
  split
  · rfl
  · exact Slots.lookup_modify_ne hne fun _ _ heq => hne (Option.some.inj heq).symm

theorem fetch_record {k : Nat} (hk : (record s.records k).isSome) (hid : Config id) :
    record (fetch s k).records id =
      if id = k then (record s.records id).map fun r => { r with data := r.committed } else record s.records id := by
  show record (Slots.modify recordKey k (fun r => { r with data := r.committed }) (refreshRecord s k).records) id = _
  rw [record_modify (f := fun r => { r with data := r.committed }) fun _ => rfl]
  unfold refreshRecord
  split
  · rename_i heq
    rw [← heq, refreshed_config hid]
  · rename_i hne
    cases refreshed s k with
    | none => rfl
    | some data => exact record_add_ne hk hne data

/-- A configuration record after a command. -/
theorem perform_record (h0 : (value &&& 0x3f).toNat ≠ 0) (hid : Config id) :
    committed (perform s value).1 id =
        (if (value &&& 0x3f).toNat = 0x21 ∧ value &&& 0x100 ≠ 0 ∧ param s = id ∧ valid s id = true then staged s id
          else committed s id) ∧
      staged (perform s value).1 id =
        if (value &&& 0x3f).toNat = 0x21 ∧ value &&& 0x100 = 0 ∧ param s = id then committed s id else staged s id := by
  by_cases h21 : (value &&& 0x3f).toNat = 0x21
  · rw [perform_access h21]
    cases hr : record s.records (param s) with
    | none =>
      -- a number that no record has holds nothing
      have hempty : param s = id → committed s id = staged s id := by
        intro heq
        rw [heq] at hr
        rw [committed, staged, hr]
      have hinvalid : param s = id → valid s id = false := by
        intro heq
        rw [heq] at hr
        simp [valid, hr]
      simp only
      refine ⟨?_, ?_⟩
      · rw [if_neg]
        rintro ⟨-, -, heq, hv⟩
        rw [hinvalid heq] at hv
        cases hv
      · split
        · rename_i hfetch
          exact (hempty hfetch.2.2).symm
        · rfl
    | some r =>
      simp only
      by_cases hflag : value &&& 0x100 = 0
      · rw [if_neg (fun h => h hflag), if_neg (fun h => h.2.1 hflag)]
        have hrecord := fetch_record (s := s) (show (record s.records (param s)).isSome by rw [hr]; rfl) hid
        unfold committed staged
        rw [hrecord]
        simp only [h21, hflag, true_and]
        by_cases heq : id = param s
        · rw [if_pos heq, if_pos heq.symm]
          cases record s.records id <;> exact ⟨rfl, rfl⟩
        · rw [if_neg heq, if_neg (fun h => heq h.symm)]
          exact ⟨rfl, rfl⟩
      · have hrecords := (commit_spec hr).2
        have hnofetch : ¬ ((value &&& 0x3f).toNat = 0x21 ∧ value &&& 0x100 = 0 ∧ param s = id) := fun h => hflag h.2.1
        rw [if_pos hflag, if_neg hnofetch]
        unfold committed staged
        rw [hrecords]
        by_cases hv : valid s (param s) = true
        · rw [if_pos hv, record_modify
            (f := fun c => { c with length := 2 + rd 2 r.data 0 * 2, committed := c.data }) fun _ => rfl]
          by_cases heq : id = param s
          · rw [if_pos heq, if_pos ⟨h21, hflag, heq.symm, by rw [heq]; exact hv⟩]
            cases record s.records id <;> exact ⟨rfl, rfl⟩
          · rw [if_neg heq, if_neg (fun h => heq h.2.2.1.symm)]
            exact ⟨rfl, rfl⟩
        · rw [if_neg hv, if_neg]
          · exact ⟨rfl, rfl⟩
          · rintro ⟨-, -, heq, hvalid⟩
            rw [heq] at hv
            exact hv hvalid
  · have hkeep := committed_congr (perform_keeps (s := s) h0 h21) id
    rw [if_neg (fun h => h21 h.1), if_neg (fun h => h21 h.1)]
    exact hkeep

theorem command_record (h0 : (value &&& 0x3f).toNat ≠ 0) (hid : Config id) :
    committed (command s value) id =
        (if (value &&& 0x3f).toNat = 0x21 ∧ value &&& 0x100 ≠ 0 ∧ param s = id ∧ valid s id = true then staged s id
          else committed s id) ∧
      staged (command s value) id =
        if (value &&& 0x3f).toNat = 0x21 ∧ value &&& 0x100 = 0 ∧ param s = id then committed s id else staged s id :=
  perform_record (s := setReg (setReg (setReg (setReg s regCmd (value &&& 0x7fff)) regResp0 0) (regResp0 + 1) 0) (regResp0 + 2) 0)
    h0 hid

end Commands

/-! ## What an access makes of the records -/

section Accesses

variable {s : Card} {a : Access} {id : Nat}

theorem writeReg_records {reg : Nat} (hcmd : reg ≠ regCmd) (v : UInt16) : (writeReg s reg v).records = s.records := by
  unfold writeReg
  rw [if_neg hcmd]
  split
  · exact ack_records s v
  · split
    · rfl
    · split <;> rfl

theorem bapData_read_records (s : Card) (port size : Nat) : (bapData s port size none).2.records = s.records := by
  unfold bapData
  simp only
  split
  · rfl
  · split <;> rfl

theorem bapData_none {port size : Nat} {write : Option Nat} (hm : bapMemory s port = none) :
    bapData s port size write =
      (0xffff, setReg s (regOffset0 + port) (s.regs (regOffset0 + port) ||| 0x4000)) := by
  unfold bapData
  rw [hm]

theorem bapData_some {port size : Nat} {write : Option Nat} {m : Memory} (hm : bapMemory s port = some m) :
    bapData s port size write =
      let offset := s.regs (regOffset0 + port)
      let pos := (offset &&& 0x3fff).toNat
      if offset &&& 0x4000 ≠ 0 ∨ pos + size > m.capacity then (0xffff, setReg s (regOffset0 + port) (offset ||| 0x4000))
      else
        (rd size m.data pos,
          setReg (match write with | some value => bapWrite s port pos (le size value) | none => s) (regOffset0 + port)
            (UInt16.ofNat (pos + size))) := by
  unfold bapData
  generalize bapMemory s port = found at hm
  subst hm
  rfl

theorem bapWrite_records (s : Card) (port pos : Nat) (bytes : List UInt8) : (bapWrite s port pos bytes).records =
    if (record s.records (selected s port)).isSome then
      Slots.modify recordKey (selected s port) (fun r => { r with data := patch r.data pos bytes }) s.records
    else s.records := by
  unfold bapWrite
  simp only
  rw [show (s.regs (regSelect0 + port)).toNat = selected s port from rfl]
  split <;> rfl

theorem bapMemory_record {port : Nat} {r : Record} (hr : record s.records (selected s port) = some r) :
    bapMemory s port = some (.record r) := by
  unfold bapMemory
  simp only
  rw [show (s.regs (regSelect0 + port)).toNat = selected s port from rfl, hr]

theorem bapMemory_other {port : Nat} (hr : record s.records (selected s port) = none) :
    bapMemory s port = (buffer s.buffers (selected s port)).map .buffer := by
  unfold bapMemory
  simp only
  rw [show (s.regs (regSelect0 + port)).toNat = selected s port from rfl, hr]

/-- A write through the data port reaches the record that is selected. -/
theorem bapData_write_record (s : Card) (id port size value : Nat) :
    record (bapData s port size (some value)).2.records id =
      let off := s.regs (regOffset0 + port)
      let pos := (off &&& 0x3fff).toNat
      if (off &&& 0x4000 = 0 ∧ pos + size ≤ 128 ∧ (record s.records (selected s port)).isSome) ∧ id = selected s port then
        (record s.records id).map fun r => { r with data := patch r.data pos (le size value) }
      else record s.records id := by
  simp only
  have hwrite := bapWrite_records s port (s.regs (regOffset0 + port) &&& 0x3fff).toNat (le size value)
  cases hr : record s.records (selected s port) with
  | none =>
    rw [if_neg (by simp)]
    rw [hr] at hwrite
    have hm := bapMemory_other hr
    cases hb : buffer s.buffers (selected s port) with
    | none =>
      rw [hb] at hm
      rw [bapData_none hm]
      rfl
    | some b =>
      rw [hb] at hm
      rw [bapData_some hm]
      simp only
      split
      · rfl
      · exact congrArg (record · id) hwrite
  | some r =>
    rw [hr, if_pos Option.isSome_some] at hwrite
    rw [bapData_some (bapMemory_record hr)]
    have hcapacity : (Memory.record r).capacity = 128 := rfl
    simp only [hcapacity, Option.isSome_some, and_true]
    generalize s.regs (regOffset0 + port) = off at hwrite ⊢
    generalize (off &&& 0x3fff).toNat = pos at hwrite ⊢
    by_cases hok : off &&& 0x4000 = 0 ∧ pos + size ≤ 128
    · rw [if_neg (by rintro (h | h); exacts [h hok.1, by omega])]
      show record (bapWrite s port pos (le size value)).records id = _
      rw [hwrite, record_modify (f := fun r => { r with data := patch r.data pos (le size value) }) fun _ => rfl]
      simp only [hok, and_self, true_and]
    · have hstop : off &&& 0x4000 ≠ 0 ∨ pos + size > 128 := by
        by_contra hno
        simp only [not_or, not_not] at hno
        exact hok ⟨hno.1, by omega⟩
      rw [if_pos hstop, if_neg (fun h => hok h.1)]
      rfl

/-- The two copies of a configuration record after an access. -/
theorem step_record (hinit : opOf s a ≠ some 0) (hid : Config id) :
    committed (step s a) id = (if commits s a id then staged s id else committed s id) ∧
      staged (step s a) id = stagedAfter s a id := by
  have hkeep : (step s a).records = s.records → accessOf s a = none → stages s a = none →
      committed (step s a) id = (if commits s a id then staged s id else committed s id) ∧
        staged (step s a) id = stagedAfter s a id := by
    intro hrecords haccess hstages
    have hcongr := committed_congr hrecords id
    unfold commits stagedAfter fetches
    rw [haccess, hstages]
    exact hcongr
  cases a with
  | read offset size =>
    apply hkeep _ rfl rfl
    show (Xi825.read s offset size).2.records = s.records
    unfold Xi825.read
    split
    · rfl
    · split
      · exact bapData_read_records s _ size
      · rfl
  | receive eth => exact hkeep (receive_records s eth) rfl rfl
  | tick => exact hkeep (tick_records s) rfl rfl
  | write offset size value =>
    cases hport : dataPort offset size with
    | some port =>
      have haccess : accessOf s (.write offset size value) = none := by
        simp [accessOf, written, hport]
      have hrecord := bapData_write_record s id port size (value % 65536)
      have hstep : step s (.write offset size value) = (bapData s port size (some (value % 65536))).2 := by
        show writeShort s offset size value = _
        rw [writeShort, hport]
      have hcommits : commits s (.write offset size value) id = false := by simp [commits, haccess]
      have hfetches : fetches s (.write offset size value) id = false := by simp [fetches, haccess]
      rw [hstep, hcommits, stagedAfter, hfetches, stages, hport]
      simp only [Bool.false_eq_true, if_false]
      unfold committed staged
      rw [hrecord]
      simp only
      by_cases hok : s.regs (regOffset0 + port) &&& 0x4000 = 0 ∧
          (s.regs (regOffset0 + port) &&& 0x3fff).toNat + size ≤ 128 ∧ (record s.records (selected s port)).isSome
      · rw [if_pos hok]
        simp only
        by_cases heq : id = selected s port
        · rw [if_pos ⟨hok, heq⟩, if_pos heq.symm]
          have hr := hok.2.2
          rw [← heq] at hr
          obtain ⟨r, hr⟩ := Option.isSome_iff_exists.mp hr
          rw [hr]
          exact ⟨rfl, rfl⟩
        · rw [if_neg (fun h => heq h.2), if_neg (fun h => heq h.symm)]
          exact ⟨rfl, rfl⟩
      · rw [if_neg (fun h => hok h.1), if_neg hok]
        exact ⟨rfl, rfl⟩
    | none =>
      have hwritten : ∀ reg, written s reg (.write offset size value) = if offset / 2 = reg then
          some (if size = 1 then mergeByte (s.regs (offset / 2)) offset value else UInt16.ofNat value) else none := by
        intro reg
        simp [written, hport]
      have hstages : stages s (.write offset size value) = none := by
        simp [stages, hport]
      have hstep : step s (.write offset size value) = writeReg s (offset / 2)
          (if size = 1 then mergeByte (s.regs (offset / 2)) offset value else UInt16.ofNat value) := by
        show writeShort s offset size value = _
        rw [writeShort, hport]
      by_cases hcmd : offset / 2 = regCmd
      · generalize (if size = 1 then mergeByte (s.regs (offset / 2)) offset value else UInt16.ofNat value) = v at hwritten hstep
        have hv := hwritten regCmd
        rw [if_pos hcmd] at hv
        have h0 : (v &&& 0x3f).toNat ≠ 0 := by
          intro hzero
          apply hinit
          rw [opOf, hv, Option.map_some, hzero]
        rw [hcmd] at hstep
        rw [hstep]
        obtain ⟨hcommitted, hstaged⟩ := command_record (s := s) h0 hid
        have haccess : accessOf s (.write offset size value) =
            if (v &&& 0x3f).toNat = 0x21 then some (v &&& 0x100 != 0) else none := by
          rw [accessOf, hv]
        refine ⟨hcommitted.trans ?_, hstaged.trans ?_⟩
        · unfold commits
          rw [haccess]
          by_cases h21 : (v &&& 0x3f).toNat = 0x21
          · simp [h21, and_assoc]
          · simp [and_assoc]
        · unfold stagedAfter fetches
          rw [hstages, haccess]
          by_cases h21 : (v &&& 0x3f).toNat = 0x21
          · simp [h21]
          · simp [and_assoc]
      · apply hkeep _ _ hstages
        · rw [hstep]
          exact writeReg_records hcmd _
        · rw [accessOf, hwritten, if_neg hcmd]

end Accesses

/-! ## The table -/

/-- What one operation on the table can make of it. -/
inductive Turn : List Record → List Record → Prop
  | stage {l : List Record} (k : Nat) (f : Record → Record)
      (hf : ∀ r, (f r).id = r.id ∧ (f r).length = r.length ∧ (f r).committed = r.committed) : Turn l
        (Slots.modify recordKey k f l)
  | commit {l : List Record} {k : Nat} {r : Record} (hr : record l k = some r) :
      Turn l (Slots.modify recordKey k (fun c => { c with length := 2 + rd 2 r.data 0 * 2, committed := c.data }) l)
  | add {l : List Record} {k : Nat} (data : List UInt8) (hk : (record l k).isSome) : Turn l (addRecord l k data)

/-- Turns one after the other. -/
def Turns : List Record → List Record → Prop := Relation.ReflTransGen Turn

/-- A record has the length that its committed bytes give; a free slot has none. -/
def Sized (r : Record) : Prop := r.id ≠ 0 → r.length = 2 + rd 2 r.committed 0 * 2

/-- The free slots. -/
def spare (l : List Record) : Nat := l.countP fun r => r.id == 0

section Table

variable {s : Card} {l l' : List Record}

theorem newRecord_sized (id : Nat) {data : List UInt8} (h : data.length ≤ 124) : Sized (newRecord id data) := by
  intro _
  show 4 + (data.length + 1) / 2 * 2 =
    2 + rd 2 (at' (le 2 (1 + (data.length + 1) / 2) ++ le 2 id ++ data)) 0 * 2
  rw [List.append_assoc, rd_le_of_lt (show 1 + (data.length + 1) / 2 < 256 ^ 2 by omega)]
  omega

theorem Turn.ids (h : Turn l l') : Slots.keys recordKey l' = Slots.keys recordKey l := by
  cases h with
  | stage k f hf =>
    apply Slots.keys_modify
    intro r hr
    exact (congrArg some (hf r).1).trans hr
  | commit hr => exact Slots.keys_modify fun _ hc => hc
  | add data hk =>
    unfold addRecord
    rw [if_pos hk]
    split
    · rfl
    · exact Slots.keys_modify fun _ _ => rfl

theorem Turn.sized (h : Turn l l') (hl : ∀ r ∈ l, Sized r) : ∀ r ∈ l', Sized r := by
  intro x hx
  cases h with
  | stage k f hf =>
    rcases Slots.mem_modify hx with hold | ⟨r, hr, rfl⟩
    · exact hl x hold
    · obtain ⟨hid, hlength, hcommitted⟩ := hf r
      intro hne
      rw [hlength, hcommitted]
      rw [hid] at hne
      exact hl r (Slots.lookup_mem hr) hne
  | commit hr =>
    rcases Slots.mem_modify hx with hold | ⟨c, hc, rfl⟩
    · exact hl x hold
    · -- the record changed is the one looked up
      have heq := Option.some.inj (hr.symm.trans hc)
      intro _
      rw [heq]
  | add data hk =>
    unfold addRecord at hx
    rw [if_pos hk] at hx
    split at hx
    · exact hl x hx
    · rename_i hfits
      rcases Slots.mem_modify hx with hold | ⟨c, hc, rfl⟩
      · exact hl x hold
      · exact newRecord_sized _ (by omega)

theorem Turns.ids (h : Turns l l') : Slots.keys recordKey l' = Slots.keys recordKey l := by
  induction h with
  | refl => rfl
  | tail _ hturn ih => exact hturn.ids.trans ih

theorem Turns.sized (h : Turns l l') (hl : ∀ r ∈ l, Sized r) : ∀ r ∈ l', Sized r := by
  induction h with
  | refl => exact hl
  | tail _ hturn ih => exact hturn.sized ih

theorem commit_turns {r : Record} {k : Nat} (hr : record s.records k = some r) : Turns s.records (commit s r k).1.records := by
  rw [(commit_spec hr).2]
  split
  · exact .single (.commit hr)
  · exact .refl

theorem fetch_turns {k : Nat} (hk : (record s.records k).isSome) : Turns s.records (fetch s k).records := by
  have hadd : Turns s.records (refreshRecord s k).records := by
    unfold refreshRecord
    cases refreshed s k with
    | none => exact .refl
    | some data => exact .single (.add data hk)
  exact hadd.tail (.stage k _ fun _ => ⟨rfl, rfl, rfl⟩)

theorem perform_turns {value : UInt16} (h0 : (value &&& 0x3f).toNat ≠ 0) : Turns s.records (perform s value).1.records := by
  by_cases h21 : (value &&& 0x3f).toNat = 0x21
  · rw [perform_access h21]
    cases hr : record s.records (param s) with
    | none => exact .refl
    | some r =>
      simp only
      split
      · exact commit_turns hr
      · exact fetch_turns (by rw [hr]; rfl)
  · rw [perform_keeps h0 h21]
    exact .refl

theorem command_turns {value : UInt16} (h0 : (value &&& 0x3f).toNat ≠ 0) : Turns s.records (command s value).records :=
  perform_turns (s := setReg (setReg (setReg (setReg s regCmd (value &&& 0x7fff)) regResp0 0) (regResp0 + 1) 0) (regResp0 + 2) 0)
    h0

theorem bapData_turns (s : Card) (port size : Nat) (write : Option Nat) :
    Turns s.records (bapData s port size write).2.records := by
  cases write with
  | none =>
    rw [bapData_read_records]
    exact .refl
  | some value =>
    cases hm : bapMemory s port with
    | none =>
      rw [bapData_none hm]
      exact .refl
    | some m =>
      rw [bapData_some hm]
      simp only
      split
      · exact .refl
      · show Turns s.records (bapWrite s port _ _).records
        rw [bapWrite_records]
        split
        · exact .single (.stage _ _ fun _ => ⟨rfl, rfl, rfl⟩)
        · exact .refl

/-- Every access but INIT changes the table in turns. -/
theorem step_turns {a : Access} (hinit : opOf s a ≠ some 0) : Turns s.records (step s a).records := by
  have hkeep : (step s a).records = s.records → Turns s.records (step s a).records := by
    intro heq
    rw [heq]
    exact .refl
  cases a with
  | read offset size =>
    show Turns s.records (Xi825.read s offset size).2.records
    unfold Xi825.read
    split
    · exact .refl
    · cases dataPort offset size with
      | none => exact .refl
      | some port => exact bapData_turns s port size none
  | write offset size value =>
    cases hport : dataPort offset size with
    | some port =>
      have hstep : step s (.write offset size value) = (bapData s port size (some (value % 65536))).2 := by
        show writeShort s offset size value = _
        rw [writeShort, hport]
      rw [hstep]
      exact bapData_turns s port size _
    | none =>
      by_cases hcmd : offset / 2 = regCmd
      · have hwritten : written s regCmd (.write offset size value) = some
            (if size = 1 then mergeByte (s.regs (offset / 2)) offset value else UInt16.ofNat value) := if_pos ⟨hport, hcmd⟩
        rw [step_written hwritten]
        apply command_turns
        intro hzero
        apply hinit
        rw [opOf, hwritten, Option.map_some, hzero]
      · apply hkeep
        show (writeShort s offset size value).records = s.records
        rw [writeShort, hport]
        exact writeReg_records hcmd _
  | receive eth => exact hkeep (receive_records s eth)
  | tick => exact hkeep (tick_records s)

theorem spare_ids (l : List Record) : spare l = (Slots.keys recordKey l).count 0 := by
  have hkeys : Slots.keys recordKey l = l.map Record.id := by
    unfold Slots.keys recordKey
    rw [← List.filterMap_eq_map]
    rfl
  rw [hkeys, List.count, List.countP_map]
  rfl

theorem spare_record : 0 < spare l ↔ (record l 0).isSome := by
  unfold spare record Slots.lookup recordKey
  rw [List.countP_pos_iff, List.find?_isSome]
  simp

theorem spare_add {id : Nat} (hid : id ≠ 0) (data : List UInt8) : spare l ≤ spare (addRecord l id data) + 1 := by
  unfold addRecord
  split
  · omega
  · split
    · have hsame : ∀ r, recordKey r = some id → ((newRecord id data).id == 0) = (r.id == 0) := by
        intro r hr
        have hr : r.id = id := Option.some.inj hr
        rw [hr]
        rfl
      unfold spare
      rw [Slots.countP_modify hsame]
      omega
    · cases hplace : Slots.place (fun r => r.id == 0) (newRecord id data) l with
      | none => exact Nat.le_succ _
      | some l' =>
        have hcount := Slots.countP_place hplace (show (id == 0) = false from by simpa using hid)
        unfold spare
        rw [Option.getD_some]
        omega

theorem sized_add (hl : ∀ r ∈ l, Sized r) (id : Nat) (data : List UInt8) : ∀ r ∈ addRecord l id data, Sized r := by
  intro x hx
  unfold addRecord at hx
  split at hx
  · exact hl x hx
  · rename_i hfits
    split at hx
    · rcases Slots.mem_modify hx with hold | ⟨c, hc, rfl⟩
      · exact hl x hold
      · exact newRecord_sized id (by omega)
    · cases hplace : Slots.place (fun r => r.id == 0) (newRecord id data) l with
      | none =>
        rw [hplace] at hx
        exact hl x hx
      | some l' =>
        rw [hplace] at hx
        rcases Slots.mem_place hplace hx with rfl | hold
        · exact newRecord_sized id (by omega)
        · exact hl x hold

theorem addRecords_table {added : List (Nat × List UInt8)} (hadded : ∀ r ∈ added, r.1 ≠ 0) (hl : ∀ r ∈ l, Sized r) :
    (∀ r ∈ addRecords l added, Sized r) ∧ spare l ≤ spare (addRecords l added) + added.length := by
  induction added generalizing l with
  | nil => exact ⟨hl, Nat.le_refl _⟩
  | cons r added ih =>
    obtain ⟨hsized, hspare⟩ := ih (fun x hx => hadded x (List.mem_cons_of_mem r hx)) (sized_add hl r.1 r.2)
    have hone := spare_add (l := l) (hadded r List.mem_cons_self) r.2
    refine ⟨hsized, ?_⟩
    rw [List.length_cons, show addRecords l (r :: added) = addRecords (addRecord l r.1 r.2) added from rfl]
    omega

theorem resetRecords_length (s : Card) : (resetRecords s).length ≤ 52 := by
  unfold resetRecords
  split
  · split <;> simp
  · simp

/-- Every record has its length, and a slot is free. -/
structure Table (l : List Record) : Prop where
  sized : ∀ r ∈ l, Sized r
  spare : 0 < spare l

theorem Table.turns (h : Table l) (hturns : Turns l l') : Table l' where
  sized := hturns.sized h.sized
  spare := by
    rw [spare_ids, hturns.ids, ← spare_ids]
    exact h.spare

theorem resetState_table (s : Card) : (∀ r ∈ (resetState s).records, Sized r) ∧ 12 ≤ spare (resetState s).records := by
  have hfree : ∀ r ∈ List.replicate recordCount freeRecord, Sized r := by
    intro r hr
    rw [List.eq_of_mem_replicate hr]
    intro hne
    exact absurd rfl hne
  have hids : ∀ r ∈ resetRecords s, r.1 ≠ 0 := by
    intro r hr
    have hlow := resetRecords_ids s r hr
    omega
  have hspare : spare (List.replicate recordCount freeRecord) = 64 := by
    unfold spare
    rw [List.countP_replicate]
    rfl
  obtain ⟨hsized, hcount⟩ := addRecords_table hids hfree
  have hlength := resetRecords_length s
  have hrecords : (resetState s).records = addRecords (List.replicate recordCount freeRecord) (resetRecords s) := by
    unfold resetState
    with_reducible rfl
  rw [hspare] at hcount
  rw [hrecords]
  exact ⟨hsized, by omega⟩

theorem reset_table (s : Card) : (∀ r ∈ (reset s).records, Sized r) ∧ 11 ≤ spare (reset s).records := by
  obtain ⟨hsized, hspare⟩ := resetState_table s
  unfold reset
  split
  · have hone := spare_add (l := (resetState s).records) (show 0xfd13 ≠ 0 by decide) (storedCis s)
    unfold setCis
    exact ⟨sized_add hsized _ _, by simp only; omega⟩
  · exact ⟨hsized, by omega⟩

theorem Table.attach (security : Wifi.Security) (mac : List UInt8) (hermes : Bool) (firmware : Nat) (cis : List UInt8) :
    Table (Xi825.attach security mac hermes firmware cis).records := by
  have hinit : (∀ r ∈ (init security mac hermes firmware).records, Sized r) ∧
      11 ≤ Xi825.spare (init security mac hermes firmware).records := reset_table _
  obtain ⟨hsized, hspare⟩ := hinit
  have hone := spare_add (l := (init security mac hermes firmware).records) (show 0xfd13 ≠ 0 by decide) cis
  unfold Xi825.attach setCis
  exact ⟨sized_add hsized _ _, by simp only; omega⟩

/-- INIT sets the table up again; every other access takes turns. -/
theorem Table.step (h : Table s.records) (a : Access) : Table (Xi825.step s a).records := by
  by_cases hinit : opOf s a = some 0
  · obtain ⟨v, hv, hzero⟩ := Option.map_eq_some_iff.mp hinit
    rw [step_written hv]
    have hrecords : (Xi825.command s v).records = (Xi825.reset
        (setReg (setReg (setReg (setReg s regCmd (v &&& 0x7fff)) regResp0 0) (regResp0 + 1) 0) (regResp0 + 2) 0)).records := by
      unfold Xi825.command perform
      simp only [hzero]
      rfl
    show Table (Xi825.command s v).records
    rw [hrecords]
    obtain ⟨hsized, hspare⟩ := reset_table
      (setReg (setReg (setReg (setReg s regCmd (v &&& 0x7fff)) regResp0 0) (regResp0 + 1) 0) (regResp0 + 2) 0)
    exact ⟨hsized, by omega⟩
  · exact h.turns (step_turns hinit)

end Table

end Be300.Xi825
