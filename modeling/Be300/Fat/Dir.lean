/-
  Be300.Fat.Dir — reading directories: `dir_find` and `dir_short_exists` of
  `src/cbea_install.c`.

  A directory is a list of 32-byte slots: an 8.3 entry, preceded by the slots of its long
  name in reverse order, 13 units each. `entriesFrom` decodes the slots as `dir_find` walks
  them, and `dir_find` is a search through the decoded entries (`dirFind_spec`), on any
  disk; the long-name buffer is only indexed inside its 260 units (`lfnPut_spec`).
-/

import Be300.Cbea.Strings
import Be300.Fat.Cluster

namespace Be300.Fat

open Be300.Lib (Prog rd at')
open Be300.Cbea (lowerAscii nameEqU16)

def attrVolume : UInt8 := 0x08
def attrDir : UInt8 := 0x10
def attrLfn : UInt8 := 0x0F

def lfnChars : Nat := 13

/-- Units of the long-name buffer. -/
def lfnUnits : Nat := lfnChars * 20

abbrev Slot : Type := List UInt8

/-! ## Reading a slot -/

def lfnChecksum (e : Slot) : UInt8 :=
  (List.range 11).foldl (fun sum i => ((sum &&& 1) <<< 7) + (sum >>> 1) + at' e i) 0

def lfnOffsets : List Nat := [1, 3, 5, 7, 9, 14, 16, 18, 20, 22, 24, 28, 30]

/-- The length of the `n` bytes from `i` on without the blanks at their end. -/
def trimmed (e : Slot) (i : Nat) : Nat → Nat
  | 0 => 0
  | n + 1 => if at' e (i + n) = 0x20 then trimmed e i n else n + 1

def shortToDisplay (e : Slot) : List Nat :=
  let baseLower := at' e 12 &&& 0x08 ≠ 0
  let extLower := at' e 12 &&& 0x10 ≠ 0
  let base := (List.range (trimmed e 0 8)).map fun i =>
    let ch := if i = 0 ∧ at' e 0 = 0x05 then 0xE5 else (at' e i).toNat
    if baseLower then lowerAscii ch else ch
  let ext := (List.range (trimmed e 8 3)).map fun i =>
    if extLower then lowerAscii (at' e (8 + i)).toNat else (at' e (8 + i)).toNat
  if ext = [] then base else base ++ 0x2E :: ext

def isFree (e : Slot) : Bool := at' e 0 == 0 || at' e 0 == 0xE5

def isLfn (e : Slot) : Bool := at' e 11 &&& 0x3F == attrLfn

def isVolume (e : Slot) : Bool := at' e 11 &&& attrVolume != 0

def isDir (e : Slot) : Bool := at' e 11 &&& attrDir != 0

/-- `expect`, `chk` and the buffer `lfn` of `dir_find`; the buffer is read only after it
    was cleared. -/
structure LfnState where
  expect : Nat
  chk : UInt8
  lfn : Nat → Nat

def LfnState.init : LfnState := ⟨0, 0, fun _ => 0⟩

def LfnState.reset (st : LfnState) : LfnState := { st with expect := 0 }

def lfnOrd (e : Slot) : Nat := (at' e 0 &&& 0x3F).toNat

/-- The buffer with the 13 units of `e` at their place. -/
def lfnWrite (lfn : Nat → Nat) (ord : Nat) (e : Slot) (k : Nat) : Nat :=
  if (ord - 1) * lfnChars ≤ k ∧ k < (ord - 1) * lfnChars + lfnChars then
    rd 2 (at' e) (lfnOffsets.getD (k - (ord - 1) * lfnChars) 0)
  else lfn k

/-- The first slot of a long name, as far as `ord` goes. -/
def lfnStarts (e : Slot) : Bool := at' e 0 &&& 0x40 != 0 && lfnOrd e != 0 && lfnOrd e ≤ 20

/-- The next slot of the long name that is being read. -/
def lfnContinues (st : LfnState) (e : Slot) : Bool :=
  at' e 0 &&& 0x40 == 0 && st.expect != 0 && lfnOrd e != 0 && lfnOrd e == st.expect - 1 && at' e 13 == st.chk

def LfnState.next (st : LfnState) (e : Slot) : LfnState :=
  if lfnStarts e then ⟨lfnOrd e, at' e 13, lfnWrite (fun _ => 0xFFFF) (lfnOrd e) e⟩
  else if lfnContinues st e then { st with expect := lfnOrd e, lfn := lfnWrite st.lfn (lfnOrd e) e }
  else st.reset

/-- The units in the buffer, up to a NUL or filler. -/
def LfnState.name (st : LfnState) : List Nat :=
  ((List.range lfnUnits).map st.lfn).takeWhile fun u => u != 0 && u != 0xFFFF

/-- The long name an 8.3 entry has. -/
def LfnState.long (st : LfnState) (e : Slot) : Option (List Nat) :=
  if st.expect = 1 ∧ lfnChecksum e = st.chk then some st.name else none

/-- An 8.3 entry. -/
structure Entry where
  addr : Addr
  slot : Slot
  long : Option (List Nat)
  deriving DecidableEq

def Entry.named (en : Entry) (name : List UInt8) : Bool :=
  (en.long.any fun u => nameEqU16 u name) || nameEqU16 (shortToDisplay en.slot) name

/-- `dirent_cluster` -/
def direntCluster (e : Slot) : Nat := rd 2 (at' e) 26

def direntLen (e : Slot) : Nat := rd 4 (at' e) 28

def Entry.first (en : Entry) : Nat := direntCluster en.slot
def Entry.size (en : Entry) : Nat := direntLen en.slot
def Entry.isDir (en : Entry) : Bool := Fat.isDir en.slot

/-! ## Finding -/

/-- Rounds a loop over a directory may take. -/
def dirFuel (v : Vol) : Nat := v.rootEntries + (v.clusterCount + 1) * v.per + 1

/-- Writes the units of `e` into the buffer, where they fit. -/
def lfnPut (lfn : Nat → Nat) (ord : Nat) (e : Slot) : FatM (Nat → Nat) :=
  if 1 ≤ ord ∧ (ord - 1) * lfnChars + lfnChars ≤ lfnUnits then return lfnWrite lfn ord e else Prog.fail .lfnIndex

def lfnSlot (st : LfnState) (e : Slot) : FatM LfnState := do
  if at' e 0 &&& 0x40 ≠ 0 then
    if lfnOrd e = 0 ∨ 20 < lfnOrd e then return st.reset
    else return ⟨lfnOrd e, at' e 13, ← lfnPut (fun _ => 0xFFFF) (lfnOrd e) e⟩
  else if st.expect = 0 ∨ lfnOrd e = 0 ∨ lfnOrd e ≠ st.expect - 1 ∨ at' e 13 ≠ st.chk then return st.reset
  else return { st with expect := lfnOrd e, lfn := ← lfnPut st.lfn (lfnOrd e) e }

def dirFindLoop (v : Vol) (dir : Nat) (name : List UInt8) : Nat → Nat → LfnState → FatM (Option Addr)
  | 0, _, _ => Prog.fail .noFuel
  | fuel + 1, idx, st => do
    match ← dirSlot v dir idx false with
    | none => return none
    | some a => do
      let e ← load a direntSize
      if at' e 0 = 0 then return none
      else if at' e 0 = 0xE5 then dirFindLoop v dir name fuel (idx + 1) st.reset
      else if isLfn e then do
        let st ← lfnSlot st e
        dirFindLoop v dir name fuel (idx + 1) st
      else if isVolume e then dirFindLoop v dir name fuel (idx + 1) st.reset
      else if (Entry.mk a e (st.long e)).named name then return some a
      else dirFindLoop v dir name fuel (idx + 1) st.reset

/-- The 8.3 entry of `name`, long or short, in any case. -/
def dirFind (v : Vol) (dir : Nat) (name : List UInt8) : FatM (Option Addr) :=
  dirFindLoop v dir name (dirFuel v) 0 LfnState.init

def shortExistsLoop (v : Vol) (dir : Nat) (sn : List UInt8) : Nat → Nat → FatM Bool
  | 0, _ => Prog.fail .noFuel
  | fuel + 1, idx => do
    match ← dirSlot v dir idx false with
    | none => return false
    | some a => do
      let e ← load a direntSize
      if at' e 0 = 0 then return false
      else if at' e 0 = 0xE5 ∨ isLfn e then shortExistsLoop v dir sn fuel (idx + 1)
      else if e.take 11 = sn then return true
      else shortExistsLoop v dir sn fuel (idx + 1)

def dirShortExists (v : Vol) (dir : Nat) (sn : List UInt8) : FatM Bool := shortExistsLoop v dir sn (dirFuel v) 0

/-! ## What is in a directory -/

/-- The 8.3 entries, as `dir_find` decodes them. -/
def entriesFrom : LfnState → List (Addr × Slot) → List Entry
  | _, [] => []
  | st, (a, e) :: rest =>
    if at' e 0 = 0 then []
    else if at' e 0 = 0xE5 then entriesFrom st.reset rest
    else if isLfn e then entriesFrom (st.next e) rest
    else if isVolume e then entriesFrom st.reset rest
    else ⟨a, e, st.long e⟩ :: entriesFrom st.reset rest

def slots (v : Vol) (d : Disk) (dir : Nat) : List (Addr × Slot) := (dirAddrs v d dir).map fun a => (a, d.get a direntSize)

def entries (v : Vol) (d : Disk) (dir : Nat) : List Entry := entriesFrom LfnState.init (slots v d dir)

/-- The entry a name stands for. -/
def lookup (v : Vol) (d : Disk) (dir : Nat) (name : List UInt8) : Option Entry := (entries v d dir).find? (·.named name)

/-- A short name is in use, by an entry or a label. -/
def shortUsed (sn : List UInt8) : List (Addr × Slot) → Bool
  | [] => false
  | (_, e) :: rest =>
    if at' e 0 = 0 then false
    else if at' e 0 = 0xE5 ∨ isLfn e then shortUsed sn rest
    else if e.take 11 = sn then true
    else shortUsed sn rest

/-- A slot that holds an 8.3 entry. -/
structure LiveSlot (e : Slot) : Prop where
  notFree : isFree e = false
  notLfn : isLfn e = false
  notVolume : isVolume e = false

theorem entriesFrom_mem {st : LfnState} {l : List (Addr × Slot)} {en : Entry} (h : en ∈ entriesFrom st l) :
    (en.addr, en.slot) ∈ l ∧ LiveSlot en.slot := by
  induction l generalizing st with
  | nil => simp [entriesFrom] at h
  | cons x l ih =>
    obtain ⟨a, e⟩ := x
    have hrest : ∀ {st' : LfnState}, en ∈ entriesFrom st' l → (en.addr, en.slot) ∈ (a, e) :: l ∧ LiveSlot en.slot :=
      fun h => ⟨List.mem_cons_of_mem _ (ih h).1, (ih h).2⟩
    unfold entriesFrom at h
    split at h
    · simp at h
    · split at h
      · exact hrest h
      · split at h
        · exact hrest h
        · split at h
          · exact hrest h
          · rename_i h0 hdel hlfn hvol
            rcases List.mem_cons.mp h with rfl | h
            · exact ⟨List.mem_cons_self .., by simp [isFree, h0, hdel], by simpa using hlfn, by simpa using hvol⟩
            · exact hrest h

section Spec

variable {v : Vol} {d : Disk}

/-- An entry is at a slot of its directory. -/
theorem entries_mem {dir : Nat} {en : Entry} (h : en ∈ entries v d dir) :
    en.addr ∈ dirAddrs v d dir ∧ en.slot = d.get en.addr direntSize ∧ LiveSlot en.slot := by
  obtain ⟨hmem, hlive⟩ := entriesFrom_mem h
  obtain ⟨a, ha, heq⟩ := List.mem_map.mp hmem
  obtain ⟨h1, h2⟩ := Prod.mk.injEq .. ▸ heq
  subst h1
  exact ⟨ha, h2.symm, hlive⟩

theorem lookup_mem {dir : Nat} {name : List UInt8} {en : Entry} (h : lookup v d dir name = some en) : en ∈ entries v d dir :=
  List.mem_of_find?_eq_some h

theorem drop_of_getElem? {α : Type} {l : List α} {i : Nat} {x : α} (h : l[i]? = some x) : l.drop i = x :: l.drop (i + 1) := by
  obtain ⟨hi, hx⟩ := List.getElem?_eq_some_iff.mp h
  rw [List.drop_eq_getElem_cons hi, hx]

theorem slots_getElem? (dir idx : Nat) :
    (slots v d dir)[idx]? = ((dirAddrs v d dir)[idx]?).map fun a => (a, d.get a direntSize) := List.getElem?_map

theorem next_expect (st : LfnState) (e : Slot) (h : st.expect ≤ 20) : (st.next e).expect ≤ 20 := by
  unfold LfnState.next lfnStarts lfnContinues
  split
  · rename_i hst
    simp only [Bool.and_eq_true, decide_eq_true_eq] at hst
    exact hst.2
  · split
    · rename_i hc
      simp only [Bool.and_eq_true, beq_iff_eq] at hc
      have := hc.1.2
      show lfnOrd e ≤ 20
      omega
    · exact Nat.zero_le _

/-- The buffer is indexed below 260. -/
theorem lfnPut_spec {lfn : Nat → Nat} {ord : Nat} {e : Slot} (h0 : ord ≠ 0) (h : ord ≤ 20) :
    Wp v (lfnPut lfn ord e) (fun r d' => r = lfnWrite lfn ord e ∧ d' = d) d := by
  unfold lfnPut
  rw [if_pos]
  · exact ⟨rfl, rfl⟩
  · simp only [lfnChars, lfnUnits]
    omega

theorem lfnSlot_spec {st : LfnState} {e : Slot} (h : st.expect ≤ 20) :
    Wp v (lfnSlot st e) (fun r d' => r = st.next e ∧ d' = d) d := by
  unfold lfnSlot LfnState.next lfnStarts lfnContinues
  by_cases hstart : at' e 0 &&& 0x40 = 0
  · simp only [hstart, ne_eq, not_true_eq_false, if_false, bne_self_eq_false, Bool.false_and, Bool.false_eq_true,
      beq_self_eq_true, Bool.true_and]
    split
    · rename_i hno
      rw [if_neg]
      · exact ⟨rfl, rfl⟩
      · simp only [Bool.and_eq_true, bne_iff_ne, beq_iff_eq]
        tauto
    · rename_i hyes
      simp only [not_or, not_not] at hyes
      obtain ⟨h1, h2, h3, h4⟩ := hyes
      rw [if_pos (by simp only [Bool.and_eq_true, bne_iff_ne, beq_iff_eq]; exact ⟨⟨⟨h1, h2⟩, h3⟩, h4⟩)]
      refine Prog.wp_seq (lfnPut_spec h2 (by omega)) fun r d' hr => ?_
      obtain ⟨rfl, rfl⟩ := hr
      exact ⟨rfl, rfl⟩
  · simp only [hstart, ne_eq, not_false_eq_true, if_true]
    split
    · rename_i hno
      rw [if_neg, if_neg]
      · exact ⟨rfl, rfl⟩
      · simp [hstart]
      · simp only [Bool.and_eq_true, bne_iff_ne, decide_eq_true_eq]
        omega
    · rename_i hyes
      simp only [not_or, not_lt] at hyes
      obtain ⟨h1, h2⟩ := hyes
      rw [if_pos (by simp [hstart, h1, h2])]
      refine Prog.wp_seq (lfnPut_spec h1 h2) fun r d' hr => ?_
      obtain ⟨rfl, rfl⟩ := hr
      exact ⟨rfl, rfl⟩

theorem dirFindLoop_spec {dir : Nat} {name : List UInt8} (fuel idx : Nat) {st : LfnState} (hst : st.expect ≤ 20)
    (hidx : idx ≤ (dirAddrs v d dir).length) (hfuel : (dirAddrs v d dir).length < fuel + idx) :
    Wp v (dirFindLoop v dir name fuel idx st) (fun r d' =>
      r = ((entriesFrom st ((slots v d dir).drop idx)).find? (·.named name)).map (·.addr) ∧ d' = d) d := by
  induction fuel generalizing idx st with
  | zero => omega
  | succ fuel ih =>
    unfold dirFindLoop
    refine Prog.wp_seq (dirSlot_spec dir idx) fun r d1 h => ?_
    obtain ⟨rfl, rfl⟩ := h
    have hslot := slots_getElem? (v := v) (d := d1) dir idx
    cases ha : (dirAddrs v d1 dir)[idx]? with
    | none =>
      rw [List.drop_eq_nil_of_le (by simpa [slots] using List.getElem?_eq_none_iff.mp ha)]
      exact ⟨rfl, rfl⟩
    | some a =>
      rw [ha, Option.map_some] at hslot
      have hlt := (List.getElem?_eq_some_iff.mp ha).1
      have hin : v.Within a direntSize := dirAddrs_within (List.mem_of_getElem? ha)
      rw [drop_of_getElem? hslot, entriesFrom]
      have hrest : ∀ st' : LfnState, st'.expect ≤ 20 → Wp v (dirFindLoop v dir name fuel (idx + 1) st') (fun r d' =>
          r = ((entriesFrom st' ((slots v d1 dir).drop (idx + 1))).find? (·.named name)).map (·.addr) ∧ d' = d1) d1 :=
        fun st' hst' => ih (idx + 1) hst' hlt (by omega)
      refine wp_load hin fun e he => ?_
      rw [← he]
      by_cases h0 : at' e 0 = 0
      · rw [if_pos h0, if_pos h0]
        exact ⟨rfl, rfl⟩
      rw [if_neg h0, if_neg h0]
      by_cases hdel : at' e 0 = 0xE5
      · rw [if_pos hdel, if_pos hdel]
        exact hrest st.reset (Nat.zero_le 20)
      rw [if_neg hdel, if_neg hdel]
      by_cases hlfn : isLfn e
      · rw [if_pos hlfn, if_pos hlfn]
        refine Prog.wp_seq (lfnSlot_spec hst) fun st' d2 h => ?_
        obtain ⟨rfl, rfl⟩ := h
        exact hrest _ (next_expect st e hst)
      rw [if_neg hlfn, if_neg hlfn]
      by_cases hvol : isVolume e
      · rw [if_pos hvol, if_pos hvol]
        exact hrest st.reset (Nat.zero_le 20)
      rw [if_neg hvol, if_neg hvol, List.find?_cons]
      cases hnamed : (Entry.mk a e (st.long e)).named name with
      | true => exact ⟨rfl, rfl⟩
      | false => exact hrest st.reset (Nat.zero_le 20)

/-- `dir_find` looks a name up. -/
theorem dirFind_spec (dir : Nat) (name : List UInt8) :
    Wp v (dirFind v dir name) (fun r d' => r = (lookup v d dir name).map (·.addr) ∧ d' = d) d := by
  have hlen := dirAddrs_length (v := v) (d := d) dir
  exact dirFindLoop_spec (dirFuel v) 0 (Nat.zero_le _) (Nat.zero_le _) (by unfold dirFuel; omega)

theorem shortExistsLoop_spec {dir : Nat} {sn : List UInt8} (fuel idx : Nat) (hidx : idx ≤ (dirAddrs v d dir).length)
    (hfuel : (dirAddrs v d dir).length < fuel + idx) :
    Wp v (shortExistsLoop v dir sn fuel idx) (fun r d' => r = shortUsed sn ((slots v d dir).drop idx) ∧ d' = d) d := by
  induction fuel generalizing idx with
  | zero => omega
  | succ fuel ih =>
    unfold shortExistsLoop
    refine Prog.wp_seq (dirSlot_spec dir idx) fun r d1 h => ?_
    obtain ⟨rfl, rfl⟩ := h
    have hslot := slots_getElem? (v := v) (d := d1) dir idx
    cases ha : (dirAddrs v d1 dir)[idx]? with
    | none =>
      rw [List.drop_eq_nil_of_le (by simpa [slots] using List.getElem?_eq_none_iff.mp ha)]
      exact ⟨rfl, rfl⟩
    | some a =>
      rw [ha, Option.map_some] at hslot
      have hlt := (List.getElem?_eq_some_iff.mp ha).1
      rw [drop_of_getElem? hslot, shortUsed]
      refine wp_load (dirAddrs_within (List.mem_of_getElem? ha)) fun e he => ?_
      rw [← he]
      by_cases h0 : at' e 0 = 0
      · rw [if_pos h0, if_pos h0]
        exact ⟨rfl, rfl⟩
      rw [if_neg h0, if_neg h0]
      by_cases hskip : at' e 0 = 0xE5 ∨ isLfn e
      · rw [if_pos hskip, if_pos hskip]
        exact ih (idx + 1) hlt (by omega)
      rw [if_neg hskip, if_neg hskip]
      by_cases hsn : e.take 11 = sn
      · rw [if_pos hsn, if_pos hsn]
        exact ⟨rfl, rfl⟩
      · rw [if_neg hsn, if_neg hsn]
        exact ih (idx + 1) hlt (by omega)

theorem dirShortExists_spec (dir : Nat) (sn : List UInt8) :
    Wp v (dirShortExists v dir sn) (fun r d' => r = shortUsed sn (slots v d dir) ∧ d' = d) d := by
  have hlen := dirAddrs_length (v := v) (d := d) dir
  exact shortExistsLoop_spec (dirFuel v) 0 (Nat.zero_le _) (by unfold dirFuel; omega)

end Spec

end Be300.Fat
