/-
  Be300.Fat.Create — new entry sets: `make_short_name` and `dir_create` of
  `src/cbea_install.c`.

  `make_short_name` looks at the directory through `dir_short_exists` alone
  (`makeShortName_spec`); the name it makes is eleven bytes that begin like a live entry
  (`shortName_live`). `dir_create` takes the first run of free slots that is long enough,
  growing the directory where it ends before that, and then walks to these slots again to
  fill them. `dirCreate_spec` says, on any disk, when it finds them there (`CreateOk`) and
  what it leaves; where it does not, it writes through a null pointer.
-/

import Mathlib.Data.Nat.Digits.Lemmas
import Be300.Fat.Dir

namespace Be300.Fat

open Be300.Lib (Prog le at')
open Be300.Cbea (upperAscii)

/-! ## Short names -/

/-- The characters `short_char_ok` refuses among the printable ones. -/
def shortBad : List UInt8 :=
  [0x22, 0x2A, 0x2B, 0x2C, 0x2E, 0x2F, 0x3A, 0x3B, 0x3C, 0x3D, 0x3E, 0x3F, 0x5B, 0x5C, 0x5D, 0x7C]

def shortCharOk (c : UInt8) : Bool := 0x20 < c && c < 0x7F && !shortBad.contains c

def shortChar (c : UInt8) : UInt8 := UInt8.ofNat (upperAscii (if shortCharOk c then c else 0x5F).toNat)

/-- The name before its last dot, and what is behind it; a dot in front is not one. -/
def splitDot (name : List UInt8) : List UInt8 × Option (List UInt8) :=
  let ext := (name.reverse.takeWhile (· != 0x2E)).reverse
  if name.contains 0x2E ∧ ext.length + 1 ≠ name.length then (name.take (name.length - ext.length - 1), some ext)
  else (name, none)

structure ShortParts where
  base : List UInt8
  ext : List UInt8
  lossy : Bool

def shortParts (name : List UInt8) : ShortParts :=
  let (b, x) := splitDot name
  let x := x.getD []
  let base := ((b.filter fun c => c != 0x20 && c != 0x2E).map shortChar).take 255
  let ext := (x.filter (· != 0x20)).map shortChar
  let lossy := (b.any fun c => !shortCharOk c) || (x.any fun c => !shortCharOk c) || decide (3 < ext.length)
  if base = [] then ⟨[0x5F], ext.take 3, true⟩ else ⟨base, ext.take 3, lossy || decide (8 < base.length)⟩

def padTo (n : Nat) (s : List UInt8) : List UInt8 := s ++ List.replicate (n - s.length) 0x20

def decimal (n : Nat) : List UInt8 := (Nat.digits 10 n).reverse.map fun d => UInt8.ofNat (0x30 + d)

/-- The 8.3 name with the tail `~n`. -/
def tailed (p : ShortParts) (n : Nat) : List UInt8 :=
  let tail := 0x7E :: decimal n
  padTo 8 (p.base.take (8 - tail.length) ++ tail) ++ padTo 3 p.ext

def maxTail : Nat := 999999

def tailLoop (v : Vol) (dir : Nat) (p : ShortParts) : Nat → Nat → FatM (List UInt8)
  | 0, n => return tailed p (n - 1)
  | k + 1, n => do
    if ← dirShortExists v dir (tailed p n) then tailLoop v dir p k (n + 1) else return tailed p n

/-- A first byte that would mean a deleted entry is written as 5. -/
def shortFirst (sn : List UInt8) : List UInt8 := if at' sn 0 = 0xE5 then 0x05 :: sn.tail else sn

def exactName (p : ShortParts) : List UInt8 := p.base ++ ((if p.ext = [] then [] else [0x2E]) ++ p.ext)

/-- An 8.3 name that is not in the directory, and whether a long name is needed with it. -/
def makeShortName (v : Vol) (dir : Nat) (name : List UInt8) : FatM (Bool × List UInt8) := do
  let p := shortParts name
  let sn := padTo 8 p.base ++ padTo 3 p.ext
  if !p.lossy then
    if ← dirShortExists v dir sn then return (true, shortFirst (← tailLoop v dir p maxTail 1))
    else return (exactName p != name, shortFirst sn)
  else return (true, shortFirst (← tailLoop v dir p maxTail 1))

/-! ## Creating -/

/-- Character `pos` in a long name: a NUL behind the last one, then filler. -/
def lfnUnit (name : List UInt8) (pos : Nat) : Nat :=
  if pos < name.length then (at' name pos).toNat else if pos = name.length then 0 else 0xFFFF

def lfnBytes (name : List UInt8) (ord i n : Nat) : List UInt8 :=
  (List.range n).flatMap fun k => le 2 (lfnUnit name ((ord - 1) * lfnChars + (i + k)))

/-- Slot `ord` of a long name of `nlfn` slots. -/
def lfnSlotBytes (name : List UInt8) (chk : UInt8) (nlfn ord : Nat) : Slot :=
  (UInt8.ofNat (ord ||| if ord = nlfn then 0x40 else 0)) :: (lfnBytes name ord 0 5 ++ (attrLfn :: 0 :: chk ::
    (lfnBytes name ord 5 6 ++ ([0, 0] ++ lfnBytes name ord 11 2))))

def direntBytes (sn : List UInt8) (attr : UInt8) (date time : Nat) : Slot :=
  sn ++ ([attr, 0, 0] ++
    (le 2 time ++ (le 2 date ++ (le 2 date ++ ([0, 0] ++ (le 2 time ++ (le 2 date ++ List.replicate 6 0)))))))

def direntSetTime (e : Addr) : FatM Unit := do
  let (date, time) ← fatNow
  store (e.plus 14) (le 2 time ++ (le 2 date ++ le 2 date))
  store (e.plus 22) (le 2 time ++ le 2 date)

/-- The start of a run of `need` free slots. -/
def scanLoop (v : Vol) (dir need : Nat) : Nat → Nat → Nat → Nat → FatM (Option Nat)
  | 0, _, _, _ => Prog.fail .noFuel
  | fuel + 1, idx, run, start => do
    match ← dirSlot v dir idx true with
    | none => return none
    | some a => do
      let e ← load a direntSize
      if isFree e then
        let start := if run = 0 then idx else start
        if run + 1 = need then return some start
        else scanLoop v dir need fuel (idx + 1) (run + 1) start
      else scanLoop v dir need fuel (idx + 1) 0 start

/-- The slots `ord`, `ord - 1`, …, 1 of the long name. -/
def writeLfn (v : Vol) (dir : Nat) (name : List UInt8) (chk : UInt8) (start nlfn : Nat) : Nat → FatM Unit
  | 0 => return ()
  | ord + 1 => do
    match ← dirSlot v dir (start + (nlfn - (ord + 1))) false with
    | none => Prog.fail .nullSlot
    | some e => do
      store e (lfnSlotBytes name chk nlfn (ord + 1))
      writeLfn v dir name chk start nlfn ord

def lfnCount (need : Bool) (name : List UInt8) : Nat := if need then (name.length + lfnChars - 1) / lfnChars else 0

/-- A new entry set; the 8.3 entry, or none when the directory is full. -/
def dirCreate (v : Vol) (dir : Nat) (name : List UInt8) (attr : UInt8) : FatM (Option Addr) := do
  let (needLfn, sn) ← makeShortName v dir name
  let nlfn := lfnCount needLfn name
  match ← scanLoop v dir (nlfn + 1) (dirFuel v) 0 0 0 with
  | none => return none
  | some start => do
    writeLfn v dir name (lfnChecksum sn) start nlfn nlfn
    match ← dirSlot v dir (start + nlfn) false with
    | none => Prog.fail .nullSlot
    | some e => do
      let (date, time) ← fatNow
      store e (direntBytes sn attr date time)
      return some e

/-! ## What the code does -/

/-- `tailLoop` where `used` tells which short names are taken. -/
def tailFrom (used : List UInt8 → Bool) (p : ShortParts) : Nat → Nat → List UInt8
  | 0, n => tailed p (n - 1)
  | k + 1, n => if used (tailed p n) then tailFrom used p k (n + 1) else tailed p n

/-- `make_short_name` where `used` tells which short names are taken. -/
def shortName (used : List UInt8 → Bool) (name : List UInt8) : Bool × List UInt8 :=
  let p := shortParts name
  let sn := padTo 8 p.base ++ padTo 3 p.ext
  if !p.lossy && !used sn then (exactName p != name, shortFirst sn)
  else (true, shortFirst (tailFrom used p maxTail 1))

section Spec

variable {v : Vol} {d : Disk}

theorem tailLoop_spec (dir : Nat) (p : ShortParts) (k n : Nat) :
    Wp v (tailLoop v dir p k n) (fun r d' => r = tailFrom (fun sn => shortUsed sn (slots v d dir)) p k n ∧ d' = d) d := by
  induction k generalizing n with
  | zero => exact ⟨rfl, rfl⟩
  | succ k ih =>
    unfold tailLoop tailFrom
    refine Prog.wp_seq (dirShortExists_spec dir (tailed p n)) fun r d1 h => ?_
    obtain ⟨rfl, rfl⟩ := h
    split
    · exact ih (n + 1)
    · exact ⟨rfl, rfl⟩

/-- `make_short_name` sees the directory through the short names in use. -/
theorem makeShortName_spec (dir : Nat) (name : List UInt8) :
    Wp v (makeShortName v dir name) (fun r d' =>
      r = shortName (fun sn => shortUsed sn (slots v d dir)) name ∧ d' = d) d := by
  have htail : ∀ d' : Disk, Wp v (do return (true, shortFirst (← tailLoop v dir (shortParts name) maxTail 1))) (fun r d'' =>
      r = (true, shortFirst (tailFrom (fun sn => shortUsed sn (slots v d' dir)) (shortParts name) maxTail 1)) ∧ d'' = d') d' :=
    fun d' => Prog.wp_seq (tailLoop_spec dir (shortParts name) maxTail 1) fun r d1 h => by
      obtain ⟨rfl, rfl⟩ := h
      exact ⟨rfl, rfl⟩
  unfold makeShortName shortName
  dsimp only
  cases hlossy : (shortParts name).lossy with
  | true => exact htail d
  | false =>
    simp only [Bool.not_false, if_true, Bool.true_and]
    refine Prog.wp_seq (dirShortExists_spec dir _) fun r d1 h => ?_
    obtain ⟨rfl, rfl⟩ := h
    split
    · rename_i hused
      rw [hused]
      exact htail d1
    · rename_i hused
      rw [Bool.not_eq_true] at hused
      rw [hused]
      exact ⟨rfl, rfl⟩

/-! ### Short names -/

theorem shortChar_range (c : UInt8) : 0x20 < (shortChar c).toNat ∧ (shortChar c).toNat < 0x7F := by
  have hup : ∀ n : Nat, 0x20 < n → n < 0x7F → 0x20 < upperAscii n ∧ upperAscii n < 0x7F := fun n h1 h2 => by
    unfold upperAscii
    split <;> omega
  unfold shortChar
  have hrange : 0x20 < (if shortCharOk c = true then c else 0x5F).toNat ∧
    (if shortCharOk c = true then c else 0x5F).toNat < 0x7F := by
    split
    · rename_i hok
      simp only [shortCharOk, Bool.and_eq_true, decide_eq_true_eq, UInt8.lt_iff_toNat_lt] at hok
      exact hok.1
    · decide
  have := hup _ hrange.1 hrange.2
  rw [UInt8.toNat_ofNat_of_lt' (by simp only [UInt8.size]; omega)]
  exact this

theorem shortParts_base (name : List UInt8) :
    (shortParts name).base ≠ [] ∧ ∀ c ∈ (shortParts name).base, 0x20 < c.toNat ∧ c.toNat < 0x7F := by
  unfold shortParts
  dsimp only
  split
  · refine ⟨by simp, ?_⟩
    simp
  · rename_i hne
    refine ⟨hne, fun c hc => ?_⟩
    obtain ⟨x, -, rfl⟩ := List.mem_map.mp (List.mem_of_mem_take hc)
    exact shortChar_range x

theorem shortParts_ext (name : List UInt8) : (shortParts name).ext.length ≤ 3 := by
  unfold shortParts
  dsimp only
  split <;> exact List.length_take_le _ _

theorem shortParts_base_le {name : List UInt8} (h : (shortParts name).lossy = false) : (shortParts name).base.length ≤ 8 := by
  revert h
  unfold shortParts
  dsimp only
  split
  · simp
  · simp only [Bool.or_eq_false_iff, decide_eq_false_iff_not, not_lt]
    exact fun h => h.2

theorem padTo_length {n : Nat} {s : List UInt8} (h : s.length ≤ n) : (padTo n s).length = n := by
  simp [padTo, h]

/-- A short name is eleven bytes and begins with a character of the base. -/
structure LiveName (sn : List UInt8) : Prop where
  length : sn.length = 11
  first : 0x20 < (at' sn 0).toNat ∧ (at' sn 0).toNat < 0x7F

theorem liveName_pad {p : ShortParts} {b : List UInt8} (hb : b.length ≤ 8) (hne : b ≠ []) (hext : p.ext.length ≤ 3)
    (hfirst : 0x20 < (at' b 0).toNat ∧ (at' b 0).toNat < 0x7F) : LiveName (padTo 8 b ++ padTo 3 p.ext) := by
  refine ⟨by rw [List.length_append, padTo_length hb, padTo_length hext], ?_⟩
  obtain ⟨c, l, rfl⟩ := List.exists_cons_of_ne_nil hne
  exact hfirst

theorem decimal_length {n : Nat} (h : n < 10 ^ 6) : (decimal n).length ≤ 6 := by
  unfold decimal
  rw [List.length_map, List.length_reverse]
  exact (Nat.digits_length_le_iff (by decide) n).mpr h

theorem tailed_live (name : List UInt8) {n : Nat} (h : n < 10 ^ 6) : LiveName (tailed (shortParts name) n) := by
  obtain ⟨hne, hrange⟩ := shortParts_base name
  obtain ⟨c, l, hb⟩ := List.exists_cons_of_ne_nil hne
  have hdec := decimal_length h
  have htail : (0x7E :: decimal n).length ≤ 7 := Nat.succ_le_succ hdec
  unfold tailed
  dsimp only
  obtain ⟨k, hk⟩ : ∃ k, 8 - (0x7E :: decimal n).length = k + 1 := ⟨7 - (0x7E :: decimal n).length, by omega⟩
  have hhead : (shortParts name).base.take (8 - (0x7E :: decimal n).length) = c :: l.take k := by
    rw [hb, hk, List.take_succ_cons]
  refine liveName_pad ?_ (by simp) (shortParts_ext name) ?_
  · rw [List.length_append, List.length_take]
    omega
  · rw [hhead]
    exact hrange c (by rw [hb]; exact List.mem_cons_self ..)

theorem tailFrom_live (used : List UInt8 → Bool) (name : List UInt8) (k n : Nat) (h : n + k ≤ 10 ^ 6) :
    LiveName (tailFrom used (shortParts name) k n) := by
  induction k generalizing n with
  | zero => exact tailed_live name (by omega)
  | succ k ih =>
    unfold tailFrom
    split
    · exact ih (n + 1) (by omega)
    · exact tailed_live name (by omega)

theorem shortFirst_live {sn : List UInt8} (h : LiveName sn) : shortFirst sn = sn := by
  unfold shortFirst
  rw [if_neg]
  intro heq
  have := h.first.2
  rw [heq] at this
  exact absurd this (by decide)

/-- The name `make_short_name` makes. -/
theorem shortName_live (used : List UInt8 → Bool) (name : List UInt8) : LiveName (shortName used name).2 := by
  have htail := tailFrom_live used name maxTail 1 (by unfold maxTail; omega)
  unfold shortName
  dsimp only
  split
  · rename_i h
    simp only [Bool.and_eq_true, Bool.not_eq_true'] at h
    obtain ⟨hne, hrange⟩ := shortParts_base name
    have hlive : LiveName (padTo 8 (shortParts name).base ++ padTo 3 (shortParts name).ext) := by
      refine liveName_pad (shortParts_base_le h.1) hne (shortParts_ext name) ?_
      obtain ⟨c, l, hb⟩ := List.exists_cons_of_ne_nil hne
      rw [hb]
      exact hrange c (by rw [hb]; exact List.mem_cons_self ..)
    rw [shortFirst_live hlive]
    exact hlive
  · rw [shortFirst_live htail]
    exact htail

/-! ### Creating an entry set -/

theorem dirAddrs_congr {d' : Disk} (h : d'.fat = d.fat) (dir : Nat) : dirAddrs v d' dir = dirAddrs v d dir := by
  have hchain : ∀ n c, chainFrom v d' n c = chainFrom v d n c := by
    intro n
    induction n with
    | zero => exact fun c => rfl
    | succ n ih =>
      intro c
      rw [chainFrom, chainFrom, h, ih]
  unfold dirAddrs
  rw [hchain]

/-- Slots written one after another. -/
def putSlots (d : Disk) : List (Addr × Slot) → Disk
  | [] => d
  | (a, e) :: rest => putSlots (d.put a e) rest

theorem putSlots_append (l m : List (Addr × Slot)) : putSlots d (l ++ m) = putSlots (putSlots d l) m := by
  induction l generalizing d with
  | nil => rfl
  | cons x l ih => exact ih

@[simp] theorem putSlots_fat (l : List (Addr × Slot)) : (putSlots d l).fat = d.fat := by
  induction l generalizing d with
  | nil => rfl
  | cons x l ih => exact ih.trans rfl

@[simp] theorem putSlots_hint (l : List (Addr × Slot)) : (putSlots d l).hint = d.hint := by
  induction l generalizing d with
  | nil => rfl
  | cons x l ih => exact ih.trans rfl

@[simp] theorem putSlots_clock (l : List (Addr × Slot)) : (putSlots d l).clock = d.clock := by
  induction l generalizing d with
  | nil => rfl
  | cons x l ih => exact ih.trans rfl

theorem putSlots_ok (hd : v.DiskOk d) (l : List (Addr × Slot)) : v.DiskOk (putSlots d l) := ⟨by simpa using hd.hint⟩

theorem lfnBytes_length (name : List UInt8) (ord i n : Nat) : (lfnBytes name ord i n).length = 2 * n := by
  simp [lfnBytes, Nat.mul_comm]

theorem lfnSlotBytes_length (name : List UInt8) (chk : UInt8) (nlfn ord : Nat) :
    (lfnSlotBytes name chk nlfn ord).length = direntSize := by
  simp [lfnSlotBytes, lfnBytes_length, direntSize]

theorem direntBytes_length {sn : List UInt8} (h : sn.length = 11) (attr : UInt8) (date time : Nat) :
    (direntBytes sn attr date time).length = direntSize := by
  simp [direntBytes, h, direntSize]

/-- The long-name slots `ord`, `ord - 1`, …, 1. -/
def lfnSlots (name : List UInt8) (chk : UInt8) (nlfn : Nat) : Nat → List Slot
  | 0 => []
  | ord + 1 => lfnSlotBytes name chk nlfn (ord + 1) :: lfnSlots name chk nlfn ord

theorem lfnSlots_length (name : List UInt8) (chk : UInt8) (nlfn ord : Nat) : (lfnSlots name chk nlfn ord).length = ord := by
  induction ord with
  | zero => rfl
  | succ ord ih => simp [lfnSlots, ih]

/-- The slots of an entry set. -/
def entrySet (name sn : List UInt8) (nlfn : Nat) (attr : UInt8) (now : Nat × Nat) : List Slot :=
  lfnSlots name (lfnChecksum sn) nlfn nlfn ++ [direntBytes sn attr now.1 now.2]

/-- The long-name slots go to the addresses from `start` on, where these are there. -/
theorem writeLfn_spec {dir : Nat} {name : List UInt8} {chk : UInt8} {start nlfn : Nat} (ord : Nat) (hord : ord ≤ nlfn)
    {addrs : List Addr} (haddrs : dirAddrs v d dir = addrs) :
    Wpe v (writeLfn v dir name chk start nlfn ord)
      (fun _ d' => (ord = 0 ∨ start + nlfn ≤ addrs.length) ∧
        d' = putSlots d ((addrs.drop (start + (nlfn - ord))).zip (lfnSlots name chk nlfn ord)))
      (fun _ => addrs.length < start + nlfn) d := by
  induction ord generalizing d with
  | zero => exact ⟨.inl rfl, by simp [lfnSlots, putSlots]⟩
  | succ ord ih =>
    unfold writeLfn
    refine Prog.wp_seq (dirSlot_spec dir _) fun r d1 h => ?_
    obtain ⟨rfl, rfl⟩ := h
    rw [haddrs]
    cases ha : addrs[start + (nlfn - (ord + 1))]? with
    | none =>
      have := List.getElem?_eq_none_iff.mp ha
      show addrs.length < start + nlfn
      omega
    | some a =>
      have hmem : a ∈ dirAddrs v d1 dir := haddrs ▸ List.mem_of_getElem? ha
      refine wp_store (by rw [lfnSlotBytes_length]; exact dirAddrs_within hmem) ?_
      have hfat : (d1.put a (lfnSlotBytes name chk nlfn (ord + 1))).fat = d1.fat := rfl
      have hput := (dirAddrs_congr hfat dir).trans haddrs
      refine Prog.wp_mono (ih (by omega) hput) fun _ d' h => ?_
      obtain ⟨h1, rfl⟩ := h
      have hlt := (List.getElem?_eq_some_iff.mp ha).1
      refine ⟨.inr (by omega), ?_⟩
      rw [drop_of_getElem? ha, lfnSlots, List.zip_cons_cons, putSlots,
        show start + (nlfn - (ord + 1)) + 1 = start + (nlfn - ord) by omega]

/-- The scan on any disk. -/
theorem scanLoop_safe (dir need : Nat) (fuel idx run start : Nat) (hd : v.DiskOk d)
    (hfuel : v.rootEntries + (v.clusterCount + 1) * v.per < fuel + idx)
      (hidx : idx ≤ v.rootEntries + (v.clusterCount + 1) * v.per) :
    Wp v (scanLoop v dir need fuel idx run start) (fun _ d' => v.DiskOk d') d := by
  induction fuel generalizing idx run start d with
  | zero => omega
  | succ fuel ih =>
    unfold scanLoop
    refine Prog.wp_seq (dirSlot_safe hd) fun r d1 h => ?_
    obtain ⟨hd1, h⟩ := h
    cases r with
    | none => exact hd1
    | some a =>
      obtain ⟨hin, hlt⟩ := h a rfl
      refine wp_load hin fun e _ => ?_
      split
      · dsimp only
        split
        · exact hd1
        · exact ih _ _ _ hd1 (by omega) (by omega)
      · exact ih _ _ _ hd1 (by omega) (by omega)

/-- The name and the number of long-name slots a new entry of `name` gets. -/
def newName (v : Vol) (d : Disk) (dir : Nat) (name : List UInt8) : List UInt8 × Nat :=
  let s := shortName (fun sn => shortUsed sn (slots v d dir)) name
  (s.2, lfnCount s.1 name)

/-- The scan for `need` free slots, on a disk. -/
def scanned (v : Vol) (d : Disk) (dir need : Nat) : Except Fault (Option Nat × Disk) :=
  (scanLoop v dir need (dirFuel v) 0 0 0).run (Prog.total diskStep) d

/-- The run of free slots that the scan finds is in the directory when it is filled. -/
def CreateOk (v : Vol) (d : Disk) (dir : Nat) (name : List UInt8) : Prop :=
  ∀ start d', scanned v d dir ((newName v d dir name).2 + 1) = .ok (some start, d') →
    start + (newName v d dir name).2 + 1 ≤ (dirAddrs v d' dir).length

/-- The clock after it is asked once. -/
def Disk.tick (d : Disk) : Disk := { d with clock := fun n => d.clock (n + 1) }

/-- The disk with an entry set in the slots `addrs`. -/
def Disk.fill (d : Disk) (addrs : List Addr) (name sn : List UInt8) (nlfn : Nat) (attr : UInt8) : Disk :=
  (putSlots d (addrs.zip (entrySet name sn nlfn attr (d.clock 0)))).tick

@[simp] theorem fill_fat (d : Disk) (addrs : List Addr) (name sn : List UInt8) (nlfn : Nat) (attr : UInt8) :
    (d.fill addrs name sn nlfn attr).fat = d.fat := putSlots_fat (addrs.zip (entrySet name sn nlfn attr (d.clock 0)))

theorem zip_snoc {α β : Type} {l : List α} {m : List β} {a : α} (b : β) (h : l[m.length]? = some a) :
    l.zip (m ++ [b]) = l.zip m ++ [(a, b)] := by
  induction m generalizing l with
  | nil =>
    cases l with
    | nil => simp at h
    | cons x l =>
      have : x = a := by simpa using h
      simp [this]
  | cons y m ih =>
    cases l with
    | nil => simp at h
    | cons x l => simp [ih (by simpa using h)]

/-- `dir_create` on any disk: an entry set in the run the scan found, where that is in the
    directory. -/
theorem dirCreate_spec {dir : Nat} {name : List UInt8} {attr : UInt8} (hd : v.DiskOk d) :
    Wpe v (dirCreate v dir name attr) (fun r d' =>
        CreateOk v d dir name ∧ v.DiskOk d' ∧ ∃ found d1, scanned v d dir ((newName v d dir name).2 + 1) = .ok (found, d1) ∧
          ((found = none ∧ r = none ∧ d' = d1) ∨ ∃ start a, found = some start ∧ r = some a ∧
            (dirAddrs v d1 dir)[start + (newName v d dir name).2]? = some a ∧
            d' = d1.fill ((dirAddrs v d1 dir).drop start) name (newName v d dir name).1 (newName v d dir name).2 attr))
      (fun _ => ¬ CreateOk v d dir name) d := by
  unfold dirCreate
  refine Prog.wp_seq (makeShortName_spec dir name) fun r d0 h => ?_
  obtain ⟨rfl, rfl⟩ := h
  have hlive := shortName_live (fun sn => shortUsed sn (slots v d0 dir)) name
  rcases hnew : newName v d0 dir name with ⟨sn, nlfn⟩
  have hsn : (shortName (fun sn => shortUsed sn (slots v d0 dir)) name).2 = sn := congrArg Prod.fst hnew
  have hnlfn : lfnCount (shortName (fun sn => shortUsed sn (slots v d0 dir)) name).1 name = nlfn := congrArg Prod.snd hnew
  dsimp only
  rw [hsn, hnlfn]
  rw [hsn] at hlive
  have hscan := scanLoop_safe dir (nlfn + 1) (dirFuel v) 0 0 0 hd (by unfold dirFuel; omega) (Nat.zero_le _)
  refine Prog.wp_seq (Prog.wp_self hscan) fun found d1 h => ?_
  obtain ⟨hd1, hrun⟩ := h
  cases found with
  | none =>
    refine ⟨fun start d' hs => ?_, hd1, none, d1, hrun, .inl ⟨rfl, rfl, rfl⟩⟩
    rw [hnew] at hs
    rw [scanned, hrun] at hs
    cases hs
  | some start =>
    -- the scan is determined, so this is the only run to look at
    have hiff : CreateOk v d0 dir name ↔ start + nlfn + 1 ≤ (dirAddrs v d1 dir).length := by
      unfold CreateOk
      rw [hnew, scanned, hrun]
      refine ⟨fun h => h start d1 rfl, fun h start' d' hs => ?_⟩
      cases hs
      exact h
    refine Prog.wp_bind (Prog.wpe_mono (writeLfn_spec nlfn (Nat.le_refl _) rfl) (fun _ d2 h => ?_) fun _ h => ?_)
    · obtain ⟨-, rfl⟩ := h
      rw [Nat.sub_self, Nat.add_zero]
      generalize hlfn : ((dirAddrs v d1 dir).drop start).zip (lfnSlots name (lfnChecksum sn) nlfn nlfn) = lfn
      have haddrs : dirAddrs v (putSlots d1 lfn) dir = dirAddrs v d1 dir := dirAddrs_congr (putSlots_fat lfn) dir
      refine Prog.wp_seq (dirSlot_spec dir _) fun r d2 h => ?_
      obtain ⟨rfl, rfl⟩ := h
      rw [haddrs]
      cases ha : (dirAddrs v d1 dir)[start + nlfn]? with
      | none =>
        have := List.getElem?_eq_none_iff.mp ha
        exact fun hok => absurd (hiff.mp hok) (by omega)
      | some a =>
        have hlt := (List.getElem?_eq_some_iff.mp ha).1
        have hin : v.Within a direntSize := dirAddrs_within (List.mem_of_getElem? ha)
        refine Prog.wp_bind ⟨trivial, ?_⟩
        refine wp_store (by rw [direntBytes_length hlive.length]; exact hin) ?_
        refine ⟨hiff.mpr (by omega), ⟨(putSlots_ok hd1 lfn).hint⟩, some start, d1, hrun, .inr ⟨start, a, rfl, rfl, ha, ?_⟩⟩
        have hz := zip_snoc (l := (dirAddrs v d1 dir).drop start) (m := lfnSlots name (lfnChecksum sn) nlfn nlfn)
          (a := a) (direntBytes sn attr (d1.clock 0).1 (d1.clock 0).2) (by rw [lfnSlots_length, List.getElem?_drop]; exact ha)
        unfold Disk.fill entrySet
        rw [hz, putSlots_append, hlfn]
        show (putSlots d1 lfn).tick.put a (direntBytes sn attr ((putSlots d1 lfn).clock 0).1 ((putSlots d1 lfn).clock 0).2) = _
        rw [putSlots_clock]
        rfl
    · exact fun hok => absurd (hiff.mp hok) (by omega)

end Spec

end Be300.Fat
