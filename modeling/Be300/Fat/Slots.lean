/-
  Be300.Fat.Slots — how a list of slots decodes, and how it decodes after a change.

  A walk over slots carries a little state from slot to slot; a free slot or an 8.3 entry
  ends a long name, so what is behind one decodes the same whatever was before it
  (`entriesFrom_settled`). A run of free slots decodes to nothing (`entriesFrom_free`), and
  the entry set that `dir_create` puts there to one entry more, with the long name that
  was asked for (`entriesFrom_set`). A new entry has the name it was made for, long or short
  (`newEntry_named`).
-/

import Be300.Fat.Read
import Mathlib.Tactic.IntervalCases

namespace Be300.Fat

open Be300.Lib (le rd at')
open Be300.Cbea (units fold nameEqU16 nameEqU16_iff upperAscii lowerAscii)

/-! ## The state of a walk -/

/-- The state behind a slot that does not end the walk. -/
def LfnState.step (st : LfnState) (e : Slot) : LfnState :=
  if at' e 0 ≠ 0xE5 ∧ isLfn e then st.next e else st.reset

def LfnState.after (st : LfnState) (l : List (Addr × Slot)) : LfnState := l.foldl (fun st x => st.step x.2) st

/-- No long name is being read. -/
def LfnState.Settled (st : LfnState) : Prop := st.expect = 0

@[simp] theorem reset_settled (st : LfnState) : st.reset.Settled := rfl

@[simp] theorem init_settled : LfnState.init.Settled := rfl

theorem next_settled {st st' : LfnState} (h : st.Settled) (h' : st'.Settled) (e : Slot) :
    st.next e = st'.next e ∨ (st.next e).Settled ∧ (st'.next e).Settled := by
  unfold LfnState.next
  by_cases hs : lfnStarts e
  · rw [if_pos hs, if_pos hs]
    exact .inl rfl
  · have hno : ∀ {s : LfnState}, s.Settled → lfnContinues s e = false := fun hs => by
      unfold lfnContinues
      rw [hs]
      simp
    rw [if_neg hs, if_neg hs, hno h, hno h']
    exact .inr ⟨rfl, rfl⟩

theorem long_settled {st : LfnState} (h : st.Settled) (e : Slot) : st.long e = none := by
  unfold LfnState.long
  rw [h]
  simp

/-- Where no long name is being read, what was read before does not matter. -/
theorem entriesFrom_settled {st st' : LfnState} (h : st.Settled) (h' : st'.Settled) (l : List (Addr × Slot)) :
    entriesFrom st l = entriesFrom st' l := by
  induction l generalizing st st' with
  | nil => rfl
  | cons x l ih =>
    obtain ⟨a, e⟩ := x
    unfold entriesFrom
    rw [long_settled h, long_settled h', ih (reset_settled st) (reset_settled st')]
    have hnext : entriesFrom (st.next e) l = entriesFrom (st'.next e) l := by
      rcases next_settled h h' e with heq | ⟨h1, h2⟩
      · rw [heq]
      · exact ih h1 h2
    rw [hnext]

/-- One slot that is not the end. -/
theorem entriesFrom_cons {st : LfnState} {a : Addr} {e : Slot} (h0 : at' e 0 ≠ 0) (l : List (Addr × Slot)) :
    entriesFrom st ((a, e) :: l) =
      (if at' e 0 ≠ 0xE5 ∧ ¬ isLfn e ∧ ¬ isVolume e then [⟨a, e, st.long e⟩] else []) ++ entriesFrom (st.step e) l := by
  conv_lhs => unfold entriesFrom
  unfold LfnState.step
  rw [if_neg h0]
  by_cases hdel : at' e 0 = 0xE5
  · simp [hdel]
  by_cases hlfn : isLfn e
  · simp [hdel, hlfn]
  by_cases hvol : isVolume e
  · simp [hdel, hlfn, hvol]
  · simp [hdel, hlfn, hvol]

/-- Slots that do not end the walk decode by themselves. -/
theorem entriesFrom_append {st : LfnState} {l : List (Addr × Slot)} (h : ∀ x ∈ l, at' x.2 0 ≠ 0) (m : List (Addr × Slot)) :
    entriesFrom st (l ++ m) = entriesFrom st l ++ entriesFrom (st.after l) m := by
  induction l generalizing st with
  | nil => rfl
  | cons x l ih =>
    obtain ⟨a, e⟩ := x
    have h0 : at' e 0 ≠ 0 := h (a, e) (List.mem_cons_self ..)
    have ih := fun (s : LfnState) => @ih s fun x hx => h x (List.mem_cons_of_mem _ hx)
    have hafter : st.after ((a, e) :: l) = (st.step e).after l := rfl
    rw [List.cons_append, hafter, entriesFrom_cons h0, entriesFrom_cons h0, ih, List.append_assoc]

theorem entriesFrom_zero {st : LfnState} {x : Addr × Slot} (h : at' x.2 0 = 0) (l : List (Addr × Slot)) :
    entriesFrom st (x :: l) = [] := by
  unfold entriesFrom
  rw [if_pos h]

theorem entriesFrom_zeros {st : LfnState} {l : List (Addr × Slot)} (h : ∀ x ∈ l, at' x.2 0 = 0) : entriesFrom st l = [] := by
  cases l with
  | nil => rfl
  | cons x l => exact entriesFrom_zero (h x (List.mem_cons_self ..)) l

/-- Free slots decode to nothing, and end a long name. -/
theorem entriesFrom_free {st : LfnState} {w r : List (Addr × Slot)} (hne : w ≠ []) (hfree : ∀ x ∈ w, isFree x.2)
    (hrest : (∃ x ∈ w, at' x.2 0 = 0) → ∀ x ∈ r, at' x.2 0 = 0) : entriesFrom st (w ++ r) = entriesFrom .init r := by
  induction w generalizing st with
  | nil => exact absurd rfl hne
  | cons x w ih =>
    by_cases h0 : at' x.2 0 = 0
    · rw [List.cons_append, entriesFrom_zero h0, entriesFrom_zeros (hrest ⟨x, List.mem_cons_self .., h0⟩)]
    · have hdel : at' x.2 0 = 0xE5 := by
        have := hfree x (List.mem_cons_self ..)
        simpa [isFree, h0] using this
      have hstep : entriesFrom st (x :: w ++ r) = entriesFrom st.reset (w ++ r) := by
        rw [List.cons_append]
        conv_lhs => unfold entriesFrom
        rw [if_neg h0, if_pos hdel]
      rw [hstep]
      by_cases hw : w = []
      · rw [hw]
        exact entriesFrom_settled (reset_settled st) init_settled r
      · apply ih hw
        · intro y hy
          exact hfree y (List.mem_cons_of_mem _ hy)
        · rintro ⟨y, hy, hz⟩
          exact hrest ⟨y, List.mem_cons_of_mem _ hy, hz⟩

/-! ## Long names -/

theorem lfn_first_byte : ∀ ord < 21, 0 < ord →
    (UInt8.ofNat (ord ||| 0x40) &&& 0x40 ≠ 0 ∧ (UInt8.ofNat (ord ||| 0x40) &&& 0x3F).toNat = ord ∧
      UInt8.ofNat (ord ||| 0x40) ≠ 0 ∧ UInt8.ofNat (ord ||| 0x40) ≠ 0xE5) ∧
    (UInt8.ofNat (ord ||| 0) &&& 0x40 = 0 ∧ (UInt8.ofNat (ord ||| 0) &&& 0x3F).toNat = ord ∧
      UInt8.ofNat (ord ||| 0) ≠ 0 ∧ UInt8.ofNat (ord ||| 0) ≠ 0xE5) := by decide

theorem lfnUnit_lt (name : List UInt8) (pos : Nat) : lfnUnit name pos < 65536 := by
  unfold lfnUnit
  have := (at' name pos).toNat_lt
  split
  · omega
  · split <;> omega

theorem rd_two_of {byte : Nat → UInt8} {i n : Nat} (hn : n < 65536) (h0 : byte i = UInt8.ofNat n)
    (h1 : byte (i + 1) = UInt8.ofNat (n / 256)) : rd 2 byte i = n := by
  simp only [rd, h0, h1, UInt8.toNat_ofNat']
  omega

theorem lfnSlotBytes_isLfn (name : List UInt8) (chk : UInt8) (nlfn ord : Nat) :
    isLfn (lfnSlotBytes name chk nlfn ord) = true := by
  have hattr : at' (lfnSlotBytes name chk nlfn ord) 11 = attrLfn := rfl
  unfold isLfn
  rw [hattr]
  decide

/-- The units of a long-name slot are where `dir_find` reads them. -/
theorem lfnSlotBytes_unit (name : List UInt8) (chk : UInt8) (nlfn ord : Nat) {i : Nat} (hi : i < lfnChars) :
    rd 2 (at' (lfnSlotBytes name chk nlfn ord)) (lfnOffsets.getD i 0) = lfnUnit name ((ord - 1) * lfnChars + i) := by
  have hlt := lfnUnit_lt name ((ord - 1) * lfnChars + i)
  unfold lfnChars at hi
  interval_cases i <;> exact rd_two_of hlt rfl rfl

/-- What the buffer holds once the slots from `ord` on were read. -/
def Buffered (name : List UInt8) (nlfn ord : Nat) (lfn : Nat → Nat) : Prop :=
  ∀ k, ord * lfnChars ≤ k → lfn k = if k < nlfn * lfnChars then lfnUnit name k else 0xFFFF

theorem lfnWrite_buffered {name : List UInt8} {chk : UInt8} {nlfn ord : Nat} {lfn : Nat → Nat} (hord : ord < nlfn)
    (h : Buffered name nlfn (ord + 1) lfn) :
    Buffered name nlfn ord (lfnWrite lfn (ord + 1) (lfnSlotBytes name chk nlfn (ord + 1))) := by
  intro k hk
  have hmul : ord * lfnChars + lfnChars ≤ nlfn * lfnChars := by
    rw [← Nat.succ_mul]
    exact Nat.mul_le_mul_right _ hord
  unfold lfnWrite
  rw [Nat.add_sub_cancel]
  by_cases hin : ord * lfnChars ≤ k ∧ k < ord * lfnChars + lfnChars
  · rw [if_pos hin, if_pos (by omega), lfnSlotBytes_unit name chk nlfn (ord + 1) (by omega), Nat.add_sub_cancel,
      Nat.add_sub_cancel' hin.1]
  · rw [if_neg hin]
    exact h k (by rw [Nat.succ_mul]; omega)

/-- The walk over the rest of a long name, ending at the slot with ordinal 1. -/
theorem after_lfnSlots (name : List UInt8) (chk : UInt8) {nlfn : Nat} (hn : nlfn ≤ 20) (ord : Nat) (hord : ord ≤ nlfn)
    {addrs : List Addr} (haddrs : ord ≤ addrs.length) (st : LfnState)
    (hst : ord = nlfn ∨ st.expect = ord + 1 ∧ st.chk = chk ∧ Buffered name nlfn ord st.lfn) (hpos : 0 < nlfn) :
    let l := addrs.zip (lfnSlots name chk nlfn ord)
    (∀ x ∈ l, at' x.2 0 ≠ 0) ∧ entriesFrom st l = [] ∧
      (ord = nlfn ∧ ord = 0 ∨ (st.after l).expect = 1 ∧ (st.after l).chk = chk ∧ Buffered name nlfn 0 (st.after l).lfn) := by
  induction ord generalizing addrs st with
  | zero =>
    simp only [lfnSlots, List.zip_nil_right]
    refine ⟨by simp, rfl, ?_⟩
    rcases hst with h | h
    · omega
    · exact .inr h
  | succ ord ih =>
    obtain ⟨a, addrs, rfl⟩ := List.exists_cons_of_ne_nil (show addrs ≠ [] from fun h => by simp [h] at haddrs)
    generalize he : lfnSlotBytes name chk nlfn (ord + 1) = e
    -- the slot is a long-name slot, and the state takes it in
    have hbytes := lfn_first_byte (ord + 1) (by omega) (by omega)
    have hlfn : isLfn e = true := by rw [← he]; exact lfnSlotBytes_isLfn name chk nlfn (ord + 1)
    have hchk : at' e 13 = chk := by rw [← he]; rfl
    have hfirst : at' e 0 = UInt8.ofNat ((ord + 1) ||| if ord + 1 = nlfn then 0x40 else 0) := by rw [← he]; rfl
    have hlive : at' e 0 ≠ 0 ∧ at' e 0 ≠ 0xE5 ∧ lfnOrd e = ord + 1 := by
      unfold lfnOrd
      rw [hfirst]
      split
      · exact ⟨hbytes.1.2.2.1, hbytes.1.2.2.2, hbytes.1.2.1⟩
      · exact ⟨hbytes.2.2.2.1, hbytes.2.2.2.2, hbytes.2.2.1⟩
    obtain ⟨h0, hdel, hordE⟩ := hlive
    have hnext : (st.next e).expect = ord + 1 ∧ (st.next e).chk = chk ∧ Buffered name nlfn ord (st.next e).lfn := by
      unfold LfnState.next
      by_cases hlast : ord + 1 = nlfn
      · have hs : lfnStarts e = true := by
          unfold lfnStarts
          rw [hordE, hfirst, if_pos hlast]
          simp only [Bool.and_eq_true, bne_iff_ne, decide_eq_true_eq]
          exact ⟨⟨hbytes.1.1, by omega⟩, by omega⟩
        rw [if_pos hs]
        refine ⟨hordE, hchk, ?_⟩
        rw [hordE, ← he]
        refine lfnWrite_buffered (by omega) fun k hk => ?_
        rw [hlast] at hk
        rw [if_neg (by omega)]
      · obtain ⟨hexp, hst2, hbuf⟩ := hst.resolve_left hlast
        have hs : lfnStarts e = false := by
          unfold lfnStarts
          rw [hfirst, if_neg hlast, hbytes.2.1]
          simp
        have hc : lfnContinues st e = true := by
          unfold lfnContinues
          rw [hordE, hfirst, if_neg hlast, hbytes.2.1, hexp, hchk, hst2]
          simp
        rw [hs, hc]
        simp only [Bool.false_eq_true, if_false, if_true]
        refine ⟨hordE, hst2, ?_⟩
        rw [hordE, ← he]
        exact lfnWrite_buffered (by omega) hbuf
    obtain ⟨hall, hdec, hfin⟩ := ih (by omega) (show ord ≤ addrs.length by simpa using haddrs) (st.next e) (.inr hnext)
    have hstep : st.step e = st.next e := if_pos ⟨hdel, hlfn⟩
    simp only [lfnSlots, List.zip_cons_cons, he]
    refine ⟨fun x hx => ?_, ?_, .inr ?_⟩
    · rcases List.mem_cons.mp hx with rfl | hx
      · exact h0
      · exact hall x hx
    · unfold entriesFrom
      rw [if_neg h0, if_neg hdel, if_pos hlfn]
      exact hdec
    · have hafter : st.after ((a, e) :: addrs.zip (lfnSlots name chk nlfn ord)) =
          (st.next e).after (addrs.zip (lfnSlots name chk nlfn ord)) := by rw [← hstep]; rfl
      rw [hafter]
      rcases hfin with h | h
      · omega
      · exact h

theorem takeWhile_range {p : Nat → Bool} {f : Nat → Nat} {n m : Nat} (hle : n ≤ m) (hin : ∀ k < n, p (f k) = true)
    (hout : n < m → p (f n) = false) : ((List.range m).map f).takeWhile p = (List.range n).map f := by
  obtain ⟨j, rfl⟩ := Nat.exists_eq_add_of_le hle
  rw [List.range_add, List.map_append, List.takeWhile_append_of_pos]
  · cases j with
    | zero => simp
    | succ j =>
      rw [List.range_succ_eq_map]
      simp [hout (by omega)]
  · intro x hx
    obtain ⟨k, hk, rfl⟩ := List.mem_map.mp hx
    exact hin k (List.mem_range.mp hk)

theorem range_units (name : List UInt8) : ((List.range name.length).map fun k => (at' name k).toNat) = units name := by
  refine List.ext_getElem (by simp) fun k h1 h2 => ?_
  have hk : k < name.length := by simpa using h1
  simp [units, at', hk]

/-- The name in the buffer is the one that was written. -/
theorem buffered_name {name : List UInt8} {nlfn : Nat} {st : LfnState} (hbuf : Buffered name nlfn 0 st.lfn) (h0 : 0 ∉ name)
    (hlen : name.length ≤ nlfn * lfnChars) (hmax : name.length < lfnUnits) : st.name = units name := by
  unfold LfnState.name
  have hval : ∀ k < name.length, st.lfn k = (at' name k).toNat := fun k hk => by
    rw [hbuf k (by omega), if_pos (by omega), lfnUnit, if_pos hk]
  rw [takeWhile_range (n := name.length) (by omega), ← range_units]
  · exact List.map_congr_left fun k hk => hval k (List.mem_range.mp hk)
  · intro k hk
    have hne : at' name k ≠ 0 := fun h => h0 (by
      rw [← h, at', List.getD_eq_getElem?_getD, List.getElem?_eq_getElem hk]
      exact List.getElem_mem hk)
    have hlt := (at' name k).toNat_lt
    rw [hval k hk]
    simp only [Bool.and_eq_true, bne_iff_ne]
    refine ⟨fun h => hne (UInt8.toNat_inj.mp h), by omega⟩
  · intro hlt
    rw [hbuf _ (by omega)]
    by_cases hk : name.length < nlfn * lfnChars
    · rw [if_pos hk, lfnUnit, if_neg (by omega), if_pos rfl]
      rfl
    · rw [if_neg hk]
      rfl

/-! ## Entry sets -/

section Dirent

variable {sn : List UInt8} {attr : UInt8} {date time : Nat}

theorem direntBytes_low (hsn : sn.length = 11) {i : Nat} (hi : i < 11) : at' (direntBytes sn attr date time) i = at' sn i :=
  Lib.at'_append_left (by omega)

theorem direntBytes_attr (hsn : sn.length = 11) : at' (direntBytes sn attr date time) 11 = attr := by
  have := Lib.at'_append_right sn ([attr, 0, 0] ++ (le 2 time ++ (le 2 date ++ (le 2 date ++ ([0, 0] ++ (le 2 time ++
    (le 2 date ++ List.replicate 6 0))))))) 0
  rw [hsn] at this
  exact this

theorem direntBytes_case (hsn : sn.length = 11) : at' (direntBytes sn attr date time) 12 = 0 := by
  have := Lib.at'_append_right sn ([attr, 0, 0] ++ (le 2 time ++ (le 2 date ++ (le 2 date ++ ([0, 0] ++ (le 2 time ++
    (le 2 date ++ List.replicate 6 0))))))) 1
  rw [hsn] at this
  exact this

/-- A file or a directory. -/
def EntryAttr (attr : UInt8) : Prop := attr = attrArchive ∨ attr = attrDir

theorem LiveName.notFree {e : Slot} (h : 0x20 < (at' e 0).toNat ∧ (at' e 0).toNat < 0x7F) : at' e 0 ≠ 0 ∧ at' e 0 ≠ 0xE5 := by
  refine ⟨fun heq => ?_, fun heq => ?_⟩
  · rw [heq] at h
    exact absurd h.1 (by decide)
  · rw [heq] at h
    exact absurd h.2 (by decide)

theorem liveSlot_of {e : Slot} (h0 : at' e 0 ≠ 0 ∧ at' e 0 ≠ 0xE5) (hattr : EntryAttr (at' e 11)) : LiveSlot e := by
  refine ⟨by simp [isFree, h0.1, h0.2], ?_, ?_⟩
  · rcases hattr with h | h <;> (unfold isLfn; rw [h]; decide)
  · rcases hattr with h | h <;> (unfold isVolume; rw [h]; decide)

theorem lfnChecksum_congr {e e' : Slot} (h : ∀ i < 11, at' e i = at' e' i) : lfnChecksum e = lfnChecksum e' := by
  unfold lfnChecksum
  exact List.foldl_ext _ _ _ fun sum i hi => by rw [h i (List.mem_range.mp hi)]

/-- A new 8.3 slot, with the cluster it leads to. -/
structure IsDirent (e : Slot) (sn : List UInt8) (attr : UInt8) : Prop where
  length : e.length = direntSize
  low : ∀ i < 11, at' e i = at' sn i
  attr : at' e 11 = attr
  case : at' e 12 = 0

theorem direntBytes_isDirent (date time : Nat) (hsn : sn.length = 11) : IsDirent (direntBytes sn attr date time) sn attr :=
  ⟨direntBytes_length hsn attr date time, fun _ hi => direntBytes_low hsn hi, direntBytes_attr hsn, direntBytes_case hsn⟩

/-- The slot, once the cluster is stored in it. -/
def withCluster (e : Slot) (c : Nat) : Slot := e.take 26 ++ (le 2 c ++ e.drop 28)

theorem withCluster_low {e : Slot} (h : e.length = direntSize) (c : Nat) {i : Nat} (hi : i < 26) :
    at' (withCluster e c) i = at' e i := by
  unfold direntSize at h
  have hlen : (e.take 26).length = 26 := by rw [List.length_take]; omega
  have hleft := Lib.at'_append_left (l := e.take 26) (m := e.drop 26) (i := i) (by omega)
  rw [List.take_append_drop] at hleft
  rw [withCluster, Lib.at'_append_left (by omega), hleft]

theorem IsDirent.withCluster {e : Slot} (h : IsDirent e sn attr) (c : Nat) : IsDirent (withCluster e c) sn attr := by
  have hlow := fun {i : Nat} (hi : i < 26) => withCluster_low h.length c hi
  have hlen := h.length
  refine ⟨?_, fun i hi => (hlow (by omega)).trans (h.low i hi), (hlow (by decide)).trans h.attr, (hlow (by decide)).trans h.case⟩
  unfold Fat.withCluster direntSize at *
  simp only [List.length_append, List.length_take, List.length_drop, Lib.le_length]
  omega

theorem direntCluster_withCluster {e : Slot} (h : e.length = direntSize) {c : Nat} (hc : c < 65536) :
    direntCluster (withCluster e c) = c := by
  unfold direntSize at h
  have hlen : (e.take 26).length = 26 := by rw [List.length_take]; omega
  have hrd := Lib.rd_at (w := 2) (n := c) (by omega) (e.take 26) (e.drop 28)
  rwa [hlen] at hrd

theorem IsDirent.live {e : Slot} (h : IsDirent e sn attr) (hsn : LiveName sn) (hattr : EntryAttr attr) : LiveSlot e := by
  refine liveSlot_of ?_ (h.attr.symm ▸ hattr)
  rw [h.low 0 (by decide)]
  exact LiveName.notFree hsn.first

/-- A live slot is an entry. -/
theorem entriesFrom_live {st : LfnState} {a : Addr} {e : Slot} (h : LiveSlot e) (r : List (Addr × Slot)) :
    entriesFrom st ((a, e) :: r) = ⟨a, e, st.long e⟩ :: entriesFrom .init r := by
  have h0 : at' e 0 ≠ 0 ∧ at' e 0 ≠ 0xE5 := by simpa [isFree] using h.notFree
  have hstep : st.step e = st.reset := if_neg (by simp [h.notLfn])
  rw [entriesFrom_cons h0.1, if_pos ⟨h0.2, by simp [h.notLfn], by simp [h.notVolume]⟩, hstep,
    entriesFrom_settled (reset_settled st) init_settled, List.singleton_append]

/-- The long name of a new entry: the one it was given, or what the slots before leave. -/
def newLong (st : LfnState) (name : List UInt8) (nlfn : Nat) (e : Slot) : Option (List Nat) :=
  if nlfn = 0 then st.long e else some (units name)

/-- An entry set decodes to one entry. -/
theorem entriesFrom_set {st : LfnState} {name : List UInt8} {nlfn : Nat} {e : Slot} {addrs : List Addr} {a : Addr}
    (he : IsDirent e sn attr) (hsn : LiveName sn) (hattr : EntryAttr attr) (h0 : 0 ∉ name) (hlen : name.length ≤ maxName)
    (hn : nlfn = 0 ∨ nlfn = (name.length + lfnChars - 1) / lfnChars) (ha : addrs[nlfn]? = some a) (r : List (Addr × Slot)) :
    (∀ x ∈ addrs.zip (lfnSlots name (lfnChecksum sn) nlfn nlfn ++ [e]), at' x.2 0 ≠ 0) ∧
      entriesFrom st (addrs.zip (lfnSlots name (lfnChecksum sn) nlfn nlfn ++ [e]) ++ r) =
        ⟨a, e, newLong st name nlfn e⟩ :: entriesFrom .init r := by
  have hlive := he.live hsn hattr
  have hlive0 : at' e 0 ≠ 0 := fun h => absurd hlive.notFree (by simp [isFree, h])
  have haddrs : nlfn < addrs.length := (List.getElem?_eq_some_iff.mp ha).1
  rw [zip_snoc (a := a) _ (by rw [lfnSlots_length]; exact ha), List.append_assoc]
  by_cases hz : nlfn = 0
  · simp only [hz, lfnSlots, List.zip_nil_right, List.nil_append, List.singleton_append, newLong, if_true]
    exact ⟨fun x hx => by rw [List.mem_singleton.mp hx]; exact hlive0, entriesFrom_live hlive r⟩
  · have hcount := hn.resolve_left hz
    unfold maxName at hlen
    have hmul : name.length ≤ nlfn * lfnChars ∧ nlfn ≤ 20 := by
      unfold lfnChars at *
      omega
    obtain ⟨hall, hnil, hfin⟩ := after_lfnSlots name (lfnChecksum sn) hmul.2 nlfn (Nat.le_refl _)
      (show nlfn ≤ addrs.length by omega) st (.inl rfl) (by omega)
    rcases hfin with h | ⟨hexp, hchk, hbuf⟩
    · omega
    refine ⟨fun x hx => ?_, ?_⟩
    · rcases List.mem_append.mp hx with hx | hx
      · exact hall x hx
      · rw [List.mem_singleton.mp hx]
        exact hlive0
    rw [entriesFrom_append hall, hnil, List.nil_append, List.singleton_append, entriesFrom_live hlive, newLong, if_neg hz]
    have hname := buffered_name hbuf h0 hmul.1 (by unfold lfnUnits lfnChars; omega)
    have hlong : (st.after (addrs.zip (lfnSlots name (lfnChecksum sn) nlfn nlfn))).long e = some (units name) := by
      unfold LfnState.long
      rw [if_pos ⟨hexp, by rw [hchk, lfnChecksum_congr he.low]⟩, hname]
    rw [hlong]

end Dirent

/-! ## Short names -/

theorem shortParts_ext_range (name : List UInt8) : ∀ c ∈ (shortParts name).ext, 0x20 < c.toNat ∧ c.toNat < 0x7F := by
  have hin : ∀ {l : List UInt8}, ∀ c ∈ (l.map shortChar).take 3, 0x20 < c.toNat ∧ c.toNat < 0x7F := fun c hc => by
    obtain ⟨x, -, rfl⟩ := List.mem_map.mp (List.mem_of_mem_take hc)
    exact shortChar_range x
  unfold shortParts
  dsimp only
  split <;> exact hin

theorem at'_padTo {n : Nat} {b : List UInt8} {i : Nat} (hi : i < n) (hb : b.length ≤ i) : at' (padTo n b) i = 0x20 := by
  unfold padTo at'
  rw [List.getD_eq_getElem?_getD, List.getElem?_append_right hb, List.getElem?_replicate, if_pos (by omega)]
  rfl

/-- Padding is cut off again. -/
theorem trimmed_pad {e : Slot} {off n : Nat} {b : List UInt8} (hread : ∀ i < n, at' e (off + i) = at' (padTo n b) i)
    (hchars : ∀ c ∈ b, 0x20 < c.toNat) (m : Nat) (hm : m ≤ n) (hb : b.length ≤ m) : trimmed e off m = b.length := by
  induction m with
  | zero => exact (Nat.le_zero.mp hb).symm
  | succ m ih =>
    unfold trimmed
    rw [hread m (by omega)]
    by_cases hlast : b.length ≤ m
    · rw [if_pos (at'_padTo (by omega) hlast)]
      exact ih (by omega) hlast
    · have hget : at' (padTo n b) m = at' b m := Lib.at'_append_left (by omega)
      have hmem : at' b m ∈ b := by
        rw [at', List.getD_eq_getElem?_getD, List.getElem?_eq_getElem (by omega)]
        exact List.getElem_mem _
      rw [hget, if_neg]
      · omega
      · intro heq
        have := hchars _ hmem
        rw [heq] at this
        exact absurd this (by decide)

theorem trimmed_congr {e e' : Slot} {i : Nat} (n : Nat) (h : ∀ k < i + n, at' e k = at' e' k) :
    trimmed e i n = trimmed e' i n := by
  induction n with
  | zero => rfl
  | succ n ih => rw [trimmed, trimmed, h (i + n) (by omega), ih fun k hk => h k (by omega)]

theorem trimmed_le (e : Slot) (i n : Nat) : trimmed e i n ≤ n := by
  induction n with
  | zero => exact Nat.le_refl 0
  | succ n ih =>
    unfold trimmed
    split
    · omega
    · exact Nat.le_refl _

/-- The short form is in the first bytes. -/
theorem shortToDisplay_congr {e e' : Slot} (h : ∀ i < 13, at' e i = at' e' i) : shortToDisplay e = shortToDisplay e' := by
  have hbase : trimmed e 0 8 = trimmed e' 0 8 := trimmed_congr 8 fun k hk => h k (by omega)
  have hext : trimmed e 8 3 = trimmed e' 8 3 := trimmed_congr 3 fun k hk => h k (by omega)
  unfold shortToDisplay
  dsimp only
  rw [hbase, hext, h 12 (by decide), h 0 (by decide)]
  have hb : ∀ i ∈ List.range (trimmed e' 0 8), at' e i = at' e' i := fun i hi =>
    h i (by have := List.mem_range.mp hi; have := trimmed_le e' 0 8; omega)
  have hx : ∀ i ∈ List.range (trimmed e' 8 3), at' e (8 + i) = at' e' (8 + i) := fun i hi =>
    h (8 + i) (by have := List.mem_range.mp hi; have := trimmed_le e' 8 3; omega)
  have hshow : ∀ {x x' y y' : List Nat}, x = x' → y = y' →
      (if x = [] then y else y ++ 0x2E :: x) = if x' = [] then y' else y' ++ 0x2E :: x' := by
    rintro _ _ _ _ rfl rfl
    rfl
  exact hshow (List.map_congr_left fun i hi => by rw [hx i hi]) (List.map_congr_left fun i hi => by rw [hb i hi])

theorem IsDirent.display {e e' : Slot} {sn : List UInt8} {attr : UInt8} (h : IsDirent e sn attr) (h' : IsDirent e' sn attr) :
    shortToDisplay e = shortToDisplay e' := by
  refine shortToDisplay_congr fun i hi => ?_
  rcases (by omega : i < 11 ∨ i = 11 ∨ i = 12) with hi | rfl | rfl
  · exact (h.low i hi).trans (h'.low i hi).symm
  · exact h.attr.trans h'.attr.symm
  · exact h.case.trans h'.case.symm

/-- The 8.3 form of a name that is one already shows as that name. -/
theorem shortToDisplay_exact {p : ShortParts} (attr : UInt8) (date time : Nat) (hbase : p.base.length ≤ 8) (hne : p.base ≠ [])
    (hext : p.ext.length ≤ 3) (hb : ∀ c ∈ p.base, 0x20 < c.toNat ∧ c.toNat < 0x7F) (hx : ∀ c ∈ p.ext, 0x20 < c.toNat) :
    shortToDisplay (direntBytes (padTo 8 p.base ++ padTo 3 p.ext) attr date time) = units (exactName p) := by
  generalize hsn : padTo 8 p.base ++ padTo 3 p.ext = sn
  have hlen : sn.length = 11 := by rw [← hsn, List.length_append, padTo_length hbase, padTo_length hext]
  generalize he : direntBytes sn attr date time = e
  have hlow : ∀ i < 11, at' e i = at' sn i := fun i hi => by rw [← he]; exact direntBytes_low hlen hi
  have hreadB : ∀ i < 8, at' e (0 + i) = at' (padTo 8 p.base) i := fun i hi => by
    rw [Nat.zero_add, hlow i (by omega), ← hsn]
    exact Lib.at'_append_left (by rw [padTo_length hbase]; exact hi)
  have hreadX : ∀ i < 3, at' e (8 + i) = at' (padTo 3 p.ext) i := fun i hi => by
    have := Lib.at'_append_right (padTo 8 p.base) (padTo 3 p.ext) i
    rw [padTo_length hbase] at this
    rw [hlow (8 + i) (by omega), ← hsn, this]
  have hcase : at' e 12 = 0 := by rw [← he]; exact direntBytes_case hlen
  have hbaseLen : trimmed e 0 8 = p.base.length := trimmed_pad hreadB (fun c hc => (hb c hc).1) 8 (Nat.le_refl 8) hbase
  have hextLen : trimmed e 8 3 = p.ext.length := trimmed_pad hreadX hx 3 (Nat.le_refl 3) hext
  have hfirst : at' e 0 ≠ 0x05 := fun heq => by
    obtain ⟨c, l, hcl⟩ := List.exists_cons_of_ne_nil hne
    have h0 := hreadB 0 (by omega)
    rw [Nat.zero_add, hcl] at h0
    have hc := hb c (by rw [hcl]; exact List.mem_cons_self ..)
    have h0' : at' e 0 = c := h0
    rw [← h0', heq] at hc
    exact absurd hc.1 (by decide)
  unfold shortToDisplay
  dsimp only
  simp only [hbaseLen, hextLen, hcase, hfirst, and_false, if_false, show (0 : UInt8) &&& 0x08 = 0 from rfl,
    show (0 : UInt8) &&& 0x10 = 0 from rfl, ne_eq, not_true_eq_false]
  have hB : ((List.range p.base.length).map fun i => (at' e i).toNat) = units p.base := by
    rw [← range_units]
    refine List.map_congr_left fun i hi => ?_
    have hi := List.mem_range.mp hi
    have := hreadB i (by omega)
    rw [Nat.zero_add] at this
    rw [this, padTo, Lib.at'_append_left hi]
  have hX : ((List.range p.ext.length).map fun i => (at' e (8 + i)).toNat) = units p.ext := by
    rw [← range_units]
    refine List.map_congr_left fun i hi => ?_
    have hi := List.mem_range.mp hi
    rw [hreadX i (by omega), padTo, Lib.at'_append_left hi]
  rw [hB, hX]
  unfold exactName
  by_cases hnil : p.ext = []
  · simp [hnil, units]
  · have : units p.ext ≠ [] := by simpa [units] using hnil
    rw [if_neg this, if_neg hnil]
    simp [units]

theorem nameEqU16_units (name : List UInt8) : nameEqU16 (units name) name = true := (nameEqU16_iff _ _).mpr rfl

/-- A new entry has the name it was made for. -/
theorem newEntry_named {v : Vol} {d : Disk} {dir : Nat} {name : List UInt8} {a : Addr} {st : LfnState} {attr : UInt8}
    (hne : name ≠ []) {e : Slot} (he : IsDirent e (newName v d dir name).1 attr) :
    (Entry.mk a e (newLong st name (newName v d dir name).2 e)).named name = true := by
  unfold Entry.named newLong
  by_cases hz : (newName v d dir name).2 = 0
  · rw [if_pos hz]
    -- no long-name slots: the short form is the name
    have hneed : (shortName (fun sn => shortUsed sn (slots v d dir)) name).1 = false := by
      by_contra hno
      rw [Bool.not_eq_false] at hno
      have hcount : lfnCount (shortName (fun sn => shortUsed sn (slots v d dir)) name).1 name = 0 := hz
      have hpos : 0 < name.length := List.length_pos_iff.mpr hne
      rw [hno] at hcount
      simp only [lfnCount, if_true, lfnChars] at hcount
      omega
    obtain ⟨hbne, hbr⟩ := shortParts_base name
    have hxr := shortParts_ext_range name
    have hsn : (newName v d dir name).1 = padTo 8 (shortParts name).base ++ padTo 3 (shortParts name).ext ∧
        (shortParts name).lossy = false ∧ exactName (shortParts name) = name := by
      have hnew : (newName v d dir name).1 = (shortName (fun sn => shortUsed sn (slots v d dir)) name).2 := rfl
      rw [hnew]
      unfold shortName at hneed ⊢
      dsimp only at hneed ⊢
      split at hneed
      · rename_i hexact
        rw [if_pos hexact]
        simp only [Bool.and_eq_true, Bool.not_eq_true'] at hexact
        have hlive : LiveName (padTo 8 (shortParts name).base ++ padTo 3 (shortParts name).ext) := by
          refine liveName_pad (shortParts_base_le hexact.1) hbne (shortParts_ext name) ?_
          obtain ⟨c, l, hb⟩ := List.exists_cons_of_ne_nil hbne
          rw [hb]
          exact hbr c (by rw [hb]; exact List.mem_cons_self ..)
        exact ⟨shortFirst_live hlive, hexact.1, by simpa using hneed⟩
      · cases hneed
    obtain ⟨hsn, hlossy, hexact⟩ := hsn
    have hshow := shortToDisplay_exact attr 0 0 (shortParts_base_le hlossy) hbne
      (shortParts_ext name) hbr fun c hc => (hxr c hc).1
    rw [← hsn] at hshow
    have hlive := shortName_live (fun sn => shortUsed sn (slots v d dir)) name
    have hdisplay := he.display (direntBytes_isDirent 0 0 hlive.length)
    rw [hdisplay, hshow, hexact, nameEqU16_units, Bool.or_true]
  · rw [if_neg hz, Option.any_some, nameEqU16_units, Bool.true_or]

end Be300.Fat
