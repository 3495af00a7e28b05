/-
  Be300.Fat.Mkdirs — the directories that `fat_mkdirs` makes are found by the path they were made for.

  A new directory holds `.` and `..` and nothing else (`Fresh`); its entry is found in the directory it was made in, and every
  other directory stays as it is (`makeDir_spec`). So a run of the loop leads where a walk on the disk that it leaves leads
  (`mkdirsLoop_led`), if the directories on the way are in order (`InOrder`): chains that end, with nothing behind their end
  marks, and no cluster in two of them. A component that is `.` or `..` may come back to a directory that was passed, and a new
  entry there may take the name of one on the way.
-/

import Be300.Fat.Confinement
import Be300.Fat.Insert

namespace Be300.Fat

open Be300.Lib (Prog le le_length at')
open Be300.Cbea (units fold nameEqU16 nameEqU16_iff lowerAscii)

/-! ## `.` and `..` -/

def dotName : List UInt8 := [0x2E]
def dotDotName : List UInt8 := [0x2E, 0x2E]

/-- A component that is `.` or `..`. -/
def IsDots (comp : List UInt8) : Prop := comp = dotName ∨ comp = dotDotName

instance (comp : List UInt8) : Decidable (IsDots comp) := inferInstanceAs (Decidable (comp = dotName ∨ comp = dotDotName))

section Dots

variable {v : Vol} {d : Disk} {c off : Nat} {name : List UInt8}

theorem fold_dots {s : List UInt8} {n : Nat} (h : fold (units s) = List.replicate n 0x2E) : s = List.replicate n 0x2E := by
  refine List.eq_replicate_iff.mpr ⟨by simpa [fold, units] using congrArg List.length h, fun b hb => ?_⟩
  have hmem : lowerAscii b.toNat ∈ fold (units s) := List.mem_map_of_mem (List.mem_map_of_mem hb)
  rw [h] at hmem
  have hlow := (List.mem_replicate.mp hmem).2
  refine UInt8.toNat_inj.mp ?_
  unfold lowerAscii at hlow
  split at hlow
  · omega
  · exact hlow

/-- The slot of `.` or `..`, where the rest of the cluster is zero. -/
theorem dotEntry_spec {cluster : Nat} (hin : v.Within ⟨c, off⟩ direntSize) (hname : name.length ≤ 11) :
    Wp v (dotEntry c off name cluster) (fun _ d' => d'.fat = d.fat ∧ d'.hint = d.hint ∧
      (∀ r k, r ≠ c ∨ k < off ∨ off + direntSize ≤ k → d'.mem r k = d.mem r k) ∧
      (d.mem c (off + 12) = 0 → IsDirent (d'.get ⟨c, off⟩ direntSize) (padTo 11 name) attrDir)) d := by
  have hpad := padTo_length hname
  have hlen : (padTo 11 name ++ [attrDir]).length = 12 := by rw [List.length_append, hpad, List.length_singleton]
  unfold dotEntry
  refine wp_store ?_ (Prog.wp_seq (setTime_spec hin) fun _ d1 hd1 => ?_)
  · have := within_plus (m := 0) (k := 12) hin (by decide)
    rw [hlen]
    simpa [Addr.plus] using this
  obtain ⟨hfat, hhint, hmem⟩ := hd1
  refine ⟨within_plus (a := ⟨c, off⟩) hin (by simp [direntSize]), hfat, hhint, fun r k hk => ?_, fun hzero => ?_⟩
  · simp only [diskStep, Disk.put, le_length]
    unfold direntSize at hk
    rw [if_neg (by omega), hmem r k (by simp only; omega)]
    simp only [Disk.put, hlen]
    rw [if_neg (by omega)]
  · -- the first thirteen bytes: the name, the attribute, and a zero
    have hread : ∀ i < 13, at' ((diskStep (.store ⟨c, off + 26⟩ (le 2 cluster)) d1).2.get ⟨c, off⟩ direntSize) i =
        if i < 12 then at' (padTo 11 name ++ [attrDir]) i else d.mem c (off + i) := fun i hi => by
      simp only [at', Disk.get, List.getD_eq_getElem?_getD, List.getElem?_map, List.getElem?_range (show i < direntSize by
        unfold direntSize; omega), Option.map_some, Option.getD_some, diskStep, Disk.put, le_length]
      have hbehind : ¬ (True ∧ off + 26 ≤ off + i ∧ off + i < off + 26 + 2) := by omega
      rw [if_neg hbehind, hmem c (off + i) (by simp only; omega)]
      simp only [Disk.put, hlen, at', List.getD_eq_getElem?_getD]
      by_cases h12 : i < 12
      · rw [if_pos h12, if_pos ⟨trivial, by omega, by omega⟩, Nat.add_sub_cancel_left]
      · rw [if_neg h12, if_neg (by omega)]
    refine ⟨get_length _ _ _, fun i hi => ?_, ?_, ?_⟩
    · rw [hread i (by omega), if_pos (by omega), Lib.at'_append_left (by omega)]
    · have := Lib.at'_append_right (padTo 11 name) [attrDir] 0
      rw [hpad] at this
      rw [hread 11 (by omega), if_pos (by omega)]
      exact this
    · rw [hread 12 (by omega), if_neg (by omega)]
      exact hzero

/-- A directory with nothing in it but its dots. -/
structure Fresh (v : Vol) (d : Disk) (c : Nat) : Prop where
  ended : Ended v d c
  single : clusters v d c = [c]
  tail : Tailed (slots v d c)
  empty : ∀ comp, ¬ IsDots comp → lookup v d c comp = none

theorem dots_display {e : Slot} {n : Nat} (hn : n = 1 ∨ n = 2) (h : IsDirent e (padTo 11 (List.replicate n 0x2E)) attrDir) :
    shortToDisplay e = List.replicate n 0x2E := by
  rcases hn with rfl | rfl
  · rw [h.display (direntBytes_isDirent 0 0 (by decide))]
    decide
  · rw [h.display (direntBytes_isDirent 0 0 (by decide))]
    decide

theorem dots_live {e : Slot} {n : Nat} (hn : n = 1 ∨ n = 2) (h : IsDirent e (padTo 11 (List.replicate n 0x2E)) attrDir) :
    LiveSlot e := by
  refine h.live ⟨?_, ?_⟩ (.inr rfl)
  · rcases hn with rfl | rfl <;> decide
  · rcases hn with rfl | rfl <;> decide

/-- Only its own name finds it. -/
theorem dots_named {e : Slot} {n : Nat} {a : Addr} {comp : List UInt8} (hn : n = 1 ∨ n = 2)
    (h : IsDirent e (padTo 11 (List.replicate n 0x2E)) attrDir) (hcomp : ¬ IsDots comp) :
    (Entry.mk a e none).named comp = false := by
  unfold Entry.named
  rw [dots_display hn h, Option.any_none, Bool.false_or, Bool.eq_false_iff]
  intro heq
  have hfold := (nameEqU16_iff _ _).mp heq
  have hrep : fold (List.replicate n 0x2E) = List.replicate n 0x2E := by
    rcases hn with rfl | rfl <;> decide
  rw [hrep] at hfold
  have hcompEq := fold_dots hfold.symm
  rcases hn with rfl | rfl
  · exact hcomp (.inl hcompEq)
  · exact hcomp (.inr hcompEq)

/-- The slots of a new directory. -/
theorem dots_slots {a b : Addr} {e f : Slot} {r : List (Addr × Slot)}
    (he : IsDirent e (padTo 11 (List.replicate 1 0x2E)) attrDir) (hf : IsDirent f (padTo 11 (List.replicate 2 0x2E)) attrDir)
    (hr : ∀ x ∈ r, at' x.2 0 = 0) :
    Tailed ((a, e) :: (b, f) :: r) ∧
      ∀ comp, ¬ IsDots comp → (entriesFrom .init ((a, e) :: (b, f) :: r)).find? (·.named comp) = none := by
  have hlive := dots_live (.inl rfl) he
  have hlive' := dots_live (.inr rfl) hf
  have h0 : ∀ {e : Slot}, LiveSlot e → at' e 0 ≠ 0 := fun h heq => by
    have := h.notFree
    simp [isFree, heq] at this
  refine ⟨?_, fun comp hcomp => ?_⟩
  · refine List.pairwise_cons.mpr ⟨fun _ _ h => absurd h (h0 hlive), ?_⟩
    refine List.pairwise_cons.mpr ⟨fun _ _ h => absurd h (h0 hlive'), ?_⟩
    exact List.pairwise_of_forall_mem_list fun _ _ y hy _ => hr y hy
  · have hlong := fun e => long_settled init_settled e
    rw [entriesFrom_live hlive, entriesFrom_live hlive', entriesFrom_zeros hr, hlong, hlong,
      List.find?_cons_of_neg (by rw [dots_named (.inl rfl) he hcomp]; decide),
      List.find?_cons_of_neg (by rw [dots_named (.inr rfl) hf hcomp]; decide)]
    rfl

end Dots

/-! ## Making a directory -/

section Make

variable {v : Vol} {d : Disk} {dir : Nat} {comp : List UInt8}

theorem fresh_of (hv : v.Std) {c : Nat} (hc : v.Valid c) (hfat : d.fat c = 0xFFFF)
    (hdot : IsDirent (d.get ⟨c, 0⟩ direntSize) (padTo 11 dotName) attrDir)
    (hdots : IsDirent (d.get ⟨c, direntSize⟩ direntSize) (padTo 11 dotDotName) attrDir)
    (hzero : ∀ k, 2 * direntSize ≤ k → k < v.clusterBytes → d.mem c k = 0) : Fresh v d c := by
  have hchain : FatChain v d c [c] := ⟨rfl, hc, by rw [hfat]; show Eoc 0xFFFF; unfold Eoc; omega⟩
  have hended := ended_of_chain hv hchain (List.cons_ne_nil c [])
  have hclus := clusters_chain hv hchain (List.cons_ne_nil c [])
  obtain ⟨n, hn⟩ := Nat.exists_eq_add_of_le' (show 2 ≤ v.per by have := hv.per; omega)
  have hslots : ∃ r, slots v d c =
      (⟨c, 0⟩, d.get ⟨c, 0⟩ direntSize) :: (⟨c, direntSize⟩, d.get ⟨c, direntSize⟩ direntSize) :: r ∧ ∀ x ∈ r, at' x.2 0 = 0 := by
    refine ⟨(List.range n).map fun i => (⟨c, (i + 2) * direntSize⟩, d.get ⟨c, (i + 2) * direntSize⟩ direntSize), ?_,
      fun x hx => ?_⟩
    · rw [slots_cluster (by have := hc.1; omega), hclus, List.flatMap_singleton, clusterSlots, hn, List.range_succ_eq_map,
        List.range_succ_eq_map]
      simp only [List.map_cons, List.map_map, Nat.zero_mul, Nat.succ_eq_add_one, Nat.zero_add, Nat.one_mul]
      rfl
    · obtain ⟨i, hi, rfl⟩ := List.mem_map.mp hx
      have hi := List.mem_range.mp hi
      have hb := hv.bytes
      rw [hn] at hb
      unfold direntSize at hb hzero
      show d.mem c ((i + 2) * 32 + 0) = 0
      exact hzero _ (by omega) (by omega)
  obtain ⟨r, hslots, hr⟩ := hslots
  obtain ⟨htail, hnone⟩ := dots_slots (a := ⟨c, 0⟩) (b := ⟨c, direntSize⟩) hdot hdots hr
  refine ⟨hended, hclus, by rw [hslots]; exact htail, fun comp hcomp => ?_⟩
  rw [lookup, entries, hslots]
  exact hnone comp hcomp

/-- The cluster stored in a slot that was just written. -/
theorem put_cluster {a : Addr} {e : Slot} (he : e.length = direntSize) (c : Nat) :
    (d.put a e).put (a.plus 26) (le 2 c) = d.put a (withCluster e c) := by
  have hlen : (withCluster e c).length = direntSize := by
    unfold withCluster direntSize at *
    simp only [List.length_append, List.length_take, List.length_drop, le_length]
    omega
  have htake : (e.take 26).length = 26 := by
    rw [List.length_take, he]
    rfl
  have hmid : ∀ j < 2, at' (withCluster e c) (26 + j) = at' (le 2 c) j := fun j hj => by
    have := Lib.at'_append_right (e.take 26) (le 2 c ++ e.drop 28) j
    rw [htake] at this
    rw [withCluster, this, Lib.at'_append_left (by rw [le_length]; exact hj)]
  have hhigh : ∀ j, at' (withCluster e c) (28 + j) = at' e (28 + j) := fun j => by
    have := Lib.at'_append_right (e.take 26 ++ le 2 c) (e.drop 28) j
    rw [List.length_append, htake, le_length] at this
    rw [withCluster, ← List.append_assoc, this, Lib.at'_drop]
  unfold Disk.put
  congr 1
  funext r k
  simp only [Addr.plus, le_length, he, hlen]
  unfold direntSize
  by_cases hslot : r = a.region ∧ a.off ≤ k ∧ k < a.off + 32
  · obtain ⟨i, rfl⟩ := Nat.exists_eq_add_of_le hslot.2.1
    rw [if_pos hslot, if_pos hslot, Nat.add_sub_cancel_left]
    rcases (by omega : i < 26 ∨ 26 ≤ i ∧ i < 28 ∨ 28 ≤ i) with h | h | h
    · rw [if_neg (by omega), withCluster_low he c h]
    · obtain ⟨j, rfl⟩ := Nat.exists_eq_add_of_le h.1
      rw [if_pos ⟨hslot.1, by omega, by omega⟩, hmid j (by omega)]
      congr 1
      omega
    · obtain ⟨j, rfl⟩ := Nat.exists_eq_add_of_le h
      rw [if_neg (by omega), hhigh j]
  · rw [if_neg hslot, if_neg hslot, if_neg fun h => hslot ⟨h.1, by omega, by omega⟩]

theorem slots_tick (d : Disk) (dir : Nat) : slots v d.tick dir = slots v d dir := by
  have hfat : d.tick.fat = d.fat := rfl
  have haddrs := dirAddrs_congr (v := v) hfat dir
  unfold slots
  rw [haddrs]
  rfl

theorem lfnSlots_size {name : List UInt8} {chk : UInt8} {nlfn ord : Nat} {e : Slot} (h : e ∈ lfnSlots name chk nlfn ord) :
    e.length = direntSize := by
  induction ord with
  | zero => cases h
  | succ ord ih =>
    rcases List.mem_cons.mp h with rfl | h
    · exact lfnSlotBytes_length name chk nlfn (ord + 1)
    · exact ih h

/-- An entry set, once the cluster is stored in it. -/
theorem fill_cluster (d : Disk) {addrs : List Addr} (name sn : List UInt8) {nlfn : Nat} {a : Addr} (attr : UInt8)
    (ha : addrs[nlfn]? = some a) (hsn : sn.length = 11) (c : Nat) :
    (d.fill addrs name sn nlfn attr).put (a.plus 26) (le 2 c) =
      (putSlots d (addrs.zip (lfnSlots name (lfnChecksum sn) nlfn nlfn ++
        [withCluster (direntBytes sn attr (d.clock 0).1 (d.clock 0).2) c]))).tick := by
  have hzip := fun e : Slot => zip_snoc (m := lfnSlots name (lfnChecksum sn) nlfn nlfn) e (by rw [lfnSlots_length]; exact ha)
  unfold Disk.fill entrySet
  rw [hzip, hzip, putSlots_append, putSlots_append]
  exact congrArg Disk.tick (put_cluster (direntBytes_length hsn attr _ _) c)

/-- A new entry for a directory, with the cluster that it will lead to. -/
structure Entered (v : Vol) (dir : Nat) (comp : List UInt8) (d : Disk) (a : Addr) (d' : Disk) : Prop where
  ok : v.DiskOk d'
  within : v.Within a direntSize
  place : a.region ∈ regions v d' dir
  good : DirGood v d' dir
  from_free : ∀ r ∈ regions v d' dir, r ∈ regions v d dir ∨ ¬ Taken v d r
  found : ∀ c < 65536, ∃ en, lookup v (d'.put (a.plus 26) (le 2 c)) dir comp = some en ∧ en.isDir = true ∧ en.first = c
  kept : ∀ r, Taken v d r → r ∉ regions v d dir → Intact d d' r

theorem dirCreate_found (hv : v.Std) (hd : v.DiskOk d) (hgood : DirGood v d dir) (htail : Tailed (slots v d dir))
    (hne : comp ≠ []) (hlen : comp.length ≤ maxName) (h0 : 0 ∉ comp) (hnone : lookup v d dir comp = none) :
    Wp v (dirCreate v dir comp attrDir) (fun r d' => v.DiskOk d' ∧ ∀ a, r = some a → Entered v dir comp d a d') d := by
  have hper := hv.per
  have hcount := hv.count
  have hcreate : CreateOk v d dir comp := createOk_of_taken hd (by omega) (highTaken_of_small (by omega))
  refine Prog.wpe_mono (dirCreate_spec hd) (fun r d' h => ?_) fun _ h => h hcreate
  obtain ⟨-, hd', found, d1, hrun, h⟩ := h
  refine ⟨hd', fun a ha => ?_⟩
  obtain ⟨start, hstart, hslot, rfl⟩ : ∃ start, found = some start ∧
      (dirAddrs v d1 dir)[start + (newName v d dir comp).2]? = some a ∧
      d' = d1.fill ((dirAddrs v d1 dir).drop start) comp (newName v d dir comp).1 (newName v d dir comp).2 attrDir := by
    rcases h with ⟨-, rfl, -⟩ | ⟨start, a', rfl, rfl, h1, h2⟩
    · cases ha
    · cases ha
      exact ⟨start, rfl, h1, h2⟩
  subst hstart
  have hscan := scan_spec hv hd hgood (Nat.succ_pos (newName v d dir comp).2)
  obtain ⟨r, s, hrun', k, hgrows, hscan⟩ := Prog.run_of_wp hscan
  rw [scanned, hrun'] at hrun
  cases hrun
  have hfree : FreeRun (freeFlags v d1 dir) start ((newName v d dir comp).2 + 1) := by
    rcases hscan with ⟨h, -⟩ | ⟨start', h, -, hfree⟩
    · cases h
    · cases h
      exact hfree
  -- the directory as it has grown: zero slots behind the old ones
  have hgood1 := hgrows.good hv hgood
  obtain ⟨hback, hkept⟩ := hgrows.regions hv hgood
  obtain ⟨z, hz, -, hzero⟩ := hgrows.slots hv hgood
  have hz0 : ∀ x ∈ z, at' x.2 0 = 0 := fun x hx => by
    rw [hzero x hx]
    rfl
  have htail1 : Tailed (slots v d1 dir) := by
    rw [hz]
    exact List.pairwise_append.mpr ⟨htail, List.pairwise_of_forall_mem_list fun _ _ y hy _ => hz0 y hy,
      fun _ _ y hy _ => hz0 y hy⟩
  have hnone1 : (entriesFrom .init (slots v d1 dir)).find? (·.named comp) = none := by
    rw [hz, entriesFrom_zeros_right _ hz0]
    exact hnone
  -- the entry set that is put there
  have hlive : LiveName (newName v d dir comp).1 := shortName_live (fun sn => shortUsed sn (slots v d dir)) comp
  have hnlfn : (newName v d dir comp).2 = 0 ∨ (newName v d dir comp).2 = (comp.length + lfnChars - 1) / lfnChars := by
    show lfnCount _ comp = 0 ∨ lfnCount _ comp = _
    unfold lfnCount
    split
    · exact .inr rfl
    · exact .inl rfl
  have hnamed : ∀ {e : Slot} (st : LfnState), IsDirent e (newName v d dir comp).1 attrDir →
      (Entry.mk a e (newLong st comp (newName v d dir comp).2 e)).named comp = true := fun st he => newEntry_named hne he
  generalize newName v d dir comp = new at *
  obtain ⟨sn, nlfn⟩ := new
  simp only at *
  have ha : a ∈ dirAddrs v d1 dir := List.mem_of_getElem? hslot
  have hdrop : ((dirAddrs v d1 dir).drop start)[nlfn]? = some a := by
    rw [List.getElem?_drop]
    exact hslot
  obtain ⟨hgood2, hregions⟩ := hgood1.congr_fat hv (fill_fat d1 ((dirAddrs v d1 dir).drop start) comp sn nlfn attrDir)
  refine ⟨hd', dirAddrs_within ha, ?_, hgood2, ?_, fun c hc => ?_, fun r htaken hr => ?_⟩
  · rw [hregions]
    exact (dirAddrs_region ha).1
  · rw [hregions]
    exact hback
  · have hdirent : IsDirent (direntBytes sn attrDir (d1.clock 0).1 (d1.clock 0).2) sn attrDir :=
      direntBytes_isDirent _ _ hlive.length
    have hnew := hdirent.withCluster c
    have hdisk := fill_cluster d1 comp sn attrDir hdrop hlive.length c
    generalize direntBytes sn attrDir (d1.clock 0).1 (d1.clock 0).2 = e at *
    have hset : ∀ (st : LfnState) (r : List (Addr × Slot)), entriesFrom st (((dirAddrs v d1 dir).drop start).zip
        (lfnSlots comp (lfnChecksum sn) nlfn nlfn ++ [withCluster e c]) ++ r) =
        ⟨a, withCluster e c, newLong st comp nlfn (withCluster e c)⟩ :: entriesFrom .init r :=
      fun st r => (entriesFrom_set hnew hlive (.inr rfl) h0 hlen hnlfn hdrop r).2
    have hsize : (lfnSlots comp (lfnChecksum sn) nlfn nlfn ++ [withCluster e c]).length = nlfn + 1 := by
      rw [List.length_append, lfnSlots_length, List.length_singleton]
    have hall : ∀ f ∈ lfnSlots comp (lfnChecksum sn) nlfn nlfn ++ [withCluster e c], f.length = direntSize := fun f hf => by
      rcases List.mem_append.mp hf with hf | hf
      · exact lfnSlots_size hf
      · rw [List.mem_singleton.mp hf]
        exact hnew.length
    have hslots := slots_putSlots hv hgood1 start (by rw [hsize, ← freeFlags_length]; exact hfree.fits) hall
    rw [hsize] at hslots
    obtain ⟨st, hfind⟩ := find_inserted htail1 hfree (Nat.succ_pos nlfn) hset (fun st => hnamed st hnew) hnone1
    refine ⟨⟨a, withCluster e c, newLong st comp nlfn (withCluster e c)⟩, ?_, ?_,
      direntCluster_withCluster hdirent.length hc⟩
    · rw [hdisk, lookup, entries, slots_tick, hslots]
      exact hfind
    · show at' (withCluster e c) 11 &&& attrDir != 0
      rw [hnew.attr]
      rfl
  · refine (hkept r htaken hr).2.trans (Intact.trans (putSlots_kept fun x hx => ?_) ⟨rfl, fun _ => rfl⟩)
    have hregion := (dirAddrs_region (List.mem_of_mem_drop (List.of_mem_zip hx).1)).1
    rintro rfl
    exact (hkept _ htaken hr).1 hregion

/-- The directory `c` that was made in `dir` for `comp`. -/
structure Made (v : Vol) (dir : Nat) (comp : List UInt8) (d : Disk) (c : Nat) (d' : Disk) : Prop where
  fresh : Fresh v d' c
  found : ∃ en, lookup v d' dir comp = some en ∧ en.isDir = true ∧ en.first = c
  good : DirGood v d' dir
  apart : c ∉ regions v d' dir
  untaken : ¬ Taken v d c
  kept : ∀ r, Taken v d r → r ∉ regions v d dir → Intact d d' r

theorem makeDir_spec (hv : v.Std) (hd : v.DiskOk d) (hgood : DirGood v d dir) (htail : Tailed (slots v d dir))
    (hne : comp ≠ []) (hlen : comp.length ≤ maxName) (h0 : 0 ∉ comp) (hnone : lookup v d dir comp = none) :
    Wp v (makeDir v dir comp) (fun r d' => v.DiskOk d' ∧ ∀ c, r = .ok c → Made v dir comp d c d') d := by
  unfold makeDir
  refine Prog.wp_seq (fatAlloc_spec hd) fun c d1 h => ?_
  by_cases hc : c = 0
  · rw [if_pos hc]
    exact ⟨h.ok hd, fun _ h => by cases h⟩
  have hd1 := h.ok hd
  rw [if_neg hc]
  obtain ⟨hvalid, hfree, rfl⟩ := h.resolve_left fun h => hc h.1
  have huntaken : ¬ Taken v d c := not_not_intro ⟨hvalid, hfree⟩
  have hother : ∀ r, Taken v d r → r ≠ c := by
    rintro r htaken rfl
    exact huntaken htaken
  obtain ⟨hgood1, hregions1, hslots1⟩ := hgood.kept hv fun r hr => alloc_kept (v := v) (hother r (hgood.taken r hr))
  refine Prog.wp_seq (dirCreate_found hv hd1 hgood1 (by rw [hslots1]; exact htail) hne hlen h0
    (by rw [lookup_congr hslots1]; exact hnone)) fun r d2 h => ?_
  obtain ⟨hd2, hentered⟩ := h
  cases r with
  | none => exact ⟨hvalid, setFat_ok hd2 c _, fun _ h => by cases h⟩
  | some a =>
    have hent := hentered a rfl
    have hzero : ∀ k < v.clusterBytes, (d.alloc v c).mem c k = 0 := fun k hk => by simp [Disk.alloc, Disk.put, hk, at']
    have hfat1 : (d.alloc v c).fat c = 0xFFFF := if_pos rfl
    have hkept1 : ∀ r, r ≠ c → Intact d (d.alloc v c) r := fun r hr => alloc_kept hr
    generalize d.alloc v c = d1 at *
    -- the new cluster is no part of the directory, which may have grown
    have htaken1 : Taken v d1 c := fun h => by
      rw [hfat1] at h
      cases h.2
    have hout1 : c ∉ regions v d1 dir := fun hmem => by
      rw [hregions1] at hmem
      exact huntaken (hgood.taken c hmem)
    have hout : c ∉ regions v d2 dir := fun hmem => (hent.from_free c hmem).elim hout1 fun h => h htaken1
    have hkeptC := hent.kept c htaken1 hout1
    have hper := hv.per
    have hb := hv.bytes
    have h1 : v.Within ⟨c, 0⟩ direntSize := by simpa using cluster_within (i := 0) hvalid (by omega)
    have h2 : v.Within ⟨c, direntSize⟩ direntSize := by simpa using cluster_within (i := 1) hvalid (by omega)
    refine wp_store (within_plus hent.within (by simp [direntSize])) ?_
    have hfound := hent.found c (by have := hvalid.2; have := hv.count; omega)
    have hne3 : c ≠ (a.plus 26).region := fun heq => hout (heq ▸ hent.place)
    have hkept3 : Intact d1 (d2.put (a.plus 26) (le 2 c)) c := hkeptC.trans (put_kept hne3)
    have hfat3 : (d2.put (a.plus 26) (le 2 c)).fat = d2.fat := rfl
    have hhint3 : (d2.put (a.plus 26) (le 2 c)).hint = d2.hint := rfl
    have hput : ∀ r, r ∉ regions v d2 dir → Intact d2 (d2.put (a.plus 26) (le 2 c)) r := fun r hr => put_kept fun heq => hr
      (heq ▸ hent.place)
    generalize d2.put (a.plus 26) (le 2 c) = d3 at *
    refine Prog.wp_seq (dotEntry_spec h1 (by decide)) fun _ d4 h => ?_
    obtain ⟨hfat4, hhint4, hmem4, hdot⟩ := h
    refine Prog.wp_seq (dotEntry_spec h2 (by decide)) fun _ d5 h => ?_
    obtain ⟨hfat5, hhint5, hmem5, hdots⟩ := h
    unfold direntSize at hb hmem4 hmem5
    have hzero3 : ∀ k < v.clusterBytes, d3.mem c k = 0 := fun k hk => (hkept3.mem k).trans (hzero k hk)
    have hfat : d5.fat = d2.fat := hfat5.trans (hfat4.trans hfat3)
    have hkept5 : ∀ r, r ≠ c → Intact d3 d5 r := fun r hr =>
      ⟨by rw [hfat5, hfat4], fun k => (hmem5 r k (.inl hr)).trans (hmem4 r k (.inl hr))⟩
    obtain ⟨hgood5, hregions5⟩ := hent.good.congr_fat hv hfat
    obtain ⟨hgood3, hregions3⟩ := hent.good.congr_fat hv hfat3
    obtain ⟨-, -, hslots5⟩ := hgood3.kept hv fun r hr => hkept5 r (by
      rintro rfl
      exact hout (hregions3 ▸ hr))
    have hfresh : Fresh v d5 c := by
      refine fresh_of hv hvalid ?_ ?_ (hdots ?_) fun k hk hlt => ?_
      · rw [hfat, hkeptC.fat, hfat1]
      · have hsame : d5.get ⟨c, 0⟩ direntSize = d4.get ⟨c, 0⟩ direntSize := get_congr fun k _ hk => hmem5 c k (.inr (.inl (by
          simp only [direntSize] at hk
          omega)))
        rw [hsame]
        exact hdot (hzero3 _ (by omega))
      · rw [hmem4 c _ (by simp only [direntSize]; omega)]
        exact hzero3 _ (by simp only [direntSize]; omega)
      · simp only [direntSize] at hk
        rw [hmem5 c k (by omega), hmem4 c k (by omega)]
        exact hzero3 k hlt
    refine ⟨⟨by rw [hhint5, hhint4, hhint3]; exact hd2.hint⟩, fun c' hc' => ?_⟩
    cases hc'
    refine ⟨hfresh, ?_, hgood5, by rw [hregions5]; exact hout, huntaken, fun r htaken hr => ?_⟩
    · rw [lookup_congr hslots5]
      exact hfound
    · have hrc := hother r htaken
      have htakenr : Taken v d1 r := fun h => htaken ⟨h.1, (hkept1 r hrc).fat ▸ h.2⟩
      have hr1 : r ∉ regions v d1 dir := hregions1 ▸ hr
      have hr2 : r ∉ regions v d2 dir := fun hmem => (hent.from_free r hmem).elim hr1 fun h => h htakenr
      exact (((hkept1 r hrc).trans (hent.kept r htakenr hr1)).trans (hput r hr2)).trans (hkept5 r hrc)

/-- A component that `fat_mkdirs` can make. -/
structure Plain (comp : List UInt8) : Prop where
  nonempty : comp ≠ []
  noNul : 0 ∉ comp
  notDots : ¬ IsDots comp

/-- What a run of the loop that leads from `dir` to `dir'` leaves: a walk leads there too, and all but the directories `l` is
    kept. -/
structure Led (v : Vol) (comps : List (List UInt8)) (dir : Nat) (l : List Nat) (d : Disk) (dir' : Nat) (d' : Disk) : Prop where
  walk : walk v d' comps dir = some dir'
  kept : ∀ r, Taken v d r → (∀ x ∈ l, r ∉ regions v d x) → Intact d d' r

theorem findIn_of_lookup {en : Entry} (hne : comp ≠ []) (hlen : ¬ maxName < comp.length) (h : lookup v d dir comp = some en) :
    findIn v d dir comp = some en := by
  rw [findIn, if_neg fun hor => hor.elim hne hlen, h]

/-- A component that is found leads on. -/
theorem walk_found {en : Entry} {comps : List (List UInt8)} (hne : comp ≠ []) (hlen : ¬ maxName < comp.length)
    (h : lookup v d dir comp = some en) (hdir : en.isDir = true) : walk v d (comp :: comps) dir = walk v d comps en.first := by
  rw [walk, findIn_of_lookup hne hlen h, Option.bind_some, if_pos hdir]

theorem Led.refl (hdir : Nat) (l : List Nat) : Led v [] hdir l d hdir d := ⟨rfl, fun r _ _ => .refl d r⟩

theorem regions_cluster {c : Nat} (hc : v.Valid c) : regions v d c = clusters v d c := if_neg (by have := hc.1; omega)

/-- A directory that was made, and a run from there. -/
theorem Made.led {c dir' : Nat} {d1 d' : Disk} {comps : List (List UInt8)} (hv : v.Std) (hne : comp ≠ [])
    (hlen : ¬ maxName < comp.length) (h : Made v dir comp d c d1) (h' : Led v comps c [c] d1 dir' d') :
    Led v (comp :: comps) dir [dir] d dir' d' := by
  have hsingle : regions v d1 c = [c] := (regions_cluster h.fresh.ended.1).trans h.fresh.single
  have hkept : ∀ r, Taken v d1 r → r ≠ c → Intact d1 d' r := fun r htaken hrc => h'.kept r htaken fun x hx => by
    rw [List.mem_singleton.mp hx, hsingle, List.mem_singleton]
    exact hrc
  obtain ⟨en, hlookup, hdir, hfirst⟩ := h.found
  obtain ⟨-, -, hslots⟩ := h.good.kept hv fun r hr => hkept r (h.good.taken r hr) (by
    rintro rfl
    exact h.apart hr)
  refine ⟨?_, fun r htaken hr => ?_⟩
  · rw [walk_found hne hlen ((lookup_congr hslots comp).trans hlookup) hdir, hfirst]
    exact h'.walk
  · have hkept1 := h.kept r htaken (hr dir (List.mem_singleton_self dir))
    refine hkept1.trans (hkept r (fun hfree => htaken ⟨hfree.1, hkept1.fat ▸ hfree.2⟩) ?_)
    rintro rfl
    exact h.untaken htaken

theorem enterDir_missing (hv : v.Std) (path : List UInt8) (hcomp : Plain comp) (hd : v.DiskOk d) (hgood : DirGood v d dir)
    (htail : Tailed (slots v d dir)) (hnone : lookup v d dir comp = none) :
    Wp v (enterDir v path dir comp)
      (fun r d' => v.DiskOk d' ∧ ∀ c, r = .ok c → ¬ maxName < comp.length ∧ Made v dir comp d c d') d := by
  unfold enterDir
  rw [if_neg hcomp.nonempty]
  by_cases hlong : maxName < comp.length
  · rw [if_pos hlong]
    exact ⟨hd, fun _ h => by cases h⟩
  rw [if_neg hlong]
  refine find_spec (fun _ => ?_) fun en hen => by rw [hnone] at hen; cases hen
  refine Prog.wp_mono (makeDir_spec hv hd hgood htail hcomp.nonempty (by omega) hcomp.noNul hnone) fun r d' h => ?_
  exact ⟨h.1, fun c hc => ⟨hlong, h.2 c hc⟩⟩

/-- A component that is missing is made, and the rest in it. -/
theorem mkdirsLoop_step (hv : v.Std) (path : List UInt8) {comps : List (List UInt8)} (hcomp : Plain comp) (hd : v.DiskOk d)
    (hgood : DirGood v d dir) (htail : Tailed (slots v d dir)) (hnone : lookup v d dir comp = none)
    (hrest : ∀ c d1, v.DiskOk d1 → Fresh v d1 c → Wp v (mkdirsLoop v path comps c)
      (fun r d' => v.DiskOk d' ∧ ∀ dir', r = .ok dir' → Led v comps c [c] d1 dir' d') d1) :
    Wp v (mkdirsLoop v path (comp :: comps) dir)
      (fun r d' => v.DiskOk d' ∧ ∀ dir', r = .ok dir' → Led v (comp :: comps) dir [dir] d dir' d') d := by
  unfold mkdirsLoop
  refine Prog.wp_seq (enterDir_missing hv path hcomp hd hgood htail hnone) fun r d1 h => ?_
  cases r with
  | error e => exact ⟨h.1, fun _ h => by cases h⟩
  | ok c =>
    obtain ⟨hlen, hmade⟩ := h.2 c rfl
    refine Prog.wp_mono (hrest c d1 h.1 hmade.fresh) fun r d' h' => ⟨h'.1, fun dir' heq => ?_⟩
    exact hmade.led hv hcomp.nonempty hlen (h'.2 dir' heq)

/-- In a new directory all components are made. -/
theorem mkdirsLoop_fresh (hv : v.Std) (path : List UInt8) (comps : List (List UInt8)) (hplain : ∀ comp ∈ comps, Plain comp)
    (c : Nat) (d : Disk) (hd : v.DiskOk d) (hfresh : Fresh v d c) :
    Wp v (mkdirsLoop v path comps c)
      (fun r d' => v.DiskOk d' ∧ ∀ dir', r = .ok dir' → Led v comps c [c] d dir' d') d := by
  induction comps generalizing c d with
  | nil =>
    refine ⟨hd, fun dir' heq => ?_⟩
    cases heq
    exact .refl c [c]
  | cons comp comps ih =>
    have hcomp := hplain comp (List.mem_cons_self ..)
    exact mkdirsLoop_step hv path hcomp hd (.inr hfresh.ended) hfresh.tail (hfresh.empty comp hcomp.notDots)
      (ih fun x hx => hplain x (List.mem_cons_of_mem _ hx))

end Make

/-! ## Directories on the way -/

section Way

variable {v : Vol} {d : Disk} {dir : Nat}

/-- The directories in which the components of a path are looked up, as far as they are there. -/
def trail (v : Vol) (d : Disk) : List (List UInt8) → Nat → List Nat
  | [], _ => []
  | comp :: comps, dir => dir :: match lookup v d dir comp with
      | none => []
      | some en => if en.isDir then trail v d comps en.first else []

/-- The directories on the way are chains that end, with nothing behind their end marks, and share no cluster. -/
structure InOrder (v : Vol) (d : Disk) (comps : List (List UInt8)) (dir : Nat) : Prop where
  good : ∀ x ∈ trail v d comps dir, DirGood v d x
  tail : ∀ x ∈ trail v d comps dir, Tailed (slots v d x)
  apart : (trail v d comps dir).Pairwise fun x y => ∀ r ∈ regions v d x, r ∉ regions v d y

/-- Where the directories on the way are in order, the walk leads where the loop led. -/
theorem mkdirsLoop_led (hv : v.Std) (path : List UInt8) (comps : List (List UInt8)) (hplain : ∀ comp ∈ comps, Plain comp)
    (hd : v.DiskOk d) (h : InOrder v d comps dir) :
    Wp v (mkdirsLoop v path comps dir)
      (fun r d' => v.DiskOk d' ∧ ∀ dir', r = .ok dir' → Led v comps dir (trail v d comps dir) d dir' d') d := by
  induction comps generalizing dir with
  | nil =>
    refine ⟨hd, fun dir' heq => ?_⟩
    cases heq
    exact .refl dir _
  | cons comp comps ih =>
    obtain ⟨hgoods, htails, hapart⟩ := h
    have hcomp := hplain comp (List.mem_cons_self ..)
    have hgood := hgoods dir (List.mem_cons_self ..)
    have hrest : ∀ x ∈ comps, Plain x := fun x hx => hplain x (List.mem_cons_of_mem _ hx)
    cases hlookup : lookup v d dir comp with
    | none =>
      have htrail : trail v d (comp :: comps) dir = [dir] := by rw [trail, hlookup]
      rw [htrail]
      exact mkdirsLoop_step hv path hcomp hd hgood (htails dir (List.mem_cons_self ..)) hlookup
        (mkdirsLoop_fresh hv path comps hrest)
    | some en =>
      unfold mkdirsLoop enterDir
      rw [if_neg hcomp.nonempty]
      by_cases hlong : maxName < comp.length
      · rw [if_pos hlong]
        exact ⟨hd, fun _ h => by cases h⟩
      rw [if_neg hlong]
      refine Prog.wp_bind (find_spec (fun hnone => ?_) fun en' hen' hin hslot => wp_load hin fun e he => ?_)
      · rw [hlookup] at hnone
        cases hnone
      rw [hlookup] at hen'
      cases hen'
      rw [he, ← hslot]
      by_cases hdir : en.isDir = true
      · have htrail : trail v d (comp :: comps) dir = dir :: trail v d comps en.first := by
          rw [trail, hlookup]
          simp only [hdir, if_true]
        rw [htrail] at hgoods htails hapart ⊢
        rw [if_neg (by simp [show isDir en.slot = true from hdir])]
        obtain ⟨hout, hapart⟩ := List.pairwise_cons.mp hapart
        show Wp v (mkdirsLoop v path comps en.first) _ d
        refine Prog.wp_mono (ih hrest ⟨fun x hx => hgoods x (List.mem_cons_of_mem _ hx),
          fun x hx => htails x (List.mem_cons_of_mem _ hx), hapart⟩) fun r d' h => ⟨h.1, fun dir' heq => ?_⟩
        -- the directory itself is not among those that follow
        have hled := h.2 dir' heq
        obtain ⟨-, -, hslots⟩ := hgood.kept hv fun r hr => hled.kept r (hgood.taken r hr) fun x hx => hout x hx r hr
        refine ⟨?_, fun r htaken hr => hled.kept r htaken fun x hx => hr x (List.mem_cons_of_mem _ hx)⟩
        rw [walk_found hcomp.nonempty hlong ((lookup_congr hslots comp).trans hlookup) hdir]
        exact hled.walk
      · rw [if_pos (by simp [show ¬ isDir en.slot = true from hdir])]
        exact ⟨hd, fun _ h => by cases h⟩

end Way

end Be300.Fat
