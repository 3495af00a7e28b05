/-
  Be300.Fat.Confinement — reading and writing files of an untrusted image.

  On any disk at all, with whatever in its FAT, directories and files, `fat_read` and
  `fat_write_file` terminate and make only allowed accesses, with one exception:
  `dir_create` walks again to the slots of the run it found, and writes through a null
  pointer where the directory's chain does not reach them (`CreateOk`). `WriteOk` says of
  a whole call that its entry sets are all there when they are filled. It is so where the
  file is there already, and where no cluster is free whose number does not fit a FAT entry
  (`HighTaken`); a volume of at most 65534 clusters has none of those.
-/

import Be300.Fat.Scan

namespace Be300.Fat

open Be300.Lib (Prog rd le_length at')

/-- What a program does on a disk. -/
abbrev FatM.on {α : Type} (p : FatM α) (d : Disk) : Except Fault (α × Disk) := p.run (Prog.total diskStep) d

/-! ## The condition -/

def EnterOk (v : Vol) (d : Disk) (dir : Nat) (comp : List UInt8) : Prop :=
  comp ≠ [] → comp.length ≤ maxName → lookup v d dir comp = none →
    ∀ c d1, (fatAlloc v).on d = .ok (c, d1) → c ≠ 0 → CreateOk v d1 dir comp

/-- Every directory of the path that is made. -/
def DirsOk (v : Vol) (path : List UInt8) : List (List UInt8) → Nat → Disk → Prop
  | [], _, _ => True
  | comp :: comps, dir, d =>
    EnterOk v d dir comp ∧ ∀ dir' d', (enterDir v path dir comp).on d = .ok (.ok dir', d') → DirsOk v path comps dir' d'

/-- The file, if its entry is made. -/
def LeafOk (v : Vol) (d : Disk) (dir : Nat) (leaf : List UInt8) (len : Nat) : Prop :=
  leaf.length ≤ maxName → lookup v d dir leaf = none → v.clustersFor len + 1 ≤ freeCount d v.clusterCount 2 →
    CreateOk v d dir leaf

/-- Every entry set that writing the file makes gets slots of its directory. -/
def WriteOk (v : Vol) (d : Disk) (path : List UInt8) (len : Nat) : Prop :=
  len < maxLen → DirsOk v path (splitPath path).1 0 d ∧
    ∀ dir leaf d', (fatMkdirs v path).on d = .ok (.ok (dir, leaf), d') → LeafOk v d' dir leaf len

/-! ## Any disk -/

section Safe

variable {v : Vol} {d : Disk}

/-- Only the bytes of the times change. -/
theorem setTime_spec {a : Addr} (hin : v.Within a direntSize) :
    Wp v (direntSetTime a) (fun _ d' => d'.fat = d.fat ∧ d'.hint = d.hint ∧
      ∀ r k, r ≠ a.region ∨ k < a.off + 14 ∨ a.off + 26 ≤ k → d'.mem r k = d.mem r k) d := by
  unfold direntSetTime
  refine Prog.wp_bind ⟨trivial, wp_store ?_ ⟨?_, rfl, rfl, fun r k hk => ?_⟩⟩
  · exact within_plus hin (by simp [direntSize])
  · exact within_plus hin (by simp [direntSize])
  · simp only [diskStep, Disk.put, Addr.plus, List.length_append, le_length]
    rw [if_neg (by omega), if_neg (by omega)]

theorem setTime_safe {a : Addr} (ha : v.Within a direntSize) (hd : v.DiskOk d) :
    Wp v (direntSetTime a) (fun _ d' => v.DiskOk d') d := by
  refine Prog.wp_mono (setTime_spec ha) fun _ d' h => ⟨?_⟩
  rw [h.2.1]
  exact hd.hint

theorem dotEntry_safe {c off cluster : Nat} {name : List UInt8} (hin : v.Within ⟨c, off⟩ direntSize) (hname : name.length ≤ 11)
    (hd : v.DiskOk d) : Wp v (dotEntry c off name cluster) (fun _ d' => v.DiskOk d') d := by
  unfold dotEntry
  refine wp_store ?_ (Prog.wp_seq (setTime_safe hin ⟨hd.hint⟩) fun _ d1 hd1 => ⟨?_, ⟨hd1.hint⟩⟩)
  · have := within_plus (m := 0) (k := 12) hin (by decide)
    simpa [padTo_length hname, Addr.plus] using this
  · exact within_plus (a := ⟨c, off⟩) hin (by simp [direntSize])

theorem makeDir_safe {dir : Nat} {comp : List UInt8} (hd : v.DiskOk d) (hper : 2 ≤ v.per) :
    Wpe v (makeDir v dir comp)
      (fun _ d' => v.DiskOk d' ∧ ∀ c d1, (fatAlloc v).on d = .ok (c, d1) → c ≠ 0 → CreateOk v d1 dir comp)
      (fun _ => ¬ ∀ c d1, (fatAlloc v).on d = .ok (c, d1) → c ≠ 0 → CreateOk v d1 dir comp) d := by
  unfold makeDir
  refine Prog.wp_seq (Prog.wp_self (fatAlloc_spec hd)) fun c d1 h => ?_
  obtain ⟨halloc, hrun⟩ := h
  have hd1 := halloc.ok hd
  have hiff : (∀ c' d', (fatAlloc v).on d = .ok (c', d') → c' ≠ 0 → CreateOk v d' dir comp) ↔
      (c ≠ 0 → CreateOk v d1 dir comp) := by
    rw [FatM.on, hrun]
    refine ⟨fun h => h c d1 rfl, fun h c' d' heq => ?_⟩
    cases heq
    exact h
  rw [hiff]
  by_cases hc : c = 0
  · rw [if_pos hc]
    exact ⟨hd1, fun h => absurd hc h⟩
  · have hvalid : v.Valid c := by
      rcases halloc with ⟨h, -, -⟩ | ⟨h, -, -⟩
      · exact absurd h hc
      · exact h
    rw [if_neg hc]
    refine Prog.wp_bind (Prog.wpe_mono (dirCreate_spec hd1) (fun r d2 h => ?_) fun _ h hno => h (hno hc))
    obtain ⟨hok, hd2, found, d3, -, h⟩ := h
    rcases h with ⟨-, rfl, -⟩ | ⟨start, a, -, rfl, ha, -⟩
    · exact ⟨hvalid, ⟨hd2.hint⟩, fun _ => hok⟩
    · have hin : v.Within a direntSize := dirAddrs_within (List.mem_of_getElem? ha)
      have h0 : v.Within ⟨c, 0⟩ direntSize := by simpa using cluster_within (i := 0) hvalid (by omega)
      have h1 : v.Within ⟨c, direntSize⟩ direntSize := by simpa using cluster_within (i := 1) hvalid (by omega)
      refine wp_store (within_plus hin (by simp [direntSize])) ?_
      refine Prog.wp_seq (dotEntry_safe h0 (by decide) ⟨hd2.hint⟩) fun _ d4 hd4 => ?_
      refine Prog.wp_seq (dotEntry_safe h1 (by decide) hd4) fun _ d5 hd5 => ?_
      exact ⟨hd5, fun _ => hok⟩

theorem enterDir_safe (path : List UInt8) {comp : List UInt8} {dir : Nat} (hd : v.DiskOk d) (hper : 2 ≤ v.per) :
    Wpe v (enterDir v path dir comp) (fun _ d' => v.DiskOk d' ∧ EnterOk v d dir comp) (fun _ => ¬ EnterOk v d dir comp) d := by
  unfold enterDir
  by_cases hempty : comp = []
  · rw [if_pos hempty]
    exact ⟨hd, fun h => absurd hempty h⟩
  rw [if_neg hempty]
  by_cases hlong : maxName < comp.length
  · rw [if_pos hlong]
    exact ⟨hd, fun _ h => absurd h (by omega)⟩
  rw [if_neg hlong]
  refine find_spec (fun hl => ?_) fun en hl hin _ => wp_load hin fun e _ => ?_
  · refine Prog.wpe_mono (makeDir_safe hd hper) (fun _ d' h => ⟨h.1, fun _ _ _ => h.2⟩) fun _ h hok => ?_
    exact h (hok hempty (by omega) hl)
  · have hok : EnterOk v d dir comp := fun _ _ h => by
      rw [hl] at h
      cases h
    split
    · exact ⟨hd, hok⟩
    · exact ⟨hd, hok⟩

theorem mkdirsLoop_safe {path : List UInt8} (comps : List (List UInt8)) (dir : Nat) (hd : v.DiskOk d) (hper : 2 ≤ v.per) :
    Wpe v (mkdirsLoop v path comps dir) (fun _ d' => v.DiskOk d' ∧ DirsOk v path comps dir d)
      (fun _ => ¬ DirsOk v path comps dir d) d := by
  induction comps generalizing dir d with
  | nil => exact ⟨hd, trivial⟩
  | cons comp comps ih =>
    unfold mkdirsLoop
    refine Prog.wp_bind (Prog.wpe_mono (Prog.wpe_self (enterDir_safe path hd hper)) (fun r d1 h => ?_) fun _ h hok => h.1 hok.1)
    obtain ⟨⟨hd1, hok⟩, hrun⟩ := h
    have hiff : DirsOk v path (comp :: comps) dir d ↔ ∀ dir', r = .ok dir' → DirsOk v path comps dir' d1 := by
      refine ⟨fun h dir' hr => h.2 dir' d1 (by rw [← hr]; exact hrun), fun h => ⟨hok, fun dir' d' hrun' => ?_⟩⟩
      rw [FatM.on, hrun] at hrun'
      cases hrun'
      exact h dir' rfl
    rw [hiff]
    cases r with
    | error e => exact ⟨hd1, fun dir' h => by cases h⟩
    | ok dir' =>
      refine Prog.wpe_mono (ih dir' hd1) (fun _ d' h => ⟨h.1, fun _ heq => ?_⟩) fun _ h hno => h (hno dir' rfl)
      cases heq
      exact h.2

/-! ### The file -/

theorem writeLoop_safe {data : List UInt8} (k i first prev : Nat) (hd : v.DiskOk d) (hprev : prev = 0 ∨ v.Valid prev) :
    Wp v (writeLoop v data k i first prev) (fun _ d' => v.DiskOk d') d := by
  induction k generalizing i first prev d with
  | zero => exact hd
  | succ k ih =>
    unfold writeLoop
    refine Prog.wp_seq (fatAlloc_spec hd) fun c d1 h => ?_
    have hd1 := h.ok hd
    by_cases hc : c = 0
    · rw [if_pos hc]
      exact hd1
    · have hvalid : v.Valid c := by
        rcases h with ⟨h, -, -⟩ | ⟨h, -, -⟩
        · exact absurd h hc
        · exact h
      have hin : v.Within ⟨c, 0⟩ (v.chunk data i).length := by
        refine ⟨.inr hvalid, ?_⟩
        have := List.length_take_le v.clusterBytes (data.drop (i * v.clusterBytes))
        simp only [Vol.span, hc, if_false, Nat.zero_add]
        exact this
      rw [if_neg hc]
      refine wp_store hin ?_
      by_cases hp : prev = 0
      · rw [if_neg (by simpa using hp)]
        exact ih _ _ _ ⟨hd1.hint⟩ (.inr hvalid)
      · rw [if_pos hp]
        exact Prog.wp_bind ⟨hprev.resolve_left hp, ih _ _ _ ⟨hd1.hint⟩ (.inr hvalid)⟩

theorem emptyFile_safe {ent : Addr} {e : Slot} (hin : v.Within ent direntSize) (hd : v.DiskOk d) :
    Wp v (emptyFile v ent e) (fun _ d' => v.DiskOk d') d := by
  unfold emptyFile
  refine Prog.wp_seq (freeLoop_spec _ _ hd) fun _ d1 h => wp_store ?_ ⟨?_, ⟨h.ok.hint⟩⟩
  · exact within_plus hin (by simp [direntSize])
  · exact within_plus hin (by simp [direntSize])

theorem fillFile_safe {path data : List UInt8} {e : Addr} (hin : v.Within e direntSize) (hd : v.DiskOk d) :
    Wp v (fillFile v path data e) (fun _ d' => v.DiskOk d') d := by
  unfold fillFile
  refine Prog.wp_seq (writeLoop_safe _ _ _ _ hd (.inl rfl)) fun r d1 hd1 => ?_
  cases r with
  | none => exact hd1
  | some first =>
    refine wp_store (within_plus hin (by simp [direntSize])) (wp_store (within_plus hin (by simp [direntSize])) ?_)
    exact Prog.wp_seq (setTime_safe hin ⟨hd1.hint⟩) fun _ d2 hd2 => hd2

theorem openLeaf_safe {path leaf : List UInt8} {dir : Nat} (hd : v.DiskOk d) :
    Wp v (openLeaf v path dir leaf) (fun r d' => v.DiskOk d' ∧
      ((lookup v d dir leaf = none ∧ r = .ok none ∧ d' = d) ∨
       (lookup v d dir leaf ≠ none ∧ ((∃ e, r = .error e) ∨ ∃ a, r = .ok (some a) ∧ v.Within a direntSize)))) d := by
  unfold openLeaf
  refine find_spec (fun hl => ⟨hd, .inl ⟨hl, rfl, rfl⟩⟩) fun en hl hin _ => wp_load hin fun e _ => ?_
  have hfound : lookup v d dir leaf ≠ none := by simp [hl]
  split
  · exact ⟨hd, .inr ⟨hfound, .inl ⟨_, rfl⟩⟩⟩
  · exact Prog.wp_seq (emptyFile_safe hin hd) fun _ d1 hd1 => ⟨hd1, .inr ⟨hfound, .inr ⟨en.addr, rfl, hin⟩⟩⟩

theorem writeLeaf_safe {path leaf data : List UInt8} {dir : Nat} (hd : v.DiskOk d) :
    Wpe v (writeLeaf v path dir leaf data) (fun _ d' => v.DiskOk d' ∧ LeafOk v d dir leaf data.length)
      (fun _ => ¬ LeafOk v d dir leaf data.length) d := by
  unfold writeLeaf
  by_cases hlong : maxName < leaf.length
  · rw [if_pos hlong]
    exact ⟨hd, fun h => absurd h (by omega)⟩
  rw [if_neg hlong]
  refine Prog.wp_seq (openLeaf_safe hd) fun r d1 h => ?_
  obtain ⟨hd1, ⟨hl, rfl, rfl⟩ | ⟨hl, h⟩⟩ := h
  · refine Prog.wp_seq (fatFreeClusters_spec v d1) fun n d2 h => ?_
    obtain ⟨rfl, rfl⟩ := h
    by_cases hfree : freeCount d2 v.clusterCount 2 < v.clustersFor data.length + 1
    · rw [if_pos hfree]
      exact ⟨hd, fun _ _ h => absurd h (by omega)⟩
    rw [if_neg hfree]
    refine Prog.wp_bind (Prog.wpe_mono (dirCreate_spec hd) (fun r d3 h => ?_) fun _ h hok => h (hok (by omega) hl (by omega)))
    obtain ⟨hok, hd3, found, d4, -, h⟩ := h
    have hleaf : LeafOk v d2 dir leaf data.length := fun _ _ _ => hok
    rcases h with ⟨-, rfl, -⟩ | ⟨start, a, -, rfl, ha, -⟩
    · exact ⟨hd3, hleaf⟩
    · have hin : v.Within a direntSize := dirAddrs_within (List.mem_of_getElem? ha)
      exact Prog.wpe_mono (fillFile_safe hin hd3) (fun _ _ h => ⟨h, hleaf⟩) fun _ h => h.elim
  · have hleaf : LeafOk v d dir leaf data.length := fun _ h => absurd h hl
    rcases h with ⟨e, rfl⟩ | ⟨a, rfl, hin⟩
    · exact ⟨hd1, hleaf⟩
    · refine Prog.wp_seq (fatFreeClusters_spec v d1) fun n d2 h => ?_
      obtain ⟨-, rfl⟩ := h
      split
      · exact ⟨hd1, hleaf⟩
      · exact Prog.wpe_mono (fillFile_safe hin hd1) (fun _ _ h => ⟨h, hleaf⟩) fun _ h => h.elim

theorem fatMkdirs_safe (path : List UInt8) (hd : v.DiskOk d) (hper : 2 ≤ v.per) :
    Wpe v (fatMkdirs v path) (fun _ d' => v.DiskOk d' ∧ DirsOk v path (splitPath path).1 0 d)
      (fun _ => ¬ DirsOk v path (splitPath path).1 0 d) d := by
  unfold fatMkdirs
  refine Prog.wp_bind (Prog.wp_mono (mkdirsLoop_safe _ 0 hd hper) fun r d1 h => ?_)
  cases r with
  | error e => exact h
  | ok dir =>
    dsimp only
    split <;> exact h

/-- Writing a file on any disk. -/
theorem fatWriteFile_safe (path data : List UInt8) (hd : v.DiskOk d) (hper : 2 ≤ v.per) :
    Wpe v (fatWriteFile v path data) (fun _ d' => v.DiskOk d' ∧ WriteOk v d path data.length)
      (fun _ => ¬ WriteOk v d path data.length) d := by
  unfold fatWriteFile
  by_cases hbig : maxLen ≤ data.length
  · rw [if_pos hbig]
    exact ⟨hd, fun h => absurd h (by omega)⟩
  rw [if_neg hbig]
  refine Prog.wp_bind (Prog.wpe_mono (Prog.wpe_self (fatMkdirs_safe path hd hper)) (fun r d1 h => ?_) fun _ h hok => h.1
    (hok (by omega)).1)
  obtain ⟨⟨hd1, hdirs⟩, hrun⟩ := h
  have hiff : WriteOk v d path data.length ↔ ∀ dir leaf, r = .ok (dir, leaf) → LeafOk v d1 dir leaf data.length := by
    refine ⟨fun h dir leaf hr => (h (by omega)).2 dir leaf d1 (by rw [← hr]; exact hrun), fun h _ =>
      ⟨hdirs, fun dir leaf d' hrun' => ?_⟩⟩
    rw [FatM.on, hrun] at hrun'
    cases hrun'
    exact h dir leaf rfl
  rw [hiff]
  cases r with
  | error e => exact ⟨hd1, fun _ _ h => by cases h⟩
  | ok p =>
    obtain ⟨dir, leaf⟩ := p
    refine Prog.wpe_mono (writeLeaf_safe hd1) (fun _ d' h => ⟨h.1, fun _ _ heq => ?_⟩) fun _ h hno => h (hno dir leaf rfl)
    cases heq
    exact h.2

/-! ### Disks whose free clusters fit a FAT entry -/

/-- No cluster is free whose number has more than 16 bits. -/
def HighTaken (v : Vol) (d : Disk) : Prop := ∀ c, v.Valid c → 65536 ≤ c → d.fat c ≠ 0

theorem highTaken_of_small (hcount : v.clusterCount + 2 ≤ 65536) : HighTaken v d := fun c hc hhigh => by
  have := hc.2
  omega

theorem HighTaken.congr {d' : Disk} (h : HighTaken v d) (hfat : d'.fat = d.fat) : HighTaken v d' := fun c hc hhigh => by
  rw [hfat]
  exact h c hc hhigh

theorem HighTaken.free_lt {c : Nat} (h : HighTaken v d) (hc : v.Valid c) (hfree : d.fat c = 0) : c < 65536 := by
  by_contra hhigh
  exact h c hc (by omega) hfree

theorem HighTaken.alloc (h : HighTaken v d) (n : Nat) : HighTaken v (d.alloc v n) := by
  intro c hc hhigh
  show (if c = n then fat16Eoc else d.fat c) ≠ 0
  split
  · decide
  · exact h c hc hhigh

theorem HighTaken.grow {t n : Nat} {d' : Disk} (h : HighTaken v d) (hgrow : Grow v t n d d') : HighTaken v d' := by
  have hn := h.free_lt hgrow.valid hgrow.free
  intro c hc hhigh
  rw [hgrow.eq]
  show (if c = t then n % 65536 else (d.alloc v n).fat c) ≠ 0
  split
  · have := hgrow.valid.1
    omega
  · exact h.alloc n c hc hhigh

/-- A link to a new cluster is followed by the walk. -/
theorem chainFrom_grow {t n : Nat} {d' : Disk} (hgrow : Grow v t n d d') (hn : n < 65536) (g : Nat) {c : Nat}
    (hlast : (chainFrom v d g c).getLast? = some t) (hlen : (chainFrom v d g c).length ≤ g) :
    chainFrom v d g c ++ [n] <+: chainFrom v d' g c := by
  have ht : d'.fat t = n := by
    rw [hgrow.eq]
    simp [Disk.setFat, Nat.mod_eq_of_lt hn]
  induction g generalizing c with
  | zero => simp [chainFrom] at hlen
  | succ g ih =>
    by_cases hnext : v.validCluster (d.fat c)
    · have hchain : chainFrom v d (g + 1) c = c :: chainFrom v d g (d.fat c) := by rw [chainFrom, if_pos hnext]
      have hlink := hgrow.links c (valid_iff.mp hnext)
      rw [hchain] at hlast hlen ⊢
      rw [chainFrom, hlink, if_pos hnext]
      refine (List.prefix_cons_inj c).mpr (ih ?_ (by simpa using hlen))
      obtain ⟨x, l, hl⟩ := List.exists_cons_of_ne_nil (chainFrom_ne_nil (v := v) (d := d) g (d.fat c))
      rw [hl, List.getLast?_cons_cons] at hlast
      rw [hl]
      exact hlast
    · have hchain : chainFrom v d (g + 1) c = [c] := by rw [chainFrom, if_neg hnext]
      rw [hchain] at hlast ⊢
      have hct : c = t := by simpa using hlast
      rw [chainFrom, hct, ht, if_pos (valid_iff.mpr hgrow.valid)]
      refine (List.prefix_cons_inj t).mpr ?_
      obtain ⟨l, hl⟩ : ∃ l, chainFrom v d' g n = n :: l := by
        cases g with
        | zero => exact ⟨[], rfl⟩
        | succ g => exact ⟨_, rfl⟩
      rw [hl]
      exact ⟨l, rfl⟩

theorem dirAddrs_grow {dir t n : Nat} {d' : Disk} (hgrow : Grow v t n d d') (hn : n < 65536) (hper : 0 < v.per)
    (hlast : (clusters v d dir).getLast? = some t) (hlen : (clusters v d dir).length ≤ v.clusterCount) :
    (dirAddrs v d dir).length < (dirAddrs v d' dir).length := by
  unfold clusters at hlast hlen
  by_cases hdir : v.validCluster dir
  · have hne : dir ≠ 0 := by have := (valid_iff.mp hdir).1; omega
    rw [if_pos hdir] at hlast hlen
    obtain ⟨l, hl⟩ := chainFrom_grow hgrow hn _ hlast hlen
    rw [dirAddrs_cluster hne, dirAddrs_cluster hne, slots_length, slots_length]
    unfold clusters
    rw [if_pos hdir, if_pos hdir, ← hl]
    simp only [List.length_append, List.length_singleton, Nat.add_mul]
    omega
  · rw [if_neg hdir] at hlast
    simp at hlast

/-- The run that the scan finds is in the directory. -/
theorem scanLoop_reaches (dir need : Nat) (fuel idx run start : Nat) (hd : v.DiskOk d) (hper : 0 < v.per)
    (htaken : HighTaken v d) (hidx : idx ≤ (dirAddrs v d dir).length)
    (hfuel : v.rootEntries + (v.clusterCount + 1) * v.per < fuel + idx) (hrun : run ≠ 0 → start + run = idx) :
    Wp v (scanLoop v dir need fuel idx run start) (fun r d' => HighTaken v d' ∧
      ∀ start', r = some start' → start' + need ≤ (dirAddrs v d' dir).length) d := by
  induction fuel generalizing idx run start d with
  | zero =>
    have := dirAddrs_length (v := v) (d := d) dir
    omega
  | succ fuel ih =>
    unfold scanLoop
    refine Prog.wp_seq (dirSlot_extends hd hper hidx) fun r d1 h => ?_
    -- the slot is there, in `d1`
    have hslot : v.DiskOk d1 ∧ HighTaken v d1 ∧ ∀ a, r = some a → idx < (dirAddrs v d1 dir).length ∧ v.Within a direntSize := by
      rcases h with ⟨rfl, rfl⟩ | ⟨heq, t, n, hlast, hgrow, ⟨rfl, hlen⟩ | ⟨rfl, -⟩⟩
      · exact ⟨hd, htaken, fun a ha => ⟨(List.getElem?_eq_some_iff.mp ha).1, dirAddrs_within (List.mem_of_getElem? ha)⟩⟩
      · refine ⟨hgrow.ok, htaken.grow hgrow, fun a ha => ?_⟩
        cases ha
        refine ⟨?_, by simpa using cluster_within (i := 0) hgrow.valid hper⟩
        rw [heq]
        exact dirAddrs_grow hgrow (htaken.free_lt hgrow.valid hgrow.free) hper hlast hlen
      · exact ⟨hgrow.ok, htaken.grow hgrow, by simp⟩
    obtain ⟨hd1, htaken1, hslot⟩ := hslot
    cases r with
    | none => exact ⟨htaken1, fun _ h => by cases h⟩
    | some a =>
      obtain ⟨hlt, hin⟩ := hslot a rfl
      refine wp_load hin fun e _ => ?_
      split
      · dsimp only
        have hstart : (if run = 0 then idx else start) + (run + 1) = idx + 1 := by
          split
          · omega
          · rename_i h
            have := hrun h
            omega
        split
        · rename_i hneed
          refine ⟨htaken1, fun start' heq => ?_⟩
          cases heq
          omega
        · exact ih _ _ _ hd1 htaken1 hlt (by omega) fun _ => hstart
      · exact ih _ _ _ hd1 htaken1 hlt (by omega) fun h => absurd rfl h

/-- The scan leaves the disk so, and its run is in the directory. -/
theorem scanned_reaches {dir need : Nat} {found : Option Nat} {d' : Disk} (hd : v.DiskOk d) (hper : 0 < v.per)
    (htaken : HighTaken v d)
    (hs : scanned v d dir need = .ok (found, d')) :
    HighTaken v d' ∧ ∀ start, found = some start → start + need ≤ (dirAddrs v d' dir).length := by
  have hscan := scanLoop_reaches dir need (dirFuel v) 0 0 0 hd hper htaken (Nat.zero_le _) (by unfold dirFuel; omega) fun h =>
    absurd rfl h
  obtain ⟨r, d1, hrun, hreach⟩ := Prog.run_of_wp hscan
  rw [scanned, hrun] at hs
  cases hs
  exact hreach

theorem createOk_of_taken {dir : Nat} {name : List UInt8} (hd : v.DiskOk d) (hper : 0 < v.per) (htaken : HighTaken v d) :
    CreateOk v d dir name := by
  intro start d' hs
  have := (scanned_reaches hd hper htaken hs).2 start rfl
  omega

theorem Allocated.taken {c : Nat} {d' : Disk} (h : Allocated v d c d') (htaken : HighTaken v d) : HighTaken v d' := by
  rcases h with ⟨-, rfl, -⟩ | ⟨-, -, rfl⟩
  · exact htaken
  · exact htaken.alloc c

theorem dotEntry_taken {c off cluster : Nat} {name : List UInt8} (hin : v.Within ⟨c, off⟩ direntSize) (hname : name.length ≤ 11)
    (hd : v.DiskOk d) (htaken : HighTaken v d) : Wp v (dotEntry c off name cluster)
      (fun _ d' => v.DiskOk d' ∧ HighTaken v d') d := by
  unfold dotEntry direntSetTime
  refine wp_store ?_ (Prog.wp_seq (Q := fun _ d' => v.DiskOk d' ∧ HighTaken v d')
    (Prog.wp_bind ⟨trivial, wp_store ?_ ⟨?_, ⟨hd.hint⟩, htaken.congr rfl⟩⟩)
    fun _ d1 h => ⟨?_, ⟨h.1.hint⟩, h.2.congr rfl⟩)
  · have := within_plus (m := 0) (k := 12) hin (by decide)
    simpa [padTo_length hname, Addr.plus] using this
  · exact within_plus (a := ⟨c, off⟩) hin (by simp [direntSize])
  · exact within_plus (a := ⟨c, off⟩) hin (by simp [direntSize])
  · exact within_plus (a := ⟨c, off⟩) hin (by simp [direntSize])

theorem makeDir_taken {dir : Nat} {comp : List UInt8} (hd : v.DiskOk d) (hper : 2 ≤ v.per) (htaken : HighTaken v d) :
    Wp v (makeDir v dir comp) (fun r d' => v.DiskOk d' ∧ ∀ dir', r = .ok dir' → HighTaken v d') d := by
  unfold makeDir
  refine Prog.wp_seq (fatAlloc_spec hd) fun c d1 halloc => ?_
  have hd1 := halloc.ok hd
  have htaken1 := halloc.taken htaken
  by_cases hc : c = 0
  · rw [if_pos hc]
    exact ⟨hd1, fun dir' h => by cases h⟩
  have hvalid : v.Valid c := by
    rcases halloc with ⟨h, -, -⟩ | ⟨h, -, -⟩
    · exact absurd h hc
    · exact h
  have hcreate : CreateOk v d1 dir comp := createOk_of_taken hd1 (by omega) htaken1
  rw [if_neg hc]
  refine Prog.wp_bind (Prog.wpe_mono (dirCreate_spec hd1) (fun r d2 h => ?_) fun _ h => absurd hcreate h)
  obtain ⟨-, hd2, found, d3, hscan, h⟩ := h
  have htaken3 := (scanned_reaches hd1 (by omega) htaken1 hscan).1
  rcases h with ⟨-, rfl, -⟩ | ⟨start, a, -, rfl, ha, rfl⟩
  · exact ⟨hvalid, ⟨hd2.hint⟩, fun dir' h => by cases h⟩
  have htaken2 :=
    htaken3.congr (fill_fat d3 ((dirAddrs v d3 dir).drop start) comp (newName v d1 dir comp).1 (newName v d1 dir comp).2 attrDir)
  have hin : v.Within a direntSize := dirAddrs_within (List.mem_of_getElem? ha)
  have h0 : v.Within ⟨c, 0⟩ direntSize := by simpa using cluster_within (i := 0) hvalid (by omega)
  have h1 : v.Within ⟨c, direntSize⟩ direntSize := by simpa using cluster_within (i := 1) hvalid (by omega)
  refine wp_store (within_plus hin (by simp [direntSize])) ?_
  refine Prog.wp_seq (dotEntry_taken h0 (by decide) ⟨hd2.hint⟩ (htaken2.congr rfl)) fun _ d4 h4 => ?_
  refine Prog.wp_seq (dotEntry_taken h1 (by decide) h4.1 h4.2) fun _ d5 h5 => ?_
  exact ⟨h5.1, fun _ _ => h5.2⟩

theorem enterDir_taken (path comp : List UInt8) (dir : Nat) (hd : v.DiskOk d) (hper : 2 ≤ v.per)
    (htaken : HighTaken v d) :
    Wp v (enterDir v path dir comp) (fun r d' => v.DiskOk d' ∧ ∀ dir', r = .ok dir' → HighTaken v d') d := by
  unfold enterDir
  split
  · exact ⟨hd, fun _ _ => htaken⟩
  split
  · exact ⟨hd, fun _ h => by cases h⟩
  refine find_spec (fun hl => makeDir_taken hd hper htaken) fun en hl hin _ => wp_load hin fun e _ => ?_
  split
  · exact ⟨hd, fun _ h => by cases h⟩
  · exact ⟨hd, fun _ _ => htaken⟩

theorem dirsOk_of_taken (path : List UInt8) (comps : List (List UInt8)) (dir : Nat) (hd : v.DiskOk d) (hper : 2 ≤ v.per)
    (htaken : HighTaken v d) :
    DirsOk v path comps dir d ∧
      Wp v (mkdirsLoop v path comps dir) (fun r d' => v.DiskOk d' ∧ ∀ dir', r = .ok dir' → HighTaken v d') d := by
  induction comps generalizing dir d with
  | nil => exact ⟨trivial, hd, fun _ _ => htaken⟩
  | cons comp comps ih =>
    have henter := enterDir_taken path comp dir hd hper htaken
    refine ⟨⟨fun _ _ _ c d1 hrun _ => ?_, fun dir' d' hrun => ?_⟩, ?_⟩
    · obtain ⟨c', d', hrun', halloc⟩ := Prog.run_of_wp (fatAlloc_spec hd)
      rw [FatM.on, hrun'] at hrun
      cases hrun
      exact createOk_of_taken (halloc.ok hd) (by omega) (halloc.taken htaken)
    · obtain ⟨r, d1, hrun', hd1, htaken1⟩ := Prog.run_of_wp henter
      rw [FatM.on, hrun'] at hrun
      cases hrun
      exact (ih dir' hd1 (htaken1 dir' rfl)).1
    · unfold mkdirsLoop
      refine Prog.wp_seq henter fun r d1 h => ?_
      cases r with
      | error e => exact ⟨h.1, fun _ h => by cases h⟩
      | ok dir' => exact (ih dir' h.1 (h.2 dir' rfl)).2

/-- A disk without such free clusters meets the condition, whatever is on it. -/
theorem writeOk_of_taken {path : List UInt8} {len : Nat} (hd : v.DiskOk d) (hper : 2 ≤ v.per) (htaken : HighTaken v d) :
    WriteOk v d path len := by
  obtain ⟨hdirs, hloop⟩ := dirsOk_of_taken path (splitPath path).1 0 hd hper htaken
  refine fun _ => ⟨hdirs, fun dir leaf d' hrun => fun _ _ _ => ?_⟩
  have hmkdirs : Wp v (fatMkdirs v path) (fun r d' => v.DiskOk d' ∧ ∀ p, r = .ok p → HighTaken v d') d := by
    unfold fatMkdirs
    refine Prog.wp_seq hloop fun r d1 h => ?_
    cases r with
    | error e => exact ⟨h.1, fun _ h => by cases h⟩
    | ok dir' =>
      dsimp only
      split
      · exact ⟨h.1, fun _ h => by cases h⟩
      · exact ⟨h.1, fun _ _ => h.2 dir' rfl⟩
  obtain ⟨r, d1, hrun', hd1, htaken1⟩ := Prog.run_of_wp hmkdirs
  rw [FatM.on, hrun'] at hrun
  cases hrun
  exact createOk_of_taken hd1 (by omega) (htaken1 _ rfl)

theorem writeOk_of_small {path : List UInt8} {len : Nat} (hd : v.DiskOk d) (hper : 2 ≤ v.per)
    (hcount : v.clusterCount + 2 ≤ 65536) :
    WriteOk v d path len := writeOk_of_taken hd hper (highTaken_of_small hcount)

/-- Nothing is made where the file is there already. -/
theorem writeOk_of_found {path : List UInt8} {len : Nat} (h : pathEntry v d path ≠ none) : WriteOk v d path len := by
  obtain ⟨en, hen⟩ := Option.ne_none_iff_exists'.mp h
  rw [pathEntry, resolve_walk] at hen
  obtain ⟨dir, hwalk, hfind⟩ := Option.bind_eq_some_iff.mp hen
  have hdirs : ∀ (comps : List (List UInt8)) (start : Nat), walk v d comps start = some dir → DirsOk v path comps start d := by
    intro comps
    induction comps with
    | nil => exact fun _ _ => trivial
    | cons comp comps ih =>
      intro start h
      obtain ⟨sub, hsub, hdir, hrest⟩ := walk_cons h
      refine ⟨fun _ _ hnone => ?_, fun dir' d' hrun => ?_⟩
      · rw [(findIn_some hsub).2.2] at hnone
        cases hnone
      · obtain ⟨r, d1, hrun', rfl, rfl⟩ := Prog.run_of_wp (enterDir_found path hsub hdir)
        rw [FatM.on, hrun'] at hrun
        cases hrun
        exact ih sub.first hrest
  refine fun _ => ⟨hdirs _ 0 hwalk, fun dir' leaf d' hrun => fun _ hnone _ => ?_⟩
  have hmkdirs : Wp v (fatMkdirs v path) (fun r d' => d' = d ∧ ∀ p, r = .ok p → p = (dir, (splitPath path).2)) d := by
    unfold fatMkdirs
    refine Prog.wp_seq (mkdirsLoop_walk path hwalk) fun r d1 h => ?_
    obtain ⟨rfl, rfl⟩ := h
    dsimp only
    split
    · exact ⟨rfl, fun _ h => by cases h⟩
    · exact ⟨rfl, fun _ h => by cases h; rfl⟩
  obtain ⟨r, d1, hrun', rfl, hr⟩ := Prog.run_of_wp hmkdirs
  rw [FatM.on, hrun'] at hrun
  cases hrun
  cases hr _ rfl
  rw [(findIn_some hfind).2.2] at hnone
  cases hnone

end Safe

/-! ## Images -/

/-- Every FAT entry is in its copy, every slot and cluster in the volume, and the FAT
    copies, the root directory and the clusters lie one behind the other. -/
structure Vol.Laid (v : Vol) (len : Nat) : Prop where
  inside : v.base + v.size ≤ len
  entry : ∀ i < v.nfats, ∀ c < v.clusterCount + 2,
    v.base + v.fatOff + i * (v.fatSectors * sectorSize) ≤ v.fatAddr i c ∧
      v.fatAddr i c + 2 ≤ v.base + v.fatOff + (i + 1) * (v.fatSectors * sectorSize)
  slot : ∀ i < v.rootEntries, v.base + v.rootOff ≤ v.regionAddr 0 + i * direntSize ∧
    v.regionAddr 0 + i * direntSize + direntSize ≤ v.base + v.rootOff + v.rootEntries * direntSize
  cluster : ∀ c, v.Valid c → v.base + v.dataOff ≤ v.regionAddr c ∧ v.regionAddr c + v.clusterBytes ≤ v.base + v.size
  fatRoot : v.fatOff + v.nfats * (v.fatSectors * sectorSize) ≤ v.rootOff
  rootData : v.rootOff + v.rootEntries * direntSize ≤ v.dataOff
  dataEnd : v.dataOff ≤ v.size

theorem Vol.Sound.laid {v : Vol} {len : Nat} (hv : v.Sound len) : v.Laid len := by
  obtain ⟨hroot, hdata, -⟩ := hv.layout
  have hend := hv.data
  have hE := fatEnd_eq v
  refine ⟨hv.inside, fun i hi c hc => ?_, fun i hi => ?_, fun c hc => ?_, ?_, ?_, ?_⟩
  · obtain ⟨h1, h2, h3⟩ := fatAddr_eq hv hi hc
    simp only [sectorSize, ← Nat.mul_assoc, Nat.succ_mul]
    omega
  · have h : v.regionAddr 0 = v.base + v.rootOff := if_pos rfl
    rw [h]
    simp only [direntSize]
    omega
  · obtain ⟨h1, h2⟩ := regionAddr_cluster hv hc
    have hclus := hv.clusters
    omega
  · simp only [sectorSize, ← Nat.mul_assoc]
    omega
  · simp only [direntSize]
    omega
  · omega

theorem Vol.Accepted.per {v : Vol} {len : Nat} (h : v.Accepted len) : v.per = 16 * v.spc := by
  rw [Vol.per, h.clusterBytes, direntSize]
  omega

/-- An accepted volume is of the usual geometry, if it has no more clusters than FAT16 allows. -/
theorem Vol.Accepted.std {v : Vol} {len : Nat} (h : v.Accepted len) (hcount : v.clusterCount ≤ 65524) : v.Std := by
  have hspc := h.spc.1
  have hper := h.per
  have hbytes := h.clusterBytes
  refine ⟨hcount, by omega, ?_⟩
  rw [hper]
  unfold direntSize
  omega

/-- Both entry points return, having made no access outside the image, and the volume is
    laid out in it. -/
structure Confined (img : Image) (clock : Nat → Nat × Nat) (path data : List UInt8) : Prop where
  reads : ∃ r, cbeaFatReadFile img path = .ok r
  writes : ∃ r, cbeaFatWriteFile img clock path data = .ok r
  laid : ∀ v, img.locate = .ok (some v) → v.Laid img.size

theorem read_confined {img : Image} (hlen : img.size < 2 ^ 32) (path : List UInt8) : ∃ r, cbeaFatReadFile img path = .ok r := by
  obtain ⟨r, hloc, hacc⟩ := locate_confined img
  unfold cbeaFatReadFile
  rw [hloc]
  cases r with
  | none => exact ⟨none, rfl⟩
  | some v =>
    have hv := (hacc v rfl).sound hlen
    obtain ⟨r, s, _, hrun, -⟩ := Prog.run_refines (exec_refines hv Nat.zero_lt_one hv.nfats.1) (fatRead_spec path)
      (diskOf_rep v img 2 fun _ => (0, 0))
    refine ⟨r, ?_⟩
    simp only [bind, Except.bind]
    rw [hrun]
    rfl

theorem write_confined_iff {img : Image} (hlen : img.size < 2 ^ 32) (clock : Nat → Nat × Nat) (path data : List UInt8) :
    (∃ r, cbeaFatWriteFile img clock path data = .ok r) ↔
      ∀ v, img.locate = .ok (some v) → WriteOk v (v.diskOf img 2 clock) path data.length := by
  obtain ⟨r, hloc, hacc⟩ := locate_confined img
  unfold cbeaFatWriteFile
  rw [hloc]
  cases r with
  | none =>
    refine ⟨fun _ v hv => ?_, fun _ => ⟨_, rfl⟩⟩
    simp at hv
  | some v =>
    have hv := (hacc v rfl).sound hlen
    have hper : 2 ≤ v.per := by
      have := hv.spc.1
      rw [hv.per]
      omega
    have hcond : (∀ w, (Except.ok (some v) : Except Fault (Option Vol)) = .ok (some w) →
        WriteOk w (w.diskOf img 2 clock) path data.length) ↔ WriteOk v (v.diskOf img 2 clock) path data.length := by
      refine ⟨fun h => h v rfl, fun h w hw => ?_⟩
      cases hw
      exact h
    rw [hcond]
    simp only [bind, Except.bind]
    rcases Prog.run_refines_error (exec_refines hv Nat.zero_lt_one hv.nfats.1)
      (fatWriteFile_safe path data (diskOf_ok v img clock) hper) (diskOf_rep v img 2 clock) with
      ⟨r, s, _, hrun, -, -, -, hok⟩ | ⟨e, hrun, -, hno⟩
    · rw [hrun]
      exact ⟨fun _ => hok, fun _ => ⟨_, rfl⟩⟩
    · rw [hrun]
      refine ⟨fun h => ?_, fun h => absurd h hno⟩
      obtain ⟨r, hr⟩ := h
      cases hr

/-- A boot sector: one sector a cluster, one FAT, sixteen root entries. -/
def bootByte (total fatSectors k : Nat) : UInt8 :=
  if k = 0x0C then 2 else if k = 0x0D then 1 else if k = 0x0E then 1 else if k = 0x10 then 1 else if k = 0x11 then 16
  else if k = 0x16 then UInt8.ofNat fatSectors else if k = 0x17 then UInt8.ofNat (fatSectors / 256)
  else if 0x20 ≤ k ∧ k < 0x24 then UInt8.ofNat (total / 256 ^ (k - 0x20))
  else if k = 0x36 then 0x46 else if k = 0x37 then 0x41 else if k = 0x38 then 0x54 else if k = 0x39 then 0x31
  else if k = 0x3A then 0x36 else if k = 0x1FE then 0x55 else if k = 0x1FF then 0xAA else 0

/-- An empty volume of eight clusters. -/
def smallImage : Image := ⟨5632, bootByte 11 1⟩

def smallVol : Vol := ⟨0, 5632, 1, 1, 16, 1, 512, 1024, 1536, 512, 8⟩

set_option maxRecDepth 100000 in
theorem smallImage_locate : smallImage.locate = .ok (some smallVol) := by decide

/-- A volume of 65535 clusters, all taken but the last, with a directory `D` whose one
    cluster is full of labels. -/
def cutByte (k : Nat) : UInt8 :=
  if k < 512 then bootByte 65794 257 k
  else if k < 132096 then if k % 2 = 0 ∧ k ≠ 131584 then 1 else 0
  else if k = 132096 then 0x44 else if k < 132107 then 0x20 else if k = 132107 then 0x10 else if k = 132122 then 2
  else if 132608 ≤ k ∧ k < 133120 then 0x08 else 0

def cutImage : Image := ⟨33686528, cutByte⟩

def cutVol : Vol := ⟨0, 33686528, 1, 1, 16, 257, 512, 132096, 132608, 512, 65535⟩

def cutDisk : Disk := cutVol.diskOf cutImage 2 fun _ => (0, 0)

theorem cutDisk_ok : cutVol.DiskOk cutDisk := diskOf_ok _ _ _

theorem cutDisk_fat {c : Nat} (hc : cutVol.Valid c) : cutDisk.fat c = if c = 65536 then 0 else 1 := by
  have h2 : c < 65537 := hc.2
  have haddr : cutVol.fatAddr 0 c = 512 + c * 2 := by
    simp only [Vol.fatAddr, cutVol, u32, sectorSize]
    omega
  have hread : cutDisk.fat c = rd 2 cutByte (512 + c * 2) := by
    simp only [cutDisk, Vol.diskOf, cutImage, haddr]
  rw [hread]
  have h0 : ¬ 512 + c * 2 < 512 := by omega
  have h1 : ¬ 512 + c * 2 + 1 < 512 := by omega
  have h3 : 512 + c * 2 < 132096 := by omega
  have h4 : 512 + c * 2 + 1 < 132096 := by omega
  have h5 : ¬ (512 + c * 2 + 1) % 2 = 0 := by omega
  have h6 : (512 + c * 2) % 2 = 0 := by omega
  simp only [rd, cutByte, h0, h1, h3, h4, h5, h6, if_false, if_true, true_and, false_and]
  by_cases hlast : c = 65536
  · subst hlast
    decide
  · rw [if_pos (by omega), if_neg hlast]
    decide

set_option maxRecDepth 100000 in
/-- What the source's functions compute on this volume. -/
theorem cut_computed : cutImage.locate = .ok (some cutVol) ∧
    lookup cutVol cutDisk 0 [0x44] =
      some ⟨⟨0, 0⟩, [0x44, 0x20, 0x20, 0x20, 0x20, 0x20, 0x20, 0x20, 0x20, 0x20, 0x20, 0x10, 0, 0, 0, 0, 0, 0, 0, 0, 0, 0, 0, 0,
        0, 0, 2, 0, 0, 0, 0, 0], none⟩ ∧
    lookup cutVol cutDisk 2 [0x46] = none ∧
    scanFree 1 (freeFlags cutVol cutDisk 2) 0 0 = .inr 0 ∧
    (newName cutVol cutDisk 2 [0x46]).2 = 0 := by decide

/-- `D\F` leads to the directory `D`. -/
theorem cut_mkdirs : (fatMkdirs cutVol [0x44, 0x5C, 0x46]).on cutDisk = .ok (.ok (2, [0x46]), cutDisk) := by
  have h : Wp cutVol (fatMkdirs cutVol [0x44, 0x5C, 0x46]) (fun r d' => r = .ok (2, [0x46]) ∧ d' = cutDisk) cutDisk := by
    unfold fatMkdirs
    refine Prog.wp_bind (Prog.wp_bind (find_spec (fun hl => ?_) fun en hl hin hslot => wp_load hin fun e he => ?_))
    · rw [cut_computed.2.1] at hl
      cases hl
    · rw [cut_computed.2.1] at hl
      cases hl
      rw [he, ← hslot]
      exact ⟨rfl, rfl⟩
  obtain ⟨r, d', hrun, rfl, rfl⟩ := Prog.run_of_wp h
  exact hrun

/-- The scan ends on the first slot of cluster 65536, and the link to it is 0. -/
theorem cut_scanned : ∃ d', scanned cutVol cutDisk 2 1 = .ok (some 16, d') ∧ (dirAddrs cutVol d' 2).length = 16 := by
  have hvalid : cutVol.Valid 2 := by decide
  have hfat2 : cutDisk.fat 2 = 1 := cutDisk_fat hvalid
  have hchain : chainFrom cutVol cutDisk 65535 2 = [2] := by
    rw [show (65535 : Nat) = 65534 + 1 from rfl, chainFrom, hfat2]
    rfl
  have hlen : (dirAddrs cutVol cutDisk 2).length = 16 := by
    rw [dirAddrs_cluster (by decide), slots_length, clusters, if_pos (by decide), show cutVol.clusterCount = 65535 from rfl,
      hchain]
    rfl
  obtain ⟨-, -, -, hnone, -⟩ := cut_computed
  have hslot : Wp cutVol (dirSlot cutVol 2 16 true) (fun r d' => r = some ⟨65536, 0⟩ ∧
    Grow cutVol 2 65536 cutDisk d') cutDisk := by
    have hwalk : dirSlot cutVol 2 16 true = slotWalk cutVol true 65535 2 16 := rfl
    rw [hwalk, show (65535 : Nat) = 65534 + 1 from rfl, slotWalk, if_neg (by decide)]
    refine Prog.wp_seq (slotNext_spec cutDisk_ok hvalid) fun r d1 h => ?_
    rcases h with ⟨hnext, -, -⟩ | ⟨-, ⟨-, -, hfull⟩ | ⟨n, rfl, hgrow⟩⟩
    · rw [hfat2] at hnext
      exact absurd hnext (by decide)
    · exact absurd (cutDisk_fat (c := 65536) (by decide)) (hfull 65536 (by decide))
    · have hn : n = 65536 := by
        by_contra hne
        have hfree := hgrow.free
        rw [cutDisk_fat hgrow.valid, if_neg hne] at hfree
        cases hfree
      subst hn
      have hlast : slotWalk cutVol true 65534 65536 (16 - cutVol.per) = Prog.ret (some ⟨65536, 0⟩) := by
        rw [show (65534 : Nat) = 65533 + 1 from rfl, slotWalk, if_pos (by decide)]
        rfl
      show Wp cutVol (slotWalk cutVol true 65534 65536 (16 - cutVol.per)) _ _
      rw [hlast]
      exact ⟨rfl, hgrow⟩
  have hscan : Wp cutVol (scanLoop cutVol 2 1 (dirFuel cutVol) 0 0 0) (fun r d' =>
      r = some 16 ∧ Grow cutVol 2 65536 cutDisk d') cutDisk := by
    refine scanLoop_through cutDisk_ok (by decide) 16 (by rw [hlen]) (by decide) (by decide) (fun h => absurd rfl h)
      (fun s hs => ?_) fun r hr start _ => ?_
    · rw [List.drop_zero, hnone] at hs
      cases hs
    · rw [List.drop_zero, hnone] at hr
      cases hr
      rw [show dirFuel cutVol - 16 = 1048576 + 1 from rfl, scanLoop]
      refine Prog.wp_seq hslot fun r d1 h => ?_
      obtain ⟨rfl, hgrow⟩ := h
      refine wp_load ⟨.inr (by decide), by decide⟩ fun e he => ?_
      have hzero : at' e 0 = 0 := by
        rw [he]
        exact hgrow.zero (k := 0) (by decide)
      rw [if_pos (by simp [isFree, hzero])]
      exact ⟨rfl, hgrow⟩
  obtain ⟨r, d', hrun, rfl, hgrow⟩ := Prog.run_of_wp hscan
  refine ⟨d', hrun, ?_⟩
  have hcut : d'.fat 2 = 0 := by
    rw [hgrow.eq]
    rfl
  rw [dirAddrs_cluster (by decide), slots_length, clusters, if_pos (by decide), show cutVol.clusterCount = 65534 + 1 from rfl,
    chainFrom, hcut]
  rfl

end Be300.Fat
