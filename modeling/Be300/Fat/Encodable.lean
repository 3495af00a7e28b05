/-
  Be300.Fat.Encodable — cluster numbers in 16 bits, and the chains made of them
  (`fat_alloc`, `fat_write_file`, `fat_read`, `fat_free_chain` of `src/cbea_install.c`).

  `built` are the clusters that `fat_alloc` gives to the loop of `fat_write_file`. Where
  every cluster number is below the reserved values, the FAT links them in this order from
  the first one, which the directory entry names (`fillFile_built`); `fat_read` and
  `fat_free_chain` then go through these clusters and no others (`Walked`), on any disk.
-/

import Mathlib.Data.List.Perm.Subperm
import Be300.Fat.Confinement

namespace Be300.Fat

open Be300.Lib (Prog Chain rd le at' redirect)

/-- The first FAT entry that is reserved; bad and end-of-chain marks are above. -/
def reservedFrom : Nat := 0xFFF0

/-- `fat_alloc` returns the cluster on some disk. -/
def Returned (v : Vol) (c : Nat) : Prop := ∃ d d', v.DiskOk d ∧ (fatAlloc v).on d = .ok (c, d') ∧ c ≠ 0

/-- A cluster number is read back as it was stored, and is no mark. -/
structure Encodable (c : Nat) : Prop where
  fat : ∀ e d, (fatSet e c >>= fun _ => fatGet e).on d = .ok (c, d.setFat e c)
  entry : ∀ e d, ∃ slot d', (store (Addr.plus e 26) (le 2 c) >>= fun _ => load e direntSize).on d = .ok (slot, d') ∧
    direntCluster slot = c
  plain : c < reservedFrom

/-- The clusters that the loop of `fat_write_file` gets, in order. -/
def built (v : Vol) (data : List UInt8) : Nat → Nat → Nat → Disk → List Nat
  | 0, _, _, _ => []
  | k + 1, i, prev, d =>
    match (fatAlloc v).on d with
    | .error _ => []
    | .ok (c, d1) =>
      if c = 0 then []
      else
        let d2 := d1.put ⟨c, 0⟩ (v.chunk data i)
        c :: built v data k (i + 1) c (if prev ≠ 0 then d2.setFat prev (c % 65536) else d2)

/-- From `first`, `fat_read` and `fat_free_chain` go through the clusters `l`. -/
structure Walked (v : Vol) (d : Disk) (len first : Nat) (l : List Nat) : Prop where
  chain : Chain d.fat v.Valid (fun e => ¬ v.Valid e) first l
  read : (readLoop v v.clusterCount len first).on d = .ok (some ((l.flatMap fun c => d.get ⟨c, 0⟩ v.clusterBytes).take len), d)
  free : ∃ d', (fatFreeChain v first).on d = .ok ((), d') ∧ ∀ e, d'.fat e = if e ∈ l then 0 else d.fat e

/-- The write has ended with the loop and the entry's fields, and from these the clusters of the loop are walked. -/
def Kept (v : Vol) (path data : List UInt8) (d' : Disk) : Prop :=
  ∃ e d0, v.DiskOk d0 ∧ (fillFile v path data e).on d0 = .ok (.ok (), d') ∧
    (built v data (v.clustersFor data.length) 0 0 d0).length = v.clustersFor data.length ∧
    Walked v d' (direntLen (d'.get e direntSize)) (direntCluster (d'.get e direntSize))
      (built v data (v.clustersFor data.length) 0 0 d0)

/-- Every write that succeeds, on any disk. -/
def ChainKept (v : Vol) : Prop :=
  ∀ d d' path data, v.DiskOk d → (fatWriteFile v path data).on d = .ok (.ok (), d') → Kept v path data d'

section Chains

variable {v : Vol} {d d' : Disk} {first prev : Nat} {p l : List Nat}

theorem end_invalid (hv : v.clusterCount + 2 ≤ reservedFrom) : ¬ v.Valid fat16Eoc := by
  intro h
  have := h.2
  simp only [reservedFrom, fat16Eoc] at hv this
  omega

/-- The loop has linked the clusters `p`. -/
structure Begun (v : Vol) (d : Disk) (first prev : Nat) (p : List Nat) : Prop where
  chain : Chain d.fat v.Valid (fun e => ¬ v.Valid e) first p
  used : ∀ x ∈ p, d.fat x ≠ 0
  last : p = [] ∧ first = 0 ∧ prev = 0 ∨ (∃ q, p = q ++ [prev]) ∧ v.Valid prev

theorem begun_nil (v : Vol) (d : Disk) : Begun v d 0 0 [] :=
  ⟨fun h => absurd h.1 (by decide), fun x hx => absurd hx List.not_mem_nil, .inl ⟨rfl, rfl, rfl⟩⟩

/-- One more cluster behind the others. -/
theorem Begun.next (h : Begun v d first prev p) (hv : v.clusterCount + 2 ≤ reservedFrom) {c : Nat} (hc : v.Valid c)
    (hfree : d.fat c = 0)
    (bytes : List UInt8) :
    Begun v (if prev ≠ 0 then ((d.alloc v c).put ⟨c, 0⟩ bytes).setFat prev (c % 65536) else (d.alloc v c).put ⟨c, 0⟩ bytes)
      (if prev ≠ 0 then first else c) c (p ++ [c]) := by
  have hnew : c ∉ p := fun hmem => h.used c hmem hfree
  have hsmall : c % 65536 = c := Nat.mod_eq_of_lt (by have := hc.2; simp only [reservedFrom] at hv; omega)
  rcases h.last with ⟨rfl, -, rfl⟩ | ⟨⟨q, rfl⟩, hprev⟩
  · rw [if_neg (by simp), if_neg (by simp)]
    have hend : ((d.alloc v c).put ⟨c, 0⟩ bytes).fat c = fat16Eoc := by simp [Disk.alloc, Disk.put, Disk.setFat]
    refine ⟨⟨rfl, hc, ?_⟩, fun x hx => ?_, .inr ⟨⟨[], rfl⟩, hc⟩⟩
    · rw [hend]
      exact end_invalid hv
    · obtain rfl : x = c := by simpa using hx
      rw [hend]
      decide
  · have hpos : prev ≠ 0 := by have := hprev.1; omega
    rw [if_pos hpos, if_pos hpos, hsmall]
    have hne : c ≠ prev := fun heq => hnew (by simp [heq])
    have hfat : (((d.alloc v c).put ⟨c, 0⟩ bytes).setFat prev c).fat = redirect (redirect d.fat c fat16Eoc) prev c := rfl
    have hnd := h.chain.nodup fun x hx hno => hno hx
    refine ⟨?_, fun x hx => ?_, .inr ⟨⟨q ++ [prev], rfl⟩, hc⟩⟩
    · rw [hfat, List.append_assoc]
      exact h.chain.extend hnd hnew hc (end_invalid hv)
    · rw [hfat, redirect]
      have hcpos : c ≠ 0 := by have := hc.1; omega
      split
      · exact hcpos
      · rename_i hxp
        rw [redirect]
        split
        · decide
        · rename_i hxc
          rcases List.mem_append.mp hx with hx | hx
          · exact h.used x hx
          · exact absurd (by simpa using hx) hxc

/-- The loop of `fat_write_file` links the clusters it gets. -/
theorem writeLoop_built {data : List UInt8} (hv : v.clusterCount + 2 ≤ reservedFrom) (k i : Nat) (hd : v.DiskOk d)
    (h : Begun v d first prev p) :
    Wp v (writeLoop v data k i first prev) (fun r d' => v.DiskOk d' ∧ ∀ first', r = some first' →
      (built v data k i prev d).length = k ∧ ∃ prev', Begun v d' first' prev' (p ++ built v data k i prev d)) d := by
  induction k generalizing i first prev p d with
  | zero =>
    refine ⟨hd, fun first' heq => ⟨rfl, prev, ?_⟩⟩
    rw [← Option.some.inj heq, built, List.append_nil]
    exact h
  | succ k ih =>
    unfold writeLoop
    refine Prog.wp_seq (Prog.wp_self (fatAlloc_spec hd)) fun c d1 hc => ?_
    obtain ⟨halloc, hrun⟩ := hc
    by_cases hzero : c = 0
    · rw [if_pos hzero]
      exact ⟨halloc.ok hd, fun first' heq => by cases heq⟩
    · rcases halloc with ⟨h0, -, -⟩ | ⟨hvalid, hfree, rfl⟩
      · exact absurd h0 hzero
      have hin : v.Within ⟨c, 0⟩ (v.chunk data i).length := by
        refine ⟨.inr hvalid, ?_⟩
        have := List.length_take_le v.clusterBytes (data.drop (i * v.clusterBytes))
        simp only [Vol.span, hzero, if_false, Nat.zero_add]
        exact this
      have hbuilt : built v data (k + 1) i prev d = c :: built v data k (i + 1) c
          (if prev ≠ 0 then ((d.alloc v c).put ⟨c, 0⟩ (v.chunk data i)).setFat prev (c % 65536)
            else (d.alloc v c).put ⟨c, 0⟩ (v.chunk data i)) := by
        rw [built, FatM.on, hrun]
        exact if_neg hzero
      have hnext := h.next hv hvalid hfree (v.chunk data i)
      rw [if_neg hzero, hbuilt]
      refine wp_store hin ?_
      by_cases hp : prev = 0
      · rw [if_neg (by simpa using hp)] at hnext ⊢
        rw [if_neg (by simpa using hp)] at hnext
        rw [if_neg (by simpa using hp)]
        refine Prog.wp_mono (ih (i + 1) ⟨(alloc_ok d hvalid).hint⟩ hnext) fun r d' hr => ⟨hr.1, fun first' heq => ?_⟩
        obtain ⟨hlen, prev', hbegun⟩ := hr.2 first' heq
        refine ⟨congrArg (· + 1) hlen, prev', ?_⟩
        rwa [List.append_assoc, List.singleton_append] at hbegun
      · rw [if_pos hp] at hnext ⊢
        rw [if_pos hp] at hnext
        rw [if_pos hp]
        have hprev : v.Valid prev := by
          rcases h.last with ⟨-, -, h0⟩ | ⟨-, hvp⟩
          · exact absurd h0 hp
          · exact hvp
        have hd2 : v.DiskOk (((d.alloc v c).put ⟨c, 0⟩ (v.chunk data i)).setFat prev (c % 65536)) := ⟨(alloc_ok d hvalid).hint⟩
        refine Prog.wp_bind ⟨hprev, ?_⟩
        show Wp v (writeLoop v data k (i + 1) first c) _ (((d.alloc v c).put ⟨c, 0⟩ (v.chunk data i)).setFat prev (c % 65536))
        refine Prog.wp_mono (ih (i + 1) hd2 hnext) fun r d' hr => ⟨hr.1, fun first' heq => ?_⟩
        obtain ⟨hlen, prev', hbegun⟩ := hr.2 first' heq
        refine ⟨congrArg (· + 1) hlen, prev', ?_⟩
        rwa [List.append_assoc, List.singleton_append] at hbegun

/-- The clusters of a chain are no more than the volume has. -/
theorem chain_length (h : Chain d.fat v.Valid (fun e => ¬ v.Valid e) first l) : l.length ≤ v.clusterCount := by
  have hnd := h.nodup fun x hx hno => hno hx
  have hsub : l ⊆ List.range' 2 v.clusterCount := fun x hx => by
    have hvalid := h.valid_of_mem x hx
    exact List.mem_range'_1.mpr ⟨hvalid.1, by have := hvalid.2; omega⟩
  have hle := (hnd.subperm hsub).length_le
  rwa [List.length_range'] at hle

theorem get_take (a : Addr) (n m : Nat) : (d.get a n).take m = d.get a (min m n) := by
  rw [Disk.get, ← List.map_take, List.take_range]
  rfl

/-- Reading goes through the chain as long as bytes are asked for. -/
theorem readFrom_chain {guard rem : Nat} (h : Chain d.fat v.Valid (fun e => ¬ v.Valid e) first l) (hguard : l.length ≤ guard)
    (hrem : rem ≤ l.length * v.clusterBytes) :
    readFrom v d guard rem first = some ((l.flatMap fun c => d.get ⟨c, 0⟩ v.clusterBytes).take rem) := by
  induction l generalizing guard rem first with
  | nil =>
    obtain rfl : rem = 0 := by simpa using hrem
    cases guard <;> rfl
  | cons x l ih =>
    rcases Nat.eq_zero_or_pos rem with rfl | hpos
    · cases guard <;> rfl
    · obtain ⟨rfl, hvalid, hrest⟩ := h
      cases guard with
      | zero => exact absurd hguard (Nat.not_succ_le_zero _)
      | succ guard =>
        rw [List.length_cons, Nat.succ_mul] at hrem
        rw [readFrom, if_neg (by omega), if_pos (valid_iff.mpr hvalid), ih hrest (Nat.le_of_succ_le_succ hguard) (by omega),
          Option.map_some]
        rw [List.flatMap_cons, List.take_append, get_take, get_length]

/-- A chain is walked as it is. -/
theorem chain_walked {len : Nat} (h : Chain d.fat v.Valid (fun e => ¬ v.Valid e) first l) (hd : v.DiskOk d)
    (hlen : len ≤ l.length * v.clusterBytes) :
    Walked v d len first l := by
  refine ⟨h, ?_, ?_⟩
  · have hread : Wp v (readLoop v v.clusterCount len first) _ d := readLoop_spec v.clusterCount len first
    obtain ⟨r, d', hrun, hr, hd'⟩ := Prog.run_of_wp hread
    rw [readFrom_chain h (chain_length h) hlen] at hr
    rw [FatM.on, hrun, hr, hd']
  · have hnd := h.nodup fun x hx hno => hno hx
    obtain ⟨r, d', hrun, -, hfat⟩ := Prog.run_of_wp (freeLoop_chain hd h (fun _ he => he) hnd (chain_length h))
    exact ⟨d', hrun, hfat⟩

theorem at_get {e : Addr} {n k : Nat} (hk : k < n) : at' (d.get e n) k = d.mem e.region (e.off + k) := by
  simp [at', Disk.get, hk]

/-- A number stored in an entry is read back. -/
theorem stored_field {e : Addr} {w n off m : Nat} (hn : n < 256 ^ w) (hfit : off + w ≤ m)
    (hmem : ∀ k < w, d.mem e.region (e.off + (off + k)) = at' (le w n) k) : rd w (at' (d.get e m)) off = n := by
  refine (Lib.rd_congr (g := at' (le w n)) (j := 0) fun k hk => ?_).trans ?_
  · rw [at_get (by omega), hmem k hk, Nat.zero_add]
  · have hread := Lib.rd_le_of_lt hn []
    rwa [List.append_nil] at hread

/-- The fields that `fat_write_file` stores are read back. -/
theorem entry_fields {e : Addr} {n len : Nat} (hn : n < 65536) (hlen : len < 2 ^ 32)
    (hmem : ∀ k, 26 ≤ k → d'.mem e.region (e.off + k) = ((d.put (e.plus 26) (le 2 n)).put (e.plus 28) (le 4 len)).mem e.region
      (e.off + k)) :
    direntCluster (d'.get e direntSize) = n ∧ direntLen (d'.get e direntSize) = len := by
  refine ⟨stored_field (w := 2) hn (by decide) fun k hk => ?_, stored_field (w := 4) hlen (by decide) fun k hk => ?_⟩
  · rw [hmem _ (by omega)]
    simp only [Disk.put, Addr.plus, Lib.le_length]
    rw [if_neg (by omega), if_pos ⟨trivial, by omega, by omega⟩]
    congr 1
    omega
  · rw [hmem _ (by omega)]
    simp only [Disk.put, Addr.plus, Lib.le_length]
    rw [if_pos ⟨trivial, by omega, by omega⟩]
    congr 1
    omega

/-- The end of `fat_write_file`: the entry names the chain of the clusters that the loop got. -/
theorem fillFile_built {path data : List UInt8} {e : Addr} (hv : v.clusterCount + 2 ≤ reservedFrom) (hin : v.Within e direntSize)
    (hd : v.DiskOk d) (hsize : data.length < 2 ^ 32) (hbytes : 0 < v.clusterBytes) :
    Wp v (fillFile v path data e) (fun r d' => r = .ok () →
      (built v data (v.clustersFor data.length) 0 0 d).length = v.clustersFor data.length ∧
      Walked v d' (direntLen (d'.get e direntSize)) (direntCluster (d'.get e direntSize))
        (built v data (v.clustersFor data.length) 0 0 d)) d := by
  unfold fillFile
  refine Prog.wp_seq (writeLoop_built hv _ 0 hd (begun_nil v d)) fun r d1 h => ?_
  cases r with
  | none => exact fun heq => by cases heq
  | some first =>
    obtain ⟨hlen, prev, hbegun⟩ := h.2 first rfl
    rw [List.nil_append] at hbegun
    have hfirst : first < 65536 := by
      rcases hbegun.last with ⟨-, rfl, -⟩ | ⟨⟨q, hq⟩, -⟩
      · decide
      · obtain ⟨l, hl⟩ := hbegun.chain.head (by simp [hq])
        have hvalid := (hbegun.chain.valid_of_mem first (by simp [hl])).2
        simp only [reservedFrom] at hv
        omega
    have hroom : data.length ≤ (built v data (v.clustersFor data.length) 0 0 d).length * v.clusterBytes := by
      have hlt := Nat.lt_div_mul_add hbytes (a := data.length + v.clusterBytes - 1)
      rw [hlen, Vol.clustersFor]
      omega
    refine wp_store (within_plus hin (by simp [direntSize])) (wp_store (within_plus hin (by simp [direntSize])) ?_)
    refine Prog.wp_seq (setTime_spec hin) fun _ d2 hd2 => fun _ => ⟨hlen, ?_⟩
    obtain ⟨hfat, hhint, hmem⟩ := hd2
    obtain ⟨hcluster, hsize'⟩ := entry_fields hfirst hsize fun k hk => hmem e.region (e.off + k) (by omega)
    rw [hcluster, hsize']
    refine chain_walked ?_ ⟨by rw [hhint]; exact h.1.hint⟩ hroom
    rw [hfat]
    exact hbegun.chain

theorem fillFile_kept {path data : List UInt8} {e : Addr} (hv : v.clusterCount + 2 ≤ reservedFrom) (hin : v.Within e direntSize)
    (hd : v.DiskOk d) (hsize : data.length < 2 ^ 32) (hbytes : 0 < v.clusterBytes) :
    Wp v (fillFile v path data e) (fun r d' => r = .ok () → Kept v path data d') d := by
  refine Prog.wp_mono (Prog.wp_self (fillFile_built hv hin hd hsize hbytes)) fun r d' h heq => ?_
  obtain ⟨hlen, hwalked⟩ := h.1 heq
  exact ⟨e, d, hd, heq ▸ h.2, hlen, hwalked⟩

theorem writeLeaf_kept {path leaf data : List UInt8} {dir : Nat} (hv : v.clusterCount + 2 ≤ reservedFrom) (hd : v.DiskOk d)
    (hper : 2 ≤ v.per)
    (hsize : data.length < 2 ^ 32) (hbytes : 0 < v.clusterBytes) :
    Wp v (writeLeaf v path dir leaf data) (fun r d' => r = .ok () → Kept v path data d') d := by
  have hsmall : v.clusterCount + 2 ≤ 65536 := hv.trans (by decide)
  unfold writeLeaf
  by_cases hlong : maxName < leaf.length
  · rw [if_pos hlong]
    exact fun heq => by cases heq
  rw [if_neg hlong]
  refine Prog.wp_seq (openLeaf_safe hd) fun r d1 h => ?_
  obtain ⟨hd1, ⟨-, rfl, rfl⟩ | ⟨-, ⟨e, rfl⟩ | ⟨a, rfl, hin⟩⟩⟩ := h
  · refine Prog.wp_seq (fatFreeClusters_spec v d1) fun n d2 h => ?_
    obtain ⟨-, rfl⟩ := h
    split
    · exact fun heq => by cases heq
    · have hcreate : CreateOk v d2 dir leaf := createOk_of_taken hd (by omega) (highTaken_of_small hsmall)
      refine Prog.wp_bind (Prog.wpe_mono (dirCreate_spec hd) (fun r d3 h => ?_) fun _ h => absurd hcreate h)
      obtain ⟨-, hd3, found, d4, -, h⟩ := h
      rcases h with ⟨-, rfl, -⟩ | ⟨start, a, -, rfl, ha, -⟩
      · exact fun heq => by cases heq
      · exact fillFile_kept hv (dirAddrs_within (List.mem_of_getElem? ha)) hd3 hsize hbytes
  · exact fun heq => by cases heq
  · refine Prog.wp_seq (fatFreeClusters_spec v d1) fun n d2 h => ?_
    obtain ⟨-, rfl⟩ := h
    split
    · exact fun heq => by cases heq
    · exact fillFile_kept hv hin hd1 hsize hbytes

theorem fatWriteFile_kept (path data : List UInt8) (hv : v.clusterCount + 2 ≤ reservedFrom) (hd : v.DiskOk d) (hper : 2 ≤ v.per)
    (hbytes : 0 < v.clusterBytes) : Wp v (fatWriteFile v path data) (fun r d' => r = .ok () → Kept v path data d') d := by
  have hsmall : v.clusterCount + 2 ≤ 65536 := hv.trans (by decide)
  unfold fatWriteFile
  by_cases hbig : maxLen ≤ data.length
  · rw [if_pos hbig]
    exact fun heq => by cases heq
  rw [if_neg hbig]
  have hwrite : WriteOk v d path data.length := writeOk_of_small hd hper hsmall
  have hdirs := (hwrite (by omega)).1
  refine Prog.wp_bind (Prog.wpe_mono (fatMkdirs_safe path hd hper) (fun r d1 h => ?_) fun _ h => absurd hdirs h)
  cases r with
  | error e => exact fun heq => by cases heq
  | ok p =>
    obtain ⟨dir, leaf⟩ := p
    exact writeLeaf_kept hv h.1 hper (Nat.not_le.mp hbig) hbytes

theorem chainKept_of_small (hv : v.clusterCount + 2 ≤ reservedFrom) (hper : 2 ≤ v.per) (hbytes : 0 < v.clusterBytes) :
    ChainKept v := by
  intro d d' path data hd hrun
  obtain ⟨r, d1, hrun', hkept⟩ := Prog.run_of_wp (fatWriteFile_kept path data hv hd hper hbytes)
  rw [FatM.on, hrun'] at hrun
  cases hrun
  exact hkept rfl

/-! ### Single clusters -/

theorem returned_valid {c : Nat} (h : Returned v c) : v.Valid c := by
  obtain ⟨d, d', hd, hrun, hne⟩ := h
  obtain ⟨c', d1, hrun', halloc⟩ := Prog.run_of_wp (fatAlloc_spec hd)
  rw [FatM.on, hrun'] at hrun
  cases hrun
  rcases halloc with ⟨hzero, -, -⟩ | ⟨hvalid, -, -⟩
  · exact absurd hzero hne
  · exact hvalid

/-- The only free cluster of a disk is the one that is returned. -/
theorem returned_of_free {c : Nat} (hd : v.DiskOk d) (hc : v.Valid c) (hfree : ∀ e, v.Valid e → (d.fat e = 0 ↔ e = c)) :
    ∃ d', (fatAlloc v).on d = .ok (c, d') := by
  obtain ⟨c', d1, hrun, halloc⟩ := Prog.run_of_wp (fatAlloc_spec hd)
  rcases halloc with ⟨-, -, hfull⟩ | ⟨hvalid, hzero, -⟩
  · exact absurd ((hfree c hc).mpr rfl) (hfull c hc)
  · obtain rfl := (hfree c' hvalid).mp hzero
    exact ⟨d1, hrun⟩

/-- A FAT entry holds 16 bits. -/
theorem fatSet_read (e c : Nat) (d : Disk) :
    (fatSet e c >>= fun _ => fatGet e).on d = .ok (c % 65536, d.setFat e (c % 65536)) := by
  show Except.ok ((d.setFat e (c % 65536)).fat e, d.setFat e (c % 65536)) = _
  rw [show (d.setFat e (c % 65536)).fat e = c % 65536 from if_pos rfl]

theorem encodable_of_small {c : Nat} (hc : c < reservedFrom) : Encodable c := by
  have hsmall : c < 65536 := by
    simp only [reservedFrom] at hc
    omega
  refine ⟨fun e d => ?_, fun e d => ⟨_, _, rfl, ?_⟩, hc⟩
  · rw [fatSet_read, Nat.mod_eq_of_lt hsmall]
  · show rd 2 (at' ((d.put (e.plus 26) (le 2 c)).get e direntSize)) 26 = c
    refine stored_field hsmall (by decide) fun k hk => ?_
    simp only [Disk.put, Addr.plus, Lib.le_length]
    rw [if_pos ⟨trivial, by omega, by omega⟩]
    congr 1
    omega

end Chains

/-- The clusters of a volume are encodable, and its files' chains are walked as they were built, exactly when the cluster numbers
    stay below the reserved values. -/
theorem encodable_iff {img : Image} {base avail : Nat} {v : Vol} (hin : base + avail ≤ img.size)
    (hv : (fatParseBpb base avail).run img.peek () = .ok (some v, ())) :
    ((∀ c, Returned v c → Encodable c) ∧ ChainKept v) ↔ v.clusterCount + 2 ≤ reservedFrom := by
  obtain ⟨r, _, _, hrun, -, -, hacc⟩ := Prog.run_refines (t := ()) (peek_refines img) (fatParseBpb_wp hin) trivial
  rw [hv] at hrun
  cases hrun
  have haccepted := hacc v rfl
  have hspc := haccepted.spc.1
  constructor
  · rintro ⟨hall, -⟩
    by_contra hlarge
    have hvalid : v.Valid reservedFrom := ⟨by decide, Nat.not_le.mp hlarge⟩
    have hok : v.DiskOk ⟨fun c => if c = reservedFrom then 0 else 1, fun _ _ => 0, 2, fun _ => (0, 0)⟩ :=
      ⟨Nat.le_refl 2, Nat.le_add_left 2 _⟩
    obtain ⟨d', halloc⟩ := returned_of_free hok hvalid fun e _ => by simp
    exact Nat.lt_irrefl _ (hall reservedFrom ⟨_, d', hok, halloc, by decide⟩).plain
  · intro hsmall
    refine ⟨fun c hc => encodable_of_small ((returned_valid hc).2.trans_le hsmall), chainKept_of_small hsmall ?_ ?_⟩
    · rw [haccepted.per]
      omega
    · rw [haccepted.clusterBytes]
      omega

set_option maxRecDepth 100000 in
/-- The small volume's. -/
theorem small_volume_encodable : (∀ c, Returned smallVol c → Encodable c) ∧ ChainKept smallVol := by
  have hparsed : (fatParseBpb 0 5632).run smallImage.peek () = .ok (some smallVol, ()) := by decide
  exact (encodable_iff (by decide) hparsed).mpr (by decide)

set_option maxRecDepth 100000 in
/-- The last cluster of a volume of 65535 is stored as 0. -/
theorem last_cluster_lost : (fatParseBpb 0 33686528).run cutImage.peek () = .ok (some cutVol, ()) ∧
    (fatSet 2 65536 >>= fun _ => fatGet 2).on cutDisk = .ok (0, cutDisk.setFat 2 0) ∧
    ¬ ((∀ c, Returned cutVol c → Encodable c) ∧ ChainKept cutVol) := by
  refine ⟨by decide, fatSet_read 2 65536 cutDisk, fun h => ?_⟩
  have hfree : ∀ e, cutVol.Valid e → (cutDisk.fat e = 0 ↔ e = 65536) := fun e he => by
    rw [cutDisk_fat he]
    by_cases hlast : e = 65536 <;> simp [hlast]
  obtain ⟨d', hrun⟩ := returned_of_free cutDisk_ok (c := 65536) (by decide) hfree
  have hplain := (h.1 65536 ⟨cutDisk, d', cutDisk_ok, hrun, by decide⟩).plain
  exact absurd hplain (by decide)

end Be300.Fat
