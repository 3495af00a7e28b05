/-
  Be300.Fat.Machine — the memory of a FAT16 volume, on two levels.

  The functions of `src/cbea_install.c` touch a volume through a few accesses: a FAT entry
  (`fat_get`, `fat_set`), bytes at a pointer into the root directory or into a cluster
  (`fat_cluster_ptr`), the allocation hint and the clock. These are the operations
  `FatOp`; a pointer is an `Addr`, region 0 for the root directory and `c` for cluster
  `c`, and an offset.

  `Vol.exec` performs them on the bytes of an image, at the addresses the source computes,
  with its 32-bit products, and faults outside the image. `diskStep` performs them on a
  `Disk`: one FAT and the contents of each region. `Rep` says that an image holds a disk,
  and that it agrees with an earlier image everywhere but in the volume's FAT, root
  directory and data. `exec_refines` is the link: in a sound volume, an operation on a
  valid cluster within its region does on the image what it does on the disk. It needs
  that these regions are disjoint, and is the only place that does.
-/

import Be300.Fat.Volume

namespace Be300.Fat

open Be300.Lib (Prog rd le le_length rd_le at')

/-! ## Operations -/

structure Addr where
  region : Nat
  off : Nat
  deriving DecidableEq, Repr

/-- `e + n`. -/
def Addr.plus (a : Addr) (n : Nat) : Addr := ⟨a.region, a.off + n⟩

inductive FatOp where
  | fatGet (c : Nat)
  | fatSet (c val : Nat)
  | load (a : Addr) (n : Nat)
  | store (a : Addr) (bytes : List UInt8)
  | getHint
  | setHint (h : Nat)
  | now

/-- `fat_now` gives a date and a time. -/
abbrev FatOp.Resp : FatOp → Type
  | .fatGet _ | .getHint => Nat
  | .fatSet _ _ | .store _ _ | .setHint _ => Unit
  | .load _ _ => List UInt8
  | .now => Nat × Nat

abbrev FatM (α : Type) : Type := Prog FatOp FatOp.Resp Fault α

def fatGet (c : Nat) : FatM Nat := Prog.perform (FatOp.fatGet c)
def fatSet (c val : Nat) : FatM Unit := Prog.perform (FatOp.fatSet c val)
def load (a : Addr) (n : Nat) : FatM (List UInt8) := Prog.perform (FatOp.load a n)
def store (a : Addr) (bytes : List UInt8) : FatM Unit := Prog.perform (FatOp.store a bytes)
def getHint : FatM Nat := Prog.perform FatOp.getHint
def setHint (h : Nat) : FatM Unit := Prog.perform (FatOp.setHint h)
def fatNow : FatM (Nat × Nat) := Prog.perform FatOp.now

/-! ## On an image -/

def Image.get (img : Image) (off n : Nat) : Except Fault (List UInt8) :=
  if off + n ≤ img.size then .ok ((List.range n).map fun i => img.byte (off + i)) else .error (.outOfImage off n)

def Image.put (img : Image) (off : Nat) (bytes : List UInt8) : Except Fault Image :=
  if off + bytes.length ≤ img.size then
    .ok { img with byte := fun k => if off ≤ k ∧ k < off + bytes.length then at' bytes (k - off) else img.byte k }
  else .error (.outOfImage off bytes.length)

/-- The image, `alloc_hint`, and what the clock will show. -/
structure Mach where
  img : Image
  hint : Nat
  clock : Nat → Nat × Nat

/-- `fat_get`'s and `fat_set`'s address of an entry in FAT copy `i`. -/
def Vol.fatAddr (v : Vol) (i c : Nat) : Nat := v.base + v.fatOff + u32 (u32 (i * v.fatSectors) * sectorSize) + u32 (c * 2)

/-- `fat_cluster_ptr`, and the root directory. -/
def Vol.regionAddr (v : Vol) (r : Nat) : Nat :=
  if r = 0 then v.base + v.rootOff else v.base + v.dataOff + u32 ((r - 2) * v.clusterBytes)

/-- The first `n` FAT copies. -/
def Vol.putFat (v : Vol) (c : Nat) (bytes : List UInt8) : Nat → Image → Except Fault Image
  | 0, img => .ok img
  | n + 1, img => do (← v.putFat c bytes n img).put (v.fatAddr n c) bytes

def Vol.exec (v : Vol) : (o : FatOp) → Mach → Except Fault (o.Resp × Mach)
  | .fatGet c, s => do
    let b ← s.img.get (v.fatAddr 0 c) 2
    return (rd 2 (at' b) 0, s)
  | .fatSet c val, s => do
    let img ← v.putFat c (le 2 val) v.nfats s.img
    return ((), { s with img := img })
  | .load a n, s => do
    let b ← s.img.get (v.regionAddr a.region + a.off) n
    return (b, s)
  | .store a bytes, s => do
    let img ← s.img.put (v.regionAddr a.region + a.off) bytes
    return ((), { s with img := img })
  | .getHint, s => .ok (s.hint, s)
  | .setHint h, s => .ok ((), { s with hint := h })
  | .now, s => .ok (s.clock 0, { s with clock := fun n => s.clock (n + 1) })

/-! ## On a disk -/

structure Disk where
  fat : Nat → Nat
  mem : Nat → Nat → UInt8
  hint : Nat
  clock : Nat → Nat × Nat

def Disk.setFat (d : Disk) (c val : Nat) : Disk := { d with fat := fun k => if k = c then val else d.fat k }

def Disk.get (d : Disk) (a : Addr) (n : Nat) : List UInt8 := (List.range n).map fun i => d.mem a.region (a.off + i)

def Disk.put (d : Disk) (a : Addr) (bytes : List UInt8) : Disk :=
  { d with mem := fun r k =>
      if r = a.region ∧ a.off ≤ k ∧ k < a.off + bytes.length then at' bytes (k - a.off) else d.mem r k }

@[simp] theorem get_length (d : Disk) (a : Addr) (n : Nat) : (d.get a n).length = n := by simp [Disk.get]

theorem get_congr {d d' : Disk} {a : Addr} {n : Nat} (h : ∀ k, a.off ≤ k → k < a.off + n → d'.mem a.region k = d.mem a.region k) :
    d'.get a n = d.get a n :=
  List.map_congr_left fun i hi => h (a.off + i) (by omega) (by have := List.mem_range.mp hi; omega)

/-- Two ranges of bytes that do not meet. -/
def Addr.Apart (a : Addr) (n : Nat) (b : Addr) (m : Nat) : Prop :=
  a.region ≠ b.region ∨ a.off + n ≤ b.off ∨ b.off + m ≤ a.off

def diskStep : (o : FatOp) → Disk → o.Resp × Disk
  | .fatGet c, d => (d.fat c, d)
  | .fatSet c val, d => ((), d.setFat c (val % 65536))
  | .load a n, d => (d.get a n, d)
  | .store a bytes, d => ((), d.put a bytes)
  | .getHint, d => (d.hint, d)
  | .setHint h, d => ((), { d with hint := h })
  | .now, d => (d.clock 0, { d with clock := fun n => d.clock (n + 1) })

/-! ## Operations within the volume -/

/-- `fat_valid_cluster`. -/
def Vol.validCluster (v : Vol) (c : Nat) : Bool := 2 ≤ c && c < v.clusterCount + 2

def Vol.Valid (v : Vol) (c : Nat) : Prop := 2 ≤ c ∧ c < v.clusterCount + 2

theorem valid_iff {v : Vol} {c : Nat} : v.validCluster c = true ↔ v.Valid c := by
  simp [Vol.validCluster, Vol.Valid]

instance (v : Vol) (c : Nat) : Decidable (v.Valid c) := inferInstanceAs (Decidable (_ ∧ _))

/-- The size of a region. -/
def Vol.span (v : Vol) (r : Nat) : Nat := if r = 0 then v.rootEntries * direntSize else v.clusterBytes

/-- `n` bytes from `a` are in the root directory or in one cluster. -/
structure Vol.Within (v : Vol) (a : Addr) (n : Nat) : Prop where
  region : a.region = 0 ∨ v.Valid a.region
  fits : a.off + n ≤ v.span a.region

def Vol.Allowed (v : Vol) : FatOp → Disk → Prop
  | .fatGet c, _ => v.Valid c
  | .fatSet c _, _ => v.Valid c
  | .load a n, _ => v.Within a n
  | .store a bytes, _ => v.Within a bytes.length
  | _, _ => True

/-- The hint is a place to begin at. -/
structure Vol.DiskOk (v : Vol) (d : Disk) : Prop where
  hint : 2 ≤ d.hint ∧ d.hint ≤ v.clusterCount + 2

/-- The image holds the disk, in its first `copies` FAT copies, and is `img0` elsewhere. -/
structure Rep (v : Vol) (copies : Nat) (img0 : Image) (s : Mach) (d : Disk) : Prop where
  size : s.img.size = img0.size
  fat : ∀ i < copies, ∀ c, v.Valid c → rd 2 s.img.byte (v.fatAddr i c) = d.fat c
  mem : ∀ r k, r = 0 ∨ v.Valid r → k < v.span r → s.img.byte (v.regionAddr r + k) = d.mem r k
  hint : s.hint = d.hint
  clock : s.clock = d.clock
  frame : ∀ k, k < v.base + v.fatOff ∨ v.base + v.size ≤ k → s.img.byte k = img0.byte k

section Geometry

variable {v : Vol} {len : Nat}

theorem fatEnd_eq (v : Vol) : v.fatEnd = v.fatOff + v.nfats * v.fatSectors * 512 := rfl

/-- Nothing is past 32 bits, and the regions follow each other. -/
theorem Vol.Sound.layout (hv : v.Sound len) :
    v.rootOff = v.fatEnd ∧ v.dataOff = v.fatEnd + v.rootEntries * 32 ∧ v.fatEnd + v.rootEntries * 32 < 2 ^ 32 := by
  have h1 : v.dataOff = v.fatEnd + v.rootEntries * 32 := hv.noWrap
  have h2 : v.dataOff < 2 ^ 32 := by
    rw [hv.dataOff]
    exact Nat.mod_lt _ (by decide)
  refine ⟨?_, h1, by omega⟩
  rw [hv.rootOff, u32]
  omega

theorem fatAddr_eq (hv : v.Sound len) {i c : Nat} (hi : i < v.nfats) (hc : c < v.clusterCount + 2) :
    v.fatAddr i c = v.base + v.fatOff + i * v.fatSectors * 512 + c * 2 ∧
      v.fatOff + (i * v.fatSectors + v.fatSectors) * 512 ≤ v.fatEnd ∧ c * 2 + 2 ≤ v.fatSectors * 512 := by
  obtain ⟨-, -, hend⟩ := hv.layout
  have hmul : i * v.fatSectors + v.fatSectors ≤ v.nfats * v.fatSectors := by
    rw [← Nat.succ_mul]
    exact Nat.mul_le_mul_right _ hi
  have hE := fatEnd_eq v
  have hent := hv.entries
  have hfs := hv.fatSectors
  refine ⟨?_, by omega, by omega⟩
  simp only [Vol.fatAddr, u32, sectorSize]
  omega

theorem regionAddr_root (hv : v.Sound len) : v.regionAddr 0 = v.base + v.fatEnd := by
  obtain ⟨hroot, -, -⟩ := hv.layout
  rw [Vol.regionAddr, if_pos rfl, hroot]

theorem regionAddr_cluster (hv : v.Sound len) {r : Nat} (hr : v.Valid r) :
    v.regionAddr r = v.base + v.dataOff + (r - 2) * v.clusterBytes ∧
      (r - 2) * v.clusterBytes + v.clusterBytes ≤ v.clusterCount * v.clusterBytes := by
  have h2 := hr.1
  have hmul : (r - 2) * v.clusterBytes + v.clusterBytes ≤ v.clusterCount * v.clusterBytes := by
    rw [← Nat.succ_mul]
    refine Nat.mul_le_mul_right _ ?_
    have := hr.2
    omega
  have hpos : 0 < v.clusterBytes := by
    rw [hv.clusterBytes]
    have := hv.spc.1
    omega
  have hspan := hv.clusterSpan
  refine ⟨?_, hmul⟩
  rw [Vol.regionAddr, if_neg (by omega), u32, Nat.mod_eq_of_lt (by omega)]

/-- A FAT entry is inside the FAT area. -/
theorem fatAddr_span (hv : v.Sound len) {i c : Nat} (hi : i < v.nfats) (hc : v.Valid c) :
    v.base + v.fatOff ≤ v.fatAddr i c ∧ v.fatAddr i c + 2 ≤ v.base + v.fatEnd := by
  obtain ⟨h1, h2, h3⟩ := fatAddr_eq hv hi hc.2
  omega

/-- Different entries do not overlap. -/
theorem fatAddr_disjoint (hv : v.Sound len) {i c j e : Nat} (hi : i < v.nfats) (hc : v.Valid c) (hj : j < v.nfats)
    (he : v.Valid e) (hne : ¬ (i = j ∧ c = e)) :
    v.fatAddr i c + 2 ≤ v.fatAddr j e ∨ v.fatAddr j e + 2 ≤ v.fatAddr i c := by
  obtain ⟨h1, -, h3⟩ := fatAddr_eq hv hi hc.2
  obtain ⟨h4, -, h6⟩ := fatAddr_eq hv hj he.2
  rcases Nat.lt_trichotomy i j with hlt | heq | hgt
  · have hmul : i * v.fatSectors + v.fatSectors ≤ j * v.fatSectors := by
      rw [← Nat.succ_mul]
      exact Nat.mul_le_mul_right _ hlt
    omega
  · subst heq
    omega
  · have hmul : j * v.fatSectors + v.fatSectors ≤ i * v.fatSectors := by
      rw [← Nat.succ_mul]
      exact Nat.mul_le_mul_right _ hgt
    omega

/-- A region is behind the FAT area, inside the volume. -/
theorem region_span (hv : v.Sound len) {r : Nat} (hr : r = 0 ∨ v.Valid r) {k : Nat} (hk : k ≤ v.span r) :
    v.base + v.fatEnd ≤ v.regionAddr r + k ∧ v.regionAddr r + k ≤ v.base + v.size := by
  obtain ⟨hroot, hdata, -⟩ := hv.layout
  have hclus := hv.clusters
  have hsize := hv.data
  rcases hr with rfl | hr
  · rw [regionAddr_root hv]
    simp only [Vol.span, if_true, direntSize] at hk
    omega
  · obtain ⟨h1, h2⟩ := regionAddr_cluster hv hr
    have hne : r ≠ 0 := by have := hr.1; omega
    simp only [Vol.span, hne, if_false] at hk
    omega

/-- Different places in the regions are different places in the image. -/
theorem region_inj (hv : v.Sound len) {r q : Nat} (hr : r = 0 ∨ v.Valid r) (hq : q = 0 ∨ v.Valid q) {k m : Nat}
    (hk : k < v.span r) (hm : m < v.span q) (h : v.regionAddr r + k = v.regionAddr q + m) : r = q ∧ k = m := by
  obtain ⟨-, hdata, -⟩ := hv.layout
  rcases hr with rfl | hr <;> rcases hq with rfl | hq
  · exact ⟨rfl, by omega⟩
  · obtain ⟨h1, -⟩ := regionAddr_cluster hv hq
    rw [regionAddr_root hv] at h
    simp only [Vol.span, if_true, direntSize] at hk
    omega
  · obtain ⟨h1, -⟩ := regionAddr_cluster hv hr
    rw [regionAddr_root hv] at h
    simp only [Vol.span, if_true, direntSize] at hm
    omega
  · obtain ⟨h1, -⟩ := regionAddr_cluster hv hr
    obtain ⟨h2, -⟩ := regionAddr_cluster hv hq
    have hr1 := hr.1
    have hq1 := hq.1
    have hr0 : r ≠ 0 := by omega
    have hq0 : q ≠ 0 := by omega
    simp only [Vol.span, hr0, hq0, if_false] at hk hm
    rcases Nat.lt_trichotomy r q with hlt | heq | hgt
    · have hmul : (r - 2) * v.clusterBytes + v.clusterBytes ≤ (q - 2) * v.clusterBytes := by
        rw [← Nat.succ_mul]
        exact Nat.mul_le_mul_right _ (by omega)
      omega
    · subst heq
      exact ⟨rfl, by omega⟩
    · have hmul : (q - 2) * v.clusterBytes + v.clusterBytes ≤ (r - 2) * v.clusterBytes := by
        rw [← Nat.succ_mul]
        exact Nat.mul_le_mul_right _ (by omega)
      omega

end Geometry

/-! ## The image does what the disk does -/

section Refine

variable {v : Vol} {copies : Nat} {img0 : Image} {s : Mach} {d : Disk}

/-- The bytes of an image after a `put`. -/
theorem put_ok (img : Image) (off : Nat) (bytes : List UInt8) (h : off + bytes.length ≤ img.size) :
    ∃ img', img.put off bytes = .ok img' ∧ img'.size = img.size ∧
      (∀ k, k < off ∨ off + bytes.length ≤ k → img'.byte k = img.byte k) ∧
      ∀ k < bytes.length, img'.byte (off + k) = at' bytes k := by
  refine ⟨_, if_pos h, rfl, fun k hk => ?_, fun k hk => ?_⟩
  · exact if_neg (by omega)
  · simp only [Nat.le_add_right, Nat.add_lt_add_iff_left, hk, and_self, if_true, Nat.add_sub_cancel_left]

/-- Writing an entry in every copy. -/
theorem putFat_ok (hv : v.Sound img0.size) {c val : Nat} (hc : v.Valid c) (n : Nat) (hn : n ≤ v.nfats)
    {img : Image} (hsize : img.size = img0.size) :
    ∃ img', v.putFat c (le 2 val) n img = .ok img' ∧ img'.size = img0.size ∧
      (∀ k, (∀ i < n, k < v.fatAddr i c ∨ v.fatAddr i c + 2 ≤ k) → img'.byte k = img.byte k) ∧
      ∀ i < n, rd 2 img'.byte (v.fatAddr i c) = val % 65536 := by
  induction n with
  | zero => exact ⟨img, rfl, hsize, fun _ _ => rfl, fun i hi => absurd hi (Nat.not_lt_zero i)⟩
  | succ n ih =>
    obtain ⟨img1, h1, hsize1, hout1, hin1⟩ := ih (by omega)
    have hspan := fatAddr_span hv (show n < v.nfats by omega) hc
    have hdata := hv.data
    have hinside := hv.inside
    obtain ⟨img2, h2, hsize2, hout2, hin2⟩ := put_ok img1 (v.fatAddr n c) (le 2 val)
      (by rw [le_length, hsize1]; omega)
    rw [le_length] at hout2 hin2
    refine ⟨img2, ?_, by rw [hsize2, hsize1], fun k hk => ?_, fun i hi => ?_⟩
    · rw [Vol.putFat, h1]
      exact h2
    · rw [hout2 k (hk n (by omega)), hout1 k fun i hi => hk i (by omega)]
    · rcases Nat.lt_succ_iff_lt_or_eq.mp hi with hlt | rfl
      · have hdis := fatAddr_disjoint hv (show i < v.nfats by omega) hc (show n < v.nfats by omega) hc (by omega)
        rw [← hin1 i hlt]
        exact Lib.rd_congr fun k hk => hout2 _ (by omega)
      · have := rd_le 2 val []
        rw [List.append_nil, show 256 ^ 2 = 65536 from rfl] at this
        rw [← this]
        exact Lib.rd_congr fun k hk => by rw [hin2 k hk, Nat.zero_add]

theorem exec_load (hv : v.Sound img0.size) (hr : Rep v copies img0 s d) {a : Addr} {n : Nat} (ha : v.Within a n) :
    v.exec (.load a n) s = .ok (d.get a n, s) := by
  have hspan := region_span hv ha.region ha.fits
  have hinside := hv.inside
  have hget : s.img.get (v.regionAddr a.region + a.off) n = .ok (d.get a n) := by
    rw [Image.get, if_pos (by rw [hr.size]; omega)]
    refine congrArg Except.ok (List.map_congr_left fun i hi => ?_)
    have hi := List.mem_range.mp hi
    have hfits := ha.fits
    rw [Nat.add_assoc]
    exact hr.mem a.region (a.off + i) ha.region (by omega)
  show (do let b ← s.img.get (v.regionAddr a.region + a.off) n; return (b, s)) = _
  rw [hget]
  rfl

theorem exec_store (hv : v.Sound img0.size) (hcop : copies ≤ v.nfats) (hr : Rep v copies img0 s d) {a : Addr}
    {bytes : List UInt8} (ha : v.Within a bytes.length) :
    ∃ s', v.exec (.store a bytes) s = .ok ((), s') ∧ Rep v copies img0 s' (d.put a bytes) := by
  have hspan := region_span hv ha.region ha.fits
  have hspan0 := region_span hv ha.region (k := a.off) (by have := ha.fits; omega)
  have hinside := hv.inside
  have hE := fatEnd_eq v
  obtain ⟨img', hput, hsize, hout, hin⟩ := put_ok s.img (v.regionAddr a.region + a.off) bytes
    (by rw [hr.size]; omega)
  refine ⟨{ s with img := img' }, ?_, ?_⟩
  · show (do let img ← s.img.put (v.regionAddr a.region + a.off) bytes; return ((), { s with img := img })) = _
    rw [hput]
    rfl
  · refine ⟨hsize.trans hr.size, fun i hi c hc => ?_, fun r k hrv hk => ?_, hr.hint, hr.clock, fun k hk => ?_⟩
    · have hfat := fatAddr_span hv (show i < v.nfats by omega) hc
      rw [← show rd 2 s.img.byte (v.fatAddr i c) = (d.put a bytes).fat c from hr.fat i hi c hc]
      exact Lib.rd_congr fun k hk => hout _ (by omega)
    · simp only [Disk.put]
      split
      · rename_i hcond
        obtain ⟨rfl, h1, h2⟩ := hcond
        have := hin (k - a.off) (by omega)
        rw [← this]
        congr 1
        omega
      · rename_i hcond
        rw [← hr.mem r k hrv hk]
        refine hout _ ?_
        by_contra hno
        have hfits := ha.fits
        have hk' : v.regionAddr r + k = v.regionAddr a.region + (v.regionAddr r + k - v.regionAddr a.region) := by omega
        obtain ⟨h1, h2⟩ := region_inj hv hrv ha.region hk (by omega) hk'
        exact hcond ⟨h1, by omega, by omega⟩
    · rw [← hr.frame k hk]
      exact hout _ (by omega)

theorem exec_fatSet (hv : v.Sound img0.size) (hcop : copies ≤ v.nfats) (hr : Rep v copies img0 s d) {c val : Nat}
    (hc : v.Valid c) :
    ∃ s', v.exec (.fatSet c val) s = .ok ((), s') ∧ Rep v copies img0 s' (d.setFat c (val % 65536)) := by
  have hdata := hv.data
  have hE := fatEnd_eq v
  obtain ⟨img', hput, hsize, hout, hin⟩ := putFat_ok hv hc v.nfats (Nat.le_refl _) hr.size
  refine ⟨{ s with img := img' }, ?_, ?_⟩
  · show (do let img ← v.putFat c (le 2 val) v.nfats s.img; return ((), { s with img := img })) = _
    rw [hput]
    rfl
  · refine ⟨hsize, fun i hi e he => ?_, fun r k hrv hk => ?_, hr.hint, hr.clock, fun k hk => ?_⟩
    · by_cases hec : e = c
      · subst hec
        simpa [Disk.setFat] using hin i (by omega)
      · simp only [Disk.setFat, hec, if_false]
        rw [← hr.fat i hi e he]
        refine Lib.rd_congr fun k hk => hout _ fun j hj => ?_
        have := fatAddr_disjoint hv (show i < v.nfats by omega) he hj hc (by omega)
        omega
    · have hspan := region_span hv hrv (Nat.le_of_lt hk)
      rw [← show s.img.byte (v.regionAddr r + k) = (d.setFat c (val % 65536)).mem r k from hr.mem r k hrv hk]
      refine hout _ fun j hj => ?_
      have := fatAddr_span hv hj hc
      omega
    · rw [← hr.frame k hk]
      refine hout _ fun j hj => ?_
      have := fatAddr_span hv hj hc
      omega

theorem exec_fatGet (hv : v.Sound img0.size) (hcop : 0 < copies) (hr : Rep v copies img0 s d) {c : Nat} (hc : v.Valid c) :
    v.exec (.fatGet c) s = .ok (d.fat c, s) := by
  have hspan := fatAddr_span hv hv.nfats.1 hc
  have hdata := hv.data
  have hinside := hv.inside
  have hval : rd 2 (at' ((List.range 2).map fun i => s.img.byte (v.fatAddr 0 c + i))) 0 = d.fat c := by
    rw [← hr.fat 0 hcop c hc]
    refine Lib.rd_congr fun k hk => ?_
    have : k = 0 ∨ k = 1 := by omega
    rcases this with rfl | rfl <;> rfl
  show (do let b ← s.img.get (v.fatAddr 0 c) 2; return (rd 2 (at' b) 0, s)) = _
  rw [Image.get, if_pos (by rw [hr.size]; omega)]
  show Except.ok (_, s) = _
  rw [hval]

/-- In a sound volume the machine does on the image what it does on the disk. -/
theorem exec_refines (hv : v.Sound img0.size) (h0 : 0 < copies) (hcop : copies ≤ v.nfats) :
    Prog.Refines v.exec diskStep v.Allowed (Rep v copies img0) := by
  intro o s d hr ho
  cases o with
  | fatGet c => exact ⟨s, exec_fatGet hv h0 hr ho, hr⟩
  | fatSet c val => exact exec_fatSet hv hcop hr ho
  | load a n => exact ⟨s, exec_load hv hr ho, hr⟩
  | store a bytes => exact exec_store hv hcop hr ho
  | getHint => exact ⟨s, by rw [Vol.exec, hr.hint]; rfl, hr⟩
  | setHint h => exact ⟨{ s with hint := h }, rfl, hr.size, hr.fat, hr.mem, rfl, hr.clock, hr.frame⟩
  | now =>
    refine ⟨{ s with clock := fun n => s.clock (n + 1) }, ?_, hr.size, hr.fat, hr.mem, hr.hint, ?_, hr.frame⟩
    · rw [Vol.exec, hr.clock]
      rfl
    · simp only [hr.clock, diskStep]

end Refine

/-- The disk an image holds: always there, whatever the image's contents. -/
def Vol.diskOf (v : Vol) (img : Image) (hint : Nat) (clock : Nat → Nat × Nat) : Disk where
  fat := fun c => rd 2 img.byte (v.fatAddr 0 c)
  mem := fun r k => img.byte (v.regionAddr r + k)
  hint := hint
  clock := clock

theorem diskOf_rep (v : Vol) (img : Image) (hint : Nat) (clock : Nat → Nat × Nat) :
    Rep v 1 img ⟨img, hint, clock⟩ (v.diskOf img hint clock) := by
  refine ⟨rfl, fun i hi c _ => ?_, fun _ _ _ _ => rfl, rfl, rfl, fun _ _ => rfl⟩
  have : i = 0 := by omega
  subst this
  rfl

theorem diskOf_ok (v : Vol) (img : Image) (clock : Nat → Nat × Nat) : v.DiskOk (v.diskOf img 2 clock) :=
  ⟨Nat.le_refl 2, Nat.le_add_left 2 _⟩

end Be300.Fat
