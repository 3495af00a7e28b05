/-
  Be300.Fat.Volume — locating the FAT16 volume of an image (`src/cbea_install.c`).

  `fatParseBpb` checks a boot sector and computes the volume's geometry, `fatLocate` looks
  for a volume at sector 0 and at the entries of a block-0 partition table. Both are
  programs over one operation, reading a little-endian number at an offset of the image;
  a read past the end faults. Where the source computes in `uint32_t`, so does `u32`.

  Proved: both stay inside the image and terminate (`locate_confined`), and what they
  accept is a volume whose FAT copies, root directory and data clusters lie one behind the
  other inside it (`Vol.Accepted`), as long as no 32-bit field wrapped (`Vol.NoWrap`, which
  holds in every image below 4 GiB).
-/

import Be300.Lib.Prog
import Be300.Lib.Bytes
import Mathlib.Data.Nat.Bitwise

namespace Be300.Fat

open Be300.Lib (Prog rd)

/-! ## Images -/

/-- `byte` is read below `size` only. -/
structure Image where
  size : Nat
  byte : Nat → UInt8

inductive Fault where
  | outOfImage (off len : Nat)
  | lfnIndex
  | nullSlot
  | noFuel
  deriving DecidableEq, Repr

def u32 (n : Nat) : Nat := n % 2 ^ 32

def sectorSize : Nat := 512

def direntSize : Nat := 32

/-! ## Reading the boot sector -/

/-- Where to read, and how many bytes. -/
structure PeekOp where
  off : Nat
  width : Nat

abbrev Peek (α : Type) : Type := Prog PeekOp (fun _ => Nat) Fault α

def peek (off width : Nat) : Peek Nat := Prog.perform ⟨off, width⟩

def Image.peek (img : Image) (o : PeekOp) (_ : Unit) : Except Fault (Nat × Unit) :=
  if o.off + o.width ≤ img.size then .ok (rd o.width img.byte o.off, ()) else .error (.outOfImage o.off o.width)

/-- `fat_vol_t`; `base` is an offset into the image, `alloc_hint` is state. -/
structure Vol where
  base : Nat
  size : Nat
  spc : Nat
  nfats : Nat
  rootEntries : Nat
  fatSectors : Nat
  fatOff : Nat
  rootOff : Nat
  dataOff : Nat
  clusterBytes : Nat
  clusterCount : Nat
  deriving DecidableEq, Repr

/-- The fields `fat_parse_bpb` reads. -/
structure Bpb where
  bps : Nat
  spc : Nat
  reserved : Nat
  nfats : Nat
  rootEntries : Nat
  total16 : Nat
  total32 : Nat
  fatSectors : Nat
  deriving DecidableEq, Repr

def Bpb.total (b : Bpb) : Nat := if b.total16 = 0 then b.total32 else b.total16

/-- As many clusters as the data region holds, or as the FAT has entries for. -/
def Bpb.clusterCount (b : Bpb) (size dataOff : Nat) : Nat :=
  let dataSectors := (size - dataOff) / sectorSize
  let count := u32 (dataSectors / b.spc)
  if b.fatSectors * sectorSize / 2 < count + 2 then b.fatSectors * sectorSize / 2 - 2 else count

/-- The checks and the geometry, from the fields. The offsets are computed in 64 bits and
    stored in 32. -/
def Bpb.vol (b : Bpb) (base avail : Nat) : Option Vol :=
  let fatOff := b.reserved * sectorSize
  let rootOff := fatOff + b.nfats * b.fatSectors * sectorSize
  let dataOff := rootOff + b.rootEntries * direntSize
  let size := b.total * sectorSize
  if b.bps ≠ sectorSize ∨ b.spc = 0 ∨ b.spc &&& (b.spc - 1) ≠ 0 ∨ b.reserved = 0 ∨ b.nfats = 0 ∨ b.fatSectors = 0 ∨
      (b.rootEntries * direntSize) % sectorSize ≠ 0 then none
  else if avail < size then none
  else if size ≤ dataOff then none
  else if b.clusterCount size (u32 dataOff) = 0 then none
  else
    some {
      base := base
      size := size
      spc := b.spc
      nfats := b.nfats
      rootEntries := b.rootEntries
      fatSectors := b.fatSectors
      fatOff := u32 fatOff
      rootOff := u32 rootOff
      dataOff := u32 dataOff
      clusterBytes := b.spc * sectorSize
      clusterCount := b.clusterCount size (u32 dataOff) }

/-- "FAT16", as a number. -/
def fat16Magic : Nat := 0x3631544146

def readBpb (base : Nat) : Peek Bpb := do
  let bps ← peek (base + 0x0B) 2
  let spc ← peek (base + 0x0D) 1
  let reserved ← peek (base + 0x0E) 2
  let nfats ← peek (base + 0x10) 1
  let rootEntries ← peek (base + 0x11) 2
  let total16 ← peek (base + 0x13) 2
  let total32 ← peek (base + 0x20) 4
  let fatSectors ← peek (base + 0x16) 2
  return ⟨bps, spc, reserved, nfats, rootEntries, total16, total32, fatSectors⟩

def fatParseBpb (base avail : Nat) : Peek (Option Vol) :=
  if avail < sectorSize then return none
  else do
    if (← peek (base + 0x1FE) 1) ≠ 0x55 ∨ (← peek (base + 0x1FF) 1) ≠ 0xAA ∨ (← peek (base + 0x36) 5) ≠ fat16Magic then
      return none
    else
      let b ← readBpb base
      return b.vol base avail

/-- The partition table from `off` on: `n` more places to look at. -/
def locateFrom (len : Nat) : Nat → Nat → Peek (Option Vol)
  | 0, _ => return none
  | n + 1, off => do
    let start ← peek off 4
    let count ← peek (off + 4) 4
    if start = 0 ∨ count = 0 ∨ start = 0xFFFFFFFF ∨ count = 0xFFFFFFFF ∨ len < (start + count) * sectorSize then
      locateFrom len n (off + 4)
    else
      match ← fatParseBpb (start * sectorSize) (count * sectorSize) with
      | some v => return some v
      | none => locateFrom len n (off + 4)

def fatLocate (len : Nat) : Peek (Option Vol) := do
  match ← fatParseBpb 0 len with
  | some v => return some v
  | none => if len < 0x40 then return none else locateFrom len 15 0

/-! ## Volumes that are accepted -/

/-- Where the FAT copies end, were there no 32-bit fields. -/
def Vol.fatEnd (v : Vol) : Nat := v.fatOff + v.nfats * v.fatSectors * sectorSize

/-- The root directory and the data begin where the last FAT copy and the root directory end. -/
def Vol.NoWrap (v : Vol) : Prop := v.dataOff = v.fatEnd + v.rootEntries * direntSize

instance (v : Vol) : Decidable v.NoWrap := inferInstanceAs (Decidable (_ = _))

/-- What `fat_parse_bpb` makes sure of, for a volume inside `len` bytes. -/
structure Vol.Accepted (v : Vol) (len : Nat) : Prop where
  inside : v.base + v.size ≤ len
  spc : 0 < v.spc ∧ v.spc < 256
  clusterBytes : v.clusterBytes = v.spc * 512
  nfats : 0 < v.nfats ∧ v.nfats < 256
  fatSectors : 0 < v.fatSectors ∧ v.fatSectors < 65536
  rootEntries : v.rootEntries < 65536
  clusterCount : 0 < v.clusterCount
  entries : 2 * (v.clusterCount + 2) ≤ v.fatSectors * 512
  fatOff : 512 ≤ v.fatOff ∧ v.fatOff < 65536 * 512
  rootOff : v.rootOff = u32 v.fatEnd
  dataOff : v.dataOff = u32 (v.fatEnd + v.rootEntries * 32)
  data : v.fatEnd + v.rootEntries * 32 < v.size
  clusters : v.dataOff + v.clusterCount * v.clusterBytes ≤ v.size

theorem u32_le (n : Nat) : u32 n ≤ n := Nat.mod_le n _

/-- The clusters fit in the data region and in the FAT. -/
theorem Bpb.clusterCount_fits (b : Bpb) (size dataOff : Nat) :
    b.clusterCount size dataOff * (b.spc * 512) ≤ size - dataOff ∧
      (b.clusterCount size dataOff ≠ 0 → 2 * (b.clusterCount size dataOff + 2) ≤ b.fatSectors * 512) := by
  set count := u32 ((size - dataOff) / 512 / b.spc) with hcount
  have hle : count * b.spc * 512 ≤ size - dataOff :=
    Nat.mul_le_of_le_div 512 _ _ (Nat.mul_le_of_le_div b.spc count _ (u32_le _))
  have hbound : ∀ k, k ≤ count → k * (b.spc * 512) ≤ size - dataOff := fun k hk => by
    rw [← Nat.mul_assoc]
    exact Nat.le_trans (Nat.mul_le_mul_right _ (Nat.mul_le_mul_right _ hk)) hle
  have hdef : b.clusterCount size dataOff =
      if b.fatSectors * 512 / 2 < count + 2 then b.fatSectors * 512 / 2 - 2 else count := rfl
  rw [hdef]
  split
  · exact ⟨hbound _ (by omega), by omega⟩
  · exact ⟨hbound _ (Nat.le_refl _), by omega⟩

theorem Bpb.vol_accepted {b : Bpb} {base avail len : Nat} {v : Vol} (h : b.vol base avail = some v) (hin : base + avail ≤ len)
    (hspc : b.spc < 256) (hres : b.reserved < 65536) (hnf : b.nfats < 256) (hroot : b.rootEntries < 65536)
    (hfs : b.fatSectors < 65536) : v.Accepted len := by
  unfold Bpb.vol at h
  dsimp only at h
  split at h
  · cases h
  rename_i hfields
  split at h
  · cases h
  rename_i havail
  split at h
  · cases h
  rename_i hdata
  split at h
  · cases h
  rename_i hcount
  simp only [not_or, not_lt, not_le, ne_eq, not_not, sectorSize, direntSize] at hfields havail hdata hcount
  obtain ⟨-, h1, -, h3, h4, h5, -⟩ := hfields
  obtain ⟨hspan, hentries⟩ := b.clusterCount_fits (b.total * 512)
    (u32 (b.reserved * 512 + b.nfats * b.fatSectors * 512 + b.rootEntries * 32))
  have hfatOff : u32 (b.reserved * 512) = b.reserved * 512 := by
    simp only [u32]
    omega
  have hle := u32_le (b.reserved * 512 + b.nfats * b.fatSectors * 512 + b.rootEntries * 32)
  cases h
  exact {
    inside := by show base + b.total * 512 ≤ len; omega
    spc := ⟨Nat.pos_of_ne_zero h1, hspc⟩
    clusterBytes := rfl
    nfats := ⟨Nat.pos_of_ne_zero h4, hnf⟩
    fatSectors := ⟨Nat.pos_of_ne_zero h5, hfs⟩
    rootEntries := hroot
    clusterCount := Nat.pos_of_ne_zero hcount
    entries := hentries hcount
    fatOff := by show 512 ≤ u32 (b.reserved * 512) ∧ u32 (b.reserved * 512) < 65536 * 512; omega
    rootOff := by simp only [Vol.fatEnd, sectorSize, hfatOff]
    dataOff := by simp only [Vol.fatEnd, sectorSize, direntSize, hfatOff]
    data := by simp only [Vol.fatEnd, sectorSize, hfatOff]; exact hdata
    clusters := by simp only [sectorSize, direntSize]; omega }

/-- The geometry with nothing wrapped: everything the volume's functions compute with. -/
structure Vol.Sound (v : Vol) (len : Nat) : Prop extends v.Accepted len where
  noWrap : v.NoWrap
  clusterSpan : v.clusterCount * v.clusterBytes ≤ 2 ^ 32

theorem Vol.Accepted.sound {v : Vol} {len : Nat} (h : v.Accepted len) (hlen : len < 2 ^ 32) : v.Sound len := by
  refine ⟨h, ?_, ?_⟩
  · have h1 := h.inside
    have h2 := h.data
    rw [Vol.NoWrap, direntSize, h.dataOff, u32]
    omega
  · have h1 := h.inside
    have h2 := h.clusters
    omega

/-! ## Confinement -/

section Confined

variable {img : Image}

def Image.answer (img : Image) (o : PeekOp) (_ : Unit) : Nat × Unit := (rd o.width img.byte o.off, ())

def Image.Holds (img : Image) (o : PeekOp) (_ : Unit) : Prop := o.off + o.width ≤ img.size

theorem peek_refines (img : Image) : Prog.Refines img.peek img.answer img.Holds fun _ _ => True := by
  intro o t s _ ho
  have ho' : o.off + o.width ≤ img.size := ho
  exact ⟨(), by rw [Image.peek, if_pos ho']; rfl, trivial⟩

/-- A read inside the image answers a number of its width. -/
theorem wp_peek {off width : Nat} {Q : Nat → Unit → Prop} (hin : off + width ≤ img.size) (h : ∀ n, n < 256 ^ width → Q n ()) :
    (peek off width).wp img.answer img.Holds Q () :=
  Prog.wp_perform hin (h _ (Lib.rd_lt width img.byte off))

theorem fatParseBpb_wp {base avail : Nat} (hin : base + avail ≤ img.size) :
    (fatParseBpb base avail).wp img.answer img.Holds (fun r _ => ∀ v, r = some v → v.Accepted img.size) () := by
  unfold fatParseBpb
  split
  · exact Prog.wp_pure (by simp)
  · rename_i havail
    simp only [sectorSize, not_lt] at havail
    refine Prog.wp_bind (wp_peek (by omega) fun _ _ => Prog.wp_bind (wp_peek (by omega) fun _ _ =>
      Prog.wp_bind (wp_peek (by omega) fun _ _ => ?_)))
    split
    · exact Prog.wp_pure (by simp)
    · refine Prog.wp_bind ?_
      unfold readBpb
      refine Prog.wp_bind (wp_peek (by omega) fun bps _ => Prog.wp_bind (wp_peek (by omega) fun spc hspc =>
        Prog.wp_bind (wp_peek (by omega) fun res hres => Prog.wp_bind (wp_peek (by omega) fun nf hnf =>
        Prog.wp_bind (wp_peek (by omega) fun re hre => Prog.wp_bind (wp_peek (by omega) fun _ _ =>
        Prog.wp_bind (wp_peek (by omega) fun _ _ => Prog.wp_bind (wp_peek (by omega) fun fs hfs => ?_))))))))
      exact Prog.wp_pure (Prog.wp_pure fun v hv => Bpb.vol_accepted hv hin hspc hres hnf hre hfs)

theorem locateFrom_wp (n off : Nat) (h : off + n * 4 + 4 ≤ img.size) :
    (locateFrom img.size n off).wp img.answer img.Holds (fun r _ => ∀ v, r = some v → v.Accepted img.size) () := by
  induction n generalizing off with
  | zero => exact Prog.wp_pure (by simp)
  | succ n ih =>
    unfold locateFrom
    refine Prog.wp_bind (wp_peek (by omega) fun start _ => Prog.wp_bind (wp_peek (by omega) fun count _ => ?_))
    split
    · exact ih _ (by omega)
    · rename_i hent
      simp only [not_or, not_lt, sectorSize, Nat.add_mul] at hent
      obtain ⟨-, -, -, -, hfit⟩ := hent
      refine Prog.wp_seq (fatParseBpb_wp (by simp only [sectorSize]; omega)) fun r _ hr => ?_
      cases r with
      | none => exact ih _ (by omega)
      | some v => exact Prog.wp_pure hr

/-- `fat_locate` reads inside the image only, and accepts only sound volumes. -/
theorem fatLocate_wp (img : Image) :
    (fatLocate img.size).wp img.answer img.Holds (fun r _ => ∀ v, r = some v → v.Accepted img.size) () := by
  unfold fatLocate
  refine Prog.wp_seq (fatParseBpb_wp (by omega)) fun r _ hr => ?_
  cases r with
  | some v => exact Prog.wp_pure hr
  | none =>
    by_cases hlen : img.size < 0x40
    · simp only [hlen, if_true]
      exact Prog.wp_pure (by simp)
    · simp only [hlen, if_false]
      exact locateFrom_wp 15 0 (by omega)

end Confined

/-! ## The volume of an image -/

/-- `fat_locate` on an image. -/
def Image.locate (img : Image) : Except Fault (Option Vol) :=
  match (fatLocate img.size).run img.peek () with
  | .error e => .error e
  | .ok (r, _) => .ok r

/-- `fat_locate` on any image returns, having read inside it. -/
theorem locate_confined (img : Image) : ∃ r, img.locate = .ok r ∧ ∀ v, r = some v → v.Accepted img.size := by
  obtain ⟨r, _, _, hrun, -, -, hr⟩ := Prog.run_refines (t := ()) (peek_refines img) (fatLocate_wp img) trivial
  exact ⟨r, by rw [Image.locate, hrun], hr⟩

theorem locate_accepted {img : Image} {v : Vol} (h : img.locate = .ok (some v)) : v.Accepted img.size := by
  obtain ⟨r, hr, hacc⟩ := locate_confined img
  rw [h] at hr
  cases hr
  exact hacc v rfl

end Be300.Fat
