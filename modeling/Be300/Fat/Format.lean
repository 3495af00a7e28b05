/-
  Be300.Fat.Format — formatting a blank card image (`cbea_fat_format`).

  The cluster size is the first of 2 or 4 to 64 sectors that keeps the clusters within the
  FAT16 range; the size of a FAT follows from it. `Formats` says what the boot sector that
  is written should describe: clusters within the range, a FAT with an entry for each of
  them and the first two, regions one behind the other, and a volume that `fat_parse_bpb`
  accepts with all its clusters.

  Proved: all of it but the FAT's entries holds for every image from 8 MiB to 1 GiB
  (`format_described`), and the FAT has its entries exactly at the lengths that are `Roomy`
  (`format_iff`): it is sized for the sectors of a cluster and two FAT sectors together, and
  the two entries that belong to no cluster are left out.
-/

import Be300.Fat.Machine
import Be300.Cbea.Strings

namespace Be300.Fat

open Be300.Lib (Prog le le_length rd at' rd_congr rd_lt rd_le at'_append_left)
open Be300.Cbea (upperAscii)

/-! ## What a boot sector says -/

/-- The clusters of the data region. -/
def Bpb.dataClusters (b : Bpb) : Nat :=
  (b.total - b.reserved - b.nfats * b.fatSectors - b.rootEntries * direntSize / sectorSize) / b.spc

/-- Where each region begins and ends: the reserved sectors, the FATs, the root directory, the clusters. -/
def Bpb.regions (b : Bpb) : List (Nat × Nat) :=
  let fat i := (b.reserved + i * b.fatSectors) * sectorSize
  let root := fat b.nfats
  let data := root + b.rootEntries * direntSize
  (0, b.reserved * sectorSize) :: (List.range b.nfats).map (fun i => (fat i, fat (i + 1))) ++
    [(root, data), (data, data + b.dataClusters * b.spc * sectorSize)]

/-- The boot sector of an image. -/
def Image.bpb (img : Image) : Except Fault Bpb := (readBpb 0).run img.peek () |>.map Prod.fst

/-- `fat_parse_bpb` on the whole image. -/
def Image.parse (img : Image) : Except Fault (Option Vol) := (fatParseBpb 0 img.size).run img.peek () |>.map Prod.fst

namespace Format

/-! ## The code -/

def reserved : Nat := 1
def nfats : Nat := 2
def rootEntries : Nat := 512
def rootSectors : Nat := rootEntries * direntSize / sectorSize

def fatSectorsFor (total spc : Nat) : Nat :=
  let avail := total - reserved - rootSectors
  (avail + 256 * spc + nfats - 1) / (256 * spc + nfats)

def clustersFor (total spc : Nat) : Nat := (total - reserved - rootSectors - nfats * fatSectorsFor total spc) / spc

/-- `for (spc = ..; spc <= 64; spc *= 2)`: the size it stops at. -/
def spcLoop (total : Nat) : Nat → Nat → Option Nat
  | 0, _ => none
  | fuel + 1, spc =>
    if 64 < spc then none
    else if clustersFor total spc ≤ 65524 then some spc
    else spcLoop total fuel (spc * 2)

/-- Eleven characters, in capitals and padded with blanks. -/
def volumeName (label : Option (List UInt8)) : List UInt8 :=
  let name := ((label.getD []).take 11).map fun c => UInt8.ofNat (upperAscii c.toNat)
  name ++ List.replicate (11 - name.length) 0x20

/-- "BE300EMU" -/
def oemName : List UInt8 := [0x42, 0x45, 0x33, 0x30, 0x30, 0x45, 0x4D, 0x55]

/-- "FAT16   " -/
def typeName : List UInt8 := [0x46, 0x41, 0x54, 0x31, 0x36, 0x20, 0x20, 0x20]

/-- What is written, in order: where, and the bytes. -/
def formatStores (total spc : Nat) (label : Option (List UInt8)) (date time : Nat) : List (Nat × List UInt8) :=
  let fatSectors := fatSectorsFor total spc
  let root := (reserved + nfats * fatSectors) * sectorSize
  [ (0, List.replicate ((reserved + nfats * fatSectors + rootSectors) * sectorSize) 0),
    (0, [0xEB, 0x3C, 0x90]),
    (3, oemName),
    (0x0B, le 2 sectorSize),
    (0x0D, le 1 spc),
    (0x0E, le 2 reserved),
    (0x10, le 1 nfats),
    (0x11, le 2 rootEntries),
    if total < 0x10000 then (0x13, le 2 total) else (0x20, le 4 total),
    (0x15, [0xF8]),
    (0x16, le 2 fatSectors),
    (0x18, le 2 32),
    (0x1A, le 2 16),
    (0x24, [0x80]),
    (0x26, [0x29]),
    (0x27, le 4 (date * 65536 + time)),
    (0x2B, volumeName label),
    (0x36, typeName),
    (0x1FE, [0x55]),
    (0x1FF, [0xAA]),
    (reserved * sectorSize, le 2 0xFFF8),
    (reserved * sectorSize + 2, le 2 0xFFFF),
    ((reserved + fatSectors) * sectorSize, le 2 0xFFF8),
    ((reserved + fatSectors) * sectorSize + 2, le 2 0xFFFF),
    (root, volumeName label),
    (root + 11, [0x08]),
    (root + 22, le 2 time),
    (root + 24, le 2 date) ]

/-- Stores one after the other. -/
def putAll (img : Image) : List (Nat × List UInt8) → Except Fault Image
  | [] => .ok img
  | (off, bytes) :: rest => do putAll (← img.put off bytes) rest

/-- Whether it succeeded (0, not -1), and the image. The clock shows a date and a time. -/
def cbeaFatFormat (img : Image) (label : Option (List UInt8)) (now : Nat × Nat) : Except Fault (Bool × Image) :=
  if img.size % sectorSize ≠ 0 ∨ img.size < 8 * 1024 * 1024 ∨ 1024 * 1024 * 1024 < img.size then .ok (false, img)
  else
    let total := img.size / sectorSize
    match spcLoop total 7 (if 32768 ≤ total then 4 else 2) with
    | none => .ok (false, img)
    | some spc =>
      if clustersFor total spc < 4085 then .ok (false, img)
      else do
        let img' ← putAll img (formatStores total spc label now.1 now.2)
        return (true, img')

/-! ## What the boot sector should describe -/

/-- All but the FAT's entries. -/
structure Described (img : Image) (b : Bpb) : Prop where
  boot : img.bpb = .ok b
  total : b.total * sectorSize = img.size
  clusters : 4085 ≤ b.dataClusters ∧ b.dataClusters ≤ 65524
  disjoint : b.regions.Pairwise fun x y => x.2 ≤ y.1
  fits : ∀ r ∈ b.regions, r.2 ≤ img.size

/-- An entry for each cluster and the first two, and all the clusters are found. -/
structure Complete (img : Image) (b : Bpb) : Prop where
  entries : b.dataClusters + 2 ≤ b.fatSectors * sectorSize / 2
  parsed : ∃ v, img.parse = .ok (some v) ∧ v.clusterCount = b.dataClusters

/-- The image is formatted, and described as it should be. -/
def Formats (img : Image) (label : Option (List UInt8)) (now : Nat × Nat) : Prop :=
  ∃ img' b, cbeaFatFormat img label now = .ok (true, img') ∧ img'.size = img.size ∧ Described img' b ∧ Complete img' b

/-- The sectors of a cluster, by the sectors of the card. -/
def clusterSize (total : Nat) : Nat :=
  if total < 32768 then 2
  else if total < 262645 then 4
  else if total < 524745 then 8
  else if total < 1048945 then 16
  else 32

/-- The FAT's last sector has room for the two entries that belong to no cluster. -/
def Roomy (total : Nat) : Prop :=
  clusterSize total < (total - 33 + clusterSize total) % (256 * clusterSize total + 2)

instance (total : Nat) : Decidable (Roomy total) := inferInstanceAs (Decidable (_ < _))

section Sizes

variable {total : Nat}

theorem rootSectors_eq : rootSectors = 32 := rfl

theorem fatSectorsFor_eq (total spc : Nat) : fatSectorsFor total spc = (total - 33 + 256 * spc + 1) / (256 * spc + 2) := by
  simp only [fatSectorsFor, rootSectors_eq, reserved, nfats, Nat.sub_sub]
  rfl

theorem clustersFor_eq (total spc : Nat) :
    clustersFor total spc = (total - 33 - 2 * ((total - 33 + 256 * spc + 1) / (256 * spc + 2))) / spc := by
  rw [clustersFor, fatSectorsFor_eq, rootSectors_eq, reserved, nfats, Nat.sub_sub total 1 32]

/-- The cards with few enough clusters of `spc` sectors. -/
theorem clusters_le_iff {spc most : Nat}
    (hspc : (spc, most) ∈ [(2, 131594), (4, 262644), (8, 524744), (16, 1048944), (32, 2097344)])
    (hlow : 16384 ≤ total) : clustersFor total spc ≤ 65524 ↔ total ≤ most := by
  rw [clustersFor_eq]
  simp only [List.mem_cons, List.not_mem_nil, Prod.mk.injEq, or_false] at hspc
  rcases hspc with ⟨rfl, rfl⟩ | ⟨rfl, rfl⟩ | ⟨rfl, rfl⟩ | ⟨rfl, rfl⟩ | ⟨rfl, rfl⟩ <;> omega

/-- The loop stops at the cluster size that the card's size calls for. -/
theorem spcLoop_eq (hlow : 16384 ≤ total) (hhigh : total ≤ 2097152) :
    spcLoop total 7 (if 32768 ≤ total then 4 else 2) = some (clusterSize total) := by
  have h2 := clusters_le_iff (by decide : (2, 131594) ∈ _) hlow
  have h4 := clusters_le_iff (by decide : (4, 262644) ∈ _) hlow
  have h8 := clusters_le_iff (by decide : (8, 524744) ∈ _) hlow
  have h16 := clusters_le_iff (by decide : (16, 1048944) ∈ _) hlow
  have h32 := clusters_le_iff (by decide : (32, 2097344) ∈ _) hlow
  unfold clusterSize
  by_cases hsmall : total < 32768
  · rw [if_neg (by omega), if_pos hsmall, spcLoop, if_neg (by decide), if_pos (h2.mpr (by omega))]
  rw [if_pos (by omega), if_neg hsmall, spcLoop, if_neg (by decide)]
  by_cases hfour : total < 262645
  · rw [if_pos hfour, if_pos (h4.mpr (by omega))]
  rw [if_neg hfour, if_neg (fun h => hfour (by have := h4.mp h; omega)), spcLoop, if_neg (by decide)]
  by_cases height : total < 524745
  · rw [if_pos height, if_pos (h8.mpr (by omega))]
  rw [if_neg height, if_neg (fun h => height (by have := h8.mp h; omega)), spcLoop, if_neg (by decide)]
  by_cases hsixteen : total < 1048945
  · rw [if_pos hsixteen, if_pos (h16.mpr (by omega))]
  rw [if_neg hsixteen, if_neg (fun h => hsixteen (by have := h16.mp h; omega)), spcLoop, if_neg (by decide),
    if_pos (h32.mpr (by omega))]

/-- What is known of the sizes chosen. -/
structure Sized (total spc : Nat) : Prop where
  power : spc ∈ [2, 4, 8, 16, 32]
  fat : 0 < fatSectorsFor total spc ∧ fatSectorsFor total spc ≤ 257
  clusters : 4085 ≤ clustersFor total spc ∧ clustersFor total spc ≤ 65524

theorem clusterSize_sized (hlow : 16384 ≤ total) (hhigh : total ≤ 2097152) : Sized total (clusterSize total) := by
  have hfat := fatSectorsFor_eq total
  have hclusters := clustersFor_eq total
  unfold clusterSize
  split
  · exact ⟨by decide, by rw [hfat]; omega, by rw [hclusters]; omega⟩
  split
  · exact ⟨by decide, by rw [hfat]; omega, by rw [hclusters]; omega⟩
  split
  · exact ⟨by decide, by rw [hfat]; omega, by rw [hclusters]; omega⟩
  split
  · exact ⟨by decide, by rw [hfat]; omega, by rw [hclusters]; omega⟩
  · exact ⟨by decide, by rw [hfat]; omega, by rw [hclusters]; omega⟩

/-- When the FAT has an entry for every cluster and the first two. -/
theorem entries_iff {spc : Nat} (hspc : spc ∈ [2, 4, 8, 16, 32]) (hlow : 16384 ≤ total) :
    clustersFor total spc + 2 ≤ 256 * fatSectorsFor total spc ↔ spc < (total - 33 + spc) % (256 * spc + 2) := by
  rw [clustersFor_eq, fatSectorsFor_eq]
  simp only [List.mem_cons, List.not_mem_nil, or_false] at hspc
  rcases hspc with rfl | rfl | rfl | rfl | rfl <;> omega

end Sizes

section Stores

variable {img : Image} {off i w n : Nat} {bytes : List UInt8}

/-- An image after a store. -/
def wrote (img : Image) (s : Nat × List UInt8) : Image :=
  { img with byte := fun k => if s.1 ≤ k ∧ k < s.1 + s.2.length then at' s.2 (k - s.1) else img.byte k }

theorem putAll_ok (stores : List (Nat × List UInt8)) (h : ∀ s ∈ stores, s.1 + s.2.length ≤ img.size) :
    putAll img stores = .ok (stores.foldl wrote img) := by
  induction stores generalizing img with
  | nil => rfl
  | cons s rest ih =>
    have hput : img.put s.1 s.2 = .ok (wrote img s) := if_pos (h s List.mem_cons_self)
    have hrest : putAll (wrote img s) rest = .ok (rest.foldl wrote (wrote img s)) :=
      ih fun t ht => h t (List.mem_cons_of_mem s ht)
    show (img.put s.1 s.2 >>= fun img => putAll img rest) = _
    rw [hput]
    exact hrest

theorem foldl_wrote_size (stores : List (Nat × List UInt8)) : (stores.foldl wrote img).size = img.size := by
  induction stores generalizing img with
  | nil => rfl
  | cons s rest ih => exact ih

theorem rd_wrote_apart (h : i + w ≤ off ∨ off + bytes.length ≤ i) : rd w (wrote img (off, bytes)).byte i = rd w img.byte i := by
  refine rd_congr fun k hk => if_neg ?_
  show ¬ (off ≤ i + k ∧ i + k < off + bytes.length)
  omega

theorem rd_wrote_inside (h : off ≤ i ∧ i + w ≤ off + bytes.length) :
    rd w (wrote img (off, bytes)).byte i = rd w (at' bytes) (i - off) := by
  refine rd_congr fun k hk => ?_
  have hin : off ≤ i + k ∧ i + k < off + bytes.length := by omega
  have hoff : i + k - off = i - off + k := by omega
  exact (if_pos hin).trans (congrArg (at' bytes) hoff)

theorem rd_le_self (w n : Nat) : rd w (at' (le w n)) 0 = n % 256 ^ w := by
  rw [← List.append_nil (le w n)]
  exact rd_le w n []

theorem rd_zeros (w n i : Nat) : rd w (at' (List.replicate n 0)) i = 0 := by
  have hzero : ∀ k, at' (List.replicate n (0 : UInt8)) k = 0 := by
    intro k
    simp [at', List.getD_eq_getElem?_getD, List.getElem?_replicate]
    split <;> rfl
  induction w generalizing i with
  | zero => rfl
  | succ w ih =>
    rw [rd, ih, hzero]
    rfl

@[simp] theorem volumeName_length (label : Option (List UInt8)) : (volumeName label).length = 11 := by
  have htake := List.length_take_le 11 (label.getD [])
  simp only [volumeName, List.length_append, List.length_replicate, List.length_map]
  omega

end Stores

section Boot

variable {img : Image} {total spc : Nat} (label : Option (List UInt8)) (date time : Nat)

/-- The fields written to the boot sector. -/
def formatBpb (total spc : Nat) : Bpb where
  bps := sectorSize
  spc := spc
  reserved := reserved
  nfats := nfats
  rootEntries := rootEntries
  total16 := if total < 0x10000 then total else 0
  total32 := if total < 0x10000 then 0 else total
  fatSectors := fatSectorsFor total spc

/-- The boot sector holds the fields, its signature and its type. -/
theorem formatted_fields (img : Image) (hspc : spc < 256) (htotal : total < 2 ^ 32)
    (hfat : 0 < fatSectorsFor total spc ∧ fatSectorsFor total spc < 65536) :
    let byte := ((formatStores total spc label date time).foldl wrote img).byte
    (rd 2 byte 0x0B = sectorSize ∧ rd 1 byte 0x0D = spc ∧ rd 2 byte 0x0E = reserved ∧ rd 1 byte 0x10 = nfats ∧
      rd 2 byte 0x11 = rootEntries ∧ rd 2 byte 0x13 = (formatBpb total spc).total16 ∧
      rd 4 byte 0x20 = (formatBpb total spc).total32 ∧ rd 2 byte 0x16 = fatSectorsFor total spc) ∧
      rd 1 byte 0x1FE = 0x55 ∧ rd 1 byte 0x1FF = 0xAA ∧ rd 5 byte 0x36 = fat16Magic := by
  intro byte
  have hmagic : rd 5 (at' typeName) 0 = fat16Magic := by decide
  have h55 : rd 1 (at' [0x55]) 0 = 0x55 := by decide
  have hAA : rd 1 (at' [0xAA]) 0 = 0xAA := by decide
  have hspc' : spc % 256 = spc := Nat.mod_eq_of_lt hspc
  have hfat' : fatSectorsFor total spc % 65536 = fatSectorsFor total spc := Nat.mod_eq_of_lt hfat.2
  simp only [byte, formatStores, List.foldl_cons, List.foldl_nil, rootSectors_eq, reserved, nfats, rootEntries, sectorSize,
    formatBpb]
  generalize fatSectorsFor total spc = fat at *
  by_cases hbig : total < 0x10000
  · simp (disch := (simp only [le_length, volumeName_length, oemName, typeName, List.length_cons, List.length_nil,
      List.length_replicate]; try omega)) only [if_pos hbig, rd_wrote_apart, rd_wrote_inside]
    simp only [Nat.sub_self, rd_le_self, rd_zeros, hmagic, h55, hAA]
    have hsmall : total % 65536 = total := Nat.mod_eq_of_lt hbig
    simp only [Nat.reducePow, Nat.reduceMod, and_self, hspc', hfat', hsmall]
  · simp (disch := (simp only [le_length, volumeName_length, oemName, typeName, List.length_cons, List.length_nil,
      List.length_replicate]; try omega)) only [if_neg hbig, rd_wrote_apart, rd_wrote_inside]
    simp only [Nat.sub_self, rd_le_self, rd_zeros, hmagic, h55, hAA]
    have hlarge : total % 4294967296 = total := Nat.mod_eq_of_lt htotal
    simp only [Nat.reducePow, Nat.reduceMod, and_self, hspc', hfat', hlarge]

theorem run_peek {off width : Nat} (h : off + width ≤ img.size) :
    (peek off width).run img.peek () = .ok (rd width img.byte off, ()) := by
  have hpeek : img.peek ⟨off, width⟩ () = .ok (rd width img.byte off, ()) := if_pos h
  simp only [peek, Prog.perform, Prog.run, hpeek]

theorem run_readBpb (hsize : 512 ≤ img.size) : (readBpb 0).run img.peek () =
    .ok (⟨rd 2 img.byte 0x0B, rd 1 img.byte 0x0D, rd 2 img.byte 0x0E, rd 1 img.byte 0x10, rd 2 img.byte 0x11,
      rd 2 img.byte 0x13, rd 4 img.byte 0x20, rd 2 img.byte 0x16⟩, ()) := by
  unfold readBpb
  rw [Prog.run_bind_ok (run_peek (by omega)), Prog.run_bind_ok (run_peek (by omega)), Prog.run_bind_ok (run_peek (by omega)),
    Prog.run_bind_ok (run_peek (by omega)), Prog.run_bind_ok (run_peek (by omega)), Prog.run_bind_ok (run_peek (by omega)),
    Prog.run_bind_ok (run_peek (by omega)), Prog.run_bind_ok (run_peek (by omega))]
  rfl

/-- What `fat_parse_bpb` makes of an image with a FAT16 boot sector. -/
theorem parse_eq {b : Bpb} (hsize : 512 ≤ img.size) (h55 : rd 1 img.byte 0x1FE = 0x55) (hAA : rd 1 img.byte 0x1FF = 0xAA)
    (hmagic : rd 5 img.byte 0x36 = fat16Magic) (hb : img.bpb = .ok b) : img.parse = .ok (b.vol 0 img.size) := by
  have hread : (readBpb 0).run img.peek () = .ok (b, ()) := by
    unfold Image.bpb at hb
    rw [run_readBpb hsize] at hb ⊢
    cases hb
    rfl
  unfold Image.parse fatParseBpb
  rw [if_neg (by unfold sectorSize; omega), Prog.run_bind_ok (run_peek (by omega)), Prog.run_bind_ok (run_peek (by omega)),
    Prog.run_bind_ok (run_peek (by omega)), Nat.zero_add, Nat.zero_add, Nat.zero_add, if_neg (by simp [h55, hAA, hmagic]),
    Prog.run_bind_ok hread]
  rfl

end Boot

section Volume

variable {total spc : Nat}

theorem formatBpb_total (h : 0 < total) : (formatBpb total spc).total = total := by
  unfold Bpb.total formatBpb
  by_cases hbig : total < 0x10000
  · simp only [if_pos hbig]
    rw [if_neg (Nat.pos_iff_ne_zero.mp h)]
  · simp only [if_neg hbig, if_true]

theorem formatBpb_clusters (h : 0 < total) : (formatBpb total spc).dataClusters = clustersFor total spc := by
  unfold Bpb.dataClusters clustersFor
  rw [formatBpb_total h]
  simp only [formatBpb, rootSectors]
  congr 1
  omega

/-- The volume that is found has all the clusters if the FAT has the entries. -/
theorem formatBpb_vol (hsized : Sized total spc) (htotal : 16384 ≤ total) (hhigh : total ≤ 2097152)
    (hentries : clustersFor total spc + 2 ≤ 256 * fatSectorsFor total spc) :
    ∃ v, (formatBpb total spc).vol 0 (total * sectorSize) = some v ∧ v.clusterCount = clustersFor total spc := by
  have hfat := hsized.fat
  have hclusters := hsized.clusters
  have hpower : spc ≠ 0 ∧ spc &&& (spc - 1) = 0 := by
    have hall : ∀ s ∈ [2, 4, 8, 16, 32], s ≠ 0 ∧ s &&& (s - 1) = 0 := by decide
    exact hall spc hsized.power
  have hdata : (total * 512 - (1 * 512 + 2 * fatSectorsFor total spc * 512 + 512 * 32)) / 512 =
      total - 1 - 32 - 2 * fatSectorsFor total spc := by omega
  have hwrap : u32 (1 * 512 + 2 * fatSectorsFor total spc * 512 + 512 * 32) =
      1 * 512 + 2 * fatSectorsFor total spc * 512 + 512 * 32 := by
    unfold u32
    omega
  have hcount : (formatBpb total spc).clusterCount (total * 512)
      (u32 (1 * 512 + 2 * fatSectorsFor total spc * 512 + 512 * 32)) = clustersFor total spc := by
    have hquot : (total - 1 - 32 - 2 * fatSectorsFor total spc) / (formatBpb total spc).spc = clustersFor total spc := rfl
    unfold Bpb.clusterCount sectorSize
    rw [hwrap, hdata]
    have hu : u32 (clustersFor total spc) = clustersFor total spc := Nat.mod_eq_of_lt (by omega)
    simp only [hquot, hu]
    exact if_neg (by show ¬ fatSectorsFor total spc * 512 / 2 < _; omega)
  have hfields : ¬ (sectorSize ≠ sectorSize ∨ spc = 0 ∨ spc &&& (spc - 1) ≠ 0 ∨ reserved = 0 ∨ nfats = 0 ∨
      fatSectorsFor total spc = 0 ∨ rootEntries * direntSize % sectorSize ≠ 0) := by
    have hne : fatSectorsFor total spc ≠ 0 := Nat.pos_iff_ne_zero.mp hfat.1
    have hroot : rootEntries * direntSize % sectorSize = 0 := rfl
    simp [hpower, hne, hroot, reserved, nfats]
  unfold Bpb.vol
  rw [formatBpb_total (by omega)]
  refine ⟨_, (if_neg hfields).trans ((if_neg (Nat.lt_irrefl _)).trans ((if_neg ?_).trans (if_neg ?_))), hcount⟩
  · show ¬ total * 512 ≤ 1 * 512 + 2 * fatSectorsFor total spc * 512 + 512 * 32
    omega
  · show ¬ (formatBpb total spc).clusterCount (total * 512) (u32 (1 * 512 + 2 * fatSectorsFor total spc * 512 + 512 * 32)) = 0
    rw [hcount]
    omega

end Volume

section Image

variable {img : Image} (hmult : img.size % 512 = 0) (hlow : 8 * 1024 * 1024 ≤ img.size) (hhigh : img.size ≤ 1024 * 1024 * 1024)
  (label : Option (List UInt8)) (now : Nat × Nat)

/-- The image that is written. -/
def formatted (img : Image) (label : Option (List UInt8)) (now : Nat × Nat) : Image :=
  (formatStores (img.size / 512) (clusterSize (img.size / 512)) label now.1 now.2).foldl wrote img

/-- The fields of its boot sector. -/
def formattedBpb (img : Image) : Bpb := formatBpb (img.size / 512) (clusterSize (img.size / 512))

include hlow hhigh in
theorem sized : Sized (img.size / 512) (clusterSize (img.size / 512)) := clusterSize_sized (by omega) (by omega)

include hmult hlow hhigh in
/-- Formatting succeeds, and writes inside the image. -/
theorem format_ok : cbeaFatFormat img label now = .ok (true, formatted img label now) := by
  have hsized := sized hlow hhigh
  have hfat := hsized.fat
  have hclusters := hsized.clusters
  have hput : putAll img (formatStores (img.size / 512) (clusterSize (img.size / 512)) label now.1 now.2) =
      .ok (formatted img label now) := by
    refine putAll_ok _ ?_
    intro s hs
    simp only [formatStores, List.mem_cons, List.not_mem_nil, or_false, rootSectors_eq, reserved, nfats, sectorSize] at hs
    generalize fatSectorsFor (img.size / 512) (clusterSize (img.size / 512)) = fat at hs hfat
    rcases hs with rfl | rfl | rfl | rfl | rfl | rfl | rfl | rfl | rfl | rfl | rfl | rfl | rfl | rfl | rfl | rfl | rfl | rfl |
      rfl | rfl | rfl | rfl | rfl | rfl | rfl | rfl | rfl | rfl
    all_goals
      try split
    all_goals
      simp only [le_length, volumeName_length, oemName, typeName, List.length_cons, List.length_nil, List.length_replicate]
      omega
  unfold cbeaFatFormat
  rw [if_neg (by unfold sectorSize; omega)]
  have hloop : spcLoop (img.size / sectorSize) 7 (if 32768 ≤ img.size / sectorSize then 4 else 2) =
      some (clusterSize (img.size / sectorSize)) := spcLoop_eq (by unfold sectorSize; omega) (by unfold sectorSize; omega)
  have hmany : ¬ clustersFor (img.size / sectorSize) (clusterSize (img.size / sectorSize)) < 4085 := Nat.not_lt.mpr hclusters.1
  simp only [hloop, if_neg hmany]
  show (putAll img (formatStores (img.size / 512) (clusterSize (img.size / 512)) label now.1 now.2) >>= fun i => pure (true, i)) =
    _
  rw [hput]
  rfl

include hlow hhigh in
theorem formatted_bpb : (formatted img label now).bpb = .ok (formattedBpb img) ∧
    (formatted img label now).parse = .ok ((formattedBpb img).vol 0 img.size) := by
  have hsized := sized hlow hhigh
  have hfat := hsized.fat
  have hspc : clusterSize (img.size / 512) < 256 := by
    have hall : ∀ s ∈ [2, 4, 8, 16, 32], s < 256 := by decide
    exact hall _ hsized.power
  have hsize : (formatted img label now).size = img.size := foldl_wrote_size _
  obtain ⟨⟨h1, h2, h3, h4, h5, h6, h7, h8⟩, h55, hAA, hmagic⟩ :=
    formatted_fields label now.1 now.2 img hspc (by omega) ⟨hfat.1, Nat.lt_of_le_of_lt hfat.2 (by decide)⟩
  have hbpb : (formatted img label now).bpb = .ok (formattedBpb img) := by
    unfold Image.bpb
    rw [run_readBpb (by omega)]
    unfold formatted formattedBpb
    rw [h1, h2, h3, h4, h5, h6, h7, h8]
    rfl
  refine ⟨hbpb, ?_⟩
  rw [← hsize]
  exact parse_eq (by omega) h55 hAA hmagic hbpb

include hmult hlow hhigh in
/-- On every image of a permitted length all but the FAT's entries is as it should be. -/
theorem format_described : Described (formatted img label now) (formattedBpb img) := by
  have hsized := sized hlow hhigh
  have hfat := hsized.fat
  have hpos : 0 < img.size / 512 := by omega
  have hsize : (formatted img label now).size = img.size := foldl_wrote_size _
  have hclusters : (formattedBpb img).dataClusters = clustersFor (img.size / 512) (clusterSize (img.size / 512)) :=
    formatBpb_clusters hpos
  have hspan := Nat.div_mul_le_self (img.size / 512 - reserved - rootSectors -
    nfats * fatSectorsFor (img.size / 512) (clusterSize (img.size / 512))) (clusterSize (img.size / 512))
  have hregions : (formattedBpb img).regions =
      let fat := fatSectorsFor (img.size / 512) (clusterSize (img.size / 512))
      let data := (1 + 2 * fat) * 512 + 512 * 32
      [(0, 512), ((1 + 0 * fat) * 512, (1 + 1 * fat) * 512), ((1 + 1 * fat) * 512, (1 + 2 * fat) * 512),
        ((1 + 2 * fat) * 512, data),
        (data, data + clustersFor (img.size / 512) (clusterSize (img.size / 512)) * clusterSize (img.size / 512) * 512)] := by
    have htwo : List.range 2 = [0, 1] := rfl
    unfold Bpb.regions
    rw [hclusters]
    simp only [formattedBpb, formatBpb, reserved, nfats, rootEntries, direntSize, sectorSize, htwo, List.map_cons, List.map_nil,
      List.cons_append, List.nil_append, Nat.zero_add, Nat.one_mul]
  have hroot : rootSectors = 32 := rfl
  unfold clustersFor at hregions
  rw [hroot, reserved, nfats] at hspan hregions
  generalize (img.size / 512 - 1 - 32 - 2 * fatSectorsFor (img.size / 512) (clusterSize (img.size / 512))) /
    clusterSize (img.size / 512) * clusterSize (img.size / 512) = span at *
  refine ⟨(formatted_bpb hlow hhigh label now).1, ?_, ?_, ?_, ?_⟩
  · rw [formattedBpb, formatBpb_total hpos, hsize]
    exact Nat.div_mul_cancel (Nat.dvd_of_mod_eq_zero hmult)
  · rw [hclusters]
    exact hsized.clusters
  · rw [hregions]
    simp
    omega
  · rw [hregions, hsize]
    simp
    omega

include hlow in
/-- The FAT's entries, as the boot sector counts them. -/
theorem formatted_entries (hsized : Sized (img.size / 512) (clusterSize (img.size / 512))) :
    (formattedBpb img).dataClusters + 2 ≤ (formattedBpb img).fatSectors * sectorSize / 2 ↔ Roomy (img.size / 512) := by
  have hclusters : (formattedBpb img).dataClusters = clustersFor (img.size / 512) (clusterSize (img.size / 512)) :=
    formatBpb_clusters (by omega)
  have hfat : (formattedBpb img).fatSectors * sectorSize / 2 = 256 * fatSectorsFor (img.size / 512)
    (clusterSize (img.size / 512)) := by
    show fatSectorsFor _ _ * 512 / 2 = _
    omega
  rw [hclusters, hfat]
  exact entries_iff hsized.power (by omega)

include hmult hlow hhigh in
theorem roomy_of_formats (h : Formats img label now) : Roomy (img.size / 512) := by
  obtain ⟨img', b, hrun, -, hdescribed, hcomplete⟩ := h
  rw [format_ok hmult hlow hhigh] at hrun
  cases hrun
  have hboot := hdescribed.boot
  rw [(formatted_bpb hlow hhigh label now).1] at hboot
  cases hboot
  exact (formatted_entries hlow (sized hlow hhigh)).mp hcomplete.entries

include hmult hlow hhigh in
theorem formats_of_roomy (h : Roomy (img.size / 512)) : Formats img label now := by
  have hsized := sized hlow hhigh
  have hentries := (formatted_entries hlow hsized).mpr h
  have hsize : img.size / 512 * sectorSize = img.size := Nat.div_mul_cancel (Nat.dvd_of_mod_eq_zero hmult)
  obtain ⟨v, hvol, hcount⟩ := formatBpb_vol hsized (by omega) (by omega) ((entries_iff hsized.power (by omega)).mpr h)
  rw [hsize] at hvol
  refine ⟨formatted img label now, formattedBpb img, format_ok hmult hlow hhigh label now, foldl_wrote_size _,
    format_described hmult hlow hhigh label now, hentries, v, ?_, hcount.trans (formatBpb_clusters (by omega)).symm⟩
  rw [(formatted_bpb hlow hhigh label now).2]
  exact congrArg Except.ok hvol

include hmult hlow hhigh in
/-- A card is formatted as it should be exactly when its length leaves room for the FAT's
    first two entries. -/
theorem format_iff : Formats img label now ↔ Roomy (img.size / 512) :=
  ⟨roomy_of_formats hmult hlow hhigh label now, formats_of_roomy hmult hlow hhigh label now⟩

end Image

/-- The smallest card formatted. -/
theorem format_eight_mib : Formats ⟨8 * 1024 * 1024, fun _ => 0⟩ none (33, 0) :=
  (format_iff (by decide) (by decide) (by decide) none (33, 0)).mpr (by decide)

/-- 16479 sectors: 8191 clusters, and a FAT of 32 sectors with 8192 entries. -/
theorem format_short_fat : ¬ Formats ⟨16479 * 512, fun _ => 0⟩ none (33, 0) := fun h =>
  absurd (roomy_of_formats (by decide) (by decide) (by decide) none (33, 0) h) (by decide)

end Format

end Be300.Fat
