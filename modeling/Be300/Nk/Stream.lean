/-
  Be300.Nk.Stream — the B000FF stream a kernel image decompresses to (`tools/nk_lzss.py`).

  A stream is a signature, two words, and records of an address, a length, a checksum and
  the data; a record at address 0 ends it and has the entry point for a length. Parsing
  scatters the records over a flat image, in their order, from the page of the lowest
  address on; patching gathers them back from a flat image and packs the checksums.

  Proved:
  - `parse_eq_ok_iff`: the parser accepts what a `Chain` of records describes.
  - `patched_chain`: a patched stream has the chain of the stream that was patched, but for
    the checksums.
  - `patch_parses`: so it parses to the same records, and to what it was patched with.
    A flat image of 4 GiB or more has no size word, and patching fails
    (`patch_wide`).
-/

import Be300.Lib.Splice
import Mathlib.Data.List.MinMax
import Mathlib.Data.List.Pairwise
import Mathlib.Tactic.Common

namespace Be300.Nk

open Lib

/-- `B000FF_SIG`. -/
def b000ffSig : List UInt8 := [0x42, 0x30, 0x30, 0x30, 0x46, 0x46, 0x0A]
def entryBytes : Nat := 12

inductive NkError where
  | value (text : String)
  | struct
  deriving DecidableEq, Repr

structure LogicalRecord where
  index : Nat
  va : Nat
  length : Nat
  checksum : Nat
  dataOff : Nat
  deriving DecidableEq, Repr

structure LogicalNkImage where
  imageStart : Nat
  declaredFlatSize : Nat
  entryVa : Nat
  baseVa : Nat
  flatSize : Nat
  terminalOff : Nat
  streamEnd : Nat
  records : List LogicalRecord
  logicalStream : List UInt8
  flatImage : List UInt8

/-- `0x{n:X}`. -/
def hex (n : Nat) : String := "0x" ++ String.ofList ((Nat.toDigits 16 n).map Char.toUpper)

def u32 (data : List UInt8) (off : Nat) : Nat := rd 4 (at' data) off

/-! ## Parsing -/

/-- The records, `entry_va` and `terminal_off`. -/
def parseLoop (logical : List UInt8) (records : List LogicalRecord) (off : Nat) :
    Except NkError (List LogicalRecord × Nat × Nat) :=
  if _h : logical.length < off + entryBytes then .error (.value ("record header exceeds logical stream at " ++ hex off))
  else
    let addr := u32 logical off
    let length := u32 logical (off + 4)
    let checksum := u32 logical (off + 8)
    let hdrOff := off
    let dataOff := off + entryBytes
    if addr = 0 then .ok (records, length, hdrOff)
    else
      let dataEnd := dataOff + length
      if logical.length < dataEnd then
        .error (.value ("record " ++ toString records.length ++ " overflows logical stream: data_end=" ++ hex dataEnd ++
          " size=" ++ hex logical.length))
      else parseLoop logical (records ++ [⟨records.length, addr, length, checksum, dataOff⟩]) dataEnd
termination_by logical.length - off
decreasing_by
  simp only [entryBytes] at *
  omega

/-- The part of the stream a record names. -/
def LogicalRecord.data (r : LogicalRecord) (logical : List UInt8) : List UInt8 := (logical.drop r.dataOff).take r.length

/-- `flat[start:start + record.length] = ...` over the records. -/
def fillFlat (logical : List UInt8) (baseVa : Nat) (records : List LogicalRecord) (flat : List UInt8) : List UInt8 :=
  records.foldl (fun flat r => splice flat (r.va - baseVa) (r.va - baseVa + r.length) (r.data logical)) flat

/-- `& ~0xFFF` of the lowest address. -/
def baseOf (records : List LogicalRecord) : Nat :=
  let lowest := (records.map fun r => r.va).min?.getD 0
  lowest - (lowest &&& 0xFFF)

def flatSizeOf (records : List LogicalRecord) : Nat := (records.map fun r => r.va + r.length).max?.getD 0 - baseOf records

def imageOf (logical : List UInt8) (records : List LogicalRecord) (entryVa terminalOff : Nat) : LogicalNkImage :=
  let baseVa := baseOf records
  let flatSize := flatSizeOf records
  { imageStart := u32 logical b000ffSig.length
    declaredFlatSize := u32 logical (b000ffSig.length + 4)
    entryVa
    baseVa
    flatSize
    terminalOff
    streamEnd := terminalOff + entryBytes
    records
    logicalStream := logical.take (terminalOff + entryBytes)
    flatImage := fillFlat logical baseVa records (List.replicate flatSize 0) }

def parseLogicalNkStream (logical : List UInt8) : Except NkError LogicalNkImage := do
  if logical.length < b000ffSig.length + 8 + entryBytes then throw (.value "logical stream is too small")
  if ¬ b000ffSig <+: logical then throw (.value "logical stream does not start with B000FF signature")
  let (records, entryVa, terminalOff) ← parseLoop logical [] (b000ffSig.length + 8)
  if records = [] then throw (.value "logical NK stream has no records")
  return imageOf logical records entryVa terminalOff

/-- A byte of a record's data or checksum. -/
def LogicalRecord.Has (r : LogicalRecord) (i : Nat) : Prop := r.dataOff ≤ i + 4 ∧ i < r.dataOff + r.length

/-- The records of a stream from `off` on, `index` the first one's; the last two are
    `entry_va` and `terminal_off`. -/
inductive Chain (logical : List UInt8) : Nat → Nat → List LogicalRecord → Nat → Nat → Prop
  | terminal {index off : Nat} : off + entryBytes ≤ logical.length → u32 logical off = 0 →
      Chain logical index off [] (u32 logical (off + 4)) off
  | record {index off entryVa terminalOff : Nat} {records : List LogicalRecord} :
      off + entryBytes + u32 logical (off + 4) ≤ logical.length → u32 logical off ≠ 0 →
      Chain logical (index + 1) (off + entryBytes + u32 logical (off + 4)) records entryVa terminalOff →
      Chain logical index off
        (⟨index, u32 logical off, u32 logical (off + 4), u32 logical (off + 8), off + entryBytes⟩ :: records) entryVa terminalOff

section Parse

variable {logical : List UInt8} {records acc : List LogicalRecord} {index off entryVa terminalOff : Nat}

theorem parseLoop_of_chain (h : Chain logical index off records entryVa terminalOff) (hacc : acc.length = index) :
    parseLoop logical acc off = .ok (acc ++ records, entryVa, terminalOff) := by
  induction h generalizing acc with
  | terminal hle hzero =>
    unfold parseLoop
    rw [dif_neg (Nat.not_lt.mpr hle)]
    dsimp only
    rw [if_pos hzero, List.append_nil]
  | record hle hne _ ih =>
    unfold parseLoop
    rw [dif_neg (by omega)]
    dsimp only
    rw [if_neg hne, if_neg (Nat.not_lt.mpr hle), ih (by simp [hacc]), hacc, List.append_assoc]
    rfl

theorem chain_of_parseLoop {result : List LogicalRecord} (h : parseLoop logical acc off = .ok (result, entryVa, terminalOff)) :
    ∃ records, result = acc ++ records ∧ Chain logical acc.length off records entryVa terminalOff := by
  induction acc, off using parseLoop.induct logical with
  | case1 acc off hshort =>
    rw [parseLoop, dif_pos hshort] at h
    cases h
  | case2 acc off hle addr hzero =>
    rw [parseLoop, dif_neg hle] at h
    dsimp only at h
    rw [if_pos hzero] at h
    cases h
    exact ⟨[], (List.append_nil _).symm, .terminal (Nat.not_lt.mp hle) hzero⟩
  | case3 acc off hle addr length dataOff hne dataEnd hend =>
    rw [parseLoop, dif_neg hle] at h
    dsimp only at h
    rw [if_neg hne, if_pos hend] at h
    cases h
  | case4 acc off hle addr length checksum dataOff hne dataEnd hend ih =>
    rw [parseLoop, dif_neg hle] at h
    dsimp only at h
    rw [if_neg hne, if_neg hend] at h
    obtain ⟨records, hresult, hchain⟩ := ih h
    rw [List.length_append, List.length_singleton] at hchain
    refine ⟨⟨acc.length, addr, length, checksum, dataOff⟩ :: records, ?_, .record (Nat.not_lt.mp hend) hne hchain⟩
    rw [hresult, List.append_assoc, List.singleton_append]

theorem parse_eq_ok_iff {image : LogicalNkImage} :
    parseLogicalNkStream logical = .ok image ↔
      27 ≤ logical.length ∧ b000ffSig <+: logical ∧
      ∃ records entryVa terminalOff, Chain logical 0 15 records entryVa terminalOff ∧ records ≠ [] ∧
        image = imageOf logical records entryVa terminalOff := by
  have hlen : b000ffSig.length + 8 + entryBytes = 27 := rfl
  have hstart : b000ffSig.length + 8 = 15 := rfl
  unfold parseLogicalNkStream
  rw [hlen, hstart]
  by_cases hshort : logical.length < 27
  · rw [if_pos hshort]
    constructor
    · intro h
      cases h
    · intro h
      exact absurd h.1 (Nat.not_le.mpr hshort)
  by_cases hsig : b000ffSig <+: logical
  · rw [if_neg hshort, if_neg (not_not.mpr hsig)]
    cases hloop : parseLoop logical [] 15 with
    | error e =>
      constructor
      · intro h
        cases h
      · rintro ⟨-, -, records, entryVa, terminalOff, hchain, -, -⟩
        rw [parseLoop_of_chain hchain rfl] at hloop
        cases hloop
    | ok result =>
      obtain ⟨found, entryVa, terminalOff⟩ := result
      obtain ⟨records, hfound, hchain⟩ := chain_of_parseLoop hloop
      rw [List.nil_append] at hfound
      subst hfound
      by_cases hnil : found = []
      · constructor
        · intro h
          simp only [hnil] at h
          cases h
        · rintro ⟨-, -, records, entryVa', terminalOff', hchain', hne, -⟩
          rw [parseLoop_of_chain hchain' rfl] at hloop
          cases hloop
          exact absurd hnil hne
      · constructor
        · intro h
          simp only [bind, Except.bind, hnil] at h
          cases h
          exact ⟨Nat.not_lt.mp hshort, hsig, found, entryVa, terminalOff, hchain, hnil, rfl⟩
        · rintro ⟨-, -, records, entryVa', terminalOff', hchain', -, himage⟩
          rw [parseLoop_of_chain hchain' rfl] at hloop
          cases hloop
          rw [himage]
          simp only [bind, Except.bind, hnil]
          rfl
  · rw [if_neg hshort, if_pos hsig]
    constructor
    · intro h
      cases h
    · intro h
      exact absurd h.2.1 hsig

theorem Chain.le_terminal (h : Chain logical index off records entryVa terminalOff) : off ≤ terminalOff := by
  induction h with
  | terminal => exact Nat.le_refl _
  | record _ _ _ ih => omega

theorem Chain.terminal_spec (h : Chain logical index off records entryVa terminalOff) :
    terminalOff + entryBytes ≤ logical.length ∧ u32 logical terminalOff = 0 ∧ u32 logical (terminalOff + 4) = entryVa := by
  induction h with
  | terminal hle hzero => exact ⟨hle, hzero, rfl⟩
  | record _ _ _ ih => exact ih

/-- Every record comes with its header, before the terminal. -/
theorem Chain.record_spec (h : Chain logical index off records entryVa terminalOff) :
    ∀ r ∈ records, off + entryBytes ≤ r.dataOff ∧ r.dataOff + r.length ≤ terminalOff ∧
      u32 logical (r.dataOff - entryBytes) = r.va ∧ u32 logical (r.dataOff - entryBytes + 4) = r.length := by
  induction h with
  | terminal => exact fun r hr => absurd hr List.not_mem_nil
  | record _ _ hrest ih =>
    intro r hr
    rcases List.mem_cons.mp hr with rfl | hr
    · dsimp only
      rw [Nat.add_sub_cancel]
      exact ⟨Nat.le_refl _, hrest.le_terminal, rfl, rfl⟩
    · obtain ⟨hoff, hend, hva, hlength⟩ := ih r hr
      exact ⟨by omega, hend, hva, hlength⟩

/-- Records do not overlap in the stream: a header lies between the data of two. -/
theorem Chain.apart (h : Chain logical index off records entryVa terminalOff) :
    records.Pairwise fun r s => r.dataOff + r.length + entryBytes ≤ s.dataOff := by
  induction h with
  | terminal => exact List.Pairwise.nil
  | record _ _ hrest ih =>
    refine List.Pairwise.cons ?_ ih
    intro s hs
    exact (hrest.record_spec s hs).1

/-- No record has another's header, or its own address and length. -/
theorem Chain.header_clear {r s : LogicalRecord} {k : Nat} (h : Chain logical index off records entryVa terminalOff)
    (hr : r ∈ records) (hs : s ∈ records) (hk : k < 8) : ¬ s.Has (r.dataOff - entryBytes + k) := by
  intro hhas
  have hfrom := hhas.1
  have hto := hhas.2
  have hroff := (h.record_spec r hr).1
  have hsoff := (h.record_spec s hs).1
  simp only [entryBytes] at hfrom hto hroff hsoff
  rcases eq_or_ne r s with rfl | hrs
  · omega
  · have hapart : r.dataOff + r.length + entryBytes ≤ s.dataOff ∨ s.dataOff + s.length + entryBytes ≤ r.dataOff := by
      let Apart : LogicalRecord → LogicalRecord → Prop :=
        fun r s => r.dataOff + r.length + entryBytes ≤ s.dataOff ∨ s.dataOff + s.length + entryBytes ≤ r.dataOff
      have hsymm : Std.Symm Apart := ⟨fun _ _ => Or.symm⟩
      exact List.Pairwise.forall (R := Apart) (h.apart.imp Or.inl) hr hs hrs
    simp only [entryBytes] at hapart
    omega

/-- A stream with the same headers has the same chain, but for the checksums. -/
theorem Chain.transfer (h : Chain logical index off records entryVa terminalOff) (patched : List UInt8)
    (hlen : terminalOff + entryBytes ≤ patched.length) (hzero : u32 patched terminalOff = 0)
    (hentry : u32 patched (terminalOff + 4) = entryVa)
    (hheaders : ∀ r ∈ records, u32 patched (r.dataOff - entryBytes) = r.va ∧
      u32 patched (r.dataOff - entryBytes + 4) = r.length) :
    Chain patched index off (records.map fun r => { r with checksum := u32 patched (r.dataOff - entryBytes + 8) }) entryVa
      terminalOff := by
  induction h with
  | terminal =>
    rw [← hentry]
    exact .terminal hlen hzero
  | record hle hne hrest ih =>
    have hrest' := ih hlen hzero hentry fun r hr => hheaders r (List.mem_cons_of_mem _ hr)
    have hend := hrest.le_terminal
    obtain ⟨hva, hlength⟩ := hheaders _ List.mem_cons_self
    dsimp only at hva hlength
    rw [Nat.add_sub_cancel] at hva hlength
    rw [← hlength] at hrest'
    have hrecord := Chain.record (by rw [hlength]; omega) (by rw [hva]; exact hne) hrest'
    rw [hva, hlength] at hrecord
    rw [List.map_cons]
    dsimp only
    rw [Nat.add_sub_cancel]
    exact hrecord

end Parse

section Flat

variable {records : List LogicalRecord} {r : LogicalRecord}

theorem baseOf_le (hr : r ∈ records) : baseOf records ≤ r.va := by
  have hmem : r.va ∈ records.map fun r => r.va := List.mem_map_of_mem hr
  obtain ⟨lowest, hlowest⟩ := Option.isSome_iff_exists.mp (List.isSome_min?_of_mem hmem)
  have hle := (List.min?_eq_some_iff.mp hlowest).2 r.va hmem
  unfold baseOf
  rw [hlowest]
  simp only [Option.getD_some]
  omega

theorem le_flatSizeOf (hr : r ∈ records) : r.va + r.length ≤ baseOf records + flatSizeOf records := by
  have hmem : r.va + r.length ∈ records.map fun r => r.va + r.length := List.mem_map_of_mem (f := fun r => r.va + r.length) hr
  obtain ⟨highest, hhighest⟩ := Option.isSome_iff_exists.mp (List.isSome_max?_of_mem hmem)
  have hle := (List.max?_eq_some_iff.mp hhighest).2 _ hmem
  have hbase := baseOf_le hr
  unfold flatSizeOf
  rw [hhighest]
  simp only [Option.getD_some]
  omega

/-- Some record has the byte `i` of the flat image. -/
def Covered (baseVa : Nat) (records : List LogicalRecord) (i : Nat) : Prop :=
  ∃ r ∈ records, r.va - baseVa ≤ i ∧ i < r.va - baseVa + r.length

instance (baseVa : Nat) (records : List LogicalRecord) (i : Nat) : Decidable (Covered baseVa records i) :=
  inferInstanceAs (Decidable (∃ r ∈ records, _))

theorem covered_cons (baseVa : Nat) (r : LogicalRecord) (rest : List LogicalRecord) (i : Nat) :
    Covered baseVa (r :: rest) i ↔ (r.va - baseVa ≤ i ∧ i < r.va - baseVa + r.length) ∨ Covered baseVa rest i := by
  simp [Covered]

/-- Records with the data of a flat image, scattered: later ones write over earlier ones,
    but what they write is the same. -/
theorem fillFlat_spec (logical replacementFlat : List UInt8) (baseVa : Nat) (records : List LogicalRecord) (flat : List UInt8)
    (hin : ∀ r ∈ records, r.va - baseVa + r.length ≤ flat.length)
    (hlength : ∀ r ∈ records, (r.data logical).length = r.length)
    (hdata : ∀ r ∈ records, ∀ k < r.length, at' (r.data logical) k = at' replacementFlat (r.va - baseVa + k)) :
    (fillFlat logical baseVa records flat).length = flat.length ∧
      ∀ i, at' (fillFlat logical baseVa records flat) i =
        if Covered baseVa records i then at' replacementFlat i else at' flat i := by
  induction records generalizing flat with
  | nil => exact ⟨rfl, fun i => by simp [Covered, fillFlat]⟩
  | cons r rest ih =>
    have hchunk := hlength r List.mem_cons_self
    have hfits := hin r List.mem_cons_self
    have hlen : (splice flat (r.va - baseVa) (r.va - baseVa + r.length) (r.data logical)).length = flat.length :=
      splice_length (by rw [hchunk]) hfits
    obtain ⟨hlength', hat⟩ := ih (splice flat (r.va - baseVa) (r.va - baseVa + r.length) (r.data logical))
      (fun s hs => by rw [hlen]; exact hin s (List.mem_cons_of_mem _ hs))
      (fun s hs => hlength s (List.mem_cons_of_mem _ hs)) (fun s hs => hdata s (List.mem_cons_of_mem _ hs))
    refine ⟨hlength'.trans hlen, ?_⟩
    intro i
    have hi := hat i
    simp only [fillFlat, List.foldl_cons] at hi ⊢
    rw [hi]
    by_cases hrest : Covered baseVa rest i
    · rw [if_pos hrest, if_pos ((covered_cons ..).mpr (.inr hrest))]
    rw [if_neg hrest]
    by_cases hr : r.va - baseVa ≤ i ∧ i < r.va - baseVa + r.length
    · rw [if_pos ((covered_cons ..).mpr (.inl hr))]
      have hk := hdata r List.mem_cons_self (i - (r.va - baseVa)) (by omega)
      have hinside : at' (splice flat (r.va - baseVa) (r.va - baseVa + r.length) (r.data logical))
        (r.va - baseVa + (i - (r.va - baseVa))) =
          at' (r.data logical) (i - (r.va - baseVa)) := at'_splice_inside (by omega) (by omega)
      rw [hk, Nat.add_sub_cancel' hr.1] at hinside
      exact hinside
    · rw [if_neg (fun h => ((covered_cons ..).mp h).elim hr hrest)]
      exact at'_splice_outside (by rw [hchunk]) hfits (by omega)

end Flat

/-! ## Patching -/

/-- `struct.pack_into("<I", ...)`. -/
def packInto (logical : List UInt8) (off value : Nat) : Except NkError (List UInt8) :=
  if value < 2 ^ 32 ∧ off + 4 ≤ logical.length then .ok (splice logical off (off + 4) (le 4 value)) else .error .struct

/-- `sum(chunk) & 0xFFFFFFFF`. -/
def checksumOf (chunk : List UInt8) : Nat := (chunk.map UInt8.toNat).sum &&& 0xFFFFFFFF

/-- `replacement_flat[start:start + record.length]`. -/
def LogicalRecord.chunk (r : LogicalRecord) (baseVa : Nat) (replacementFlat : List UInt8) : List UInt8 :=
  (replacementFlat.drop (r.va - baseVa)).take r.length

def patchRecords (baseVa : Nat) (replacementFlat : List UInt8) : List LogicalRecord → List UInt8 → Except NkError (List UInt8)
  | [], logical => .ok logical
  | r :: rest, logical => do
    let chunk := r.chunk baseVa replacementFlat
    let logical := splice logical r.dataOff (r.dataOff + r.length) chunk
    let checksumOff := r.dataOff - entryBytes + 8
    let logical ← packInto logical checksumOff (checksumOf chunk)
    patchRecords baseVa replacementFlat rest logical

def patchLogicalStreamFromFlat (image : LogicalNkImage) (replacementFlat : List UInt8) : Except NkError (List UInt8) := do
  if replacementFlat.length ≠ image.flatSize then
    throw (.value ("replacement flat NK size mismatch: " ++ hex replacementFlat.length ++ " != " ++ hex image.flatSize))
  let logical ← packInto image.logicalStream b000ffSig.length image.baseVa
  let logical ← packInto logical (b000ffSig.length + 4) image.flatSize
  let logical ← patchRecords image.baseVa replacementFlat image.records logical
  let logical ← packInto logical (image.terminalOff + 0) 0
  let logical ← packInto logical (image.terminalOff + 4) image.entryVa
  packInto logical (image.terminalOff + 8) 0

section Patch

variable {l replacementFlat : List UInt8} {baseVa : Nat} {records : List LogicalRecord}

theorem u32_congr {m : List UInt8} {off : Nat} (h : ∀ k < 4, at' l (off + k) = at' m (off + k)) :
    u32 l off = u32 m off := rd_congr h

theorem packInto_ok (l : List UInt8) (off value : Nat) (hvalue : value < 2 ^ 32) (hoff : off + 4 ≤ l.length) :
    ∃ out, packInto l off value = .ok out ∧ out.length = l.length ∧ u32 out off = value ∧
      ∀ i, (i < off ∨ off + 4 ≤ i) → at' out i = at' l i := by
  refine ⟨splice l off (off + 4) (le 4 value), if_pos ⟨hvalue, hoff⟩, ?_, ?_, ?_⟩
  · exact splice_length (by rw [le_length]) hoff
  · exact rd_splice (by omega) hoff
  · intro i hi
    exact at'_splice_outside (by rw [le_length]) hoff hi

theorem checksumOf_eq (chunk : List UInt8) : checksumOf chunk = (chunk.map UInt8.toNat).sum % 2 ^ 32 :=
  Nat.and_two_pow_sub_one_eq_mod _ 32

/-- A record that has its place in the stream, and a part of the flat image. -/
structure LogicalRecord.Fits (r : LogicalRecord) (logical replacementFlat : List UInt8) (baseVa : Nat) : Prop where
  off : entryBytes ≤ r.dataOff
  within : r.dataOff + r.length ≤ logical.length
  part : r.va - baseVa + r.length ≤ replacementFlat.length

theorem LogicalRecord.Fits.chunk_length {r : LogicalRecord} (h : r.Fits l replacementFlat baseVa) :
    (r.chunk baseVa replacementFlat).length = r.length := by
  have hpart := h.part
  simp only [LogicalRecord.chunk, List.length_take, List.length_drop]
  omega

theorem LogicalRecord.Fits.congr {r : LogicalRecord} {m : List UInt8} (h : r.Fits l replacementFlat baseVa)
    (hm : m.length = l.length) : r.Fits m replacementFlat baseVa := ⟨h.off, hm ▸ h.within, h.part⟩

/-- One record patched. -/
theorem patchRecord_ok {r : LogicalRecord} (hr : r.Fits l replacementFlat baseVa) :
    ∃ out, packInto (splice l r.dataOff (r.dataOff + r.length) (r.chunk baseVa replacementFlat)) (r.dataOff - entryBytes + 8)
          (checksumOf (r.chunk baseVa replacementFlat)) = .ok out ∧
      out.length = l.length ∧
      u32 out (r.dataOff - entryBytes + 8) = checksumOf (r.chunk baseVa replacementFlat) ∧
      r.data out = r.chunk baseVa replacementFlat ∧
      ∀ i, ¬ r.Has i → at' out i = at' l i := by
  have hchunk := hr.chunk_length
  have hoff := hr.off
  have hwithin := hr.within
  simp only [entryBytes] at hoff ⊢
  have hlen : (splice l r.dataOff (r.dataOff + r.length) (r.chunk baseVa replacementFlat)).length = l.length :=
    splice_length (by rw [hchunk]) hwithin
  obtain ⟨out, hpack, hout, hsum, hrest⟩ := packInto_ok
    (splice l r.dataOff (r.dataOff + r.length) (r.chunk baseVa replacementFlat))
    (r.dataOff - 12 + 8) (checksumOf (r.chunk baseVa replacementFlat))
    (by rw [checksumOf_eq]; omega) (by omega)
  refine ⟨out, hpack, hout.trans hlen, hsum, ?_, ?_⟩
  · apply take_drop_eq hchunk (by omega)
    intro k hk
    rw [hrest _ (.inr (by omega)), at'_splice_inside (by omega) (by omega)]
  · intro i hi
    simp only [LogicalRecord.Has, not_and_or, Nat.not_le, Nat.not_lt] at hi
    rw [hrest i (by omega), at'_splice_outside (by rw [hchunk]) hwithin (by omega)]

/-- All records patched: each has its part, as none writes over another, and nothing else
    changes. -/
theorem patchRecords_ok (hfits : ∀ r ∈ records, r.Fits l replacementFlat baseVa)
    (hapart : records.Pairwise fun r s => r.dataOff + r.length + entryBytes ≤ s.dataOff) :
    ∃ out, patchRecords baseVa replacementFlat records l = .ok out ∧ out.length = l.length ∧
      (∀ r ∈ records, u32 out (r.dataOff - entryBytes + 8) = checksumOf (r.chunk baseVa replacementFlat) ∧
        r.data out = r.chunk baseVa replacementFlat) ∧
      ∀ i, (∀ r ∈ records, ¬ r.Has i) → at' out i = at' l i := by
  induction records generalizing l with
  | nil => exact ⟨l, rfl, rfl, fun r hr => absurd hr List.not_mem_nil, fun i _ => rfl⟩
  | cons r rest ih =>
    obtain ⟨hbefore, hrest⟩ := List.pairwise_cons.mp hapart
    have hr := hfits r List.mem_cons_self
    obtain ⟨mid, hpack, hmid, hsum, hdata, hkept⟩ := patchRecord_ok hr
    obtain ⟨out, hloop, hout, hspec, hframe⟩ :=
      ih (fun s hs => (hfits s (List.mem_cons_of_mem _ hs)).congr hmid) hrest
    refine ⟨out, ?_, hout.trans hmid, ?_, ?_⟩
    · unfold patchRecords
      dsimp only
      rw [hpack]
      exact hloop
    · -- the later records start after the header that follows this one's data
      have hclear : ∀ i < r.dataOff + r.length, ∀ s ∈ rest, ¬ s.Has i := by
        intro i hi s hs hhas
        have hafter := hbefore s hs
        have hfrom := hhas.1
        simp only [entryBytes] at hafter
        omega
      have hoff := hr.off
      have hwithin := hr.within
      intro s hs
      rcases List.mem_cons.mp hs with rfl | hs
      · constructor
        · rw [← hsum]
          apply u32_congr
          intro k hk
          apply hframe
          apply hclear
          simp only [entryBytes] at hoff ⊢
          omega
        · rw [← hdata]
          apply take_drop_eq (by rw [hdata]; exact hr.chunk_length) (by omega)
          intro k hk
          rw [hframe _ (hclear _ (by omega)), LogicalRecord.data, at'_take_drop hk]
      · exact hspec s hs
    · intro i hi
      rw [hframe i fun s hs => hi s (List.mem_cons_of_mem _ hs)]
      exact hkept i (hi r List.mem_cons_self)

end Patch

section Image

variable {logical replacementFlat : List UInt8} {records : List LogicalRecord} {entryVa terminalOff : Nat}

theorem u32_lt (data : List UInt8) (off : Nat) : u32 data off < 2 ^ 32 := rd_lt 4 (at' data) off

theorem Chain.entryVa_lt (h : Chain logical 0 15 records entryVa terminalOff) : entryVa < 2 ^ 32 := by
  rw [← h.terminal_spec.2.2]
  exact u32_lt ..

theorem Chain.baseOf_lt (h : Chain logical 0 15 records entryVa terminalOff) (hne : records ≠ []) : baseOf records < 2 ^ 32 := by
  obtain ⟨r, hr⟩ := List.exists_mem_of_ne_nil records hne
  have hva := (h.record_spec r hr).2.2.1
  have hlt := u32_lt logical (r.dataOff - entryBytes)
  have hle := baseOf_le hr
  omega

theorem Chain.fits (h : Chain logical 0 15 records entryVa terminalOff) (hlen : replacementFlat.length = flatSizeOf records) :
    ∀ r ∈ records, r.Fits (logical.take (terminalOff + entryBytes)) replacementFlat (baseOf records) := by
  intro r hr
  obtain ⟨hoff, hend, -, -⟩ := h.record_spec r hr
  have hterminal := h.terminal_spec.1
  have hbase := baseOf_le hr
  have hsize := le_flatSizeOf hr
  refine ⟨by omega, ?_, by omega⟩
  rw [List.length_take]
  omega

/-- A byte of the stream that is patched: of the header words, a record's data or checksum,
    or the terminal block. -/
def LogicalNkImage.Patches (image : LogicalNkImage) (i : Nat) : Prop :=
  (7 ≤ i ∧ i < 15) ∨ (∃ r ∈ image.records, r.Has i) ∨ (image.terminalOff ≤ i ∧ i < image.terminalOff + entryBytes)

/-- Patching succeeds where the flat image's size fits its word. -/
theorem patch_ok (h : Chain logical 0 15 records entryVa terminalOff) (hne : records ≠ [])
    (hlen : replacementFlat.length = flatSizeOf records) (hsize : flatSizeOf records < 2 ^ 32) :
    ∃ patched, patchLogicalStreamFromFlat (imageOf logical records entryVa terminalOff) replacementFlat = .ok patched ∧
      patched.length = terminalOff + entryBytes ∧
      (∀ r ∈ records, u32 patched (r.dataOff - entryBytes + 8) = checksumOf (r.chunk (baseOf records) replacementFlat) ∧
        r.data patched = r.chunk (baseOf records) replacementFlat) ∧
      u32 patched terminalOff = 0 ∧ u32 patched (terminalOff + 4) = entryVa ∧
      ∀ i, ¬ (imageOf logical records entryVa terminalOff).Patches i →
        at' patched i = at' (logical.take (terminalOff + entryBytes)) i := by
  have hstart := h.le_terminal
  have hterminal := h.terminal_spec.1
  have hstream : (logical.take (terminalOff + entryBytes)).length = terminalOff + entryBytes := by
    rw [List.length_take]
    omega
  have hentryBytes : entryBytes = 12 := rfl
  obtain ⟨l1, hpack1, hlen1, -, hkept1⟩ := packInto_ok (logical.take (terminalOff + entryBytes)) 7
    (baseOf records) (h.baseOf_lt hne) (by omega)
  obtain ⟨l2, hpack2, hlen2, -, hkept2⟩ := packInto_ok l1 (7 + 4) (flatSizeOf records) hsize (by omega)
  obtain ⟨l3, hpack3, hlen3, hspec, hkept3⟩ := patchRecords_ok
    (fun r hr => (h.fits hlen r hr).congr (hlen2.trans hlen1)) h.apart
  obtain ⟨l4, hpack4, hlen4, hzero, hkept4⟩ := packInto_ok l3 (terminalOff + 0) 0 (by omega) (by omega)
  obtain ⟨l5, hpack5, hlen5, hentry, hkept5⟩ := packInto_ok l4 (terminalOff + 4) entryVa h.entryVa_lt (by omega)
  obtain ⟨l6, hpack6, hlen6, -, hkept6⟩ := packInto_ok l5 (terminalOff + 8) 0 (by omega) (by omega)
  have hbefore : ∀ i < terminalOff, at' l6 i = at' l3 i := by
    intro i hi
    rw [hkept6 i (.inl (by omega)), hkept5 i (.inl (by omega)), hkept4 i (.inl (by omega))]
  refine ⟨l6, ?_, by omega, ?_, ?_, ?_, ?_⟩
  · unfold patchLogicalStreamFromFlat
    rw [if_neg (show ¬ replacementFlat.length ≠ (imageOf logical records entryVa terminalOff).flatSize from not_not.mpr hlen)]
    simp only [imageOf, show b000ffSig.length = 7 from rfl, hpack1, hpack2, hpack3, hpack4, hpack5, bind, Except.bind]
    exact hpack6
  · intro r hr
    obtain ⟨hoff, hend, -, -⟩ := h.record_spec r hr
    obtain ⟨hsum, hdata⟩ := hspec r hr
    constructor
    · rw [← hsum]
      apply u32_congr
      intro k hk
      exact hbefore _ (by omega)
    · rw [← hdata]
      have hchunk := (h.fits hlen r hr).chunk_length
      apply take_drop_eq (by rw [hdata]; exact hchunk) (by omega)
      intro k hk
      rw [hbefore _ (by omega), LogicalRecord.data, at'_take_drop hk]
  · rw [← hzero]
    apply u32_congr
    intro k hk
    rw [hkept6 _ (.inl (by omega))]
    exact hkept5 _ (.inl (by omega))
  · rw [← hentry]
    apply u32_congr
    intro k hk
    exact hkept6 _ (.inl (by omega))
  · intro i hi
    simp only [LogicalNkImage.Patches, imageOf, not_or, not_exists, not_and] at hi
    obtain ⟨hheader, hrecords, hblock⟩ := hi
    rw [hkept6 i (by omega), hkept5 i (by omega), hkept4 i (by omega), hkept3 i hrecords, hkept2 i (by omega),
      hkept1 i (by omega)]

/-- What patching is for: the stream parses to the same records at the same places, and to
    the flat image it was patched with. -/
structure Patched (image : LogicalNkImage) (replacementFlat patched : List UInt8) (after : LogicalNkImage) : Prop where
  parses : parseLogicalNkStream patched = .ok after
  places : after.records.map (fun r => (r.va, r.length, r.dataOff)) = image.records.map fun r => (r.va, r.length, r.dataOff)
  entry : after.entryVa = image.entryVa
  base : after.baseVa = image.baseVa
  size : after.flatImage.length = image.flatSize
  flat : ∀ i < image.flatSize,
    at' after.flatImage i = if Covered image.baseVa image.records i then at' replacementFlat i else 0
  checksums : ∀ r ∈ after.records, r.checksum = ((r.data patched).map UInt8.toNat).sum % 2 ^ 32
  length : patched.length = image.logicalStream.length
  kept : ∀ i < patched.length, ¬ image.Patches i → at' patched i = at' image.logicalStream i

/-- 4 GiB has no size word. -/
theorem patch_wide (h : Chain logical 0 15 records entryVa terminalOff) (hne : records ≠ [])
    (hlen : replacementFlat.length = flatSizeOf records) (hsize : 2 ^ 32 ≤ flatSizeOf records) :
    patchLogicalStreamFromFlat (imageOf logical records entryVa terminalOff) replacementFlat = .error .struct := by
  have hstart := h.le_terminal
  have hterminal := h.terminal_spec.1
  have hstream : (logical.take (terminalOff + entryBytes)).length = terminalOff + entryBytes := by
    rw [List.length_take]
    omega
  obtain ⟨l1, hpack1, -, -, -⟩ := packInto_ok (logical.take (terminalOff + entryBytes)) 7
    (baseOf records) (h.baseOf_lt hne) (by omega)
  have hpack2 : packInto l1 (7 + 4) (flatSizeOf records) = .error .struct := if_neg fun h => absurd h.1 (Nat.not_lt.mpr hsize)
  unfold patchLogicalStreamFromFlat
  rw [if_neg (show ¬ replacementFlat.length ≠ (imageOf logical records entryVa terminalOff).flatSize from not_not.mpr hlen)]
  simp only [imageOf, show b000ffSig.length = 7 from rfl, hpack1, hpack2, bind, Except.bind]

/-- The signature survives what keeps the first bytes. -/
theorem sig_kept {patched : List UInt8} (hsig : b000ffSig <+: logical) (hlogical : 7 ≤ logical.length)
    (hpatched : 7 ≤ patched.length)
    (h : ∀ i < 7, at' patched i = at' logical i) : b000ffSig <+: patched := by
  have htake : b000ffSig = logical.take 7 := List.prefix_iff_eq_take.mp hsig
  rw [List.prefix_iff_eq_take]
  have hpart : (patched.drop 0).take 7 = logical.take 7 := by
    apply take_drop_eq (by simp [hlogical]) (by omega)
    intro k hk
    have hat := at'_take_drop (l := logical) (o := 0) hk
    rw [List.drop_zero, Nat.zero_add] at hat
    rw [hat, Nat.zero_add, h k hk]
  rw [htake, List.length_take, Nat.min_eq_left hlogical, ← hpart, List.drop_zero]

theorem map_checksum (f : LogicalRecord → Nat) :
    (records.map fun r => { r with checksum := f r }).map (fun r => (r.va, r.length, r.dataOff)) =
      records.map fun r => (r.va, r.length, r.dataOff) := by
  rw [List.map_map]
  rfl

theorem baseOf_map_checksum (f : LogicalRecord → Nat) :
    baseOf (records.map fun r => { r with checksum := f r }) = baseOf records := by
  unfold baseOf
  rw [List.map_map]
  rfl

theorem flatSizeOf_map_checksum (f : LogicalRecord → Nat) :
    flatSizeOf (records.map fun r => { r with checksum := f r }) = flatSizeOf records := by
  unfold flatSizeOf
  rw [List.map_map, baseOf_map_checksum]
  rfl

theorem patched_chain (h : Chain logical 0 15 records entryVa terminalOff) (hne : records ≠ []) (hsig : b000ffSig <+: logical)
    (hlen : replacementFlat.length = flatSizeOf records) (hsize : flatSizeOf records < 2 ^ 32) :
    ∃ patched after, patchLogicalStreamFromFlat (imageOf logical records entryVa terminalOff) replacementFlat = .ok patched ∧
      Patched (imageOf logical records entryVa terminalOff) replacementFlat patched after := by
  obtain ⟨patched, hpatch, hpatched, hspec, hzero, hentry, hkept⟩ := patch_ok h hne hlen hsize
  have hstart := h.le_terminal
  have hterminal := h.terminal_spec.1
  have hentryBytes : entryBytes = 12 := rfl
  have hstream : (logical.take (terminalOff + entryBytes)).length = terminalOff + entryBytes := by
    rw [List.length_take]
    omega
  have hkept' : ∀ i < terminalOff, ¬ (imageOf logical records entryVa terminalOff).Patches i → at' patched i = at' logical i := by
    intro i hi hout
    have htake := at'_take_drop (l := logical) (o := 0) (n := terminalOff + entryBytes) (k := i) (by omega)
    rw [List.drop_zero, Nat.zero_add] at htake
    rw [hkept i hout, htake]
  have hheaders : ∀ r ∈ records, ∀ k < 8, at' patched (r.dataOff - entryBytes + k) = at' logical
    (r.dataOff - entryBytes + k) := by
    intro r hr k hk
    obtain ⟨hoff, hend, -, -⟩ := h.record_spec r hr
    apply hkept' _ (by omega)
    rintro (hheader | ⟨s, hs, hhas⟩ | hblock)
    · omega
    · exact h.header_clear hr hs hk hhas
    · have hfrom := hblock.1
      simp only [imageOf] at hfrom
      omega
  have hafter := h.transfer patched (by omega) hzero hentry (by
    intro r hr
    obtain ⟨-, -, hva, hlength⟩ := h.record_spec r hr
    rw [← hva, ← hlength]
    constructor
    · apply u32_congr
      intro k hk
      exact hheaders r hr k (by omega)
    · apply u32_congr
      intro k hk
      rw [Nat.add_assoc]
      exact hheaders r hr (4 + k) (by omega))
  let after := records.map fun r => { r with checksum := u32 patched (r.dataOff - entryBytes + 8) }
  have hdata : ∀ r ∈ after, r.data patched = r.chunk (baseOf records) replacementFlat ∧
      r.checksum = checksumOf (r.data patched) ∧ (r.data patched).length = r.length := by
    intro r hr
    obtain ⟨s, hs, rfl⟩ := List.mem_map.mp hr
    obtain ⟨hsum, hchunk⟩ := hspec s hs
    have hpart : (s.data patched).length = s.length := by
      rw [hchunk]
      exact (h.fits hlen s hs).chunk_length
    refine ⟨hchunk, ?_, hpart⟩
    exact hsum.trans (congrArg checksumOf hchunk.symm)
  have hplaces : ∀ r ∈ after, r.va - baseOf records + r.length ≤ flatSizeOf records := by
    intro r hr
    obtain ⟨s, hs, rfl⟩ := List.mem_map.mp hr
    rw [← hlen]
    exact (h.fits hlen s hs).part
  have hcovered : ∀ i, Covered (baseOf records) after i ↔ Covered (baseOf records) records i := by
    intro i
    simp only [Covered, after, List.mem_map]
    constructor
    · rintro ⟨_, ⟨r, hr, rfl⟩, hi⟩
      exact ⟨r, hr, hi⟩
    · rintro ⟨r, hr, hi⟩
      exact ⟨_, ⟨r, hr, rfl⟩, hi⟩
  obtain ⟨hflatLength, hflat⟩ := fillFlat_spec patched replacementFlat (baseOf records) after
    (List.replicate (flatSizeOf records) 0)
    (fun r hr => by rw [List.length_replicate]; exact hplaces r hr) (fun r hr => (hdata r hr).2.2)
    (fun r hr k hk => by rw [(hdata r hr).1]; exact at'_take_drop hk)
  rw [List.length_replicate] at hflatLength
  have hbase : baseOf after = baseOf records := baseOf_map_checksum _
  have hsizeOf : flatSizeOf after = flatSizeOf records := flatSizeOf_map_checksum _
  refine ⟨patched, imageOf patched after entryVa terminalOff, hpatch, ?_⟩
  constructor
  · refine parse_eq_ok_iff.mpr ⟨by omega, ?_, after, entryVa, terminalOff, hafter, ?_, rfl⟩
    · refine sig_kept hsig (by omega) (by omega) fun i hi => hkept' i (by omega) ?_
      rintro (hheader | ⟨s, hs, hhas⟩ | hblock)
      · omega
      · have hfrom := hhas.1
        have hsoff := (h.record_spec s hs).1
        omega
      · have hfrom := hblock.1
        simp only [imageOf] at hfrom
        omega
    · simpa [after] using hne
  · exact map_checksum _
  · rfl
  · exact hbase
  · simp only [imageOf, hbase, hsizeOf]
    exact hflatLength
  · intro i hi
    simp only [imageOf, hbase, hsizeOf] at hi ⊢
    rw [hflat i]
    simp only [hcovered]
    simp [at', List.getD_eq_getElem?_getD, hi]
  · intro r hr
    rw [(hdata r hr).2.1, checksumOf_eq]
  · exact hpatched.trans hstream.symm
  · intro i _ hi
    exact hkept i hi

end Image

/-- A stream that parses is patched from any flat image of its size: where the size fits its
    word, into one that parses to the same records and to that image; else not at all. -/
theorem patch_parses (logical replacementFlat : List UInt8) (image : LogicalNkImage)
    (h : parseLogicalNkStream logical = .ok image) (hlen : replacementFlat.length = image.flatSize) :
    if image.flatSize < 2 ^ 32 then
      ∃ patched after, patchLogicalStreamFromFlat image replacementFlat = .ok patched ∧
        Patched image replacementFlat patched after
    else patchLogicalStreamFromFlat image replacementFlat = .error .struct := by
  obtain ⟨-, hsig, records, entryVa, terminalOff, hchain, hne, rfl⟩ := parse_eq_ok_iff.mp h
  split
  · rename_i hsize
    exact patched_chain hchain hne hsig hlen hsize
  · rename_i hsize
    exact patch_wide hchain hne hlen (Nat.not_lt.mp hsize)

/-- Three bytes at 0x1004, then two at 0x1000; the entry point is 7. -/
def gapStream : List UInt8 :=
  b000ffSig ++ le 4 0x1000 ++ le 4 7 ++ (le 4 0x1004 ++ le 4 3 ++ le 4 6 ++ [1, 2, 3]) ++
    (le 4 0x1000 ++ le 4 2 ++ le 4 9 ++ [4, 5]) ++
    (le 4 0 ++ le 4 7 ++ le 4 0)

def gapRecords : List LogicalRecord := [⟨0, 0x1004, 3, 6, 27⟩, ⟨1, 0x1000, 2, 9, 42⟩]

theorem gapStream_chain : Chain gapStream 0 15 gapRecords 7 44 := by
  have hterminal : Chain gapStream 2 44 [] (u32 gapStream (44 + 4)) 44 := .terminal (by decide) (by decide)
  have hlast : Chain gapStream 1 30 [⟨1, 0x1000, 2, 9, 42⟩] 7 44 :=
    @Chain.record _ 1 30 _ _ _ (by decide) (by decide) hterminal
  exact @Chain.record _ 0 15 _ _ _ (by decide) (by decide) hlast

theorem gapStream_flat (i : Fin 7) :
    (if Covered (baseOf gapRecords) gapRecords i then at' [11, 12, 13, 14, 15, 16, 17] i else 0) = [11, 12, 0, 0, 15, 16,
      17][i] := by
  revert i
  decide

/-- The bytes between the records are not in the stream. -/
theorem gapStream_patched :
    ∃ patched after, patchLogicalStreamFromFlat (imageOf gapStream gapRecords 7 44) [11, 12, 13, 14, 15, 16, 17] = .ok patched ∧
      parseLogicalNkStream patched = .ok after ∧ after.flatImage = [11, 12, 0, 0, 15, 16, 17] := by
  have hparse : parseLogicalNkStream gapStream = .ok (imageOf gapStream gapRecords 7 44) :=
    parse_eq_ok_iff.mpr ⟨by decide, by decide, _, _, _, gapStream_chain, List.cons_ne_nil _ _, rfl⟩
  have hpatch := patch_parses gapStream [11, 12, 13, 14, 15, 16, 17] _ hparse (by decide)
  rw [if_pos (by decide)] at hpatch
  obtain ⟨patched, after, hok, h⟩ := hpatch
  refine ⟨patched, after, hok, h.parses, ?_⟩
  have hsize : after.flatImage.length = 7 := h.size
  refine List.ext_getElem hsize fun i hi _ => ?_
  have hat : at' after.flatImage i = after.flatImage[i] := by simp [at', List.getD_eq_getElem?_getD, hi]
  rw [← hat, h.flat i (by rw [← h.size]; exact hi)]
  exact gapStream_flat ⟨i, hsize ▸ hi⟩

/-- A byte at 1 and one at 0xFFFFFFFF. -/
def wideStream : List UInt8 :=
  b000ffSig ++ le 4 0 ++ le 4 0 ++ (le 4 1 ++ le 4 1 ++ le 4 5 ++ [5]) ++ (le 4 0xFFFFFFFF ++ le 4 1 ++ le 4 5 ++ [5]) ++
    (le 4 0 ++ le 4 7 ++ le 4 0)

def wideRecords : List LogicalRecord := [⟨0, 1, 1, 5, 27⟩, ⟨1, 0xFFFFFFFF, 1, 5, 40⟩]

theorem wideStream_chain : Chain wideStream 0 15 wideRecords 7 41 := by
  have hterminal : Chain wideStream 2 41 [] (u32 wideStream (41 + 4)) 41 := .terminal (by decide) (by decide)
  have hlast : Chain wideStream 1 28 [⟨1, 0xFFFFFFFF, 1, 5, 40⟩] 7 41 :=
    @Chain.record _ 1 28 _ _ _ (by decide) (by decide) hterminal
  exact @Chain.record _ 0 15 _ _ _ (by decide) (by decide) hlast

theorem wideStream_unpatchable :
    ∃ image, parseLogicalNkStream wideStream = .ok image ∧ image.flatSize = 2 ^ 32 ∧
      patchLogicalStreamFromFlat image (List.replicate (2 ^ 32) 0) = .error .struct := by
  have hsize : flatSizeOf wideRecords = 2 ^ 32 := by decide
  refine ⟨imageOf wideStream wideRecords 7 41, ?_, hsize, ?_⟩
  · exact parse_eq_ok_iff.mpr ⟨by decide, by decide, _, _, _, wideStream_chain, List.cons_ne_nil _ _, rfl⟩
  · exact patch_wide wideStream_chain (List.cons_ne_nil _ _) (by rw [List.length_replicate, hsize]) (Nat.le_of_eq hsize.symm)

end Be300.Nk
