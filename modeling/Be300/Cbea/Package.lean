/-
  Be300.Cbea.Package — the `.cbea` archive (`cbea_parse` of `src/cbea_install.c`).

  An archive is a header of 256 bytes that holds the number of its entries, and the entries,
  one behind the other: eight bytes of which the last is the length of the name, the name
  and a NUL, the size of the data, the data. Every read of the parser is checked against the
  buffer and faults outside it.

  Proved (`parse_package`): the archive laid out from some entries is read back, whatever
  follows it; each of its strict prefixes is rejected; and no buffer makes the parser read
  outside.
-/

import Be300.Lib.Bytes
import Mathlib.Data.List.TakeWhile

namespace Be300.Cbea

open Be300.Lib (le rd at' le_length at'_append_left at'_append_right rd_append_left rd_append_right rd_congr rd_le_of_lt)

/-! ## The parser -/

inductive PackageError where
  | tooShort
  | badCount (count : Nat)
  | truncated
  deriving DecidableEq, Repr

def PackageError.text : PackageError → String
  | .tooShort => "error: package too short to be a .cbea file\n"
  | .badCount count => "error: bad .cbea file count " ++ toString count ++ "\n"
  | .truncated => "error: .cbea archive is truncated\n"

/-- A read past the end of the buffer. -/
structure Overread where
  off : Nat
  len : Nat
  deriving DecidableEq, Repr

def readNum (pkg : List UInt8) (w off : Nat) : Except Overread Nat :=
  if off + w ≤ pkg.length then .ok (rd w (at' pkg) off) else .error ⟨off, w⟩

def readBytes (pkg : List UInt8) (off n : Nat) : Except Overread (List UInt8) :=
  if off + n ≤ pkg.length then .ok ((pkg.drop off).take n) else .error ⟨off, n⟩

/-- `cbea_entry_t`: the bytes of the name before its NUL; `data` is an offset. -/
structure CbeaEntry where
  name : List UInt8
  data : Nat
  size : Nat
  deriving DecidableEq, Repr

/-- The name as a string. -/
def CbeaEntry.cname (e : CbeaEntry) : List UInt8 := e.name.takeWhile (· != 0)

/-- `n` more entries from `p` on; `none` is the jump to `truncated`. The offset is inside the
    buffer, so `len - p` does not wrap. -/
def parseEntries (pkg : List UInt8) : Nat → (p : Nat) → p ≤ pkg.length → Except Overread (Option (List CbeaEntry))
  | 0, _, _ => .ok (some [])
  | n + 1, p, hp =>
    if h8 : pkg.length - p < 8 then .ok none
    else
      match readNum pkg 1 (p + 7) with
      | .error e => .error e
      | .ok nlen =>
        if hn : pkg.length - (p + 8) < nlen + 1 + 4 then .ok none
        else
          match readBytes pkg (p + 8) nlen, readNum pkg 4 (p + 8 + (nlen + 1)) with
          | .error e, _ => .error e
          | .ok _, .error e => .error e
          | .ok name, .ok size =>
            if hs : pkg.length - (p + 8 + (nlen + 1) + 4) < size then .ok none
            else
              match parseEntries pkg n (p + 8 + (nlen + 1) + 4 + size) (by omega) with
              | .error e => .error e
              | .ok none => .ok none
              | .ok (some rest) => .ok (some (⟨name, p + 8 + (nlen + 1) + 4, size⟩ :: rest))

/-- The entries of a package. Memory is taken to suffice. -/
def cbeaParse (pkg : List UInt8) : Except Overread (Except PackageError (List CbeaEntry)) :=
  if hlen : pkg.length < 0x100 then .ok (.error .tooShort)
  else
    match readNum pkg 4 2 with
    | .error e => .error e
    | .ok count =>
      if count = 0 ∨ 4096 < count then .ok (.error (.badCount count))
      else
        match parseEntries pkg count 0x100 (by omega) with
        | .error e => .error e
        | .ok none => .ok (.error .truncated)
        | .ok (some entries) => .ok (.ok entries)

/-! ## No read is outside -/

theorem readNum_ok {pkg : List UInt8} {w off : Nat} (h : off + w ≤ pkg.length) : readNum pkg w off = .ok (rd w (at' pkg) off) :=
  if_pos h

theorem readBytes_ok {pkg : List UInt8} {off n : Nat} (h : off + n ≤ pkg.length) :
    readBytes pkg off n = .ok ((pkg.drop off).take n) :=
  if_pos h

theorem parseEntries_inside (pkg : List UInt8) (n p : Nat) (hp : p ≤ pkg.length) : ∃ r, parseEntries pkg n p hp = .ok r := by
  induction n generalizing p with
  | zero => exact ⟨some [], rfl⟩
  | succ n ih =>
    unfold parseEntries
    split
    · exact ⟨none, rfl⟩
    rename_i h8
    rw [readNum_ok (by omega)]
    dsimp only
    split
    · exact ⟨none, rfl⟩
    rename_i hn
    rw [readBytes_ok (by omega), readNum_ok (by omega)]
    dsimp only
    split
    · exact ⟨none, rfl⟩
    rename_i hs
    obtain ⟨r, hr⟩ := ih (p + 8 + (rd 1 (at' pkg) (p + 7) + 1) + 4 + rd 4 (at' pkg) (p + 8 + (rd 1 (at' pkg) (p + 7) + 1)))
      (by omega)
    rw [hr]
    cases r with
    | none => exact ⟨none, rfl⟩
    | some rest => exact ⟨_, rfl⟩

theorem cbeaParse_inside (pkg : List UInt8) : ∃ r, cbeaParse pkg = .ok r := by
  unfold cbeaParse
  split
  · exact ⟨_, rfl⟩
  rename_i hlen
  rw [readNum_ok (by omega)]
  dsimp only
  split
  · exact ⟨_, rfl⟩
  obtain ⟨r, hr⟩ := parseEntries_inside pkg (rd 4 (at' pkg) 2) 0x100 (by omega)
  rw [hr]
  cases r with
  | none => exact ⟨_, rfl⟩
  | some entries => exact ⟨_, rfl⟩

/-! ## Archives -/

/-- A file of an archive: its name and data, and the seven bytes before its name's length. -/
structure Member where
  kind : List UInt8
  name : List UInt8
  data : List UInt8
  kind_length : kind.length = 7
  name_length : name.length ≤ 255
  noNul : 0 ∉ name
  data_length : data.length < 2 ^ 32

def Member.bytes (m : Member) : List UInt8 :=
  m.kind ++ (le 1 m.name.length ++ (m.name ++ (0 :: (le 4 m.data.length ++ m.data))))

/-- `head` and `fill` are the bytes of the header around the count. -/
structure Archive where
  head : List UInt8
  fill : List UInt8
  members : List Member
  head_length : head.length = 2
  fill_length : fill.length = 0x100 - 6
  count : 1 ≤ members.length ∧ members.length ≤ 4096

def Archive.header (a : Archive) : List UInt8 := a.head ++ (le 4 a.members.length ++ a.fill)

def Archive.bytes (a : Archive) : List UInt8 := a.header ++ a.members.flatMap Member.bytes

/-- What the parser should make of files laid out from `p` on. -/
def entriesAt : Nat → List Member → List CbeaEntry
  | _, [] => []
  | p, m :: ms => ⟨m.name, p + 8 + (m.name.length + 1) + 4, m.data.length⟩ :: entriesAt (p + m.bytes.length) ms

theorem Member.bytes_length (m : Member) : m.bytes.length = 8 + (m.name.length + 1) + 4 + m.data.length := by
  simp only [Member.bytes, List.length_append, List.length_cons, le_length, m.kind_length]
  omega

section Layout

variable {pkg pre rest : List UInt8} {m : Member} {ms : List Member}

/-- Where the bytes of a file stand in a package. -/
theorem Member.reads (m : Member) : rd 1 (at' m.bytes) 7 = m.name.length ∧ (m.bytes.drop 8).take m.name.length = m.name ∧
    rd 4 (at' m.bytes) (8 + (m.name.length + 1)) = m.data.length := by
  refine ⟨?_, ?_, ?_⟩
  · have hread := Lib.rd_at (w := 1) (n := m.name.length) (by have := m.name_length; omega) m.kind
      (m.name ++ (0 :: (le 4 m.data.length ++ m.data)))
    rw [m.kind_length] at hread
    exact hread
  · have hsplit : m.bytes = (m.kind ++ le 1 m.name.length) ++ (m.name ++ (0 :: (le 4 m.data.length ++ m.data))) := by
      rw [Member.bytes, List.append_assoc]
    rw [hsplit, List.drop_left' (by rw [List.length_append, m.kind_length, le_length]), List.take_left]
  · have hsplit : m.bytes = (m.kind ++ (le 1 m.name.length ++ (m.name ++ [0]))) ++ (le 4 m.data.length ++ m.data) := by
      simp only [Member.bytes, List.append_assoc, List.cons_append, List.nil_append]
    have hread := Lib.rd_at (w := 4) (n := m.data.length) m.data_length (m.kind ++ (le 1 m.name.length ++ (m.name ++ [0]))) m.data
    rw [← hsplit] at hread
    have hlen : (m.kind ++ (le 1 m.name.length ++ (m.name ++ [0]))).length = 8 + (m.name.length + 1) := by
      simp only [List.length_append, m.kind_length, le_length, List.length_singleton]
      omega
    rw [hlen] at hread
    exact hread

/-- A read of the file's bytes behind others. -/
theorem rd_behind {w i : Nat} (h : i + w ≤ m.bytes.length) :
    rd w (at' (pre ++ (m.bytes ++ rest))) (pre.length + i) = rd w (at' m.bytes) i := by
  rw [rd_append_right, rd_append_left h]

/-- A file that is there is read, and the next begins behind it. -/
theorem parseEntries_step (n : Nat) (hpkg : pkg = pre ++ (m.bytes ++ rest)) (hp : pre.length ≤ pkg.length)
    (hnext : pre.length + m.bytes.length ≤ pkg.length) :
    parseEntries pkg (n + 1) pre.length hp =
      match parseEntries pkg n (pre.length + m.bytes.length) hnext with
      | .error e => .error e
      | .ok none => .ok none
      | .ok (some entries) => .ok (some (⟨m.name, pre.length + 8 + (m.name.length + 1) + 4, m.data.length⟩ :: entries)) := by
  have hlen := m.bytes_length
  obtain ⟨hname, hbytes, hsize⟩ := m.reads
  have h1 : rd 1 (at' pkg) (pre.length + 7) = m.name.length := by
    rw [hpkg, rd_behind (by omega), hname]
  have h2 : (pkg.drop (pre.length + 8)).take m.name.length = m.name := by
    rw [hpkg, ← List.drop_drop, List.drop_left, List.drop_append_of_le_length (by omega),
      List.take_append_of_le_length (by rw [List.length_drop]; omega), hbytes]
  have h3 : rd 4 (at' pkg) (pre.length + 8 + (m.name.length + 1)) = m.data.length := by
    rw [hpkg, Nat.add_assoc, rd_behind (by omega), hsize]
  have hstep : pre.length + 8 + (m.name.length + 1) + 4 + m.data.length = pre.length + m.bytes.length := by omega
  rw [parseEntries]
  rw [dif_neg (by omega), readNum_ok (by omega), h1]
  dsimp only
  rw [dif_neg (by omega), readBytes_ok (by omega), readNum_ok (by omega), h2, h3]
  dsimp only
  rw [dif_neg (by omega)]
  simp only [hstep]

/-- The files that are laid out are read. -/
theorem parseEntries_all (hpkg : pkg = pre ++ (ms.flatMap Member.bytes ++ rest)) (hp : pre.length ≤ pkg.length) :
    parseEntries pkg ms.length pre.length hp = .ok (some (entriesAt pre.length ms)) := by
  induction ms generalizing pre with
  | nil => rfl
  | cons m ms ih =>
    have hpkg' : pkg = pre ++ (m.bytes ++ (ms.flatMap Member.bytes ++ rest)) := by
      rw [hpkg, List.flatMap_cons, List.append_assoc]
    have hmore : pkg = (pre ++ m.bytes) ++ (ms.flatMap Member.bytes ++ rest) := by rw [hpkg', List.append_assoc]
    have hlen : (pre ++ m.bytes).length ≤ pkg.length := by
      rw [hmore, @List.length_append _ (pre ++ m.bytes)]
      exact Nat.le_add_right _ _
    have hrest := ih hmore hlen
    simp only [List.length_append] at hrest hlen
    rw [List.length_cons, parseEntries_step ms.length hpkg' hp hlen, hrest]
    rfl

/-- A file that ends too early is found out. -/
theorem parseEntries_cut (n : Nat) {k : Nat} (hpkg : pkg = pre ++ m.bytes.take k) (hk : k < m.bytes.length)
    (hp : pre.length ≤ pkg.length) : parseEntries pkg (n + 1) pre.length hp = .ok none := by
  have hlen := m.bytes_length
  have hcut : pkg.length = pre.length + k := by
    rw [hpkg, List.length_append, List.length_take]
    omega
  obtain ⟨hname, -, hsize⟩ := m.reads
  have hread : ∀ w i, i + w ≤ k → rd w (at' pkg) (pre.length + i) = rd w (at' m.bytes) i := by
    intro w i hi
    have hbytes := rd_append_left (w := w) (l := m.bytes.take k) (m := m.bytes.drop k) (i := i) (by rw [List.length_take]; omega)
    rw [List.take_append_drop] at hbytes
    rw [hpkg, rd_append_right, hbytes]
  rw [parseEntries]
  by_cases h8 : k < 8
  · rw [dif_pos (by omega)]
  rw [dif_neg (by omega), readNum_ok (by omega), hread 1 7 (by omega), hname]
  dsimp only
  by_cases hn : k < 8 + (m.name.length + 1) + 4
  · rw [dif_pos (by omega)]
  have h3 : rd 4 (at' pkg) (pre.length + 8 + (m.name.length + 1)) = m.data.length := by
    rw [Nat.add_assoc, hread 4 (8 + (m.name.length + 1)) (by omega), hsize]
  rw [dif_neg (by omega), readBytes_ok (by omega), readNum_ok (by omega), h3]
  dsimp only
  rw [dif_pos (by omega)]

/-- So are files that are laid out and cut off. -/
theorem parseEntries_truncated {k : Nat} (hpkg : pkg = pre ++ (ms.flatMap Member.bytes).take k)
    (hk : k < (ms.flatMap Member.bytes).length) (hp : pre.length ≤ pkg.length) :
    parseEntries pkg ms.length pre.length hp = .ok none := by
  induction ms generalizing pre k with
  | nil => simp at hk
  | cons m ms ih =>
    rw [List.flatMap_cons] at hpkg hk
    rw [List.length_append] at hk
    by_cases hin : k < m.bytes.length
    · rw [List.take_append_of_le_length (Nat.le_of_lt hin)] at hpkg
      exact parseEntries_cut ms.length hpkg hin hp
    · rw [List.take_append, List.take_of_length_le (Nat.le_of_not_lt hin)] at hpkg
      have hmore : pkg = (pre ++ m.bytes) ++ (ms.flatMap Member.bytes).take (k - m.bytes.length) := by
        rw [hpkg, List.append_assoc]
      have hlen : (pre ++ m.bytes).length ≤ pkg.length := by
        rw [hmore, @List.length_append _ (pre ++ m.bytes)]
        exact Nat.le_add_right _ _
      have hrest := ih hmore (by omega) hlen
      simp only [List.length_append] at hrest hlen
      rw [List.length_cons, parseEntries_step ms.length hpkg hp hlen, hrest]

end Layout

/-! ## Slices -/

/-- The bytes an entry's data are. -/
def CbeaEntry.slice (e : CbeaEntry) (pkg : List UInt8) : List UInt8 := (pkg.drop e.data).take e.size

section Slices

variable {pkg pre rest : List UInt8} {ms : List Member}

theorem entriesAt_names (p : Nat) : (entriesAt p ms).map CbeaEntry.cname = ms.map Member.name := by
  induction ms generalizing p with
  | nil => rfl
  | cons m ms ih =>
    have hname : m.name.takeWhile (· != 0) = m.name := by
      rw [List.takeWhile_eq_self_iff]
      intro c hc
      have hne : c ≠ 0 := fun h0 => m.noNul (h0 ▸ hc)
      simpa using hne
    rw [entriesAt, List.map_cons, List.map_cons, ih, CbeaEntry.cname, hname]

theorem entriesAt_data (hpkg : pkg = pre ++ (ms.flatMap Member.bytes ++ rest)) :
    (entriesAt pre.length ms).map (fun e => e.slice pkg) = ms.map Member.data := by
  induction ms generalizing pre with
  | nil => rfl
  | cons m ms ih =>
    have hmore : pkg = (pre ++ m.bytes) ++ (ms.flatMap Member.bytes ++ rest) := by
      rw [hpkg, List.flatMap_cons, List.append_assoc, List.append_assoc]
    have hrest := ih hmore
    rw [List.length_append] at hrest
    have hslice : (pkg.drop (pre.length + 8 + (m.name.length + 1) + 4)).take m.data.length = m.data := by
      have hsplit : pkg = (pre ++ (m.kind ++ (le 1 m.name.length ++ (m.name ++ (0 :: le 4 m.data.length))))) ++
          (m.data ++ (ms.flatMap Member.bytes ++ rest)) := by
        rw [hmore]
        simp only [Member.bytes, List.append_assoc, List.cons_append]
      have hlen : (pre ++ (m.kind ++ (le 1 m.name.length ++ (m.name ++ (0 :: le 4 m.data.length))))).length =
          pre.length + 8 + (m.name.length + 1) + 4 := by
        simp only [List.length_append, List.length_cons, le_length, m.kind_length]
        omega
      rw [hsplit, List.drop_left' hlen, List.take_left]
    rw [entriesAt, List.map_cons, List.map_cons, hrest, CbeaEntry.slice, hslice]

/-- The slices lie behind the place they are laid out from, inside the files, one behind the other. -/
theorem entriesAt_slices (ms : List Member) (p : Nat) :
    (∀ e ∈ entriesAt p ms, p ≤ e.data ∧ e.data + e.size ≤ p + (ms.flatMap Member.bytes).length) ∧
    (entriesAt p ms).Pairwise fun e f => e.data + e.size ≤ f.data := by
  induction ms generalizing p with
  | nil => exact ⟨fun e he => (by cases he), List.Pairwise.nil⟩
  | cons m ms ih =>
    have hlen := m.bytes_length
    obtain ⟨hin, hpair⟩ := ih (p + m.bytes.length)
    rw [List.flatMap_cons, List.length_append]
    constructor
    · intro e he
      rcases List.mem_cons.mp he with rfl | he
      · dsimp only
        omega
      · obtain ⟨h1, h2⟩ := hin e he
        omega
    · refine List.pairwise_cons.mpr ⟨?_, hpair⟩
      intro e he
      have h1 := (hin e he).1
      dsimp only
      omega

end Slices

/-! ## Packages -/

section Packages

variable (a : Archive)

theorem Archive.header_length : a.header.length = 0x100 := by
  simp only [Archive.header, List.length_append, le_length, a.head_length, a.fill_length]

/-- The count is read from as much of the package as holds the header. -/
theorem Archive.reads_count {rest : List UInt8} : rd 4 (at' (a.header ++ rest)) 2 = a.members.length := by
  have hread := Lib.rd_at (w := 4) (n := a.members.length) (by have := a.count.2; omega) a.head (a.fill ++ rest)
  rw [a.head_length] at hread
  have hsplit : a.header ++ rest = a.head ++ (le 4 a.members.length ++ (a.fill ++ rest)) := by
    simp only [Archive.header, List.append_assoc]
  rw [hsplit, hread]

/-- What should come of a package: the files in order, their data inside it and apart. -/
structure Unpacked (pkg : List UInt8) (members : List Member) (entries : List CbeaEntry) : Prop where
  names : entries.map CbeaEntry.cname = members.map Member.name
  data : entries.map (fun e => e.slice pkg) = members.map Member.data
  inside : ∀ e ∈ entries, e.data + e.size ≤ pkg.length
  apart : entries.Pairwise fun e f => e.data + e.size ≤ f.data

theorem cbeaParse_archive (rest : List UInt8) : ∃ entries, cbeaParse (a.bytes ++ rest) = .ok (.ok entries) ∧
    Unpacked (a.bytes ++ rest) a.members entries := by
  have hpkg : a.bytes ++ rest = a.header ++ (a.members.flatMap Member.bytes ++ rest) := by rw [Archive.bytes, List.append_assoc]
  have hlen : a.header.length ≤ (a.bytes ++ rest).length := by
    rw [hpkg, List.length_append]
    exact Nat.le_add_right _ _
  have hall := parseEntries_all hpkg hlen
  have hcount : rd 4 (at' (a.bytes ++ rest)) 2 = a.members.length := by
    rw [hpkg]
    exact a.reads_count
  have hin := entriesAt_slices a.members a.header.length
  have hdata := entriesAt_data hpkg
  generalize hq : a.bytes ++ rest = pkg at *
  have hfits : a.header.length + (a.members.flatMap Member.bytes).length ≤ pkg.length := by
    rw [hpkg, List.length_append, List.length_append]
    omega
  refine ⟨entriesAt a.header.length a.members, ?_, entriesAt_names _, hdata, fun e he => Nat.le_trans (hin.1 e he).2 hfits, hin.2⟩
  have hcounts := a.count
  simp only [a.header_length] at hlen hall ⊢
  unfold cbeaParse
  rw [dif_neg (by omega), readNum_ok (by omega), hcount]
  dsimp only
  rw [if_neg (by omega), hall]

theorem cbeaParse_prefix {k : Nat} (hk : k < a.bytes.length) : ∃ e, cbeaParse (a.bytes.take k) = .ok (.error e) := by
  have hlen : (a.bytes.take k).length = k := by
    rw [List.length_take]
    omega
  have hheader := a.header_length
  unfold cbeaParse
  by_cases hshort : k < 0x100
  · exact ⟨.tooShort, dif_pos (by omega)⟩
  have hpkg : a.bytes.take k = a.header ++ (a.members.flatMap Member.bytes).take (k - 0x100) := by
    rw [Archive.bytes, List.take_append, List.take_of_length_le (by omega), hheader]
  have hcount : rd 4 (at' (a.bytes.take k)) 2 = a.members.length := by
    rw [hpkg]
    exact a.reads_count
  have hbytes : a.bytes.length = 0x100 + (a.members.flatMap Member.bytes).length := by
    rw [Archive.bytes, List.length_append, hheader]
  have hcut := parseEntries_truncated hpkg (by omega) (by omega)
  have hcounts := a.count
  refine ⟨.truncated, ?_⟩
  simp only [hheader] at hcut
  rw [dif_neg (by omega), readNum_ok (by omega), hcount]
  dsimp only
  rw [if_neg (by omega), hcut]

end Packages

/-- Parsing inverts the layout of archives whatever follows, rejects what is cut off, and reads
    inside every buffer. -/
theorem parse_package :
    (∀ (a : Archive) (rest : List UInt8), ∃ entries, cbeaParse (a.bytes ++ rest) = .ok (.ok entries) ∧
      Unpacked (a.bytes ++ rest) a.members entries) ∧
    (∀ (a : Archive) (k : Nat), k < a.bytes.length → ∃ e, cbeaParse (a.bytes.take k) = .ok (.error e)) ∧
    ∀ pkg : List UInt8, ∃ r, cbeaParse pkg = .ok r :=
  ⟨cbeaParse_archive, fun a _ hk => cbeaParse_prefix a hk, cbeaParse_inside⟩

/-- A package of two files, the second one with an empty name. -/
def twoFiles : Archive where
  head := [0, 1]
  fill := List.replicate (0x100 - 6) 0
  members := [⟨[13, 0, 0, 0, 0, 0, 3], [0x41, 0x2E, 0x42], [1, 2, 3, 4, 5], rfl, by decide, by decide, by decide⟩,
    ⟨[7, 0, 0, 0, 0, 0, 3], [], [6, 0, 8], rfl, by decide, by decide, by decide⟩]
  head_length := rfl
  fill_length := List.length_replicate
  count := by decide

/-- With a byte behind it, it is parsed into the two; without its last byte it is refused. -/
theorem two_files_parsed_and_cut :
    (∃ entries, cbeaParse (twoFiles.bytes ++ [9]) = .ok (.ok entries) ∧
      entries.map CbeaEntry.cname = [[0x41, 0x2E, 0x42], []] ∧
      entries.map (fun e => e.slice (twoFiles.bytes ++ [9])) = [[1, 2, 3, 4, 5], [6, 0, 8]]) ∧
    ∃ e, cbeaParse (twoFiles.bytes.take (twoFiles.bytes.length - 1)) = .ok (.error e) := by
  have hlen : twoFiles.bytes.length - 1 < twoFiles.bytes.length := by
    rw [Archive.bytes, List.length_append, Archive.header_length]
    omega
  obtain ⟨entries, hparse, hunpacked⟩ := parse_package.1 twoFiles [9]
  exact ⟨⟨entries, hparse, hunpacked.names, hunpacked.data⟩, parse_package.2.1 twoFiles _ hlen⟩

end Be300.Cbea
