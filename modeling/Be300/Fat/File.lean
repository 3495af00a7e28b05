/-
  Be300.Fat.File — paths and files: `fat_mkdirs`, `fat_write_file`, `fat_read`, and the
  entry points `cbea_fat_read_file` and `cbea_fat_write_file` of `src/cbea_install.c`.

  A path is its components but the last, and the last. A failed write says why
  (`FatError`, with the text the source logs). The functions run on a `Disk` or on the
  bytes of an image; `cbeaFatWriteFile` is the latter: it locates the volume and starts
  with the allocation hint 2. A `Fault` is not a result of the source: it is an access it
  must not make.
-/

import Be300.Fat.Create

namespace Be300.Fat

open Be300.Lib (Prog le at')

def maxName : Nat := 255

def attrArchive : UInt8 := 0x20

/-! ## Errors -/

inductive FatError where
  | componentTooLong (path : List UInt8)
  | notDirectory (path comp : List UInt8)
  | diskFullCreating (comp : List UInt8)
  | directoryFullCreating (comp : List UInt8)
  | noLeaf
  | tooLarge (path : List UInt8)
  | nameTooLong (leaf : List UInt8)
  | isDirectory (path : List UInt8)
  | diskFull (path : List UInt8) (len : Nat)
  | directoryFull (path : List UInt8)
  | diskFullWriting (path : List UInt8)
  | noVolume
  deriving DecidableEq, Repr

def ascii (s : String) : List UInt8 := s.toList.map fun c => UInt8.ofNat c.toNat

/-- What is logged; an empty file name is refused without a word. -/
def FatError.log : FatError → List UInt8
  | componentTooLong path => ascii "error: path component too long in " ++ path ++ ascii "\n"
  | notDirectory path comp => ascii "error: " ++ path ++ ascii ": '" ++ comp ++ ascii "' exists and is not a directory\n"
  | diskFullCreating comp => ascii "error: disk full creating " ++ comp ++ ascii "\n"
  | directoryFullCreating comp => ascii "error: directory full creating " ++ comp ++ ascii "\n"
  | noLeaf => []
  | tooLarge path => ascii "error: " ++ path ++ ascii " is too large\n"
  | nameTooLong leaf => ascii "error: file name too long: " ++ leaf ++ ascii "\n"
  | isDirectory path => ascii "error: " ++ path ++ ascii " exists and is a directory\n"
  | diskFull path len => ascii "error: disk full writing " ++ path ++ ascii " (" ++ decimal len ++ ascii " bytes)\n"
  | directoryFull path => ascii "error: directory full writing " ++ path ++ ascii "\n"
  | diskFullWriting path => ascii "error: disk full writing " ++ path ++ ascii "\n"
  | noVolume => ascii "error: no FAT16 volume in image\n"

/-! ## Paths -/

/-- The components before the last backslash, and the rest. -/
def splitPath : List UInt8 → List (List UInt8) × List UInt8
  | [] => ([], [])
  | c :: p =>
    let (dirs, leaf) := splitPath p
    if c = 0x5C then ([] :: dirs, leaf)
    else match dirs with
      | [] => ([], c :: leaf)
      | x :: dirs => ((c :: x) :: dirs, leaf)

/-- `.` or `..` of a new directory. -/
def dotEntry (c off : Nat) (name : List UInt8) (cluster : Nat) : FatM Unit := do
  store ⟨c, off⟩ (padTo 11 name ++ [attrDir])
  direntSetTime ⟨c, off⟩
  store ⟨c, off + 26⟩ (le 2 cluster)

def makeDir (v : Vol) (dir : Nat) (comp : List UInt8) : FatM (Except FatError Nat) := do
  let c ← fatAlloc v
  if c = 0 then return .error (.diskFullCreating comp)
  else
    match ← dirCreate v dir comp attrDir with
    | none => do
      fatSet c 0
      return .error (.directoryFullCreating comp)
    | some e => do
      store (e.plus 26) (le 2 c)
      dotEntry c 0 [0x2E] c
      dotEntry c direntSize [0x2E, 0x2E] dir
      return .ok c

/-- One component of `fat_mkdirs`. -/
def enterDir (v : Vol) (path : List UInt8) (dir : Nat) (comp : List UInt8) : FatM (Except FatError Nat) := do
  if comp = [] then return .ok dir
  else if maxName < comp.length then return .error (.componentTooLong path)
  else
    match ← dirFind v dir comp with
    | none => makeDir v dir comp
    | some ent => do
      let e ← load ent direntSize
      if !isDir e then return .error (.notDirectory path comp) else return .ok (direntCluster e)

def mkdirsLoop (v : Vol) (path : List UInt8) : List (List UInt8) → Nat → FatM (Except FatError Nat)
  | [], dir => return .ok dir
  | comp :: comps, dir => do
    match ← enterDir v path dir comp with
    | .error e => return .error e
    | .ok dir => mkdirsLoop v path comps dir

/-- The directory of `path`, made where it is missing, and the file name. -/
def fatMkdirs (v : Vol) (path : List UInt8) : FatM (Except FatError (Nat × List UInt8)) := do
  let (comps, leaf) := splitPath path
  match ← mkdirsLoop v path comps 0 with
  | .error e => return .error e
  | .ok dir => if leaf = [] then return .error .noLeaf else return .ok (dir, leaf)

/-! ## Writing -/

/-- The clusters for `len` bytes. -/
def Vol.clustersFor (v : Vol) (len : Nat) : Nat := (len + v.clusterBytes - 1) / v.clusterBytes

/-- Piece `i` of the data. -/
def Vol.chunk (v : Vol) (data : List UInt8) (i : Nat) : List UInt8 := (data.drop (i * v.clusterBytes)).take v.clusterBytes

/-- `k` more clusters, from piece `i` on; the first one, or none where the disk is full. -/
def writeLoop (v : Vol) (data : List UInt8) : Nat → Nat → Nat → Nat → FatM (Option Nat)
  | 0, _, first, _ => return some first
  | k + 1, i, first, prev => do
    let c ← fatAlloc v
    if c = 0 then return none
    else do
      store ⟨c, 0⟩ (v.chunk data i)
      if prev ≠ 0 then do
        fatSet prev c
        writeLoop v data k (i + 1) first c
      else writeLoop v data k (i + 1) c c

/-- An existing file gives its clusters back and is empty. -/
def emptyFile (v : Vol) (ent : Addr) (e : Slot) : FatM Unit := do
  fatFreeChain v (direntCluster e)
  store (ent.plus 26) (le 2 0)
  store (ent.plus 28) (le 4 0)

/-- The entry of `leaf`: the one there is, emptied, or none. -/
def openLeaf (v : Vol) (path : List UInt8) (dir : Nat) (leaf : List UInt8) : FatM (Except FatError (Option Addr)) := do
  match ← dirFind v dir leaf with
  | none => return .ok none
  | some ent => do
    let e ← load ent direntSize
    if isDir e then return .error (.isDirectory path)
    else do
      emptyFile v ent e
      return .ok (some ent)

def fillFile (v : Vol) (path data : List UInt8) (e : Addr) : FatM (Except FatError Unit) := do
  match ← writeLoop v data (v.clustersFor data.length) 0 0 0 with
  | none => return .error (.diskFullWriting path)
  | some first => do
    store (e.plus 26) (le 2 first)
    store (e.plus 28) (le 4 data.length)
    direntSetTime e
    return .ok ()

def writeLeaf (v : Vol) (path : List UInt8) (dir : Nat) (leaf data : List UInt8) : FatM (Except FatError Unit) := do
  if maxName < leaf.length then return .error (.nameTooLong leaf)
  else
    match ← openLeaf v path dir leaf with
    | .error e => return .error e
    | .ok ent => do
      if (← fatFreeClusters v) < v.clustersFor data.length + 1 then return .error (.diskFull path data.length)
      else
        match ent with
        | some e => fillFile v path data e
        | none => do
          match ← dirCreate v dir leaf attrArchive with
          | none => return .error (.directoryFull path)
          | some e => fillFile v path data e

/-- Sizes are 32 bits wide. -/
def maxLen : Nat := 2 ^ 32

def fatWriteFile (v : Vol) (path data : List UInt8) : FatM (Except FatError Unit) := do
  if maxLen ≤ data.length then return .error (.tooLarge path)
  else
    match ← fatMkdirs v path with
    | .error e => return .error e
    | .ok (dir, leaf) => writeLeaf v path dir leaf data

/-! ## Reading -/

/-- A component of the path, found; none where it is empty, too long or missing. -/
def findComp (v : Vol) (dir : Nat) (comp : List UInt8) : FatM (Option Slot) := do
  if comp = [] ∨ maxName < comp.length then return none
  else
    match ← dirFind v dir comp with
    | none => return none
    | some ent => do
      let e ← load ent direntSize
      return some e

def readPath (v : Vol) (leaf : List UInt8) : List (List UInt8) → Nat → FatM (Option Slot)
  | [], dir => findComp v dir leaf
  | comp :: comps, dir => do
    match ← findComp v dir comp with
    | none => return none
    | some e => if !isDir e then return none else readPath v leaf comps (direntCluster e)

/-- The next `rem` bytes of the chain from `c` on. -/
def readLoop (v : Vol) : Nat → Nat → Nat → FatM (Option (List UInt8))
  | 0, rem, _ => return if rem = 0 then some [] else none
  | guard + 1, rem, c => do
    if rem = 0 then return some []
    else if !v.validCluster c then return none
    else do
      let b ← load ⟨c, 0⟩ (min rem v.clusterBytes)
      let next ← fatGet c
      let rest ← readLoop v guard (rem - v.clusterBytes) next
      return rest.map (b ++ ·)

def fatRead (v : Vol) (path : List UInt8) : FatM (Option (List UInt8)) := do
  let (comps, leaf) := splitPath path
  match ← readPath v leaf comps 0 with
  | none => return none
  | some e => if isDir e then return none else readLoop v v.clusterCount (direntLen e) (direntCluster e)

/-! ## On an image -/

/-- `cbea_fat_read_file`; `none` is NULL. -/
def cbeaFatReadFile (img : Image) (path : List UInt8) : Except Fault (Option (List UInt8)) := do
  match ← img.locate with
  | none => return none
  | some v => do
    let (r, _) ← (fatRead v path).run v.exec ⟨img, 2, fun _ => (0, 0)⟩
    return r

/-- `cbea_fat_write_file`, at a time `clock`. -/
def cbeaFatWriteFile (img : Image) (clock : Nat → Nat × Nat) (path data : List UInt8) :
    Except Fault (Except FatError Unit × Image) := do
  match ← img.locate with
  | none => return (.error .noVolume, img)
  | some v => do
    let (r, s) ← (fatWriteFile v path data).run v.exec ⟨img, 2, clock⟩
    return (r, s.img)

end Be300.Fat
