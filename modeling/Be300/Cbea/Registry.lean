/-
  Be300.Cbea.Registry — `reg_merge` of `src/cbea_install.c` and the functions it is made of.

  `Backup\System.reg` is a header (magic, total size) and records: a key record is
  followed by the value records of that key. `reg_merge` copies the records of the old
  snapshot, leaves out the values that an `[Add Registry]` line overrides, and writes the
  added values at the end of their key, new keys at the end of the file. `done` marks the
  adds already written.

  The growing buffer is the list `out`, without the 8 header bytes; memory is taken to
  suffice. `mergeRecords` is the loop over the old records, `mergeRecord` its body: `none`
  is the jump to `corrupt`. Every read it makes is inside the record.
-/

import Be300.Lib.Bytes
import Be300.Cbea.Strings

namespace Be300.Cbea

open Be300.Lib (le rd at')

def maxPathLen : Nat := 520

/-- A NUL-terminated string in a `char` array of `n` bytes. -/
structure CStr (n : Nat) where
  val : List UInt8
  fits : val.length < n
  noNul : 0 ∉ val
  deriving DecidableEq, Repr

/-- `reg_add_t`, within the limits `reg_parse_line` and `reg_push_value` keep. -/
structure RegAdd where
  root : Nat
  key : CStr maxPathLen
  name : CStr 256
  type : Nat
  data : List UInt8
  done : Bool
  root_lt : root < 65536
  type_lt : type < 65536
  fits : 6 + (name.val.length + 1) * 2 + data.length ≤ 65535

def regMagic : List UInt8 := [0xB2, 0x74, 0x83, 0x1D]

def rd16 (r : List UInt8) (i : Nat) : Nat := rd 2 (at' r) i

def rd32 (r : List UInt8) (i : Nat) : Nat := rd 4 (at' r) i

def utf16zLen (s : List UInt8) : Nat := (s.length + 1) * 2

def putUtf16z (s : List UInt8) : List UInt8 := (s.flatMap fun c => le 2 c.toNat) ++ le 2 0

/-- The name `reg_name_eq` takes from the units at `i`: up to a NUL, `nchars` or its buffer. -/
def regName (r : List UInt8) (i nchars : Nat) : List Nat :=
  ((List.range (min nchars maxPathLen)).map fun n => rd16 r (i + n * 2)).takeWhile (· != 0)

def regNameEq (r : List UInt8) (i nchars : Nat) (s : List UInt8) : Bool := nameEqU16 (regName r i nchars) s

/-! ## Writing records -/

def regEmitKey (root : Nat) (key : List UInt8) : List UInt8 :=
  le 2 (6 + utf16zLen key) ++ (le 2 1 ++ (le 2 root ++ (le 2 (utf16zLen key / 2) ++ (le 2 0 ++ putUtf16z key))))

def regEmitValue (a : RegAdd) : List UInt8 :=
  le 2 (6 + utf16zLen a.name.val + a.data.length) ++ (le 2 2 ++ (le 2 a.type ++ (le 2 (utf16zLen a.name.val / 2) ++
    (le 2 a.data.length ++ (putUtf16z a.name.val ++ a.data)))))

/-- `a` is for the key. -/
def RegAdd.isFor (a : RegAdd) (root : Nat) (key : List UInt8) : Bool := a.root == root && strIeq a.key.val key

/-- The pending values of a key, and the adds with these marked done. Later lines for the
    same value win. -/
def regEmitPending (root : Nat) (key : List UInt8) : List RegAdd → List UInt8 × List RegAdd
  | [] => ([], [])
  | a :: adds =>
    let (o, rest) := regEmitPending root key adds
    if a.done || !a.isFor root key then (o, a :: rest)
    else
      let superseded := adds.any fun b => b.isFor root key && strIeq b.name.val a.name.val
      (if superseded then o else regEmitValue a ++ o, { a with done := true } :: rest)

def regKeyPending (adds : List RegAdd) (root : Nat) (r : List UInt8) (nchars : Nat) : Option (List UInt8) :=
  (adds.find? fun a => a.root == root && regNameEq r 10 nchars a.key.val).map fun a => a.key.val

def regValueOverridden (adds : List RegAdd) (root : Nat) (key : List UInt8) (r : List UInt8) (nchars : Nat) : Bool :=
  adds.any fun a => a.isFor root key && regNameEq r 10 nchars a.name.val

/-! ## `reg_merge` -/

inductive RegError where
  | unknownFormat
  | corrupt (pos : Nat)
  deriving DecidableEq, Repr

def RegError.text : RegError → String
  | .unknownFormat => "error: \\Backup\\System.reg has an unknown format\n"
  | .corrupt pos => "error: \\Backup\\System.reg is corrupt at offset 0x" ++ String.ofList (Nat.toDigits 16 pos) ++ "\n"

/-- The locals of `reg_merge`. -/
structure Merge where
  out : List UInt8
  adds : List RegAdd
  curKey : Option (List UInt8)
  curRoot : Nat

/-- The pending values of the key that just ended. -/
def Merge.flush (m : Merge) : Merge :=
  match m.curKey with
  | none => m
  | some key =>
    let (o, adds) := regEmitPending m.curRoot key m.adds
    { m with out := m.out ++ o, adds := adds }

def mergeRecord (m : Merge) (r : List UInt8) : Option Merge :=
  let plen := rd16 r 0
  let rtype := rd16 r 2
  if rtype = 1 then
    if plen < 6 then none
    else
      let m := m.flush
      let root := rd16 r 4
      let nchars := rd16 r 6
      if plen - 6 < (nchars + rd16 r 8) * 2 then none
      else some { m with out := m.out ++ r, curKey := regKeyPending m.adds root r nchars, curRoot := root }
  else if rtype = 2 then
    if plen < 6 then none
    else
      let nchars := rd16 r 6
      if plen - 6 < nchars * 2 then none
      else
        match m.curKey with
        | some key =>
          some (if regValueOverridden m.adds m.curRoot key r nchars then m else { m with out := m.out ++ r })
        | none => some { m with out := m.out ++ r }
  else none

def mergeRecords (m : Merge) (pos : Nat) (rest : List UInt8) : Except RegError Merge :=
  if rest = [] then .ok m
  else if rest.length < 4 then .error (.corrupt pos)
  else if rd16 rest 0 = 0 ∨ rest.length < 4 + rd16 rest 0 then .error (.corrupt pos)
  else
    match mergeRecord m (rest.take (4 + rd16 rest 0)) with
    | none => .error (.corrupt pos)
    | some m => mergeRecords m (pos + (4 + rd16 rest 0)) (rest.drop (4 + rd16 rest 0))
termination_by rest.length
decreasing_by
  simp only [List.length_drop]
  omega

/-- The loop over the adds from `i` on: each key not yet written, once, with its values. -/
def emitNew : Nat → Nat → List RegAdd → List UInt8 × List RegAdd
  | 0, _, adds => ([], adds)
  | n + 1, i, adds =>
    match adds[i]? with
    | none => ([], adds)
    | some a =>
      if a.done then emitNew n (i + 1) adds
      else
        let (o, adds) := regEmitPending a.root a.key.val adds
        let (o', adds) := emitNew n (i + 1) adds
        (regEmitKey a.root a.key.val ++ (o ++ o'), adds)

/-- The records of the old snapshot, after the check of its header. -/
def oldRecords : Option (List UInt8) → Except RegError (List UInt8)
  | none => .ok []
  | some b => if b.length < 8 ∨ b.take 4 ≠ regMagic ∨ rd32 b 4 ≠ b.length then .error .unknownFormat else .ok (b.drop 8)

/-- The merged snapshot and the adds, all done. -/
def regMerge (old : Option (List UInt8)) (adds : List RegAdd) : Except RegError (List UInt8 × List RegAdd) := do
  let rest ← oldRecords old
  let m ← mergeRecords ⟨[], adds, none, 0⟩ 8 rest
  let (o, adds) := emitNew m.flush.adds.length 0 m.flush.adds
  let out := m.flush.out ++ o
  return (regMagic ++ (le 4 (8 + out.length) ++ out), adds)

end Be300.Cbea
