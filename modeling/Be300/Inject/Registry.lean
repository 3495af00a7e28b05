/-
  Be300.Inject.Registry — the Stowaway key in a registry snapshot (`tools/inject_stowaway.py`).

  A Python `str` is the list of its code points. `parseRecords` is the loop over the
  records with the root and key of the last key record; a `struct.error` has no text here.
  The key name is read from a 32-bit count, which takes in a class name.
-/

import Be300.Cbea.Snapshot
import Be300.Lib.Utf16
import Mathlib.Data.List.DropRight

namespace Be300.Inject

open Be300.Lib (le rd at')
open Be300.Cbea (rd16 rd32)

def str (s : String) : List Nat := s.toList.map Char.toNat

def regRootHklm : Nat := 2
def regSz : Nat := 1
def regDword : Nat := 4

def stowawayKey : List Nat := str "Drivers\\BuiltIn\\Stowaway"
def builtInKey : List Nat := str "Drivers\\BuiltIn"
def builtInPrefix : List Nat := str "Drivers\\BuiltIn\\"

/-- A value in the table of the key's values. -/
inductive PyValue where
  | str (s : List Nat)
  | int (n : Nat)

def stowawayRegValues : List (List Nat × Nat × PyValue) :=
  [(str "Dll", regSz, .str (str "Stowaway.dll")), (str "Prefix", regSz, .str (str "STO")), (str "Index", regDword, .int 1),
    (str "Order", regDword, .int 3), (str "Keep", regDword, .int 1), (str "Port", regDword, .int 1),
    (str "Enabled", regDword, .int 1), (str "HotDock", regDword, .int 0), (str "KeyClick", regDword, .int 0),
    (str "RepeatRate", regDword, .int 0x96), (str "InitialDelay", regDword, .int 0x226), (str "IdleDelay", regDword, .int 0x7D0),
    (str "LampDelay", regDword, .int 0x3E8), (str "KeyboardLayoutFile", regSz, .str (str "Stowaway.dll")),
    (str "KeyboardLayoutID", regDword, .int 0), (str "HotKeyA1", regSz, .str (str "pmail.exe")),
    (str "HotKeyA2", regSz, .str (str "addrbook.exe")), (str "HotKeyA3", regSz, .str (str "calendar.exe")),
    (str "HotKeyA4", regSz, .str (str "tasks.exe")), (str "HotKeyA5", regSz, .str (str "notes.exe")),
    (str "HotKeyA6", regSz, .str (str "pword.exe")), (str "HotKeyA7", regSz, .str (str "pxl.exe")),
    (str "HotKeyA8", regSz, .str (str "moneyce.exe")), (str "HotKeyF1", regSz, .str (str "Stowaway.exe")),
    (str "HotKeyF2", regSz, .str (str "Stowaway.exe")), (str "HotKeyF3", regSz, .str (str "Stowaway.exe")),
    (str "HotKeyF4", regSz, .str (str "Stowaway.exe")), (str "HotKeyF5", regSz, .str (str "Stowaway.exe")),
    (str "HotKeyF6", regSz, .str (str "Stowaway.exe")), (str "HotKeyF7", regSz, .str (str "Stowaway.exe")),
    (str "HotKeyF8", regSz, .str (str "Stowaway.exe")), (str "HotKeyF9", regSz, .str (str "Stowaway.exe")),
    (str "HotKeyF0", regSz, .str (str "Stowaway.exe")), (str "HomeScreenApp", regSz, .str (str "\\Windows\\Menu.exe")),
    (str "Window32768", regSz, .str (str "DesktopExplorerWindow"))]

structure RegRecord where
  raw : List UInt8
  recordType : Nat
  root : Option Nat
  key : Option (List Nat)
  valueName : Option (List Nat)

inductive Error where
  | tooShort
  | sizeHeader
  | truncated (pos : Nat)
  | badLength (pos : Nat)
  | unknownType (recordType pos : Nat)
  | notStr (name : List Nat)
  | notInt (name : List Nat)
  | unsupported (regType : Nat)
  /-- `struct.error`. -/
  | struct
  deriving DecidableEq

def Error.text : Error → String
  | .tooShort => "registry stream is too short"
  | .sizeHeader => "registry size header does not match file length"
  | .truncated pos => "truncated registry record header at 0x" ++ String.ofList (Nat.toDigits 16 pos)
  | .badLength pos => "bad registry record length at 0x" ++ String.ofList (Nat.toDigits 16 pos)
  | .unknownType recordType pos =>
    "unknown registry record type " ++ toString recordType ++ " at 0x" ++ String.ofList (Nat.toDigits 16 pos)
  | .notStr name => String.ofList (name.map Char.ofNat) ++ ": REG_SZ value must be str"
  | .notInt name => String.ofList (name.map Char.ofNat) ++ ": REG_DWORD value must be int"
  | .unsupported regType => "unsupported registry type: " ++ toString regType
  | .struct => ""

/-- `rstrip("\x00")` of the text. -/
def decodeUtf16z (data : List UInt8) : List Nat := (Lib.Utf16.decode data).rdropWhile (· == 0)

def encodeUtf16z (text : List Nat) : List UInt8 := Lib.Utf16.encode (text ++ [0])

/-- `data[start:stop]`. -/
def slice (data : List UInt8) (start stop : Nat) : List UInt8 := (data.take stop).drop start

/-! ## Reading -/

/-- A key record. -/
def keyRecord (raw : List UInt8) : Except Error RegRecord :=
  if raw.length < 10 then .error .struct
  else
    let charCount := rd32 raw 6
    .ok { raw, recordType := 1, root := some (rd16 raw 4), key := some (decodeUtf16z (slice raw 10 (10 + charCount * 2))),
          valueName := none }

/-- A value record, of the key read last. -/
def valueRecord (root : Option Nat) (key : Option (List Nat)) (raw : List UInt8) : Except Error RegRecord :=
  if raw.length < 8 then .error .struct
  else .ok { raw, recordType := 2, root, key, valueName := some (decodeUtf16z (slice raw 10 (10 + rd16 raw 6 * 2))) }

/-- The loop over the records from `pos` on. -/
def parseRecords (root : Option Nat) (key : Option (List Nat)) (pos : Nat) (rest : List UInt8) : Except Error (List RegRecord) :=
  if rest = [] then .ok []
  else if rest.length < 4 then .error (.truncated pos)
  else if rd16 rest 0 = 0 ∨ rest.length < 4 + rd16 rest 0 then .error (.badLength pos)
  else
    let raw := rest.take (4 + rd16 rest 0)
    let next := rest.drop (4 + rd16 rest 0)
    if rd16 rest 2 = 1 then do
      let record ← keyRecord raw
      let records ← parseRecords record.root record.key (pos + (4 + rd16 rest 0)) next
      return record :: records
    else if rd16 rest 2 = 2 then do
      let record ← valueRecord root key raw
      let records ← parseRecords root key (pos + (4 + rd16 rest 0)) next
      return record :: records
    else .error (.unknownType (rd16 rest 2) pos)
termination_by rest.length
decreasing_by
  all_goals
    simp only [List.length_drop]
    omega

def parseRegRecords (data : List UInt8) : Except Error (List RegRecord) :=
  if data.length < 8 then .error .tooShort
  else if rd32 data 4 ≠ data.length then .error .sizeHeader
  else parseRecords none none 8 (data.drop 8)

/-! ## Writing -/

/-- `struct.pack` of 16-bit fields, an error where one does not fit. -/
def packH (fields : List Nat) : Except Error (List UInt8) :=
  if fields.all (· < 65536) then .ok (fields.flatMap (le 2)) else .error .struct

def encodeKeyRecord (root : Nat) (key : List Nat) : Except Error (List UInt8) := do
  let keyBytes := encodeUtf16z key
  let charCount := keyBytes.length / 2
  let payloadLen := 2 + 4 + keyBytes.length
  let front ← packH [payloadLen, 1, root]
  if charCount < 2 ^ 32 then return front ++ le 4 charCount ++ keyBytes else .error .struct

def encodeValueData (name : List Nat) (regType : Nat) (value : PyValue) : Except Error (List UInt8) :=
  if regType = regSz then
    match value with
    | .str s => .ok (encodeUtf16z s)
    | .int _ => .error (.notStr name)
  else if regType = regDword then
    match value with
    | .str _ => .error (.notInt name)
    | .int n => if n < 2 ^ 32 then .ok (le 4 n) else .error .struct
  else .error (.unsupported regType)

def encodeValueRecord (name : List Nat) (regType : Nat) (value : PyValue) : Except Error (List UInt8) := do
  let nameBytes := encodeUtf16z name
  let data ← encodeValueData name regType value
  let payloadLen := 2 + 2 + 2 + nameBytes.length + data.length
  let front ← packH [payloadLen, 2, regType, nameBytes.length / 2, data.length]
  return front ++ nameBytes ++ data

/-- The records of the Stowaway key, one after another. -/
def stowawayRecords : Except Error (List UInt8) := do
  let key ← encodeKeyRecord regRootHklm stowawayKey
  let values ← stowawayRegValues.mapM fun v => encodeValueRecord v.1 v.2.1 v.2.2
  return key ++ values.flatten

/-! ## The update -/

/-- A record of the Stowaway key, which is left out. -/
def RegRecord.stowaway (r : RegRecord) : Bool := r.root == some regRootHklm && r.key == some stowawayKey

/-- A record of a built-in driver, which the Stowaway key goes after. -/
def RegRecord.builtIn (r : RegRecord) : Bool :=
  r.root == some regRootHklm &&
    match r.key with
    | some key => key == builtInKey || builtInPrefix.isPrefixOf key
    | none => false

/-- The records kept, and `insert_after`. -/
def keepRecords (records : List RegRecord) : List RegRecord × Option Nat :=
  records.foldl (fun (kept, insertAfter) r =>
    if r.stowaway then (kept, insertAfter) else (kept ++ [r], if r.builtIn then some kept.length else insertAfter)) ([], none)

/-- The loop that writes the records kept, and the new ones after number `insertAfter`. -/
def writeBody (kept : List RegRecord) (insertAfter : Nat) (new : List UInt8) : List UInt8 :=
  (kept.zipIdx.flatMap fun (r, index) => r.raw ++ if index = insertAfter then new else []) ++
    if insertAfter = kept.length then new else []

def updateStowawayRegistry (data : List UInt8) : Except Error (List UInt8) := do
  let records ← parseRegRecords data
  let (kept, insertAfter) := keepRecords records
  let new ← stowawayRecords
  let out := data.take 8 ++ writeBody kept (insertAfter.getD kept.length) new
  if out.length < 2 ^ 32 then return out.take 4 ++ le 4 out.length ++ out.drop 8 else .error .struct

end Be300.Inject
