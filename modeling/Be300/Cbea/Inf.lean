/-
  Be300.Cbea.Inf — `[Add Registry]` lines (`inf_split`, `reg_parse_line` and `parse_u32` of
  `src/cbea_install.c`).

  A line is split at its commas into at most 64 fields; a field that begins with a quote
  runs to the next one, and what stands between that and the comma is skipped. The fields
  are a root, a key, a name, a type, one that is not read, and the value. `fieldsOf` are all
  the fields of a line, with what is skipped: joined by commas they are the line
  (`fieldsOf_join`).

  Proved (`encodes_iff`): a line that is accepted fits the 64 fields and its value is made of
  the whole of its fields, exactly if there are not more than 64 of them, nothing is skipped
  in those the value takes, and no number of them is negative or beyond `unsigned long`, which
  has `ulongBits` bits.
-/

import Be300.Cbea.Registry
import Mathlib.Data.List.DropRight
import Mathlib.Data.List.Forall2

namespace Be300.Cbea

open Be300.Lib (le)

/-! ## Fields -/

def infMaxFields : Nat := 64

def isBlank (c : UInt8) : Bool := c == 0x20 || c == 0x09

/-- A string without a NUL. -/
abbrev CString : Type := { s : List UInt8 // 0 ∉ s }

structure InfField where
  text : List UInt8
  quoted : Bool
  deriving DecidableEq, Repr

/-- A field, and the line from its comma on. -/
def infField (p : List UInt8) : InfField × List UInt8 :=
  match p.dropWhile isBlank with
  | 0x22 :: p =>
    let text := p.takeWhile (· != 0x22)
    let p := (p.dropWhile (· != 0x22)).drop 1
    (⟨text, true⟩, p.dropWhile (· != 0x2C))
  | p => (⟨(p.takeWhile (· != 0x2C)).rdropWhile isBlank, false⟩, p.dropWhile (· != 0x2C))

/-- `while (f->n < INF_MAX_FIELDS)`. -/
def splitLoop : Nat → List UInt8 → List InfField
  | 0, _ => []
  | n + 1, p =>
    match infField p with
    | (f, []) => [f]
    | (f, _ :: p) => f :: splitLoop n p

theorem mem_infField {p : List UInt8} {c : UInt8} (h : c ∈ (infField p).1.text ∨ c ∈ (infField p).2) : c ∈ p := by
  have hdrop : ∀ x, x ∈ p.dropWhile isBlank → x ∈ p := fun x hx => (List.dropWhile_sublist _).mem hx
  unfold infField at h
  split at h
  · rename_i q hq
    rw [hq] at hdrop
    apply hdrop
    apply List.mem_cons_of_mem
    rcases h with h | h
    · exact (List.takeWhile_sublist _).mem h
    · exact (List.dropWhile_sublist _).mem (List.mem_of_mem_drop ((List.dropWhile_sublist _).mem h))
  · apply hdrop
    rcases h with h | h
    · exact (List.takeWhile_sublist _).mem ((List.rdropWhile_prefix _ _).sublist.mem h)
    · exact (List.dropWhile_sublist _).mem h

theorem noNul_splitLoop (n : Nat) {p : List UInt8} (h : 0 ∉ p) : ∀ f ∈ splitLoop n p, 0 ∉ f.text := by
  induction n generalizing p with
  | zero => simp [splitLoop]
  | succ n ih =>
    have hmem := fun c => mem_infField (p := p) (c := c)
    unfold splitLoop
    generalize infField p = r at hmem
    obtain ⟨f, rest⟩ := r
    cases rest with
    | nil =>
      intro g hg
      rw [List.mem_singleton.mp hg]
      exact fun h0 => h (hmem 0 (Or.inl h0))
    | cons x q =>
      intro g hg
      rcases List.mem_cons.mp hg with rfl | hg
      · exact fun h0 => h (hmem 0 (Or.inl h0))
      · exact ih (fun h0 => h (hmem 0 (Or.inr (List.mem_cons_of_mem x h0)))) g hg

/-- `inf_fields_t`. -/
structure InfFields where
  s : List InfField
  noNul : ∀ f ∈ s, 0 ∉ f.text

def infSplit (line : CString) : InfFields := ⟨splitLoop infMaxFields line.val, noNul_splitLoop _ line.property⟩

/-- `f->s[i]`, for a field that is there. -/
def InfFields.text (f : InfFields) (i : Nat) : List UInt8 := (f.s[i]?.map InfField.text).getD []

theorem InfFields.noNul_text (f : InfFields) (i : Nat) : 0 ∉ f.text i := by
  unfold InfFields.text
  cases h : f.s[i]? with
  | none => simp
  | some x => exact f.noNul x (List.mem_of_getElem? h)

/-! ## Numbers -/

def isSpace (c : UInt8) : Bool := c == 0x20 || (0x09 ≤ c && c ≤ 0x0D)

def isHex (c : UInt8) : Bool := (0x30 ≤ c && c ≤ 0x39) || (0x41 ≤ c && c ≤ 0x46) || (0x61 ≤ c && c ≤ 0x66)

def hexDigit (c : UInt8) : Nat := if c ≤ 0x39 then c.toNat - 0x30 else if c ≤ 0x46 then c.toNat - 0x41 + 10
    else c.toNat - 0x61 + 10

def hexNat (digits : List UInt8) : Nat := digits.foldl (fun n c => 16 * n + hexDigit c) 0

/-- What `strtoul` reads in base 16: whether there is a minus, the digits, and the rest. -/
def scanHex (s : List UInt8) : Option (Bool × List UInt8 × List UInt8) :=
  let (neg, s) :=
    match s.dropWhile isSpace with
    | 0x2D :: r => (true, r)
    | 0x2B :: r => (false, r)
    | r => (false, r)
  let s :=
    match s with
    | 0x30 :: x :: d :: r => if (x = 0x78 ∨ x = 0x58) ∧ isHex d then d :: r else s
    | _ => s
  if s.takeWhile isHex = [] then none else some (neg, s.takeWhile isHex, s.dropWhile isHex)

/-- The value, and what follows the number; the whole string where there is none. -/
def strtoul (ulongBits : Nat) (s : List UInt8) : Nat × List UInt8 :=
  match scanHex s with
  | none => (0, s)
  | some (neg, digits, rest) =>
    let m := hexNat digits
    (if 2 ^ ulongBits ≤ m then 2 ^ ulongBits - 1 else if neg then (2 ^ ulongBits - m) % 2 ^ ulongBits else m, rest)

/-- In base 16. -/
def parseU32 (ulongBits : Nat) (s : List UInt8) : Option Nat :=
  let s := s.dropWhile (· == 0x20)
  if s = [] then none
  else
    let (v, rest) := strtoul ulongBits s
    if rest.dropWhile (· == 0x20) ≠ [] ∨ 0xFFFFFFFF < v then none else some v

/-! ## `reg_parse_line` -/

def regRootHkcr : Nat := 0
def regRootHkcu : Nat := 1
def regRootHklm : Nat := 2
def regTypeSz : Nat := 1
def regTypeExpandSz : Nat := 2
def regTypeBinary : Nat := 3
def regTypeDword : Nat := 4
def regTypeMultiSz : Nat := 7

def ascii (s : String) : List UInt8 := s.toList.map fun c => UInt8.ofNat c.toNat

inductive RegLineError where
  | short (what : List UInt8)
  | unsupportedRoot (root : List UInt8)
  | keyOrName
  | sz (key : List UInt8)
  | dword (key name : List UInt8)
  | binary (key name : List UInt8)
  | unsupportedType (type key : List UInt8)
  | tooLarge (key name : List UInt8)
  deriving DecidableEq, Repr

def RegLineError.text : RegLineError → List UInt8
  | .short what => ascii "error: short [Add Registry] line for " ++ what ++ [0x0A]
  | .unsupportedRoot root => ascii "error: unsupported registry root " ++ root ++ [0x0A]
  | .keyOrName => ascii "error: bad registry key or value name" ++ [0x0A]
  | .sz key => ascii "error: bad REG_SZ value for " ++ key ++ [0x0A]
  | .dword key name => ascii "error: bad REG_DWORD value for " ++ key ++ [0x5C] ++ name ++ [0x0A]
  | .binary key name => ascii "error: bad REG_BINARY byte for " ++ key ++ [0x5C] ++ name ++ [0x0A]
  | .unsupportedType type key => ascii "error: unsupported registry type " ++ type ++ ascii " for " ++ key ++ [0x0A]
  | .tooLarge key name => ascii "error: registry value too large: " ++ key ++ [0x5C] ++ name ++ [0x0A]

def regRoot (root : List UInt8) : Option Nat :=
  if strIeq root (ascii "HKEY_LOCAL_MACHINE") || strIeq root (ascii "HKLM") then some regRootHklm
  else if strIeq root (ascii "HKEY_CURRENT_USER") || strIeq root (ascii "HKCU") then some regRootHkcu
  else if strIeq root (ascii "HKEY_CLASSES_ROOT") || strIeq root (ascii "HKCR") then some regRootHkcr
  else none

/-- A string that ends in two backslashes loses one. -/
def collapse (val : List UInt8) : List UInt8 := if [0x5C, 0x5C] <:+ val then val.dropLast else val

def binaryByte (ulongBits : Nat) (f : InfField) : Option UInt8 :=
  match parseU32 ulongBits f.text with
  | none => none
  | some b => if 0xFF < b then none else some (UInt8.ofNat b)

/-- The type and the data of a value. -/
def regData (ulongBits : Nat) (f : InfFields) (key name : List UInt8) : Except RegLineError (Nat × List UInt8) :=
  let type := f.text 3
  if strIeq type (ascii "REG_SZ") || strIeq type (ascii "REG_EXPAND_SZ") then
    if f.s.length < 6 ∨ maxPathLen ≤ (f.text 5).length then .error (.sz key)
    else .ok (if strIeq type (ascii "REG_SZ") then regTypeSz else regTypeExpandSz, putUtf16z (collapse (f.text 5)))
  else if strIeq type (ascii "REG_DWORD") then
    match if f.s.length < 6 then none else parseU32 ulongBits (f.text 5) with
    | none => .error (.dword key name)
    | some v => .ok (regTypeDword, le 4 v)
  else if strIeq type (ascii "REG_BINARY") then
    match (f.s.drop 5).mapM (binaryByte ulongBits) with
    | none => .error (.binary key name)
    | some data => .ok (regTypeBinary, data)
  else if strIeq type (ascii "REG_MULTI_SZ") then
    .ok (regTypeMultiSz, (f.s.drop 5).flatMap (fun x => putUtf16z x.text) ++ le 2 0)
  else .error (.unsupportedType type key)

theorem regRoot_lt {s : List UInt8} {root : Nat} (h : regRoot s = some root) : root < 65536 := by
  unfold regRoot at h
  repeat' split at h
  all_goals cases h
  all_goals decide

theorem regData_type {ulongBits : Nat} {f : InfFields} {key name : List UInt8} {r : Nat × List UInt8}
    (h : regData ulongBits f key name = .ok r) : r.1 < 65536 := by
  unfold regData at h
  dsimp only at h
  repeat' split at h
  all_goals cases h
  all_goals simp [regTypeSz, regTypeExpandSz, regTypeBinary, regTypeDword, regTypeMultiSz]

/-- The add of a line that is within the limits. Memory is taken to suffice. -/
def regParseLine (ulongBits : Nat) (f : InfFields) : Except RegLineError RegAdd :=
  if f.s.length < 5 then .error (.short (if 1 < f.s.length then f.text 1 else f.text 0))
  else
    match hroot : regRoot (f.text 0) with
    | none => .error (.unsupportedRoot (f.text 0))
    | some root =>
      if hlen : maxPathLen ≤ (f.text 1).length ∨ 256 ≤ (f.text 2).length ∨ f.text 1 = [] then .error .keyOrName
      else
        let key : CStr maxPathLen := ⟨f.text 1, by omega, f.noNul_text 1⟩
        let name : CStr 256 := if f.text 2 = [] then ⟨ascii "Default", by decide, by decide⟩
          else ⟨f.text 2, by omega, f.noNul_text 2⟩
        match hdata : regData ulongBits f key.val name.val with
        | .error e => .error e
        | .ok (type, data) =>
          if hsize : 6 + utf16zLen name.val + data.length > 0xFFFF ∨ 6 + utf16zLen key.val > 0xFFFF then
            .error (.tooLarge key.val name.val)
          else
            .ok {
              root := root
              key := key
              name := name
              type := type
              data := data
              done := false
              root_lt := regRoot_lt hroot
              type_lt := regData_type hdata
              fits := by unfold utf16zLen at hsize; omega }

/-! ## The fields of a line -/

/-- A field as it stands in a line: blanks, what it says, blanks; or blanks, a quote, what it
    says and, unless the line ends first, another quote and what is skipped. -/
inductive Field where
  | plain (lead text trail : List UInt8)
  | quoted (lead text : List UInt8) (skipped : Option (List UInt8))
  deriving DecidableEq, Repr

def Field.text : Field → List UInt8
  | .plain _ text _ => text
  | .quoted _ text _ => text

def Field.raw : Field → List UInt8
  | .plain lead text trail => lead ++ (text ++ trail)
  | .quoted lead text none => lead ++ 0x22 :: text
  | .quoted lead text (some skipped) => lead ++ 0x22 :: (text ++ 0x22 :: skipped)

/-- Nothing but blanks is skipped. -/
def Field.Whole : Field → Prop
  | .plain _ _ _ => True
  | .quoted _ _ none => True
  | .quoted _ _ (some skipped) => ∀ c ∈ skipped, isBlank c = true

def Field.toInf : Field → InfField
  | .plain _ text _ => ⟨text, false⟩
  | .quoted _ text _ => ⟨text, true⟩

/-- A field, and the line from its comma on. -/
def fieldAt (p : List UInt8) : Field × List UInt8 :=
  let lead := p.takeWhile isBlank
  match p.dropWhile isBlank with
  | 0x22 :: p =>
    match p.dropWhile (· != 0x22) with
    | [] => (.quoted lead (p.takeWhile (· != 0x22)) none, [])
    | _ :: q => (.quoted lead (p.takeWhile (· != 0x22)) (some (q.takeWhile (· != 0x2C))), q.dropWhile (· != 0x2C))
  | p =>
    let body := p.takeWhile (· != 0x2C)
    (.plain lead (body.rdropWhile isBlank) (body.rtakeWhile isBlank), p.dropWhile (· != 0x2C))

def fieldsFrom : Nat → List UInt8 → List Field
  | 0, _ => []
  | n + 1, p =>
    match fieldAt p with
    | (f, []) => [f]
    | (f, _ :: p) => f :: fieldsFrom n p

/-- All the fields of a line. -/
def fieldsOf (line : List UInt8) : List Field := fieldsFrom (line.length + 1) line

/-- What was looked for is where a search ends. -/
theorem stopped_at {l q : List UInt8} {b x : UInt8} (h : l.dropWhile (· != b) = x :: q) : x = b := by
  have hhead := List.head?_dropWhile_not (fun c : UInt8 => c != b) l
  rw [h] at hhead
  simpa using hhead

theorem fieldAt_raw (p : List UInt8) : (fieldAt p).1.raw ++ (fieldAt p).2 = p := by
  have hlead := List.takeWhile_append_dropWhile (p := isBlank) (l := p)
  unfold fieldAt
  dsimp only
  split
  · rename_i q hq
    have hquote := List.takeWhile_append_dropWhile (p := fun c : UInt8 => c != 0x22) (l := q)
    split
    · rename_i hend
      rw [hend, List.append_nil] at hquote
      rw [Field.raw, List.append_nil, hquote, ← hq, hlead]
    · rename_i x r hr
      have hx : x = 0x22 := stopped_at hr
      subst hx
      have hcomma := List.takeWhile_append_dropWhile (p := fun c : UInt8 => c != 0x2C) (l := r)
      rw [hr] at hquote
      rw [Field.raw, List.append_assoc, List.cons_append, List.append_assoc, List.cons_append, hcomma, hquote, ← hq, hlead]
  · have hcomma := List.takeWhile_append_dropWhile (p := fun c : UInt8 => c != 0x2C) (l := p.dropWhile isBlank)
    have hbody := List.rdropWhile_append_rtakeWhile (p := isBlank) (l := (p.dropWhile isBlank).takeWhile (· != 0x2C))
    dsimp only
    rw [Field.raw, List.append_assoc, hbody, hcomma, hlead]

theorem fieldAt_rest {p q : List UInt8} {x : UInt8} (h : (fieldAt p).2 = x :: q) : x = 0x2C := by
  unfold fieldAt at h
  dsimp only at h
  split at h
  · split at h
    · cases h
    · exact stopped_at h
  · exact stopped_at h

/-- `inf_split` finds the same fields. -/
theorem infField_eq (p : List UInt8) : infField p = ((fieldAt p).1.toInf, (fieldAt p).2) := by
  unfold infField fieldAt
  dsimp only
  split
  · split
    · rename_i hend
      rw [hend]
      rfl
    · rename_i hr
      rw [hr]
      rfl
  · rfl

theorem fieldAt_shorter {p q : List UInt8} {x : UInt8} (h : (fieldAt p).2 = x :: q) : q.length < p.length := by
  have hraw := congrArg List.length (fieldAt_raw p)
  rw [h, List.length_append, List.length_cons] at hraw
  omega

/-- `inf_split` keeps the first fields of a line. -/
theorem splitLoop_eq (n m : Nat) {p : List UInt8} (h : p.length < m) :
    splitLoop n p = ((fieldsFrom m p).take n).map Field.toInf := by
  induction n generalizing m p with
  | zero => simp [splitLoop]
  | succ n ih =>
    obtain ⟨m, rfl⟩ : ∃ k, m = k + 1 := ⟨m - 1, by omega⟩
    have hshort := fun x q => fieldAt_shorter (p := p) (x := x) (q := q)
    unfold splitLoop fieldsFrom
    rw [infField_eq]
    generalize fieldAt p = r at hshort
    obtain ⟨f, rest⟩ := r
    cases rest with
    | nil => simp
    | cons x q =>
      have hq := hshort x q rfl
      simp only [List.take_succ_cons, List.map_cons]
      rw [ih m (by omega)]

theorem fieldsFrom_join (m : Nat) {p : List UInt8} (h : p.length < m) :
    [0x2C].intercalate ((fieldsFrom m p).map Field.raw) = p := by
  induction m generalizing p with
  | zero => omega
  | succ m ih =>
    have hraw := fieldAt_raw p
    have hcomma := fun x q => fieldAt_rest (p := p) (x := x) (q := q)
    have hshort := fun x q => fieldAt_shorter (p := p) (x := x) (q := q)
    unfold fieldsFrom
    generalize fieldAt p = r at hraw hcomma hshort
    obtain ⟨f, rest⟩ := r
    cases rest with
    | nil =>
      simp only [List.append_nil] at hraw
      simp [hraw]
    | cons x q =>
      have hx := hcomma x q rfl
      have hq := hshort x q rfl
      have hjoin := ih (p := q) (by omega)
      have hne : ∃ g gs, fieldsFrom m q = g :: gs := by
        obtain ⟨k, rfl⟩ : ∃ k, m = k + 1 := ⟨m - 1, by omega⟩
        unfold fieldsFrom
        split
        · exact ⟨_, _, rfl⟩
        · exact ⟨_, _, rfl⟩
      obtain ⟨g, gs, hgs⟩ := hne
      subst hx
      rw [hgs, List.map_cons] at hjoin
      show [0x2C].intercalate ((f :: fieldsFrom m q).map Field.raw) = p
      rw [hgs, List.map_cons, List.map_cons, List.intercalate_cons_cons, hjoin, List.append_assoc]
      exact hraw

/-- A line is its fields, with commas between them. -/
theorem fieldsOf_join (line : List UInt8) : [0x2C].intercalate ((fieldsOf line).map Field.raw) = line :=
  fieldsFrom_join (line.length + 1) (Nat.lt_succ_self _)

theorem infSplit_eq (line : CString) : (infSplit line).s = ((fieldsOf line.val).take infMaxFields).map Field.toInf :=
  splitLoop_eq infMaxFields (line.val.length + 1) (Nat.lt_succ_self _)

@[simp] theorem toInf_text (f : Field) : f.toInf.text = f.text := by cases f <;> rfl

/-- The fields before the last that is kept are read as they are. -/
theorem infSplit_text (line : CString) {i : Nat} (h : i < infMaxFields) :
    (infSplit line).text i = ((fieldsOf line.val)[i]?.map Field.text).getD [] := by
  unfold InfFields.text
  rw [infSplit_eq, List.getElem?_map, List.getElem?_take_of_lt h, Option.map_map]
  congr 2
  funext f
  exact toInf_text f

/-! ## A line of plain fields -/

/-- Neither a comma nor what a field does not keep. -/
def IsPlain (t : List UInt8) : Prop := ∀ c ∈ t, isBlank c = false ∧ c ≠ 0x2C ∧ c ≠ 0x22

instance (t : List UInt8) : Decidable (IsPlain t) := List.decidableBAll _ t

theorem infField_plain {t : List UInt8} (ht : IsPlain t) {r : List UInt8} (hr : r = [] ∨ ∃ q, r = 0x2C :: q) :
    infField (t ++ r) = (⟨t, false⟩, r) := by
  have hlead : (t ++ r).dropWhile isBlank = t ++ r := by
    cases t with
    | nil =>
      rcases hr with rfl | ⟨q, rfl⟩
      · rfl
      · rfl
    | cons c t => rw [List.cons_append, List.dropWhile_cons_of_neg (by simp [(ht c List.mem_cons_self).1])]
  have hnocomma : ∀ c ∈ t, (c != 0x2C) = true := fun c hc => bne_iff_ne.mpr (ht c hc).2.1
  have htake : (t ++ r).takeWhile (· != 0x2C) = t := by
    rw [List.takeWhile_append_of_pos hnocomma]
    rcases hr with rfl | ⟨q, rfl⟩ <;> simp
  have hdrop : (t ++ r).dropWhile (· != 0x2C) = r := by
    rw [List.dropWhile_append_of_pos hnocomma]
    rcases hr with rfl | ⟨q, rfl⟩ <;> simp
  have htrail : t.rdropWhile isBlank = t := by
    rw [List.rdropWhile_eq_self_iff]
    intro hne
    rw [(ht _ (List.getLast_mem hne)).1]
    exact Bool.false_ne_true
  unfold infField
  rw [hlead]
  split
  · rename_i q hq
    cases t with
    | nil =>
      rcases hr with rfl | ⟨q, rfl⟩ <;> cases hq
    | cons c t =>
      cases hq
      exact absurd rfl (ht 0x22 List.mem_cons_self).2.2
  · rw [htake, hdrop, htrail]

/-- A line of plain fields is split into them. -/
theorem splitLoop_plain {n : Nat} {t : List UInt8} {ts : List (List UInt8)} (hplain : ∀ u ∈ t :: ts, IsPlain u)
    (hn : ts.length < n) :
    splitLoop n ([0x2C].intercalate (t :: ts)) = (t :: ts).map (⟨·, false⟩) := by
  induction ts generalizing n t with
  | nil =>
    obtain ⟨n, rfl⟩ := Nat.exists_eq_add_of_lt hn
    have hfield := infField_plain (hplain t List.mem_cons_self) (.inl rfl)
    rw [List.append_nil] at hfield
    rw [show [0x2C].intercalate [t] = t by simp [List.intercalate], splitLoop, hfield]
    rfl
  | cons u ts ih =>
    cases n with
    | zero => exact absurd hn (Nat.not_lt_zero _)
    | succ n =>
      have hfield := infField_plain (hplain t List.mem_cons_self) (.inr ⟨[0x2C].intercalate (u :: ts), rfl⟩)
      have hjoin : [0x2C].intercalate (t :: u :: ts) = t ++ 0x2C :: [0x2C].intercalate (u :: ts) := by
        simp [List.intercalate]
      rw [hjoin, splitLoop, hfield]
      simp only
      rw [ih (fun v hv => hplain v (List.mem_cons_of_mem t hv)) (by simpa using hn)]
      rfl

theorem noNul_join {ts : List (List UInt8)} (h : ∀ u ∈ ts, 0 ∉ u) : 0 ∉ [(0x2C : UInt8)].intercalate ts := by
  induction ts with
  | nil => nofun
  | cons t ts ih =>
    have hrest := ih fun u hu => h u (List.mem_cons_of_mem t hu)
    have ht := h t List.mem_cons_self
    cases ts with
    | nil => simpa [List.intercalate] using ht
    | cons u ts =>
      have hjoin : [0x2C].intercalate (t :: u :: ts) = t ++ 0x2C :: [0x2C].intercalate (u :: ts) := by
        simp [List.intercalate]
      rw [hjoin]
      intro hmem
      rcases List.mem_append.mp hmem with hmem | hmem
      · exact ht hmem
      · rcases List.mem_cons.mp hmem with hmem | hmem
        · cases hmem
        · exact hrest hmem

/-! ## What a value is made of -/

/-- The number a string says, blanks around it. -/
def hexNumber (s : List UInt8) : Option Int :=
  match scanHex (s.dropWhile (· == 0x20)) with
  | none => none
  | some (neg, digits, rest) => if rest.dropWhile (· == 0x20) = [] then some (if neg then -hexNat digits else hexNat digits)
      else none

/-- An accepted line is not shortened, and its value is made of the whole of its fields: all from the sixth on, or the sixth. -/
structure Encodes (fs : List Field) (type : Nat) (data : List UInt8) : Prop where
  unshortened : fs.length ≤ infMaxFields
  binary : type = regTypeBinary →
    (∀ f ∈ fs.drop 5, f.Whole) ∧ List.Forall₂ (fun f (b : UInt8) => hexNumber f.text = some (b.toNat : Int)) (fs.drop 5) data
  multi : type = regTypeMultiSz →
    (∀ f ∈ fs.drop 5, f.Whole) ∧ data = (fs.drop 5).flatMap (fun f => putUtf16z f.text) ++ le 2 0
  string : type = regTypeSz ∨ type = regTypeExpandSz → ∃ f, fs[5]? = some f ∧ f.Whole ∧ data = putUtf16z (collapse f.text)
  dword : type = regTypeDword →
    ∃ f v, fs[5]? = some f ∧ f.Whole ∧ hexNumber f.text = some ((v : Nat) : Int) ∧ v < 2 ^ 32 ∧ data = le 4 v

/-- The number is not negative, and no larger than an `unsigned long`. -/
def Field.Fits (ulongBits : Nat) (f : Field) : Prop := ∀ z, hexNumber f.text = some z → 0 ≤ z ∧ z < 2 ^ ulongBits

/-- The type a line names. -/
def typeName (fs : List Field) : List UInt8 := (fs[3]?.map Field.text).getD []

/-- Nothing of the line is lost. -/
structure Kept (ulongBits : Nat) (fs : List Field) : Prop where
  short : fs.length ≤ infMaxFields
  binary : strIeq (typeName fs) (ascii "REG_BINARY") = true → ∀ f ∈ fs.drop 5, f.Whole ∧ f.Fits ulongBits
  multi : strIeq (typeName fs) (ascii "REG_MULTI_SZ") = true → ∀ f ∈ fs.drop 5, f.Whole
  string : strIeq (typeName fs) (ascii "REG_SZ") = true ∨ strIeq (typeName fs) (ascii "REG_EXPAND_SZ") = true →
    ∀ f, fs[5]? = some f → f.Whole
  dword : strIeq (typeName fs) (ascii "REG_DWORD") = true → ∀ f, fs[5]? = some f → f.Whole ∧ f.Fits ulongBits

section Numbers

variable {ulongBits v : Nat} {s : List UInt8}

/-- `parse_u32` reads a number as it stands exactly if it fits. -/
theorem parseU32_number (h : parseU32 ulongBits s = some v) :
    ∃ z, hexNumber s = some z ∧ v < 2 ^ 32 ∧ ((v : Int) = z ↔ 0 ≤ z ∧ z < 2 ^ ulongBits) := by
  unfold parseU32 at h
  unfold hexNumber
  dsimp only at h
  split at h
  · cases h
  rename_i hne
  have hstart : (s.dropWhile (· == 0x20)).dropWhile (· == 0x20) ≠ [] := by
    rw [List.dropWhile_idempotent]
    exact hne
  unfold strtoul at h
  generalize s.dropWhile (· == 0x20) = t at hstart h
  cases hscan : scanHex t with
  | none =>
    rw [hscan] at h
    simp only at h
    rw [if_pos (Or.inl hstart)] at h
    cases h
  | some r =>
    obtain ⟨neg, digits, rest⟩ := r
    rw [hscan] at h
    simp only at h ⊢
    generalize hexNat digits = m at h ⊢
    by_cases hrest : rest.dropWhile (· == 0x20) = []
    · rw [if_pos hrest]
      have hpos : 0 < 2 ^ ulongBits := Nat.two_pow_pos ulongBits
      have hcast : ((2 ^ ulongBits : Nat) : Int) = 2 ^ ulongBits := by simp
      generalize 2 ^ ulongBits = top at h hpos hcast
      generalize hv : (if top ≤ m then top - 1 else if neg = true then (top - m) % top else m) = value at h
      have hfit : ¬ (rest.dropWhile (· == 0x20) ≠ [] ∨ 0xFFFFFFFF < value) := by
        intro hout
        rw [if_pos hout] at h
        cases h
      rw [if_neg hfit] at h
      cases h
      refine ⟨_, rfl, by omega, ?_⟩
      rw [← hcast]
      by_cases hbig : top ≤ m
      · rw [if_pos hbig] at hv
        cases neg <;> simp only [Bool.false_eq_true, if_false, if_true] <;> omega
      · rw [if_neg hbig] at hv
        cases neg
        · simp only [Bool.false_eq_true, if_false] at hv ⊢
          omega
        · simp only [if_true] at hv ⊢
          by_cases hzero : m = 0
          · subst hzero
            rw [Nat.sub_zero, Nat.mod_self] at hv
            omega
          · rw [Nat.mod_eq_of_lt (by omega)] at hv
            omega
    · rw [if_pos (Or.inl hrest)] at h
      cases h

end Numbers

section Lines

variable {ulongBits : Nat} {f : InfFields} {a : RegAdd} {key name : List UInt8}

/-- What the encoders make of a line, type by type. -/
inductive Encoded (ulongBits : Nat) (f : InfFields) : Nat → List UInt8 → Prop where
  | string {type : Nat} (named : strIeq (f.text 3) (ascii "REG_SZ") = true ∨ strIeq (f.text 3) (ascii "REG_EXPAND_SZ") = true)
    (typed : type = regTypeSz ∨ type = regTypeExpandSz) (there : 6 ≤ f.s.length) :
    Encoded ulongBits f type (putUtf16z (collapse (f.text 5)))
  | dword {v : Nat} (named : strIeq (f.text 3) (ascii "REG_DWORD") = true) (there : 6 ≤ f.s.length)
    (read : parseU32 ulongBits (f.text 5) = some v) : Encoded ulongBits f regTypeDword (le 4 v)
  | binary {data : List UInt8} (named : strIeq (f.text 3) (ascii "REG_BINARY") = true)
    (read : (f.s.drop 5).mapM (binaryByte ulongBits) = some data) : Encoded ulongBits f regTypeBinary data
  | multi (named : strIeq (f.text 3) (ascii "REG_MULTI_SZ") = true) :
    Encoded ulongBits f regTypeMultiSz ((f.s.drop 5).flatMap (fun x => putUtf16z x.text) ++ le 2 0)

theorem regData_encoded {type : Nat} {data : List UInt8} (h : regData ulongBits f key name = .ok (type, data)) :
    Encoded ulongBits f type data := by
  unfold regData at h
  dsimp only at h
  split at h
  · rename_i hnamed
    rw [Bool.or_eq_true] at hnamed
    split at h
    · cases h
    rename_i hthere
    rw [not_or] at hthere
    cases h
    refine .string hnamed ?_ (by omega)
    split
    · exact Or.inl rfl
    · exact Or.inr rfl
  split at h
  · rename_i hnamed
    split at h
    · cases h
    rename_i v hread
    cases h
    by_cases hshort : f.s.length < 6
    · rw [if_pos hshort] at hread
      cases hread
    · rw [if_neg hshort] at hread
      exact .dword hnamed (Nat.le_of_not_lt hshort) hread
  split at h
  · rename_i hnamed
    split at h
    · cases h
    rename_i data hread
    cases h
    exact .binary hnamed hread
  split at h
  · rename_i hnamed
    cases h
    exact .multi hnamed
  · cases h

theorem regParseLine_encoded (h : regParseLine ulongBits f = .ok a) : Encoded ulongBits f a.type a.data := by
  unfold regParseLine at h
  split at h
  · cases h
  split at h
  · cases h
  split at h
  · cases h
  dsimp only at h
  split at h
  · cases h
  rename_i type data hdata
  have hencoded := regData_encoded hdata
  repeat' split at h
  all_goals cases h
  all_goals exact hencoded

theorem strIeq_join {s t u : List UInt8} (h : strIeq s t = true) (h' : strIeq s u = true) : strIeq t u = true := by
  rw [strIeq_iff] at *
  rw [← h, h']

theorem binaryByte_number {x : InfField} {b : UInt8} (h : binaryByte ulongBits x = some b) :
    ∃ z, hexNumber x.text = some z ∧ ((b.toNat : Int) = z ↔ 0 ≤ z ∧ z < 2 ^ ulongBits) := by
  unfold binaryByte at h
  split at h
  · cases h
  rename_i v hv
  split at h
  · cases h
  rename_i hbyte
  obtain ⟨z, hz, -, hiff⟩ := parseU32_number hv
  cases h
  have hnat : (UInt8.ofNat v).toNat = v := by
    rw [UInt8.toNat_ofNat']
    exact Nat.mod_eq_of_lt (by omega)
  rw [hnat]
  exact ⟨z, hz, hiff⟩

/-- The bytes are the fields' numbers exactly where these fit. -/
theorem binary_numbers {fs : List Field} {data : List UInt8} (h : (fs.map Field.toInf).mapM (binaryByte ulongBits) = some data) :
    List.Forall₂ (fun f (b : UInt8) => hexNumber f.text = some (b.toNat : Int)) fs data ↔ ∀ f ∈ fs, f.Fits ulongBits := by
  induction fs generalizing data with
  | nil =>
    simp only [List.map_nil, List.mapM_nil] at h
    cases h
    simp
  | cons f fs ih =>
    rw [List.map_cons, List.mapM_cons] at h
    obtain ⟨b, hb, hrest⟩ := Option.bind_eq_some_iff.mp h
    obtain ⟨rest, hmap, hdata⟩ := Option.bind_eq_some_iff.mp hrest
    cases hdata
    obtain ⟨z, hz, hiff⟩ := binaryByte_number hb
    rw [toInf_text] at hz
    have hhead : hexNumber f.text = some (b.toNat : Int) ↔ f.Fits ulongBits := by
      unfold Field.Fits
      rw [hz]
      constructor
      · intro heq y hy
        cases hy
        exact hiff.mp (Option.some.inj heq).symm
      · intro hfits
        rw [hiff.mpr (hfits z rfl)]
    rw [List.forall₂_cons, ih hmap, hhead]
    simp

/-- What is encoded is the whole of the line exactly if the splitter keeps all its fields, nothing
    in those the type takes is skipped, and their numbers fit. -/
theorem encoded_whole_iff (line : CString) {type : Nat} {data : List UInt8}
    (hencoded : Encoded ulongBits (infSplit line) type data) :
    Encodes (fieldsOf line.val) type data ↔ Kept ulongBits (fieldsOf line.val) := by
  have htype : (infSplit line).text 3 = typeName (fieldsOf line.val) := infSplit_text line (by decide)
  have hfive : (infSplit line).text 5 = ((fieldsOf line.val)[5]?.map Field.text).getD [] := infSplit_text line (by decide)
  have hs := infSplit_eq line
  generalize infSplit line = inf at *
  generalize fieldsOf line.val = fs at *
  have hsixth : 6 ≤ inf.s.length → ∃ x, fs[5]? = some x ∧ inf.text 5 = x.text := by
    intro hlen
    rw [hs, List.length_map, List.length_take] at hlen
    cases hx : fs[5]? with
    | none =>
      have hshort := List.getElem?_eq_none_iff.mp hx
      omega
    | some x =>
      rw [hx] at hfive
      exact ⟨x, rfl, hfive⟩
  -- the types' names are different, so a line is of one type only
  have hother : ∀ s t, strIeq (typeName fs) (ascii s) = true → strIeq (ascii s) (ascii t) = false →
      strIeq (typeName fs) (ascii t) = true → False := by
    intro s t hs hne ht
    rw [strIeq_join hs ht] at hne
    cases hne
  cases hencoded with
  | string named typed there =>
    obtain ⟨x, hx, htext⟩ := hsixth there
    rw [htype] at named
    have hnot : ∀ t, strIeq (ascii "REG_SZ") (ascii t) = false → strIeq (ascii "REG_EXPAND_SZ") (ascii t) = false →
        strIeq (typeName fs) (ascii t) = true → False := by
      intro t h1 h2 ht
      rcases named with hn | hn
      · exact hother _ t hn h1 ht
      · exact hother _ t hn h2 ht
    constructor
    · intro he
      obtain ⟨y, hy, hwhole, -⟩ := he.string typed
      refine ⟨he.unshortened, fun h => (hnot _ (by decide) (by decide) h).elim, fun h => (hnot _ (by decide) (by decide) h).elim,
        ?_,
        fun h => (hnot _ (by decide) (by decide) h).elim⟩
      intro _ z hz
      rw [hy] at hz
      cases hz
      exact hwhole
    · intro hk
      refine ⟨hk.short, ?_, ?_, fun _ => ⟨x, hx, hk.string named x hx, by rw [htext]⟩, ?_⟩
      · intro h
        rcases typed with rfl | rfl <;> cases h
      · intro h
        rcases typed with rfl | rfl <;> cases h
      · intro h
        rcases typed with rfl | rfl <;> cases h
  | @dword v named there read =>
    obtain ⟨x, hx, htext⟩ := hsixth there
    obtain ⟨z, hz, hlt, hiff⟩ := parseU32_number read
    rw [htype] at named
    rw [htext] at hz
    constructor
    · intro he
      obtain ⟨y, w, hy, hwhole, hnumber, hw, hdata⟩ := he.dword rfl
      rw [hx] at hy
      cases hy
      have hvw : v = w := by
        have hv := Lib.rd_le_of_lt (w := 4) (n := v) hlt []
        have hw' := Lib.rd_le_of_lt (w := 4) (n := w) hw []
        rw [hdata] at hv
        omega
      subst hvw
      have hfits : x.Fits ulongBits := by
        intro u hu
        rw [hz] at hnumber hu
        cases hu
        exact hiff.mp (Option.some.inj hnumber).symm
      refine ⟨he.unshortened, fun h => (hother _ _ named (by decide) h).elim, fun h => (hother _ _ named (by decide) h).elim, ?_,
        ?_⟩
      · intro h
        rcases h with h | h
        · exact (hother _ _ named (by decide) h).elim
        · exact (hother _ _ named (by decide) h).elim
      · intro _ u hu
        rw [hx] at hu
        cases hu
        exact ⟨hwhole, hfits⟩
    · intro hk
      obtain ⟨hwhole, hfits⟩ := hk.dword named x hx
      refine ⟨hk.short, fun h => (by cases h), fun h => (by cases h), fun h => ?_, fun _ => ⟨x, v, hx, hwhole, ?_, hlt, rfl⟩⟩
      · rcases h with h | h <;> cases h
      · rw [hz, hiff.mpr (hfits z hz)]
  | binary named read =>
    rw [htype] at named
    constructor
    · intro he
      obtain ⟨hwhole, hnumbers⟩ := he.binary rfl
      have hshort := he.unshortened
      rw [hs, List.take_of_length_le hshort, ← List.map_drop] at read
      have hfits := (binary_numbers read).mp hnumbers
      refine ⟨hshort, fun _ f hf => ⟨hwhole f hf, hfits f hf⟩, fun h => (hother _ _ named (by decide) h).elim, ?_,
        fun h => (hother _ _ named (by decide) h).elim⟩
      intro h
      rcases h with h | h
      · exact (hother _ _ named (by decide) h).elim
      · exact (hother _ _ named (by decide) h).elim
    · intro hk
      have hshort := hk.short
      have hall := hk.binary named
      rw [hs, List.take_of_length_le hshort, ← List.map_drop] at read
      refine ⟨hshort, fun _ => ⟨fun f hf => (hall f hf).1, (binary_numbers read).mpr fun f hf => (hall f hf).2⟩,
        fun h => (by cases h), ?_,
        fun h => (by cases h)⟩
      intro h
      rcases h with h | h <;> cases h
  | multi named =>
    rw [htype] at named
    have hflat : (inf.s.drop 5).flatMap (fun x => putUtf16z x.text) =
        ((fs.take infMaxFields).drop 5).flatMap fun f => putUtf16z f.text := by
      rw [hs, ← List.map_drop, List.flatMap_map]
      simp only [toInf_text]
    rw [hflat]
    constructor
    · intro he
      obtain ⟨hwhole, -⟩ := he.multi rfl
      refine ⟨he.unshortened, fun h => (hother _ _ named (by decide) h).elim, fun _ => hwhole, ?_,
        fun h => (hother _ _ named (by decide) h).elim⟩
      intro h
      rcases h with h | h
      · exact (hother _ _ named (by decide) h).elim
      · exact (hother _ _ named (by decide) h).elim
    · intro hk
      have hwhole := hk.multi named
      rw [List.take_of_length_le hk.short]
      refine ⟨hk.short, fun h => (by cases h), fun _ => ⟨hwhole, rfl⟩, ?_, fun h => (by cases h)⟩
      intro h
      rcases h with h | h <;> cases h

/-- A line is its fields with commas between them; one that is accepted is not shortened, and loses nothing of its value, exactly
    if it is `Kept`. -/
theorem encodes_iff (line : CString) (h : regParseLine ulongBits (infSplit line) = .ok a) :
    [0x2C].intercalate ((fieldsOf line.val).map Field.raw) = line.val ∧
      (Encodes (fieldsOf line.val) a.type a.data ↔ Kept ulongBits (fieldsOf line.val)) :=
  ⟨fieldsOf_join line.val, encoded_whole_iff line (regParseLine_encoded h)⟩

end Lines

/-- Whether a line is accepted. -/
def accepted (line : CString) : Bool :=
  match regParseLine 64 (infSplit line) with
  | .ok _ => true
  | .error _ => false

theorem exists_of_accepted {line : CString} (h : accepted line = true) : ∃ a, regParseLine 64 (infSplit line) = .ok a := by
  unfold accepted at h
  split at h
  · rename_i a ha
    exact ⟨a, ha⟩
  · cases h

/-- `HKLM,K,N,REG_BINARY,,` and sixty zeros: 65 fields. -/
def longLine : CString := ⟨ascii "HKLM,K,N,REG_BINARY,," ++ (List.replicate 59 [0x30, 0x2C]).flatten ++ [0x30], by decide⟩

set_option maxRecDepth 100000 in
theorem longLine_accepted : accepted longLine = true := by decide

set_option maxRecDepth 100000 in
theorem longLine_fields : (fieldsOf longLine.val).length = 65 := by decide

/-- It is accepted, but only 64 of them are read. -/
theorem long_line_shortened :
    ¬ ∀ a, regParseLine 64 (infSplit longLine) = .ok a → Encodes (fieldsOf longLine.val) a.type a.data := by
  intro hall
  obtain ⟨a, ha⟩ := exists_of_accepted longLine_accepted
  have hshort := (hall a ha).unshortened
  rw [longLine_fields] at hshort
  exact absurd hshort (by decide)

/-- `HKLM,K,N,REG_MULTI_SZ,,A,"B"` -/
def multiLine : CString := ⟨ascii "HKLM,K,N,REG_MULTI_SZ,,A,\"B\"", by decide⟩

theorem multi_line_whole :
    ∃ a, regParseLine 64 (infSplit multiLine) = .ok a ∧ Encodes (fieldsOf multiLine.val) a.type a.data := by
  have hcomputed : accepted multiLine = true ∧ typeName (fieldsOf multiLine.val) = ascii "REG_MULTI_SZ" ∧
      fieldsOf multiLine.val = [.plain [] (ascii "HKLM") [], .plain [] (ascii "K") [], .plain [] (ascii "N") [],
        .plain [] (ascii "REG_MULTI_SZ") [], .plain [] [] [], .plain [] (ascii "A") [], .quoted [] (ascii "B") (some [])] := by
    decide
  obtain ⟨a, ha⟩ := exists_of_accepted hcomputed.1
  obtain ⟨-, htype, hfields⟩ := hcomputed
  have hkept : Kept 64 (fieldsOf multiLine.val) := by
    constructor
    · rw [hfields]
      decide
    · intro h
      rw [htype] at h
      exact absurd h (by decide)
    · intro _
      rw [hfields]
      intro f hf
      simp only [List.drop_succ_cons, List.drop_zero, List.mem_cons, List.not_mem_nil, or_false] at hf
      rcases hf with rfl | rfl
      · exact trivial
      · intro c hc
        cases hc
    · intro h
      rw [htype] at h
      exact absurd h (by decide)
    · intro h
      rw [htype] at h
      exact absurd h (by decide)
  exact ⟨a, ha, (encodes_iff multiLine ha).2.mpr hkept⟩

end Be300.Cbea
