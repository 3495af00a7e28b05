/-
  Be300.Cbea.Snapshot — what a registry snapshot means, and what a merge is for.

  A `Snapshot` is its keys, each with its values; no two keys of a root and no two values
  of a key have the same name, ASCII case aside. `encode` is its file. `lookup` finds a
  value by its root, key and name in any case. A list of adds is read as a sequence of
  assignments (`lastAdd`). `merge` is the abstract merge: every key keeps its record, loses
  the values an add names and gains the winning adds; a key no snapshot has is new.

  Proved: the merge is a snapshot again (the proofs are its fields), its lookups are the
  last add's or else the old ones (`merge_lookup`), it keeps every key and every value no add
  names (`merge_keeps`), and a second merge of the same adds changes nothing (`merge_twice`).
-/

import Be300.Cbea.Registry
import Mathlib.Algebra.BigOperators.Group.List.Basic

namespace Be300.Cbea

open Be300.Lib (le)

/-! ## Snapshots -/

/-- A name has no NUL and 16-bit units. -/
def IsName (u : List Nat) : Prop := ∀ c ∈ u, 0 < c ∧ c < 65536

/-- UTF-16 with its NUL. -/
def utf16z (u : List Nat) : List UInt8 := (u.flatMap fun c => le 2 c) ++ le 2 0

structure RegValue where
  name : List Nat
  type : Nat
  data : List UInt8
  isName : IsName name
  type_lt : type < 65536
  fits : 6 + (name.length + 1) * 2 + data.length ≤ 65535

/-- The bytes of a class name; a key may have none. -/
def classBytes : Option (List Nat) → List UInt8
  | none => []
  | some u => utf16z u

def classChars : Option (List Nat) → Nat
  | none => 0
  | some u => u.length + 1

/-- A value of a key, or a key of a root, goes by this. -/
def RegValue.id (v : RegValue) : List Nat := fold v.name

structure RegKey where
  root : Nat
  path : List Nat
  cls : Option (List Nat)
  values : List RegValue
  isName : IsName path
  root_lt : root < 65536
  fits : 6 + (path.length + 1 + classChars cls) * 2 ≤ 65535
  unique : values.Pairwise fun v w => v.id ≠ w.id

def RegKey.id (k : RegKey) : Nat × List Nat := (k.root, fold k.path)

structure Snapshot where
  keys : List RegKey
  unique : keys.Pairwise fun k l => k.id ≠ l.id

def Snapshot.empty : Snapshot := ⟨[], .nil⟩

def RegValue.record (v : RegValue) : List UInt8 :=
  le 2 (6 + (v.name.length + 1) * 2 + v.data.length) ++ (le 2 2 ++ (le 2 v.type ++ (le 2 (v.name.length + 1) ++
    (le 2 v.data.length ++ (utf16z v.name ++ v.data)))))

/-- The key record alone. -/
def RegKey.record (k : RegKey) : List UInt8 :=
  le 2 (6 + (k.path.length + 1 + classChars k.cls) * 2) ++ (le 2 1 ++ (le 2 k.root ++ (le 2 (k.path.length + 1) ++
    (le 2 (classChars k.cls) ++ (utf16z k.path ++ classBytes k.cls)))))

def RegKey.records (k : RegKey) : List UInt8 := k.record ++ k.values.flatMap RegValue.record

def Snapshot.body (s : Snapshot) : List UInt8 := s.keys.flatMap RegKey.records

def Snapshot.encode (s : Snapshot) : List UInt8 := regMagic ++ (le 4 (8 + s.body.length) ++ s.body)

/-- `b` is the file of the snapshot. The size field holds 32 bits. -/
def WellFormed (b : List UInt8) (s : Snapshot) : Prop := b = s.encode ∧ b.length < 2 ^ 32

def RegKey.lookup (k : RegKey) (name : List Nat) : Option (Nat × List UInt8) :=
  (k.values.find? fun v => v.id == fold name).map fun v => (v.type, v.data)

def Snapshot.lookup (s : Snapshot) (root : Nat) (key name : List Nat) : Option (Nat × List UInt8) :=
  (s.keys.find? fun k => k.id == (root, fold key)).bind fun k => k.lookup name

/-! ## Adds as assignments -/

/-- The key and the value an add names. -/
def RegAdd.keyId (a : RegAdd) : Nat × List Nat := (a.root, fold (units a.key.val))

def RegAdd.nameId (a : RegAdd) : List Nat := fold (units a.name.val)

/-- The last add that names the value. -/
def lastAdd (adds : List RegAdd) (root : Nat) (key name : List Nat) : Option (Nat × List UInt8) :=
  ((adds.filter fun a => a.keyId == (root, fold key) && a.nameId == fold name).getLast?).map fun a => (a.type, a.data)

theorem isName_units {n : Nat} (s : CStr n) : IsName (units s.val) := by
  intro c hc
  obtain ⟨b, hb, rfl⟩ := List.mem_map.mp hc
  have hne : b ≠ 0 := fun h => s.noNul (h ▸ hb)
  have hlt := b.toNat_lt
  have : b.toNat ≠ 0 := fun h => hne (UInt8.toNat_inj.mp h)
  omega

def RegAdd.toValue (a : RegAdd) : RegValue where
  name := units a.name.val
  type := a.type
  data := a.data
  isName := isName_units a.name
  type_lt := a.type_lt
  fits := by simpa using a.fits

/-! ## The abstract merge -/

/-- The adds of a key that no later add supersedes. -/
def wins (id : Nat × List Nat) : List RegAdd → List RegAdd
  | [] => []
  | a :: adds =>
    if a.keyId = id ∧ ¬ ∃ b ∈ adds, b.keyId = a.keyId ∧ b.nameId = a.nameId then a :: wins id adds else wins id adds

/-- An add names the value. -/
def overridden (adds : List RegAdd) (id : Nat × List Nat) (v : RegValue) : Bool :=
  adds.any fun a => a.keyId == id && a.nameId == v.id

def mergedValues (adds : List RegAdd) (id : Nat × List Nat) (values : List RegValue) : List RegValue :=
  (values.filter fun v => !overridden adds id v) ++ (wins id adds).map RegAdd.toValue

theorem wins_sublist (id : Nat × List Nat) (adds : List RegAdd) : (wins id adds).Sublist adds := by
  induction adds with
  | nil => exact .slnil
  | cons a adds ih =>
    unfold wins
    split
    · exact ih.cons_cons a
    · exact ih.cons a

theorem mem_wins {id : Nat × List Nat} {adds : List RegAdd} {a : RegAdd} (h : a ∈ wins id adds) : a ∈ adds ∧ a.keyId = id := by
  refine ⟨(wins_sublist id adds).subset h, ?_⟩
  induction adds with
  | nil => cases h
  | cons b adds ih =>
    unfold wins at h
    split at h
    · rcases List.mem_cons.mp h with rfl | h
      · rename_i hb
        exact hb.1
      · exact ih h
    · exact ih h

theorem wins_unique (id : Nat × List Nat) (adds : List RegAdd) : (wins id adds).Pairwise fun a b => a.nameId ≠ b.nameId := by
  induction adds with
  | nil => exact .nil
  | cons a adds ih =>
    unfold wins
    split
    · rename_i h
      refine List.pairwise_cons.mpr ⟨fun b hb heq => ?_, ih⟩
      obtain ⟨hmem, hkey⟩ := mem_wins hb
      exact h.2 ⟨b, hmem, hkey.trans h.1.symm, heq.symm⟩
    · exact ih

theorem mergedValues_unique (adds : List RegAdd) (id : Nat × List Nat) {values : List RegValue}
    (h : values.Pairwise fun v w => v.id ≠ w.id) : (mergedValues adds id values).Pairwise fun v w => v.id ≠ w.id := by
  refine List.pairwise_append.mpr ⟨h.filter _, ?_, fun v hv w hw heq => ?_⟩
  · exact List.pairwise_map.mpr (wins_unique id adds)
  · obtain ⟨a, ha, rfl⟩ := List.mem_map.mp hw
    obtain ⟨hmem, hkey⟩ := mem_wins ha
    have hno := (List.mem_filter.mp hv).2
    simp only [overridden, Bool.not_eq_true', List.any_eq_false, Bool.and_eq_true, beq_iff_eq, not_and] at hno
    exact hno a hmem hkey heq.symm

def mergeKey (adds : List RegAdd) (k : RegKey) : RegKey :=
  { k with values := mergedValues adds k.id k.values, unique := mergedValues_unique adds k.id k.unique }

theorem maxPath_fits {n : Nat} (h : n < maxPathLen) : 6 + (n + 1 + classChars none) * 2 ≤ 65535 := by
  simp only [maxPathLen, classChars] at h ⊢
  omega

/-- The key an add makes where there was none. -/
def newKey (adds : List RegAdd) (a : RegAdd) : RegKey where
  root := a.root
  path := units a.key.val
  cls := none
  values := mergedValues adds a.keyId []
  isName := isName_units a.key
  root_lt := a.root_lt
  fits := by simpa using maxPath_fits a.key.fits
  unique := mergedValues_unique adds a.keyId .nil

instance lawfulKeyId : LawfulBEq (Nat × List Nat) := inferInstance

/-- The first add of every key not in `seen`. -/
def firsts : List (Nat × List Nat) → List RegAdd → List RegAdd
  | _, [] => []
  | seen, a :: adds => if a.keyId ∈ seen then firsts seen adds else a :: firsts (a.keyId :: seen) adds

theorem mem_firsts {seen : List (Nat × List Nat)} {adds : List RegAdd} {a : RegAdd} (h : a ∈ firsts seen adds) :
    a ∈ adds ∧ a.keyId ∉ seen := by
  induction adds generalizing seen with
  | nil => cases h
  | cons b adds ih =>
    unfold firsts at h
    split at h
    · exact ⟨List.mem_cons_of_mem _ (ih h).1, (ih h).2⟩
    · rcases List.mem_cons.mp h with rfl | h
      · exact ⟨List.mem_cons_self, ‹_›⟩
      · exact ⟨List.mem_cons_of_mem _ (ih h).1, fun hs => (ih h).2 (List.mem_cons_of_mem _ hs)⟩

theorem firsts_unique (seen : List (Nat × List Nat)) (adds : List RegAdd) :
    (firsts seen adds).Pairwise fun a b => a.keyId ≠ b.keyId := by
  induction adds generalizing seen with
  | nil => exact .nil
  | cons b adds ih =>
    unfold firsts
    split
    · exact ih seen
    · refine List.pairwise_cons.mpr ⟨fun c hc heq => ?_, ih _⟩
      exact (mem_firsts hc).2 (heq ▸ List.mem_cons_self)

def newKeys (s : Snapshot) (adds : List RegAdd) : List RegKey := (firsts (s.keys.map RegKey.id) adds).map (newKey adds)

def Snapshot.merge (s : Snapshot) (adds : List RegAdd) : Snapshot where
  keys := s.keys.map (mergeKey adds) ++ newKeys s adds
  unique := by
    refine List.pairwise_append.mpr ⟨List.pairwise_map.mpr s.unique, ?_, fun k hk l hl heq => ?_⟩
    · exact List.pairwise_map.mpr (firsts_unique _ adds)
    · obtain ⟨k0, hk0, rfl⟩ := List.mem_map.mp hk
      obtain ⟨a, ha, rfl⟩ := List.mem_map.mp hl
      exact (mem_firsts ha).2 (List.mem_map.mpr ⟨k0, hk0, heq⟩)

/-! ## Lookups in the merge -/

section Lookup

variable {adds : List RegAdd} {id : Nat × List Nat} {n : List Nat}

theorem wins_find (id : Nat × List Nat) (n : List Nat) (adds : List RegAdd) :
    (wins id adds).find? (fun a => a.nameId == n) = (adds.filter fun a => a.keyId == id && a.nameId == n).getLast? := by
  induction adds with
  | nil => rfl
  | cons a adds ih =>
    by_cases hname : a.keyId = id ∧ a.nameId = n
    · have hfilter : (a :: adds).filter (fun a => a.keyId == id && a.nameId == n) =
          a :: adds.filter fun a => a.keyId == id && a.nameId == n := List.filter_cons_of_pos (by simp [hname])
      rw [hfilter, List.getLast?_cons, wins]
      split
      · rename_i h
        have hnone : adds.filter (fun a => a.keyId == id && a.nameId == n) = [] := by
          refine List.filter_eq_nil_iff.mpr fun b hb hbn => h.2 ⟨b, hb, ?_⟩
          simpa [hname.1, hname.2] using hbn
        simp [hnone, hname.2]
      · rename_i h
        have hlater : ∃ b ∈ adds, b.keyId = a.keyId ∧ b.nameId = a.nameId := by
          by_contra hno
          exact h ⟨hname.1, hno⟩
        obtain ⟨b, hb, hbk, hbn⟩ := hlater
        have hmem : b ∈ adds.filter fun a => a.keyId == id && a.nameId == n :=
          List.mem_filter.mpr ⟨hb, by simp [hbk, hbn, hname]⟩
        rw [ih]
        cases hl : (adds.filter fun a => a.keyId == id && a.nameId == n).getLast? with
        | none =>
          rw [List.getLast?_eq_none_iff] at hl
          rw [hl] at hmem
          cases hmem
        | some c => rfl
    · have hfilter : (a :: adds).filter (fun a => a.keyId == id && a.nameId == n) =
          adds.filter fun a => a.keyId == id && a.nameId == n := List.filter_cons_of_neg (by simpa using hname)
      rw [hfilter, ← ih, wins]
      split
      · rename_i h
        have : a.nameId ≠ n := fun hn => hname ⟨h.1, hn⟩
        simp [this]
      · rfl

/-- The lookup among merged values: the last add's, or else the old one. -/
theorem mergedValues_find (adds : List RegAdd) (id : Nat × List Nat) (n : List Nat) (values : List RegValue) :
    ((mergedValues adds id values).find? fun v => v.id == n).map (fun v => (v.type, v.data)) =
      (((adds.filter fun a => a.keyId == id && a.nameId == n).getLast?).map fun a => (a.type, a.data)).or
        ((values.find? fun v => v.id == n).map fun v => (v.type, v.data)) := by
  rw [mergedValues, List.find?_append, List.find?_map]
  have hcomp : ((fun v : RegValue => v.id == n) ∘ RegAdd.toValue) = fun a => a.nameId == n := rfl
  rw [hcomp, wins_find]
  by_cases hnamed : ∃ a ∈ adds, a.keyId = id ∧ a.nameId = n
  · obtain ⟨a, ha, hk, hn⟩ := hnamed
    have hgone : (values.filter fun v => !overridden adds id v).find? (fun v => v.id == n) = none := by
      refine List.find?_eq_none.mpr fun v hv heq => ?_
      have hno := (List.mem_filter.mp hv).2
      simp only [overridden, Bool.not_eq_true', List.any_eq_false, Bool.and_eq_true, beq_iff_eq, not_and] at hno heq
      exact hno a ha hk (hn.trans heq.symm)
    have hmem : a ∈ adds.filter fun a => a.keyId == id && a.nameId == n := List.mem_filter.mpr ⟨ha, by simp [hk, hn]⟩
    rw [hgone]
    cases hl : (adds.filter fun a => a.keyId == id && a.nameId == n).getLast? with
    | none =>
      rw [List.getLast?_eq_none_iff] at hl
      rw [hl] at hmem
      cases hmem
    | some c => rfl
  · have hnone : adds.filter (fun a => a.keyId == id && a.nameId == n) = [] :=
      List.filter_eq_nil_iff.mpr fun a ha h => hnamed ⟨a, ha, by simpa using h⟩
    have hkeep : (values.filter fun v => !overridden adds id v).find? (fun v => v.id == n) =
        values.find? fun v => v.id == n := by
      rw [List.find?_filter]
      refine congrArg (fun p => List.find? p values) (funext fun v => ?_)
      by_cases hv : v.id = n
      · have : overridden adds id v = false := by
          simp only [overridden, List.any_eq_false, Bool.and_eq_true, beq_iff_eq, hv]
          exact fun a ha h => hnamed ⟨a, ha, h⟩
        simp [this, hv]
      · simp [hv]
    rw [hnone, hkeep]
    simp

theorem find_firsts (seen : List (Nat × List Nat)) (adds : List RegAdd) (id : Nat × List Nat) (h : id ∉ seen) :
    (firsts seen adds).find? (fun a => a.keyId == id) = adds.find? fun a => a.keyId == id := by
  induction adds generalizing seen with
  | nil => rfl
  | cons a adds ih =>
    unfold firsts
    by_cases ha : a.keyId = id
    · rw [if_neg (ha ▸ h)]
      simp [ha]
    · split
      · rw [ih seen h]
        simp [ha]
      · rw [List.find?_cons_of_neg (by simpa using ha), List.find?_cons_of_neg (by simpa using ha)]
        exact ih _ fun hm => by
          rcases List.mem_cons.mp hm with rfl | hm
          · exact ha rfl
          · exact h hm

/-- Every lookup in the merge is the last add's, or where no add names the value, the old
    snapshot's. -/
theorem merge_lookup (s : Snapshot) (adds : List RegAdd) (root : Nat) (key name : List Nat) :
    (s.merge adds).lookup root key name = (lastAdd adds root key name).or (s.lookup root key name) := by
  simp only [Snapshot.lookup, Snapshot.merge, lastAdd]
  set id : Nat × List Nat := (root, fold key) with hid
  rw [List.find?_append, List.find?_map]
  have hcomp : ((fun k : RegKey => k.id == id) ∘ mergeKey adds) = fun k => k.id == id := rfl
  rw [hcomp]
  cases hk : s.keys.find? (fun k => k.id == id) with
  | some k =>
    have hkid : k.id = id := by simpa using List.find?_some hk
    simp only [Option.map_some, Option.some_or, Option.bind_some, RegKey.lookup, mergeKey, hkid]
    exact mergedValues_find adds id (fold name) k.values
  | none =>
    have hnew : id ∉ s.keys.map RegKey.id := by
      intro hm
      obtain ⟨k, hk1, hk2⟩ := List.mem_map.mp hm
      have := List.find?_eq_none.mp hk k hk1
      simp [hk2] at this
    simp only [Option.map_none, Option.none_or, Option.bind_none, Option.or_none, newKeys]
    rw [List.find?_map]
    have hcomp : ((fun k : RegKey => k.id == id) ∘ newKey adds) = fun a => a.keyId == id := rfl
    rw [hcomp, find_firsts _ adds id hnew]
    cases ha : adds.find? (fun a => a.keyId == id) with
    | none =>
      have : adds.filter (fun a => a.keyId == id && a.nameId == fold name) = [] := by
        refine List.filter_eq_nil_iff.mpr fun a hmem h => ?_
        have := List.find?_eq_none.mp ha a hmem
        simp only [Bool.and_eq_true] at h
        exact this h.1
      simp [this]
    | some a =>
      have haid : a.keyId = id := by simpa using List.find?_some ha
      simp only [Option.map_some, Option.bind_some, RegKey.lookup, newKey, haid]
      have := mergedValues_find adds id (fold name) []
      simpa using this

/-- No key, class name or value gets lost: a key keeps its record, and every value no add
    names is still the key's. -/
theorem merge_keeps (s : Snapshot) (adds : List RegAdd) {k : RegKey} (hk : k ∈ s.keys) :
    ∃ k' ∈ (s.merge adds).keys, k'.root = k.root ∧ k'.path = k.path ∧ k'.cls = k.cls ∧
      ∀ v ∈ k.values, overridden adds k.id v = false → v ∈ k'.values := by
  refine ⟨mergeKey adds k, List.mem_append_left _ (List.mem_map.mpr ⟨k, hk, rfl⟩), rfl, rfl, rfl, fun v hv hno => ?_⟩
  exact List.mem_append_left _ (List.mem_filter.mpr ⟨hv, by simp [hno]⟩)

end Lookup

/-! ## The size of the merge -/

def RegValue.size (v : RegValue) : Nat := 10 + (v.name.length + 1) * 2 + v.data.length

def RegAdd.size (a : RegAdd) : Nat := 10 + (a.name.val.length + 1) * 2 + a.data.length

/-- The adds that no later add supersedes. -/
def lasts : List RegAdd → List RegAdd
  | [] => []
  | a :: adds => if ∃ b ∈ adds, b.keyId = a.keyId ∧ b.nameId = a.nameId then lasts adds else a :: lasts adds

/-- The size of the merge, from the snapshot and the adds: the old records but the values
    an add names, one record for each value named, one key record for each new key. -/
def mergedSize (s : Snapshot) (adds : List RegAdd) : Nat :=
  8 + ((s.keys.map fun k => 10 + (k.path.length + 1 + classChars k.cls) * 2 +
      ((k.values.filter fun v => !overridden adds k.id v).map RegValue.size).sum).sum +
    (((lasts adds).map RegAdd.size).sum +
      ((firsts (s.keys.map RegKey.id) adds).map fun a => 10 + (a.key.val.length + 1) * 2).sum))

@[simp] theorem utf16z_length (u : List Nat) : (utf16z u).length = (u.length + 1) * 2 := by
  have : (u.flatMap fun c => le 2 c).length = u.length * 2 := by
    induction u with
    | nil => rfl
    | cons c u ih => simp only [List.flatMap_cons, List.length_append, Lib.le_length, List.length_cons, ih]; omega
  simp only [utf16z, List.length_append, Lib.le_length, this]
  omega

@[simp] theorem classBytes_length (c : Option (List Nat)) : (classBytes c).length = classChars c * 2 := by
  cases c <;> simp [classBytes, classChars]

@[simp] theorem value_record_length (v : RegValue) : v.record.length = v.size := by
  simp only [RegValue.record, RegValue.size, List.length_append, Lib.le_length, utf16z_length]
  omega

@[simp] theorem key_record_length (k : RegKey) : k.record.length = 10 + (k.path.length + 1 + classChars k.cls) * 2 := by
  simp only [RegKey.record, List.length_append, Lib.le_length, utf16z_length, classBytes_length]
  omega

theorem values_length (values : List RegValue) : (values.flatMap RegValue.record).length = (values.map RegValue.size).sum := by
  simp [List.length_flatMap]

theorem wins_eq (id : Nat × List Nat) (adds : List RegAdd) : wins id adds = (lasts adds).filter fun a => a.keyId == id := by
  induction adds with
  | nil => rfl
  | cons a adds ih =>
    unfold wins lasts
    by_cases hlater : ∃ b ∈ adds, b.keyId = a.keyId ∧ b.nameId = a.nameId
    · rw [if_pos hlater, if_neg (by simp [hlater]), ih]
    · rw [if_neg hlater]
      by_cases hk : a.keyId = id
      · rw [if_pos ⟨hk, hlater⟩, List.filter_cons_of_pos (by simpa using hk), ih]
      · rw [if_neg (by simp [hk]), List.filter_cons_of_neg (by simpa using hk), ih]

/-- Values sorted by key, over all the keys, are all the values. -/
theorem sum_by_key (l : List RegAdd) (ids : List (Nat × List Nat)) (hnd : ids.Nodup) (hall : ∀ a ∈ l, a.keyId ∈ ids) :
    (ids.map fun id => ((l.filter fun a => a.keyId == id).map RegAdd.size).sum).sum = (l.map RegAdd.size).sum := by
  induction ids generalizing l with
  | nil =>
    cases l with
    | nil => rfl
    | cons a l => exact absurd (hall a List.mem_cons_self) (by simp)
  | cons id ids ih =>
    obtain ⟨hid, hnd⟩ := List.nodup_cons.mp hnd
    have hsplit : (l.map RegAdd.size).sum = ((l.filter fun a => a.keyId == id).map RegAdd.size).sum +
        ((l.filter fun a => !(a.keyId == id)).map RegAdd.size).sum := by
      clear hall
      induction l with
      | nil => rfl
      | cons a l ihl =>
        by_cases ha : a.keyId = id <;> simp [ha] <;> omega
    have hrest := ih (l.filter fun a => !(a.keyId == id)) hnd fun a ha => by
      obtain ⟨hmem, hne⟩ := List.mem_filter.mp ha
      rcases List.mem_cons.mp (hall a hmem) with h | h
      · simp [h] at hne
      · exact h
    rw [List.map_cons, List.sum_cons, hsplit, ← hrest]
    congr 2
    refine List.map_congr_left fun j hj => ?_
    have hne : id ≠ j := fun h => hid (h ▸ hj)
    rw [List.filter_filter]
    refine congrArg (fun p => ((l.filter p).map RegAdd.size).sum) (funext fun a => ?_)
    by_cases ha : a.keyId = j
    · simp [ha, Ne.symm hne]
    · simp [ha]

/-- Every key named is the snapshot's or new. -/
theorem keyId_covered (seen : List (Nat × List Nat)) (adds : List RegAdd) {a : RegAdd} (ha : a ∈ adds) :
    a.keyId ∈ seen ∨ a.keyId ∈ (firsts seen adds).map RegAdd.keyId := by
  induction adds generalizing seen with
  | nil => cases ha
  | cons b adds ih =>
    unfold firsts
    rcases List.mem_cons.mp ha with rfl | ha
    · split
      · exact .inl ‹_›
      · exact .inr (by simp)
    · split
      · exact ih seen ha
      · rcases ih (b.keyId :: seen) ha with h | h
        · rcases List.mem_cons.mp h with h | h
          · exact .inr (by simp [h])
          · exact .inl h
        · exact .inr (List.mem_cons_of_mem _ h)

theorem lasts_sublist (adds : List RegAdd) : (lasts adds).Sublist adds := by
  induction adds with
  | nil => exact .slnil
  | cons a adds ih =>
    unfold lasts
    split
    · exact ih.cons a
    · exact ih.cons_cons a

theorem mergedValues_size (adds : List RegAdd) (id : Nat × List Nat) (values : List RegValue) :
    ((mergedValues adds id values).map RegValue.size).sum =
      ((values.filter fun v => !overridden adds id v).map RegValue.size).sum + ((wins id adds).map RegAdd.size).sum := by
  rw [mergedValues, List.map_append, List.sum_append, List.map_map]
  congr 2
  exact List.map_congr_left fun a _ => by simp [RegValue.size, RegAdd.size, RegAdd.toValue]

theorem merge_length (s : Snapshot) (adds : List RegAdd) : (s.merge adds).encode.length = mergedSize s adds := by
  set seen := s.keys.map RegKey.id with hseen
  -- the winning adds, key by key
  have hwins : ((seen ++ (firsts seen adds).map RegAdd.keyId).map fun id => ((wins id adds).map RegAdd.size).sum).sum =
      ((lasts adds).map RegAdd.size).sum := by
    simp only [wins_eq]
    refine sum_by_key _ _ ?_ fun a ha => ?_
    · refine List.nodup_append.mpr ⟨List.pairwise_map.mpr s.unique, List.pairwise_map.mpr (firsts_unique seen adds), ?_⟩
      rintro i hi j hj rfl
      obtain ⟨a, ha, rfl⟩ := List.mem_map.mp hj
      exact (mem_firsts ha).2 hi
    · exact List.mem_append.mpr (keyId_covered seen adds ((lasts_sublist adds).subset ha))
  have hkeys : ((s.keys.map (mergeKey adds)).flatMap RegKey.records).length =
      (s.keys.map fun k => 10 + (k.path.length + 1 + classChars k.cls) * 2 +
        ((k.values.filter fun v => !overridden adds k.id v).map RegValue.size).sum).sum +
      (seen.map fun id => ((wins id adds).map RegAdd.size).sum).sum := by
    rw [hseen, List.map_map, ← List.sum_map_add, List.length_flatMap, List.map_map]
    refine congrArg List.sum (List.map_congr_left fun k _ => ?_)
    simp only [Function.comp_apply, RegKey.records, mergeKey, List.length_append, key_record_length, values_length,
      mergedValues_size]
    omega
  have hnew : ((newKeys s adds).flatMap RegKey.records).length =
      ((firsts seen adds).map fun a => 10 + (a.key.val.length + 1) * 2).sum +
      (((firsts seen adds).map RegAdd.keyId).map fun id => ((wins id adds).map RegAdd.size).sum).sum := by
    rw [newKeys, List.map_map, ← List.sum_map_add, List.length_flatMap, List.map_map]
    refine congrArg List.sum (List.map_congr_left fun a _ => ?_)
    simp only [Function.comp_apply, RegKey.records, newKey, List.length_append, key_record_length, values_length,
      mergedValues_size]
    simp [classChars]
  rw [List.map_append, List.sum_append] at hwins
  simp only [Snapshot.encode, Snapshot.body, Snapshot.merge, List.flatMap_append, List.length_append, hkeys, hnew,
    Lib.le_length, mergedSize, regMagic, List.length_cons, List.length_nil, ← hseen]
  omega

/-! ## Merging twice -/

section Twice

variable {adds : List RegAdd} {id : Nat × List Nat}

theorem overridden_wins {v : RegValue} (h : v ∈ (wins id adds).map RegAdd.toValue) : overridden adds id v = true := by
  obtain ⟨a, ha, rfl⟩ := List.mem_map.mp h
  obtain ⟨hmem, hid⟩ := mem_wins ha
  exact List.any_eq_true.mpr ⟨a, hmem, by simp [hid, RegAdd.nameId, RegValue.id, RegAdd.toValue]⟩

/-- The second merge takes the added values out and puts them back. -/
theorem mergedValues_twice (adds : List RegAdd) (id : Nat × List Nat) (values : List RegValue) :
    mergedValues adds id (mergedValues adds id values) = mergedValues adds id values := by
  have hadded : ((wins id adds).map RegAdd.toValue).filter (fun v => !overridden adds id v) = [] :=
    List.filter_eq_nil_iff.mpr fun v hv => by simp [overridden_wins hv]
  rw [mergedValues, mergedValues, List.filter_append, List.filter_filter, hadded, List.append_nil]
  simp only [Bool.and_self]

theorem mergeKey_twice (adds : List RegAdd) (k : RegKey) : mergeKey adds (mergeKey adds k) = mergeKey adds k := by
  have hvalues := mergedValues_twice adds k.id k.values
  simp only [mergeKey, RegKey.mk.injEq, true_and]
  exact hvalues

theorem mergeKey_newKey (adds : List RegAdd) (a : RegAdd) : mergeKey adds (newKey adds a) = newKey adds a := by
  have hvalues := mergedValues_twice adds a.keyId []
  simp only [mergeKey, newKey, RegKey.mk.injEq, true_and]
  exact hvalues

theorem firsts_nil {seen : List (Nat × List Nat)} (h : ∀ a ∈ adds, a.keyId ∈ seen) : firsts seen adds = [] := by
  refine List.eq_nil_iff_forall_not_mem.mpr fun a ha => ?_
  obtain ⟨hmem, hnew⟩ := mem_firsts ha
  exact hnew (h a hmem)

/-- Every key that an add names is in the merge. -/
theorem merge_keyId (s : Snapshot) {a : RegAdd} (ha : a ∈ adds) : a.keyId ∈ (s.merge adds).keys.map RegKey.id := by
  rw [Snapshot.merge, List.map_append, List.mem_append]
  rcases keyId_covered (s.keys.map RegKey.id) adds ha with hold | hnew
  · refine .inl ?_
    rw [List.map_map]
    exact hold
  · refine .inr ?_
    rw [newKeys, List.map_map]
    exact hnew

theorem merge_twice (s : Snapshot) (adds : List RegAdd) : (s.merge adds).merge adds = s.merge adds := by
  have hnone : newKeys (s.merge adds) adds = [] := by
    rw [newKeys, firsts_nil fun a ha => merge_keyId s ha, List.map_nil]
  have hkeys : (s.merge adds).keys.map (mergeKey adds) = (s.merge adds).keys := by
    show (s.keys.map (mergeKey adds) ++ newKeys s adds).map (mergeKey adds) = s.keys.map (mergeKey adds) ++ newKeys s adds
    rw [List.map_append, newKeys, List.map_map, List.map_map]
    congr 1
    · exact List.map_congr_left fun k _ => mergeKey_twice adds k
    · exact List.map_congr_left fun a _ => mergeKey_newKey adds a
  rw [Snapshot.merge, Snapshot.mk.injEq, hnone, hkeys, List.append_nil]

end Twice

end Be300.Cbea
