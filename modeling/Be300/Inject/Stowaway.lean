/-
  Be300.Inject.Stowaway — the Stowaway key is put into a snapshot once, or twice.

  A key is read as its path and class together (`keyString`), so only a key that is spelled
  the same and has no class is taken for the Stowaway key (`exact_iff`). The records of a key
  stay together: the new key goes between two keys (`update_spec`).
-/

import Be300.Cbea.RegistryMerge
import Be300.Inject.Registry

namespace Be300.Inject

open Be300.Lib (le rd at' le_length rd_at)
open Be300.Cbea

/-! ## Reading a snapshot -/

/-- What the key of a record is read as. -/
def keyString (k : RegKey) : List Nat := decodeUtf16z (utf16z k.path ++ classBytes k.cls)

def valueString (v : RegValue) : List Nat := decodeUtf16z (slice v.record 10 (10 + rd16 v.record 6 * 2))

/-- The records of a key, as they are read. -/
def recordsOf (k : RegKey) : List RegRecord :=
  ⟨k.record, 1, some k.root, some (keyString k), none⟩ ::
    k.values.map fun v => ⟨v.record, 2, some k.root, some (keyString k), some (valueString v)⟩

section Read

variable {k : RegKey} {v : RegValue} {l : List UInt8}

theorem rd32_halves (r : List UInt8) (i : Nat) : rd32 r i = rd16 r i + 65536 * rd16 r (i + 2) := by
  unfold rd32 rd16
  simp only [rd, Nat.add_assoc, Nat.reduceAdd]
  omega

theorem key_header (k : RegKey) (l : List UInt8) :
    let r := k.record ++ l
    rd16 r 0 = 6 + (k.path.length + 1 + classChars k.cls) * 2 ∧ rd16 r 2 = 1 ∧ rd16 r 4 = k.root ∧
      rd16 r 6 = k.path.length + 1 ∧ rd16 r 8 = classChars k.cls := by
  have hfits := k.fits
  have h := rd16_header (l := (utf16z k.path ++ classBytes k.cls) ++ l)
    (show 6 + (k.path.length + 1 + classChars k.cls) * 2 < 65536 by omega) (show 1 < 65536 by decide) k.root_lt
    (show k.path.length + 1 < 65536 by omega) (show classChars k.cls < 65536 by omega)
  simp only [RegKey.record, List.append_assoc] at h ⊢
  exact h

theorem value_header (v : RegValue) (l : List UInt8) :
    let r := v.record ++ l
    rd16 r 0 = 6 + (v.name.length + 1) * 2 + v.data.length ∧ rd16 r 2 = 2 := by
  have hfits := v.fits
  have h := rd16_header (l := (utf16z v.name ++ v.data) ++ l)
    (show 6 + (v.name.length + 1) * 2 + v.data.length < 65536 by omega) (show 2 < 65536 by decide) v.type_lt
    (show v.name.length + 1 < 65536 by omega) (show v.data.length < 65536 by omega)
  simp only [RegValue.record, List.append_assoc] at h ⊢
  exact ⟨h.1, h.2.1⟩

/-- The count takes in the class: the name is read to the end of the record. -/
theorem key_slice (k : RegKey) : slice k.record 10 (10 + rd32 k.record 6 * 2) = utf16z k.path ++ classBytes k.cls := by
  have hfits := k.fits
  obtain ⟨-, -, -, hnchars, hclass⟩ := key_header k []
  rw [List.append_nil] at hnchars hclass
  have hstop : k.record.length ≤ 10 + rd32 k.record 6 * 2 := by
    rw [rd32_halves, hnchars, hclass, key_record_length]
    by_cases hnone : classChars k.cls = 0 <;> omega
  unfold slice
  rw [List.take_of_length_le hstop]
  rfl

theorem keyRecord_read (k : RegKey) :
    keyRecord k.record = .ok ⟨k.record, 1, some k.root, some (keyString k), none⟩ := by
  obtain ⟨-, -, hroot, -, -⟩ := key_header k []
  rw [List.append_nil] at hroot
  unfold keyRecord
  rw [if_neg (by rw [key_record_length]; omega)]
  simp only
  rw [key_slice, hroot]
  rfl

theorem valueRecord_read (root : Option Nat) (key : Option (List Nat)) (v : RegValue) :
    valueRecord root key v.record = .ok ⟨v.record, 2, root, key, some (valueString v)⟩ := by
  unfold valueRecord
  rw [if_neg (by rw [value_record_length, RegValue.size]; omega)]
  rfl

/-- One key record. -/
theorem parse_key (root : Option Nat) (key : Option (List Nat)) (pos : Nat) (k : RegKey) (l : List UInt8) :
    parseRecords root key pos (k.record ++ l) = do
      let records ← parseRecords (some k.root) (some (keyString k)) (pos + k.record.length) l
      return ⟨k.record, 1, some k.root, some (keyString k), none⟩ :: records := by
  have hfits := k.fits
  obtain ⟨hplen, htype, -, -, -⟩ := key_header k l
  have hlen : k.record.length = 4 + rd16 (k.record ++ l) 0 := by
    rw [hplen, key_record_length]
    omega
  rw [parseRecords]
  have hrest : k.record ++ l ≠ [] := by
    intro h
    have hzero := congrArg List.length h
    rw [List.length_append, key_record_length, List.length_nil] at hzero
    omega
  rw [if_neg hrest, if_neg (by rw [List.length_append, hlen]; omega),
    if_neg (by rw [List.length_append, ← hlen, hplen]; omega), ← hlen]
  simp only
  rw [if_pos htype, List.take_left', List.drop_left', keyRecord_read]
  · rfl
  · rfl
  · rfl

theorem parse_value (root : Option Nat) (key : Option (List Nat)) (pos : Nat) (v : RegValue) (l : List UInt8) :
    parseRecords root key pos (v.record ++ l) = do
      let records ← parseRecords root key (pos + v.record.length) l
      return ⟨v.record, 2, root, key, some (valueString v)⟩ :: records := by
  have hfits := v.fits
  obtain ⟨hplen, htype⟩ := value_header v l
  have hlen : v.record.length = 4 + rd16 (v.record ++ l) 0 := by
    rw [hplen, value_record_length, RegValue.size]
    omega
  rw [parseRecords]
  have hrest : v.record ++ l ≠ [] := by
    intro h
    have hzero := congrArg List.length h
    rw [List.length_append, hlen, List.length_nil] at hzero
    omega
  rw [if_neg hrest, if_neg (by rw [List.length_append, hlen]; omega),
    if_neg (by rw [List.length_append, ← hlen, hplen]; omega), ← hlen]
  simp only
  rw [if_neg (by rw [htype]; decide), if_pos htype, List.take_left', List.drop_left', valueRecord_read]
  · rfl
  · rfl
  · rfl

theorem parse_values (root : Option Nat) (key : Option (List Nat)) (pos : Nat) (values : List RegValue) (l : List UInt8) :
    parseRecords root key pos (values.flatMap RegValue.record ++ l) = do
      let records ← parseRecords root key (pos + (values.flatMap RegValue.record).length) l
      return values.map (fun v => ⟨v.record, 2, root, key, some (valueString v)⟩) ++ records := by
  induction values generalizing pos with
  | nil =>
    cases h : parseRecords root key pos l <;> simp [h, bind, Except.bind, pure, Except.pure]
  | cons v values ih =>
    rw [List.flatMap_cons, List.append_assoc, parse_value, ih, List.length_append, ← Nat.add_assoc]
    cases parseRecords root key (pos + v.record.length + (values.flatMap RegValue.record).length) l <;> rfl

theorem parse_keys (root : Option Nat) (key : Option (List Nat)) (pos : Nat) (keys : List RegKey) :
    parseRecords root key pos (keys.flatMap RegKey.records) = .ok (keys.flatMap recordsOf) := by
  induction keys generalizing root key pos with
  | nil =>
    rw [List.flatMap_nil, parseRecords, if_pos rfl]
    rfl
  | cons k keys ih =>
    rw [List.flatMap_cons, RegKey.records, List.append_assoc, parse_key, parse_values, ih]
    rfl

/-- The records of a file are those of its keys. -/
theorem parse_snapshot {b : List UInt8} {s : Snapshot} (h : WellFormed b s) :
    parseRegRecords b = .ok (s.keys.flatMap recordsOf) := by
  obtain ⟨rfl, hsize⟩ := h
  have hlength : s.encode.length = 8 + s.body.length := by
    simp only [Snapshot.encode, List.length_append, le_length, regMagic, List.length_cons, List.length_nil]
    omega
  have hfield : rd32 s.encode 4 = s.encode.length := by
    rw [hlength]
    exact rd_at (show 8 + s.body.length < 256 ^ 4 by omega) regMagic s.body
  unfold parseRegRecords
  rw [if_neg (by omega), if_neg (by rw [hfield]; exact fun h => h rfl)]
  exact parse_keys none none 8 s.keys

end Read

/-! ## Where the new key goes -/

/-- The place of the last element with the property. -/
def lastIdx {α : Type} (p : α → Bool) : List α → Option Nat
  | [] => none
  | a :: l =>
    match lastIdx p l with
    | some i => some (i + 1)
    | none => if p a then some 0 else none

section Place

variable {α κ : Type} {p : α → Bool} {l m : List α}

theorem lastIdx_append (l m : List α) : lastIdx p (l ++ m) =
    match lastIdx p m with
    | some i => some (l.length + i)
    | none => lastIdx p l := by
  induction l with
  | nil => cases h : lastIdx p m <;> simp [lastIdx, h]
  | cons a l ih =>
    rw [List.cons_append, lastIdx, ih, lastIdx]
    cases lastIdx p m with
    | none => rfl
    | some i =>
      simp only [List.length_cons]
      congr 1
      omega

theorem lastIdx_lt {i : Nat} (h : lastIdx p l = some i) : i < l.length := by
  induction l generalizing i with
  | nil => cases h
  | cons a l ih =>
    rw [lastIdx] at h
    rw [List.length_cons]
    cases hrest : lastIdx p l with
    | some j =>
      rw [hrest] at h
      have hj := ih hrest
      cases h
      omega
    | none =>
      rw [hrest] at h
      simp only [Option.ite_none_right_eq_some, Option.some.injEq] at h
      omega

theorem lastIdx_none (h : ∀ a ∈ l, p a = false) : lastIdx p l = none := by
  induction l with
  | nil => rfl
  | cons a l ih =>
    rw [lastIdx, ih fun x hx => h x (List.mem_cons_of_mem a hx)]
    simp [h a List.mem_cons_self]

theorem lastIdx_all (hne : l ≠ []) (h : ∀ a ∈ l, p a = true) : lastIdx p l = some (l.length - 1) := by
  obtain ⟨front, a, rfl⟩ := List.eq_nil_or_concat l |>.resolve_left hne
  have ha : p a = true := h a (by simp)
  rw [List.concat_eq_append, lastIdx_append]
  simp [lastIdx, ha]

/-- Elements that come in groups, all of a group with the property or none: the cut after the
    last one with the property is between two groups. -/
theorem cut_groups {f : κ → List α} {q : κ → Bool} (hf : ∀ k, f k ≠ [] ∧ ∀ a ∈ f k, p a = q k) (ks : List κ) :
    ∃ A B, ks = A ++ B ∧
      (ks.flatMap f).take ((lastIdx p (ks.flatMap f)).getD (ks.flatMap f).length + 1) = A.flatMap f ∧
      (ks.flatMap f).drop ((lastIdx p (ks.flatMap f)).getD (ks.flatMap f).length + 1) = B.flatMap f := by
  induction ks with
  | nil => exact ⟨[], [], rfl, rfl, rfl⟩
  | cons k ks ih =>
    obtain ⟨A, B, hks, htake, hdrop⟩ := ih
    obtain ⟨hne, hall⟩ := hf k
    rw [List.flatMap_cons, lastIdx_append]
    cases hlast : lastIdx p (ks.flatMap f) with
    | some i =>
      rw [hlast, Option.getD_some] at htake hdrop
      refine ⟨k :: A, B, by rw [hks, List.cons_append], ?_, ?_⟩
      · rw [Option.getD_some, Nat.add_assoc, List.take_length_add_append, htake, List.flatMap_cons]
      · rw [Option.getD_some, Nat.add_assoc, List.drop_length_add_append, hdrop]
    | none =>
      simp only
      cases hq : q k with
      | true =>
        have hpos := List.length_pos_of_ne_nil hne
        rw [lastIdx_all hne fun a ha => (hall a ha).trans hq, Option.getD_some, Nat.sub_add_cancel hpos]
        refine ⟨[k], ks, rfl, ?_, ?_⟩
        · rw [List.take_left', List.flatMap_singleton]
          rfl
        · exact List.drop_left' rfl
      | false =>
        rw [lastIdx_none fun a ha => (hall a ha).trans hq, Option.getD_none]
        refine ⟨k :: ks, [], by rw [List.append_nil], ?_, ?_⟩
        · rw [List.take_of_length_le (by omega), List.flatMap_cons]
        · rw [List.drop_of_length_le (by omega), List.flatMap_nil]

end Place

section Update

theorem keepRecords_spec (records : List RegRecord) :
    keepRecords records = (records.filter fun r => !r.stowaway,
      lastIdx RegRecord.builtIn (records.filter fun r => !r.stowaway)) := by
  have hfold : ∀ (kept : List RegRecord) (insertAfter : Option Nat),
      records.foldl (fun (x : List RegRecord × Option Nat) r =>
        if r.stowaway then (x.1, x.2) else (x.1 ++ [r], if r.builtIn then some x.1.length else x.2)) (kept, insertAfter) =
      (kept ++ records.filter fun r => !r.stowaway,
        (lastIdx RegRecord.builtIn (records.filter fun r => !r.stowaway)).elim insertAfter fun i => some (kept.length + i)) := by
    induction records with
    | nil =>
      intro kept insertAfter
      simp [lastIdx]
    | cons r records ih =>
      intro kept insertAfter
      rw [List.foldl_cons]
      cases hr : r.stowaway with
      | true =>
        simp only [if_true, ih]
        rw [List.filter_cons_of_neg (by simp [hr])]
      | false =>
        simp only [Bool.false_eq_true, if_false, ih]
        rw [List.filter_cons_of_pos (by simp [hr]), List.append_assoc, List.singleton_append, lastIdx]
        cases lastIdx RegRecord.builtIn (records.filter fun r => !r.stowaway) with
        | some i =>
          simp only [Option.elim_some, List.length_append, List.length_singleton]
          congr 2
          omega
        | none =>
          cases r.builtIn <;> rfl
  have hall := hfold [] none
  have hkeep : keepRecords records = records.foldl (fun (x : List RegRecord × Option Nat) r =>
      if r.stowaway then (x.1, x.2) else (x.1 ++ [r], if r.builtIn then some x.1.length else x.2)) ([], none) := rfl
  rw [hkeep, hall]
  cases lastIdx RegRecord.builtIn (records.filter fun r => !r.stowaway) <;> simp

theorem zipIdx_past (kept : List RegRecord) (new : List UInt8) {n j : Nat} (hj : j < n) :
    ((kept.zipIdx n).flatMap fun (r, index) => r.raw ++ if index = j then new else []) = kept.flatMap RegRecord.raw := by
  induction kept generalizing n with
  | nil => rfl
  | cons r kept ih =>
    rw [List.zipIdx_cons, List.flatMap_cons, List.flatMap_cons, ih (Nat.lt_succ_of_lt hj)]
    simp only
    rw [if_neg (by omega), List.append_nil]

/-- The new records go after record number `i`, or at the end. -/
theorem writeBody_spec (kept : List RegRecord) (i : Nat) (new : List UInt8) (hi : i ≤ kept.length) :
    writeBody kept i new = (kept.take (i + 1)).flatMap RegRecord.raw ++ (new ++ (kept.drop (i + 1)).flatMap RegRecord.raw) := by
  have hloop : ∀ n, ((kept.zipIdx n).flatMap fun (r, index) => r.raw ++ if index = n + i then new else []) ++
      (if i = kept.length then new else []) =
        (kept.take (i + 1)).flatMap RegRecord.raw ++ (new ++ (kept.drop (i + 1)).flatMap RegRecord.raw) := by
    induction kept generalizing i with
    | nil =>
      intro n
      have hzero : i = 0 := Nat.le_zero.mp hi
      simp [hzero]
    | cons r kept ih =>
      intro n
      rw [List.zipIdx_cons, List.flatMap_cons]
      simp only
      cases i with
      | zero =>
        rw [if_pos (by omega), zipIdx_past kept new (show n + 0 < n + 1 by omega), if_neg (by simp)]
        simp
      | succ i =>
        have hrest := ih i (by simpa using hi) (n + 1)
        simp only [show n + 1 + i = n + (i + 1) by omega] at hrest
        simp only [List.length_cons, Nat.add_right_cancel_iff, List.take_succ_cons, List.drop_succ_cons, List.flatMap_cons]
        rw [if_neg (by omega), List.append_nil, List.append_assoc, hrest, List.append_assoc]
  have hzero := hloop 0
  simp only [Nat.zero_add] at hzero
  exact hzero

end Update

/-! ## The Stowaway key -/

def dataOf : PyValue → List UInt8
  | .str s => encodeUtf16z s
  | .int n => le 4 n

theorem stowaway_fits : ∀ v ∈ stowawayRegValues,
    IsName v.1 ∧ v.2.1 < 65536 ∧ 6 + (v.1.length + 1) * 2 + (dataOf v.2.2).length ≤ 65535 := by
  unfold IsName
  decide

/-- The values listed, as those of a key. -/
def stowawayValues : List RegValue :=
  stowawayRegValues.pmap (fun v h => ⟨v.1, v.2.1, dataOf v.2.2, h.1, h.2.1, h.2.2⟩) stowaway_fits

def stowaway : RegKey where
  root := regRootHklm
  path := stowawayKey
  cls := none
  values := stowawayValues
  isName := by
    unfold IsName
    decide
  root_lt := by decide
  fits := by decide
  unique := by decide

theorem encodeUtf16z_eq {u : List Nat} (h : IsName u) : encodeUtf16z u = utf16z u := by
  have hplain : ∀ c ∈ u ++ [0], c < 0x10000 := by
    intro c hc
    rcases List.mem_append.mp hc with hc | hc
    · exact (h c hc).2
    · rw [List.mem_singleton.mp hc]
      decide
  have hmap : (u ++ [0]).flatMap (fun c => if c < 0x10000 then le 2 c else le 2 (0xD800 + (c - 0x10000) / 0x400) ++
      le 2 (0xDC00 + (c - 0x10000) % 0x400)) = (u ++ [0]).flatMap fun c => le 2 c :=
    List.flatMap_congr fun c hc => if_pos (hplain c hc)
  rw [encodeUtf16z, Lib.Utf16.encode, hmap, List.flatMap_append]
  rfl

theorem packH_ok {fields : List Nat} (h : ∀ n ∈ fields, n < 65536) : packH fields = .ok (fields.flatMap (le 2)) :=
  if_pos (List.all_eq_true.mpr fun n hn => decide_eq_true (h n hn))

theorem count_halves {n : Nat} (h : n < 65536) : le 4 n = le 2 n ++ le 2 0 := by
  have hzero : n / 256 / 256 = 0 := by omega
  show [UInt8.ofNat n, UInt8.ofNat (n / 256), UInt8.ofNat (n / 256 / 256), UInt8.ofNat (n / 256 / 256 / 256)] = _
  rw [hzero]
  rfl

/-- The key record written is that of a key without class. -/
theorem encodeKeyRecord_eq (k : RegKey) (hcls : k.cls = none) : encodeKeyRecord k.root k.path = .ok k.record := by
  have hfits := k.fits
  rw [hcls] at hfits
  simp only [classChars, Nat.add_zero] at hfits
  have hpack : packH [2 + 4 + (k.path.length + 1) * 2, 1, k.root] =
      .ok ([2 + 4 + (k.path.length + 1) * 2, 1, k.root].flatMap (le 2)) := by
    refine packH_ok fun n hn => ?_
    simp only [List.mem_cons, List.not_mem_nil, or_false] at hn
    rcases hn with rfl | rfl | rfl
    · omega
    · decide
    · exact k.root_lt
  have hcount : (k.path.length + 1) * 2 / 2 = k.path.length + 1 := Nat.mul_div_cancel _ (by decide)
  simp only [encodeKeyRecord, encodeUtf16z_eq k.isName, utf16z_length, hcount, hpack, bind, Except.bind, pure, Except.pure]
  rw [if_pos (by omega), count_halves (by omega)]
  simp [RegKey.record, hcls, classChars, classBytes]

/-- The value record written is that of the value. -/
theorem encodeValueRecord_eq (v : RegValue) {value : PyValue} (h : encodeValueData v.name v.type value = .ok v.data) :
    encodeValueRecord v.name v.type value = .ok v.record := by
  have hfits := v.fits
  have hlen : (utf16z v.name).length = (v.name.length + 1) * 2 := utf16z_length v.name
  have hpack : packH [2 + 2 + 2 + (utf16z v.name).length + v.data.length, 2, v.type, (v.name.length + 1), v.data.length] =
      .ok ([2 + 2 + 2 + (utf16z v.name).length + v.data.length, 2, v.type, (v.name.length + 1), v.data.length].flatMap
        (le 2)) := by
    refine packH_ok fun n hn => ?_
    simp only [List.mem_cons, List.not_mem_nil, or_false] at hn
    have htype := v.type_lt
    rcases hn with rfl | rfl | rfl | rfl | rfl <;> omega
  simp only [encodeValueRecord, encodeUtf16z_eq v.isName, h, bind, Except.bind, pure, Except.pure]
  rw [hlen, Nat.mul_div_cancel _ (by decide : 0 < 2), ← hlen, hpack]
  simp [RegValue.record, hlen]

theorem mapM_pmap {α β γ : Type} {p : α → Prop} {f : α → Except Error β} {mk : ∀ x, p x → γ} {g : γ → β} {l : List α}
    (hl : ∀ x ∈ l, p x) (h : ∀ x ∈ l, ∀ hx, f x = .ok (g (mk x hx))) : l.mapM f = .ok ((l.pmap mk hl).map g) := by
  induction l with
  | nil => rfl
  | cons x l ih =>
    rw [List.mapM_cons, h x (List.mem_cons_self ..) (hl x (List.mem_cons_self ..)),
      ih (fun y hy => hl y (List.mem_cons_of_mem _ hy)) fun y hy => h y (List.mem_cons_of_mem _ hy)]
    rfl

/-- A value of the type it is listed with. -/
def typed (regType : Nat) : PyValue → Bool
  | .str _ => regType == regSz
  | .int n => regType == regDword && decide (n < 2 ^ 32)

theorem encodeValueData_typed {regType : Nat} {value : PyValue} (h : typed regType value = true) (name : List Nat) :
    encodeValueData name regType value = .ok (dataOf value) := by
  cases value with
  | str s =>
    rw [typed, beq_iff_eq] at h
    rw [h]
    rfl
  | int n =>
    rw [typed, Bool.and_eq_true, beq_iff_eq, decide_eq_true_iff] at h
    rw [h.1]
    exact if_pos h.2

theorem stowaway_typed : (stowawayRegValues.all fun v => typed v.2.1 v.2.2) = true := by decide

/-- The records written are those of the key. -/
theorem stowawayRecords_eq : stowawayRecords = .ok stowaway.records := by
  have hkey : encodeKeyRecord regRootHklm stowawayKey = .ok stowaway.record := encodeKeyRecord_eq stowaway rfl
  have hvalues : stowawayRegValues.mapM (fun v => encodeValueRecord v.1 v.2.1 v.2.2) = .ok (stowawayValues.map RegValue.record) :=
    mapM_pmap stowaway_fits fun v hv hfits => encodeValueRecord_eq ⟨v.1, v.2.1, dataOf v.2.2, hfits.1, hfits.2.1, hfits.2.2⟩
      (encodeValueData_typed (List.all_eq_true.mp stowaway_typed v hv) v.1)
  rw [stowawayRecords, hkey, hvalues]
  rfl

/-! ## What is taken for the Stowaway key -/

/-- The update leaves the key out. -/
def Exact (k : RegKey) : Bool := k.root == regRootHklm && keyString k == stowawayKey

/-- A class without characters, or none. -/
def NoClass (k : RegKey) : Prop := ∀ c ∈ k.cls.getD [], c % 65536 = 0

section Exact

variable {k : RegKey}

theorem rstrip_iff {d s : List Nat} (hs : ∀ hl : s ≠ [], s.getLast hl ≠ 0) :
    d.rdropWhile (· == 0) = s ↔ ∃ n, d = s ++ List.replicate n 0 := by
  constructor
  · rintro rfl
    refine ⟨(d.rtakeWhile (· == 0)).length, ?_⟩
    have hzeros : List.replicate (d.rtakeWhile (· == 0)).length 0 = d.rtakeWhile (· == 0) := by
      symm
      apply List.eq_replicate_of_mem
      intro c hc
      simpa using List.mem_rtakeWhile_imp hc
    rw [hzeros, List.rdropWhile_append_rtakeWhile]
  · rintro ⟨n, rfl⟩
    induction n with
    | zero =>
      rw [List.replicate_zero, List.append_nil, List.rdropWhile_eq_self_iff]
      intro hl
      simpa using hs hl
    | succ n ih =>
      rw [List.replicate_succ', ← List.append_assoc, List.rdropWhile_concat_pos _ _ _ (by decide), ih]

/-- The units of a class and its NUL. -/
def classUnits : Option (List Nat) → List Nat
  | none => []
  | some u => u ++ [0]

theorem path_units (k : RegKey) :
    Lib.Utf16.unitsOf (utf16z k.path ++ classBytes k.cls) = (k.path ++ 0 :: (classUnits k.cls).map (· % 65536), false) := by
  have hbytes : utf16z k.path ++ classBytes k.cls = ((k.path ++ 0 :: classUnits k.cls).flatMap fun c => le 2 c) ++ [] := by
    cases hcls : k.cls with
    | none => simp [utf16z, classBytes, classUnits]
    | some u => simp [utf16z, classBytes, classUnits]
  have hpath : k.path.map (· % 65536) = k.path := by
    conv_rhs => rw [← List.map_id k.path]
    apply List.map_congr_left
    intro c hc
    exact Nat.mod_eq_of_lt (k.isName c hc).2
  rw [hbytes, Lib.Utf16.unitsOf_append, List.map_append, hpath]
  simp [Lib.Utf16.unitsOf]

/-- The text read is the Stowaway key's: the path is, and nothing comes after it. -/
theorem keyString_iff : keyString k = stowawayKey ↔ k.path = stowawayKey ∧ NoClass k := by
  have hname : ∀ c ∈ stowawayKey, c ≠ 0 ∧ c < 0xD800 := by decide
  have hlow : ∀ n, ∀ c ∈ stowawayKey ++ List.replicate n 0, c < 0xD800 := by
    intro n c hc
    rcases List.mem_append.mp hc with hc | hc
    · exact (hname c hc).2
    · rw [List.eq_of_mem_replicate hc]
      decide
  unfold keyString decodeUtf16z Lib.Utf16.decode
  rw [path_units, rstrip_iff fun hl => (hname _ (List.getLast_mem hl)).1]
  simp only
  constructor
  · rintro ⟨n, hn⟩
    have hunits := (Lib.Utf16.decodeUnits_iff (hlow n)).mp hn
    -- both sides up to the first NUL
    have hpath := congrArg (List.takeWhile (· != 0)) hunits
    rw [List.takeWhile_append_of_pos fun c hc => by simpa using Nat.pos_iff_ne_zero.mp (k.isName c hc).1,
      List.takeWhile_append_of_pos fun c hc => by simpa using (hname c hc).1] at hpath
    have hnil : (List.replicate n 0).takeWhile (· != 0) = [] := by cases n <;> simp [List.replicate_succ]
    rw [hnil, List.takeWhile_cons_of_neg (by decide), List.append_nil, List.append_nil] at hpath
    refine ⟨hpath, ?_⟩
    rw [hpath] at hunits
    have htail := List.append_cancel_left hunits
    intro c hc
    have hmem : c % 65536 ∈ List.replicate n 0 := by
      rw [← htail]
      apply List.mem_cons_of_mem
      apply List.mem_map_of_mem
      cases hcls : k.cls with
      | none =>
        rw [hcls] at hc
        cases hc
      | some u =>
        rw [hcls] at hc
        exact List.mem_append_left _ hc
    exact List.eq_of_mem_replicate hmem
  · rintro ⟨hpath, hclass⟩
    refine ⟨(classUnits k.cls).length + 1, ?_⟩
    rw [Lib.Utf16.decodeUnits_iff (hlow _), hpath, List.replicate_succ]
    congr 2
    rw [← List.length_map (· % 65536)]
    apply List.eq_replicate_of_mem
    intro x hx
    obtain ⟨c, hc, rfl⟩ := List.mem_map.mp hx
    cases hcls : k.cls with
    | none =>
      rw [hcls] at hc
      cases hc
    | some u =>
      rw [hcls] at hc
      rcases List.mem_append.mp hc with hc | hc
      · exact hclass c (by rw [hcls]; exact hc)
      · rw [List.mem_singleton.mp hc]

theorem exact_iff : Exact k = true ↔ k.root = regRootHklm ∧ k.path = stowawayKey ∧ NoClass k := by
  unfold Exact
  rw [Bool.and_eq_true, beq_iff_eq, beq_iff_eq, keyString_iff]

theorem exact_id (h : Exact k = true) : k.id = stowaway.id := by
  obtain ⟨hroot, hpath, -⟩ := exact_iff.mp h
  unfold RegKey.id
  rw [hroot, hpath]
  rfl

end Exact

/-! ## The update of a snapshot -/

/-- The file of a list of keys. -/
def fileOf (keys : List RegKey) : List UInt8 :=
  regMagic ++ (le 4 (8 + (keys.flatMap RegKey.records).length) ++ keys.flatMap RegKey.records)

/-- The update has given a snapshot with the Stowaway key, its values those listed, and the
    other keys of the old one, in order. -/
def Injected (b : List UInt8) (s : Snapshot) : Prop :=
  ∃ b' s' before after, updateStowawayRegistry b = .ok b' ∧ WellFormed b' s' ∧ s'.keys = before ++ stowaway :: after ∧
    before ++ after = s.keys.filter fun k => decide (k.id ≠ stowaway.id)

section Snapshots

variable {b : List UInt8} {s : Snapshot}

theorem recordsOf_raw (keys : List RegKey) : (keys.flatMap recordsOf).flatMap RegRecord.raw = keys.flatMap RegKey.records := by
  induction keys with
  | nil => rfl
  | cons k keys ih =>
    rw [List.flatMap_cons, List.flatMap_append, List.flatMap_cons, ih]
    congr 1
    unfold recordsOf RegKey.records
    rw [List.flatMap_cons, List.flatMap_map]

theorem recordsOf_stowaway (k : RegKey) : ∀ r ∈ recordsOf k, r.stowaway = Exact k := by
  intro r hr
  unfold recordsOf at hr
  rcases List.mem_cons.mp hr with rfl | hr
  · rfl
  · obtain ⟨v, -, rfl⟩ := List.mem_map.mp hr
    rfl

theorem recordsOf_builtIn (k : RegKey) : recordsOf k ≠ [] ∧ ∀ r ∈ recordsOf k, r.builtIn =
    (k.root == regRootHklm && (keyString k == builtInKey || builtInPrefix.isPrefixOf (keyString k))) := by
  refine ⟨List.cons_ne_nil _ _, ?_⟩
  intro r hr
  unfold recordsOf at hr
  rcases List.mem_cons.mp hr with rfl | hr
  · rfl
  · obtain ⟨v, -, rfl⟩ := List.mem_map.mp hr
    rfl

theorem recordsOf_filter (keys : List RegKey) :
    (keys.flatMap recordsOf).filter (fun r => !r.stowaway) = (keys.filter fun k => !Exact k).flatMap recordsOf := by
  induction keys with
  | nil => rfl
  | cons k keys ih =>
    rw [List.flatMap_cons, List.filter_append, ih]
    cases hk : Exact k with
    | true =>
      have hnone : (recordsOf k).filter (fun r => !r.stowaway) = [] := by
        apply List.filter_eq_nil_iff.mpr
        intro r hr
        rw [recordsOf_stowaway k r hr, hk]
        decide
      rw [hnone, List.filter_cons_of_neg (by simp [hk]), List.nil_append]
    | false =>
      have hall : (recordsOf k).filter (fun r => !r.stowaway) = recordsOf k := by
        apply List.filter_eq_self.mpr
        intro r hr
        rw [recordsOf_stowaway k r hr, hk]
        rfl
      rw [hall, List.filter_cons_of_pos (by simp [hk]), List.flatMap_cons]

theorem fileOf_length (keys : List RegKey) : (fileOf keys).length = 8 + (keys.flatMap RegKey.records).length := by
  unfold fileOf
  rw [List.length_append, List.length_append, le_length, ← Nat.add_assoc]
  rfl

/-- The new key goes between two of the keys kept. -/
theorem update_spec (h : WellFormed b s) : ∃ before after, before ++ after = s.keys.filter (fun k => !Exact k) ∧
    updateStowawayRegistry b =
      if (fileOf (before ++ stowaway :: after)).length < 2 ^ 32 then .ok (fileOf (before ++ stowaway :: after))
        else .error .struct := by
  obtain ⟨before, after, hkeys, htake, hdrop⟩ := cut_groups recordsOf_builtIn (s.keys.filter fun k => !Exact k)
  refine ⟨before, after, hkeys.symm, ?_⟩
  generalize hkept : (s.keys.filter fun k => !Exact k).flatMap recordsOf = kept at htake hdrop
  have hlast : (lastIdx RegRecord.builtIn kept).getD kept.length ≤ kept.length := by
    cases hidx : lastIdx RegRecord.builtIn kept with
    | none => exact Nat.le_refl _
    | some i => exact Nat.le_of_lt (lastIdx_lt hidx)
  have hbody : writeBody kept ((lastIdx RegRecord.builtIn kept).getD kept.length) stowaway.records =
      (before ++ stowaway :: after).flatMap RegKey.records := by
    rw [writeBody_spec kept _ _ hlast, htake, hdrop, recordsOf_raw, recordsOf_raw, List.flatMap_append, List.flatMap_cons]
  have hfront : b.take 8 = regMagic ++ le 4 (8 + s.body.length) := by
    rw [h.1, Snapshot.encode, ← List.append_assoc]
    apply List.take_left'
    rw [List.length_append, le_length]
    rfl
  have hout : ∀ l : List UInt8, (regMagic ++ le 4 (8 + s.body.length) ++ l).take 4 = regMagic ∧
      (regMagic ++ le 4 (8 + s.body.length) ++ l).drop 8 = l ∧
        (regMagic ++ le 4 (8 + s.body.length) ++ l).length = 8 + l.length := by
    intro l
    refine ⟨rfl, ?_, ?_⟩
    · apply List.drop_left'
      rw [List.length_append, le_length]
      rfl
    · rw [List.length_append, List.length_append, le_length]
      rfl
  unfold updateStowawayRegistry
  rw [parse_snapshot h]
  simp only [bind, Except.bind, keepRecords_spec, recordsOf_filter, hkept, stowawayRecords_eq, hbody, hfront]
  obtain ⟨htop, hrest, hlength⟩ := hout ((before ++ stowaway :: after).flatMap RegKey.records)
  rw [htop, hrest, hlength, fileOf_length, List.append_assoc]
  rfl

theorem records_pos (k : RegKey) : 0 < k.records.length := by
  unfold RegKey.records
  rw [List.length_append, key_record_length]
  omega

theorem length_filter_records (p : RegKey → Bool) (keys : List RegKey) :
    ((keys.filter p).flatMap RegKey.records).length ≤ (keys.flatMap RegKey.records).length := by
  induction keys with
  | nil => exact Nat.le_refl _
  | cons k keys ih =>
    cases hk : p k with
    | true =>
      rw [List.filter_cons_of_pos hk, List.flatMap_cons, List.flatMap_cons, List.length_append, List.length_append]
      omega
    | false =>
      rw [List.filter_cons_of_neg (by simp [hk]), List.flatMap_cons, List.length_append]
      omega

/-- Keys whose records take as many bytes once some are left out. -/
theorem all_of_length {p : RegKey → Bool} {keys : List RegKey}
    (h : ((keys.filter p).flatMap RegKey.records).length = (keys.flatMap RegKey.records).length) : ∀ k ∈ keys, p k = true := by
  induction keys with
  | nil => exact fun k hk => absurd hk List.not_mem_nil
  | cons k keys ih =>
    cases hk : p k with
    | true =>
      rw [List.filter_cons_of_pos hk, List.flatMap_cons, List.flatMap_cons, List.length_append, List.length_append] at h
      have hrest := ih (by omega)
      intro x hx
      rcases List.mem_cons.mp hx with rfl | hx
      · exact hk
      · exact hrest x hx
    | false =>
      rw [List.filter_cons_of_neg (by simp [hk]), List.flatMap_cons, List.length_append] at h
      have hle := length_filter_records p keys
      have hpos := records_pos k
      omega

theorem middle_length (before after : List RegKey) : ((before ++ stowaway :: after).flatMap RegKey.records).length =
    ((before ++ after).flatMap RegKey.records).length + stowaway.records.length := by
  simp only [List.flatMap_append, List.flatMap_cons, List.length_append]
  omega

/-- The keys that are not the Stowaway key, whichever way it is spelled. -/
def others (s : Snapshot) : List RegKey := s.keys.filter fun k => decide (k.id ≠ stowaway.id)

theorem injected_iff (h : WellFormed b s) : Injected b s ↔
    (∀ k ∈ s.keys, k.id = stowaway.id → k.path = stowawayKey ∧ NoClass k) ∧
      8 + ((others s).flatMap RegKey.records).length + stowaway.records.length < 2 ^ 32 := by
  obtain ⟨before, after, hkept, hupdate⟩ := update_spec h
  -- the keys that are not the Stowaway key are all kept
  have hothers : (s.keys.filter fun k => !Exact k).filter (fun k => decide (k.id ≠ stowaway.id)) = others s := by
    unfold others
    rw [List.filter_filter]
    apply List.filter_congr
    intro k _
    cases hk : Exact k with
    | true => simp [exact_id hk]
    | false => simp
  have hlength := fileOf_length (before ++ stowaway :: after)
  rw [middle_length, hkept] at hlength
  constructor
  · rintro ⟨b', s', before', after', hb', hwf, hkeys, hrest⟩
    rw [hupdate] at hb'
    split at hb'
    · rename_i hsize
      have hfile := Except.ok.inj hb'
      have hsame : (fileOf (before ++ stowaway :: after)).length = (fileOf (before' ++ stowaway :: after')).length := by
        rw [hfile, hwf.1, ← hkeys]
        rfl
      have hlength' := fileOf_length (before' ++ stowaway :: after')
      rw [middle_length, hrest] at hlength'
      have hcount : ((others s).flatMap RegKey.records).length =
          ((s.keys.filter fun k => !Exact k).flatMap RegKey.records).length := by
        have hdef : ((others s).flatMap RegKey.records).length =
            ((s.keys.filter fun k => decide (k.id ≠ stowaway.id)).flatMap RegKey.records).length := rfl
        omega
      refine ⟨?_, by omega⟩
      intro k hk hid
      by_contra hnot
      have hexact : Exact k = false := by
        apply Bool.eq_false_iff.mpr
        intro hexact
        exact hnot (exact_iff.mp hexact).2
      rw [← hothers] at hcount
      have hne := all_of_length hcount k (List.mem_filter.mpr ⟨hk, by simp [hexact]⟩)
      rw [decide_eq_true_iff] at hne
      exact hne hid
    · cases hb'
  · rintro ⟨hexact, hsize⟩
    have hsame : (s.keys.filter fun k => !Exact k) = others s := by
      apply List.filter_congr
      intro k hk
      by_cases hid : k.id = stowaway.id
      · have hroot : k.root = regRootHklm := congrArg Prod.fst hid
        have hyes : Exact k = true := exact_iff.mpr ⟨hroot, hexact k hk hid⟩
        simp [hid, hyes]
      · have hno : Exact k = false := by
          apply Bool.eq_false_iff.mpr
          intro hyes
          exact hid (exact_id hyes)
        simp [hid, hno]
    rw [hsame] at hkept hlength
    have hunique : (before ++ stowaway :: after).Pairwise fun k l => k.id ≠ l.id := by
      rw [List.pairwise_middle fun hne heq => hne heq.symm, hkept, List.pairwise_cons]
      refine ⟨?_, s.unique.filter _⟩
      intro k hk heq
      have hne := (List.mem_filter.mp hk).2
      rw [decide_eq_true_iff] at hne
      exact hne heq.symm
    have hfits : (fileOf (before ++ stowaway :: after)).length < 2 ^ 32 := by omega
    rw [if_pos hfits] at hupdate
    exact ⟨_, ⟨before ++ stowaway :: after, hunique⟩, before, after, hupdate, ⟨rfl, hfits⟩, rfl, hkept⟩

end Snapshots

/-- The update of a snapshot is what it is for exactly when no key is the Stowaway key in
    other letter case or with a class, and the file fits its size field. -/
theorem update_stowaway_iff (b : List UInt8) (s : Snapshot) (h : WellFormed b s) : Injected b s ↔
    (∀ k ∈ s.keys, k.id = stowaway.id → k.path = stowawayKey ∧ NoClass k) ∧
      8 + ((others s).flatMap RegKey.records).length + stowaway.records.length < 2 ^ 32 := injected_iff h

theorem localMachine_lt : 2 < 65536 := by decide

def serialPath : List Nat := str "Drivers\\BuiltIn\\Serial"
def clockPath : List Nat := str "SOFTWARE\\Microsoft\\Clock"

def serialDll : RegValue := ⟨str "Dll", 1, encodeUtf16z (str "serial.dll"), by unfold IsName; decide, by decide, by decide⟩

/-- The type of a number. -/
theorem dword_lt : 4 < 65536 := by decide

def oldOrder : RegValue := ⟨str "Order", 4, le 4 0, by unfold IsName; decide, dword_lt, by decide⟩

/-- A built-in driver with a class, an older Stowaway key and another key. -/
def drivers : Snapshot where
  keys :=
    [⟨2, serialPath, some (str "Preon"), [serialDll], by unfold IsName serialPath; decide, localMachine_lt, by decide,
      List.pairwise_singleton _ _⟩,
      ⟨2, stowawayKey, none, [oldOrder], stowaway.isName, localMachine_lt, by decide, List.pairwise_singleton _ _⟩,
      ⟨2, clockPath, none, [], by unfold IsName clockPath; decide, localMachine_lt, by decide, .nil⟩]
  unique := by decide

set_option maxRecDepth 10000 in
theorem drivers_file : drivers.encode.length < 2 ^ 32 := by decide

set_option maxRecDepth 10000 in
theorem drivers_small : 8 + ((others drivers).flatMap RegKey.records).length + stowaway.records.length < 2 ^ 32 := by decide

theorem drivers_injected : Injected drivers.encode drivers :=
  (update_stowaway_iff drivers.encode drivers ⟨rfl, drivers_file⟩).mpr ⟨fun k hk hid => by
    simp only [drivers, List.mem_cons, List.not_mem_nil, or_false] at hk
    rcases hk with rfl | rfl | rfl
    · exact absurd hid (by decide)
    · exact ⟨rfl, fun c hc => absurd hc List.not_mem_nil⟩
    · exact absurd hid (by decide), drivers_small⟩

/-- The Stowaway key with its first letter small, without values. -/
def smallCase : Snapshot where
  keys := [⟨2, str "drivers\\BuiltIn\\Stowaway", none, [], by unfold IsName; decide, localMachine_lt, by decide, .nil⟩]
  unique := List.pairwise_singleton _ _

/-- It is kept beside the new one. -/
theorem small_case_kept : WellFormed smallCase.encode smallCase ∧ ¬ Injected smallCase.encode smallCase := by
  have hwf : WellFormed smallCase.encode smallCase := ⟨rfl, by decide⟩
  refine ⟨hwf, ?_⟩
  intro h
  have hexact := ((injected_iff hwf).mp h).1 _ List.mem_cons_self (by decide)
  exact absurd hexact.1 (by decide)

end Be300.Inject
