/-
  Be300.Cbea.RegistryMerge — `regMerge` writes the file of the abstract merge.

  `mark ids adds` is the add list as the code keeps it, the adds of the keys `ids` done.
  Reading a key record and its values (`mergeRecord_key`, `mergeRecords_values`) and
  flushing it (`flush_atKey`) copies what `mergeKey` says; `mergeRecords_keys` is the
  induction over the keys of the old snapshot, `emitNew_marked` the loop over the new ones.
  `regMerge_spec` puts them together; `merge_semantics_iff` is what a reader of the file
  gets, and when: the 32-bit size field must hold the size, as it does of any registry that
  fits a volume. `merge_overflows` is a merge of accepted lines whose file does not say its
  own size. A second merge of the same adds changes nothing (`merge_again_iff`), unless the
  first one was such a merge.
-/

import Be300.Cbea.Inf
import Be300.Cbea.Snapshot
import Mathlib.Algebra.Order.BigOperators.Group.List
import Mathlib.Algebra.Order.Ring.Nat
import Mathlib.Data.List.Nodup
import Mathlib.Data.List.ProdSigma

namespace Be300.Cbea

open Be300.Lib (le le_length rd_le_of_lt rd_append_right rd_append_left rd_at at')

/-! ## Reading records back -/

section Read

variable {a b c d e : Nat} {l : List UInt8}

theorem rd16_skip (a i : Nat) (l : List UInt8) : rd16 (le 2 a ++ l) (2 + i) = rd16 l i := by
  have := rd_append_right 2 (le 2 a) l i
  rwa [le_length] at this

theorem rd16_le (h : a < 65536) (l : List UInt8) : rd16 (le 2 a ++ l) 0 = a := rd_le_of_lt h l

/-- The five fields at the front of every record. -/
theorem rd16_header (ha : a < 65536) (hb : b < 65536) (hc : c < 65536) (hd : d < 65536) (he : e < 65536) :
    let r := le 2 a ++ (le 2 b ++ (le 2 c ++ (le 2 d ++ (le 2 e ++ l))))
    rd16 r 0 = a ∧ rd16 r 2 = b ∧ rd16 r 4 = c ∧ rd16 r 6 = d ∧ rd16 r 8 = e := by
  refine ⟨rd16_le ha _, ?_, ?_, ?_, ?_⟩
  · rw [show 2 = 2 + 0 from rfl, rd16_skip, rd16_le hb]
  · rw [show 4 = 2 + (2 + 0) from rfl, rd16_skip, rd16_skip, rd16_le hc]
  · rw [show 6 = 2 + (2 + (2 + 0)) from rfl, rd16_skip, rd16_skip, rd16_skip, rd16_le hd]
  · rw [show 8 = 2 + (2 + (2 + (2 + 0))) from rfl, rd16_skip, rd16_skip, rd16_skip, rd16_skip, rd16_le he]

theorem rd16_units {u : List Nat} (hu : IsName u) (l : List UInt8) {n : Nat} (hn : n ≤ u.length) :
    rd16 (utf16z u ++ l) (n * 2) = (u ++ [0]).getD n 0 := by
  induction u generalizing n with
  | nil =>
    have : n = 0 := by simpa using hn
    subst this
    exact rd16_le (by decide) l
  | cons c u ih =>
    have hc := (hu c List.mem_cons_self).2
    have hcons : utf16z (c :: u) ++ l = le 2 c ++ (utf16z u ++ l) := by simp [utf16z]
    cases n with
    | zero => rw [hcons]; exact rd16_le hc _
    | succ n =>
      rw [hcons, show (n + 1) * 2 = 2 + n * 2 by omega, rd16_skip,
        ih (fun x hx => hu x (List.mem_cons_of_mem c hx)) (by simpa using hn)]
      rfl

/-- `reg_name_eq` reads a name back, up to the size of its buffer. -/
theorem regName_units {u : List Nat} (hu : IsName u) (p l : List UInt8) :
    regName (p ++ (utf16z u ++ l)) p.length (u.length + 1) = u.take maxPathLen := by
  have hmap : (List.range (min (u.length + 1) maxPathLen)).map (fun n => rd16 (p ++ (utf16z u ++ l)) (p.length + n * 2)) =
      (u ++ [0]).take maxPathLen := by
    refine List.ext_getElem (by simp [Nat.min_comm]) fun n h1 h2 => ?_
    have hn : n ≤ u.length := by
      simp only [List.length_map, List.length_range] at h1
      omega
    have := rd_append_right 2 p (utf16z u ++ l) (n * 2)
    simp only [List.getElem_map, List.getElem_range, List.getElem_take]
    rw [rd16, this, ← rd16, rd16_units hu l hn, List.getD_eq_getElem?_getD, List.getElem?_eq_getElem (by simp; omega),
      Option.getD_some]
  have hnonzero : ∀ c ∈ u, (c != 0) = true := fun c hc => by
    have := (hu c hc).1
    simp
    omega
  rw [regName, hmap]
  by_cases hlen : u.length < maxPathLen
  · rw [List.take_of_length_le (by simp; omega), List.take_of_length_le (by omega), List.takeWhile_append_of_pos hnonzero]
    simp
  · rw [List.take_append_of_le_length (by omega)]
    have hall : ∀ c ∈ u.take maxPathLen, (c != 0) = true := fun c hc => hnonzero c (List.mem_of_mem_take hc)
    simpa using @List.takeWhile_append_of_pos Nat (· != 0) (u.take maxPathLen) [] hall

/-- The comparison is that of the folded names, for every string the code can hold. -/
theorem regNameEq_units {u : List Nat} (hu : IsName u) (p l : List UInt8) {s : List UInt8} (hs : s.length < maxPathLen) :
    regNameEq (p ++ (utf16z u ++ l)) p.length (u.length + 1) s = (fold (units s) == fold u) := by
  rw [regNameEq, regName_units hu, Bool.eq_iff_iff, nameEqU16_iff, beq_iff_eq]
  by_cases hlen : u.length < maxPathLen
  · rw [List.take_of_length_le (by omega)]
    exact eq_comm
  · constructor
    · intro h
      have := congrArg List.length h
      simp only [fold_length, List.length_take, units_length] at this
      omega
    · intro h
      have := congrArg List.length h
      simp only [fold_length, units_length] at this
      omega

end Read

theorem putUtf16z_eq (s : List UInt8) : putUtf16z s = utf16z (units s) := by
  simp [putUtf16z, utf16z, units, List.flatMap_map]

theorem emitValue_eq (a : RegAdd) : regEmitValue a = a.toValue.record := by
  simp [regEmitValue, RegValue.record, RegAdd.toValue, putUtf16z_eq, utf16zLen]

theorem emitKey_eq (adds : List RegAdd) (a : RegAdd) : regEmitKey a.root a.key.val = (newKey adds a).record := by
  simp [regEmitKey, RegKey.record, newKey, putUtf16z_eq, utf16zLen, classChars, classBytes]

/-! ## The done marks -/

/-- The adds, those of the keys `ids` done. -/
def mark (ids : List (Nat × List Nat)) (adds : List RegAdd) : List RegAdd :=
  adds.map fun a => { a with done := decide (a.keyId ∈ ids) }

theorem mark_congr {ids ids' : List (Nat × List Nat)} {adds : List RegAdd}
    (h : ∀ a ∈ adds, (a.keyId ∈ ids ↔ a.keyId ∈ ids')) : mark ids adds = mark ids' adds :=
  List.map_congr_left fun a ha => by simp [h a ha]

theorem mark_nil {adds : List RegAdd} (h : ∀ a ∈ adds, a.done = false) : mark [] adds = adds := by
  conv_rhs => rw [← List.map_id adds]
  refine List.map_congr_left fun a ha => ?_
  have := h a ha
  cases a
  simp_all

theorem isFor_eq (a : RegAdd) (root : Nat) (key : List UInt8) : a.isFor root key = (a.keyId == (root, fold (units key))) := by
  rw [Bool.eq_iff_iff]
  simp [RegAdd.isFor, RegAdd.keyId, strIeq_iff]

theorem emitPending_marked {ids : List (Nat × List Nat)} (root : Nat) (key : List UInt8) (adds : List RegAdd)
    (h : (root, fold (units key)) ∉ ids) :
    regEmitPending root key (mark ids adds) = (((wins (root, fold (units key)) adds).map RegAdd.toValue).flatMap RegValue.record,
      mark ((root, fold (units key)) :: ids) adds) := by
  induction adds with
  | nil => rfl
  | cons a adds ih =>
    set id := (root, fold (units key)) with hid
    have hcons : mark ids (a :: adds) = { a with done := decide (a.keyId ∈ ids) } :: mark ids adds := rfl
    have hfor : ({ a with done := decide (a.keyId ∈ ids) } : RegAdd).isFor root key = (a.keyId == id) := isFor_eq a root key
    rw [hcons, regEmitPending, ih]
    simp only [hfor]
    by_cases hk : a.keyId = id
    · have hany : (mark ids adds).any (fun b => b.isFor root key && strIeq b.name.val a.name.val) =
          decide (∃ b ∈ adds, b.keyId = a.keyId ∧ b.nameId = a.nameId) := by
        rw [Bool.eq_iff_iff]
        simp only [mark, List.any_map, List.any_eq_true, Function.comp_apply, decide_eq_true_eq]
        refine exists_congr fun b => and_congr_right fun _ => ?_
        rw [show ({ b with done := decide (b.keyId ∈ ids) } : RegAdd).isFor root key = (b.keyId == id) from isFor_eq b root key,
          Bool.and_eq_true, beq_iff_eq, strIeq_iff, hk]
        rfl
      have hmark : ({ a with done := true } : RegAdd) :: mark (id :: ids) adds = mark (id :: ids) (a :: adds) := by
        simp [mark, hk]
      have hvalue : regEmitValue { a with done := decide (a.keyId ∈ ids) } = a.toValue.record := emitValue_eq a
      rw [if_neg (by simp [hk, h]), hany, hvalue, hmark]
      by_cases hlater : ∃ b ∈ adds, b.keyId = a.keyId ∧ b.nameId = a.nameId
      · rw [if_pos (decide_eq_true hlater), wins, if_neg fun h => h.2 hlater]
      · rw [if_neg (by rw [decide_eq_true_eq]; exact hlater), wins, if_pos ⟨hk, hlater⟩, List.map_cons, List.flatMap_cons]
    · have hmark : ({ a with done := decide (a.keyId ∈ ids) } : RegAdd) :: mark (id :: ids) adds = mark (id :: ids)
        (a :: adds) := by
        simp [mark, hk]
      rw [if_pos (by simp [hk]), wins, if_neg fun h => hk h.1, hmark]

/-! ## The old records -/

/-- `m` has just copied the record of `k`, with the keys `ids` done. -/
structure AtKey (adds : List RegAdd) (ids : List (Nat × List Nat)) (k : RegKey) (m : Merge) : Prop where
  marked : m.adds = mark ids adds
  curRoot : m.curRoot = k.root
  curKey : m.curKey = (adds.find? fun a => a.keyId == k.id).map fun a => a.key.val
  fresh : k.id ∉ ids

section Old

variable {adds : List RegAdd} {ids : List (Nat × List Nat)} {k : RegKey} {m : Merge}

theorem flush_atKey (h : AtKey adds ids k m) :
    m.flush.out = m.out ++ ((wins k.id adds).map RegAdd.toValue).flatMap RegValue.record ∧
      m.flush.adds = mark (k.id :: ids) adds := by
  cases hfind : adds.find? (fun a => a.keyId == k.id) with
  | none =>
    have hcur : m.curKey = none := by rw [h.curKey, hfind]; rfl
    have hno : ∀ a ∈ adds, a.keyId ≠ k.id := fun a ha => by simpa using List.find?_eq_none.mp hfind a ha
    have hwins : wins k.id adds = [] := by
      refine List.eq_nil_iff_forall_not_mem.mpr fun a ha => ?_
      obtain ⟨hmem, hid⟩ := mem_wins ha
      exact hno a hmem hid
    have hflush : m.flush = m := by simp [Merge.flush, hcur]
    rw [hflush, hwins]
    exact ⟨by simp, h.marked.trans (mark_congr fun a ha => by simp [hno a ha])⟩
  | some a =>
    have hcur : m.curKey = some a.key.val := by rw [h.curKey, hfind]; rfl
    have hid : a.keyId = k.id := by simpa using List.find?_some hfind
    have hkey : (m.curRoot, fold (units a.key.val)) = k.id := by
      rw [h.curRoot, ← hid]
      have := congrArg Prod.fst hid
      exact Prod.ext this.symm rfl
    have hpend := emitPending_marked m.curRoot a.key.val adds (by rw [hkey]; exact h.fresh)
    rw [hkey, ← h.marked] at hpend
    simp only [Merge.flush, hcur, hpend]
    exact ⟨trivial, trivial⟩

/-- A record in front of the rest: its length field is right, so the loop takes it. -/
theorem mergeRecords_append (m : Merge) (pos : Nat) {r : List UInt8} (tail : List UInt8) (hlen : r.length = 4 + rd16 r 0)
    (hpos : 0 < rd16 r 0) :
    mergeRecords m pos (r ++ tail) =
      match mergeRecord m r with
      | none => .error (.corrupt pos)
      | some m => mergeRecords m (pos + r.length) tail := by
  have hread : rd16 (r ++ tail) 0 = rd16 r 0 := rd_append_left (by omega)
  rw [mergeRecords]
  have hne : r ++ tail ≠ [] := fun h => by
    have := congrArg List.length h
    simp only [List.length_append, List.length_nil] at this
    omega
  rw [if_neg hne, if_neg (by simp only [List.length_append]; omega), hread,
    if_neg (by simp only [List.length_append]; omega), ← hlen, List.take_left]
  cases mergeRecord m r with
  | none => rfl
  | some m1 =>
    show mergeRecords m1 (pos + r.length) ((r ++ tail).drop r.length) = _
    rw [List.drop_left]

theorem value_bounds (v : RegValue) : v.name.length + 1 < 65536 ∧ v.data.length < 65536 ∧
    6 + (v.name.length + 1) * 2 + v.data.length < 65536 := by
  have := v.fits
  omega

theorem value_header (v : RegValue) :
    rd16 v.record 0 = 6 + (v.name.length + 1) * 2 + v.data.length ∧ rd16 v.record 2 = 2 ∧
      rd16 v.record 4 = v.type ∧ rd16 v.record 6 = v.name.length + 1 ∧ rd16 v.record 8 = v.data.length := by
  obtain ⟨h1, h2, h3⟩ := value_bounds v
  exact rd16_header h3 (by decide) v.type_lt h1 h2

theorem key_header (k : RegKey) :
    rd16 k.record 0 = 6 + (k.path.length + 1 + classChars k.cls) * 2 ∧ rd16 k.record 2 = 1 ∧
      rd16 k.record 4 = k.root ∧ rd16 k.record 6 = k.path.length + 1 ∧ rd16 k.record 8 = classChars k.cls := by
  have := k.fits
  exact rd16_header (by omega) (by decide) k.root_lt (by omega) (by omega)

/-- The name in a record, compared with a string. -/
theorem regNameEq_record {u : List Nat} (hu : IsName u) (a b c d e : Nat) (l : List UInt8) {s : List UInt8}
    (hs : s.length < maxPathLen) :
    regNameEq (le 2 a ++ (le 2 b ++ (le 2 c ++ (le 2 d ++ (le 2 e ++ (utf16z u ++ l)))))) 10 (u.length + 1) s =
      (fold (units s) == fold u) := by
  have h := regNameEq_units hu (le 2 a ++ (le 2 b ++ (le 2 c ++ (le 2 d ++ le 2 e)))) l hs
  simpa only [List.append_assoc, List.length_append, le_length] using h

theorem mergeRecord_value (h : AtKey adds ids k m) (v : RegValue) :
    mergeRecord m v.record = some (if overridden adds k.id v then m else { m with out := m.out ++ v.record }) := by
  obtain ⟨h0, h2, -, h6, -⟩ := value_header v
  have hover : ∀ key, m.curKey = some key → regValueOverridden m.adds m.curRoot key v.record (v.name.length + 1) =
      overridden adds k.id v := by
    intro key hkey
    rw [h.curKey] at hkey
    obtain ⟨a, hfind, rfl⟩ := Option.map_eq_some_iff.mp hkey
    have hid : a.keyId = k.id := by simpa using List.find?_some hfind
    have hcur : (m.curRoot, fold (units a.key.val)) = k.id := by
      rw [h.curRoot, ← hid]
      exact Prod.ext (congrArg Prod.fst hid).symm rfl
    rw [regValueOverridden, h.marked, mark, List.any_map, overridden]
    refine congrArg (fun p => List.any adds p) (funext fun b => ?_)
    have hfor : ({ b with done := decide (b.keyId ∈ ids) } : RegAdd).isFor m.curRoot a.key.val = (b.keyId == k.id) := by
      rw [isFor_eq, hcur]
      rfl
    have hname : regNameEq v.record 10 (v.name.length + 1) b.name.val = (b.nameId == v.id) :=
      regNameEq_record v.isName _ _ _ _ _ v.data (Nat.lt_of_lt_of_le b.name.fits (by decide))
    simp only [Function.comp_apply, hfor, hname]
  simp only [mergeRecord, h0, h2, h6]
  rw [if_neg (by decide), if_pos trivial, if_neg (by omega), if_neg (by omega)]
  cases hcur : m.curKey with
  | some key => simp only [hover key hcur]
  | none =>
    have hno : overridden adds k.id v = false := by
      rw [h.curKey] at hcur
      have hfind := Option.map_eq_none_iff.mp hcur
      simp only [overridden, List.any_eq_false, Bool.and_eq_true, beq_iff_eq, not_and]
      exact fun a ha hk => absurd (by simpa using hk) (List.find?_eq_none.mp hfind a ha)
    simp [hno]

theorem AtKey.withOut (h : AtKey adds ids k m) (o : List UInt8) : AtKey adds ids k { m with out := o } :=
  ⟨h.marked, h.curRoot, h.curKey, h.fresh⟩

/-- The values of the key: those an add names are left out. -/
theorem mergeRecords_values (h : AtKey adds ids k m) (pos : Nat) (values : List RegValue) (tail : List UInt8) :
    ∃ pos', mergeRecords m pos (values.flatMap RegValue.record ++ tail) =
      mergeRecords
        { m with out := m.out ++ (values.filter fun v => !overridden adds k.id v).flatMap RegValue.record } pos' tail := by
  induction values generalizing m pos with
  | nil => exact ⟨pos, by simp⟩
  | cons v values ih =>
    obtain ⟨h0, -⟩ := value_header v
    have hlen : v.record.length = 4 + rd16 v.record 0 := by
      rw [h0, value_record_length, RegValue.size]
      omega
    rw [List.flatMap_cons, List.append_assoc, mergeRecords_append m pos _ hlen (by omega), mergeRecord_value h v]
    by_cases hover : overridden adds k.id v = true
    · obtain ⟨pos', h'⟩ := ih h (pos + v.record.length)
      exact ⟨pos', by simpa [hover] using h'⟩
    · obtain ⟨pos', h'⟩ := ih (h.withOut (m.out ++ v.record)) (pos + v.record.length)
      exact ⟨pos', by simpa [hover] using h'⟩

/-- A key record, after the flush of the key before it. -/
theorem mergeRecord_key (hadds : m.flush.adds = mark ids adds) (hfresh : k.id ∉ ids) :
    ∃ m', mergeRecord m k.record = some m' ∧ AtKey adds ids k m' ∧ m'.out = m.flush.out ++ k.record := by
  obtain ⟨h0, h2, h4, h6, h8⟩ := key_header k
  have hpend : regKeyPending m.flush.adds k.root k.record (k.path.length + 1) =
      (adds.find? fun a => a.keyId == k.id).map fun a => a.key.val := by
    rw [regKeyPending, hadds, mark, List.find?_map, Option.map_map]
    have hp : ((fun a : RegAdd => a.root == k.root && regNameEq k.record 10 (k.path.length + 1) a.key.val) ∘
        fun a : RegAdd => { a with done := decide (a.keyId ∈ ids) }) = fun a => a.keyId == k.id := by
      funext a
      have hname : regNameEq k.record 10 (k.path.length + 1) a.key.val = (fold (units a.key.val) == fold k.path) :=
        regNameEq_record k.isName _ _ _ _ _ (classBytes k.cls) a.key.fits
      simp only [Function.comp_apply, hname]
      rfl
    rw [hp]
    rfl
  refine ⟨{ m.flush with
    out := m.flush.out ++ k.record
    curKey := regKeyPending m.flush.adds k.root k.record (k.path.length + 1)
    curRoot := k.root }, ?_, ⟨hadds, rfl, hpend, hfresh⟩, rfl⟩
  simp only [mergeRecord, h0, h2, h4, h6, h8]
  rw [if_pos trivial, if_neg (by omega), if_neg (by omega)]

/-- The old snapshot, key by key. -/
theorem mergeRecords_keys (adds : List RegAdd) (keys : List RegKey) :
    ∀ (m : Merge) (pos : Nat) (ids : List (Nat × List Nat)), m.flush.adds = mark ids adds → (∀ k ∈ keys, k.id ∉ ids) →
      (keys.Pairwise fun k l => k.id ≠ l.id) →
      ∃ m', mergeRecords m pos (keys.flatMap RegKey.records) = .ok m' ∧
        m'.flush.out = m.flush.out ++ (keys.map (mergeKey adds)).flatMap RegKey.records ∧
        m'.flush.adds = mark ((keys.map RegKey.id).reverse ++ ids) adds := by
  induction keys with
  | nil => exact fun m pos ids hadds _ _ => ⟨m, by rw [List.flatMap_nil, mergeRecords, if_pos rfl], by simp, by simpa using hadds⟩
  | cons k keys ih =>
    intro m pos ids hadds hfresh hunique
    obtain ⟨hk, hunique⟩ := List.pairwise_cons.mp hunique
    obtain ⟨h0, -⟩ := key_header k
    have hlen : k.record.length = 4 + rd16 k.record 0 := by
      rw [h0, key_record_length]
      omega
    obtain ⟨m1, hm1, hat, hout1⟩ := mergeRecord_key hadds (hfresh k List.mem_cons_self)
    obtain ⟨pos', hvalues⟩ := mergeRecords_values hat (pos + k.record.length) k.values (keys.flatMap RegKey.records)
    set m2 : Merge :=
      { m1 with out := m1.out ++ (k.values.filter fun v => !overridden adds k.id v).flatMap RegValue.record } with hm2
    obtain ⟨hout2, hadds2⟩ := flush_atKey (m := m2) (hat.withOut _)
    obtain ⟨m', h1, h2, h3⟩ := ih m2 pos' (k.id :: ids) hadds2
      (fun l hl hmem => by
        rcases List.mem_cons.mp hmem with h | h
        · exact hk l hl h.symm
        · exact hfresh l (List.mem_cons_of_mem k hl) h)
      hunique
    refine ⟨m', ?_, ?_, ?_⟩
    · rw [List.flatMap_cons, RegKey.records, List.append_assoc, mergeRecords_append m pos _ hlen (by omega), hm1]
      exact hvalues.trans h1
    · rw [h2, hout2, hm2, hout1]
      simp [RegKey.records, RegKey.record, mergeKey, mergedValues]
    · rw [h3]
      simp

end Old

/-! ## The new keys -/

theorem firsts_congr {seen seen' : List (Nat × List Nat)} (h : ∀ id, id ∈ seen ↔ id ∈ seen') (adds : List RegAdd) :
    firsts seen adds = firsts seen' adds := by
  induction adds generalizing seen seen' with
  | nil => rfl
  | cons a adds ih =>
    unfold firsts
    rw [ih h, ih (show ∀ id, id ∈ a.keyId :: seen ↔ id ∈ a.keyId :: seen' by simp [h])]
    simp [h]

theorem emitNew_marked (adds : List RegAdd) (n : Nat) :
    ∀ (i : Nat) (ids : List (Nat × List Nat)), i + n = adds.length →
      (emitNew n i (mark ids adds)).1 = ((firsts ids (adds.drop i)).map (newKey adds)).flatMap RegKey.records := by
  induction n with
  | zero =>
    intro i ids hi
    rw [List.drop_eq_nil_of_le (by omega)]
    rfl
  | succ n ih =>
    intro i ids hi
    have hlt : i < adds.length := by omega
    have hget : (mark ids adds)[i]? = some { adds[i] with done := decide (adds[i].keyId ∈ ids) } := by
      simp [mark, List.getElem?_eq_getElem hlt]
    rw [List.drop_eq_getElem_cons hlt, emitNew, hget, firsts]
    by_cases hdone : adds[i].keyId ∈ ids
    · simp only [hdone, decide_true, if_true]
      exact ih (i + 1) ids (by omega)
    · have hpend := emitPending_marked adds[i].root adds[i].key.val adds hdone
      simp only [hdone, decide_false, Bool.false_eq_true, if_false, hpend]
      have hrest := ih (i + 1) (adds[i].keyId :: ids) (by omega)
      simp only [RegAdd.keyId] at hrest ⊢
      rw [hrest]
      simp [emitKey_eq adds, RegKey.records, newKey, mergedValues, RegAdd.keyId]

/-! ## `regMerge` -/

theorem mark_length (ids : List (Nat × List Nat)) (adds : List RegAdd) : (mark ids adds).length = adds.length :=
  List.length_map _

theorem rd32_encode {s : Snapshot} (h : s.encode.length < 2 ^ 32) : rd32 s.encode 4 = s.encode.length := by
  have hlen : s.encode.length = 8 + s.body.length := by
    simp only [Snapshot.encode, List.length_append, le_length, regMagic, List.length_cons, List.length_nil]
    omega
  have := rd_at (w := 4) (n := 8 + s.body.length) (by omega) regMagic s.body
  rw [hlen]
  exact this

/-- The registry `reg_merge` is given: none, or the file of a snapshot. -/
def OldRegistry : Option (List UInt8) → Snapshot → Prop
  | none, s => s = Snapshot.empty
  | some b, s => WellFormed b s

theorem oldRecords_of {old : Option (List UInt8)} {s : Snapshot} (hold : OldRegistry old s) : oldRecords old = .ok s.body := by
  cases old with
  | none =>
    rw [show s = Snapshot.empty from hold]
    rfl
  | some b =>
    obtain ⟨rfl, hsize⟩ := (show WellFormed b s from hold)
    have hrd := rd32_encode hsize
    have hlen : ¬ s.encode.length < 8 := by
      simp only [Snapshot.encode, List.length_append, le_length, regMagic, List.length_cons, List.length_nil]
      omega
    have htake : s.encode.take 4 = regMagic := rfl
    have hdrop : s.encode.drop 8 = s.body := by
      have hpre : s.encode = (regMagic ++ le 4 (8 + s.body.length)) ++ s.body := by simp [Snapshot.encode]
      rw [hpre]
      exact List.drop_left' (by simp [regMagic])
    simp [oldRecords, hlen, htake, hrd, hdrop]

/-- On an absent or well-formed snapshot the merge succeeds, and what it writes is the file
    of the abstract merge. -/
theorem regMerge_spec {old : Option (List UInt8)} {s : Snapshot} (hold : OldRegistry old s) {adds : List RegAdd}
    (hfresh : ∀ a ∈ adds, a.done = false) : ∃ adds', regMerge old adds = .ok ((s.merge adds).encode, adds') := by
  have hrest := oldRecords_of hold
  obtain ⟨m, hm, hout, hadds⟩ := mergeRecords_keys adds s.keys ⟨[], adds, none, 0⟩ 8 []
    (by rw [mark_nil hfresh]; rfl) (by simp) s.unique
  have hnew := emitNew_marked adds adds.length 0 ((s.keys.map RegKey.id).reverse ++ []) (by omega)
  rw [List.drop_zero, firsts_congr (show ∀ id, id ∈ (s.keys.map RegKey.id).reverse ++ [] ↔
    id ∈ s.keys.map RegKey.id by simp)] at hnew
  have hlen : m.flush.adds.length = adds.length := by rw [hadds, mark_length]
  refine ⟨(emitNew adds.length 0 m.flush.adds).2, ?_⟩
  have hbody : m.flush.out ++ (emitNew adds.length 0 m.flush.adds).1 = (s.merge adds).body := by
    rw [hout, hadds, hnew]
    simp [Snapshot.body, Snapshot.merge, newKeys, Merge.flush]
  have hm' : mergeRecords ⟨[], adds, none, 0⟩ 8 s.body = .ok m := hm
  simp only [regMerge, hrest, hm', hlen, hbody, bind, Except.bind, pure, Except.pure]
  rfl

/-- What a merge must give: a well-formed snapshot in which every lookup finds the last add
    for it, or where no add names it the old value; with every key, class name and value
    of the old one that no add names. -/
def MergeOk (s : Snapshot) (adds : List RegAdd) (out : List UInt8) : Prop :=
  ∃ s', WellFormed out s' ∧
    (∀ root key name, s'.lookup root key name = (lastAdd adds root key name).or (s.lookup root key name)) ∧
    ∀ k ∈ s.keys, ∃ k' ∈ s'.keys, k'.root = k.root ∧ k'.path = k.path ∧ k'.cls = k.cls ∧
      ∀ v ∈ k.values, overridden adds k.id v = false → v ∈ k'.values

/-- A merge gives what it must exactly when the result's size fits the 32-bit field. -/
theorem merge_semantics_iff {old : Option (List UInt8)} {s : Snapshot} (hold : OldRegistry old s) {adds : List RegAdd}
    (hfresh : ∀ a ∈ adds, a.done = false) {out : List UInt8} {adds' : List RegAdd} (h : regMerge old adds = .ok (out, adds')) :
    MergeOk s adds out ↔ mergedSize s adds < 2 ^ 32 := by
  obtain ⟨adds'', hspec⟩ := regMerge_spec hold hfresh
  have hout : out = (s.merge adds).encode := by
    rw [h] at hspec
    cases hspec
    rfl
  subst hout
  have hlen := merge_length s adds
  constructor
  · rintro ⟨s', hwf, -⟩
    rw [← hlen]
    exact hwf.2
  · intro hsize
    exact ⟨s.merge adds, ⟨rfl, by rw [hlen]; exact hsize⟩, merge_lookup s adds, fun k hk => merge_keeps s adds hk⟩

theorem dword_fits {s : List UInt8} (h : s.length < 256) : 6 + (s.length + 1) * 2 + 4 ≤ 65535 := by omega

theorem hklm_lt : regRootHklm < 65536 := by decide

theorem sz_lt : regTypeSz < 65536 := by decide

theorem dword_lt : regTypeDword < 65536 := by decide

/-- A number under a name of a key. -/
def dwordAdd (key : CStr maxPathLen) (name : CStr 256) (n : UInt8) : RegAdd :=
  ⟨regRootHklm, key, name, regTypeDword, [n, 0, 0, 0], false, hklm_lt, dword_lt, dword_fits name.fits⟩

def dllName : List Nat := units (ascii "Dll")
def orderName : List Nat := units (ascii "Order")
def driverPath : List Nat := units (ascii "Drivers\\Serial")
def driverClass : List Nat := units (ascii "Preon")
def dllData : List UInt8 := putUtf16z (ascii "serial.dll")

/-- A driver's key with a class and two values. -/
def driver : Snapshot where
  keys :=
    [⟨regRootHklm, driverPath, some driverClass,
      [⟨dllName, regTypeSz, dllData, by unfold IsName dllName; decide, sz_lt, by decide⟩,
        ⟨orderName, regTypeDword, [1, 0, 0, 0], by unfold IsName orderName; decide, dword_lt, by decide⟩],
      by unfold IsName driverPath; decide, hklm_lt, by decide, by decide⟩]
  unique := List.pairwise_singleton _ _

set_option maxRecDepth 10000 in
theorem driver_old : OldRegistry (some driver.encode) driver := ⟨rfl, by decide⟩

/-- The number twice, in other case each time, and a value of a new key. -/
def driverAdds : List RegAdd :=
  [dwordAdd ⟨ascii "DRIVERS\\serial", by decide, by decide⟩ ⟨ascii "ORDER", by decide, by decide⟩ 2,
    dwordAdd ⟨ascii "Menu", by decide, by decide⟩ ⟨ascii "APPNO", by decide, by decide⟩ 8,
    dwordAdd ⟨ascii "drivers\\serial", by decide, by decide⟩ ⟨ascii "order", by decide, by decide⟩ 3]

theorem driverAdds_fresh : ∀ a ∈ driverAdds, a.done = false := by
  simp [driverAdds, dwordAdd]

theorem driver_small : mergedSize driver driverAdds < 2 ^ 32 := by decide

/-- The last number stands, the other value and the class are the old ones, the new key is there. -/
theorem merge_driver : ∃ out adds', regMerge (some driver.encode) driverAdds = .ok (out, adds') ∧ ∃ s', WellFormed out s' ∧
    s'.lookup regRootHklm driverPath orderName = some (regTypeDword, [3, 0, 0, 0]) ∧
    s'.lookup regRootHklm driverPath dllName = some (regTypeSz, dllData) ∧
    s'.lookup regRootHklm (units (ascii "menu")) (units (ascii "AppNo")) = some (regTypeDword, [8, 0, 0, 0]) ∧
    ∃ k ∈ s'.keys, k.path = driverPath ∧ k.cls = some driverClass := by
  obtain ⟨adds', h⟩ := regMerge_spec driver_old driverAdds_fresh
  obtain ⟨s', hwf, hlook, hkeep⟩ := (merge_semantics_iff driver_old driverAdds_fresh h).mpr driver_small
  refine ⟨_, adds', h, s', hwf, ?_, ?_, ?_, ?_⟩
  · rw [hlook]
    decide
  · rw [hlook]
    decide
  · rw [hlook]
    decide
  · obtain ⟨k, hk, -, hpath, hcls, -⟩ := hkeep _ List.mem_cons_self
    exact ⟨k, hk, hpath, hcls⟩

/-! ## A merge that outgrows its size field -/

section Big

variable {m n d : Nat} (hm : m < maxPathLen) (hn : n < 256) (hd : d ≤ 32500)

theorem letters_length (d : Nat) : (putUtf16z (List.replicate d 0x78) ++ le 2 0).length = d * 2 + 4 := by
  rw [putUtf16z_eq, List.length_append, utf16z_length, Lib.le_length, units, List.length_map, List.length_replicate]
  omega

/-- The value named by `j + 1` letters in the key of `i + 1` letters: one string of `d` letters. -/
def bigAdd (i : Fin m) (j : Fin n) : RegAdd where
  root := regRootHklm
  key := ⟨List.replicate (i + 1) 0x6B, by simp only [List.length_replicate]; omega, by simp⟩
  name := ⟨List.replicate (j + 1) 0x6E, by simp only [List.length_replicate]; omega, by simp⟩
  type := regTypeMultiSz
  data := putUtf16z (List.replicate d 0x78) ++ le 2 0
  done := false
  root_lt := by decide
  type_lt := by decide
  fits := by
    rw [letters_length, List.length_replicate]
    omega

/-- `HKLM,k…k,n…n,REG_MULTI_SZ,,x…x` -/
def bigFields (d : Nat) (i : Fin m) (j : Fin n) : List (List UInt8) :=
  [ascii "HKLM", List.replicate (i + 1) 0x6B, List.replicate (j + 1) 0x6E, ascii "REG_MULTI_SZ", [], List.replicate d 0x78]

theorem bigFields_plain (i : Fin m) (j : Fin n) : ∀ u ∈ bigFields d i j, IsPlain u ∧ 0 ∉ u := by
  have hletter : ∀ (k : Nat) (c : UInt8), IsPlain [c] ∧ c ≠ 0 → IsPlain (List.replicate k c) ∧ 0 ∉ List.replicate k c := by
    intro k c hc
    refine ⟨fun x hx => hc.1 x ?_, fun h0 => hc.2 (List.mem_replicate.mp h0).2.symm⟩
    rw [(List.mem_replicate.mp hx).2]
    exact List.mem_singleton_self c
  intro u hu
  simp only [bigFields, List.mem_cons, List.not_mem_nil, or_false] at hu
  rcases hu with rfl | rfl | rfl | rfl | rfl | rfl
  · decide
  · exact hletter _ _ (by decide)
  · exact hletter _ _ (by decide)
  · decide
  · decide
  · exact hletter _ _ (by decide)

def bigLine (d : Nat) (i : Fin m) (j : Fin n) : CString :=
  ⟨[0x2C].intercalate (bigFields d i j), noNul_join fun u hu => (bigFields_plain i j u hu).2⟩

/-- The line is accepted, with that value. -/
theorem bigLine_parsed (i : Fin m) (j : Fin n) : regParseLine 64 (infSplit (bigLine d i j)) = .ok (bigAdd hm hn hd i j) := by
  have hfields : (infSplit (bigLine d i j)).s = (bigFields d i j).map (⟨·, false⟩) :=
    splitLoop_plain (fun u hu => (bigFields_plain i j u hu).1) (show 5 < 64 by decide)
  generalize infSplit (bigLine d i j) = f at hfields ⊢
  have htext : ∀ k, f.text k = ((bigFields d i j)[k]?).getD [] := by
    intro k
    rw [InfFields.text, hfields, List.getElem?_map, Option.map_map]
    cases (bigFields d i j)[k]? <;> rfl
  have hroot : regRoot (f.text 0) = some regRootHklm := by
    rw [htext]
    exact (by decide : regRoot (ascii "HKLM") = some regRootHklm)
  have hdata : ∀ key name, regData 64 f key name = .ok (regTypeMultiSz, putUtf16z (List.replicate d 0x78) ++ le 2 0) := by
    intro key name
    have htype : f.text 3 = ascii "REG_MULTI_SZ" := htext 3
    unfold regData
    simp only [htype]
    rw [if_neg (by decide), if_neg (by decide), if_neg (by decide), if_pos (by decide), hfields]
    simp [bigFields]
  have hkey : f.text 1 = (bigAdd hm hn hd i j).key.val := htext 1
  have hname : f.text 2 = (bigAdd hm hn hd i j).name.val := htext 2
  have hfive : ¬ f.s.length < 5 := by
    rw [hfields]
    exact (by decide : ¬ 6 < 5)
  have hnamed : f.text 2 ≠ [] := by
    rw [hname]
    exact List.cons_ne_nil _ _
  have hlimits : ¬ (maxPathLen ≤ (f.text 1).length ∨ 256 ≤ (f.text 2).length ∨ f.text 1 = []) := by
    rw [hkey, hname]
    have h1 := (bigAdd hm hn hd i j).key.fits
    have h2 := (bigAdd hm hn hd i j).name.fits
    rintro (h | h | h)
    · omega
    · omega
    · cases h
  unfold regParseLine
  rw [if_neg hfive]
  split
  · rename_i hnone
    rw [hroot] at hnone
    cases hnone
  · rename_i root hsome
    rw [hroot] at hsome
    cases hsome
    rw [dif_neg hlimits]
    simp only
    split
    · rename_i e herror
      rw [hdata] at herror
      cases herror
    · rename_i type data hok
      rw [hdata] at hok
      cases hok
      have hlarge : ¬ (6 + utf16zLen (bigAdd hm hn hd i j).name.val +
        (putUtf16z (List.replicate d 0x78) ++ le 2 0).length > 65535 ∨
          6 + utf16zLen (bigAdd hm hn hd i j).key.val > 65535) := by
        have hvalue : 6 + utf16zLen (bigAdd hm hn hd i j).name.val + (putUtf16z (List.replicate d 0x78) ++ le 2 0).length ≤
          65535 :=
          (bigAdd hm hn hd i j).fits
        have hkeyLen := (bigAdd hm hn hd i j).key.fits
        unfold utf16zLen at hvalue ⊢
        unfold maxPathLen at hkeyLen
        omega
      simp only [hkey, hname]
      rw [hname] at hnamed
      simp only [if_neg hnamed]
      rw [dif_neg hlarge]
      rfl

/-- Every pair of a key and a name. -/
def bigPairs (m n : Nat) : List (Fin m × Fin n) := List.finRange m ×ˢ List.finRange n

def bigLines (m n d : Nat) : List CString := (bigPairs m n).map fun p => bigLine d p.1 p.2

def bigAdds : List RegAdd := (bigPairs m n).map fun p => bigAdd hm hn hd p.1 p.2

theorem bigLines_parsed :
    List.Forall₂ (fun line a => regParseLine 64 (infSplit line) = .ok a) (bigLines m n d) (bigAdds hm hn hd) := by
  rw [bigLines, bigAdds, List.forall₂_map_left_iff, List.forall₂_map_right_iff, List.forall₂_same]
  intro p _
  exact bigLine_parsed hm hn hd p.1 p.2

/-- No two of them name the same value. -/
theorem bigAdds_distinct : (bigAdds hm hn hd).Pairwise fun a b => ¬ (b.keyId = a.keyId ∧ b.nameId = a.nameId) := by
  have hnodup : (bigPairs m n).Nodup := List.Nodup.product (List.nodup_finRange m) (List.nodup_finRange n)
  refine List.pairwise_map.mpr (hnodup.imp ?_)
  rintro ⟨i, j⟩ ⟨i', j'⟩ hne ⟨hkey, hname⟩
  have hi := congrArg (fun x => x.2.length) hkey
  have hj := congrArg List.length hname
  simp only [bigAdd, RegAdd.keyId, RegAdd.nameId, fold, units, List.length_map, List.length_replicate,
    Nat.add_right_cancel_iff] at hi hj
  exact hne (by rw [Fin.ext hi, Fin.ext hj])

theorem lasts_distinct {adds : List RegAdd} (h : adds.Pairwise fun a b => ¬ (b.keyId = a.keyId ∧ b.nameId = a.nameId)) :
    lasts adds = adds := by
  induction adds with
  | nil => rfl
  | cons a adds ih =>
    obtain ⟨ha, hrest⟩ := List.pairwise_cons.mp h
    rw [lasts, if_neg (by rintro ⟨b, hb, heq⟩; exact ha b hb heq), ih hrest]

theorem bigAdds_size : m * n * (2 * d) ≤ mergedSize Snapshot.empty (bigAdds hm hn hd) := by
  have hall : ∀ x ∈ (bigAdds hm hn hd).map RegAdd.size, 2 * d ≤ x := by
    intro x hx
    obtain ⟨a, ha, rfl⟩ := List.mem_map.mp hx
    obtain ⟨p, -, rfl⟩ := List.mem_map.mp ha
    have hdata : (bigAdd hm hn hd p.1 p.2).data.length = d * 2 + 4 := letters_length d
    rw [RegAdd.size, hdata]
    omega
  have hsum := List.card_nsmul_le_sum _ _ hall
  have hlen : ((bigAdds hm hn hd).map RegAdd.size).length = m * n := by
    simp only [bigAdds, bigPairs, List.length_map, List.length_product, List.length_finRange]
  rw [hlen, nsmul_eq_mul, Nat.cast_id] at hsum
  rw [mergedSize, lasts_distinct (bigAdds_distinct hm hn hd)]
  omega

theorem bigAdds_fresh : ∀ a ∈ bigAdds hm hn hd, a.done = false := by
  intro a ha
  obtain ⟨p, -, rfl⟩ := List.mem_map.mp ha
  rfl

end Big

theorem hundreds_fit : 299 < maxPathLen := by decide

theorem large_sum : 2 ^ 32 ≤ 299 * 255 * (2 * 32500) := by decide

/-- 76245 accepted lines, each with a string of 32500 letters: the merge succeeds, and its result is not well formed. -/
theorem merge_overflows : ∃ lines adds out adds',
    List.Forall₂ (fun line a => regParseLine 64 (infSplit line) = .ok a) lines adds ∧ regMerge none adds = .ok (out, adds') ∧
    ¬ ∃ s', WellFormed out s' := by
  have hn : 255 < 256 := Nat.lt_succ_self _
  have hd : 32500 ≤ 32500 := Nat.le_refl _
  obtain ⟨adds', h⟩ := regMerge_spec (show OldRegistry none Snapshot.empty from rfl) (bigAdds_fresh hundreds_fit hn hd)
  refine ⟨_, _, _, adds', bigLines_parsed hundreds_fit hn hd, h, ?_⟩
  rintro ⟨s', -, hsize⟩
  rw [merge_length] at hsize
  have hlarge := large_sum.trans (bigAdds_size hundreds_fit hn hd)
  omega

/-! ## Merging again -/

/-- A file that does not say its own size is no registry. -/
theorem oldRecords_large {s : Snapshot} (h : 2 ^ 32 ≤ s.encode.length) : oldRecords (some s.encode) = .error .unknownFormat := by
  have hrd : rd32 s.encode 4 < 2 ^ 32 := Lib.rd_lt _ _ _
  rw [oldRecords, if_pos (.inr (.inr (by omega)))]

/-- Merging the same adds again gives the same file exactly when its size fits the 32-bit field. -/
theorem merge_again_iff {old : Option (List UInt8)} {s : Snapshot} (hold : OldRegistry old s) {adds : List RegAdd}
    (hfresh : ∀ a ∈ adds, a.done = false) {out : List UInt8} {adds' : List RegAdd} (h : regMerge old adds = .ok (out, adds')) :
    (∃ again, regMerge (some out) adds = .ok (out, again)) ↔ mergedSize s adds < 2 ^ 32 := by
  obtain ⟨adds'', hspec⟩ := regMerge_spec hold hfresh
  obtain ⟨rfl, -⟩ : out = (s.merge adds).encode ∧ adds' = adds'' := by
    rw [h] at hspec
    cases hspec
    exact ⟨rfl, rfl⟩
  rw [← merge_length]
  constructor
  · rintro ⟨again, hagain⟩
    by_contra hlarge
    have herror := oldRecords_large (Nat.not_lt.mp hlarge)
    simp only [regMerge, herror, bind, Except.bind] at hagain
    cases hagain
  · intro hsize
    have hwritten : OldRegistry (some (s.merge adds).encode) (s.merge adds) := ⟨rfl, hsize⟩
    obtain ⟨again, hagain⟩ := regMerge_spec hwritten hfresh
    rw [merge_twice] at hagain
    exact ⟨again, hagain⟩

set_option maxRecDepth 10000 in
theorem driver_grows : mergedSize driver driverAdds ≠ driver.encode.length := by decide

/-- The driver's lines, merged twice. -/
theorem merge_again_driver : ∃ out adds', regMerge (some driver.encode) driverAdds = .ok (out, adds') ∧
    out ≠ driver.encode ∧ ∃ again, regMerge (some out) driverAdds = .ok (out, again) := by
  obtain ⟨adds', h⟩ := regMerge_spec driver_old driverAdds_fresh
  have hagain := (merge_again_iff driver_old driverAdds_fresh h).mpr driver_small
  refine ⟨_, adds', h, ?_, hagain⟩
  intro heq
  have hlen := congrArg List.length heq
  rw [merge_length] at hlen
  exact driver_grows hlen

/-- The same 76245 lines: the merge succeeds, and no further one does. -/
theorem merge_again_fails : ∃ lines adds out adds',
    List.Forall₂ (fun line a => regParseLine 64 (infSplit line) = .ok a) lines adds ∧ regMerge none adds = .ok (out, adds') ∧
    ∀ more, regMerge (some out) more = .error .unknownFormat := by
  have hn : 255 < 256 := Nat.lt_succ_self _
  have hd : 32500 ≤ 32500 := Nat.le_refl _
  obtain ⟨adds', h⟩ := regMerge_spec (show OldRegistry none Snapshot.empty from rfl) (bigAdds_fresh hundreds_fit hn hd)
  refine ⟨_, _, _, adds', bigLines_parsed hundreds_fit hn hd, h, fun more => ?_⟩
  have hlarge := large_sum.trans (bigAdds_size hundreds_fit hn hd)
  rw [← merge_length] at hlarge
  rw [regMerge, oldRecords_large hlarge]
  rfl

end Be300.Cbea
