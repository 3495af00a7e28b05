/-
  Be300.Launcher.Config — a virtual machine's configuration, saved and loaded again
  (`src/launcher/vm_config_json.c`).

  What `vm_config_save` writes and `vm_config_load` reads back differ in two fields. A slot
  counts only up to the last card (`LastUsed`), and a MAC address that is not set is not
  written.
-/

import Be300.Launcher.Bundle

namespace Be300.Launcher

open Be300.Lib
open Be300.Cbea (ascii strtoul)

/-- NULL, or a text that an array of `cap` bytes holds. -/
def FitsIn (cap : Nat) (s : Option CStr) : Prop := ∀ t, s = some t → t ≠ [] ∧ t.length < cap

/-- The strings of a configuration fit the bundle's buffers. -/
structure MachineConfig.Fits (c : MachineConfig) : Prop where
  nandPath : FitsIn pathMax c.nandPath
  romPath : FitsIn pathMax c.romPath
  pcconnectBridge : FitsIn bridgeMax c.pcconnectBridge
  pcconnectTee : FitsIn pathMax c.pcconnectTee
  serial0Bridge : FitsIn bridgeMax c.serial0Bridge
  serial0Tee : FitsIn pathMax c.serial0Tee
  serial1Bridge : FitsIn bridgeMax c.serial1Bridge
  serial1Tee : FitsIn pathMax c.serial1Tee
  cfPaths : ∀ s, FitsIn pathMax (c.cfPaths s)

/-- `n` is one past the last slot that has a card. -/
structure LastUsed (paths : Fin maxCfSlots → Option CStr) (n : Nat) : Prop where
  above : ∀ s, n ≤ s.val → paths s = none
  last : n = 0 ∨ ∃ s, s.val + 1 = n ∧ paths s ≠ none

section Items

variable {c : MachineConfig} {k : String}

/-- No key is written twice. -/
theorem configFields_keys (c : MachineConfig) : ((configFields c).map Prod.fst).Nodup := by
  simp [configFields]

theorem getObjectItem_saved {v : Option Json} (h : (k, v) ∈ configFields c) : getObjectItem (vmConfigSave c) k = v :=
  lookup_written (configFields_keys c) h

theorem getBool_saved {b d : Bool} (h : (k, some (.bool b)) ∈ configFields c) : getBool (vmConfigSave c) k d = b := by
  rw [getBool, getObjectItem_saved h]

theorem getNumber_saved {q d : ℚ} (h : (k, some (.number q)) ∈ configFields c) : getNumber (vmConfigSave c) k d = q := by
  rw [getNumber, getObjectItem_saved h]

theorem uint32_double (n : UInt32) : uint32 (double n) = n := by
  rw [uint32, double, Int.floor_natCast, Int.toNat_natCast, UInt32.ofNat_toNat]

theorem uint32_saved {n : UInt32} {d : ℚ} (h : (k, some (.number (double n))) ∈ configFields c) :
    uint32 (getNumber (vmConfigSave c) k d) = n := by
  rw [getNumber_saved h, uint32_double]

theorem stringToDock_dockToString (d : Dock) : stringToDock (some (dockToString d)) = d := by
  cases d <;> decide

theorem bound_getD {cap : Nat} {s : Option CStr} (h : FitsIn cap s) : bound (s.getD []) = s := by
  cases s with
  | none => rfl
  | some t => rw [Option.getD_some, bound, if_neg (h t rfl).1]

theorem snprintf_fits {cap : Nat} {s : CStr} (h : s.length < cap) : snprintf cap s = s :=
  List.take_of_length_le (by omega)

theorem copyStringField_saved {cap : Nat} {s : Option CStr} (hfits : FitsIn cap s) (h : (k, s.map Json.string) ∈ configFields c) :
    copyStringField cap (vmConfigSave c) k = s.getD [] := by
  rw [copyStringField, getObjectItem_saved h]
  cases s with
  | none => rfl
  | some t => exact snprintf_fits (hfits t rfl).2

theorem bound_saved {cap : Nat} {s : Option CStr} (hfits : FitsIn cap s) (h : (k, s.map Json.string) ∈ configFields c) :
    bound (copyStringField cap (vmConfigSave c) k) = s := by
  rw [copyStringField_saved hfits h, bound_getD hfits]

end Items

/-! ## The card slots -/

section Slots

variable {buf : Fin maxCfSlots → CStr} {i n : Nat}

/-- One past the last of these slots, from `i` on, that has a card, and else `n`. -/
def usedFrom : Nat → List (Option CStr) → Nat → Nat
  | _, [], n => n
  | i, p :: ps, n => usedFrom (i + 1) ps (if p = none then n else i + 1)

theorem loadSlots_paths {ps : List (Option CStr)} (hfits : ∀ p ∈ ps, FitsIn pathMax p) :
    loadSlots i (ps.map fun p => .string (p.getD [])) buf n =
      (fun j => if j.val < i then buf j else (ps[j.val - i]?.map fun p => p.getD []).getD (buf j), usedFrom i ps n) := by
  induction ps generalizing i buf n with
  | nil => simp [loadSlots, usedFrom]
  | cons p rest ih =>
    have hrest := fun q hq => hfits q (List.mem_cons_of_mem p hq)
    have hslot : ∀ j : Fin maxCfSlots, (if j.val < i + 1 then setSlot buf i (p.getD []) j
          else (rest[j.val - (i + 1)]?.map fun q => q.getD []).getD (setSlot buf i (p.getD []) j)) =
        if j.val < i then buf j else ((p :: rest)[j.val - i]?.map fun q => q.getD []).getD (buf j) := by
      intro j
      rcases Nat.lt_trichotomy j.val i with hlt | heq | hgt
      · rw [if_pos (by omega), if_pos hlt, setSlot, if_neg (by omega)]
      · rw [if_pos (by omega), if_neg (by omega), setSlot, if_pos heq, heq, Nat.sub_self]
        rfl
      · rw [if_neg (by omega), if_neg (by omega), setSlot, if_neg (by omega),
          show j.val - i = j.val - (i + 1) + 1 from by omega, List.getElem?_cons_succ]
    rw [List.map_cons]
    cases p with
    | none => rw [loadSlots, Option.getD_none, if_pos rfl, ih hrest, usedFrom, if_pos rfl, ← funext hslot]; rfl
    | some t =>
      have ht := hfits (some t) List.mem_cons_self t rfl
      rw [loadSlots, Option.getD_some, if_neg ht.1, snprintf_fits ht.2, ih hrest, usedFrom, if_neg (Option.some_ne_none t),
        ← funext hslot]
      rfl

theorem usedFrom_spec (ps : List (Option CStr)) (hn : n ≤ i) :
    n ≤ usedFrom i ps n ∧ (∀ j t, ps[j]? = some (some t) → i + j < usedFrom i ps n) ∧
      (usedFrom i ps n = n ∨ ∃ j t, ps[j]? = some (some t) ∧ i + j + 1 = usedFrom i ps n) := by
  induction ps generalizing i n with
  | nil => exact ⟨Nat.le_refl n, fun j t h => absurd h (by simp), Or.inl rfl⟩
  | cons p rest ih =>
    rw [usedFrom]
    cases p with
    | none =>
      rw [if_pos rfl]
      rcases ih (show n ≤ i + 1 by omega) with ⟨hle, hall, hlast⟩
      refine ⟨hle, ?_, hlast.imp_right ?_⟩
      · rintro (_ | j) t hj
        · cases hj
        · have := hall j t hj
          omega
      · rintro ⟨j, t, hj, hr⟩
        exact ⟨j + 1, t, hj, by omega⟩
    | some u =>
      rw [if_neg (Option.some_ne_none u)]
      rcases ih (Nat.le_refl (i + 1)) with ⟨hle, hall, hlast⟩
      refine ⟨by omega, ?_, Or.inr ?_⟩
      · rintro (_ | j) t hj
        · omega
        · have := hall j t hj
          omega
      · rcases hlast with hr | ⟨j, t, hj, hr⟩
        · exact ⟨0, u, rfl, by omega⟩
        · exact ⟨j + 1, t, hj, by omega⟩

end Slots

/-- The paths of the slots in use. -/
def MachineConfig.slots (c : MachineConfig) (s : Fin maxCfSlots) : Option CStr := if s.val < c.cfCount then c.cfPaths s else none

theorem MachineConfig.slots_getElem (c : MachineConfig) (s : Fin maxCfSlots) :
    ((List.ofFn c.cfPaths).take c.cfCount)[s.val]? = if s.val < c.cfCount then some (c.cfPaths s) else none := by
  rw [List.getElem?_take, List.getElem?_ofFn, dif_pos s.isLt]

theorem loadPaths_saved {c : MachineConfig} (hfits : ∀ s, FitsIn pathMax (c.cfPaths s)) (path name : CStr) :
    ∃ n, loadPaths (zeroed path name) (vmConfigSave c) = (fun s => (c.slots s).getD [], n) ∧ LastUsed c.slots n := by
  have hitem := getObjectItem_saved (c := c) (k := "cf_paths")
    (v := some (.array (((List.ofFn c.cfPaths).take c.cfCount).map fun p => .string (p.getD [])))) (by simp [configFields])
  have hshort : (((List.ofFn c.cfPaths).take c.cfCount).map fun p => Json.string (p.getD [])).length ≤ maxCfSlots := by
    rw [List.length_map, List.length_take, List.length_ofFn]
    exact Nat.min_le_right _ _
  have hall : ∀ p ∈ (List.ofFn c.cfPaths).take c.cfCount, FitsIn pathMax p := by
    intro p hp
    rcases List.mem_ofFn.mp (List.mem_of_mem_take hp) with ⟨s, rfl⟩
    exact hfits s
  refine ⟨usedFrom 0 ((List.ofFn c.cfPaths).take c.cfCount) 0, ?_, ?_, ?_⟩
  · rw [loadPaths, hitem]
    simp only
    rw [List.take_of_length_le hshort, loadSlots_paths hall]
    congr 1
    funext s
    rw [if_neg (Nat.not_lt_zero _), Nat.sub_zero, c.slots_getElem, MachineConfig.slots]
    split <;> rfl
  · intro s hs
    rw [MachineConfig.slots]
    split
    · rename_i hlt
      cases hpath : c.cfPaths s with
      | none => rfl
      | some t =>
        have hlist := c.slots_getElem s
        rw [if_pos hlt, hpath] at hlist
        have := (usedFrom_spec _ (Nat.le_refl 0)).2.1 s.val t hlist
        omega
    · rfl
  · rcases (usedFrom_spec ((List.ofFn c.cfPaths).take c.cfCount) (Nat.le_refl 0)).2.2 with hzero | ⟨j, t, hj, hr⟩
    · exact Or.inl hzero
    · have hlen := (List.getElem?_eq_some_iff.mp hj).1
      rw [List.length_take, List.length_ofFn] at hlen
      have hlist := c.slots_getElem ⟨j, by omega⟩
      simp only at hlist
      rw [hj] at hlist
      rw [Nat.zero_add] at hr
      refine Or.inr ⟨⟨j, by omega⟩, hr, ?_⟩
      rw [MachineConfig.slots]
      split at hlist
      · rename_i hlt
        rw [if_pos hlt, ← Option.some.inj hlist]
        exact Option.some_ne_none t
      · cases hlist

/-! ## The MAC address -/

section Mac

theorem hexDigit_digit :
    ∀ n < 16, Cbea.isHex (hexDigit n) = true ∧ Cbea.hexDigit (hexDigit n) = n ∧ Cbea.isSpace (hexDigit n) = false ∧
    hexDigit n ≠ 0x2D ∧ hexDigit n ≠ 0x2B ∧ hexDigit n ≠ 0x78 ∧ hexDigit n ≠ 0x58 := by
  decide

theorem scanHex_hexByte (b : UInt8) (rest : CStr) (hrest : ∀ x ∈ rest.head?, Cbea.isHex x = false) :
    Cbea.scanHex (hexByte b ++ rest) = some (false, hexByte b, rest) := by
  have hb := b.toNat_lt
  rcases hexDigit_digit (b.toNat / 16) (by omega) with ⟨hhex, -, hspace, hminus, hplus, -, -⟩
  rcases hexDigit_digit (b.toNat % 16) (by omega) with ⟨hhex', -, -, -, -, hx, hX⟩
  have htake : rest.takeWhile Cbea.isHex = [] := by
    cases rest with
    | nil => rfl
    | cons x rest => rw [List.takeWhile_cons_of_neg (by rw [hrest x rfl]; exact Bool.false_ne_true)]
  have hdrop : rest.dropWhile Cbea.isHex = rest := by
    have := List.takeWhile_append_dropWhile (p := Cbea.isHex) (l := rest)
    rwa [htake, List.nil_append] at this
  unfold Cbea.scanHex
  rw [hexByte, List.cons_append, List.cons_append, List.nil_append, List.dropWhile_cons_of_neg (by simp [hspace])]
  split
  rename_i neg s hsign
  split at hsign
  · rename_i heq
    exact absurd (List.cons.inj heq).1 hminus
  · rename_i heq
    exact absurd (List.cons.inj heq).1 hplus
  · cases hsign
    have hrun : (hexDigit (b.toNat / 16) :: hexDigit (b.toNat % 16) :: rest).takeWhile Cbea.isHex = hexByte b := by
      rw [List.takeWhile_cons_of_pos hhex, List.takeWhile_cons_of_pos hhex', htake, hexByte]
    have hleft : (hexDigit (b.toNat / 16) :: hexDigit (b.toNat % 16) :: rest).dropWhile Cbea.isHex = rest := by
      rw [List.dropWhile_cons_of_pos hhex, List.dropWhile_cons_of_pos hhex', hdrop]
    simp only
    split
    · -- no `0x` begins the number: its second character is a digit
      rename_i heq
      have hnot (d : UInt8) : ¬((hexDigit (b.toNat % 16) = 0x78 ∨ hexDigit (b.toNat % 16) = 0x58) ∧ Cbea.isHex d = true) :=
        fun h => h.1.elim hx hX
      simp only [← (List.cons.inj (List.cons.inj heq).2).1]
      rw [if_neg (hnot _), hrun, hleft, if_neg (by simp [hexByte])]
      rfl
    · rw [hrun, hleft, if_neg (by simp [hexByte])]
      rfl

theorem hexNat_hexByte (b : UInt8) : Cbea.hexNat (hexByte b) = b.toNat := by
  have hb := b.toNat_lt
  rw [hexByte, Cbea.hexNat]
  simp only [List.foldl_cons, List.foldl_nil]
  rw [(hexDigit_digit (b.toNat / 16) (by omega)).2.1, (hexDigit_digit (b.toNat % 16) (by omega)).2.1]
  omega

theorem strtoul_hexByte (b : UInt8) (rest : CStr) (hrest : ∀ x ∈ rest.head?, Cbea.isHex x = false) :
    strtoul 64 (hexByte b ++ rest) = (b.toNat, rest) := by
  have hb := b.toNat_lt
  rw [strtoul, scanHex_hexByte b rest hrest]
  simp only [hexNat_hexByte]
  rw [if_neg (by omega), if_neg Bool.false_ne_true]

/-- The numbers of an address that is written in full. -/
theorem scanFields_bytes (bytes : List UInt8) (hne : bytes ≠ []) :
    scanFields bytes.length (List.intercalate [colon] (bytes.map hexByte)) = some (bytes.map UInt8.toNat) := by
  induction bytes with
  | nil => exact absurd rfl hne
  | cons b rest ih =>
    have hb := b.toNat_lt
    cases rest with
    | nil =>
      have hread := strtoul_hexByte b [] (by simp)
      have hscan := scanHex_hexByte b [] (by simp)
      rw [List.append_nil] at hread hscan
      rw [List.map_cons, List.map_nil, List.intercalate_singleton, List.length_singleton, scanFields, hscan]
      simp only [hread, if_true]
      rw [Nat.mod_eq_of_lt (by omega)]
      rfl
    | cons b' rest =>
      have hcolon : ∀ x ∈ ([colon] ++ List.intercalate [colon] ((b' :: rest).map hexByte)).head?, Cbea.isHex x = false := by
        rintro x hx
        cases hx
        decide
      rw [List.map_cons, List.map_cons, List.intercalate_cons_cons, ← List.map_cons, List.length_cons, scanFields,
        List.append_assoc,
        scanHex_hexByte b _ hcolon]
      simp only [strtoul_hexByte b _ hcolon]
      rw [if_neg (by simp), List.cons_append, List.nil_append]
      simp only
      rw [if_pos trivial, ih (by simp), Nat.mod_eq_of_lt (by omega)]
      rfl

theorem storeMac_bytes (mac : Vector UInt8 6) (l : List UInt8) (i : Nat) (h : i + l.length = 6) :
    (storeMac mac i (l.map UInt8.toNat)).1 = true ∧ (storeMac mac i (l.map UInt8.toNat)).2.toList = mac.toList.take i ++ l := by
  induction l generalizing mac i with
  | nil =>
    rw [List.length_nil] at h
    rw [List.map_nil, storeMac, List.append_nil, List.take_of_length_le (by simp; omega)]
    exact ⟨rfl, rfl⟩
  | cons b rest ih =>
    have hb := b.toNat_lt
    rw [List.length_cons] at h
    have hrest := ih (mac.setIfInBounds i b) (i + 1) (by omega)
    rw [List.map_cons, storeMac, if_neg (by omega), UInt8.ofNat_toNat]
    refine ⟨hrest.1, ?_⟩
    have hi : i < mac.toList.length := by
      rw [Vector.length_toList]
      omega
    rw [hrest.2, Vector.toList_setIfInBounds, List.take_succ_eq_append_getElem (by rwa [List.length_set]),
      List.take_set_of_le (Nat.le_refl i),
      List.getElem_set_self, List.append_assoc, List.singleton_append]

/-- A MAC address is read as it was written. -/
theorem parseMacStr_macToString (mac old : Vector UInt8 6) : parseMacStr (macToString mac) old = (true, mac) := by
  have hscan := scanFields_bytes mac.toList (by rw [← List.length_pos_iff_ne_nil, Vector.length_toList]; decide)
  rw [Vector.length_toList] at hscan
  have hstore := storeMac_bytes old mac.toList 0 (by simp)
  rw [parseMacStr, macToString, hscan]
  exact Prod.ext hstore.1 (Vector.toList_inj.mp (by rw [hstore.2]; rfl))

end Mac

/-! ## The round trip -/

/-- What is loaded of a configuration that was saved, where `n` slots are used. -/
def MachineConfig.reloaded (c : MachineConfig) (n : Nat) : MachineConfig :=
  { c with cfPaths := c.slots, cfCount := n, netMac := if c.netMacSet then c.netMac else Vector.replicate 6 0 }

theorem loadMac_saved (c : MachineConfig) :
    loadMac (vmConfigSave c) = (c.netMacSet, if c.netMacSet then c.netMac else Vector.replicate 6 0) := by
  have hitem := getObjectItem_saved (c := c) (k := "net_mac")
    (v := if c.netMacSet then some (.string (macToString c.netMac)) else none) (by simp [configFields])
  rw [loadMac, getString, hitem]
  cases c.netMacSet with
  | false => rfl
  | true => exact parseMacStr_macToString c.netMac _

/-- The bundle whose buffers hold the strings of a configuration. -/
def stored (path name : CStr) (c : MachineConfig) : Bundle where
  path := path
  name := name
  cfg := c
  nandPathBuf := c.nandPath.getD []
  cfPathBuf := fun s => (c.cfPaths s).getD []
  romPathBuf := c.romPath.getD []
  pcconnectBridgeBuf := c.pcconnectBridge.getD []
  pcconnectTeeBuf := c.pcconnectTee.getD []
  serial0BridgeBuf := c.serial0Bridge.getD []
  serial0TeeBuf := c.serial0Tee.getD []
  serial1BridgeBuf := c.serial1Bridge.getD []
  serial1TeeBuf := c.serial1Tee.getD []

theorem slots_fit {c : MachineConfig} (h : c.Fits) (s : Fin maxCfSlots) : FitsIn pathMax (c.slots s) := by
  rw [MachineConfig.slots]
  split
  · exact h.cfPaths s
  · exact fun t ht => absurd ht (by simp)

/-- The configuration of what is loaded, its pointers set. -/
theorem loadRoot_saved_cfg {c : MachineConfig} (h : c.Fits) {path name : CStr} {n : Nat}
    (hpaths : loadPaths (zeroed path name) (vmConfigSave c) = (fun s => (c.slots s).getD [], n)) :
    (loadRoot (vmConfigSave c) (zeroed path name)).cfg = c.reloaded n := by
  have hslots : (fun s => bound ((c.slots s).getD [])) = c.slots := funext fun s => bound_getD (slots_fit h s)
  have hdock : stringToDock (getString (vmConfigSave c) "pcconnect_dock") = c.pcconnectDock := by
    rw [getString, getObjectItem_saved (v := some (.string (dockToString c.pcconnectDock))) (by simp [configFields])]
    exact stringToDock_dockToString c.pcconnectDock
  rw [loadRoot, hpaths, loadMac_saved]
  simp only [rebindStrings, MachineConfig.reloaded]
  rw [hslots, hdock]
  congr 1
  case e_nandPath => exact bound_saved h.nandPath (by simp [configFields])
  case e_romPath => exact bound_saved h.romPath (by simp [configFields])
  case e_pcconnectBridge => exact bound_saved h.pcconnectBridge (by simp [configFields])
  case e_pcconnectTee => exact bound_saved h.pcconnectTee (by simp [configFields])
  case e_serial0Bridge => exact bound_saved h.serial0Bridge (by simp [configFields])
  case e_serial0Tee => exact bound_saved h.serial0Tee (by simp [configFields])
  case e_serial1Bridge => exact bound_saved h.serial1Bridge (by simp [configFields])
  case e_serial1Tee => exact bound_saved h.serial1Tee (by simp [configFields])
  all_goals first
    | exact getBool_saved (by simp [configFields])
    | exact uint32_saved (by simp [configFields])

theorem loadRoot_saved {c : MachineConfig} (h : c.Fits) (path name : CStr) :
    ∃ n, loadRoot (vmConfigSave c) (zeroed path name) = stored path name (c.reloaded n) ∧ LastUsed c.slots n := by
  rcases loadPaths_saved h.cfPaths path name with ⟨n, hpaths, hn⟩
  have hcfg := loadRoot_saved_cfg h hpaths
  refine ⟨n, ?_, hn⟩
  have hbuffers : loadRoot (vmConfigSave c) (zeroed path name) =
      { stored path name (c.reloaded n) with cfg := (loadRoot (vmConfigSave c) (zeroed path name)).cfg } := by
    rw [loadRoot, hpaths]
    simp only [rebindStrings, stored, MachineConfig.reloaded, zeroed]
    rw [copyStringField_saved h.nandPath (by simp [configFields]), copyStringField_saved h.romPath (by simp [configFields]),
      copyStringField_saved h.pcconnectBridge (by simp [configFields]),
        copyStringField_saved h.pcconnectTee (by simp [configFields]),
      copyStringField_saved h.serial0Bridge (by simp [configFields]), copyStringField_saved h.serial0Tee (by simp [configFields]),
      copyStringField_saved h.serial1Bridge (by simp [configFields]), copyStringField_saved h.serial1Tee (by simp [configFields])]
  rw [hbuffers, hcfg]
  rfl

/-- A saved configuration is loaded again, except that the slots count up to the last card. -/
theorem config_round_trip {c : MachineConfig} (h : c.Fits) (path name : CStr) :
    ∃ vm n, vmConfigLoad (.root (vmConfigSave c)) (zeroed path name) = .ok vm ∧ vm.cfg = c.reloaded n ∧ LastUsed c.slots n := by
  rcases loadRoot_saved h path name with ⟨n, hload, hn⟩
  exact ⟨_, n, rfl, by rw [hload]; rfl, hn⟩

/-- Two slots, a card in the first. -/
def emptyLastSlot : MachineConfig :=
  { applyDefaults with cfPaths := fun s => if s.val = 0 then some (ascii "/cf0.img") else none, cfCount := 2 }

theorem fitsIn_none (cap : Nat) : FitsIn cap none := nofun

theorem fitsIn_some {cap : Nat} {t : CStr} (hne : t ≠ []) (hlt : t.length < cap) : FitsIn cap (some t) := by
  intro u hu
  cases hu
  exact ⟨hne, hlt⟩

theorem emptyLastSlot_fits : emptyLastSlot.Fits where
  nandPath := fitsIn_none _
  romPath := fitsIn_none _
  pcconnectBridge := fitsIn_none _
  pcconnectTee := fitsIn_none _
  serial0Bridge := fitsIn_none _
  serial0Tee := fitsIn_none _
  serial1Bridge := fitsIn_none _
  serial1Tee := fitsIn_none _
  cfPaths := by
    intro s t h
    simp only [emptyLastSlot] at h
    split at h
    · cases h
      decide
    · cases h

/-- A machine in its dock, with a log of the serial line and a MAC address of its own; a card in
    the first slot of two. -/
def docked : MachineConfig :=
  { emptyLastSlot with
    restore := true, targetMhz := 166, serial1Baud := 115200, scale := 3 / 2, pcconnectDock := .usbSync
    nandPath := some (ascii "/nand.img"), serial0Tee := some (ascii "/log"), pcconnectBridge := some (ascii "tcp:9000")
    netMac := #v[2, 0, 0, 0, 0, 9], netMacSet := true }

theorem docked_fits : docked.Fits :=
  { emptyLastSlot_fits with
    nandPath := fitsIn_some (by decide) (by decide)
    serial0Tee := fitsIn_some (by decide) (by decide)
    pcconnectBridge := fitsIn_some (by decide) (by decide) }

theorem config_round_trip_docked :
    ∃ vm n, vmConfigLoad (.root (vmConfigSave docked)) (zeroed (ascii "/vms/A.be300vm") (ascii "A")) = .ok vm ∧
      vm.cfg = docked.reloaded n ∧ LastUsed docked.slots n ∧ vm.cfg.netMac = docked.netMac ∧
        vm.cfg.serial0Tee = docked.serial0Tee ∧
      vm.cfg.pcconnectDock = docked.pcconnectDock := by
  obtain ⟨vm, n, hload, hcfg, hn⟩ := config_round_trip docked_fits (ascii "/vms/A.be300vm") (ascii "A")
  refine ⟨vm, n, hload, hcfg, hn, ?_, ?_, ?_⟩
  · rw [hcfg]
    rfl
  · rw [hcfg]
    rfl
  · rw [hcfg]
    rfl

/-- The empty slot at the end is forgotten. -/
theorem emptyLastSlot_forgotten :
    ¬ ∀ c : MachineConfig, c.Fits → ∃ vm, vmConfigLoad (.root (vmConfigSave c))
      (zeroed (ascii "/vms/A.be300vm") (ascii "A")) = .ok vm ∧
      vm.cfg.cfCount = c.cfCount ∧ vm.cfg.cfPaths = c.cfPaths := by
  intro h
  rcases h emptyLastSlot emptyLastSlot_fits with ⟨vm, hload, hcount, -⟩
  have hone : (vmConfigLoad (.root (vmConfigSave emptyLastSlot)) (zeroed (ascii "/vms/A.be300vm") (ascii "A"))).toOption.map
      (fun vm => vm.cfg.cfCount) = some 1 := by
    decide
  rw [hload] at hone
  exact absurd (hcount.symm.trans (Option.some.inj hone)) (by decide)

end Be300.Launcher
