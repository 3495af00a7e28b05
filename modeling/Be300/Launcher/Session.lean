/-
  Be300.Launcher.Session — what the launcher does with one virtual machine: it creates it,
  imports images, edits, renames and saves it, in any order and with any outcome.

  `Owned` says of an imported image's buffer that it is empty or names the file in the
  bundle's own directory. Renames keep it where every root is short enough for the paths to
  fit (`session_owned`). A saved bundle is found again in its directory
  (`session_reopened`).
-/

import Be300.Launcher.Rename

namespace Be300.Launcher

open Be300.Cbea (ascii)

/-- What the settings view may change. -/
structure Edit where
  cfg : MachineConfig
  romPathBuf : CStr
  pcconnectBridgeBuf : CStr
  pcconnectTeeBuf : CStr
  serial0BridgeBuf : CStr
  serial0TeeBuf : CStr
  serial1BridgeBuf : CStr
  serial1TeeBuf : CStr

/-- The edited texts come from buffers like those they are copied to. -/
structure Edit.Fits (e : Edit) : Prop where
  paths : ∀ p ∈ [e.romPathBuf, e.pcconnectTeeBuf, e.serial0TeeBuf, e.serial1TeeBuf], p.length < pathMax
  bridges : ∀ b ∈ [e.pcconnectBridgeBuf, e.serial0BridgeBuf, e.serial1BridgeBuf], b.length < bridgeMax

def Edit.apply (e : Edit) (vm : Bundle) : Bundle :=
  rebindStrings { vm with
    cfg := { e.cfg with cfCount := vm.cfg.cfCount }
    romPathBuf := e.romPathBuf
    pcconnectBridgeBuf := e.pcconnectBridgeBuf
    pcconnectTeeBuf := e.pcconnectTeeBuf
    serial0BridgeBuf := e.serial0BridgeBuf
    serial0TeeBuf := e.serial0TeeBuf
    serial1BridgeBuf := e.serial1BridgeBuf
    serial1TeeBuf := e.serial1TeeBuf }

inductive Op
  | importNand (src : CStr)
  | importCf (slot : Nat) (src : CStr)
  | edit (e : Edit)
  | rename (newName : CStr)
  | save

/-- The bundle after a call. -/
def Op.run (host : Host) (vm : Bundle) : Op → Bundle
  | .importNand src => (vmBundleImportNand host vm src).2
  | .importCf slot src => (vmBundleImportCf host vm slot src).2
  | .edit e => e.apply vm
  | .rename newName => match vmBundleRename host vm newName with
    | .ok vm => vm
    | .error _ => vm
  | .save => vm

def runOps (vm : Bundle) : List (Host × Op) → Bundle
  | [] => vm
  | (host, op) :: ops => runOps (op.run host vm) ops

/-! ## What every call keeps -/

/-- The longest root directory for which no path of a bundle is cut. -/
def rootMax : Nat := 800

/-- A call on the system the launcher is built for, with a root that is not too long and edited texts that fit. -/
structure Proper (windows : Bool) (call : Host × Op) : Prop where
  windows : call.1.windows = windows
  root : ∀ root, call.1.rootDir = some root → root.length ≤ rootMax
  edit : ∀ e, call.2 = .edit e → e.Fits

/-- An imported file's buffer: empty, or the file in the bundle's directory. -/
def Owned (sep : UInt8) (dir buf file : CStr) : Prop := buf = [] ∨ buf = dir ++ [sep] ++ file

structure Inv (sep : UInt8) (vm : Bundle) : Prop where
  fits : vm.Fits
  place : ∃ root clean name, root.length ≤ rootMax ∧ sanitizeName name = .ok clean ∧ vm.path = bundleDir sep root clean ∧
    vm.name = clean
  nand : Owned sep vm.path vm.nandPathBuf (ascii "nand.bin")
  cards : ∀ s, Owned sep vm.path (vm.cfPathBuf s) (cfName s.val)
  unused : ∀ s : Fin maxCfSlots, vm.cfg.cfCount ≤ s.val → vm.cfPathBuf s = []

section Keeps

variable {host : Host} {vm vm' : Bundle} {sep : UInt8} {root clean name p : CStr}

theorem bundleDir_length (sep : UInt8) (h : sanitizeName name = .ok clean) (hroot : root.length ≤ rootMax) :
    (bundleDir sep root clean).length ≤ rootMax + 136 := by
  have hclean := (sanitizeName_fits h).1
  have hsuffix : vmSuffix.length = 8 := by decide
  rw [bundleDir, List.length_append, List.length_append, List.length_append, List.length_singleton, hsuffix]
  simp only [nameMax] at hclean
  omega

theorem Inv.path_length (h : Inv sep vm) : vm.path.length ≤ rootMax + 136 := by
  rcases h.place with ⟨root, clean, name, hroot, hclean, hpath, -⟩
  rw [hpath]
  exact bundleDir_length sep hclean hroot

theorem cfName_length (s : Fin maxCfSlots) : (cfName s.val).length = 7 := by
  revert s
  decide

theorem inside_whole (h : vm.path.length ≤ rootMax + 136) {file : CStr} (hfile : file.length ≤ 16) :
    inside sep vm.path file = vm.path ++ [sep] ++ file := by
  refine snprintf_fits ?_
  rw [List.length_append, List.length_append, List.length_singleton]
  simp only [rootMax, pathMax] at h ⊢
  omega

theorem mem_paths :
    p ∈ vm.paths ↔ p = vm.nandPathBuf ∨ p = vm.romPathBuf ∨ (∃ s, vm.cfPathBuf s = p) ∨ p = vm.pcconnectTeeBuf ∨
      p = vm.serial0TeeBuf ∨ p = vm.serial1TeeBuf := by
  simp only [Bundle.paths, List.cons_append, List.mem_cons, List.mem_append, List.mem_ofFn, List.not_mem_nil, or_false]

/-- The bundle that `vm_bundle_create` makes. -/
theorem create_keeps (hname : sanitizeName name = .ok clean) (hroot : root.length ≤ rootMax) :
    Inv sep (rebindStrings (zeroed (bundlePath sep root clean) (snprintf nameMax clean))) := by
  have hclean := sanitizeName_fits hname
  have hlen := bundleDir_length sep hname hroot
  have hpath : bundlePath sep root clean = bundleDir sep root clean := snprintf_fits (hlen.trans_lt (by decide))
  have hempty : ∀ p ∈ (rebindStrings (zeroed (bundlePath sep root clean) (snprintf nameMax clean))).paths, p = [] := by
    intro p hp
    rcases mem_paths.mp hp with rfl | rfl | ⟨s, rfl⟩ | rfl | rfl | rfl <;> rfl
  refine ⟨⟨?_, ?_, ?_, ?_, rfl⟩, ⟨root, clean, name, hroot, hname, hpath, snprintf_fits hclean.1⟩, Or.inl rfl,
    fun s => Or.inl rfl, fun s _ => rfl⟩
  · show (bundlePath sep root clean).length < pathMax
    rw [hpath]
    exact hlen.trans_lt (by decide)
  · show (snprintf nameMax clean).length < nameMax
    rw [snprintf_fits hclean.1]
    exact hclean.1
  · intro p hp
    rw [hempty p hp]
    decide
  · intro b hb
    have hmem : b ∈ List.replicate 3 [] := hb
    rw [List.eq_of_mem_replicate hmem]
    decide

theorem Inv.setNand (h : Inv sep vm) (buf : CStr) (howned : Owned sep vm.path buf (ascii "nand.bin"))
    (hlen : buf.length < pathMax) :
    Inv sep (rebindStrings { vm with nandPathBuf := buf }) := by
  refine ⟨⟨h.fits.path, h.fits.name, ?_, h.fits.bridges, rfl⟩, h.place, howned, h.cards, h.unused⟩
  intro p hp
  rcases mem_paths.mp hp with rfl | hrest
  · exact hlen
  · exact h.fits.paths p (mem_paths.mpr (Or.inr hrest))

theorem Owned.fits {dir buf file : CStr} (h : Owned sep dir buf file) (hdir : dir.length ≤ rootMax + 136)
    (hfile : file.length ≤ 16) :
    buf.length < pathMax := by
  rcases h with rfl | rfl
  · decide
  · rw [List.length_append, List.length_append, List.length_singleton]
    simp only [rootMax, pathMax] at hdir ⊢
    omega

theorem importNand_keeps (h : Inv host.sep vm) (src : CStr) : Inv host.sep (vmBundleImportNand host vm src).2 := by
  have hpath := h.path_length
  have howned : Owned host.sep vm.path (inside host.sep vm.path (ascii "nand.bin")) (ascii "nand.bin") :=
    Or.inr (inside_whole hpath (by decide))
  unfold vmBundleImportNand
  simp only
  split
  · exact h.setNand [] (Or.inl rfl) (by decide)
  · exact h.setNand _ howned (howned.fits hpath (by decide))

theorem Inv.setCard (h : Inv sep vm) (slot : Fin maxCfSlots) (buf : CStr) {count : Nat}
    (howned : Owned sep vm.path buf (cfName slot.val))
    (hcount : vm.cfg.cfCount ≤ count) (hslot : buf = [] ∨ slot.val < count) :
    Inv sep (rebindStrings
      { vm with cfPathBuf := setSlot vm.cfPathBuf slot.val buf, cfg := { vm.cfg with cfCount := count } }) := by
  have hat : ∀ s : Fin maxCfSlots, s = slot ∧ setSlot vm.cfPathBuf slot.val buf s = buf ∨
      s ≠ slot ∧ setSlot vm.cfPathBuf slot.val buf s = vm.cfPathBuf s := by
    intro s
    by_cases heq : s = slot
    · exact Or.inl ⟨heq, if_pos (congrArg Fin.val heq)⟩
    · exact Or.inr ⟨heq, if_neg fun hval => heq (Fin.ext hval)⟩
  refine ⟨⟨h.fits.path, h.fits.name, ?_, h.fits.bridges, rfl⟩, h.place, h.nand, ?_, ?_⟩
  · intro p hp
    rcases mem_paths.mp hp with hnand | hrom | ⟨s, rfl⟩ | htees
    · exact h.fits.paths p (mem_paths.mpr (Or.inl hnand))
    · exact h.fits.paths p (mem_paths.mpr (Or.inr (Or.inl hrom)))
    · rcases hat s with ⟨-, hs⟩ | ⟨-, hs⟩
      · have hlen := howned.fits h.path_length (by rw [cfName_length]; decide)
        exact (congrArg List.length hs).trans_lt hlen
      · have hlen := h.fits.paths (vm.cfPathBuf s) (mem_paths.mpr (Or.inr (Or.inr (Or.inl ⟨s, rfl⟩))))
        exact (congrArg List.length hs).trans_lt hlen
    · exact h.fits.paths p (mem_paths.mpr (Or.inr (Or.inr (Or.inr htees))))
  · intro s
    rcases hat s with ⟨rfl, hs⟩ | ⟨-, hs⟩
    · show Owned sep vm.path (setSlot vm.cfPathBuf s.val buf s) (cfName s.val)
      rw [hs]
      exact howned
    · show Owned sep vm.path (setSlot vm.cfPathBuf slot.val buf s) (cfName s.val)
      rw [hs]
      exact h.cards s
  · intro s hs
    rcases hat s with ⟨rfl, heq⟩ | ⟨-, heq⟩
    · exact heq.trans (hslot.resolve_right (Nat.not_lt.mpr hs))
    · exact heq.trans (h.unused s (Nat.le_trans hcount hs))

theorem importCf_keeps (h : Inv host.sep vm) (slot : Nat) (src : CStr) : Inv host.sep (vmBundleImportCf host vm slot src).2 := by
  unfold vmBundleImportCf
  split
  · exact h
  · rename_i hslot
    have hlt : slot < maxCfSlots := by omega
    have howned : Owned host.sep vm.path (inside host.sep vm.path (cfName slot)) (cfName slot) :=
      Or.inr (inside_whole h.path_length (by rw [cfName_length ⟨slot, hlt⟩]; decide))
    simp only
    split
    · exact h.setCard ⟨slot, hlt⟩ [] (Or.inl rfl) (Nat.le_refl _) (Or.inl rfl)
    · split
      · rename_i hcount
        exact h.setCard ⟨slot, hlt⟩ _ howned (Nat.le_succ_of_le hcount) (Or.inr (Nat.lt_succ_self slot))
      · rename_i hcount
        exact h.setCard ⟨slot, hlt⟩ _ howned (Nat.le_refl _) (Or.inr (Nat.not_le.mp hcount))

theorem edit_keeps (h : Inv sep vm) {e : Edit} (he : e.Fits) : Inv sep (e.apply vm) := by
  refine ⟨⟨h.fits.path, h.fits.name, ?_, he.bridges, rfl⟩, h.place, h.nand, h.cards, h.unused⟩
  intro p hp
  rcases mem_paths.mp hp with hnand | rfl | hcards | rfl | rfl | rfl
  · exact h.fits.paths p (mem_paths.mpr (Or.inl hnand))
  · exact he.paths _ (by simp [Edit.apply, rebindStrings])
  · exact h.fits.paths p (mem_paths.mpr (Or.inr (Or.inr (Or.inl hcards))))
  · exact he.paths _ (by simp [Edit.apply, rebindStrings])
  · exact he.paths _ (by simp [Edit.apply, rebindStrings])
  · exact he.paths _ (by simp [Edit.apply, rebindStrings])

theorem rebaseOwnedPath_length (hp : p.length < pathMax) {dir dir' : CStr} :
    (rebaseOwnedPath pathMax p dir dir').length < pathMax := by
  unfold rebaseOwnedPath
  split
  · exact hp
  · split
    · rw [snprintf, List.length_take]
      simp only [pathMax]
      omega
    · exact hp

/-- An imported file goes with the directory. -/
theorem Owned.rebase {dir dir' buf file : CStr} (h : Owned sep dir buf file) (hdir : dir.length ≤ rootMax + 136)
    (hdir' : dir'.length ≤ rootMax + 136) (hfile : file.length ≤ 16) : Owned sep dir'
      (rebaseOwnedPath pathMax buf dir dir') file := by
  have hlen := h.fits hdir hfile
  rcases h with rfl | rfl
  · exact Or.inl rfl
  · have hlies : LiesIn sep dir (dir ++ [sep] ++ file) := by
      rw [List.append_assoc]
      exact ⟨⟨_, rfl⟩, by rw [List.drop_left]; simp [isSep]⟩
    have hsafe : SafePath sep dir dir' (dir ++ [sep] ++ file) := by
      intro _ rest hrest
      rw [List.append_assoc] at hrest
      rw [← List.append_cancel_left hrest, if_pos hlies, List.length_append, List.length_singleton]
      simp only [rootMax, pathMax] at hdir' ⊢
      omega
    rw [(rebaseOwnedPath_iff hlen).mpr hsafe, moved, if_pos ⟨by simp, hlies⟩, List.append_assoc, List.drop_left,
      ← List.append_assoc]
    exact Or.inr rfl

theorem rename_keeps (h : Inv host.sep vm) (hroot : ∀ root, host.rootDir = some root → root.length ≤ rootMax)
    (hok : vmBundleRename host vm name = .ok vm') : Inv host.sep vm' := by
  rcases rename_cases hok with ⟨-, rfl⟩ | ⟨clean, root, hclean, -, hrootDir, rfl⟩
  · exact h
  · have hold := h.path_length
    have hnew := bundleDir_length host.sep hclean (hroot root hrootDir)
    have hbundle : bundlePath host.sep root clean = bundleDir host.sep root clean := snprintf_fits (hnew.trans_lt (by decide))
    have hpath : snprintf pathMax (bundleDir host.sep root clean) = bundleDir host.sep root clean :=
      snprintf_fits (hnew.trans_lt (by decide))
    have hname : snprintf nameMax clean = clean := snprintf_fits (sanitizeName_fits hclean).1
    have hpaths := rebased_paths h.fits.path clean (bundleDir host.sep root clean)
    rw [hbundle]
    refine ⟨⟨?_, ?_, ?_, h.fits.bridges, rfl⟩, ⟨root, clean, name, hroot root hrootDir, hclean, hpath, hname⟩, ?_, fun s => ?_,
      fun s hs => ?_⟩
    · exact (congrArg List.length hpath).trans_lt (hnew.trans_lt (by decide))
    · exact (congrArg List.length hname).trans_lt (sanitizeName_fits hclean).1
    · intro p hp
      rw [hpaths] at hp
      rcases List.mem_map.mp hp with ⟨q, hq, rfl⟩
      exact rebaseOwnedPath_length (h.fits.paths q hq)
    · show Owned host.sep (snprintf pathMax (bundleDir host.sep root clean))
        (rebaseOwnedPath pathMax vm.nandPathBuf (snprintf pathMax vm.path) (bundleDir host.sep root clean)) (ascii "nand.bin")
      rw [hpath, snprintf_fits h.fits.path]
      exact h.nand.rebase hold hnew (by decide)
    · show Owned host.sep (snprintf pathMax (bundleDir host.sep root clean))
        (rebaseOwnedPath pathMax (vm.cfPathBuf s) (snprintf pathMax vm.path) (bundleDir host.sep root clean)) (cfName s.val)
      rw [hpath, snprintf_fits h.fits.path]
      exact (h.cards s).rebase hold hnew (by rw [cfName_length]; decide)
    · show rebaseOwnedPath pathMax (vm.cfPathBuf s) (snprintf pathMax vm.path) (bundleDir host.sep root clean) = []
      rw [h.unused s hs]
      rfl

theorem op_keeps {windows : Bool} {op : Op} (h : Inv (pathSep windows) vm) (hcall : Proper windows (host, op)) :
    Inv (pathSep windows) (op.run host vm) := by
  have hsep : host.sep = pathSep windows := congrArg pathSep hcall.windows
  rw [← hsep] at h ⊢
  cases op with
  | importNand src => exact importNand_keeps h src
  | importCf slot src => exact importCf_keeps h slot src
  | edit e => exact edit_keeps h (hcall.edit e rfl)
  | rename newName =>
    rw [Op.run]
    split
    · rename_i hok
      exact rename_keeps h hcall.root hok
    · exact h
  | save => exact h

theorem run_keeps {windows : Bool} {ops : List (Host × Op)} (h : Inv (pathSep windows) vm)
    (hops : ∀ call ∈ ops, Proper windows call) :
    Inv (pathSep windows) (runOps vm ops) := by
  induction ops generalizing vm with
  | nil => exact h
  | cons call ops ih =>
    exact ih (op_keeps h (hops call List.mem_cons_self)) fun c hc => hops c (List.mem_cons_of_mem call hc)

theorem created_inv {file : CStr × JsonObject} (hroot : ∀ root, host.rootDir = some root → root.length ≤ rootMax)
    (h : vmBundleCreate host name = .ok (vm, file)) : Inv host.sep vm := by
  unfold vmBundleCreate at h
  split at h
  · cases h
  · rename_i root hrootDir
    split at h
    · cases h
    · split at h
      · cases h
      · rename_i clean hclean
        simp only at h
        split at h
        · cases h
        · split at h
          · cases h
          · split at h
            · cases h
            · cases h
              exact create_keeps hclean (hroot root hrootDir)

end Keeps

/-! ## A bundle is found again -/

section Reopened

variable {windows : Bool} {host : Host} {vm vm₀ : Bundle} {root clean name : CStr} {ops : List (Host × Op)}

theorem suffix_plain : ∀ b ∈ vmSuffix, isSep (pathSep windows) b = false := by
  have hall : (vmSuffix.all fun b => !isSep (pathSep windows) b) = true := by cases windows <;> rfl
  intro b hb
  have hb := List.all_eq_true.mp hall b hb
  rwa [Bool.not_eq_true'] at hb

theorem clean_plain (h : sanitizeName name = .ok clean) : ∀ b ∈ clean, isSep (pathSep windows) b = false := by
  intro b hb
  have hforbidden := (sanitizeName_fits h).2.2 b hb
  simp only [forbidden, Bool.or_eq_false_iff] at hforbidden
  cases windows with
  | true => simp [isSep, pathSep, hforbidden]
  | false => simp [isSep, pathSep, hforbidden]

theorem stripSlash_bundleDir :
    stripSlash (pathSep windows) (bundleDir (pathSep windows) root clean) = bundleDir (pathSep windows) root clean := by
  have hlast : (bundleDir (pathSep windows) root clean).getLast? = some 0x6D := by
    rw [bundleDir, List.getLast?_append]
    rfl
  have hplain : isSep (pathSep windows) 0x6D = false := by cases windows <;> decide
  rw [stripSlash, hlast]
  simp [hplain]

theorem baseName_bundleDir (h : sanitizeName name = .ok clean) :
    baseName (pathSep windows) (bundleDir (pathSep windows) root clean) = clean ++ vmSuffix := by
  have hplain : ∀ b ∈ (clean ++ vmSuffix).reverse, (!isSep (pathSep windows) b) = true := by
    intro b hb
    rw [List.mem_reverse, List.mem_append] at hb
    rcases hb with hb | hb
    · rw [clean_plain h b hb]
      rfl
    · rw [suffix_plain b hb]
      rfl
  have hsep : (!isSep (pathSep windows) (pathSep windows)) = false := by simp [isSep]
  have hdir : (bundleDir (pathSep windows) root clean).reverse = (clean ++ vmSuffix).reverse ++
    pathSep windows :: root.reverse := by
    simp [bundleDir]
  rw [baseName, hdir, List.takeWhile_append_of_pos hplain, List.takeWhile_cons_of_neg (by rw [hsep]; exact Bool.false_ne_true),
    List.append_nil, List.reverse_reverse]

theorem bundleName_bundleDir (h : sanitizeName name = .ok clean) :
    bundleName (pathSep windows) (bundleDir (pathSep windows) root clean) = clean := by
  have hclean := sanitizeName_fits h
  have hpos := List.length_pos_iff_ne_nil.mpr hclean.2.1
  have hlen : (clean ++ vmSuffix).length - vmSuffix.length = clean.length := by
    rw [List.length_append]
    omega
  rw [bundleName, baseName_bundleDir h]
  rw [if_pos ⟨by rw [List.length_append]; omega, ⟨clean, rfl⟩⟩, hlen, List.take_left]
  exact List.take_of_length_le (by simp only [nameMax] at hclean ⊢; omega)

theorem bound_fits {cap : Nat} {buf : CStr} (h : buf.length < cap) : FitsIn cap (bound buf) := by
  intro t ht
  unfold bound at ht
  split at ht
  · cases ht
  · rename_i hne
    cases ht
    exact ⟨hne, h⟩

theorem getD_bound (buf : CStr) : (bound buf).getD [] = buf := by
  unfold bound
  split
  · rename_i h
    exact h.symm
  · rfl

/-- The strings of a bundle's configuration are in its buffers. -/
theorem Bundle.Fits.cfg (h : vm.Fits) : vm.cfg.Fits := by
  have hpath : ∀ p ∈ vm.paths, FitsIn pathMax (bound p) := fun p hp => bound_fits (h.paths p hp)
  have hbridge : ∀ b ∈ vm.bridges, FitsIn bridgeMax (bound b) := fun b hb => bound_fits (h.bridges b hb)
  rw [← h.pointers]
  constructor
  case nandPath => exact hpath _ (by simp [Bundle.paths])
  case romPath => exact hpath _ (by simp [Bundle.paths])
  case pcconnectBridge => exact hbridge _ (by simp [Bundle.bridges])
  case pcconnectTee => exact hpath _ (by simp [Bundle.paths])
  case serial0Bridge => exact hbridge _ (by simp [Bundle.bridges])
  case serial0Tee => exact hpath _ (by simp [Bundle.paths])
  case serial1Bridge => exact hbridge _ (by simp [Bundle.bridges])
  case serial1Tee => exact hpath _ (by simp [Bundle.paths])
  case cfPaths => exact fun s => hpath _ (mem_paths.mpr (Or.inr (Or.inr (Or.inl ⟨s, rfl⟩))))

/-- All slots with a card are in use. -/
theorem slots_all (hbound : rebindStrings vm = vm) (h : ∀ s : Fin maxCfSlots, vm.cfg.cfCount ≤ s.val → vm.cfPathBuf s = []) :
    vm.cfg.slots = vm.cfg.cfPaths := by
  funext s
  rw [MachineConfig.slots]
  split
  · rfl
  · rename_i hs
    have hpath : vm.cfg.cfPaths s = bound (vm.cfPathBuf s) := by
      conv_lhs => rw [← hbound]
      rfl
    rw [hpath, h s (by omega)]
    rfl

/-- What is loaded for a bundle is the bundle, its slots counted again. -/
theorem stored_eq (hbound : rebindStrings vm = vm) (h : ∀ s : Fin maxCfSlots, vm.cfg.cfCount ≤ s.val → vm.cfPathBuf s = [])
    (n : Nat) :
    stored vm.path vm.name (vm.cfg.reloaded n) = { vm with cfg := vm.cfg.reloaded n } := by
  have hslots : (fun s => (vm.cfg.slots s).getD []) = vm.cfPathBuf := by
    funext s
    rw [slots_all hbound h]
    exact (congrArg (fun v => (v.cfg.cfPaths s).getD []) hbound).symm.trans (getD_bound _)
  unfold stored MachineConfig.reloaded
  congr 1
  case e_nandPathBuf => exact (congrArg (fun v => v.cfg.nandPath.getD []) hbound).symm.trans (getD_bound _)
  case e_romPathBuf => exact (congrArg (fun v => v.cfg.romPath.getD []) hbound).symm.trans (getD_bound _)
  case e_pcconnectBridgeBuf => exact (congrArg (fun v => v.cfg.pcconnectBridge.getD []) hbound).symm.trans (getD_bound _)
  case e_pcconnectTeeBuf => exact (congrArg (fun v => v.cfg.pcconnectTee.getD []) hbound).symm.trans (getD_bound _)
  case e_serial0BridgeBuf => exact (congrArg (fun v => v.cfg.serial0Bridge.getD []) hbound).symm.trans (getD_bound _)
  case e_serial0TeeBuf => exact (congrArg (fun v => v.cfg.serial0Tee.getD []) hbound).symm.trans (getD_bound _)
  case e_serial1BridgeBuf => exact (congrArg (fun v => v.cfg.serial1Bridge.getD []) hbound).symm.trans (getD_bound _)
  case e_serial1TeeBuf => exact (congrArg (fun v => v.cfg.serial1Tee.getD []) hbound).symm.trans (getD_bound _)

/-- A bundle that keeps the invariant is found in its directory as it was saved. -/
theorem Inv.reopened (h : Inv (pathSep windows) vm) (files : CStr → ConfigFile)
    (hfile : files (configPath (pathSep windows) vm.path) = .root (vmConfigSave vm.cfg)) :
    ∃ n, loadBundleAt (pathSep windows) files vm.path = .ok { vm with cfg := vm.cfg.reloaded n } ∧
      (vm.cfg.reloaded n).cfPaths = vm.cfg.cfPaths ∧ LastUsed vm.cfg.cfPaths n := by
  rcases h.place with ⟨root, clean, name, hroot, hclean, hpath, hname⟩
  have hlen : vm.path.length < pathMax := h.fits.path
  have hstrip : stripSlash (pathSep windows) vm.path = vm.path := by rw [hpath, stripSlash_bundleDir]
  have hbundle : bundleName (pathSep windows) vm.path = vm.name := by rw [hpath, bundleName_bundleDir hclean, hname]
  rcases loadRoot_saved h.fits.cfg vm.path vm.name with ⟨n, hload, hlast⟩
  have hslots : vm.cfg.slots = vm.cfg.cfPaths := slots_all h.fits.pointers h.unused
  refine ⟨n, ?_, hslots, hslots ▸ hlast⟩
  rw [loadBundleAt, if_neg (Nat.not_le.mpr hlen), hstrip]
  simp only
  rw [hbundle, hfile]
  show Except.ok (rebindStrings (loadRoot (vmConfigSave vm.cfg) (zeroed vm.path vm.name))) = _
  rw [show rebindStrings (loadRoot (vmConfigSave vm.cfg) (zeroed vm.path vm.name)) = loadRoot (vmConfigSave vm.cfg)
    (zeroed vm.path vm.name) from rfl,
    hload, stored_eq h.fits.pointers h.unused]

/-- Whatever is done with a virtual machine, its imported images stay its own. -/
theorem session_owned {file : CStr × JsonObject} (hcreate : vmBundleCreate host name = .ok (vm₀, file))
    (hroot : ∀ root, host.rootDir = some root → root.length ≤ rootMax) (hops : ∀ call ∈ ops, Proper host.windows call) :
    (runOps vm₀ ops).Fits ∧ Owned host.sep (runOps vm₀ ops).path (runOps vm₀ ops).nandPathBuf (ascii "nand.bin") ∧
      ∀ s, Owned host.sep (runOps vm₀ ops).path ((runOps vm₀ ops).cfPathBuf s) (cfName s.val) :=
  have h := run_keeps (created_inv hroot hcreate) hops
  ⟨h.fits, h.nand, h.cards⟩

/-- Two images imported, then a new name. -/
def threeCalls : List (Host × Op) :=
  [(obliging, .importNand (ascii "/n.bin")), (obliging, .importCf 1 (ascii "/c.img")), (obliging, .rename (ascii "B"))]

theorem threeCalls_proper : ∀ call ∈ threeCalls, Proper obliging.windows call := by
  intro call hcall
  simp only [threeCalls, List.mem_cons, List.not_mem_nil, or_false] at hcall
  have hroot : ∀ root, obliging.rootDir = some root → root.length ≤ rootMax := by
    intro root h
    cases h
    decide
  rcases hcall with rfl | rfl | rfl
  · exact ⟨rfl, hroot, fun e h => by cases h⟩
  · exact ⟨rfl, hroot, fun e h => by cases h⟩
  · exact ⟨rfl, hroot, fun e h => by cases h⟩

/-- The bundle that is created under the name A. -/
def createdA : Bundle := rebindStrings (zeroed (bundlePath slash (ascii "/r") (ascii "A")) (snprintf nameMax (ascii "A")))

theorem session_owned_renamed :
    (runOps createdA threeCalls).Fits ∧
      Owned obliging.sep (runOps createdA threeCalls).path (runOps createdA threeCalls).nandPathBuf (ascii "nand.bin") ∧
      ∀ s, Owned obliging.sep (runOps createdA threeCalls).path ((runOps createdA threeCalls).cfPathBuf s) (cfName s.val) :=
  session_owned (show vmBundleCreate obliging (ascii "A") = .ok (createdA, _) from rfl)
    (fun root h => by cases h; decide) threeCalls_proper

/-- Whatever is done with a virtual machine, once it is saved its directory opens as what was saved. -/
theorem session_reopened {file obj : CStr × JsonObject} {host' : Host} (hcreate : vmBundleCreate host name = .ok (vm₀, file))
    (hroot : ∀ root, host.rootDir = some root → root.length ≤ rootMax) (hops : ∀ call ∈ ops, Proper host.windows call)
    (hsys : host'.windows = host.windows) (hsave : vmBundleSave host' (runOps vm₀ ops) = .ok obj) (files : CStr → ConfigFile)
    (hfile : files obj.1 = .root obj.2) :
    ∃ n, loadBundleAt host.sep files (runOps vm₀ ops).path = .ok { runOps vm₀ ops with cfg := (runOps vm₀ ops).cfg.reloaded n } ∧
      ((runOps vm₀ ops).cfg.reloaded n).cfPaths = (runOps vm₀ ops).cfg.cfPaths ∧ LastUsed (runOps vm₀ ops).cfg.cfPaths n := by
  have h := run_keeps (created_inv hroot hcreate) hops
  have hsep : host'.sep = host.sep := congrArg pathSep hsys
  unfold vmBundleSave at hsave
  simp only at hsave
  split at hsave
  · cases hsave
    rw [hsep] at hfile
    exact h.reopened files hfile
  · cases hsave

theorem session_reopened_renamed :
    ∃ n, loadBundleAt obliging.sep
        (fun p => if p = configPath slash (runOps createdA threeCalls).path
          then .root (vmConfigSave (runOps createdA threeCalls).cfg) else .missing)
        (runOps createdA threeCalls).path = .ok
          { runOps createdA threeCalls with cfg := (runOps createdA threeCalls).cfg.reloaded n } ∧
      ((runOps createdA threeCalls).cfg.reloaded n).cfPaths = (runOps createdA threeCalls).cfg.cfPaths ∧
      LastUsed (runOps createdA threeCalls).cfg.cfPaths n :=
  session_reopened (show vmBundleCreate obliging (ascii "A") = .ok (createdA, _) from rfl)
    (fun root h => by cases h; decide) threeCalls_proper rfl
    (show vmBundleSave obliging (runOps createdA threeCalls) = .ok _ from rfl) _
    (if_pos rfl)

end Reopened

end Be300.Launcher
