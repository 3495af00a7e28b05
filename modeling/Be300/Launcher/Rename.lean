/-
  Be300.Launcher.Rename — a virtual machine is renamed (`vm_bundle_rename` of
  `src/launcher/vm_bundle.c`).

  `moved` is what becomes of a stored path when its directory moves. The code takes a path
  for one of the old directory's by its first characters alone, and cuts what does not fit a
  buffer: `SafePath` says of a path that neither happens.
-/

import Be300.Launcher.Config

namespace Be300.Launcher

open Be300.Cbea (ascii)

/-- The stored paths: NAND, ROM, cards and tees. -/
def Bundle.paths (vm : Bundle) : List CStr :=
  vm.nandPathBuf :: vm.romPathBuf :: List.ofFn vm.cfPathBuf ++ [vm.pcconnectTeeBuf, vm.serial0TeeBuf, vm.serial1TeeBuf]

/-- The specifications of the bridges. -/
def Bundle.bridges (vm : Bundle) : List CStr := [vm.pcconnectBridgeBuf, vm.serial0BridgeBuf, vm.serial1BridgeBuf]

/-- Every string is in a buffer that holds it, and the pointers are set. -/
structure Bundle.Fits (vm : Bundle) : Prop where
  path : vm.path.length < pathMax
  name : vm.name.length < nameMax
  paths : ∀ p ∈ vm.paths, p.length < pathMax
  bridges : ∀ b ∈ vm.bridges, b.length < bridgeMax
  pointers : rebindStrings vm = vm

section Moved

variable {sep : UInt8} {dir dir' p rest : CStr}

/-- `p` is the directory, or begins with it and a separator. -/
def LiesIn (sep : UInt8) (dir p : CStr) : Prop := dir <+: p ∧ ∀ b ∈ (p.drop dir.length).head?, isSep sep b = true

instance : Decidable (LiesIn sep dir p) := inferInstanceAs (Decidable (_ ∧ _))

/-- The stored path that names the same file once the directory `dir` is called `dir'`. -/
def moved (sep : UInt8) (dir dir' p : CStr) : CStr := if p ≠ [] ∧ LiesIn sep dir p then dir' ++ p.drop dir.length else p

/-- A path that lies in the directory still fits when it is moved. One that only begins with the directory's characters comes out
    as it was. -/
def SafePath (sep : UInt8) (dir dir' p : CStr) : Prop :=
  p ≠ [] → ∀ rest, p = dir ++ rest →
    if LiesIn sep dir p then dir'.length + rest.length < pathMax else (dir' ++ rest).take (pathMax - 1) = p

theorem rebaseOwnedPath_iff (hp : p.length < pathMax) :
    rebaseOwnedPath pathMax p dir dir' = moved sep dir dir' p ↔ SafePath sep dir dir' p := by
  unfold rebaseOwnedPath moved SafePath
  by_cases hempty : p = []
  · rw [if_pos hempty, if_neg (fun h => h.1 hempty)]
    exact ⟨fun _ h => absurd hempty h, fun _ => rfl⟩
  · rw [if_neg hempty]
    by_cases hpre : dir <+: p
    · rcases hpre with ⟨rest, rfl⟩
      have hdrop : (dir ++ rest).drop dir.length = rest := List.drop_left
      have hcut : snprintf pathMax (snprintf pathMax (dir' ++ rest)) = (dir' ++ rest).take (pathMax - 1) := by
        rw [snprintf, snprintf, List.take_take, Nat.min_self]
      rw [if_pos (List.isPrefixOf_iff_prefix.mpr ⟨rest, rfl⟩), hdrop, hcut]
      by_cases hlies : LiesIn sep dir (dir ++ rest)
      · rw [if_pos ⟨hempty, hlies⟩]
        constructor
        · intro h _ rest' hrest
          rw [← List.append_cancel_left hrest, if_pos hlies]
          have hlen := congrArg List.length h
          rw [List.length_take, List.length_append] at hlen
          simp only [pathMax] at hlen ⊢
          omega
        · intro h
          have hfit := h hempty rest rfl
          rw [if_pos hlies] at hfit
          refine List.take_of_length_le ?_
          rw [List.length_append]
          omega
      · rw [if_neg (fun h => hlies h.2)]
        constructor
        · intro h _ rest' hrest
          rw [← List.append_cancel_left hrest, if_neg hlies]
          exact h
        · intro h
          have hsame := h hempty rest rfl
          rwa [if_neg hlies] at hsame
    · rw [if_neg (fun h => hpre (List.isPrefixOf_iff_prefix.mp h)), if_neg (fun h => hpre h.2.1)]
      exact ⟨fun _ _ rest hrest => absurd ⟨rest, hrest.symm⟩ hpre, fun _ => rfl⟩

theorem moved_self : moved sep dir dir p = p := by
  unfold moved
  split
  · rename_i h
    rcases h.2.1 with ⟨rest, rfl⟩
    rw [List.drop_left]
  · rfl

end Moved

section Rename

variable {host : Host} {vm vm' : Bundle} {root clean newName : CStr}

/-- The directory of a bundle, in full. -/
def bundleDir (sep : UInt8) (root clean : CStr) : CStr := root ++ [sep] ++ clean ++ vmSuffix

/-- The stored paths follow the directory, everything else stays, and the pointers are set again. -/
structure Rebases (sep : UInt8) (vm vm' : Bundle) : Prop where
  paths : vm'.paths = vm.paths.map (moved sep vm.path vm'.path)
  bridges : vm'.bridges = vm.bridges
  cfg : vm' = rebindStrings { vm' with cfg := vm.cfg }

/-- A rename that does what it should: the directory has the whole of its new name, unless the name stays. -/
structure RenameRight (host : Host) (vm : Bundle) (newName : CStr) (vm' : Bundle) : Prop where
  rebases : Rebases host.sep vm vm'
  whole : ∀ clean root, sanitizeName newName = .ok clean → clean ≠ vm.name → host.rootDir = some root →
    vm'.path = bundleDir host.sep root clean ∧ vm'.name = clean

/-- Nothing is cut, and no path outside the directory begins with its characters. -/
def RenameSafe (host : Host) (vm : Bundle) (newName : CStr) : Prop :=
  ∀ clean root, sanitizeName newName = .ok clean → clean ≠ vm.name → host.rootDir = some root →
    (bundleDir host.sep root clean).length < pathMax ∧ ∀ p ∈ vm.paths, SafePath host.sep vm.path (bundleDir host.sep root clean) p

theorem sanitizeName_fits (h : sanitizeName newName = .ok clean) :
    clean.length < nameMax ∧ clean ≠ [] ∧ ∀ b ∈ clean, forbidden b = false := by
  unfold sanitizeName at h
  simp only at h
  split at h
  · cases h
  · rename_i hne
    cases h
    rw [not_or] at hne
    refine ⟨?_, hne.2, fun b hb => ?_⟩
    · rw [List.length_take]
      simp only [nameMax]
      omega
    · simpa using (List.mem_filter.mp (List.mem_of_mem_take hb)).2

theorem rebased_paths (hpath : vm.path.length < pathMax) (clean newPath : CStr) :
    (rebased vm clean newPath).paths = vm.paths.map fun p => rebaseOwnedPath pathMax p vm.path newPath := by
  unfold rebased
  rw [snprintf_fits hpath]
  simp [Bundle.paths, rebindStrings, List.ofFn_succ]

/-- What a rename that succeeds has done. -/
theorem rename_cases (h : vmBundleRename host vm newName = .ok vm') :
    (sanitizeName newName = .ok vm.name ∧ vm' = vm) ∨
      ∃ clean root, sanitizeName newName = .ok clean ∧ clean ≠ vm.name ∧ host.rootDir = some root ∧
        vm' = rebased vm clean (bundlePath host.sep root clean) := by
  unfold vmBundleRename at h
  split at h
  · cases h
  · rename_i clean hclean
    split at h
    · rename_i hsame
      cases h
      exact Or.inl ⟨hsame ▸ hclean, rfl⟩
    · rename_i hne
      split at h
      · cases h
      · rename_i root hroot
        simp only at h
        split at h
        · cases h
        · split at h
          · cases h
          · cases h
            exact Or.inr ⟨clean, root, hclean, hne, hroot, rfl⟩

/-- A rename does what it should exactly if nothing is cut and no other path begins with the directory's characters. -/
theorem rename_iff (hfits : vm.Fits) (h : vmBundleRename host vm newName = .ok vm') :
    RenameRight host vm newName vm' ↔ RenameSafe host vm newName := by
  rcases rename_cases h with ⟨hname, rfl⟩ | ⟨clean, root, hclean, hne, hroot, rfl⟩
  · have hno : ∀ clean, sanitizeName newName = .ok clean → clean ≠ vm'.name → False := by
      intro clean hclean hne
      rw [hname] at hclean
      exact hne (Except.ok.inj hclean).symm
    have hsame : vm'.paths.map (moved host.sep vm'.path vm'.path) = vm'.paths :=
      (List.map_congr_left fun p _ => moved_self).trans (List.map_id _)
    refine ⟨fun _ clean root hclean hne => (hno clean hclean hne).elim, fun _ => ⟨⟨hsame.symm, rfl, hfits.pointers.symm⟩, ?_⟩⟩
    exact fun clean root hclean hne => (hno clean hclean hne).elim
  · have hpaths := rebased_paths hfits.path clean (bundlePath host.sep root clean)
    have hpath : (rebased vm clean (bundlePath host.sep root clean)).path = snprintf pathMax (bundleDir host.sep root clean) := by
      show snprintf pathMax (snprintf pathMax (bundleDir host.sep root clean)) = _
      rw [snprintf, snprintf, List.take_take, Nat.min_self]
    have hname : (rebased vm clean (bundlePath host.sep root clean)).name = clean := snprintf_fits (sanitizeName_fits hclean).1
    have honly : ∀ clean' root', sanitizeName newName = .ok clean' → host.rootDir = some root' → clean' = clean ∧ root' = root :=
      fun clean' root' hclean' hroot' => ⟨Except.ok.inj (hclean'.symm.trans hclean), Option.some.inj (hroot'.symm.trans hroot)⟩
    have hwhole (hlen : (bundleDir host.sep root clean).length < pathMax) :
        bundlePath host.sep root clean = bundleDir host.sep root clean := snprintf_fits hlen
    constructor
    · rintro ⟨⟨hmoved, -, -⟩, hfull⟩ clean' root' hclean' - hroot'
      rcases honly clean' root' hclean' hroot' with ⟨rfl, rfl⟩
      have hdir := (hfull clean' root' hclean hne hroot).1
      have hlen : (bundleDir host.sep root' clean').length < pathMax := by
        have := congrArg List.length (hpath.symm.trans hdir)
        rw [snprintf, List.length_take] at this
        simp only [pathMax] at this ⊢
        omega
      refine ⟨hlen, fun p hp => (rebaseOwnedPath_iff (hfits.paths p hp)).mp ?_⟩
      rw [hpaths, hdir, hwhole hlen] at hmoved
      exact List.map_inj_left.mp hmoved p hp
    · intro hsafe
      rcases hsafe clean root hclean hne hroot with ⟨hlen, hall⟩
      have hdir : (rebased vm clean (bundlePath host.sep root clean)).path = bundleDir host.sep root clean :=
        hpath.trans (snprintf_fits hlen)
      refine ⟨⟨?_, rfl, rfl⟩, fun clean' root' hclean' _ hroot' => ?_⟩
      · rw [hpaths, hdir, hwhole hlen]
        exact List.map_congr_left fun p hp => (rebaseOwnedPath_iff (hfits.paths p hp)).mpr (hall p hp)
      · rcases honly clean' root' hclean' hroot' with ⟨rfl, rfl⟩
        exact ⟨hdir, hname⟩

/-- A file system that does what it is asked. -/
def obliging : Host where
  windows := false
  rootDir := some (ascii "/r")
  isDir := fun _ => false
  mkdirP := fun _ => true
  rename := fun _ _ => true
  copyFile := fun _ _ => true
  writeFile := fun _ => true

def bundleA (nand : CStr) : Bundle := rebindStrings { zeroed (ascii "/r/A.be300vm") (ascii "A") with nandPathBuf := nand }

theorem bundleA_fits {nand : CStr} (h : nand.length < pathMax) : (bundleA nand).Fits where
  path := by
    show (ascii "/r/A.be300vm").length < pathMax
    decide
  name := by
    show (ascii "A").length < nameMax
    decide
  paths := by
    intro p hp
    have hmem : p ∈ nand :: List.replicate 6 [] := hp
    rcases List.mem_cons.mp hmem with rfl | hrest
    · exact h
    · rw [List.eq_of_mem_replicate hrest]
      decide
  bridges := by
    intro b hb
    have hmem : b ∈ List.replicate 3 [] := hb
    rw [List.eq_of_mem_replicate hmem]
    decide
  pointers := rfl

/-- The image lies in the directory, and goes with it. -/
theorem ownImage_safe : RenameSafe obliging (bundleA (ascii "/r/A.be300vm/nand.bin")) (ascii "B") := by
  intro clean root hclean _ hroot
  cases hroot
  have hname : sanitizeName (ascii "B") = .ok (ascii "B") := rfl
  rw [hname] at hclean
  cases hclean
  refine ⟨by decide, fun p hp => ?_⟩
  have hmem : p ∈ ascii "/r/A.be300vm/nand.bin" :: List.replicate 6 [] := hp
  rcases List.mem_cons.mp hmem with rfl | hrest
  · have hfits : (ascii "/r/A.be300vm/nand.bin").length < pathMax := by decide +kernel
    refine (rebaseOwnedPath_iff hfits).mp ?_
    decide +kernel
  · rw [List.eq_of_mem_replicate hrest]
    exact fun hne => absurd rfl hne

theorem rename_ownImage :
    ∃ vm', vmBundleRename obliging (bundleA (ascii "/r/A.be300vm/nand.bin")) (ascii "B") = .ok vm' ∧
      RenameRight obliging (bundleA (ascii "/r/A.be300vm/nand.bin")) (ascii "B") vm' ∧
      vm'.nandPathBuf = ascii "/r/B.be300vm/nand.bin" :=
  ⟨_, rfl, (rename_iff (bundleA_fits (by decide)) rfl).mpr ownImage_safe, by decide⟩

/-- The path of a file beside the bundle's directory is rewritten with it. -/
theorem rename_rewrites_sibling :
    ¬ ∀ vm', vmBundleRename obliging (bundleA (ascii "/r/A.be300vm-old/nand.bin")) (ascii "B") = .ok vm' →
      RenameRight obliging (bundleA (ascii "/r/A.be300vm-old/nand.bin")) (ascii "B") vm' := by
  intro h
  have hpaths := congrArg List.head? (h _ rfl).rebases.paths
  revert hpaths
  decide

end Rename

end Be300.Launcher
