/-
  Be300.Fat.Read — what `fat_read` computes, on any disk.

  Reading changes nothing, so it is a function of the disk: `resolve` follows the
  components of a path through the directories, `readFrom` collects the bytes of a chain,
  and `fat_read` is their composition (`fatRead_spec`).
-/

import Be300.Fat.File

namespace Be300.Fat

open Be300.Lib (Prog)

/-- The entry of a component that `fat_read` looks for. -/
def findIn (v : Vol) (d : Disk) (dir : Nat) (comp : List UInt8) : Option Entry :=
  if comp = [] ∨ maxName < comp.length then none else lookup v d dir comp

/-- The entry a path leads to from `dir`. -/
def resolve (v : Vol) (d : Disk) (leaf : List UInt8) : List (List UInt8) → Nat → Option Entry
  | [], dir => findIn v d dir leaf
  | comp :: comps, dir => (findIn v d dir comp).bind fun en => if en.isDir then resolve v d leaf comps en.first else none

/-- The directory that components lead to, where all are there. -/
def walk (v : Vol) (d : Disk) : List (List UInt8) → Nat → Option Nat
  | [], dir => some dir
  | comp :: comps, dir => (findIn v d dir comp).bind fun en => if en.isDir then walk v d comps en.first else none

/-- The first `rem` bytes of the chain from `c` on, over at most `guard` clusters. -/
def readFrom (v : Vol) (d : Disk) : Nat → Nat → Nat → Option (List UInt8)
  | 0, rem, _ => if rem = 0 then some [] else none
  | guard + 1, rem, c =>
    if rem = 0 then some []
    else if v.validCluster c then
      (readFrom v d guard (rem - v.clusterBytes) (d.fat c)).map (d.get ⟨c, 0⟩ (min rem v.clusterBytes) ++ ·)
    else none

def contents (v : Vol) (d : Disk) (en : Entry) : Option (List UInt8) :=
  if en.isDir then none else readFrom v d v.clusterCount en.size en.first

/-- The entry of a path. -/
def pathEntry (v : Vol) (d : Disk) (path : List UInt8) : Option Entry := resolve v d (splitPath path).2 (splitPath path).1 0

def readFile (v : Vol) (d : Disk) (path : List UInt8) : Option (List UInt8) := (pathEntry v d path).bind (contents v d)

section Spec

variable {v : Vol} {d : Disk}

theorem within_plus {a : Addr} {n m k : Nat} (h : v.Within a n) (hk : m + k ≤ n) : v.Within (a.plus m) k := by
  refine ⟨h.region, ?_⟩
  have := h.fits
  show a.off + m + k ≤ v.span a.region
  omega

/-- The entry `dir_find` points to, and its slot. -/
theorem find_spec {α : Type} {dir : Nat} {name : List UInt8} {f : Option Addr → FatM α} {Q : α → Disk → Prop} {E : Fault → Prop}
    (hnone : lookup v d dir name = none → Wpe v (f none) Q E d)
    (hsome : ∀ en, lookup v d dir name = some en → v.Within en.addr direntSize → en.slot = d.get en.addr direntSize →
      Wpe v (f (some en.addr)) Q E d) : Wpe v (dirFind v dir name >>= f) Q E d := by
  refine Prog.wp_seq (dirFind_spec dir name) fun r d' h => ?_
  obtain ⟨rfl, rfl⟩ := h
  cases hl : lookup v d' dir name with
  | none => exact hnone hl
  | some en =>
    obtain ⟨h1, h2, -⟩ := entries_mem (lookup_mem hl)
    exact hsome en hl (dirAddrs_within h1) h2

theorem findComp_spec (dir : Nat) (comp : List UInt8) :
    Wp v (findComp v dir comp) (fun r d' => r = (findIn v d dir comp).map (·.slot) ∧ d' = d) d := by
  unfold findComp findIn
  split
  · exact ⟨rfl, rfl⟩
  · refine find_spec (fun hl => ?_) fun en hl hin hslot => wp_load hin fun e he => ?_
    · exact ⟨by rw [hl]; rfl, rfl⟩
    · exact ⟨by rw [hl, he, ← hslot]; rfl, rfl⟩

theorem readPath_spec (leaf : List UInt8) (comps : List (List UInt8)) (dir : Nat) :
    Wp v (readPath v leaf comps dir) (fun r d' => r = (resolve v d leaf comps dir).map (·.slot) ∧ d' = d) d := by
  induction comps generalizing dir with
  | nil => exact findComp_spec dir leaf
  | cons comp comps ih =>
    unfold readPath resolve
    refine Prog.wp_seq (findComp_spec dir comp) fun r d' h => ?_
    obtain ⟨rfl, rfl⟩ := h
    cases findIn v d' dir comp with
    | none => exact ⟨rfl, rfl⟩
    | some en =>
      simp only [Option.map_some, Option.bind_some]
      by_cases hdir : en.isDir
      · have hslot : isDir en.slot = true := hdir
        rw [if_neg (by simp [hslot]), if_pos hdir]
        exact ih en.first
      · have hslot : ¬ isDir en.slot = true := hdir
        rw [if_pos (by simp [hslot]), if_neg hdir]
        exact ⟨rfl, rfl⟩

/-! ### Directories that are there -/

theorem resolve_walk (leaf : List UInt8) (comps : List (List UInt8)) (dir : Nat) :
    resolve v d leaf comps dir = (walk v d comps dir).bind fun dir' => findIn v d dir' leaf := by
  induction comps generalizing dir with
  | nil => rfl
  | cons comp comps ih =>
    rw [resolve, walk]
    cases findIn v d dir comp with
    | none => rfl
    | some en =>
      rw [Option.bind_some, Option.bind_some]
      by_cases hdir : en.isDir = true
      · rw [if_pos hdir, if_pos hdir, ih]
      · rw [if_neg hdir, if_neg hdir]
        rfl

theorem findIn_some {dir : Nat} {comp : List UInt8} {en : Entry} (h : findIn v d dir comp = some en) :
    comp ≠ [] ∧ ¬ maxName < comp.length ∧ lookup v d dir comp = some en := by
  unfold findIn at h
  split at h
  · cases h
  · rename_i hcomp
    rw [not_or] at hcomp
    exact ⟨hcomp.1, hcomp.2, h⟩

theorem walk_cons {dir dir' : Nat} {comp : List UInt8} {comps : List (List UInt8)}
    (h : walk v d (comp :: comps) dir = some dir') :
    ∃ en, findIn v d dir comp = some en ∧ en.isDir = true ∧ walk v d comps en.first = some dir' := by
  obtain ⟨en, hfind, hwalk⟩ := Option.bind_eq_some_iff.mp h
  by_cases hdir : en.isDir = true
  · rw [if_pos hdir] at hwalk
    exact ⟨en, hfind, hdir, hwalk⟩
  · rw [if_neg hdir] at hwalk
    cases hwalk

/-- `fat_mkdirs` enters a directory that is there, and changes nothing. -/
theorem enterDir_found (path : List UInt8) {dir : Nat} {comp : List UInt8} {en : Entry} (hfind : findIn v d dir comp = some en)
    (hdir : en.isDir = true) : Wp v (enterDir v path dir comp) (fun r d' => r = .ok en.first ∧ d' = d) d := by
  obtain ⟨hne, hlen, hlookup⟩ := findIn_some hfind
  unfold enterDir
  rw [if_neg hne, if_neg hlen]
  refine find_spec (fun hnone => ?_) fun en' hl hin hslot => wp_load hin fun e he => ?_
  · rw [hlookup] at hnone
    cases hnone
  · rw [hlookup] at hl
    cases hl
    have hisDir : isDir e = true := by
      rw [he, ← hslot]
      exact hdir
    rw [if_neg (by simp [hisDir]), he, ← hslot]
    exact ⟨rfl, rfl⟩

theorem mkdirsLoop_walk (path : List UInt8) {comps : List (List UInt8)} {dir dir' : Nat} (h : walk v d comps dir = some dir') :
    Wp v (mkdirsLoop v path comps dir) (fun r d' => r = .ok dir' ∧ d' = d) d := by
  induction comps generalizing dir with
  | nil => exact ⟨congrArg Except.ok (Option.some.inj h), rfl⟩
  | cons comp comps ih =>
    obtain ⟨en, hfind, hdir, hwalk⟩ := walk_cons h
    unfold mkdirsLoop
    refine Prog.wp_seq (enterDir_found path hfind hdir) fun r d' hr => ?_
    obtain ⟨rfl, rfl⟩ := hr
    exact ih hwalk

theorem readLoop_spec (guard rem c : Nat) :
    Wp v (readLoop v guard rem c) (fun r d' => r = readFrom v d guard rem c ∧ d' = d) d := by
  induction guard generalizing rem c with
  | zero => exact ⟨rfl, rfl⟩
  | succ guard ih =>
    unfold readLoop readFrom
    split
    · exact ⟨rfl, rfl⟩
    · by_cases hc : v.validCluster c
      · have hvalid := valid_iff.mp hc
        have hin : v.Within ⟨c, 0⟩ (min rem v.clusterBytes) := by
          refine ⟨.inr hvalid, ?_⟩
          have hne : c ≠ 0 := by have := hvalid.1; omega
          simp only [Vol.span, hne, if_false]
          omega
        rw [if_neg (by simp [hc]), if_pos hc]
        refine wp_load hin fun b hb => Prog.wp_bind ⟨hvalid, Prog.wp_seq (ih _ (d.fat c)) fun r d' h => ?_⟩
        obtain ⟨rfl, rfl⟩ := h
        exact ⟨by rw [hb], rfl⟩
      · rw [if_pos (by simp [hc]), if_neg hc]
        exact ⟨rfl, rfl⟩

/-- `fat_read` reads the file of the path and changes nothing. -/
theorem fatRead_spec (path : List UInt8) : Wp v (fatRead v path) (fun r d' => r = readFile v d path ∧ d' = d) d := by
  unfold fatRead readFile pathEntry
  refine Prog.wp_seq (readPath_spec _ _ 0) fun r d' h => ?_
  obtain ⟨rfl, rfl⟩ := h
  cases resolve v d' (splitPath path).2 (splitPath path).1 0 with
  | none => exact ⟨rfl, rfl⟩
  | some en =>
    simp only [Option.map_some, Option.bind_some, contents]
    by_cases hdir : en.isDir
    · have hslot : isDir en.slot = true := hdir
      rw [if_pos hslot, if_pos hdir]
      exact ⟨rfl, rfl⟩
    · have hslot : ¬ isDir en.slot = true := hdir
      rw [if_neg hslot, if_neg hdir]
      exact readLoop_spec _ _ _

end Spec

end Be300.Fat
