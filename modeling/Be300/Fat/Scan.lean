/-
  Be300.Fat.Scan — growing a directory, and the scan of `dir_create`.

  On a volume of at most 65524 clusters an end-of-chain mark is no cluster, so a chain that
  ends in one is a list without repetition. Where a directory's chain is of this kind
  (`DirGood`), growing it adds one cluster of zero slots at its end and leaves the rest as
  it was (`Grow.chain`, `Grow.slots`). The scan looks for its run among the slots there are
  (`scanFree`) and then grows the directory only as long as the free slots at the end are
  too few: `growthNeeded` clusters (`scan_spec`).
-/

import Mathlib.Data.Finset.Card
import Mathlib.Order.Interval.Finset.Nat
import Be300.Fat.Slots

namespace Be300.Fat

open Be300.Lib (Prog Chain redirect at')

/-- An end-of-chain mark. -/
def Eoc (n : Nat) : Prop := 0xFFF8 ≤ n

/-- A FAT16 volume of the usual geometry. -/
structure Vol.Std (v : Vol) : Prop where
  count : v.clusterCount ≤ 65524
  per : 16 ≤ v.per
  bytes : v.clusterBytes = v.per * direntSize

/-- From `c` on the FAT runs through `l` to an end-of-chain mark. -/
abbrev FatChain (v : Vol) (d : Disk) (c : Nat) (l : List Nat) : Prop := Chain d.fat v.Valid Eoc c l

/-- The clusters from `c` on are a chain. -/
def Ended (v : Vol) (d : Disk) (c : Nat) : Prop := v.Valid c ∧ FatChain v d c (clusters v d c)

/-- The root directory, or one with a chain. -/
def DirGood (v : Vol) (d : Disk) (dir : Nat) : Prop := dir = 0 ∨ Ended v d dir

section Chains

variable {v : Vol} {d d' : Disk}

theorem eoc_invalid (hv : v.Std) (e : Nat) (h : Eoc e) : ¬ v.Valid e := fun hval => by
  have h1 := hv.count
  have h2 := hval.2
  unfold Eoc at h
  omega

theorem valid_not_eoc (hv : v.Std) (e : Nat) (h : v.Valid e) : ¬ Eoc e := fun heoc => eoc_invalid hv e heoc h

/-- There are no more clusters than there are. -/
theorem valid_length {l : List Nat} (hnd : l.Nodup) (hval : ∀ x ∈ l, v.Valid x) : l.length ≤ v.clusterCount := by
  have hsub : l.toFinset ⊆ Finset.Ico 2 (v.clusterCount + 2) := fun x hx => by
    have := hval x (List.mem_toFinset.mp hx)
    exact Finset.mem_Ico.mpr this
  have hcard := Finset.card_le_card hsub
  rw [List.toFinset_card_of_nodup hnd, Nat.card_Ico] at hcard
  omega

theorem clusters_valid {c : Nat} (hc : v.Valid c) : clusters v d c = chainFrom v d v.clusterCount c :=
  if_pos (valid_iff.mpr hc)

theorem clusters_invalid {c : Nat} (hc : ¬ v.Valid c) : clusters v d c = [] := if_neg fun h => hc (valid_iff.mp h)

theorem clusters_mem_valid {c x : Nat} (hx : x ∈ clusters v d c) : v.Valid x := by
  unfold clusters at hx
  split at hx
  · rename_i hc
    exact chainFrom_valid _ (valid_iff.mp hc) x hx
  · simp at hx

/-- A chain is what the walk finds. -/
theorem clusters_chain (hv : v.Std) {c : Nat} {l : List Nat} (hl : FatChain v d c l) (hne : l ≠ []) : clusters v d c = l := by
  have hc : v.Valid c := by
    obtain ⟨m, rfl⟩ := hl.head hne
    exact hl.2.1
  rw [clusters_valid hc]
  have hlen := valid_length (hl.nodup (valid_not_eoc hv)) hl.valid_of_mem
  exact chainFrom_chain (eoc_invalid hv) hl hne (by omega)

theorem ended_of_chain (hv : v.Std) {c : Nat} {l : List Nat} (hl : FatChain v d c l) (hne : l ≠ []) : Ended v d c := by
  refine ⟨?_, by rw [clusters_chain hv hl hne]; exact hl⟩
  obtain ⟨m, rfl⟩ := hl.head hne
  exact hl.2.1

theorem Ended.ne_nil {c : Nat} (h : Ended v d c) : clusters v d c ≠ [] := by
  rw [clusters_valid h.1]
  exact chainFrom_ne_nil _ _

theorem Ended.head {c : Nat} (h : Ended v d c) : c ∈ clusters v d c := by
  obtain ⟨m, hm⟩ := h.2.head h.ne_nil
  rw [hm]
  exact List.mem_cons_self ..

theorem Ended.nodup (hv : v.Std) {c : Nat} (h : Ended v d c) : (clusters v d c).Nodup := h.2.nodup (valid_not_eoc hv)

/-- A cluster of a chain is not free. -/
theorem Chain.fat_ne {c x : Nat} {l : List Nat} (h : FatChain v d c l) (hx : x ∈ l) : d.fat x ≠ 0 := by
  obtain ⟨p, q, rfl⟩ := List.append_of_mem hx
  intro h0
  have hs := h.suffix
  obtain ⟨-, -, hnext⟩ := hs
  rw [h0] at hnext
  cases q with
  | nil =>
    have : (0xFFF8 : Nat) ≤ 0 := hnext
    omega
  | cons y q =>
    have := hnext.2.1.1
    omega

theorem Ended.fat_ne {c x : Nat} (h : Ended v d c) (hx : x ∈ clusters v d c) : d.fat x ≠ 0 := Chain.fat_ne h.2 hx

/-- A chain stays where the FAT does not change on it. -/
theorem Ended.congr (hv : v.Std) {c : Nat} (h : Ended v d c) (hsame : ∀ x ∈ clusters v d c, d'.fat x = d.fat x) :
    Ended v d' c ∧ clusters v d' c = clusters v d c := by
  have hl : FatChain v d' c (clusters v d c) := Be300.Lib.Chain.congr h.2 hsame
  exact ⟨ended_of_chain hv hl h.ne_nil, clusters_chain hv hl h.ne_nil⟩

end Chains

/-! ## Growing -/

section Growing

variable {v : Vol} {d d' : Disk} {dir t n : Nat}

theorem Grow.fat (h : Grow v t n d d') (hv : v.Std) (k : Nat) :
    d'.fat k = if k = t then n else if k = n then 0xFFFF else d.fat k := by
  have hn : n % 65536 = n := Nat.mod_eq_of_lt (by have h1 := h.valid.2; have h2 := hv.count; omega)
  rw [h.eq, hn]
  rfl

theorem Grow.mem (h : Grow v t n d d') {r : Nat} (hr : r ≠ n) (k : Nat) : d'.mem r k = d.mem r k := by
  rw [h.eq]
  simp [Disk.setFat, Disk.alloc, Disk.put, hr]

theorem Grow.zero (h : Grow v t n d d') {k : Nat} (hk : k < v.clusterBytes) : d'.mem n k = 0 := by
  rw [h.eq]
  simp [Disk.setFat, Disk.alloc, Disk.put, hk, at']

/-- A directory that grows: its chain is longer by the new cluster. -/
theorem Grow.chain (h : Grow v t n d d') (hv : v.Std) (hdir : Ended v d dir) (hlast : (clusters v d dir).getLast? = some t) :
    Ended v d' dir ∧ clusters v d' dir = clusters v d dir ++ [n] := by
  obtain ⟨p, hp⟩ := List.getLast?_eq_some_iff.mp hlast
  have hfree : n ∉ clusters v d dir := fun hmem => hdir.fat_ne hmem h.free
  have hchain : FatChain v d dir (p ++ [t]) := hp ▸ hdir.2
  have hnew := hchain.extend (hp ▸ hdir.nodup hv) (hp ▸ hfree) h.valid (e := 0xFFFF) (show Eoc 0xFFFF by unfold Eoc; omega)
  have hfat : d'.fat = redirect (redirect d.fat n 0xFFFF) t n := funext fun k => h.fat hv k
  have hl : FatChain v d' dir (p ++ [t, n]) := by
    unfold FatChain
    rw [hfat]
    exact hnew
  refine ⟨ended_of_chain hv hl (by simp), ?_⟩
  rw [clusters_chain hv hl (by simp), hp]
  simp

/-- A cluster of zeros, as slots. -/
def zeroSlots (v : Vol) (n : Nat) : List (Addr × Slot) := (clusterSlots v n).map fun a => (a, List.replicate direntSize 0)

theorem zeroSlots_length (v : Vol) (n : Nat) : (zeroSlots v n).length = v.per := by simp [zeroSlots, clusterSlots]

theorem zeroSlots_zero {x : Addr × Slot} (h : x ∈ zeroSlots v n) : x.2 = List.replicate direntSize 0 := by
  obtain ⟨a, -, rfl⟩ := List.mem_map.mp h
  rfl

theorem slots_cluster (hdir : dir ≠ 0) :
    slots v d dir = (clusters v d dir).flatMap fun c => (clusterSlots v c).map fun a => (a, d.get a direntSize) := by
  unfold slots
  rw [dirAddrs_cluster hdir, List.map_flatMap]

/-- Its slots are the ones it had and zero ones behind them. -/
theorem Grow.slots (h : Grow v t n d d') (hv : v.Std) (hdir : Ended v d dir) (hlast : (clusters v d dir).getLast? = some t) :
    slots v d' dir = slots v d dir ++ zeroSlots v n := by
  have hne : dir ≠ 0 := by have := hdir.1.1; omega
  rw [slots_cluster hne, slots_cluster hne, (h.chain hv hdir hlast).2, List.flatMap_append]
  congr 1
  · refine List.flatMap_congr fun c hc => List.map_congr_left fun a ha => ?_
    obtain ⟨i, -, rfl⟩ := List.mem_map.mp ha
    have hcn : c ≠ n := fun heq => hdir.fat_ne hc (heq ▸ h.free)
    rw [get_congr fun k _ _ => h.mem hcn k]
  · rw [List.flatMap_singleton]
    refine List.map_congr_left fun a ha => ?_
    obtain ⟨i, hi, rfl⟩ := List.mem_map.mp ha
    have hi := List.mem_range.mp hi
    have hb := hv.bytes
    have hfits : i * direntSize + direntSize ≤ v.clusterBytes := by
      unfold direntSize at *
      omega
    have hzero : d'.get ⟨n, i * direntSize⟩ direntSize = List.replicate direntSize 0 := by
      refine List.eq_replicate_iff.mpr ⟨get_length _ _ _, fun b hb => ?_⟩
      obtain ⟨k, hk, rfl⟩ := List.mem_map.mp hb
      have hk := List.mem_range.mp hk
      exact h.zero (by show i * direntSize + k < v.clusterBytes; omega)
    rw [hzero]

/-- A directory that grows by `k` clusters, one after the other. -/
inductive Grows (v : Vol) (dir : Nat) : Nat → Disk → Disk → Prop
  | refl (d : Disk) : Grows v dir 0 d d
  | step {k t n : Nat} {d d1 d2 : Disk} : (clusters v d dir).getLast? = some t → Grow v t n d d1 → Grows v dir k d1 d2 →
      Grows v dir (k + 1) d d2

/-- Only a directory with a chain grows. -/
theorem ended_of_last (hgood : DirGood v d dir) (hlast : (clusters v d dir).getLast? = some t) : Ended v d dir := by
  rcases hgood with rfl | h
  · rw [clusters_invalid (by unfold Vol.Valid; omega)] at hlast
    simp at hlast
  · exact h

theorem Grows.good {k : Nat} (h : Grows v dir k d d') (hv : v.Std) (hgood : DirGood v d dir) : DirGood v d' dir := by
  induction h with
  | refl d => exact hgood
  | step hlast hgrow _ ih => exact ih (.inr (hgrow.chain hv (ended_of_last hgood hlast) hlast).1)

theorem Grows.slots {k : Nat} (h : Grows v dir k d d') (hv : v.Std) (hgood : DirGood v d dir) :
    ∃ z, slots v d' dir = slots v d dir ++ z ∧ z.length = k * v.per ∧ ∀ x ∈ z, x.2 = List.replicate direntSize 0 := by
  induction h with
  | refl d => exact ⟨[], by simp⟩
  | step hlast hgrow _ ih =>
    have hended := ended_of_last hgood hlast
    obtain ⟨z, hz, hlen, hzero⟩ := ih (.inr (hgrow.chain hv hended hlast).1)
    refine ⟨zeroSlots v _ ++ z, by rw [hz, hgrow.slots hv hended hlast, List.append_assoc], ?_, fun x hx => ?_⟩
    · rw [List.length_append, zeroSlots_length, hlen, Nat.succ_mul, Nat.add_comm]
    · rcases List.mem_append.mp hx with hx | hx
      · exact zeroSlots_zero hx
      · exact hzero x hx

theorem Grows.ok {k : Nat} (h : Grows v dir k d d') (hd : v.DiskOk d) : v.DiskOk d' := by
  induction h with
  | refl d => exact hd
  | step _ hgrow _ ih => exact ih hgrow.ok

end Growing

/-! ## The scan -/

/-- The scan over the slots from `idx` on, `run` free ones before: where it finds its run,
    or how many free slots there are at the end. -/
def scanFree (need : Nat) : List Bool → Nat → Nat → Nat ⊕ Nat
  | [], _, run => .inr run
  | b :: l, idx, run =>
    if b then if run + 1 = need then .inl (idx + 1 - need) else scanFree need l (idx + 1) (run + 1)
    else scanFree need l (idx + 1) 0

def freeFlags (v : Vol) (d : Disk) (dir : Nat) : List Bool := (slots v d dir).map fun x => isFree x.2

/-- The clusters a directory must grow by for a run of `need` free slots. -/
def growthNeeded (v : Vol) (d : Disk) (dir need : Nat) : Nat :=
  match scanFree need (freeFlags v d dir) 0 0 with
  | .inl _ => 0
  | .inr run => (need - run + v.per - 1) / v.per

theorem scanFree_replicate {need : Nat} (m idx run : Nat) (h : run < need) :
    scanFree need (List.replicate m true) idx run = if need - run ≤ m then .inl (idx - run) else .inr (run + m) := by
  induction m generalizing idx run with
  | zero =>
    rw [if_neg (by omega)]
    rfl
  | succ m ih =>
    rw [List.replicate_succ, scanFree, if_pos rfl]
    by_cases hneed : run + 1 = need
    · rw [if_pos hneed, if_pos (by omega), ← hneed, Nat.add_sub_add_right]
    · rw [if_neg hneed, ih (idx + 1) (run + 1) (by omega)]
      by_cases hfit : need - run ≤ m + 1
      · rw [if_pos hfit, if_pos (by omega), Nat.add_sub_add_right]
      · rw [if_neg hfit, if_neg (by omega)]
        congr 1
        omega

/-- `need` free slots from `start` on, and none right before them. -/
structure FreeRun (f : List Bool) (start need : Nat) : Prop where
  fits : start + need ≤ f.length
  free : ∀ i, start ≤ i → i < start + need → f[i]? = some true
  before : start = 0 ∨ f[start - 1]? = some false

/-- What the scan knows at `idx`. -/
structure RunAt (f : List Bool) (idx run : Nat) : Prop where
  le : run ≤ idx
  free : ∀ i, idx - run ≤ i → i < idx → f[i]? = some true
  before : idx - run = 0 ∨ f[idx - run - 1]? = some false

theorem scanFree_spec (need : Nat) {f : List Bool} (l : List Bool) (idx run : Nat) (hl : f.drop idx = l) (hidx : idx ≤ f.length)
    (hrun : run < need) (h : RunAt f idx run) :
    (∀ s, scanFree need l idx run = .inl s → FreeRun f s need) ∧
      ∀ r, scanFree need l idx run = .inr r → r < need ∧ RunAt f f.length r := by
  induction l generalizing idx run with
  | nil =>
    have : idx = f.length := by
      have := List.drop_eq_nil_iff.mp hl
      omega
    subst this
    refine ⟨fun s hs => (by cases hs), fun r hr => ?_⟩
    cases hr
    exact ⟨hrun, h⟩
  | cons b l ih =>
    have hlt : idx < f.length := by
      by_contra hno
      rw [List.drop_eq_nil_of_le (by omega)] at hl
      cases hl
    have hget : f[idx]? = some b := by
      have : (f.drop idx)[0]? = f[idx + 0]? := List.getElem?_drop
      rw [hl] at this
      simpa using this.symm
    have hrest : f.drop (idx + 1) = l := by
      rw [drop_of_getElem? hget] at hl
      exact (List.cons.inj hl).2
    unfold scanFree
    cases b with
    | false =>
      refine ih (idx + 1) 0 hrest hlt (by omega) ⟨Nat.zero_le _, fun i h1 h2 => by omega, .inr ?_⟩
      simpa using hget
    | true =>
      have hnext : RunAt f (idx + 1) (run + 1) := by
        refine ⟨by have := h.le; omega, fun i h1 h2 => ?_, ?_⟩
        · by_cases hi : i = idx
          · rw [hi]
            exact hget
          · exact h.free i (by omega) (by omega)
        · rw [Nat.add_sub_add_right]
          exact h.before
      simp only [if_true]
      by_cases hneed : run + 1 = need
      · rw [if_pos hneed]
        refine ⟨fun s hs => ?_, fun r hr => by cases hr⟩
        cases hs
        have hle := h.le
        refine ⟨by omega, fun i h1 h2 => hnext.free i (by omega) (by omega), ?_⟩
        rw [← hneed]
        exact hnext.before
      · rw [if_neg hneed]
        exact ih (idx + 1) (run + 1) hrest hlt (by omega) hnext

section Scan

variable {v : Vol} {d : Disk} {dir need : Nat}

theorem freeFlags_length (v : Vol) (d : Disk) (dir : Nat) :
    (freeFlags v d dir).length = (dirAddrs v d dir).length := by simp [freeFlags, slots]

/-- The scan over the slots there are. -/
theorem scanLoop_through {Q : Option Nat → Disk → Prop} {E : Fault → Prop} (hd : v.DiskOk d) (hper : 0 < v.per) (m : Nat)
    {fuel idx run start : Nat} (hm : idx + m = (dirAddrs v d dir).length) (hfuel : m ≤ fuel) (hrun : run < need)
    (hstart : run ≠ 0 → start + run = idx)
    (hfound : ∀ s, scanFree need ((freeFlags v d dir).drop idx) idx run = .inl s → Q (some s) d)
    (hend : ∀ r, scanFree need ((freeFlags v d dir).drop idx) idx run = .inr r →
      ∀ start', (r ≠ 0 → start' + r = idx + m) → Wpe v (scanLoop v dir need (fuel - m) (idx + m) r start') Q E d) :
    Wpe v (scanLoop v dir need fuel idx run start) Q E d := by
  induction m generalizing fuel idx run start with
  | zero =>
    rw [List.drop_eq_nil_of_le (by rw [freeFlags_length]; omega)] at hend
    exact hend run rfl start hstart
  | succ m ih =>
    obtain ⟨fuel, rfl⟩ := Nat.exists_eq_add_of_le' (show 1 ≤ fuel by omega)
    have hlt : idx < (dirAddrs v d dir).length := by omega
    obtain ⟨a, ha⟩ : ∃ a, (dirAddrs v d dir)[idx]? = some a := ⟨_, List.getElem?_eq_getElem hlt⟩
    have hflag : (freeFlags v d dir)[idx]? = some (isFree (d.get a direntSize)) := by
      unfold freeFlags
      rw [List.getElem?_map, slots_getElem?, ha]
      rfl
    rw [drop_of_getElem? hflag] at hfound hend
    unfold scanFree at hfound hend
    unfold scanLoop
    refine Prog.wp_seq (dirSlot_extends hd hper (Nat.le_of_lt hlt)) fun r d1 h => ?_
    rcases h with ⟨rfl, rfl⟩ | ⟨heq, -⟩
    · rw [ha]
      refine wp_load (dirAddrs_within (List.mem_of_getElem? ha)) fun e he => ?_
      rw [← he] at hfound hend
      have hadd : idx + (m + 1) = idx + 1 + m := by omega
      have hsub : fuel + 1 - (m + 1) = fuel - m := by omega
      rw [hadd, hsub] at hend
      by_cases hfree : isFree e
      · rw [if_pos hfree] at hfound hend ⊢
        have hstart1 : (if run = 0 then idx else start) + (run + 1) = idx + 1 := by
          split
          · omega
          · rename_i h
            have := hstart h
            omega
        dsimp only
        by_cases hneed : run + 1 = need
        · rw [if_pos hneed] at hfound ⊢
          have := hfound _ rfl
          rwa [show idx + 1 - need = if run = 0 then idx else start by omega] at this
        · rw [if_neg hneed] at hfound hend ⊢
          exact ih (by omega) (by omega) (by omega) (fun _ => hstart1) hfound hend
      · rw [if_neg hfree] at hfound hend ⊢
        exact ih (by omega) (by omega) (by omega) (fun h => absurd rfl h) hfound hend
    · omega

/-- What the scan does behind the last slot, where there are `run` free ones. -/
def EndPost (v : Vol) (d : Disk) (dir need run : Nat) (r : Option Nat) (d' : Disk) : Prop :=
  ∃ k, Grows v dir k d d' ∧ ((r = none ∧ k * v.per < need - run) ∨
    (r = some ((dirAddrs v d dir).length - run) ∧ 1 ≤ k ∧ (k - 1) * v.per < need - run ∧ need - run ≤ k * v.per))

theorem EndPost.step {t n run : Nat} {d1 : Disk} {r : Option Nat} {d' : Disk} (hv : v.Std) (hdir : Ended v d dir)
    (hlast : (clusters v d dir).getLast? = some t) (hgrow : Grow v t n d d1) (hrun : run + v.per < need)
    (h : EndPost v d1 dir need (run + v.per) r d') : EndPost v d dir need run r d' := by
  obtain ⟨k, hgrows, h⟩ := h
  have hlen : (dirAddrs v d1 dir).length = (dirAddrs v d dir).length + v.per := by
    have := congrArg List.length (hgrow.slots hv hdir hlast)
    simpa [slots, zeroSlots_length] using this
  refine ⟨k + 1, .step hlast hgrow hgrows, ?_⟩
  rw [Nat.succ_mul, Nat.add_sub_cancel]
  rcases h with ⟨rfl, hk⟩ | ⟨rfl, hpos, hlt, hle⟩
  · exact .inl ⟨rfl, by omega⟩
  · obtain ⟨k, rfl⟩ := Nat.exists_eq_add_of_le' hpos
    rw [Nat.add_sub_cancel] at hlt
    rw [Nat.succ_mul] at hle ⊢
    refine .inr ⟨by rw [hlen, Nat.add_sub_add_right], by omega, by omega, by omega⟩

theorem scanLoop_end (hv : v.Std) (m : Nat) {fuel run start : Nat} (hd : v.DiskOk d) (hgood : DirGood v d dir)
    (hm : need - run ≤ m) (hrun : run < need)
    (hfuel : v.rootEntries + (v.clusterCount + 1) * v.per < fuel + (dirAddrs v d dir).length)
    (hstart : run ≠ 0 → start + run = (dirAddrs v d dir).length) (hle : run ≤ (dirAddrs v d dir).length) :
    Wp v (scanLoop v dir need fuel (dirAddrs v d dir).length run start) (EndPost v d dir need run) d := by
  induction m generalizing fuel run start d with
  | zero => omega
  | succ m ih =>
    have hper := hv.per
    have hbound := dirAddrs_length (v := v) (d := d) dir
    obtain ⟨fuel, rfl⟩ := Nat.exists_eq_add_of_le' (show 1 ≤ fuel by omega)
    unfold scanLoop
    refine Prog.wp_seq (dirSlot_extends hd (by omega) (Nat.le_refl _)) fun r d1 h => ?_
    rcases h with ⟨rfl, rfl⟩ | ⟨-, t, n, hlast, hgrow, hr⟩
    · rw [List.getElem?_eq_none_iff.mpr (Nat.le_refl _)]
      exact ⟨0, .refl _, .inl ⟨rfl, by omega⟩⟩
    have hended := ended_of_last hgood hlast
    obtain ⟨hended1, hclus⟩ := hgrow.chain hv hended hlast
    have hcount : (clusters v d dir).length + 1 ≤ v.clusterCount := by
      have := valid_length (hended1.nodup hv) fun x hx => clusters_mem_valid hx
      rwa [hclus, List.length_append] at this
    rcases hr with ⟨rfl, -⟩ | ⟨-, hlen⟩
    swap
    · omega
    -- the new slots are all free
    have hslots := hgrow.slots hv hended hlast
    have hlen1 : (dirAddrs v d1 dir).length = (dirAddrs v d dir).length + v.per := by
      have := congrArg List.length hslots
      simpa [slots, zeroSlots_length] using this
    have hbound1 := dirAddrs_length (v := v) (d := d1) dir
    have hgrow1 : Grows v dir 1 d d1 := .step hlast hgrow (.refl d1)
    have hvalid0 : v.Within ⟨n, 0⟩ direntSize := by simpa using cluster_within (i := 0) hgrow.valid (by omega)
    refine wp_load hvalid0 fun e he => ?_
    have hfree : isFree e = true := by
      have hzero : at' e 0 = 0 := by
        rw [he]
        have hb := hv.bytes
        show d1.mem n (0 + 0) = 0
        exact hgrow.zero (by unfold direntSize at hb; omega)
      simp [isFree, hzero]
    have hstart1 : (if run = 0 then (dirAddrs v d dir).length else start) = (dirAddrs v d dir).length - run := by
      split
      · omega
      · rename_i h
        have := hstart h
        omega
    rw [if_pos hfree]
    dsimp only
    rw [hstart1]
    by_cases hneed : run + 1 = need
    · rw [if_pos hneed]
      exact ⟨1, hgrow1, .inr ⟨rfl, by omega, by omega, by omega⟩⟩
    · rw [if_neg hneed]
      have hdrop : (freeFlags v d1 dir).drop ((dirAddrs v d dir).length + 1) = List.replicate (v.per - 1) true := by
        have hmap : freeFlags v d1 dir = freeFlags v d dir ++ List.replicate v.per true := by
          unfold freeFlags
          rw [hslots, List.map_append]
          congr 1
          refine List.eq_replicate_iff.mpr ⟨by rw [List.length_map, zeroSlots_length], fun b hb => ?_⟩
          obtain ⟨x, hx, rfl⟩ := List.mem_map.mp hb
          rw [zeroSlots_zero hx]
          rfl
        rw [hmap, List.drop_append, freeFlags_length, List.drop_eq_nil_of_le (by rw [freeFlags_length]; omega), List.nil_append,
          List.drop_replicate]
        congr 1
        omega
      refine scanLoop_through hgrow.ok (by omega) (v.per - 1) (by omega) ?_ (by omega) (fun _ => by omega)
        (fun s hs => ?_) fun r hr start' hstart' => ?_
      · omega
      · rw [hdrop, scanFree_replicate _ _ _ (by omega)] at hs
        split at hs
        · cases hs
          refine ⟨1, hgrow1, .inr ⟨?_, by omega, by omega, by omega⟩⟩
          congr 1
          omega
        · cases hs
      · rw [hdrop, scanFree_replicate _ _ _ (by omega)] at hr
        split at hr
        · cases hr
        · cases hr
          have hnext : (dirAddrs v d dir).length + 1 + (v.per - 1) = (dirAddrs v d1 dir).length := by omega
          rw [hnext] at hstart' ⊢
          rw [show run + 1 + (v.per - 1) = run + v.per by omega] at hstart' ⊢
          refine Prog.wp_mono (ih hgrow.ok (.inr hended1) (by omega) (by omega) (by omega) hstart' (by omega)) fun r d' h => ?_
          exact h.step hv hended hlast hgrow (by omega)

/-- The scan: it finds its run among the slots there are, or grows the directory until the
    free slots at the end are enough or the disk is full. -/
theorem scan_spec (hv : v.Std) (hd : v.DiskOk d) (hgood : DirGood v d dir) (hneed : 0 < need) :
    Wp v (scanLoop v dir need (dirFuel v) 0 0 0) (fun r d' => ∃ k, Grows v dir k d d' ∧
      ((r = none ∧ k < growthNeeded v d dir need) ∨ ∃ start, r = some start ∧ k = growthNeeded v d dir need ∧
        FreeRun (freeFlags v d' dir) start need)) d := by
  have hper := hv.per
  have hbound := dirAddrs_length (v := v) (d := d) dir
  have hspec := scanFree_spec need (f := freeFlags v d dir) _ 0 0 rfl (Nat.zero_le _) hneed
    ⟨Nat.le_refl _, fun i _ h => absurd h (Nat.not_lt_zero i), .inl rfl⟩
  unfold growthNeeded
  refine scanLoop_through hd (by omega) (dirAddrs v d dir).length (Nat.zero_add _) (by unfold dirFuel; omega) hneed
    (fun h => absurd rfl h) (fun s hs => ?_) fun run hr start hstart => ?_
  · refine ⟨0, .refl d, .inr ⟨s, rfl, ?_, hspec.1 s hs⟩⟩
    rw [List.drop_zero] at hs
    rw [hs]
  · obtain ⟨hlt, hat⟩ := hspec.2 run hr
    rw [List.drop_zero] at hr
    rw [Nat.zero_add] at hstart ⊢
    have hrunle : run ≤ (dirAddrs v d dir).length := by
      have := hat.le
      rwa [freeFlags_length] at this
    refine Prog.wp_mono (scanLoop_end hv (need - run) hd hgood (Nat.le_refl _) hlt (by unfold dirFuel; omega) hstart hrunle)
      fun r d' h => ?_
    obtain ⟨k, hgrows, h⟩ := h
    refine ⟨k, hgrows, ?_⟩
    rw [hr]
    rcases h with ⟨rfl, hk⟩ | ⟨rfl, hpos, hklt, hkle⟩
    · refine .inl ⟨rfl, ?_⟩
      show k < (need - run + v.per - 1) / v.per
      rw [Nat.lt_iff_add_one_le, Nat.le_div_iff_mul_le (by omega), Nat.succ_mul]
      omega
    · obtain ⟨z, hz, hzlen, hzero⟩ := hgrows.slots hv hgood
      refine .inr ⟨_, rfl, ?_, ?_⟩
      · show k = (need - run + v.per - 1) / v.per
        obtain ⟨k, rfl⟩ := Nat.exists_eq_add_of_le' hpos
        rw [Nat.add_sub_cancel] at hklt
        rw [Nat.succ_mul] at hkle
        refine (Nat.div_eq_of_lt_le ?_ ?_).symm
        · rw [Nat.succ_mul]
          omega
        · rw [Nat.succ_mul, Nat.succ_mul]
          omega
      · have hflags : freeFlags v d' dir = freeFlags v d dir ++ List.replicate (k * v.per) true := by
          unfold freeFlags
          rw [hz, List.map_append]
          congr 1
          refine List.eq_replicate_iff.mpr ⟨by rw [List.length_map, hzlen], fun b hb => ?_⟩
          obtain ⟨x, hx, rfl⟩ := List.mem_map.mp hb
          rw [hzero x hx]
          rfl
        have hflen := freeFlags_length v d dir
        refine ⟨?_, fun i h1 h2 => ?_, ?_⟩
        · rw [hflags, List.length_append, List.length_replicate, hflen]
          omega
        · rw [hflags]
          by_cases hi : i < (dirAddrs v d dir).length
          · rw [List.getElem?_append_left (by omega)]
            exact hat.free i (by omega) (by omega)
          · rw [List.getElem?_append_right (by omega), List.getElem?_replicate, if_pos (by omega)]
        · rw [hflags]
          rcases hat.before with h0 | h0
          · exact .inl (by omega)
          · refine .inr ?_
            rw [← hflen, List.getElem?_append_left (by
              have := (List.getElem?_eq_some_iff.mp h0).1
              omega)]
            exact h0

end Scan

end Be300.Fat
