/-
  Be300.Fat.Cluster — clusters, chains and directory slots (`fat_free_clusters`,
  `fat_alloc`, `fat_free_chain`, `dir_slot` of `src/cbea_install.c`).

  A loop of the source is a recursion on the number of rounds its own guard allows. After
  each function stands what it does on any disk whatever: chains may be cyclic, crossed or
  cut. `dirAddrs` is the list of the slots a directory's chain gives, and `dir_slot` is its
  entry (`dirSlot_spec`); with `extend` it may grow the chain (`dirSlot_extends`).
-/

import Be300.Lib.Chain
import Be300.Fat.Machine

namespace Be300.Fat

open Be300.Lib (Prog Chain at')

def fat16Eoc : Nat := 0xFFFF

/-- Slots in a cluster. -/
def Vol.per (v : Vol) : Nat := v.clusterBytes / direntSize

/-! ## The code -/

def countFree : Nat → Nat → Nat → FatM Nat
  | 0, _, n => return n
  | k + 1, c, n => do countFree k (c + 1) (if (← fatGet c) = 0 then n + 1 else n)

def fatFreeClusters (v : Vol) : FatM Nat := countFree v.clusterCount 2 0

/-- The search of one pass, over `k` clusters from `c` on. -/
def allocScan (v : Vol) : Nat → Nat → FatM Nat
  | 0, _ => return 0
  | k + 1, c => do
    if (← fatGet c) = 0 then
      fatSet c fat16Eoc
      store ⟨c, 0⟩ (List.replicate v.clusterBytes 0)
      setHint (c + 1)
      return c
    else allocScan v k (c + 1)

/-- One zeroed cluster marked end-of-chain; 0 when the disk is full. -/
def fatAlloc (v : Vol) : FatM Nat := do
  let hint ← getHint
  let c ← allocScan v (v.clusterCount + 2 - hint) hint
  if c ≠ 0 then return c else allocScan v (hint - 2) 2

def freeLoop (v : Vol) : Nat → Nat → FatM Unit
  | 0, _ => return ()
  | guard + 1, c => do
    if v.validCluster c then
      let next ← fatGet c
      fatSet c 0
      if c < (← getHint) then setHint c
      freeLoop v guard next

def fatFreeChain (v : Vol) (c : Nat) : FatM Unit := freeLoop v v.clusterCount c

/-- The cluster after `c`; with `extend`, a new one at the end of the chain. -/
def slotNext (v : Vol) (extend : Bool) (c : Nat) : FatM (Option Nat) := do
  let next ← fatGet c
  if v.validCluster next then return some next
  else if !extend then return none
  else do
    let n ← fatAlloc v
    if n = 0 then return none
    else do
      fatSet c n
      return some n

def slotWalk (v : Vol) (extend : Bool) : Nat → Nat → Nat → FatM (Option Addr)
  | 0, c, idx => do
    if idx < v.per then return some ⟨c, idx * direntSize⟩
    else
      let _ ← slotNext v extend c
      return none
  | guard + 1, c, idx => do
    if idx < v.per then return some ⟨c, idx * direntSize⟩
    else
      match ← slotNext v extend c with
      | none => return none
      | some next => slotWalk v extend guard next (idx - v.per)

def dirSlot (v : Vol) (dir idx : Nat) (extend : Bool) : FatM (Option Addr) :=
  if dir = 0 then return if v.rootEntries ≤ idx then none else some ⟨0, idx * direntSize⟩
  else if !v.validCluster dir then return none
  else slotWalk v extend v.clusterCount dir idx

/-! ## What the code does on any disk -/

/-- The clusters of the chain from `c` on, at most `n + 1`. -/
def chainFrom (v : Vol) (d : Disk) : Nat → Nat → List Nat
  | 0, c => [c]
  | n + 1, c => c :: if v.validCluster (d.fat c) then chainFrom v d n (d.fat c) else []

def clusterSlots (v : Vol) (c : Nat) : List Addr := (List.range v.per).map fun i => ⟨c, i * direntSize⟩

/-- The slots of a directory. -/
def dirAddrs (v : Vol) (d : Disk) (dir : Nat) : List Addr :=
  if dir = 0 then (List.range v.rootEntries).map fun i => ⟨0, i * direntSize⟩
  else if v.validCluster dir then (chainFrom v d v.clusterCount dir).flatMap (clusterSlots v)
  else []

/-- The disk after a cluster is allocated. -/
def Disk.alloc (v : Vol) (d : Disk) (c : Nat) : Disk :=
  { (d.setFat c fat16Eoc).put ⟨c, 0⟩ (List.replicate v.clusterBytes 0) with hint := c + 1 }

section Spec

variable {v : Vol} {len : Nat} {d : Disk}

abbrev Wp (v : Vol) {α : Type} (p : FatM α) (Q : α → Disk → Prop) (d : Disk) : Prop := p.wp diskStep v.Allowed Q d

/-- With the faults there may be. -/
abbrev Wpe (v : Vol) {α : Type} (p : FatM α) (Q : α → Disk → Prop) (E : Fault → Prop) (d : Disk) : Prop :=
  p.wpe diskStep v.Allowed Q E d

theorem wp_load {α : Type} {a : Addr} {n : Nat} {f : List UInt8 → FatM α} {Q : α → Disk → Prop} {E : Fault → Prop}
    (ha : v.Within a n) (h : ∀ e, e = d.get a n → Wpe v (f e) Q E d) : Wpe v (load a n >>= f) Q E d :=
  Prog.wp_bind ⟨ha, h _ rfl⟩

theorem wp_store {α : Type} {a : Addr} {bytes : List UInt8} {f : Unit → FatM α} {Q : α → Disk → Prop} {E : Fault → Prop}
    (ha : v.Within a bytes.length) (h : Wpe v (f ()) Q E (d.put a bytes)) : Wpe v (store a bytes >>= f) Q E d :=
  Prog.wp_bind ⟨ha, h⟩

/-- The number of free clusters among `k` from `c` on. -/
def freeCount (d : Disk) : Nat → Nat → Nat
  | 0, _ => 0
  | k + 1, c => freeCount d k (c + 1) + if d.fat c = 0 then 1 else 0

theorem freeCount_pos {c k n : Nat} (hlo : n ≤ c) (hhi : c < n + k) (h : d.fat c = 0) : 1 ≤ freeCount d k n := by
  induction k generalizing n with
  | zero => omega
  | succ k ih =>
    rw [freeCount]
    by_cases hcn : c = n
    · rw [← hcn, if_pos h]
      omega
    · have := ih (n := n + 1) (by omega) (by omega)
      omega

theorem countFree_spec (k c n : Nat) (hc : 2 ≤ c) (hk : c + k ≤ v.clusterCount + 2) :
    Wp v (countFree k c n) (fun r d' => r = n + freeCount d k c ∧ d' = d) d := by
  induction k generalizing c n with
  | zero => exact ⟨rfl, rfl⟩
  | succ k ih =>
    refine Prog.wp_bind ⟨⟨hc, by omega⟩, ?_⟩
    show Wp v (countFree k (c + 1) (if d.fat c = 0 then n + 1 else n)) _ d
    refine Prog.wp_mono (ih (c + 1) _ (by omega) (by omega)) fun r d' h => ?_
    obtain ⟨rfl, rfl⟩ := h
    refine ⟨?_, rfl⟩
    rw [freeCount]
    split <;> omega

theorem fatFreeClusters_spec (v : Vol) (d : Disk) :
    Wp v (fatFreeClusters v) (fun r d' => r = freeCount d v.clusterCount 2 ∧ d' = d) d :=
  Prog.wp_mono (countFree_spec v.clusterCount 2 0 (Nat.le_refl 2) (by omega)) fun r d' h => ⟨by simpa using h.1, h.2⟩

theorem allocScan_spec (k c : Nat) (hc : 2 ≤ c) (hk : c + k ≤ v.clusterCount + 2) :
    Wp v (allocScan v k c) (fun r d' =>
      (r = 0 ∧ d' = d ∧ ∀ e, c ≤ e → e < c + k → d.fat e ≠ 0) ∨
      (c ≤ r ∧ r < c + k ∧ d.fat r = 0 ∧ d' = d.alloc v r)) d := by
  induction k generalizing c with
  | zero => exact .inl ⟨rfl, rfl, fun e h1 h2 => absurd h2 (by omega)⟩
  | succ k ih =>
    have hvalid : v.Valid c := ⟨hc, by omega⟩
    have hne : c ≠ 0 := by omega
    refine Prog.wp_bind ⟨hvalid, ?_⟩
    show Wp v (if d.fat c = 0 then _ else _) _ d
    split
    · rename_i hfree
      refine Prog.wp_bind ⟨hvalid, Prog.wp_bind ⟨⟨.inr hvalid, ?_⟩, Prog.wp_bind ⟨trivial, ?_⟩⟩⟩
      · simp [Vol.span, hne]
      · exact .inr ⟨Nat.le_refl c, by omega, hfree, rfl⟩
    · rename_i hused
      refine Prog.wp_mono (ih (c + 1) (by omega) (by omega)) fun r d' h => ?_
      rcases h with ⟨h1, h2, h3⟩ | ⟨h1, h2, h3, h4⟩
      · refine .inl ⟨h1, h2, fun e he1 he2 => ?_⟩
        by_cases hec : e = c
        · rw [hec]
          exact hused
        · exact h3 e (by omega) (by omega)
      · exact .inr ⟨by omega, by omega, h3, h4⟩

/-- The result of an allocation: nothing is free, or a free cluster was taken. -/
def Allocated (v : Vol) (d : Disk) (r : Nat) (d' : Disk) : Prop :=
  (r = 0 ∧ d' = d ∧ ∀ e, v.Valid e → d.fat e ≠ 0) ∨ (v.Valid r ∧ d.fat r = 0 ∧ d' = d.alloc v r)

theorem fatAlloc_spec (hd : v.DiskOk d) : Wp v (fatAlloc v) (Allocated v d) d := by
  obtain ⟨hlo, hhi⟩ := hd.hint
  refine Prog.wp_bind ⟨trivial, ?_⟩
  refine Prog.wp_seq (allocScan_spec (v.clusterCount + 2 - d.hint) d.hint hlo (by omega)) fun r d' h => ?_
  rcases h with ⟨rfl, rfl, h1⟩ | ⟨h1, h2, h3, rfl⟩
  · rw [if_neg (by simp)]
    refine Prog.wp_mono (allocScan_spec (d'.hint - 2) 2 (Nat.le_refl 2) (by omega)) fun r d'' h => ?_
    rcases h with ⟨rfl, rfl, h2⟩ | ⟨h2, h3, h4, rfl⟩
    · refine .inl ⟨rfl, rfl, fun e he => ?_⟩
      obtain ⟨he1, he2⟩ := he
      by_cases hlt : e < d''.hint
      · exact h2 e he1 (by omega)
      · exact h1 e (by omega) (by omega)
    · exact .inr ⟨⟨h2, by omega⟩, h4, rfl⟩
  · rw [if_pos (by omega)]
    exact .inr ⟨⟨by omega, by omega⟩, h3, rfl⟩

theorem alloc_ok (d : Disk) {c : Nat} (hc : v.Valid c) : v.DiskOk (d.alloc v c) := by
  have h1 := hc.1
  have h2 := hc.2
  refine ⟨?_⟩
  show 2 ≤ c + 1 ∧ c + 1 ≤ v.clusterCount + 2
  omega

theorem setFat_ok (hd : v.DiskOk d) (c val : Nat) : v.DiskOk (d.setFat c val) := ⟨hd.hint⟩

theorem Allocated.ok {r : Nat} {d' : Disk} (h : Allocated v d r d') (hd : v.DiskOk d) : v.DiskOk d' := by
  rcases h with ⟨-, rfl, -⟩ | ⟨h1, -, rfl⟩
  · exact hd
  · exact alloc_ok _ h1

/-! ### Freeing -/

/-- What freeing may do: entries become free, contents stay. -/
structure Freed (v : Vol) (d d' : Disk) : Prop where
  ok : v.DiskOk d'
  mem : d'.mem = d.mem
  clock : d'.clock = d.clock
  fat : ∀ e, d'.fat e = d.fat e ∨ d'.fat e = 0

theorem Freed.refl (hd : v.DiskOk d) : Freed v d d := ⟨hd, rfl, rfl, fun _ => .inl rfl⟩

/-- The disk after one cluster of a chain is freed. -/
def Disk.free (d : Disk) (c : Nat) : Disk := { d.setFat c 0 with hint := if c < d.hint then c else d.hint }

theorem free_ok (hd : v.DiskOk d) {c : Nat} (hc : v.Valid c) : v.DiskOk (d.free c) := by
  obtain ⟨hlo, hhi⟩ := hd.hint
  obtain ⟨h1, h2⟩ := hc
  refine ⟨?_⟩
  show 2 ≤ (if c < d.hint then c else d.hint) ∧ (if c < d.hint then c else d.hint) ≤ v.clusterCount + 2
  split <;> omega

/-- One round of the loop. -/
theorem freeLoop_step {g c : Nat} {Q : Unit → Disk → Prop} (hc : v.Valid c)
    (h : Wp v (freeLoop v g (d.fat c)) Q (d.free c)) : Wp v (freeLoop v (g + 1) c) Q d := by
  unfold freeLoop
  rw [if_pos (valid_iff.mpr hc)]
  refine Prog.wp_bind ⟨hc, Prog.wp_bind ⟨hc, Prog.wp_bind ⟨trivial, ?_⟩⟩⟩
  show Wp v (if c < d.hint then _ else _) _ (d.setFat c 0)
  have hfree : d.free c = { d.setFat c 0 with hint := if c < d.hint then c else d.hint } := rfl
  by_cases hlt : c < d.hint
  · rw [if_pos hlt] at hfree ⊢
    refine Prog.wp_bind ⟨trivial, ?_⟩
    rw [hfree] at h
    exact h
  · rw [if_neg hlt] at hfree ⊢
    rw [hfree] at h
    exact h

theorem freeLoop_stop {g c : Nat} {Q : Unit → Disk → Prop} (hc : ¬ v.Valid c) (h : Q () d) : Wp v (freeLoop v g c) Q d := by
  cases g with
  | zero => exact h
  | succ g =>
    unfold freeLoop
    rw [if_neg fun hv => hc (valid_iff.mp hv)]
    exact h

theorem freeLoop_spec (g c : Nat) (hd : v.DiskOk d) : Wp v (freeLoop v g c) (fun _ d' => Freed v d d') d := by
  induction g generalizing c d with
  | zero => exact Freed.refl hd
  | succ g ih =>
    by_cases hc : v.Valid c
    · refine freeLoop_step hc (Prog.wp_mono (ih (d.fat c) (free_ok hd hc)) fun _ d' h => ?_)
      refine ⟨h.ok, h.mem, h.clock, fun e => ?_⟩
      rcases h.fat e with he | he
      · by_cases hec : e = c
        · exact .inr (by rw [he, hec]; simp [Disk.free, Disk.setFat])
        · exact .inl (by rw [he]; simp [Disk.free, Disk.setFat, hec])
      · exact .inr he
    · exact freeLoop_stop hc (Freed.refl hd)

/-- On a chain the loop frees exactly its clusters. -/
theorem freeLoop_chain {stop : Nat → Prop} {l : List Nat} {g c : Nat} (hd : v.DiskOk d) (hl : Chain d.fat v.Valid stop c l)
    (hstop : ∀ e, stop e → ¬ v.Valid e) (hnd : l.Nodup) (hg : l.length ≤ g) :
    Wp v (freeLoop v g c) (fun _ d' => Freed v d d' ∧ ∀ e, d'.fat e = if e ∈ l then 0 else d.fat e) d := by
  induction l generalizing g c d with
  | nil => exact freeLoop_stop (hstop c hl) ⟨Freed.refl hd, fun e => by simp⟩
  | cons x l ih =>
    obtain ⟨rfl, hv, hrest⟩ := hl
    obtain ⟨hx, hnd⟩ := List.nodup_cons.mp hnd
    cases g with
    | zero => simp at hg
    | succ g =>
      have hrest' : Chain (d.free x).fat v.Valid stop (d.fat x) l :=
        hrest.congr fun y hy => if_neg fun heq : y = x => hx (heq ▸ hy)
      refine freeLoop_step hv (Prog.wp_mono (ih (free_ok hd hv) hrest' hnd (by simpa using hg)) fun _ d' h => ?_)
      obtain ⟨hf, hfat⟩ := h
      have hall : ∀ e, d'.fat e = if e ∈ x :: l then 0 else d.fat e := fun e => by
        rw [hfat e]
        by_cases hex : e = x <;> simp [Disk.free, Disk.setFat, hex]
      refine ⟨⟨hf.ok, hf.mem, hf.clock, fun e => ?_⟩, hall⟩
      rw [hall e]
      split
      · exact .inr rfl
      · exact .inl rfl

/-! ### Slots -/

theorem chainFrom_ne_nil (n c : Nat) : chainFrom v d n c ≠ [] := by cases n <;> simp [chainFrom]

theorem chainFrom_length (n c : Nat) : (chainFrom v d n c).length ≤ n + 1 := by
  induction n generalizing c with
  | zero => simp [chainFrom]
  | succ n ih =>
    rw [chainFrom]
    have := ih (d.fat c)
    split
    · simpa using this
    · simp

theorem chainFrom_valid (n : Nat) {c : Nat} (hc : v.Valid c) : ∀ x ∈ chainFrom v d n c, v.Valid x := by
  induction n generalizing c with
  | zero => simpa [chainFrom] using hc
  | succ n ih =>
    intro x hx
    rw [chainFrom] at hx
    rcases List.mem_cons.mp hx with rfl | hx
    · exact hc
    · split at hx
      · rename_i hnext
        exact ih (valid_iff.mp hnext) x hx
      · simp at hx

/-- A chain is what the walk finds. -/
theorem chainFrom_chain {stop : Nat → Prop} (hstop : ∀ e, stop e → ¬ v.Valid e) {l : List Nat} {n c : Nat}
    (hl : Chain d.fat v.Valid stop c l) (hne : l ≠ []) (hn : l.length ≤ n + 1) : chainFrom v d n c = l := by
  induction n generalizing c l with
  | zero =>
    obtain ⟨m, rfl⟩ := hl.head hne
    have : m = [] := List.eq_nil_of_length_eq_zero (by simpa using hn)
    rw [this]
    rfl
  | succ n ih =>
    obtain ⟨m, rfl⟩ := hl.head hne
    obtain ⟨-, -, hrest⟩ := hl
    rw [chainFrom]
    cases m with
    | nil => rw [if_neg fun h => hstop _ hrest (valid_iff.mp h)]
    | cons y m =>
      rw [if_pos (valid_iff.mpr hrest.2.1), ih hrest (by simp) (by simpa using hn)]

theorem clusterSlots_length (v : Vol) (c : Nat) : (clusterSlots v c).length = v.per := by simp [clusterSlots]

theorem slots_length (v : Vol) (l : List Nat) : (l.flatMap (clusterSlots v)).length = l.length * v.per := by
  induction l with
  | nil => simp
  | cons c l ih => simp [List.flatMap_cons, ih, clusterSlots_length, Nat.succ_mul, Nat.add_comm]

theorem slots_cons_lt {c idx : Nat} (l : List Nat) (h : idx < v.per) :
    ((c :: l).flatMap (clusterSlots v))[idx]? = some ⟨c, idx * direntSize⟩ := by
  rw [List.flatMap_cons, List.getElem?_append_left (by rw [clusterSlots_length]; exact h)]
  simp [clusterSlots, h]

theorem slots_cons_ge {c idx : Nat} (l : List Nat) (h : v.per ≤ idx) :
    ((c :: l).flatMap (clusterSlots v))[idx]? = (l.flatMap (clusterSlots v))[idx - v.per]? := by
  rw [List.flatMap_cons, List.getElem?_append_right (by rw [clusterSlots_length]; exact h), clusterSlots_length]

theorem root_within {i : Nat} (hi : i < v.rootEntries) : v.Within ⟨0, i * direntSize⟩ direntSize := by
  refine ⟨.inl rfl, ?_⟩
  simp only [Vol.span, if_true, direntSize]
  omega

theorem cluster_within {c i : Nat} (hc : v.Valid c) (hi : i < v.per) : v.Within ⟨c, i * direntSize⟩ direntSize := by
  have hne : c ≠ 0 := by have := hc.1; omega
  have hper : v.per * 32 ≤ v.clusterBytes := Nat.div_mul_le_self _ _
  refine ⟨.inr hc, ?_⟩
  simp only [Vol.span, hne, if_false, direntSize]
  have : i * 32 + 32 ≤ v.per * 32 := by omega
  omega

/-- A slot is inside its region. -/
theorem dirAddrs_within {dir : Nat} {a : Addr} (ha : a ∈ dirAddrs v d dir) : v.Within a direntSize := by
  unfold dirAddrs at ha
  split at ha
  · obtain ⟨i, hi, rfl⟩ := List.mem_map.mp ha
    exact root_within (List.mem_range.mp hi)
  · split at ha
    · rename_i hv
      obtain ⟨c, hc, ha⟩ := List.mem_flatMap.mp ha
      obtain ⟨i, hi, rfl⟩ := List.mem_map.mp ha
      exact cluster_within (chainFrom_valid _ (valid_iff.mp hv) c hc) (List.mem_range.mp hi)
    · simp at ha

theorem slotWalk_spec (g : Nat) {c : Nat} (idx : Nat) (hc : v.Valid c) :
    Wp v (slotWalk v false g c idx) (fun r d' => r = ((chainFrom v d g c).flatMap (clusterSlots v))[idx]? ∧ d' = d) d := by
  induction g generalizing c idx with
  | zero =>
    unfold slotWalk
    by_cases hidx : idx < v.per
    · rw [if_pos hidx, chainFrom, slots_cons_lt [] hidx]
      exact ⟨rfl, rfl⟩
    · rw [if_neg hidx, chainFrom, slots_cons_ge [] (by omega)]
      refine Prog.wp_bind (Prog.wp_bind ⟨hc, ?_⟩)
      show Wp v (if v.validCluster (d.fat c) = true then _ else _) _ d
      split <;> exact ⟨by simp, rfl⟩
  | succ g ih =>
    unfold slotWalk
    by_cases hidx : idx < v.per
    · rw [if_pos hidx, chainFrom, slots_cons_lt _ hidx]
      exact ⟨rfl, rfl⟩
    · rw [if_neg hidx, chainFrom, slots_cons_ge _ (by omega)]
      refine Prog.wp_bind (Prog.wp_bind ⟨hc, ?_⟩)
      show Wp v (if v.validCluster (d.fat c) = true then _ else _) _ d
      by_cases hnext : v.validCluster (d.fat c)
      · rw [if_pos hnext, if_pos hnext]
        exact ih _ (valid_iff.mp hnext)
      · rw [if_neg hnext, if_neg hnext]
        exact ⟨by simp, rfl⟩

/-- `dir_slot` is an entry of the list of slots. -/
theorem dirSlot_spec (dir idx : Nat) :
    Wp v (dirSlot v dir idx false) (fun r d' => r = (dirAddrs v d dir)[idx]? ∧ d' = d) d := by
  unfold dirSlot dirAddrs
  by_cases h0 : dir = 0
  · rw [if_pos h0, if_pos h0]
    refine ⟨?_, rfl⟩
    by_cases hidx : v.rootEntries ≤ idx
    · simp [hidx]
    · rw [if_neg hidx]
      simp [Nat.lt_of_not_le hidx]
  · rw [if_neg h0, if_neg h0]
    by_cases hv : v.validCluster dir
    · rw [if_neg (by simp [hv]), if_pos hv]
      exact slotWalk_spec _ _ (valid_iff.mp hv)
    · rw [if_pos (by simp [hv]), if_neg hv]
      exact ⟨by simp, rfl⟩

/-! ### Growing -/

/-- A free cluster `n`, zeroed, behind the cluster `t` that had no next. -/
structure Grow (v : Vol) (t n : Nat) (d d' : Disk) : Prop where
  last : v.Valid t
  ended : ¬ v.Valid (d.fat t)
  valid : v.Valid n
  free : d.fat n = 0
  eq : d' = (d.alloc v n).setFat t (n % 65536)

theorem Grow.ok {t n : Nat} {d' : Disk} (h : Grow v t n d d') : v.DiskOk d' := by
  rw [h.eq]
  exact setFat_ok (alloc_ok d h.valid) t _

/-- Links to valid clusters stay. -/
theorem Grow.links {t n : Nat} {d' : Disk} (h : Grow v t n d d') : ∀ e, v.Valid (d.fat e) → d'.fat e = d.fat e := by
  intro e he
  have h1 : e ≠ t := fun heq => h.ended (heq ▸ he)
  have h2 : e ≠ n := fun heq => by
    have := he.1
    rw [heq, h.free] at this
    omega
  rw [h.eq]
  simp [Disk.setFat, Disk.alloc, Disk.put, h1, h2]

/-- What `dir_slot` may do when it extends: answer a slot that is there, fail on the last
    one, or go on to the first slot of a new cluster. It fails on that one too where the
    chain has used up the guard. -/
def Extends (v : Vol) (g : Nat) (l : List Nat) (idx : Nat) (d : Disk) (r : Option Addr) (d' : Disk) : Prop :=
  (r = (l.flatMap (clusterSlots v))[idx]? ∧ d' = d) ∨
  ∃ t n, idx = l.length * v.per ∧ l.getLast? = some t ∧ Grow v t n d d' ∧
    (r = some ⟨n, 0⟩ ∧ l.length ≤ g ∨ r = none ∧ l.length = g + 1)

/-- The next cluster, where there is one or none. -/
theorem slotNext_spec {c : Nat} (hd : v.DiskOk d) (hc : v.Valid c) :
    Wp v (slotNext v true c) (fun r d' =>
      (v.Valid (d.fat c) ∧ r = some (d.fat c) ∧ d' = d) ∨
      (¬ v.Valid (d.fat c) ∧ (r = none ∧ d' = d ∧ (∀ e, v.Valid e → d.fat e ≠ 0) ∨ ∃ n, r = some n ∧ Grow v c n d d'))) d := by
  refine Prog.wp_bind ⟨hc, ?_⟩
  show Wp v (if v.validCluster (d.fat c) = true then _ else _) _ d
  by_cases hnext : v.validCluster (d.fat c)
  · rw [if_pos hnext]
    exact .inl ⟨valid_iff.mp hnext, rfl, rfl⟩
  · rw [if_neg hnext, if_neg (by simp)]
    have hended : ¬ v.Valid (d.fat c) := fun h => hnext (valid_iff.mpr h)
    refine Prog.wp_seq (fatAlloc_spec hd) fun n d1 h => ?_
    rcases h with ⟨rfl, rfl, hfull⟩ | ⟨hn, hfree, rfl⟩
    · exact .inr ⟨hended, .inl ⟨rfl, rfl, hfull⟩⟩
    · rw [if_neg (by have := hn.1; omega)]
      exact Prog.wp_bind ⟨hc, .inr ⟨hended, .inr ⟨n, rfl, hc, hended, hn, hfree, rfl⟩⟩⟩

theorem slotWalk_extends (g : Nat) {c idx : Nat} (hd : v.DiskOk d) (hper : 0 < v.per) (hc : v.Valid c)
    (hidx : idx ≤ (chainFrom v d g c).length * v.per) :
    Wp v (slotWalk v true g c idx) (Extends v g (chainFrom v d g c) idx d) d := by
  induction g generalizing c idx with
  | zero =>
    unfold slotWalk
    by_cases hlt : idx < v.per
    · rw [if_pos hlt, chainFrom]
      exact .inl ⟨(slots_cons_lt [] hlt).symm, rfl⟩
    · rw [if_neg hlt]
      simp only [chainFrom, List.length_singleton, Nat.one_mul] at hidx
      have hnone : (List.flatMap (clusterSlots v) (chainFrom v d 0 c))[idx]? = none := by
        rw [chainFrom, slots_cons_ge [] (by omega)]
        rfl
      refine Prog.wp_seq (slotNext_spec hd hc) fun r d' h => ?_
      rcases h with ⟨-, -, rfl⟩ | ⟨-, ⟨-, rfl, -⟩ | ⟨n, -, hgrow⟩⟩
      · exact .inl ⟨hnone.symm, rfl⟩
      · exact .inl ⟨hnone.symm, rfl⟩
      · exact .inr ⟨c, n, by simp only [chainFrom, List.length_singleton]; omega, rfl, hgrow, .inr ⟨rfl, rfl⟩⟩
  | succ g ih =>
    unfold slotWalk
    by_cases hlt : idx < v.per
    · rw [if_pos hlt, chainFrom]
      exact .inl ⟨(slots_cons_lt _ hlt).symm, rfl⟩
    · rw [if_neg hlt]
      refine Prog.wp_seq (slotNext_spec hd hc) fun r d' h => ?_
      rcases h with ⟨hnext, rfl, rfl⟩ | ⟨hended, h⟩
      · -- the chain goes on: what the rest of the walk does, one cluster further
        have hchain : chainFrom v d' (g + 1) c = c :: chainFrom v d' g (d'.fat c) := by
          rw [chainFrom, if_pos (valid_iff.mpr hnext)]
        rw [hchain, List.length_cons, Nat.succ_mul] at hidx
        rw [hchain]
        refine Prog.wp_mono (ih hnext (by omega)) fun r d'' h => ?_
        rcases h with ⟨hr, rfl⟩ | ⟨t, n, hlen, hlast, hgrow, h⟩
        · exact .inl ⟨by rw [hr, slots_cons_ge _ (by omega)], rfl⟩
        · refine .inr ⟨t, n, ?_, ?_, hgrow, ?_⟩
          · rw [List.length_cons, Nat.succ_mul]
            omega
          · rw [List.getLast?_cons, hlast]
            rfl
          · simpa using h
      · have hchain : chainFrom v d (g + 1) c = [c] := by
          rw [chainFrom, if_neg fun h => hended (valid_iff.mp h)]
        rw [hchain] at hidx ⊢
        simp only [List.length_singleton, Nat.one_mul] at hidx
        have hnone : ([c].flatMap (clusterSlots v))[idx]? = none := by
          rw [slots_cons_ge [] (by omega)]
          rfl
        rcases h with ⟨rfl, rfl, -⟩ | ⟨n, rfl, hgrow⟩
        · exact .inl ⟨hnone.symm, rfl⟩
        · -- a new cluster: its first slot is the one
          have hzero : idx - v.per < v.per := by omega
          have hfirst : idx - v.per = 0 := by omega
          have hwalk : slotWalk v true g n (idx - v.per) = Prog.ret (some ⟨n, 0⟩) := by
            cases g <;> (unfold slotWalk; rw [if_pos hzero, hfirst]; rfl)
          show Wp v (slotWalk v true g n (idx - v.per)) _ d'
          rw [hwalk]
          exact .inr ⟨c, n, by simp only [List.length_singleton]; omega, rfl, hgrow, .inl ⟨rfl, by simp⟩⟩

theorem slotWalk_safe (g : Nat) {c idx : Nat} (hd : v.DiskOk d) (hc : v.Valid c) :
    Wp v (slotWalk v true g c idx) (fun r d' =>
      v.DiskOk d' ∧ ∀ a, r = some a → v.Within a direntSize ∧ idx < (g + 1) * v.per) d := by
  induction g generalizing c idx d with
  | zero =>
    unfold slotWalk
    by_cases hlt : idx < v.per
    · rw [if_pos hlt]
      refine ⟨hd, fun a ha => ?_⟩
      cases ha
      exact ⟨cluster_within hc hlt, by omega⟩
    · rw [if_neg hlt]
      refine Prog.wp_seq (slotNext_spec hd hc) fun r d' h => ?_
      rcases h with ⟨-, -, rfl⟩ | ⟨-, ⟨-, rfl, -⟩ | ⟨n, -, hgrow⟩⟩
      · exact ⟨hd, by simp⟩
      · exact ⟨hd, by simp⟩
      · exact ⟨hgrow.ok, by simp⟩
  | succ g ih =>
    unfold slotWalk
    by_cases hlt : idx < v.per
    · rw [if_pos hlt]
      refine ⟨hd, fun a ha => ?_⟩
      cases ha
      exact ⟨cluster_within hc hlt, by rw [Nat.succ_mul]; omega⟩
    · rw [if_neg hlt]
      have hrest : ∀ {d' : Disk} {n : Nat}, v.DiskOk d' → v.Valid n → Wp v (slotWalk v true g n (idx - v.per)) (fun r d' =>
          v.DiskOk d' ∧ ∀ a, r = some a → v.Within a direntSize ∧ idx < (g + 1 + 1) * v.per) d' := fun hd' hn =>
        Prog.wp_mono (ih hd' hn) fun r d' h => ⟨h.1, fun a ha => ⟨(h.2 a ha).1, by
          have := (h.2 a ha).2
          rw [Nat.succ_mul]
          omega⟩⟩
      refine Prog.wp_seq (slotNext_spec hd hc) fun r d' h => ?_
      rcases h with ⟨hnext, rfl, rfl⟩ | ⟨-, ⟨rfl, rfl, -⟩ | ⟨n, rfl, hgrow⟩⟩
      · exact hrest hd hnext
      · exact ⟨hd, by simp⟩
      · exact hrest hgrow.ok hgrow.valid

/-- `dir_slot` with `extend` on any disk: a slot it gives is in the root directory or in a
    cluster, and its index is bounded. -/
theorem dirSlot_safe {dir idx : Nat} (hd : v.DiskOk d) :
    Wp v (dirSlot v dir idx true) (fun r d' =>
      v.DiskOk d' ∧ ∀ a, r = some a → v.Within a direntSize ∧ idx < v.rootEntries + (v.clusterCount + 1) * v.per) d := by
  unfold dirSlot
  by_cases h0 : dir = 0
  · rw [if_pos h0]
    refine ⟨hd, fun a ha => ?_⟩
    split at ha
    · cases ha
    · cases ha
      exact ⟨root_within (by omega), by omega⟩
  · rw [if_neg h0]
    by_cases hv : v.validCluster dir
    · rw [if_neg (by simp [hv])]
      refine Prog.wp_mono (slotWalk_safe _ hd (valid_iff.mp hv)) fun r d' h => ⟨h.1, fun a ha => ?_⟩
      have := (h.2 a ha).2
      exact ⟨(h.2 a ha).1, by omega⟩
    · rw [if_pos (by simp [hv])]
      exact ⟨hd, by simp⟩

/-- The clusters from `dir` on, as a walk finds them; none for the root. -/
def clusters (v : Vol) (d : Disk) (dir : Nat) : List Nat :=
  if v.validCluster dir then chainFrom v d v.clusterCount dir else []

theorem dirAddrs_cluster {dir : Nat} (hdir : dir ≠ 0) : dirAddrs v d dir = (clusters v d dir).flatMap (clusterSlots v) := by
  unfold dirAddrs clusters
  rw [if_neg hdir]
  split <;> rfl

/-- `dir_slot` with `extend`, on the slots there are and the one behind them. -/
theorem dirSlot_extends {dir idx : Nat} (hd : v.DiskOk d) (hper : 0 < v.per) (hidx : idx ≤ (dirAddrs v d dir).length) :
    Wp v (dirSlot v dir idx true) (fun r d' =>
      (r = (dirAddrs v d dir)[idx]? ∧ d' = d) ∨
      (idx = (dirAddrs v d dir).length ∧ ∃ t n, (clusters v d dir).getLast? = some t ∧ Grow v t n d d' ∧
        (r = some ⟨n, 0⟩ ∧ (clusters v d dir).length ≤ v.clusterCount ∨
          r = none ∧ (clusters v d dir).length = v.clusterCount + 1))) d := by
  unfold dirSlot
  by_cases h0 : dir = 0
  · rw [if_pos h0]
    refine .inl ⟨?_, rfl⟩
    unfold dirAddrs
    rw [if_pos h0]
    by_cases hidx : v.rootEntries ≤ idx
    · simp [hidx]
    · rw [if_neg hidx]
      simp [Nat.lt_of_not_le hidx]
  · rw [if_neg h0]
    by_cases hv : v.validCluster dir
    · have hchain : clusters v d dir = chainFrom v d v.clusterCount dir := if_pos hv
      rw [if_neg (by simp [hv])]
      rw [dirAddrs_cluster h0, slots_length, hchain] at hidx
      refine Prog.wp_mono (slotWalk_extends _ hd hper (valid_iff.mp hv) hidx) fun r d' h => ?_
      rw [dirAddrs_cluster h0, slots_length, hchain]
      rcases h with h | ⟨t, n, h1, h2, h3, h4⟩
      · exact .inl h
      · exact .inr ⟨h1, t, n, h2, h3, h4⟩
    · rw [if_pos (by simp [hv])]
      refine .inl ⟨?_, rfl⟩
      unfold dirAddrs
      rw [if_neg h0, if_neg hv]
      simp

/-- A directory's slots are bounded. -/
theorem dirAddrs_length (dir : Nat) : (dirAddrs v d dir).length ≤ v.rootEntries + (v.clusterCount + 1) * v.per := by
  unfold dirAddrs
  split
  · simp
  · split
    · rw [slots_length]
      have := Nat.mul_le_mul_right v.per (chainFrom_length (v := v) (d := d) v.clusterCount dir)
      omega
    · simp

end Spec

end Be300.Fat
