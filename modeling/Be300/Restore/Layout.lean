/-
  Be300.Restore.Layout — the FAT16 layout of a restore image (`choose_fat_layout` of
  `tools/build_cf_restore_image.py`).

  For each cluster size the FAT's size is searched from 1 on: the FAT needed for the clusters
  that are left beside the FAT tried last. `Layout` says what is looked for: the smallest FAT
  that holds the clusters it leaves. The search ends exactly when no two FAT sizes need each
  other (`choose_layout_iff`). A quotient of integers is a float.
-/

import Be300.Lib.Antitone
import Be300.Lib.Round

namespace Be300.Restore

open Lib

def bytesPerSector : Nat := 512
def rootEntryCount : Nat := 512
def numFats : Nat := 2
def reservedSectors : Nat := 1
def fat16MinClusters : Nat := 4085
def fat16MaxClusters : Nat := 65524

inductive PyError where
  | overflow
  | value
  deriving DecidableEq

def rootDirSectors : Nat := (rootEntryCount * 32 + (bytesPerSector - 1)) / bytesPerSector

/-- What the FATs leave; 0 when nothing is left. -/
def dataSectors (total fat : Nat) : Nat := total - reservedSectors - numFats * fat - rootDirSectors

/-- The exponent from which on a float overflows. -/
def floatExponent : Nat := 1024

/-- A quotient by 512 from which on it is too large for a float. -/
@[irreducible] def floatLimit : Nat := bytesPerSector * 2 ^ floatExponent

theorem pow_le_floatLimit {k : Nat} (h : k ≤ floatExponent) : 2 ^ k ≤ floatLimit := by
  have hpow : 2 ^ k ≤ 2 ^ floatExponent := Nat.pow_le_pow_right (by decide) h
  unfold floatLimit
  exact Nat.le_trans hpow (Nat.le_mul_of_pos_left _ (by decide))

/-- `math.ceil(n / 512)`. -/
def ceilQuotient (n : Nat) : Except PyError Nat :=
  if Round.round 53 n < floatLimit then .ok ((Round.round 53 n + (bytesPerSector - 1)) / bytesPerSector)
  else .error .overflow

def neededFatSectors (total spc fat : Nat) : Except PyError Nat := ceilQuotient ((dataSectors total fat / spc + 2) * 2)

/-- `while True`; the data sectors and the FAT at its end. -/
def fatLoop (total spc : Nat) : Nat → Nat → Option (Except PyError (Nat × Nat))
  | 0, _ => none
  | fuel + 1, fat =>
    if dataSectors total fat = 0 then some (.ok (0, fat))
    else
      match neededFatSectors total spc fat with
      | .error e => some (.error e)
      | .ok needed => if needed = fat then some (.ok (dataSectors total fat, fat)) else fatLoop total spc fuel needed

def chooseFrom (fuel total : Nat) : List Nat → Option (Except PyError (Nat × Nat × Nat))
  | [] => some (.error .value)
  | spc :: rest =>
    match fatLoop total spc fuel 1 with
    | none => none
    | some (.error e) => some (.error e)
    | some (.ok (data, fat)) =>
      if data = 0 then chooseFrom fuel total rest
      else if fat16MinClusters ≤ data / spc ∧ data / spc ≤ fat16MaxClusters then some (.ok (spc, fat, data / spc))
      else chooseFrom fuel total rest

def sectorsPerCluster : List Nat := [1, 2, 4, 8, 16, 32, 64, 128]

def chooseFatLayout (fuel total : Nat) : Option (Except PyError (Nat × Nat × Nat)) := chooseFrom fuel total sectorsPerCluster

/-! ## Layouts -/

/-- The clusters are those the FATs leave, and the FAT is the smallest that has an entry for each and the first two. -/
structure Layout (total spc fat clusters : Nat) : Prop where
  count : clusters = dataSectors total fat / spc
  entries : clusters + 2 ≤ 256 * fat
  least : ∀ f < fat, 256 * f < dataSectors total f / spc + 2
  range : fat16MinClusters ≤ clusters ∧ clusters ≤ fat16MaxClusters
  fits : reservedSectors + numFats * fat + rootDirSectors + clusters * spc ≤ total

def HasLayout (total spc : Nat) : Prop := ∃ fat clusters, Layout total spc fat clusters

/-- What the search is for. -/
def Chosen (total : Nat) : Except PyError (Nat × Nat × Nat) → Prop
  | .ok (spc, fat, clusters) =>
    spc ∈ sectorsPerCluster ∧ Layout total spc fat clusters ∧ ∀ s ∈ sectorsPerCluster, s < spc → ¬ HasLayout total s
  | .error _ => ∀ s ∈ sectorsPerCluster, ¬ HasLayout total s

/-- Two FAT sizes need each other. -/
def Oscillates (total spc : Nat) : Prop :=
  ∃ f g, f < g ∧ neededFatSectors total spc f = .ok g ∧ neededFatSectors total spc g = .ok f

/-- The first quotient is no float. -/
def Overflows (total : Nat) : Prop := neededFatSectors total 1 1 = .error .overflow

section Needed

variable {total spc f g : Nat}

/-- The FAT that is needed, as a number. -/
def needed (total spc f : Nat) : Nat := (Round.round 53 ((dataSectors total f / spc + 2) * 2) + 511) / 512

theorem neededFatSectors_ok {n : Nat} (h : neededFatSectors total spc f = .ok n) : n = needed total spc f := by
  unfold neededFatSectors ceilQuotient at h
  split at h
  · cases h
    rfl
  · cases h

theorem dataSectors_anti (total : Nat) (h : f ≤ g) : dataSectors total g ≤ dataSectors total f := by
  unfold dataSectors numFats
  omega

theorem dataSectors_step (total f : Nat) : dataSectors total f ≤ dataSectors total (f + 1) + 2 := by
  unfold dataSectors numFats
  omega

theorem quotient_anti (total spc : Nat) (h : f ≤ g) : dataSectors total g / spc ≤ dataSectors total f / spc :=
  Nat.div_le_div_right (dataSectors_anti total h)

theorem needed_anti (total spc : Nat) : Antitone (needed total spc) := by
  intro f g h
  have hq := quotient_anti total spc h
  have hround : Round.round 53 ((dataSectors total g / spc + 2) * 2) ≤ Round.round 53 ((dataSectors total f / spc + 2) * 2) :=
    Round.round_mono (by decide) (by omega)
  unfold needed
  omega

theorem needed_pos (total spc f : Nat) : 1 ≤ needed total spc f := by
  unfold needed
  generalize dataSectors total f / spc = q
  have hround : Round.round 53 4 ≤ Round.round 53 ((q + 2) * 2) := Round.round_mono (by decide) (by omega)
  rw [Round.round_of_lt (by decide) (by decide)] at hround
  omega

theorem quotient_le (total spc f : Nat) : dataSectors total f / spc ≤ total := by
  have hdiv := Nat.div_le_self (dataSectors total f) spc
  unfold dataSectors at *
  omega

theorem needed_le (total spc f : Nat) : 512 * needed total spc f ≤ 4 * total + 519 := by
  have hround : Round.round 53 ((dataSectors total f / spc + 2) * 2) ≤ 2 * ((dataSectors total f / spc + 2) * 2) :=
    Round.round_lt_double (by decide) _
  have hq := quotient_le total spc f
  unfold needed
  omega

theorem data_needed (htotal : 49152 ≤ total) (spc f : Nat) : 0 < dataSectors total (needed total spc f) := by
  have hle := needed_le total spc f
  unfold dataSectors reservedSectors numFats rootDirSectors rootEntryCount bytesPerSector
  omega

/-- Below 2 ^ 50 sectors the quotient is exact. -/
theorem needed_exact (h : dataSectors total f / spc < 2 ^ 50) :
    needed total spc f = (dataSectors total f / spc + 2 + 255) / 256 := by
  unfold needed
  generalize dataSectors total f / spc = q at h ⊢
  rw [Round.round_of_lt (by decide) (by omega)]
  omega

theorem neededFatSectors_eq (h : ¬ Overflows total) (spc : Nat) (hf : 1 ≤ f) :
    neededFatSectors total spc f = .ok (needed total spc f) := by
  have hfirst : Round.round 53 ((dataSectors total 1 / 1 + 2) * 2) < floatLimit := by
    by_contra hlarge
    unfold Overflows neededFatSectors ceilQuotient at h
    rw [if_neg hlarge] at h
    exact h rfl
  have hq := quotient_anti total spc hf
  have hdiv := Nat.div_le_self (dataSectors total 1) spc
  have hround : Round.round 53 ((dataSectors total f / spc + 2) * 2) ≤ Round.round 53 ((dataSectors total 1 / 1 + 2) * 2) := by
    refine Round.round_mono (by decide) ?_
    rw [Nat.div_one]
    omega
  unfold neededFatSectors ceilQuotient
  rw [if_pos (Nat.lt_of_le_of_lt hround hfirst)]
  rfl

theorem oscillates_iff (h : ¬ Overflows total) : Oscillates total spc ↔ ∃ a b, Antitone.Swaps (needed total spc) a b := by
  constructor
  · rintro ⟨f, g, hlt, hf, hg⟩
    exact ⟨f, g, (neededFatSectors_ok hf).symm, (neededFatSectors_ok hg).symm, hlt⟩
  · rintro ⟨a, b, hab, hba, hlt⟩
    have ha := needed_pos total spc b
    rw [hba] at ha
    refine ⟨a, b, hlt, ?_, ?_⟩
    · rw [neededFatSectors_eq h spc ha, hab]
    · rw [neededFatSectors_eq h spc (by omega), hba]

end Needed

/-! ## The loop -/

section Loop

variable {total spc f p : Nat}

theorem fatLoop_succ (hover : ¬ Overflows total) (fuel : Nat) (hf : 1 ≤ f) (hdata : 0 < dataSectors total f) :
    fatLoop total spc (fuel + 1) f = if needed total spc f = f then some (.ok (dataSectors total f, f))
      else fatLoop total spc fuel (needed total spc f) := by
  rw [fatLoop, if_neg (by omega), neededFatSectors_eq hover spc hf]

theorem fatLoop_fixed (hover : ¬ Overflows total) (hf : 1 ≤ f) (hdata : 0 < dataSectors total f) (hfix : needed total spc f = f)
    {fuel : Nat} (hfuel : 1 ≤ fuel) : fatLoop total spc fuel f = some (.ok (dataSectors total f, f)) := by
  obtain ⟨k, rfl⟩ := Nat.exists_eq_add_of_le' hfuel
  rw [fatLoop_succ hover k hf hdata, if_pos hfix]

/-- The loop ends at the fixed point. -/
theorem fatLoop_settles (hover : ¬ Overflows total) (htotal : 49152 ≤ total) (hf : 1 ≤ f) (hdata : 0 < dataSectors total f)
    (h : Antitone.Settles (needed total spc) f) :
    ∃ p least, 1 ≤ p ∧ 0 < dataSectors total p ∧ needed total spc p = p ∧
      ∀ fuel, least ≤ fuel → fatLoop total spc fuel f = some (.ok (dataSectors total p, p)) := by
  obtain ⟨n, hn⟩ := h
  induction n generalizing f with
  | zero => exact ⟨f, 1, hf, hdata, hn, fun fuel => fatLoop_fixed hover hf hdata hn⟩
  | succ n ih =>
    by_cases hfix : needed total spc f = f
    · exact ⟨f, 1, hf, hdata, hfix, fun fuel => fatLoop_fixed hover hf hdata hfix⟩
    · obtain ⟨p, least, hp, hpdata, hpfix, hloop⟩ := ih (needed_pos total spc f) (data_needed htotal spc f) hn
      refine ⟨p, least + 1, hp, hpdata, hpfix, ?_⟩
      intro fuel hfuel
      obtain ⟨k, rfl⟩ := Nat.exists_eq_add_of_le' (show 1 ≤ fuel by omega)
      rw [fatLoop_succ hover k hf hdata, if_neg hfix]
      exact hloop k (by omega)

theorem fatLoop_never (hover : ¬ Overflows total) (htotal : 49152 ≤ total) (hf : 1 ≤ f) (hdata : 0 < dataSectors total f)
    (h : ¬ Antitone.Settles (needed total spc) f) (fuel : Nat) : fatLoop total spc fuel f = none := by
  induction fuel generalizing f with
  | zero => rfl
  | succ fuel ih =>
    have hfix : needed total spc f ≠ f := by
      intro hfix
      exact h ⟨0, hfix⟩
    rw [fatLoop_succ hover fuel hf hdata, if_neg hfix]
    apply ih (needed_pos total spc f) (data_needed htotal spc f)
    rintro ⟨n, hn⟩
    exact h ⟨n + 1, hn⟩

theorem fatLoop_more {r : Except PyError (Nat × Nat)} {fuel : Nat} (h : fatLoop total spc fuel f = some r) (k : Nat) :
    fatLoop total spc (fuel + k) f = some r := by
  induction fuel generalizing f with
  | zero => cases h
  | succ fuel ih =>
    rw [show fuel + 1 + k = fuel + k + 1 by omega, fatLoop]
    rw [fatLoop] at h
    split at h
    · rename_i hdata
      rwa [if_pos hdata]
    · rename_i hdata
      rw [if_neg hdata]
      cases hneeded : neededFatSectors total spc f with
      | error e =>
        rw [hneeded] at h
        exact h
      | ok n =>
        rw [hneeded] at h
        simp only at h ⊢
        split at h
        · rename_i hfix
          rwa [if_pos hfix]
        · rename_i hfix
          rw [if_neg hfix]
          exact ih h

theorem data_one (htotal : 49152 ≤ total) : 0 < dataSectors total 1 := by
  unfold dataSectors reservedSectors numFats rootDirSectors rootEntryCount bytesPerSector
  omega

end Loop

/-! ## Layouts and fixed points -/

section Fixed

variable {total spc f p : Nat}

theorem Layout.small {c : Nat} (h : Layout total spc f c) : dataSectors total f / spc < 2 ^ 40 := by
  have hrange := h.range.2
  rw [← h.count]
  unfold fat16MaxClusters at hrange
  omega

/-- The smallest FAT that is large enough is the fixed point, where there is one. -/
theorem Layout.fixed (hsteady : ∀ a b, ¬ Antitone.Swaps (needed total spc) a b) (hspc : 1 ≤ spc) {c : Nat}
    (h : Layout total spc f c) :
    needed total spc f = f := by
  have hneeded := needed_exact (Nat.lt_trans h.small (by decide))
  have hentries := h.entries
  rw [h.count] at hentries
  have hle : needed total spc f ≤ f := by omega
  by_contra hne
  obtain ⟨g, rfl⟩ : ∃ g, f = g + 1 := ⟨f - 1, by omega⟩
  -- one sector less does not do, and needs at most one more than `g + 1` does
  have hleast := h.least g (Nat.lt_succ_self g)
  have hstep : dataSectors total g / spc ≤ dataSectors total (g + 1) / spc + 2 := by
    have hdata := dataSectors_step total g
    calc dataSectors total g / spc ≤ (dataSectors total (g + 1) + 2) / spc := Nat.div_le_div_right hdata
      _ ≤ (dataSectors total (g + 1) + 2 * spc) / spc := Nat.div_le_div_right (by omega)
      _ = dataSectors total (g + 1) / spc + 2 := Nat.add_mul_div_right _ _ hspc
  have hsmall := h.small
  have hbefore : needed total spc g = (dataSectors total g / spc + 2 + 255) / 256 := needed_exact (by omega)
  exact hsteady g (g + 1) ⟨by omega, by omega, Nat.lt_succ_self g⟩

theorem fixed_unique (hf : needed total spc f = f) (hp : needed total spc p = p) : f = p := by
  rcases Nat.lt_trichotomy f p with hlt | heq | hgt
  · have hanti := needed_anti total spc (Nat.le_of_lt hlt)
    rw [hf, hp] at hanti
    omega
  · exact heq
  · have hanti := needed_anti total spc (Nat.le_of_lt hgt)
    rw [hf, hp] at hanti
    omega

/-- A fixed point with a number of clusters in the range is a layout. -/
theorem layout_of_fixed (hp : needed total spc p = p) (hdata : 0 < dataSectors total p)
    (hrange : fat16MinClusters ≤ dataSectors total p / spc ∧ dataSectors total p / spc ≤ fat16MaxClusters) :
    Layout total spc p (dataSectors total p / spc) := by
  have hmax := hrange.2
  unfold fat16MaxClusters at hmax
  have hexact : needed total spc p = (dataSectors total p / spc + 2 + 255) / 256 := needed_exact (by omega)
  refine ⟨rfl, by omega, ?_, hrange, ?_⟩
  · intro f hlt
    have hq := quotient_anti total spc (Nat.le_of_lt hlt)
    omega
  · have hmul := Nat.div_mul_le_self (dataSectors total p) spc
    unfold dataSectors at hmul hdata ⊢
    omega

theorem hasLayout_iff (hsteady : ∀ a b, ¬ Antitone.Swaps (needed total spc) a b) (hspc : 1 ≤ spc) (hp : needed total spc p = p)
    (hdata : 0 < dataSectors total p) :
    HasLayout total spc ↔ fat16MinClusters ≤ dataSectors total p / spc ∧ dataSectors total p / spc ≤ fat16MaxClusters := by
  constructor
  · rintro ⟨f, c, h⟩
    have hfp := fixed_unique (h.fixed hsteady hspc) hp
    have hrange := h.range
    rwa [h.count, hfp] at hrange
  · intro hrange
    exact ⟨p, _, layout_of_fixed hp hdata hrange⟩

/-- A disk whose size in sectors overflows a float has no layout. -/
theorem no_layout_of_overflow (hover : Overflows total) (hspc : spc ∈ sectorsPerCluster) : ¬ HasLayout total spc := by
  rintro ⟨f, c, h⟩
  have hlimit : floatLimit ≤ Round.round 53 ((dataSectors total 1 / 1 + 2) * 2) := by
    by_contra hsmall
    unfold Overflows neededFatSectors ceilQuotient at hover
    rw [if_pos (by omega)] at hover
    cases hover
  have hround : Round.round 53 ((dataSectors total 1 / 1 + 2) * 2) ≤ 2 * ((dataSectors total 1 / 1 + 2) * 2) :=
    Round.round_lt_double (by decide) _
  have hq := quotient_le total 1 1
  have hlarge := pow_le_floatLimit (show 40 ≤ floatExponent by decide)
  -- but a layout has a small FAT, and so a small disk
  have hcount := h.count
  have hmax := h.range.2
  unfold fat16MaxClusters at hmax
  have hleast : 256 * (f - 1) < dataSectors total (f - 1) / spc + 2 := by
    apply h.least
    have := h.entries
    omega
  have hstep := dataSectors_step total (f - 1)
  unfold dataSectors reservedSectors numFats rootDirSectors rootEntryCount bytesPerSector at *
  simp only [sectorsPerCluster, List.mem_cons, List.not_mem_nil, or_false] at hspc
  rcases hspc with rfl | rfl | rfl | rfl | rfl | rfl | rfl | rfl <;> omega

end Fixed

/-! ## The search -/

section Search

variable {total : Nat}

/-- The search ends, in a right result. -/
def Meets (total : Nat) : Prop := ∃ fuel result, chooseFatLayout fuel total = some result ∧ Chosen total result

/-- The result for these cluster sizes. -/
def ChosenFrom (total : Nat) (l : List Nat) : Except PyError (Nat × Nat × Nat) → Prop
  | .ok (spc, fat, clusters) => spc ∈ l ∧ Layout total spc fat clusters ∧ ∀ s ∈ l, s < spc → ¬ HasLayout total s
  | .error _ => ∀ s ∈ l, ¬ HasLayout total s

/-- The cluster sizes that are tried do not oscillate. -/
def Steady (total : Nat) (l : List Nat) : Prop :=
  ∀ s ∈ l, (∀ s' ∈ l, s' < s → ¬ HasLayout total s') → ∀ a b, ¬ Antitone.Swaps (needed total s) a b

theorem ChosenFrom.cons {spc : Nat} {l : List Nat} {result : Except PyError (Nat × Nat × Nat)} (h : ChosenFrom total l result)
    (hnone : ¬ HasLayout total spc) : ChosenFrom total (spc :: l) result := by
  have hcons : ∀ {P : Nat → Prop}, (∀ s ∈ l, P s → ¬ HasLayout total s) → ∀ s ∈ spc :: l, P s → ¬ HasLayout total s := by
    intro P hl s hs hp
    rcases List.mem_cons.mp hs with rfl | hs
    · exact hnone
    · exact hl s hs hp
  match result with
  | .ok (s, fat, clusters) =>
    obtain ⟨hmem, hlayout, hleast⟩ := h
    exact ⟨List.mem_cons_of_mem spc hmem, hlayout, hcons hleast⟩
  | .error e =>
    intro s hs
    exact hcons (fun s hs (_ : True) => h s hs) s hs trivial

theorem chooseFrom_steady (hover : ¬ Overflows total) (htotal : 49152 ≤ total) (l : List Nat) (hpos : ∀ s ∈ l, 1 ≤ s)
    (hsorted : l.Pairwise (· < ·)) (hsteady : Steady total l) :
    ∃ least result, (∀ fuel, least ≤ fuel → chooseFrom fuel total l = some result) ∧ ChosenFrom total l result := by
  induction l with
  | nil => exact ⟨0, .error .value, fun fuel _ => rfl, nofun⟩
  | cons spc l ih =>
    obtain ⟨hfirst, hrest⟩ := List.pairwise_cons.mp hsorted
    have hspc : 1 ≤ spc := hpos spc (List.mem_cons_self ..)
    have hnoswap : ∀ a b, ¬ Antitone.Swaps (needed total spc) a b := by
      apply hsteady spc (List.mem_cons_self ..)
      intro s hs hlt
      rcases List.mem_cons.mp hs with rfl | hs
      · exact absurd hlt (Nat.lt_irrefl _)
      · exact absurd (hfirst s hs) (Nat.lt_asymm hlt)
    have hsettles := (Antitone.settles_iff (needed_anti total spc) (needed_pos total spc)).mpr hnoswap
    obtain ⟨p, least, hp, hdata, hfix, hloop⟩ := fatLoop_settles hover htotal (Nat.le_refl 1) (data_one htotal) hsettles
    have hlayout := hasLayout_iff hnoswap hspc hfix hdata
    by_cases hrange : fat16MinClusters ≤ dataSectors total p / spc ∧ dataSectors total p / spc ≤ fat16MaxClusters
    · refine ⟨least, .ok (spc, p, dataSectors total p / spc), ?_, List.mem_cons_self .., layout_of_fixed hfix hdata hrange, ?_⟩
      · intro fuel hfuel
        rw [chooseFrom, hloop fuel hfuel]
        simp only
        rw [if_neg (by omega), if_pos hrange]
      · intro s hs hlt
        rcases List.mem_cons.mp hs with rfl | hs
        · exact absurd hlt (Nat.lt_irrefl _)
        · exact absurd (hfirst s hs) (Nat.lt_asymm hlt)
    · have hnone : ¬ HasLayout total spc := by rwa [hlayout]
      have hsteady' : Steady total l := by
        intro s hs hbefore
        apply hsteady s (List.mem_cons_of_mem spc hs)
        intro s' hs' hlt
        rcases List.mem_cons.mp hs' with rfl | hs'
        · exact hnone
        · exact hbefore s' hs' hlt
      obtain ⟨least', result, hchoose, hchosen⟩ := ih (fun s hs => hpos s (List.mem_cons_of_mem spc hs)) hrest hsteady'
      refine ⟨max least least', result, ?_, hchosen.cons hnone⟩
      intro fuel hfuel
      rw [chooseFrom, hloop fuel (by omega)]
      simp only
      rw [if_neg (by omega), if_neg hrange]
      exact hchoose fuel (by omega)

/-- A cluster size that oscillates and is tried is the last one tried. -/
theorem chooseFrom_oscillates (hover : ¬ Overflows total) (htotal : 49152 ≤ total) (l : List Nat) (hpos : ∀ s ∈ l, 1 ≤ s)
    (hsorted : l.Pairwise (· < ·)) (hnot : ¬ Steady total l) (fuel : Nat) : chooseFrom fuel total l = none := by
  induction l with
  | nil => exact absurd (fun s hs => by cases hs) hnot
  | cons spc l ih =>
    obtain ⟨hfirst, hrest⟩ := List.pairwise_cons.mp hsorted
    rw [chooseFrom]
    by_cases hsettles : Antitone.Settles (needed total spc) 1
    · have hnoswap := (Antitone.settles_iff (needed_anti total spc) (needed_pos total spc)).mp hsettles
      obtain ⟨p, least, hp, hdata, hfix, hloop⟩ := fatLoop_settles hover htotal (Nat.le_refl 1) (data_one htotal) hsettles
      have hlayout := hasLayout_iff hnoswap (hpos spc (List.mem_cons_self ..)) hfix hdata
      -- the size that oscillates is a later one, and this one has no layout
      unfold Steady at hnot
      push Not at hnot
      obtain ⟨s, hs, hbefore, a, b, hswap⟩ := hnot
      rcases List.mem_cons.mp hs with rfl | hs
      · exact absurd hswap (hnoswap a b)
      have hnone : ¬ HasLayout total spc := hbefore spc (List.mem_cons_self ..) (hfirst s hs)
      have hnot' : ¬ Steady total l := by
        intro hsteady
        refine hsteady s hs ?_ a b hswap
        intro s' hs'
        exact hbefore s' (List.mem_cons_of_mem spc hs')
      cases hrun : fatLoop total spc fuel 1 with
      | none => rfl
      | some r =>
        have hsame := fatLoop_more hrun least
        rw [hloop (fuel + least) (by omega)] at hsame
        cases hsame
        simp only
        rw [if_neg (by omega), if_neg (by rwa [hlayout] at hnone)]
        exact ih (fun s hs => hpos s (List.mem_cons_of_mem spc hs)) hrest hnot'
    · rw [fatLoop_never hover htotal (Nat.le_refl 1) (data_one htotal) hsettles fuel]

theorem sizes_sorted : sectorsPerCluster.Pairwise (· < ·) := by decide

theorem sizes_pos : ∀ s ∈ sectorsPerCluster, 1 ≤ s := by decide

/-- The search ends with the smallest cluster size that has a layout, or with an error where there is none, exactly when the
first quotient overflows or no cluster size that is tried has two FAT sizes that need each other. -/
theorem choose_layout_iff (htotal : 49152 ≤ total) :
    Meets total ↔ Overflows total ∨
      ∀ s ∈ sectorsPerCluster, (∀ s' ∈ sectorsPerCluster, s' < s → ¬ HasLayout total s') → ¬ Oscillates total s := by
  by_cases hover : Overflows total
  · refine ⟨fun _ => Or.inl hover, fun _ => ⟨1, .error .overflow, ?_, fun s => no_layout_of_overflow hover⟩⟩
    have hdata := data_one htotal
    have hfirst : neededFatSectors total 1 1 = .error .overflow := hover
    rw [chooseFatLayout, sectorsPerCluster, chooseFrom, fatLoop, if_neg (by omega), hfirst]
  have hsteady : Steady total sectorsPerCluster ↔
      ∀ s ∈ sectorsPerCluster, (∀ s' ∈ sectorsPerCluster, s' < s → ¬ HasLayout total s') → ¬ Oscillates total s := by
    unfold Steady
    simp only [oscillates_iff hover, not_exists]
  rw [← hsteady]
  constructor
  · rintro ⟨fuel, result, hrun, -⟩
    right
    by_contra hnot
    have hnone := chooseFrom_oscillates hover htotal sectorsPerCluster sizes_pos sizes_sorted hnot fuel
    rw [chooseFatLayout, hnone] at hrun
    cases hrun
  · rintro (hover' | h)
    · exact absurd hover' hover
    obtain ⟨least, result, hchoose, hchosen⟩ := chooseFrom_steady hover htotal sectorsPerCluster sizes_pos sizes_sorted h
    refine ⟨least, result, hchoose least (Nat.le_refl _), ?_⟩
    match result with
    | .ok (spc, fat, clusters) => exact hchosen
    | .error e => exact hchosen

theorem not_overflows (hhigh : total < 2 ^ 40) : ¬ Overflows total := by
  intro hover
  have hq := quotient_le total 1 1
  have hround : Round.round 53 ((dataSectors total 1 / 1 + 2) * 2) = (dataSectors total 1 / 1 + 2) * 2 :=
    Round.round_of_lt (by decide) (by omega)
  have hlarge := pow_le_floatLimit (show 42 ≤ floatExponent by decide)
  have hlimit : (dataSectors total 1 / 1 + 2) * 2 < floatLimit := Nat.lt_of_lt_of_le (by omega) hlarge
  unfold Overflows neededFatSectors ceilQuotient at hover
  rw [hround, if_pos hlimit] at hover
  cases hover

/-- On disks below 2 ^ 40 sectors the sizes of a FAT alternate at two remainders. -/
theorem oscillates_remainder (hlow : 49152 ≤ total) (hhigh : total < 2 ^ 40) {spc : Nat} (hspc : spc ∈ sectorsPerCluster) :
    Oscillates total spc ↔ (total - 33 + spc) % (256 * spc + 2) < 2 := by
  have hexact : ∀ f, needed total spc f = ((total - 33 - 2 * f) / spc + 257) / 256 := by
    intro f
    have hq := quotient_le total spc f
    have hdata : dataSectors total f = total - 33 - 2 * f := by
      unfold dataSectors reservedSectors numFats rootDirSectors rootEntryCount bytesPerSector
      omega
    rw [needed_exact (by omega), hdata]
  have hover := not_overflows hhigh
  rw [oscillates_iff hover]
  simp only [sectorsPerCluster, List.mem_cons, List.not_mem_nil, or_false] at hspc
  constructor
  · rintro ⟨a, b, hab, hba, hlt⟩
    rw [hexact] at hab hba
    have hone : b = a + 1 := by
      rcases hspc with rfl | rfl | rfl | rfl | rfl | rfl | rfl | rfl <;> omega
    subst hone
    have hbetween : (256 * spc + 2) * a ≤ total - 33 + spc ∧ total - 33 + spc < (256 * spc + 2) * a + 2 := by
      rcases hspc with rfl | rfl | rfl | rfl | rfl | rfl | rfl | rfl <;> omega
    obtain ⟨r, hr⟩ := Nat.exists_eq_add_of_le hbetween.1
    rw [hr, Nat.mul_add_mod]
    exact Nat.lt_of_le_of_lt (Nat.mod_le _ _) (by omega)
  · intro hmod
    refine ⟨(total - 33 + spc) / (256 * spc + 2), (total - 33 + spc) / (256 * spc + 2) + 1, ?_, ?_, Nat.lt_succ_self _⟩
    · rw [hexact]
      rcases hspc with rfl | rfl | rfl | rfl | rfl | rfl | rfl | rfl <;> omega
    · rw [hexact]
      rcases hspc with rfl | rfl | rfl | rfl | rfl | rfl | rfl | rfl <;> omega

/-- An image of 127 MiB: the FAT's sizes alternate between 1008 and 1009 sectors. -/
theorem search_never_ends : ¬ ∃ fuel result, chooseFatLayout fuel (127 * 2048) = some result := by
  rintro ⟨fuel, result, hrun⟩
  have hlow : 49152 ≤ 127 * 2048 := by decide
  have hover : ¬ Overflows (127 * 2048) := not_overflows (by decide)
  have hone : 1 ∈ sectorsPerCluster := by decide
  obtain ⟨a, b, hswap⟩ := (oscillates_iff hover).mp ((oscillates_remainder hlow (by decide) hone).mpr (by decide))
  have hnot : ¬ Steady (127 * 2048) sectorsPerCluster := by
    intro hsteady
    refine hsteady 1 hone ?_ a b hswap
    intro s hs hlt
    have hpos := sizes_pos s hs
    omega
  have hnone := chooseFrom_oscillates hover hlow sectorsPerCluster sizes_pos sizes_sorted hnot fuel
  rw [chooseFatLayout, hnone] at hrun
  cases hrun

/-- The default image of 24 MiB. -/
theorem default_image_meets : Meets 49152 := by
  have hlow : 49152 ≤ 49152 := Nat.le_refl _
  refine (choose_layout_iff hlow).mpr (Or.inr ?_)
  intro s hs _
  rw [oscillates_remainder hlow (by decide) hs]
  have hall : ∀ s ∈ sectorsPerCluster, ¬ (49152 - 33 + s) % (256 * s + 2) < 2 := by decide
  exact hall s hs

end Search

end Be300.Restore
