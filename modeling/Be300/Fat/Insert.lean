/-
  Be300.Fat.Insert — an entry set put into a directory.

  Slots written from `start` on replace the slots there and no others (`slots_putSlots`). Where they replace a run of free slots,
  and nothing is behind the end mark of the directory (`Tailed`), a name that found nothing before finds the new entry
  (`find_inserted`). A directory that grows takes free clusters; what is not its own and not free stays as it is
  (`Grows.regions`), and so does any other directory (`DirGood.kept`).
-/

import Be300.Fat.Scan

namespace Be300.Fat

open Be300.Lib (Prog at')

/-! ## Slots written into a directory -/

section Written

variable {v : Vol} {d d' : Disk} {dir : Nat}

/-- Where a directory's slots are. -/
def regions (v : Vol) (d : Disk) (dir : Nat) : List Nat := if dir = 0 then [0] else clusters v d dir

theorem dirAddrs_region {a : Addr} (ha : a ∈ dirAddrs v d dir) : a.region ∈ regions v d dir ∧ direntSize ∣ a.off := by
  unfold regions
  by_cases h0 : dir = 0
  · rw [h0] at ha ⊢
    obtain ⟨i, -, rfl⟩ := List.mem_map.mp ha
    exact ⟨List.mem_singleton_self _, Dvd.intro_left i rfl⟩
  · rw [dirAddrs_cluster h0] at ha
    obtain ⟨c, hc, ha⟩ := List.mem_flatMap.mp ha
    obtain ⟨i, -, rfl⟩ := List.mem_map.mp ha
    rw [if_neg h0]
    exact ⟨hc, Dvd.intro_left i rfl⟩

theorem dirAddrs_nodup (hv : v.Std) (hgood : DirGood v d dir) : (dirAddrs v d dir).Nodup := by
  have hinj : ∀ r : Nat, Function.Injective fun i : Nat => (⟨r, i * direntSize⟩ : Addr) := fun r i j h =>
    Nat.eq_of_mul_eq_mul_right (by decide) (Addr.mk.inj h).2
  by_cases h0 : dir = 0
  · rw [h0]
    exact List.nodup_range.map (hinj 0)
  · rw [dirAddrs_cluster h0]
    have hended := hgood.resolve_left h0
    refine List.nodup_flatMap.mpr ⟨fun c _ => List.nodup_range.map (hinj c), (hended.nodup hv).imp fun hne => ?_⟩
    refine fun a ha hb => ?_
    obtain ⟨i, -, rfl⟩ := List.mem_map.mp ha
    obtain ⟨j, -, heq⟩ := List.mem_map.mp hb
    exact hne (Addr.mk.inj heq).1.symm

/-- A directory's slots are in its regions. -/
theorem slots_congr (hclusters : clusters v d' dir = clusters v d dir)
    (hmem : ∀ r ∈ regions v d dir, ∀ k, d'.mem r k = d.mem r k) : slots v d' dir = slots v d dir := by
  have haddrs : dirAddrs v d' dir = dirAddrs v d dir := by
    by_cases h0 : dir = 0
    · rw [h0]
      rfl
    · rw [dirAddrs_cluster h0, dirAddrs_cluster h0, hclusters]
  unfold slots
  rw [haddrs]
  refine List.map_congr_left fun a ha => ?_
  rw [get_congr fun k _ _ => hmem _ (dirAddrs_region ha).1 k]

theorem get_put_self {a : Addr} {e : Slot} {n : Nat} (h : e.length = n) : (d.put a e).get a n = e := by
  refine List.ext_getElem (by rw [get_length, h]) fun i h1 h2 => ?_
  simp only [Disk.get, Disk.put, List.getElem_map, List.getElem_range, Nat.le_add_right, Nat.add_lt_add_iff_left, h2, and_self,
    if_true, Nat.add_sub_cancel_left, at', List.getD_eq_getElem?_getD, List.getElem?_eq_getElem h2, Option.getD_some]

theorem get_put_other {a b : Addr} {e : Slot} (he : e.length = direntSize) (ha : direntSize ∣ a.off) (hb : direntSize ∣ b.off)
    (hne : a ≠ b) : (d.put a e).get b direntSize = d.get b direntSize := by
  refine get_congr fun k h1 h2 => if_neg ?_
  rintro ⟨hregion, h3, h4⟩
  apply hne
  obtain ⟨i, hi⟩ := ha
  obtain ⟨j, hj⟩ := hb
  unfold direntSize at *
  exact Addr.mk.injEq .. ▸ ⟨hregion.symm, by omega⟩

theorem lookup_congr (h : slots v d' dir = slots v d dir) (name : List UInt8) :
    lookup v d' dir name = lookup v d dir name := by
  rw [lookup, lookup, entries, entries, h]

/-- Slots of the right size, at different places. -/
structure Placed (l : List (Addr × Slot)) : Prop where
  size : ∀ x ∈ l, x.2.length = direntSize
  place : ∀ x ∈ l, direntSize ∣ x.1.off
  nodup : (l.map Prod.fst).Nodup

theorem Placed.tail {x : Addr × Slot} {l : List (Addr × Slot)} (h : Placed (x :: l)) : Placed l :=
  ⟨fun y hy => h.size y (List.mem_cons_of_mem _ hy), fun y hy => h.place y (List.mem_cons_of_mem _ hy),
    (List.nodup_cons.mp h.nodup).2⟩

theorem putSlots_other {l : List (Addr × Slot)} (h : Placed l) {b : Addr} (hb : direntSize ∣ b.off) (hne : b ∉ l.map Prod.fst) :
    (putSlots d l).get b direntSize = d.get b direntSize := by
  induction l generalizing d with
  | nil => rfl
  | cons x l ih =>
    rw [List.map_cons, List.mem_cons, not_or] at hne
    have hx := List.mem_cons_self (a := x) (l := l)
    exact (ih h.tail hne.2).trans (get_put_other (h.size x hx) (h.place x hx) hb (Ne.symm hne.1))

theorem putSlots_get {l : List (Addr × Slot)} (h : Placed l) {x : Addr × Slot} (hx : x ∈ l) :
    (putSlots d l).get x.1 direntSize = x.2 := by
  induction l generalizing d with
  | nil => cases hx
  | cons y l ih =>
    rcases List.mem_cons.mp hx with rfl | hx
    · have hnot := (List.nodup_cons.mp h.nodup).1
      exact (putSlots_other h.tail (h.place x (List.mem_cons_self ..)) hnot).trans
        (get_put_self (h.size x (List.mem_cons_self ..)))
    · exact ih h.tail hx

theorem putSlots_mem {l : List (Addr × Slot)} {r : Nat} (h : ∀ x ∈ l, x.1.region ≠ r) (k : Nat) :
    (putSlots d l).mem r k = d.mem r k := by
  induction l generalizing d with
  | nil => rfl
  | cons x l ih =>
    refine (ih fun y hy => h y (List.mem_cons_of_mem _ hy)).trans (if_neg ?_)
    rintro ⟨hregion, -⟩
    exact h x (List.mem_cons_self ..) hregion.symm

/-- A directory after slots are written into it from `start` on. -/
theorem slots_putSlots (hv : v.Std) (hgood : DirGood v d dir) (start : Nat) {s : List Slot}
    (hfits : start + s.length ≤ (dirAddrs v d dir).length) (hs : ∀ e ∈ s, e.length = direntSize) :
    slots v (putSlots d (((dirAddrs v d dir).drop start).zip s)) dir =
      (slots v d dir).take start ++ (((dirAddrs v d dir).drop start).zip s ++ (slots v d dir).drop (start + s.length)) := by
  have hnd := dirAddrs_nodup hv hgood
  have hplace := fun a (ha : a ∈ dirAddrs v d dir) => (dirAddrs_region ha).2
  have haddrs := fun l => dirAddrs_congr (v := v) (putSlots_fat (d := d) l) dir
  unfold slots
  rw [haddrs]
  generalize dirAddrs v d dir = l at *
  -- the addresses before, in and behind the written part
  obtain ⟨p, w, r, hl, hp, hw⟩ : ∃ p w r, l = p ++ (w ++ r) ∧ p.length = start ∧ w.length = s.length := by
    refine ⟨l.take start, (l.drop start).take s.length, (l.drop start).drop s.length, ?_, ?_, ?_⟩
    · rw [List.take_append_drop, List.take_append_drop]
    · rw [List.length_take]
      omega
    · rw [List.length_take, List.length_drop]
      omega
  subst hl
  rw [List.drop_left' hp]
  have hzip : (w ++ r).zip s = w.zip s := by
    have happend : (w ++ r).zip (s ++ []) = w.zip s ++ r.zip [] := List.zip_append hw
    rwa [List.append_nil, List.zip_nil_right, List.append_nil] at happend
  rw [hzip]
  have hfst : (w.zip s).map Prod.fst = w := List.map_fst_zip (Nat.le_of_eq hw)
  have hplaced : Placed (w.zip s) := by
    refine ⟨fun x hx => hs _ (List.of_mem_zip hx).2, fun x hx => hplace _ ?_, ?_⟩
    · exact List.mem_append_right _ (List.mem_append_left _ (List.of_mem_zip hx).1)
    · rw [hfst]
      exact (List.nodup_append.mp (List.nodup_append.mp hnd).2.1).1
  have hother : ∀ a ∈ p ++ (w ++ r), a ∉ w → (putSlots d (w.zip s)).get a direntSize = d.get a direntSize := by
    intro a ha hnot
    exact putSlots_other hplaced (hplace a ha) (by rwa [hfst])
  have hsplit := List.nodup_append.mp hnd
  have hsplit' := List.nodup_append.mp hsplit.2.1
  have htake : ((p ++ (w ++ r)).map fun a => (a, d.get a direntSize)).take start = p.map fun a => (a, d.get a direntSize) := by
    rw [List.map_append, List.take_left' (by rw [List.length_map, hp])]
  have hdrop : ((p ++ (w ++ r)).map fun a => (a, d.get a direntSize)).drop (start + s.length) =
      r.map fun a => (a, d.get a direntSize) := by
    rw [← List.append_assoc, List.map_append, List.drop_left' (by rw [List.length_map, List.length_append, hp, hw])]
  rw [htake, hdrop, List.map_append, List.map_append]
  congr 1
  · refine List.map_congr_left fun a ha => ?_
    rw [hother a (List.mem_append_left _ ha) fun haw => hsplit.2.2 a ha a (List.mem_append_left _ haw) rfl]
  · congr 1
    · refine List.ext_getElem (by simp [hw]) fun i h1 h2 => ?_
      have hmem : (w.zip s)[i] ∈ w.zip s := List.getElem_mem h2
      have hget := putSlots_get (d := d) hplaced hmem
      rw [List.getElem_zip] at hget ⊢
      rw [List.getElem_map]
      exact congrArg (Prod.mk _) hget
    · refine List.map_congr_left fun a ha => ?_
      rw [hother a (List.mem_append_right _ (List.mem_append_right _ ha)) fun haw => hsplit'.2.2 a haw a ha rfl]

end Written

/-! ## A new entry is found -/

/-- Behind the end mark of a directory there is nothing. -/
def Tailed (l : List (Addr × Slot)) : Prop := l.Pairwise fun x y => at' x.2 0 = 0 → at' y.2 0 = 0

/-- Slots of zeros add no entry. -/
theorem entriesFrom_zeros_right {st : LfnState} (l : List (Addr × Slot)) {z : List (Addr × Slot)}
    (hz : ∀ x ∈ z, at' x.2 0 = 0) : entriesFrom st (l ++ z) = entriesFrom st l := by
  induction l generalizing st with
  | nil => exact entriesFrom_zeros hz
  | cons x l ih =>
    obtain ⟨a, e⟩ := x
    by_cases h0 : at' e 0 = 0
    · rw [List.cons_append, entriesFrom_zero h0, entriesFrom_zero h0]
    · rw [List.cons_append, entriesFrom_cons h0, entriesFrom_cons h0, ih]

/-- What is before a run of free slots has no end mark in it. -/
theorem Tailed.before {l : List (Addr × Slot)} {start need : Nat} (h : Tailed l)
    (hrun : FreeRun (l.map fun x => isFree x.2) start need) : ∀ x ∈ l.take start, at' x.2 0 ≠ 0 := by
  intro x hx h0
  have hfits := hrun.fits
  rw [List.length_map] at hfits
  obtain ⟨i, hi, rfl⟩ := List.mem_iff_getElem.mp hx
  rw [List.length_take] at hi
  rw [List.getElem_take] at h0
  rcases hrun.before with hs | hs
  · omega
  · rw [List.getElem?_map, List.getElem?_eq_getElem (by omega), Option.map_some] at hs
    have hlt : start - 1 < l.length := by omega
    have hlast : at' l[start - 1].2 0 = 0 := by
      by_cases heq : i = start - 1
      · subst heq
        exact h0
      · exact List.pairwise_iff_getElem.mp h i (start - 1) (by omega) (by omega) (by omega) h0
    simp [isFree, hlast] at hs

/-- An entry set put into a run of free slots is found by its name, if nothing was found by it before. -/
theorem find_inserted {l s : List (Addr × Slot)} {start need : Nat} {en : LfnState → Entry} {name : List UInt8}
    (htail : Tailed l) (hrun : FreeRun (l.map fun x => isFree x.2) start need) (hneed : 0 < need)
    (hset : ∀ st r, entriesFrom st (s ++ r) = en st :: entriesFrom .init r) (hnamed : ∀ st, (en st).named name = true)
    (hnone : (entriesFrom .init l).find? (·.named name) = none) :
    ∃ st, (entriesFrom .init (l.take start ++ (s ++ l.drop (start + need)))).find? (·.named name) = some (en st) := by
  have hbefore := htail.before hrun
  have hfits := hrun.fits
  rw [List.length_map] at hfits
  have hsplit : l = l.take start ++ ((l.drop start).take need ++ l.drop (start + need)) := by
    rw [← List.drop_drop, List.take_append_drop, List.take_append_drop]
  have hfree : ∀ x ∈ (l.drop start).take need, isFree x.2 := fun x hx => by
    obtain ⟨i, hi, rfl⟩ := List.mem_iff_getElem.mp hx
    rw [List.length_take, List.length_drop] at hi
    have := hrun.free (start + i) (by omega) (by omega)
    rw [List.getElem?_map, List.getElem?_eq_getElem (by omega), Option.map_some] at this
    rw [List.getElem_take, List.getElem_drop]
    exact Option.some.inj this
  have hne : (l.drop start).take need ≠ [] := fun hnil => by
    have := congrArg List.length hnil
    rw [List.length_take, List.length_drop, List.length_nil] at this
    omega
  have hrest : (∃ x ∈ (l.drop start).take need, at' x.2 0 = 0) → ∀ x ∈ l.drop (start + need), at' x.2 0 = 0 := by
    rintro ⟨x, hx, h0⟩ y hy
    unfold Tailed at htail
    rw [hsplit] at htail
    exact (List.pairwise_append.mp (List.pairwise_append.mp htail).2.1).2.2 x hx y hy h0
  have hold : entriesFrom .init l = entriesFrom .init (l.take start) ++ entriesFrom .init (l.drop (start + need)) := by
    conv_lhs => rw [hsplit]
    rw [entriesFrom_append hbefore, entriesFrom_free hne hfree hrest]
  rw [hold, List.find?_append, Option.or_eq_none_iff] at hnone
  refine ⟨LfnState.init.after (l.take start), ?_⟩
  rw [entriesFrom_append hbefore, hset, List.find?_append, hnone.1, Option.none_or]
  exact List.find?_cons_of_pos (hnamed _)

/-! ## What stays -/

/-- A cluster that is not free for the taking. -/
def Taken (v : Vol) (d : Disk) (r : Nat) : Prop := ¬ (v.Valid r ∧ d.fat r = 0)

/-- Region `r` and its FAT entry are as they were. -/
structure Intact (d d' : Disk) (r : Nat) : Prop where
  fat : d'.fat r = d.fat r
  mem : ∀ k, d'.mem r k = d.mem r k

theorem Intact.refl (d : Disk) (r : Nat) : Intact d d r := ⟨rfl, fun _ => rfl⟩

theorem Intact.trans {d d1 d2 : Disk} {r : Nat} (h : Intact d d1 r) (h' : Intact d1 d2 r) : Intact d d2 r :=
  ⟨h'.fat.trans h.fat, fun k => (h'.mem k).trans (h.mem k)⟩

section Frame

variable {v : Vol} {d d' : Disk} {dir : Nat}

theorem DirGood.taken (h : DirGood v d dir) : ∀ r ∈ regions v d dir, Taken v d r := by
  rintro r hr ⟨hvalid, hfree⟩
  unfold regions at hr
  split at hr
  · rw [List.mem_singleton.mp hr] at hvalid
    exact absurd hvalid.1 (by decide)
  · rename_i h0
    exact (h.resolve_left h0).fat_ne hr hfree

/-- A directory whose regions are kept is kept. -/
theorem DirGood.kept (hv : v.Std) (h : DirGood v d dir) (hkept : ∀ r ∈ regions v d dir, Intact d d' r) :
    DirGood v d' dir ∧ regions v d' dir = regions v d dir ∧ slots v d' dir = slots v d dir := by
  unfold regions at *
  by_cases h0 : dir = 0
  · subst h0
    have hnone : ∀ e : Disk, clusters v e 0 = [] := fun e => clusters_invalid (by unfold Vol.Valid; omega)
    refine ⟨.inl rfl, rfl, slots_congr ((hnone d').trans (hnone d).symm) fun r hr => (hkept r hr).mem⟩
  · rw [if_neg h0] at hkept
    obtain ⟨hended, hsame⟩ := (h.resolve_left h0).congr hv fun x hx => (hkept x hx).fat
    refine ⟨.inr hended, by rw [if_neg h0, if_neg h0, hsame], slots_congr hsame fun r hr => (hkept r ?_).mem⟩
    rwa [regions, if_neg h0] at hr

theorem DirGood.congr_fat (hv : v.Std) (h : DirGood v d dir) (hfat : d'.fat = d.fat) :
    DirGood v d' dir ∧ regions v d' dir = regions v d dir := by
  unfold regions
  by_cases h0 : dir = 0
  · exact ⟨.inl h0, by rw [if_pos h0, if_pos h0]⟩
  · obtain ⟨hended, hsame⟩ := (h.resolve_left h0).congr hv fun x _ => congrFun hfat x
    exact ⟨.inr hended, by rw [if_neg h0, if_neg h0, hsame]⟩

theorem alloc_kept {c r : Nat} (h : r ≠ c) : Intact d (d.alloc v c) r := by
  refine ⟨?_, fun k => ?_⟩
  · show (if r = c then fat16Eoc else d.fat r) = d.fat r
    rw [if_neg h]
  · show (if r = c ∧ _ then _ else d.mem r k) = d.mem r k
    rw [if_neg fun h' => h h'.1]

/-- A directory that grows takes free clusters, and leaves all others alone. -/
theorem Grows.frame {n : Nat} (h : Grows v dir n d d') (hv : v.Std) (hgood : DirGood v d dir) :
    ∃ ns, clusters v d' dir = clusters v d dir ++ ns ∧ (∀ n ∈ ns, ¬ Taken v d n) ∧
      ∀ r, r ∉ clusters v d dir → r ∉ ns → Intact d d' r := by
  induction h with
  | refl d => exact ⟨[], by rw [List.append_nil], by simp, fun r _ _ => .refl d r⟩
  | @step _ t n d d1 d2 hlast hgrow _ ih =>
    have hended := ended_of_last hgood hlast
    obtain ⟨hended1, hclus⟩ := hgrow.chain hv hended hlast
    obtain ⟨ns, hns, hfree, hkept⟩ := ih (.inr hended1)
    have ht : t ∈ clusters v d dir := List.mem_of_getLast? hlast
    have hfat := hgrow.fat hv
    refine ⟨n :: ns, by rw [hns, hclus, List.append_assoc, List.singleton_append], fun m hm => ?_, fun r hr hrn => ?_⟩
    · rcases List.mem_cons.mp hm with rfl | hm
      · exact not_not_intro ⟨hgrow.valid, hgrow.free⟩
      · obtain ⟨hvalid, h0⟩ := not_not.mp (hfree m hm)
        rw [hfat m] at h0
        refine not_not_intro ⟨hvalid, ?_⟩
        split at h0
        · have := hgrow.valid.1
          omega
        · split at h0
          · cases h0
          · exact h0
    · rw [List.mem_cons, not_or] at hrn
      have hkept1 : Intact d d1 r := by
        refine ⟨?_, hgrow.mem hrn.1⟩
        have hrt : r ≠ t := by
          rintro rfl
          exact hr ht
        rw [hfat r, if_neg hrt, if_neg hrn.1]
      refine hkept1.trans (hkept r ?_ hrn.2)
      rw [hclus, List.mem_append, List.mem_singleton, not_or]
      exact ⟨hr, hrn.1⟩

/-- In regions: what it has grown by was free, and all else is kept. -/
theorem Grows.regions {n : Nat} (h : Grows v dir n d d') (hv : v.Std) (hgood : DirGood v d dir) :
    (∀ r ∈ regions v d' dir, r ∈ regions v d dir ∨ ¬ Taken v d r) ∧
      ∀ r, Taken v d r → r ∉ regions v d dir → r ∉ regions v d' dir ∧ Intact d d' r := by
  obtain ⟨ns, hns, hfree, hkept⟩ := h.frame hv hgood
  have hback : ∀ r ∈ Fat.regions v d' dir, r ∈ Fat.regions v d dir ∨ ¬ Taken v d r := by
    intro r hr
    unfold Fat.regions at hr ⊢
    by_cases h0 : dir = 0
    · rw [if_pos h0] at hr ⊢
      exact .inl hr
    · rw [if_neg h0, hns, List.mem_append] at hr
      rw [if_neg h0]
      exact hr.imp_right (hfree r)
  refine ⟨hback, fun r htaken hr => ⟨fun hr' => (hback r hr').elim hr fun h => h htaken, ?_⟩⟩
  refine hkept r ?_ fun hrn => hfree r hrn htaken
  unfold Fat.regions at hr
  by_cases h0 : dir = 0
  · rw [h0, clusters_invalid (by unfold Vol.Valid; omega)]
    exact List.not_mem_nil
  · rwa [if_neg h0] at hr

theorem putSlots_kept {l : List (Addr × Slot)} {r : Nat} (h : ∀ x ∈ l, x.1.region ≠ r) : Intact d (putSlots d l) r :=
  ⟨congrFun (putSlots_fat l) r, putSlots_mem h⟩

theorem put_kept {a : Addr} {bytes : List UInt8} {r : Nat} (h : r ≠ a.region) : Intact d (d.put a bytes) r :=
  ⟨rfl, fun _ => if_neg fun h' => h h'.1⟩

end Frame

end Be300.Fat
