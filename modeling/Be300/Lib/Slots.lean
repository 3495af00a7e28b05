/-
  Be300.Lib.Slots — a table of slots, found by key.

  `key` is the key that a slot answers to, if any, and the first slot of a key is the one
  found. `modify` changes it and `place` fills the first slot that is free. The keys in the
  table, in slot order, are `keys`: what an operation does to them and to `lookup` is all
  that its users need.
-/

import Mathlib.Data.List.Basic
import Mathlib.Data.List.Perm.Basic
import Mathlib.Tactic.Common

namespace Be300.Lib.Slots

variable {α κ : Type} [DecidableEq κ] (key : α → Option κ)

def lookup (k : κ) (l : List α) : Option α := l.find? fun a => key a = some k

def modify (k : κ) (f : α → α) : List α → List α
  | [] => []
  | a :: l => if key a = some k then f a :: l else a :: modify k f l

def place (free : α → Bool) (a : α) : List α → Option (List α)
  | [] => none
  | b :: l => if free b then some (a :: l) else (place free a l).map (b :: ·)

def keys (l : List α) : List κ := l.filterMap key

theorem lookup_eq (k : κ) (l : List α) : lookup key k l = l.find? fun a => key a = some k := rfl

theorem modify_cons (k : κ) (f : α → α) (a : α) (l : List α) :
    modify key k f (a :: l) = if key a = some k then f a :: l else a :: modify key k f l := rfl

theorem place_nil (free : α → Bool) (a : α) : place free a [] = none := rfl

theorem place_cons (free : α → Bool) (a b : α) (l : List α) :
    place free a (b :: l) = if free b then some (a :: l) else (place free a l).map (b :: ·) := rfl

omit [DecidableEq κ] in
theorem keys_eq (l : List α) : keys key l = l.filterMap key := rfl

section Modify

variable {key} {k : κ} {f : α → α} {l : List α}

theorem lookup_isSome : (lookup key k l).isSome ↔ k ∈ keys key l := by
  rw [lookup_eq, keys_eq]
  rw [List.find?_isSome, List.mem_filterMap]
  simp

theorem lookup_key {a : α} (h : lookup key k l = some a) : key a = some k := by
  simpa using List.find?_some h

theorem lookup_mem {a : α} (h : lookup key k l = some a) : a ∈ l := List.mem_of_find?_eq_some h

@[simp] theorem length_modify : (modify key k f l).length = l.length := by
  induction l with
  | nil => rfl
  | cons a l ih =>
    rw [modify_cons]
    split
    · rfl
    · rw [List.length_cons, List.length_cons, ih]

theorem lookup_modify_ne {k' : κ} (hne : k' ≠ k) (hf : ∀ a, key a = some k → key (f a) ≠ some k') :
    lookup key k' (modify key k f l) = lookup key k' l := by
  induction l with
  | nil => rfl
  | cons a l ih =>
    simp only [lookup_eq] at ih ⊢
    rw [modify_cons]
    split
    · rename_i ha
      have hold : key a ≠ some k' := by
        rw [ha]
        exact fun heq => hne (Option.some.inj heq).symm
      rw [List.find?_cons_of_neg (by simpa using hf a ha), List.find?_cons_of_neg (by simpa using hold)]
    · by_cases ha' : key a = some k'
      · rw [List.find?_cons_of_pos (by simpa using ha'), List.find?_cons_of_pos (by simpa using ha')]
      · rw [List.find?_cons_of_neg (by simpa using ha'), List.find?_cons_of_neg (by simpa using ha'), ih]

theorem lookup_modify_self (hf : ∀ a, key a = some k → key (f a) = some k) :
    lookup key k (modify key k f l) = (lookup key k l).map f := by
  induction l with
  | nil => rfl
  | cons a l ih =>
    simp only [lookup_eq] at ih ⊢
    rw [modify_cons]
    split
    · rename_i ha
      rw [List.find?_cons_of_pos (by simpa using hf a ha), List.find?_cons_of_pos (by simpa using ha)]
      rfl
    · rename_i ha
      rw [List.find?_cons_of_neg (by simpa using ha), List.find?_cons_of_neg (by simpa using ha), ih]

theorem keys_modify (hf : ∀ a, key a = some k → key (f a) = some k) : keys key (modify key k f l) = keys key l := by
  induction l with
  | nil => rfl
  | cons a l ih =>
    simp only [keys_eq] at ih ⊢
    rw [modify_cons]
    split
    · rename_i ha
      rw [List.filterMap_cons_some (hf a ha), List.filterMap_cons_some ha]
    · rw [List.filterMap_cons, List.filterMap_cons, ih]

/-- A slot that no longer answers to its key takes the key out. -/
theorem keys_remove (hf : ∀ a, key a = some k → key (f a) = none) : keys key (modify key k f l) = (keys key l).erase k := by
  induction l with
  | nil => rfl
  | cons a l ih =>
    simp only [keys_eq] at ih ⊢
    rw [modify_cons]
    split
    · rename_i ha
      rw [List.filterMap_cons_none (hf a ha), List.filterMap_cons_some ha, List.erase_cons_head]
    · rename_i ha
      rw [List.filterMap_cons, List.filterMap_cons, ih]
      cases hk : key a with
      | none => rfl
      | some k' =>
        have hne : k' ≠ k := fun heq => ha (hk.trans (congrArg some heq))
        simp only
        rw [List.erase_cons_tail (by simpa using hne)]

theorem mem_modify {a : α} (h : a ∈ modify key k f l) : a ∈ l ∨ ∃ b, lookup key k l = some b ∧ a = f b := by
  induction l with
  | nil => cases h
  | cons b l ih =>
    simp only [lookup_eq] at ih ⊢
    rw [modify_cons] at h
    split at h
    · rename_i hb
      rcases List.mem_cons.mp h with rfl | hin
      · right
        exact ⟨b, by rw [List.find?_cons_of_pos (by simpa using hb)], rfl⟩
      · exact Or.inl (List.mem_cons_of_mem b hin)
    · rename_i hb
      rcases List.mem_cons.mp h with rfl | hin
      · exact Or.inl List.mem_cons_self
      · rcases ih hin with hold | ⟨c, hc, heq⟩
        · exact Or.inl (List.mem_cons_of_mem b hold)
        · right
          exact ⟨c, by rw [List.find?_cons_of_neg (by simpa using hb), hc], heq⟩

/-- A view of the slots that a change does not show in. -/
theorem map_modify_same {β : Type} {g : α → β} (hf : ∀ a, key a = some k → g (f a) = g a) :
    (modify key k f l).map g = l.map g := by
  induction l with
  | nil => rfl
  | cons a l ih =>
    rw [modify_cons]
    split
    · rename_i ha
      rw [List.map_cons, List.map_cons, hf a ha]
    · rw [List.map_cons, List.map_cons, ih]

theorem countP_modify {p : α → Bool} (hf : ∀ a, key a = some k → p (f a) = p a) :
    (modify key k f l).countP p = l.countP p := by
  induction l with
  | nil => rfl
  | cons a l ih =>
    rw [modify_cons]
    split
    · rename_i ha
      rw [List.countP_cons, List.countP_cons, hf a ha]
    · rw [List.countP_cons, List.countP_cons, ih]

end Modify

section Place

variable {key} {free : α → Bool} {a : α} {l l' : List α}

theorem place_length (h : place free a l = some l') : l'.length = l.length := by
  induction l generalizing l' with
  | nil => simp [place_nil] at h
  | cons b l ih =>
    rw [place_cons] at h
    split at h
    · cases h
      rfl
    · obtain ⟨m, hm, rfl⟩ := Option.map_eq_some_iff.mp h
      rw [List.length_cons, List.length_cons, ih hm]

omit [DecidableEq κ] in
theorem keys_place (h : place free a l = some l') {k : κ} (ha : key a = some k) (hfree : ∀ b ∈ l, free b = true → key b = none) :
    (keys key l').Perm (k :: keys key l) := by
  induction l generalizing l' with
  | nil => simp [place_nil] at h
  | cons b l ih =>
    simp only [keys_eq] at ih ⊢
    rw [place_cons] at h
    split at h
    · rename_i hb
      cases h
      rw [List.filterMap_cons_some ha, List.filterMap_cons_none (hfree b (by simp) hb)]
    · obtain ⟨m, hm, rfl⟩ := Option.map_eq_some_iff.mp h
      have hrest := ih hm fun c hc => hfree c (by simp [hc])
      rw [List.filterMap_cons, List.filterMap_cons]
      cases key b with
      | none => exact hrest
      | some k' => exact (hrest.cons k').trans (List.Perm.swap k k' _)

theorem lookup_place_self (h : place free a l = some l') {k : κ} (ha : key a = some k) (hnew : k ∉ keys key l) :
    lookup key k l' = some a := by
  induction l generalizing l' with
  | nil => simp [place_nil] at h
  | cons b l ih =>
    simp only [lookup_eq, keys_eq] at *
    rw [place_cons] at h
    split at h
    · cases h
      rw [List.find?_cons_of_pos (by simpa using ha)]
    · obtain ⟨m, hm, rfl⟩ := Option.map_eq_some_iff.mp h
      have hb : key b ≠ some k := fun hb => hnew (by rw [List.filterMap_cons_some hb]; simp)
      rw [List.find?_cons_of_neg (by simpa using hb)]
      refine ih hm fun hin => hnew ?_
      rw [List.filterMap_cons]
      cases key b <;> simp [hin]

theorem mem_place (h : place free a l = some l') {b : α} (hb : b ∈ l') : b = a ∨ b ∈ l := by
  induction l generalizing l' with
  | nil => simp [place_nil] at h
  | cons c l ih =>
    rw [place_cons] at h
    split at h
    · cases h
      rcases List.mem_cons.mp hb with rfl | hin
      · exact Or.inl rfl
      · exact Or.inr (List.mem_cons_of_mem c hin)
    · obtain ⟨m, hm, rfl⟩ := Option.map_eq_some_iff.mp h
      rcases List.mem_cons.mp hb with rfl | hin
      · exact Or.inr List.mem_cons_self
      · exact (ih hm hin).imp id (List.mem_cons_of_mem c)

theorem countP_place (h : place free a l = some l') (ha : free a = false) : l'.countP free + 1 = l.countP free := by
  induction l generalizing l' with
  | nil => simp [place_nil] at h
  | cons b l ih =>
    rw [place_cons] at h
    split at h
    · rename_i hb
      cases h
      rw [List.countP_cons_of_neg (by simp [ha]), List.countP_cons_of_pos hb]
    · rename_i hb
      obtain ⟨m, hm, rfl⟩ := Option.map_eq_some_iff.mp h
      rw [List.countP_cons_of_neg hb, List.countP_cons_of_neg hb, ih hm]

end Place

end Be300.Lib.Slots
