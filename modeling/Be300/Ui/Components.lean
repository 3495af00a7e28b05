/-
  Be300.Ui.Components — the components `ui_collect_button_components` finds are the connected
  parts of the mask.

  `Touches` is being one of the eight neighbours of a pixel, both of them active; `partOf` is
  all that is connected to a pixel. Proved (`components_found`): for every mask of fewer than
  2^32 pixels the search ends with no access outside its arrays and with no pixel enqueued
  twice, and what it returns describes parts of at least 500 pixels: all of them, or the 16
  largest, each once, with its area, its bounding box and the sums of its pixels' places.
-/

import Be300.Lib.Flood
import Be300.Lib.Largest
import Be300.Ui.ButtonMask
import Mathlib.Algebra.BigOperators.Group.Finset.Basic
import Mathlib.Algebra.Order.BigOperators.Group.List
import Mathlib.Data.Finset.Card
import Mathlib.Data.List.Forall2
import Mathlib.Order.Bounds.Basic

namespace Be300.Ui

open Lib

/-! ## Parts of a mask -/

def IsPixel (m : Mask) (p : Nat) : Prop := p < m.pixels ∧ m.active p = true

/-- Two coordinates at most one apart. -/
def Near (a b : Nat) : Prop := a ≤ b + 1 ∧ b ≤ a + 1

def Touches (m : Mask) (p q : Nat) : Prop :=
  IsPixel m p ∧ IsPixel m q ∧ Near (p % m.width) (q % m.width) ∧ Near (p / m.width) (q / m.width)

open Classical in
/-- The connected part with a pixel in it. -/
noncomputable def partOf (m : Mask) (p : Nat) : Finset Nat := (Finset.range m.pixels).filter fun q => Connected (Touches m) p q

/-- The area of a part, the bounds of its coordinates and their sums. -/
structure Describes (m : Mask) (c : Component) (part : Finset Nat) : Prop where
  area : c.area = part.card
  minX : IsLeast {x | ∃ q ∈ part, q % m.width = x} c.minX
  maxX : IsGreatest {x | ∃ q ∈ part, q % m.width = x} c.maxX
  minY : IsLeast {y | ∃ q ∈ part, q / m.width = y} c.minY
  maxY : IsGreatest {y | ∃ q ∈ part, q / m.width = y} c.maxY
  sumX : c.sumX = part.sum fun q => q % m.width
  sumY : c.sumY = part.sum fun q => q / m.width

section Geometry

variable {m : Mask} {p q x y : Nat}

theorem Touches.symm (h : Touches m p q) : Touches m q p := by
  obtain ⟨hp, hq, hx, hy⟩ := h
  exact ⟨hq, hp, ⟨hx.2, hx.1⟩, ⟨hy.2, hy.1⟩⟩

theorem connected_pixel (hp : IsPixel m p) (h : Connected (Touches m) p q) : IsPixel m q := by
  induction h with
  | refl => exact hp
  | tail _ hstep _ => exact hstep.2.1

theorem mem_partOf (hp : IsPixel m p) : q ∈ partOf m p ↔ Connected (Touches m) p q := by
  simp only [partOf, Finset.mem_filter, Finset.mem_range]
  constructor
  · exact fun h => h.2
  · exact fun h => ⟨(connected_pixel hp h).1, h⟩

theorem place_lt (hx : x < m.width) (hy : y < m.height) : y * m.width + x < m.pixels := by
  have hrow : (y + 1) * m.width ≤ m.height * m.width := Nat.mul_le_mul_right _ hy
  rw [Nat.succ_mul] at hrow
  unfold Mask.pixels
  rw [Nat.mul_comm m.width]
  omega

theorem place_x (hx : x < m.width) : (y * m.width + x) % m.width = x := by
  rw [Nat.mul_add_mod_self_right, Nat.mod_eq_of_lt hx]

theorem place_y (hx : x < m.width) : (y * m.width + x) / m.width = y := by
  rw [Nat.add_comm, Nat.add_mul_div_right _ _ (by omega), Nat.div_eq_of_lt hx, Nat.zero_add]

theorem place_eq (p : Nat) : p / m.width * m.width + p % m.width = p := Nat.div_add_mod' p m.width

theorem x_lt (hp : p < m.pixels) : p % m.width < m.width := by
  apply Nat.mod_lt
  by_contra hnone
  rw [Mask.pixels, Nat.eq_zero_of_not_pos hnone, Nat.zero_mul] at hp
  omega

theorem y_lt (hp : p < m.pixels) : p / m.width < m.height := by
  apply Nat.div_lt_of_lt_mul
  exact hp

theorem mem_span {length n : Nat} (hp : p < length) : n ∈ span p length ↔ n < length ∧ Near p n := by
  unfold span Near
  simp only [List.mem_range']
  constructor
  · rintro ⟨i, hi, rfl⟩
    split at hi <;> split at hi <;> split <;> omega
  · rintro ⟨hn, hle, hge⟩
    refine ⟨n - (if 0 < p then p - 1 else p), ?_, ?_⟩
    · split <;> split <;> omega
    · split <;> omega

end Geometry

/-! ## One component -/

section Search

variable {m : Mask} {start k p px py : Nat} {old : Set Nat} {s : Search}

/-- A search whose queue has been worked through up to `k`. -/
structure Looking (m : Mask) (start : Nat) (old : Set Nat) (k : Nat) (s : Search) : Prop where
  flood : Flooding (Touches m) start old s.queue k
  seen : ∀ x, s.seen x = true ↔ x ∈ old ∨ x ∈ s.queue
  pixels : ∀ x ∈ s.queue, IsPixel m x

/-- What a step of the search leaves of it: the queue only grows. -/
structure Extends (s t : Search) : Prop where
  head : t.head = s.head
  component : t.component = s.component
  queue : s.queue <+: t.queue

theorem Extends.refl (s : Search) : Extends s s := ⟨rfl, rfl, List.prefix_rfl⟩

theorem Extends.trans {t u : Search} (h : Extends s t) (h' : Extends t u) : Extends s u :=
  ⟨h'.head.trans h.head, h'.component.trans h.component, h.queue.trans h'.queue⟩

theorem Extends.getElem? {t : Search} (h : Extends s t) (hp : s.queue[k]? = some p) : t.queue[k]? = some p := by
  obtain ⟨rest, hrest⟩ := h.queue
  obtain ⟨hk, hget⟩ := List.getElem?_eq_some_iff.mp hp
  rw [← hrest, List.getElem?_append_left hk, hp]

/-- A place has been looked at. -/
def Looked (m : Mask) (old : Set Nat) (s : Search) (q : Nat) : Prop := m.active q = true → q ∈ old ∨ q ∈ s.queue

theorem Looked.mono {t : Search} {q : Nat} (h : Looked m old s q) (hext : Extends s t) : Looked m old t q := by
  intro hactive
  rcases h hactive with hold | hin
  · exact Or.inl hold
  · exact Or.inr (hext.queue.subset hin)

/-- A queue of pixels with one more to come has room for it. -/
theorem Looking.room (h : Looking m start old k s) {q : Nat} (hq : IsPixel m q) (hnew : q ∉ s.queue) :
    s.queue.length < m.pixels := by
  have hnodup : (q :: s.queue).Nodup := List.nodup_cons.mpr ⟨hnew, h.flood.nodup⟩
  have hsub : q :: s.queue ⊆ List.range m.pixels := by
    intro x hx
    rw [List.mem_range]
    rcases List.mem_cons.mp hx with rfl | hx
    · exact hq.1
    · exact (h.pixels x hx).1
  have hle := (hnodup.subperm hsub).length_le
  rw [List.length_cons, List.length_range] at hle
  exact hle

theorem look_spec (h : Looking m start old k s) (hp : s.queue[k]? = some p) {q : Nat} (hq : q < m.pixels)
    (htouches : m.active q = true → Touches m p q) :
    ∃ t, look m q s = .ok t ∧ Looking m start old k t ∧ Extends s t ∧ Looked m old t q := by
  unfold look
  rw [if_neg (by omega)]
  by_cases hskip : (!m.active q || s.seen q) = true
  · rw [if_pos hskip]
    refine ⟨s, rfl, h, Extends.refl s, ?_⟩
    intro hactive
    rw [hactive] at hskip
    exact (h.seen q).mp (by simpa using hskip)
  · rw [if_neg hskip]
    have hactive : m.active q = true := by
      by_contra hnot
      exact hskip (by simp [hnot])
    have hunseen : ¬(q ∈ old ∨ q ∈ s.queue) := fun hseen => hskip (by simp [(h.seen q).mpr hseen])
    have hnew : q ∉ s.queue := fun hin => hunseen (Or.inr hin)
    have hroom := h.room ⟨hq, hactive⟩ hnew
    obtain ⟨hk, hget⟩ := List.getElem?_eq_some_iff.mp hp
    rw [if_neg (by omega)]
    refine ⟨_, rfl, ⟨?_, ?_, ?_⟩, ⟨rfl, rfl, List.prefix_append _ _⟩, ?_⟩
    · exact h.flood.push hk (by rw [hget]; exact htouches hactive) (fun hold => hunseen (Or.inl hold)) hnew
    · intro x
      by_cases hx : x = q
      · rw [hx]
        simp
      · show Function.update s.seen q true x = true ↔ _
        rw [Function.update_of_ne hx, h.seen, List.mem_append, List.mem_singleton]
        simp [hx]
    · intro x hx
      rcases List.mem_append.mp hx with hx | hx
      · exact h.pixels x hx
      · rw [List.mem_singleton.mp hx]
        exact ⟨hq, hactive⟩
    · intro _
      exact Or.inr (List.mem_append_right _ (List.mem_singleton_self q))

theorem lookAt_spec (hsmall : m.pixels < 2 ^ 32) (h : Looking m start old k s) (hp : s.queue[k]? = some p) {ny nx : Nat}
    (hny : ny < m.height ∧ Near (p / m.width) ny) (hnx : nx < m.width ∧ Near (p % m.width) nx) :
    ∃ t, lookAt m (p % m.width) (p / m.width) ny nx s = .ok t ∧ Looking m start old k t ∧ Extends s t ∧
      Looked m old t (ny * m.width + nx) := by
  have hlt := place_lt hnx.1 hny.1
  unfold lookAt
  by_cases hself : nx = p % m.width ∧ ny = p / m.width
  · rw [if_pos hself]
    refine ⟨s, rfl, h, Extends.refl s, ?_⟩
    intro _
    rw [hself.1, hself.2, place_eq]
    exact Or.inr (List.mem_of_getElem? hp)
  · rw [if_neg hself, Nat.mod_eq_of_lt (by omega)]
    refine look_spec h hp hlt fun hactive => ?_
    refine ⟨h.pixels p (List.mem_of_getElem? hp), ⟨hlt, hactive⟩, ?_, ?_⟩
    · rw [place_x hnx.1]
      exact hnx.2
    · rw [place_y hnx.1]
      exact hny.2

theorem lookRow_spec (hsmall : m.pixels < 2 ^ 32) (h : Looking m start old k s) (hp : s.queue[k]? = some p) {ny : Nat}
    {cols : List Nat}
    (hny : ny < m.height ∧ Near (p / m.width) ny) (hcols : ∀ nx ∈ cols, nx < m.width ∧ Near (p % m.width) nx) :
    ∃ t, lookRow m (p % m.width) (p / m.width) ny cols s = .ok t ∧ Looking m start old k t ∧ Extends s t ∧
      ∀ nx ∈ cols, Looked m old t (ny * m.width + nx) := by
  induction cols generalizing s with
  | nil => exact ⟨s, rfl, h, Extends.refl s, fun nx hnx => absurd hnx List.not_mem_nil⟩
  | cons nx cols ih =>
    obtain ⟨hx, hnear⟩ := hcols nx List.mem_cons_self
    obtain ⟨t, hlook, ht, hext, hlooked⟩ := lookAt_spec hsmall h hp hny ⟨hx, hnear⟩
    obtain ⟨u, hrow, hu, hext', hall⟩ := ih ht (hext.getElem? hp) fun n hn => hcols n (List.mem_cons_of_mem nx hn)
    refine ⟨u, ?_, hu, hext.trans hext', ?_⟩
    · rw [lookRow, hlook]
      exact hrow
    · intro n hn
      rcases List.mem_cons.mp hn with rfl | hn
      · exact hlooked.mono hext'
      · exact hall n hn

theorem lookAround_spec (hsmall : m.pixels < 2 ^ 32) (h : Looking m start old k s) (hp : s.queue[k]? = some p) {rows : List Nat}
    (hrows : ∀ ny ∈ rows, ny < m.height ∧ Near (p / m.width) ny) :
    ∃ t, lookAround m (p % m.width) (p / m.width) rows s = .ok t ∧ Looking m start old k t ∧ Extends s t ∧
      ∀ ny ∈ rows, ∀ nx ∈ span (p % m.width) m.width, Looked m old t (ny * m.width + nx) := by
  have hx := x_lt (h.pixels p (List.mem_of_getElem? hp)).1
  induction rows generalizing s with
  | nil => exact ⟨s, rfl, h, Extends.refl s, fun ny hny => absurd hny List.not_mem_nil⟩
  | cons ny rows ih =>
    obtain ⟨t, hrow, ht, hext, hlooked⟩ := lookRow_spec hsmall h hp (hrows ny List.mem_cons_self) fun nx hnx =>
      (mem_span hx).mp hnx
    obtain ⟨u, hrest, hu, hext', hall⟩ := ih ht (hext.getElem? hp) fun n hn => hrows n (List.mem_cons_of_mem ny hn)
    refine ⟨u, ?_, hu, hext.trans hext', ?_⟩
    · rw [lookAround, hrow]
      exact hrest
    · intro n hn nx hnx
      rcases List.mem_cons.mp hn with rfl | hn
      · exact (hlooked nx hnx).mono hext'
      · exact hall n hn nx hnx

/-- After a visit every neighbour of the pixel has been looked at. -/
theorem visit_spec (hsmall : m.pixels < 2 ^ 32) (h : Looking m start old k s) (hp : s.queue[k]? = some p) :
    ∃ t, visit m p s = .ok t ∧ Looking m start old (k + 1) t ∧ t.head = s.head + 1 ∧
      t.component = grow s.component (p % m.width) (p / m.width) ∧ s.queue <+: t.queue := by
  have hpixel := h.pixels p (List.mem_of_getElem? hp)
  have hbegin : Looking m start old k { s with head := s.head + 1, component := grow s.component (p % m.width) (p / m.width) } :=
    ⟨h.flood, h.seen, h.pixels⟩
  obtain ⟨t, hrun, ht, hext, hlooked⟩ := lookAround_spec hsmall hbegin hp fun ny hny => (mem_span (y_lt hpixel.1)).mp hny
  refine ⟨t, hrun, ⟨?_, ht.seen, ht.pixels⟩, hext.head, hext.component, hext.queue⟩
  obtain ⟨hk, hget⟩ := List.getElem?_eq_some_iff.mp (hext.getElem? hp)
  refine ht.flood.next hk ?_
  intro q htouches
  rw [hget] at htouches
  obtain ⟨-, hq, hx, hy⟩ := htouches
  have hmem := hlooked (q / m.width) ((mem_span (y_lt hpixel.1)).mpr ⟨y_lt hq.1, hy⟩) (q % m.width)
    ((mem_span (x_lt hpixel.1)).mpr ⟨x_lt hq.1, hx⟩)
  rw [place_eq] at hmem
  exact hmem hq.2

/-- The component of the pixels of a list, from a first pixel at `x` and `y`. -/
structure Tallied (m : Mask) (x y : Nat) (l : List Nat) (c : Component) : Prop where
  area : c.area = l.length
  minX : c.minX = (l.map fun q => q % m.width).foldl min x
  maxX : c.maxX = (l.map fun q => q % m.width).foldl max x
  minY : c.minY = (l.map fun q => q / m.width).foldl min y
  maxY : c.maxY = (l.map fun q => q / m.width).foldl max y
  sumX : c.sumX = (l.map fun q => q % m.width).sum
  sumY : c.sumY = (l.map fun q => q / m.width).sum

theorem less_eq_min (a b : Nat) : (if b < a then b else a) = min a b := by
  rw [Nat.min_def]
  split <;> split <;> omega

theorem less_eq_max (a b : Nat) : (if a < b then b else a) = max a b := by
  rw [Nat.max_def]
  split <;> split <;> omega

theorem Tallied.grow {x y : Nat} {l : List Nat} {c : Component} (h : Tallied m x y l c) (q : Nat) :
    Tallied m x y (l ++ [q]) (Ui.grow c (q % m.width) (q / m.width)) := by
  obtain ⟨harea, hminX, hmaxX, hminY, hmaxY, hsumX, hsumY⟩ := h
  refine ⟨?_, ?_, ?_, ?_, ?_, ?_, ?_⟩
  · simp [Ui.grow, harea]
  · simp [Ui.grow, less_eq_min, hminX, List.foldl_append]
  · simp [Ui.grow, less_eq_max, hmaxX, List.foldl_append]
  · simp [Ui.grow, less_eq_min, hminY, List.foldl_append]
  · simp [Ui.grow, less_eq_max, hmaxY, List.foldl_append]
  · simp [Ui.grow, hsumX]
  · simp [Ui.grow, hsumY]

theorem foldl_min_le (l : List Nat) (a : Nat) :
    l.foldl min a ≤ a ∧ (∀ b ∈ l, l.foldl min a ≤ b) ∧ (l.foldl min a = a ∨ l.foldl min a ∈ l) := by
  induction l generalizing a with
  | nil => exact ⟨Nat.le_refl a, fun b hb => absurd hb List.not_mem_nil, Or.inl rfl⟩
  | cons c l ih =>
    obtain ⟨hle, hall, hin⟩ := ih (min a c)
    rw [List.foldl_cons]
    refine ⟨Nat.le_trans hle (Nat.min_le_left a c), ?_, ?_⟩
    · intro b hb
      rcases List.mem_cons.mp hb with rfl | hb
      · exact Nat.le_trans hle (Nat.min_le_right a b)
      · exact hall b hb
    · rcases hin with hin | hin
      · rcases Nat.le_total a c with hac | hca
        · rw [Nat.min_eq_left hac] at hin
          exact Or.inl (by rw [Nat.min_eq_left hac]; exact hin)
        · rw [Nat.min_eq_right hca] at hin
          exact Or.inr (by rw [Nat.min_eq_right hca, hin]; exact List.mem_cons_self)
      · exact Or.inr (List.mem_cons_of_mem c hin)

theorem le_foldl_max (l : List Nat) (a : Nat) :
    a ≤ l.foldl max a ∧ (∀ b ∈ l, b ≤ l.foldl max a) ∧ (l.foldl max a = a ∨ l.foldl max a ∈ l) := by
  induction l generalizing a with
  | nil => exact ⟨Nat.le_refl a, fun b hb => absurd hb List.not_mem_nil, Or.inl rfl⟩
  | cons c l ih =>
    obtain ⟨hle, hall, hin⟩ := ih (max a c)
    rw [List.foldl_cons]
    refine ⟨Nat.le_trans (Nat.le_max_left a c) hle, ?_, ?_⟩
    · intro b hb
      rcases List.mem_cons.mp hb with rfl | hb
      · exact Nat.le_trans (Nat.le_max_right a b) hle
      · exact hall b hb
    · rcases hin with hin | hin
      · rcases Nat.le_total c a with hca | hac
        · rw [Nat.max_eq_left hca] at hin
          exact Or.inl (by rw [Nat.max_eq_left hca]; exact hin)
        · rw [Nat.max_eq_right hac] at hin
          exact Or.inr (by rw [Nat.max_eq_right hac, hin]; exact List.mem_cons_self)
      · exact Or.inr (List.mem_cons_of_mem c hin)

/-- A list of the pixels of a part, its first pixel among them, is tallied as the part. -/
theorem Tallied.describes {l : List Nat} {c : Component} {part : Finset Nat}
    (h : Tallied m (start % m.width) (start / m.width) l c)
    (hnodup : l.Nodup) (hmem : ∀ q, q ∈ part ↔ q ∈ l) (hstart : start ∈ l) : Describes m c part := by
  have hpart : part = l.toFinset := Finset.ext fun q => (hmem q).trans List.mem_toFinset.symm
  have hleast : ∀ f : Nat → Nat, IsLeast {x | ∃ q ∈ part, f q = x} ((l.map f).foldl min (f start)) := by
    intro f
    obtain ⟨hle, hall, hin⟩ := foldl_min_le (l.map f) (f start)
    constructor
    · rcases hin with hin | hin
      · exact ⟨start, (hmem start).mpr hstart, hin.symm⟩
      · obtain ⟨q, hq, heq⟩ := List.mem_map.mp hin
        exact ⟨q, (hmem q).mpr hq, heq⟩
    · rintro _ ⟨q, hq, rfl⟩
      exact hall _ (List.mem_map_of_mem ((hmem q).mp hq))
  have hgreatest : ∀ f : Nat → Nat, IsGreatest {x | ∃ q ∈ part, f q = x} ((l.map f).foldl max (f start)) := by
    intro f
    obtain ⟨hle, hall, hin⟩ := le_foldl_max (l.map f) (f start)
    constructor
    · rcases hin with hin | hin
      · exact ⟨start, (hmem start).mpr hstart, hin.symm⟩
      · obtain ⟨q, hq, heq⟩ := List.mem_map.mp hin
        exact ⟨q, (hmem q).mpr hq, heq⟩
    · rintro _ ⟨q, hq, rfl⟩
      exact hall _ (List.mem_map_of_mem ((hmem q).mp hq))
  refine ⟨?_, ?_, ?_, ?_, ?_, ?_, ?_⟩
  · rw [h.area, hpart, List.toFinset_card_of_nodup hnodup]
  · rw [h.minX]
    exact hleast fun q => q % m.width
  · rw [h.maxX]
    exact hgreatest fun q => q % m.width
  · rw [h.minY]
    exact hleast fun q => q / m.width
  · rw [h.maxY]
    exact hgreatest fun q => q / m.width
  · rw [h.sumX, hpart, List.sum_toFinset _ hnodup]
  · rw [h.sumY, hpart, List.sum_toFinset _ hnodup]

/-- Draining the queue ends, and leaves the part of the start with its component. -/
theorem drain_spec (hsmall : m.pixels < 2 ^ 32) {fuel : Nat} (h : Looking m start old k s) (hhead : s.head = k)
    (htally : Tallied m (start % m.width) (start / m.width) (s.queue.take k) s.component) (hfuel : m.pixels < fuel + k) :
    ∃ t, drain m fuel s = .ok t ∧ Looking m start old t.queue.length t ∧
      Tallied m (start % m.width) (start / m.width) t.queue t.component := by
  induction fuel generalizing k s with
  | zero =>
    have hlen := h.flood.length_le fun x hx => List.mem_range.mpr (h.pixels x hx).1
    have hle := h.flood.head_le
    rw [List.length_range] at hlen
    omega
  | succ fuel ih =>
    rw [drain]
    by_cases hmore : s.head < s.queue.length
    · rw [dif_pos hmore]
      have hp : s.queue[k]? = some s.queue[s.head] := by
        rw [← hhead]
        exact List.getElem?_eq_getElem hmore
      obtain ⟨t, hvisit, ht, hthead, hcomponent, rest, hqueue⟩ := visit_spec hsmall h hp
      have htake : t.queue.take (k + 1) = s.queue.take k ++ [s.queue[s.head]] := by
        rw [← hqueue, List.take_append_of_le_length (by omega), List.take_succ_eq_append_getElem (by omega)]
        simp only [hhead]
      have htally' : Tallied m (start % m.width) (start / m.width) (t.queue.take (k + 1)) t.component := by
        rw [htake, hcomponent]
        exact htally.grow _
      obtain ⟨u, hdrain, hu⟩ := ih ht (by rw [hthead, hhead]) htally' (by omega)
      refine ⟨u, ?_, hu⟩
      rw [hvisit]
      exact hdrain
    · rw [dif_neg hmore]
      have hend : s.queue.length = k := Nat.le_antisymm (by omega) h.flood.head_le
      refine ⟨s, rfl, by rw [hend]; exact h, ?_⟩
      rw [← hend, List.take_length] at htally
      exact htally

end Search

/-! ## The components kept -/

section Kept

variable {m : Mask} {components : List Component} {component : Component} {all kept : List Nat} {p : Nat}

noncomputable def partArea (m : Mask) (p : Nat) : Nat := (partOf m p).card

def Kept (m : Mask) (components : List Component) (kept : List Nat) : Prop :=
  List.Forall₂ (fun c p => Describes m c (partOf m p)) components kept

theorem Kept.area (h : Kept m components kept) {i : Nat} (hi : i < kept.length) : areaAt components i = partArea m kept[i] := by
  have hlen := h.length_eq
  have hi' : i < components.length := by omega
  have hdescribes := (List.forall₂_iff_get.mp h).2 i hi' hi
  unfold areaAt
  rw [List.getElem?_eq_getElem hi']
  exact hdescribes.area

theorem smallestOf_spec (hsome : components ≠ []) :
    smallestOf components < components.length ∧
      ∀ i < components.length, areaAt components (smallestOf components) ≤ areaAt components i := by
  have hpos : 0 < components.length := List.length_pos_iff.mpr hsome
  have hfold : ∀ n, n < components.length →
      (List.range' 1 n).foldl (fun smallest i => if areaAt components i < areaAt components smallest then i else smallest) 0 ≤ n ∧
      ∀ i ≤ n, areaAt components ((List.range' 1 n).foldl
        (fun smallest i => if areaAt components i < areaAt components smallest then i else smallest) 0) ≤
          areaAt components i := by
    intro n hn
    induction n with
    | zero =>
      refine ⟨Nat.le_refl 0, fun i hi => ?_⟩
      rw [Nat.le_zero.mp hi]
      exact Nat.le_refl _
    | succ n ih =>
      obtain ⟨hle, hleast⟩ := ih (by omega)
      simp only [List.range'_1_concat, List.foldl_append, List.foldl_cons, List.foldl_nil]
      generalize (List.range' 1 n).foldl _ 0 = j at hle hleast ⊢
      split
      · rename_i hless
        refine ⟨by omega, fun i hi => ?_⟩
        rcases Nat.lt_or_ge i (n + 1) with hlt | hge
        · exact Nat.le_trans (Nat.le_of_lt hless) (hleast i (by omega))
        · rw [show i = 1 + n by omega]
      · rename_i hmore
        refine ⟨by omega, fun i hi => ?_⟩
        rcases Nat.lt_or_ge i (n + 1) with hlt | hge
        · exact hleast i (by omega)
        · rw [show i = 1 + n by omega]
          exact Nat.le_of_not_lt hmore
  obtain ⟨hle, hleast⟩ := hfold (components.length - 1) (by omega)
  exact ⟨by unfold smallestOf; omega, fun i hi => hleast i (by omega)⟩

/-- A component of another part is kept, takes the place of the smallest, or is left out. -/
theorem insert_spec (h : Kept m components kept) (hlargest : Largest maxComponents (partArea m) all kept)
    (hnew : Describes m component (partOf m p)) (hbig : minArea ≤ component.area) :
    ∃ kept', Kept m (insertButtonComponent components component) kept' ∧
      Largest maxComponents (partArea m) (all ++ [p]) kept' := by
  have hlen := h.length_eq
  unfold insertButtonComponent
  rw [if_neg (by omega)]
  by_cases hroom : components.length < maxComponents
  · rw [if_pos hroom]
    exact ⟨kept ++ [p], List.rel_append h (.cons hnew .nil), hlargest.add (by omega)⟩
  rw [if_neg hroom]
  have hfull : kept.length = maxComponents := by
    have := hlargest.length_le
    omega
  have hsome : components ≠ [] := by
    rintro rfl
    exact hroom (by decide)
  obtain ⟨hin, hleast⟩ := smallestOf_spec hsome
  simp only
  generalize smallestOf components = i at hin hleast
  have hi : i < kept.length := by omega
  rw [h.area hi] at hleast
  have hleast' : ∀ q ∈ kept, partArea m kept[i] ≤ partArea m q := by
    intro q hq
    obtain ⟨j, hj, rfl⟩ := List.mem_iff_getElem.mp hq
    rw [← h.area hj]
    exact hleast j (by omega)
  rw [h.area hi, hnew.area]
  by_cases hlarger : partArea m kept[i] < (partOf m p).card
  · rw [if_pos hlarger]
    refine ⟨kept.set i p, ?_, hlargest.replace hi hfull hleast' hlarger⟩
    refine List.forall₂_iff_get.mpr ⟨by simp [hlen], ?_⟩
    intro j hj hj'
    simp only [List.get_eq_getElem, List.getElem_set]
    by_cases hij : i = j
    · rw [if_pos hij, if_pos hij]
      exact hnew
    · rw [if_neg hij, if_neg hij]
      rw [List.length_set] at hj hj'
      exact (List.forall₂_iff_get.mp h).2 j hj hj'
  · rw [if_neg hlarger]
    refine ⟨kept, h, hlargest.leave hfull ?_⟩
    intro q hq
    exact Nat.le_trans (Nat.le_of_not_lt hlarger) (hleast' q hq)

end Kept

/-! ## The mask -/

section Mask

variable {m : Mask} {s : Scan}

/-- What has been seen is whole parts, one for each start, and the components are those of the
    largest of them. -/
structure Scanning (m : Mask) (s : Scan) (starts : List Nat) : Prop where
  scanned : Scanned (Touches m) starts {x | s.seen x = true}
  pixels : ∀ p ∈ starts, IsPixel m p
  kept : ∃ kept, Kept m s.components kept ∧ Largest maxComponents (partArea m)
    (starts.filter fun p => decide (minArea ≤ partArea m p)) kept
  nodup : s.enqueued.Nodup
  enqueued : ∀ x, x ∈ s.enqueued ↔ s.seen x = true

theorem scanPixel_spec (hsmall : m.pixels < 2 ^ 32) {starts : List Nat} (h : Scanning m s starts) {x y : Nat} (hx : x < m.width)
    (hy : y < m.height) :
    ∃ t starts', scanPixel m y x s = .ok t ∧ Scanning m t starts' ∧ (∀ q, s.seen q = true → t.seen q = true) ∧
      (m.active (y * m.width + x) = true → t.seen (y * m.width + x) = true) := by
  have hlt := place_lt hx hy
  unfold scanPixel
  simp only [Nat.mod_eq_of_lt (show y * m.width + x < 2 ^ 32 by omega)]
  rw [if_neg (by omega)]
  generalize hstart : y * m.width + x = start at hlt
  by_cases hskip : (!m.active start || s.seen start) = true
  · rw [if_pos hskip]
    refine ⟨s, starts, rfl, h, fun q hq => hq, ?_⟩
    intro hactive
    simpa [hactive] using hskip
  rw [if_neg hskip]
  have hactive : m.active start = true := by
    by_contra hnot
    exact hskip (by simp [hnot])
  have hunseen : start ∉ {x | s.seen x = true} := fun hseen => hskip (by simp [show s.seen start = true from hseen])
  have hpixel : IsPixel m start := ⟨hlt, hactive⟩
  have hcoords : start % m.width = x ∧ start / m.width = y := by
    rw [← hstart]
    exact ⟨place_x hx, place_y hx⟩
  have hbegin : Looking m start {x | s.seen x = true} 0
      { seen := Function.update s.seen start true, queue := [start], head := 0
        component := { area := 0, minX := x, minY := y, maxX := x, maxY := y, sumX := 0, sumY := 0 } } := by
    refine ⟨.begin hunseen, ?_, ?_⟩
    · intro q
      by_cases hq : q = start
      · simp [hq]
      · show Function.update s.seen start true q = true ↔ _
        rw [Function.update_of_ne hq]
        simp [hq]
    · intro q hq
      rw [List.mem_singleton.mp hq]
      exact hpixel
  have htally : Tallied m (start % m.width) (start / m.width) []
      { area := 0, minX := x, minY := y, maxX := x, maxY := y, sumX := 0, sumY := 0 } := by
    rw [hcoords.1, hcoords.2]
    exact ⟨rfl, rfl, rfl, rfl, rfl, rfl, rfl⟩
  obtain ⟨found, hdrain, hfound, htallied⟩ := drain_spec hsmall hbegin rfl htally (by omega : m.pixels < m.pixels + 1 + 0)
  rw [hdrain]
  have hpart := hfound.flood.all (fun _ _ => Touches.symm) h.scanned.closed
  have hdescribes : Describes m found.component (partOf m start) := by
    refine htallied.describes hfound.flood.nodup (fun q => ?_) hfound.flood.first
    rw [mem_partOf hpixel, hpart]
  refine ⟨_, starts ++ [start], rfl, ⟨?_, ?_, ?_, ?_, ?_⟩, ?_, ?_⟩
  · refine h.scanned.add hunseen fun q => ?_
    show found.seen q = true ↔ _
    rw [hfound.seen, hpart]
  · intro q hq
    rcases List.mem_append.mp hq with hq | hq
    · exact h.pixels q hq
    · rw [List.mem_singleton.mp hq]
      exact hpixel
  · obtain ⟨kept, hkept, hlargest⟩ := h.kept
    rw [List.filter_append]
    by_cases hbig : minArea ≤ found.component.area
    · obtain ⟨kept', hkept', hlargest'⟩ := insert_spec hkept hlargest hdescribes hbig
      refine ⟨kept', ?_, ?_⟩
      · simp only [if_pos hbig]
        exact hkept'
      · rw [List.filter_cons_of_pos (by rw [decide_eq_true_eq, partArea, ← hdescribes.area]; exact hbig), List.filter_nil]
        exact hlargest'
    · refine ⟨kept, ?_, ?_⟩
      · simp only [if_neg hbig]
        exact hkept
      · rw [List.filter_cons_of_neg (by rw [decide_eq_true_eq, partArea, ← hdescribes.area]; exact hbig), List.filter_nil,
          List.append_nil]
        exact hlargest
  · rw [List.nodup_append]
    refine ⟨h.nodup, hfound.flood.nodup, ?_⟩
    rintro a ha b hb rfl
    exact hfound.flood.fresh a hb ((h.enqueued a).mp ha)
  · intro q
    rw [List.mem_append, h.enqueued, hfound.seen]
    rfl
  · intro q hq
    exact (hfound.seen q).mpr (Or.inl hq)
  · intro _
    exact (hfound.seen start).mpr (Or.inr hfound.flood.first)

theorem scanRow_spec (hsmall : m.pixels < 2 ^ 32) {starts : List Nat} (h : Scanning m s starts) {y : Nat} (hy : y < m.height)
    {cols : List Nat} (hcols : ∀ x ∈ cols, x < m.width) :
    ∃ t starts', scanRow m y cols s = .ok t ∧ Scanning m t starts' ∧ (∀ q, s.seen q = true → t.seen q = true) ∧
      ∀ x ∈ cols, m.active (y * m.width + x) = true → t.seen (y * m.width + x) = true := by
  induction cols generalizing s starts with
  | nil => exact ⟨s, starts, rfl, h, fun q hq => hq, fun x hx => absurd hx List.not_mem_nil⟩
  | cons x cols ih =>
    obtain ⟨t, starts', hpixel, ht, hkept, hfirst⟩ := scanPixel_spec hsmall h (hcols x List.mem_cons_self) hy
    obtain ⟨u, starts'', hrow, hu, hkept', hall⟩ := ih ht fun n hn => hcols n (List.mem_cons_of_mem x hn)
    refine ⟨u, starts'', ?_, hu, fun q hq => hkept' q (hkept q hq), ?_⟩
    · rw [scanRow, hpixel]
      exact hrow
    · intro n hn hactive
      rcases List.mem_cons.mp hn with rfl | hn
      · exact hkept' _ (hfirst hactive)
      · exact hall n hn hactive

theorem scanRows_spec (hsmall : m.pixels < 2 ^ 32) {starts : List Nat} (h : Scanning m s starts) {rows : List Nat}
    (hrows : ∀ y ∈ rows, y < m.height) :
    ∃ t starts', scanRows m rows s = .ok t ∧ Scanning m t starts' ∧ (∀ q, s.seen q = true → t.seen q = true) ∧
      ∀ y ∈ rows, ∀ x < m.width, m.active (y * m.width + x) = true → t.seen (y * m.width + x) = true := by
  induction rows generalizing s starts with
  | nil => exact ⟨s, starts, rfl, h, fun q hq => hq, fun y hy => absurd hy List.not_mem_nil⟩
  | cons y rows ih =>
    obtain ⟨t, starts', hrow, ht, hkept, hfirst⟩ :=
      scanRow_spec hsmall h (hrows y List.mem_cons_self) fun x (hx : x ∈ List.range m.width) => List.mem_range.mp hx
    obtain ⟨u, starts'', hrest, hu, hkept', hall⟩ := ih ht fun n hn => hrows n (List.mem_cons_of_mem y hn)
    refine ⟨u, starts'', ?_, hu, fun q hq => hkept' q (hkept q hq), ?_⟩
    · rw [scanRows, hrow]
      exact hrest
    · intro n hn x hx hactive
      rcases List.mem_cons.mp hn with rfl | hn
      · exact hkept' _ (hfirst x (List.mem_range.mpr hx) hactive)
      · exact hall n hn x hx hactive

theorem scan_begins (m : Mask) : Scanning m { seen := fun _ => false, components := [], enqueued := [] } [] := by
  refine ⟨⟨?_, List.Pairwise.nil⟩, ?_, ⟨[], .nil, .nil⟩, List.nodup_nil, ?_⟩
  · intro x
    constructor
    · intro hx
      cases hx
    · rintro ⟨p, hp, -⟩
      cases hp
  · intro p hp
    cases hp
  · intro x
    constructor
    · intro hx
      cases hx
    · intro hx
      cases hx

/-- The components that are found, by falling area, are those of the connected parts of at least
    500 pixels, or of the 16 largest of these. -/
structure Found (m : Mask) (components : List Component) (starts kept : List Nat) : Prop where
  /-- The starts are pixels, one in each part. -/
  pixels : ∀ p ∈ starts, IsPixel m p
  apart : starts.Pairwise fun p q => ¬Connected (Touches m) p q
  covered : ∀ q, IsPixel m q → ∃ p ∈ starts, Connected (Touches m) p q
  described : List.Forall₂ (fun c p => Describes m c (partOf m p)) components kept
  sorted : components.Pairwise fun a b => b.area ≤ a.area
  largest : Largest maxComponents (fun p => (partOf m p).card) (starts.filter fun p => decide (minArea ≤ (partOf m p).card)) kept

/-- The search of a mask of fewer than 2^32 pixels ends, enqueues no pixel twice, and finds the
    connected parts. -/
theorem components_found (m : Mask) (hsmall : m.width * m.height < 2 ^ 32) : ∃ found components enqueued starts kept,
    collectButtonComponents m = .ok (found, components, enqueued) ∧ enqueued.Nodup ∧ (∀ p, p ∈ enqueued ↔ IsPixel m p) ∧
      Found m components starts kept ∧ (found = true ↔ kept ≠ []) := by
  unfold collectButtonComponents
  by_cases hempty : m.width = 0 ∨ m.height = 0
  · have hnone : ∀ p, ¬IsPixel m p := by
      rintro p ⟨hp, -⟩
      have hpixels : m.pixels = 0 := Nat.mul_eq_zero.mpr hempty
      omega
    rw [if_pos hempty]
    refine ⟨false, [], [], [], [], rfl, List.nodup_nil, ?_, ⟨?_, List.Pairwise.nil, ?_, .nil, List.Pairwise.nil, .nil⟩, ?_⟩
    · intro p
      exact ⟨fun h => absurd h List.not_mem_nil, fun h => absurd h (hnone p)⟩
    · intro p hp
      cases hp
    · intro q hq
      exact absurd hq (hnone q)
    · exact ⟨fun h => absurd h Bool.false_ne_true, fun h => absurd rfl h⟩
  rw [if_neg hempty]
  obtain ⟨s, starts, hscan, hs, -, hall⟩ :=
    scanRows_spec hsmall (scan_begins m) fun y (hy : y ∈ List.range m.height) => List.mem_range.mp hy
  have hseen : ∀ q, IsPixel m q → s.seen q = true := by
    rintro q ⟨hq, hactive⟩
    have := hall (q / m.width) (List.mem_range.mpr (y_lt hq)) (q % m.width) (x_lt hq)
    rw [place_eq] at this
    exact this hactive
  have hcovered : ∀ q, IsPixel m q → ∃ p ∈ starts, Connected (Touches m) p q := fun q hq => (hs.scanned.covers q).mp (hseen q hq)
  have henqueued : ∀ p, p ∈ s.enqueued ↔ IsPixel m p := by
    intro p
    rw [hs.enqueued]
    constructor
    · intro hp
      obtain ⟨q, hq, hconnected⟩ := (hs.scanned.covers p).mp hp
      exact connected_pixel (hs.pixels q hq) hconnected
    · exact hseen p
  obtain ⟨kept, hkept, hlargest⟩ := hs.kept
  rw [hscan]
  by_cases hnone : s.components = []
  · have hkeptNone : kept = [] := by
      have hlen := List.Forall₂.length_eq hkept
      rw [hnone] at hlen
      exact List.length_eq_zero_iff.mp hlen.symm
    refine ⟨false, [], s.enqueued, starts, kept, ?_, hs.nodup, henqueued,
      ⟨hs.pixels, hs.scanned.apart, hcovered, ?_, List.Pairwise.nil,
      hlargest⟩, ?_⟩
    · show (if s.components = [] then _ else _ : Except Fault (Bool × List Component × List Nat)) = _
      rw [if_pos hnone]
      rfl
    · rw [← hnone]
      exact hkept
    · exact ⟨fun h => absurd h Bool.false_ne_true, fun h => absurd hkeptNone h⟩
  · obtain ⟨sorted, hsorted, hperm⟩ := List.perm_comp_forall₂
      (List.mergeSort_perm s.components fun a b => decide (b.area ≤ a.area)) hkept
    refine ⟨true, _, s.enqueued, starts, sorted, ?_, hs.nodup, henqueued,
      ⟨hs.pixels, hs.scanned.apart, hcovered, hsorted, ?_, ?_⟩, ?_⟩
    · show (if s.components = [] then _ else _ : Except Fault (Bool × List Component × List Nat)) = _
      rw [if_neg hnone]
      rfl
    · have hordered : (s.components.mergeSort fun a b => decide (b.area ≤ a.area)).Pairwise
          fun a b => decide (b.area ≤ a.area) = true := by
        apply List.pairwise_mergeSort
        · intro a b c hab hbc
          simp only [decide_eq_true_eq] at hab hbc ⊢
          omega
        · intro a b
          simp only [Bool.or_eq_true, decide_eq_true_eq]
          omega
      exact hordered.imp fun hab => by simpa using hab
    · exact hlargest.perm hperm
    · refine ⟨fun _ hnil => ?_, fun _ => rfl⟩
      have hlen := List.Forall₂.length_eq hsorted
      rw [hnil, List.length_mergeSort] at hlen
      exact hnone (List.length_eq_zero_iff.mp hlen)

end Mask

/-- A row of 600 pixels, and one pixel that does not touch it. -/
def rowAndDot : Mask := ⟨600, 3, fun p => decide (p < 600 ∨ p = 1210)⟩

theorem isPixel_row {p : Nat} (hp : p < 600) : IsPixel rowAndDot p :=
  ⟨Nat.lt_trans hp (by decide), decide_eq_true (Or.inl hp)⟩

theorem row_or_dot {p : Nat} (hp : IsPixel rowAndDot p) : p < 600 ∨ p = 1210 := of_decide_eq_true hp.2

theorem row_connected {p : Nat} (hp : p < 600) : Connected (Touches rowAndDot) 0 p := by
  induction p with
  | zero => exact .refl
  | succ p ih =>
    have hlast : p < 600 := by omega
    have hwidth : rowAndDot.width = 600 := rfl
    refine (ih hlast).tail ⟨isPixel_row hlast, isPixel_row hp, ?_, ?_⟩
    · simp only [Near, hwidth]
      omega
    · simp only [Near, hwidth]
      omega

theorem row_closed {p q : Nat} (hp : p < 600) (h : Connected (Touches rowAndDot) p q) : q < 600 := by
  induction h with
  | refl => exact hp
  | @tail b c _ hstep ih =>
    have hy : Near (b / 600) (c / 600) := hstep.2.2.2
    rcases row_or_dot hstep.2.1 with hc | rfl
    · exact hc
    · unfold Near at hy
      omega

theorem dot_closed {p : Nat} (h : Connected (Touches rowAndDot) 1210 p) : p = 1210 := by
  induction h with
  | refl => rfl
  | @tail b c _ hstep ih =>
    have hy : Near (b / 600) (c / 600) := hstep.2.2.2
    rcases row_or_dot hstep.2.1 with hc | rfl
    · subst ih
      unfold Near at hy
      omega
    · rfl

theorem partOf_row {p : Nat} (hp : p < 600) : partOf rowAndDot p = Finset.range 600 := by
  ext q
  rw [mem_partOf (isPixel_row hp), Finset.mem_range]
  refine ⟨row_closed hp, fun hq => ?_⟩
  exact (connected_symm (fun _ _ => Touches.symm) (row_connected hp)).trans (row_connected hq)

theorem card_dot : (partOf rowAndDot 1210).card ≤ 1 := by
  have hsub : partOf rowAndDot 1210 ⊆ {1210} := fun q hq =>
    Finset.mem_singleton.mpr (dot_closed ((mem_partOf ⟨by decide, by decide⟩).mp hq))
  exact (Finset.card_le_card hsub).trans_eq (Finset.card_singleton _)

theorem describes_row {c : Component} (h : Describes rowAndDot c (Finset.range 600)) :
    (c.area, c.minX, c.maxX, c.minY, c.maxY) = (600, 0, 599, 0, 0) := by
  have hzero : 0 ∈ Finset.range 600 := Finset.mem_range.mpr (by decide)
  have hx : IsLeast {x | ∃ q ∈ Finset.range 600, q % 600 = x} 0 := ⟨⟨0, hzero, rfl⟩, fun _ _ => Nat.zero_le _⟩
  have hX : IsGreatest {x | ∃ q ∈ Finset.range 600, q % 600 = x} 599 := by
    refine ⟨⟨599, Finset.mem_range.mpr (by decide), rfl⟩, ?_⟩
    rintro _ ⟨q, -, rfl⟩
    exact Nat.le_of_lt_succ (Nat.mod_lt q (by decide))
  have hy : IsLeast {y | ∃ q ∈ Finset.range 600, q / 600 = y} 0 := ⟨⟨0, hzero, rfl⟩, fun _ _ => Nat.zero_le _⟩
  have hY : IsGreatest {y | ∃ q ∈ Finset.range 600, q / 600 = y} 0 := by
    refine ⟨⟨0, hzero, rfl⟩, ?_⟩
    rintro _ ⟨q, hq, rfl⟩
    exact Nat.le_of_eq (Nat.div_eq_of_lt (Finset.mem_range.mp hq))
  rw [h.area.trans (Finset.card_range 600), h.minX.unique hx, h.maxX.unique hX, h.minY.unique hy, h.maxY.unique hY]

/-- The search finds the row. -/
theorem components_found_row : ∃ components enqueued, collectButtonComponents rowAndDot = .ok (true, components, enqueued) ∧
    enqueued.Nodup ∧ 1210 ∈ enqueued ∧
    components.map (fun c => (c.area, c.minX, c.maxX, c.minY, c.maxY)) = [(600, 0, 599, 0, 0)] := by
  obtain ⟨found, components, enqueued, starts, kept, hrun, hnodup, henqueued, hfound, hany⟩ :=
    components_found rowAndDot (by decide)
  -- the large parts are the row, found once
  have hlarge : ∀ p ∈ starts.filter fun p => decide (minArea ≤ (partOf rowAndDot p).card), p < 600 := by
    intro p hp
    obtain ⟨hstart, hcard⟩ := List.mem_filter.mp hp
    rcases row_or_dot (hfound.pixels p hstart) with hrow | rfl
    · exact hrow
    · exact absurd ((of_decide_eq_true hcard).trans card_dot) (by decide)
  obtain ⟨p, hp⟩ : ∃ p, starts.filter (fun p => decide (minArea ≤ (partOf rowAndDot p).card)) = [p] := by
    obtain ⟨p, hstart, hconnected⟩ := hfound.covered 0 (isPixel_row (by decide))
    have hrow := row_closed (by decide) (connected_symm (fun _ _ => Touches.symm) hconnected)
    have hmem : p ∈ starts.filter fun p => decide (minArea ≤ (partOf rowAndDot p).card) := by
      refine List.mem_filter.mpr ⟨hstart, decide_eq_true ?_⟩
      rw [partOf_row hrow, Finset.card_range]
      decide
    have hapart := hfound.apart.filter fun p => decide (minArea ≤ (partOf rowAndDot p).card)
    generalize starts.filter (fun p => decide (minArea ≤ (partOf rowAndDot p).card)) = l at hlarge hmem hapart
    match l with
    | [] => cases hmem
    | [q] => exact ⟨q, rfl⟩
    | q :: r :: l =>
      refine absurd ?_ ((List.pairwise_cons.mp hapart).1 r List.mem_cons_self)
      refine (mem_partOf (isPixel_row (hlarge q List.mem_cons_self))).mp ?_
      rw [partOf_row (hlarge q List.mem_cons_self), Finset.mem_range]
      exact hlarge r (List.mem_cons_of_mem _ List.mem_cons_self)
  have hlt : p < 600 := hlarge p (hp ▸ List.mem_singleton_self p)
  obtain ⟨dropped, hperm, hlen, -⟩ := hfound.largest
  rw [hp] at hperm hlen
  obtain ⟨q, rfl⟩ := List.length_eq_one_iff.mp hlen
  have hnone : dropped = [] := by simpa using hperm.length_eq.symm
  rw [hnone, List.append_nil, List.singleton_perm] at hperm
  obtain ⟨c, rest, hdescribes, hrest, rfl⟩ := List.forall₂_cons_right_iff.mp hfound.described
  rw [List.forall₂_nil_right_iff] at hrest
  subst hrest
  cases hperm
  rw [partOf_row hlt] at hdescribes
  refine ⟨[c], enqueued, ?_, hnodup, (henqueued 1210).mpr ⟨by decide, by decide⟩, ?_⟩
  · rw [hrun, hany.mpr (List.cons_ne_nil _ _)]
  · rw [List.map_cons, List.map_nil, describes_row hdescribes]

end Be300.Ui
