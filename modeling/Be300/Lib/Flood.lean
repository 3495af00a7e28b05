/-
  Be300.Lib.Flood — a search that takes one connected part of a graph after another.

  `Flooding`: a queue that started with `start` and holds only what is connected to it, each
  vertex once, none of them in `old`; what is adjacent to the vertices before `head` is in the
  queue or in `old`. When the head has come to the end the queue is the part of `start`
  (`Flooding.all`). `Scanned`: what has been seen is the parts of the starts, and no two
  starts are in one part.
-/

import Mathlib.Data.List.Nodup
import Mathlib.Data.List.Perm.Subperm
import Mathlib.Data.Set.Basic
import Mathlib.Logic.Relation

namespace Be300.Lib

abbrev Connected {α : Type} (adj : α → α → Prop) : α → α → Prop := Relation.ReflTransGen adj

structure Flooding {α : Type} (adj : α → α → Prop) (start : α) (old : Set α) (queue : List α) (head : Nat) : Prop where
  nodup : queue.Nodup
  fresh : ∀ x ∈ queue, x ∉ old
  reached : ∀ x ∈ queue, Connected adj start x
  first : start ∈ queue
  head_le : head ≤ queue.length
  done : ∀ x ∈ queue.take head, ∀ y, adj x y → y ∈ old ∨ y ∈ queue

structure Scanned {α : Type} (adj : α → α → Prop) (starts : List α) (old : Set α) : Prop where
  covers : ∀ x, x ∈ old ↔ ∃ p ∈ starts, Connected adj p x
  apart : starts.Pairwise fun p q => ¬Connected adj p q

section Flood

variable {α : Type} {adj : α → α → Prop} {start x p : α} {old : Set α} {queue starts : List α} {head : Nat}

theorem Flooding.begin (h : start ∉ old) : Flooding adj start old [start] 0 := by
  refine ⟨List.nodup_singleton start, ?_, ?_, List.mem_singleton_self start, Nat.zero_le _, ?_⟩
  · intro x hx
    rwa [List.mem_singleton.mp hx]
  · intro x hx
    rw [List.mem_singleton.mp hx]
  · intro x hx
    cases hx

/-- A neighbour of the vertex at the head that is new goes behind the others. -/
theorem Flooding.push (h : Flooding adj start old queue head) (hhead : head < queue.length) (hadj : adj queue[head] x)
    (hold : x ∉ old) (hnew : x ∉ queue) : Flooding adj start old (queue ++ [x]) head := by
  refine ⟨?_, ?_, ?_, List.mem_append_left _ h.first, ?_, ?_⟩
  · rw [List.nodup_append]
    refine ⟨h.nodup, List.nodup_singleton x, ?_⟩
    rintro a ha b hb rfl
    rw [List.mem_singleton.mp hb] at ha
    exact hnew ha
  · intro y hy
    rcases List.mem_append.mp hy with hy | hy
    · exact h.fresh y hy
    · rwa [List.mem_singleton.mp hy]
  · intro y hy
    rcases List.mem_append.mp hy with hy | hy
    · exact h.reached y hy
    · rw [List.mem_singleton.mp hy]
      exact (h.reached _ (List.getElem_mem hhead)).tail hadj
  · rw [List.length_append]
    exact Nat.le_add_right_of_le h.head_le
  · intro y hy z hz
    rw [List.take_append_of_le_length h.head_le] at hy
    rcases h.done y hy z hz with hz | hz
    · exact Or.inl hz
    · exact Or.inr (List.mem_append_left _ hz)

/-- The vertex at the head is done with. -/
theorem Flooding.next (h : Flooding adj start old queue head) (hhead : head < queue.length)
    (hall : ∀ y, adj queue[head] y → y ∈ old ∨ y ∈ queue) : Flooding adj start old queue (head + 1) := by
  refine ⟨h.nodup, h.fresh, h.reached, h.first, hhead, ?_⟩
  intro y hy
  rw [List.take_succ_eq_append_getElem hhead, List.mem_append] at hy
  rcases hy with hy | hy
  · exact h.done y hy
  · rw [List.mem_singleton.mp hy]
    exact hall

/-- The queue is the part of the graph with `start` in it. -/
theorem Flooding.all (h : Flooding adj start old queue queue.length) (hsymm : ∀ x y, adj x y → adj y x)
    (hclosed : ∀ x ∈ old, ∀ y, adj x y → y ∈ old) : ∀ x, x ∈ queue ↔ Connected adj start x := by
  intro x
  constructor
  · exact h.reached x
  · intro hx
    induction hx with
    | refl => exact h.first
    | tail _ hstep ih =>
      rcases h.done _ (by rw [List.take_length]; exact ih) _ hstep with hold | hin
      · exact absurd (hclosed _ hold _ (hsymm _ _ hstep)) (h.fresh _ ih)
      · exact hin

theorem Flooding.length_le {all : List α} (h : Flooding adj start old queue head) (hsub : ∀ x ∈ queue, x ∈ all) :
    queue.length ≤ all.length := (h.nodup.subperm hsub).length_le

theorem connected_symm (hsymm : ∀ x y, adj x y → adj y x) (h : Connected adj p x) : Connected adj x p := by
  induction h with
  | refl => exact .refl
  | tail _ hstep ih => exact .head (hsymm _ _ hstep) ih

theorem Scanned.begin : Scanned adj [] ∅ := by
  refine ⟨fun x => ⟨fun hx => absurd hx (Set.notMem_empty x), ?_⟩, List.Pairwise.nil⟩
  rintro ⟨p, hp, -⟩
  cases hp

theorem Scanned.closed (h : Scanned adj starts old) : ∀ x ∈ old, ∀ y, adj x y → y ∈ old := by
  intro x hx y hstep
  obtain ⟨p, hp, hconnected⟩ := (h.covers x).mp hx
  exact (h.covers y).mpr ⟨p, hp, hconnected.tail hstep⟩

/-- A vertex not seen yet is in a part of its own. -/
theorem Scanned.add {old' : Set α} (h : Scanned adj starts old) (hp : p ∉ old)
    (hold' : ∀ x, x ∈ old' ↔ x ∈ old ∨ Connected adj p x) : Scanned adj (starts ++ [p]) old' := by
  constructor
  · intro x
    rw [hold', h.covers]
    constructor
    · rintro (⟨q, hq, hconnected⟩ | hconnected)
      · exact ⟨q, List.mem_append_left _ hq, hconnected⟩
      · exact ⟨p, List.mem_append_right _ (List.mem_singleton_self p), hconnected⟩
    · rintro ⟨q, hq, hconnected⟩
      rcases List.mem_append.mp hq with hq | hq
      · exact Or.inl ⟨q, hq, hconnected⟩
      · rw [List.mem_singleton.mp hq] at hconnected
        exact Or.inr hconnected
  · rw [List.pairwise_append]
    refine ⟨h.apart, List.pairwise_singleton _ p, ?_⟩
    intro q hq r hr hconnected
    rw [List.mem_singleton.mp hr] at hconnected
    exact hp ((h.covers p).mpr ⟨q, hq, hconnected⟩)

end Flood

end Be300.Lib
