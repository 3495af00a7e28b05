/-
  Be300.Lib.Chain — linked lists in a table of successors.

  `Chain next valid stop c l`: from `c` on the table `next` runs through the nodes `l`, all
  `valid`, and then to a `stop` value. Where no stop value is valid the list is determined
  by its start (`Chain.unique`) and repeats nothing (`Chain.nodup`); it survives every
  change of the table at other nodes (`Chain.congr`), and a new node linked behind its last
  one makes it longer by that node (`Chain.extend`).
-/

import Mathlib.Data.List.Nodup
import Mathlib.Tactic.Common

namespace Be300.Lib

variable {α : Type}

def Chain (next : α → α) (valid stop : α → Prop) : α → List α → Prop
  | c, [] => stop c
  | c, x :: l => x = c ∧ valid c ∧ Chain next valid stop (next c) l

/-- The table after one entry changes. -/
def redirect [DecidableEq α] (next : α → α) (c n : α) (k : α) : α := if k = c then n else next k

namespace Chain

variable {next next' : α → α} {valid stop : α → Prop} {c : α} {l : List α}

theorem head (h : Chain next valid stop c l) (hne : l ≠ []) : ∃ m, l = c :: m := by
  cases l with
  | nil => exact absurd rfl hne
  | cons x m => exact ⟨m, by rw [h.1]⟩

theorem valid_of_mem (h : Chain next valid stop c l) : ∀ x ∈ l, valid x := by
  induction l generalizing c with
  | nil => simp
  | cons y l ih =>
    obtain ⟨rfl, hv, hrest⟩ := h
    intro x hx
    rcases List.mem_cons.mp hx with rfl | hx
    · exact hv
    · exact ih hrest x hx

/-- A chain reads the table at its own nodes only. -/
theorem congr (h : Chain next valid stop c l) (hsame : ∀ x ∈ l, next' x = next x) : Chain next' valid stop c l := by
  induction l generalizing c with
  | nil => exact h
  | cons y l ih =>
    obtain ⟨rfl, hv, hrest⟩ := h
    refine ⟨rfl, hv, ?_⟩
    rw [hsame y (List.mem_cons_self ..)]
    exact ih hrest fun x hx => hsame x (List.mem_cons_of_mem _ hx)

theorem suffix {p q : List α} {x : α} (h : Chain next valid stop c (p ++ x :: q)) : Chain next valid stop x (x :: q) := by
  induction p generalizing c with
  | nil =>
    obtain ⟨rfl, hv, hrest⟩ := h
    exact ⟨rfl, hv, hrest⟩
  | cons y p ih => exact ih h.2.2

theorem unique (hdis : ∀ x, valid x → ¬ stop x) {m : List α} (h : Chain next valid stop c l) (h' : Chain next valid stop c m) :
    l = m := by
  induction l generalizing c m with
  | nil =>
    cases m with
    | nil => rfl
    | cons y m => exact absurd h (hdis c h'.2.1)
  | cons x l ih =>
    cases m with
    | nil => exact absurd h' (hdis c h.2.1)
    | cons y m => rw [h.1, h'.1, ih h.2.2 h'.2.2]

theorem nodup (hdis : ∀ x, valid x → ¬ stop x) (h : Chain next valid stop c l) : l.Nodup := by
  induction l generalizing c with
  | nil => exact List.nodup_nil
  | cons x l ih =>
    refine List.nodup_cons.mpr ⟨fun hx => ?_, ih h.2.2⟩
    -- a second occurrence would start a shorter chain from the same node
    obtain ⟨p, q, hpq⟩ := List.append_of_mem hx
    have hlong : Chain next valid stop x (x :: l) := by
      rw [h.1]
      exact ⟨rfl, h.2⟩
    have hshort : Chain next valid stop x (x :: q) := suffix (p := x :: p) (hpq ▸ hlong)
    have hlen := congrArg List.length (unique hdis hlong hshort)
    rw [hpq] at hlen
    simp only [List.length_cons, List.length_append] at hlen
    omega

section Update

variable [DecidableEq α]

/-- One more node behind the last one. -/
theorem extend {p : List α} {x n e : α} (h : Chain next valid stop c (p ++ [x])) (hnd : (p ++ [x]).Nodup)
    (hn : n ∉ p ++ [x]) (hvalid : valid n) (hstop : stop e) :
    Chain (redirect (redirect next n e) x n) valid stop c (p ++ [x, n]) := by
  have hxn : n ≠ x := fun h => hn (by simp [h])
  induction p generalizing c with
  | nil =>
    obtain ⟨rfl, hv, -⟩ := h
    refine ⟨rfl, hv, ?_⟩
    simp only [redirect, if_true]
    refine ⟨rfl, hvalid, ?_⟩
    simpa [Chain, redirect, hxn] using hstop
  | cons y p ih =>
    obtain ⟨rfl, hv, hrest⟩ := h
    have hyx : y ≠ x := fun heq => by simp [heq] at hnd
    have hyn : y ≠ n := fun heq => hn (by simp [heq])
    refine ⟨rfl, hv, ?_⟩
    have hstep : redirect (redirect next n e) x n y = next y := by simp [redirect, hyx, hyn]
    rw [hstep]
    exact ih hrest (List.nodup_cons.mp hnd).2 fun hmem => hn (List.mem_cons_of_mem _ hmem)

end Update

end Chain

end Be300.Lib
