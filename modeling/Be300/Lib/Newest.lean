/-
  Be300.Lib.Newest — a queue that keeps the newest `n` of what is put into it.

  A put that would leave more than `n` loses the oldest. `Fate` tells how an element left the
  queue: what has been put is, in its order, what has left, whichever way, and what is still
  there (`run_departed`), and what was taken is what the takes gave (`run_taken`).
-/

import Mathlib.Data.List.Basic
import Mathlib.Tactic.Common

namespace Be300.Lib.Newest

variable {α : Type} {n : Nat}

inductive Op (α : Type) where
  | put (l : List α)
  | take (k : Nat)

inductive Fate where
  | taken
  | lost
  deriving DecidableEq

/-- The newest `n`, and those before them. -/
def keep (n : Nat) (q : List α) : List α := q.drop (q.length - n)

def lose (n : Nat) (q : List α) : List α := q.take (q.length - n)

theorem lose_keep (q : List α) : lose n q ++ keep n q = q := List.take_append_drop _ q

theorem keep_of_le {q : List α} (h : q.length ≤ n) : keep n q = q := by
  unfold keep
  rw [Nat.sub_eq_zero_of_le h, List.drop_zero]

/-- Of a put that is too long by itself, its newest. -/
theorem keep_append_long {q l : List α} (h : n ≤ l.length) : keep n (q ++ l) = l.drop (l.length - n) := by
  unfold keep
  rw [List.length_append, List.drop_append, List.drop_eq_nil_of_le (by omega), List.nil_append]
  congr 1
  omega

theorem keep_append_short {q l : List α} (h : l.length ≤ n) : keep n (q ++ l) = q.drop (q.length + l.length - n) ++ l := by
  unfold keep
  rw [List.length_append, List.drop_append, show q.length + l.length - n - q.length = 0 by omega, List.drop_zero]

/-! ## Runs -/

structure State (α : Type) where
  queue : List α
  departed : List (Fate × α)

def State.empty : State α := ⟨[], []⟩

/-- One operation: what a take gives, and the state after it. -/
def step (n : Nat) (s : State α) : Op α → List α × State α
  | .put l => ([], ⟨keep n (s.queue ++ l), s.departed ++ (lose n (s.queue ++ l)).map (Fate.lost, ·)⟩)
  | .take k => (s.queue.take k, ⟨s.queue.drop k, s.departed ++ (s.queue.take k).map (Fate.taken, ·)⟩)

def run (n : Nat) (s : State α) : List (Op α) → List (List α) × State α
  | [] => ([], s)
  | op :: ops => ((step n s op).1 :: (run n (step n s op).2 ops).1, (run n (step n s op).2 ops).2)

def arrivals (ops : List (Op α)) : List α := ops.flatMap fun
  | .put l => l
  | .take _ => []

def taken (departed : List (Fate × α)) : List α := departed.filterMap fun d => if d.1 = .taken then some d.2 else none

theorem step_departed (s : State α) (op : Op α) :
    (step n s op).2.departed.map Prod.snd ++ (step n s op).2.queue = s.departed.map Prod.snd ++ s.queue ++ arrivals [op] := by
  rcases op with l | k
  · simp [step, arrivals, Function.comp_def, lose_keep]
  · simp [step, arrivals, Function.comp_def, List.take_append_drop]

@[simp] theorem taken_append (d e : List (Fate × α)) : taken (d ++ e) = taken d ++ taken e := List.filterMap_append

@[simp] theorem taken_lost (l : List α) : taken (l.map (Fate.lost, ·)) = [] := by
  simp [taken, List.filterMap_map]

@[simp] theorem taken_taken (l : List α) : taken (l.map (Fate.taken, ·)) = l := by
  simp [taken, List.filterMap_map]

theorem step_taken (s : State α) (op : Op α) : taken (step n s op).2.departed = taken s.departed ++ (step n s op).1 := by
  rcases op with l | k
  · rw [step, taken_append, taken_lost]
  · rw [step, taken_append, taken_taken]

theorem run_departed (s : State α) (ops : List (Op α)) :
    (run n s ops).2.departed.map Prod.snd ++ (run n s ops).2.queue = s.departed.map Prod.snd ++ s.queue ++ arrivals ops := by
  induction ops generalizing s with
  | nil => simp [run, arrivals]
  | cons op ops ih =>
    rw [run, ih, step_departed, List.append_assoc]
    simp [arrivals]

theorem run_taken (s : State α) (ops : List (Op α)) :
    taken (run n s ops).2.departed = taken s.departed ++ (run n s ops).1.flatten := by
  induction ops generalizing s with
  | nil => simp [run]
  | cons op ops ih =>
    rw [run, ih, step_taken, List.append_assoc]
    rfl

end Be300.Lib.Newest
