/-
  Be300.Lib.Queue — what goes through a queue.

  A history of arrivals, departures and drops takes a queue from one list to another
  (`Flow`): what arrives goes behind what is there, what leaves is the oldest, and a drop
  empties the queue. Whatever the history, what has left it are arrivals in their order
  (`Flow.leavings_sublist`).
-/

import Mathlib.Data.List.Basic
import Mathlib.Tactic.Common

namespace Be300.Lib

inductive Traffic (α : Type) where
  | arrived (l : List α)
  | left (a : α)
  | dropped

inductive Flow {α : Type} : List α → List (Traffic α) → List α → Prop where
  | nil {q} : Flow q [] q
  | arrived {q l h r} (flow : Flow (q ++ l) h r) : Flow q (.arrived l :: h) r
  | left {a q h r} (flow : Flow q h r) : Flow (a :: q) (.left a :: h) r
  | dropped {q h r} (flow : Flow [] h r) : Flow q (.dropped :: h) r

namespace Traffic

variable {α : Type}

def arrivals (h : List (Traffic α)) : List α := h.flatMap fun
  | .arrived l => l
  | _ => []

def leavings (h : List (Traffic α)) : List α := h.filterMap fun
  | .left a => some a
  | _ => none

end Traffic

variable {α : Type} {q r s : List α} {h h' : List (Traffic α)}

theorem Flow.append (flow : Flow q h r) (flow' : Flow r h' s) : Flow q (h ++ h') s := by
  induction flow with
  | nil => exact flow'
  | arrived _ ih => exact .arrived (ih flow')
  | left _ ih => exact .left (ih flow')
  | dropped _ ih => exact .dropped (ih flow')

theorem Flow.leavings_sublist (flow : Flow q h r) : (Traffic.leavings h ++ r).Sublist (q ++ Traffic.arrivals h) := by
  induction flow with
  | nil => simp [Traffic.leavings, Traffic.arrivals]
  | @arrived q l h r _ ih => simpa [Traffic.leavings, Traffic.arrivals] using ih
  | @left a q h r _ ih => simpa [Traffic.leavings, Traffic.arrivals] using ih
  | @dropped q h r _ ih =>
    have hsub : (Traffic.leavings h ++ r).Sublist (Traffic.arrivals h) := ih
    exact hsub.trans (List.sublist_append_right q _)

end Be300.Lib
