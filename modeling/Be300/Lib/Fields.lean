/-
  Be300.Lib.Fields — a record written as a list of keyed fields, some of them left out.

  `written` drops the fields without a value. Where no key stands twice, a lookup in what is
  left gives each field's value (`lookup_written`).
-/

import Mathlib.Data.List.Basic
import Mathlib.Data.List.Nodup
import Mathlib.Tactic.Common

namespace Be300.Lib

variable {κ ν : Type}

/-- The fields that have a value, in order. -/
def written (fields : List (κ × Option ν)) : List (κ × ν) :=
  fields.filterMap fun f => f.2.map fun v => (f.1, v)

variable {fields : List (κ × Option ν)} {k : κ} {v : Option ν}

theorem written_cons (f : κ × Option ν) :
    written (f :: fields) = (f.2.map fun v => (f.1, v)).toList ++ written fields := by
  rcases f with ⟨k, _ | v⟩ <;> simp [written]

variable [DecidableEq κ]

theorem lookup_written_none (h : k ∉ fields.map Prod.fst) : (written fields).lookup k = none := by
  induction fields with
  | nil => rfl
  | cons f rest ih =>
    rcases f with ⟨k', v'⟩
    simp only [List.map_cons, List.mem_cons, not_or] at h
    have hrest := ih h.2
    rw [written_cons]
    cases v' with
    | none => simpa using hrest
    | some x => simpa [List.lookup_cons, beq_false_of_ne h.1] using hrest

theorem lookup_written (hkeys : (fields.map Prod.fst).Nodup) (h : (k, v) ∈ fields) :
    (written fields).lookup k = v := by
  induction fields with
  | nil => cases h
  | cons f rest ih =>
    rw [List.map_cons, List.nodup_cons] at hkeys
    rw [written_cons]
    rcases List.mem_cons.mp h with rfl | hrest
    · cases v with
      | none => simpa using lookup_written_none hkeys.1
      | some x => simp
    · have hne : k ≠ f.1 := by
        rintro rfl
        exact hkeys.1 (List.mem_map.mpr ⟨(f.1, v), hrest, rfl⟩)
      have hlookup := ih hkeys.2 hrest
      rcases f with ⟨k', _ | x⟩
      · simpa using hlookup
      · simpa [List.lookup_cons, beq_false_of_ne hne] using hlookup

end Be300.Lib
