/-
  Be300.Lib.Calendar — the proleptic Gregorian calendar.

  `dayNumber` counts the days from 1 March of the year 0 in closed form. A month and a year
  are as long as the step it takes (`dayNumber_next_month`, `dayNumber_next_year`), and of two
  valid dates the earlier has the smaller number (`dayNumber_lt`).
-/

import Mathlib.Tactic.Common
import Mathlib.Tactic.IntervalCases

namespace Be300.Lib.Calendar

def Leap (y : Int) : Prop := (4 ∣ y ∧ ¬ 100 ∣ y) ∨ 400 ∣ y

instance (y : Int) : Decidable (Leap y) := inferInstanceAs (Decidable ((4 ∣ y ∧ ¬ 100 ∣ y) ∨ 400 ∣ y))

def yearLength (y : Int) : Int := if Leap y then 366 else 365

def monthLength (y m : Int) : Int :=
  if m = 2 then if Leap y then 29 else 28 else if m = 4 ∨ m = 6 ∨ m = 9 ∨ m = 11 then 30 else 31

structure Date where
  year : Int
  month : Int
  day : Int
  deriving DecidableEq

structure Date.Valid (d : Date) : Prop where
  month : 1 ≤ d.month ∧ d.month ≤ 12
  day : 1 ≤ d.day ∧ d.day ≤ monthLength d.year d.month

instance (d : Date) : Decidable d.Valid :=
  decidable_of_iff ((1 ≤ d.month ∧ d.month ≤ 12) ∧ 1 ≤ d.day ∧ d.day ≤ monthLength d.year d.month)
    ⟨fun h => ⟨h.1, h.2⟩, fun h => ⟨h.1, h.2⟩⟩

def Date.Before (a b : Date) : Prop :=
  a.year < b.year ∨ a.year = b.year ∧ (a.month < b.month ∨ a.month = b.month ∧ a.day < b.day)

instance (a b : Date) : Decidable (a.Before b) :=
  inferInstanceAs (Decidable (a.year < b.year ∨ a.year = b.year ∧ (a.month < b.month ∨ a.month = b.month ∧ a.day < b.day)))

/-- Days up to 1 March of a year, and from there to the first of a month: the months have 31
    and 30 days by turns, but for one pair in five. -/
def marchDays (y : Int) : Int := 365 * y + y / 4 - y / 100 + y / 400

def monthDays (m : Int) : Int := (153 * m + 2) / 5

def dayNumber (d : Date) : Int :=
  if d.month ≤ 2 then marchDays (d.year - 1) + monthDays (d.month + 9) + (d.day - 1)
  else marchDays d.year + monthDays (d.month - 3) + (d.day - 1)

/-- A year before March has the leap day of its own February. -/
theorem marchDays_step (y : Int) : marchDays y = marchDays (y - 1) + yearLength y := by
  unfold marchDays yearLength
  by_cases h : Leap y
  · rw [if_pos h]
    unfold Leap at h
    omega
  · rw [if_neg h]
    unfold Leap at h
    omega

theorem dayNumber_next_year (y : Int) : dayNumber ⟨y + 1, 1, 1⟩ = dayNumber ⟨y, 1, 1⟩ + yearLength y := by
  unfold dayNumber
  simp only
  rw [if_pos (show (1 : Int) ≤ 2 by decide), if_pos (show (1 : Int) ≤ 2 by decide), Int.add_sub_cancel, marchDays_step]
  omega

theorem dayNumber_next_month (y : Int) {m : Int} (h : 1 ≤ m ∧ m < 12) :
    dayNumber ⟨y, m + 1, 1⟩ = dayNumber ⟨y, m, 1⟩ + monthLength y m := by
  have hstep := marchDays_step y
  unfold yearLength at hstep
  unfold dayNumber monthLength monthDays
  simp only
  generalize marchDays y = here at hstep ⊢
  generalize marchDays (y - 1) = before at hstep ⊢
  obtain ⟨h1, h12⟩ := h
  by_cases hleap : Leap y
  · simp only [if_pos hleap] at hstep ⊢
    interval_cases m <;> simp <;> omega
  · simp only [if_neg hleap] at hstep ⊢
    interval_cases m <;> simp <;> omega

theorem dayNumber_day (y m d : Int) : dayNumber ⟨y, m, d⟩ = dayNumber ⟨y, m, 1⟩ + (d - 1) := by
  unfold dayNumber
  simp only
  split <;> omega

/-! ## The order of dates -/

theorem monthLength_pos (y m : Int) : 0 < monthLength y m := by
  unfold monthLength
  split
  · split <;> decide
  · split <;> decide

theorem month_starts (y : Int) {m : Int} (hm : 1 ≤ m) (k : Nat) (hk : m + k ≤ 12) :
    dayNumber ⟨y, m, 1⟩ ≤ dayNumber ⟨y, m + k, 1⟩ := by
  induction k with
  | zero => simp
  | succ k ih =>
    have hprev := ih (by omega)
    have hnext := dayNumber_next_month y (m := m + k) (by omega)
    have hpos := monthLength_pos y (m + k)
    rw [Nat.cast_succ, ← Int.add_assoc]
    omega

theorem year_starts (y : Int) (k : Nat) : dayNumber ⟨y, 1, 1⟩ ≤ dayNumber ⟨y + k, 1, 1⟩ := by
  induction k with
  | zero => simp
  | succ k ih =>
    have hnext := dayNumber_next_year (y + k)
    have hpos : 0 < yearLength (y + k) := by
      unfold yearLength
      split <;> decide
    rw [Nat.cast_succ, ← Int.add_assoc]
    omega

theorem december_ends (y : Int) : dayNumber ⟨y + 1, 1, 1⟩ = dayNumber ⟨y, 12, 1⟩ + 31 := by
  unfold dayNumber monthDays
  simp
  omega

/-- A valid date lies before the first of the next month. -/
theorem dayNumber_month {d : Date} (h : d.Valid) : dayNumber ⟨d.year, d.month, 1⟩ ≤ dayNumber d ∧
    dayNumber d < dayNumber ⟨d.year, d.month, 1⟩ + monthLength d.year d.month := by
  have hday := dayNumber_day d.year d.month d.day
  have h1 := h.day.1
  have h2 := h.day.2
  constructor
  · show _ ≤ dayNumber ⟨d.year, d.month, d.day⟩
    omega
  · show dayNumber ⟨d.year, d.month, d.day⟩ < _
    omega

theorem dayNumber_lt {a b : Date} (ha : a.Valid) (hb : b.Valid) (h : a.Before b) : dayNumber a < dayNumber b := by
  obtain ⟨-, haend⟩ := dayNumber_month ha
  obtain ⟨hbstart, -⟩ := dayNumber_month hb
  rcases h with hyear | ⟨hyear, hmonth | ⟨hmonth, hday⟩⟩
  · have hdecember : dayNumber ⟨a.year, a.month, 1⟩ + monthLength a.year a.month ≤ dayNumber ⟨a.year + 1, 1, 1⟩ := by
      rw [december_ends]
      rcases Int.lt_or_eq_of_le ha.month.2 with hlt | heq
      · have hnext := dayNumber_next_month a.year ⟨ha.month.1, hlt⟩
        have hmono := month_starts a.year (m := a.month + 1) (by have := ha.month.1; omega) (11 - a.month).toNat (by omega)
        rw [show a.month + 1 + ((11 - a.month).toNat : Int) = 12 by omega] at hmono
        omega
      · rw [heq, show monthLength a.year 12 = 31 from rfl]
    have hyears := year_starts (a.year + 1) (b.year - (a.year + 1)).toNat
    rw [show a.year + 1 + ((b.year - (a.year + 1)).toNat : Int) = b.year by omega] at hyears
    have hjanuary := month_starts b.year (m := 1) (by decide) (b.month - 1).toNat (by have := hb.month; omega)
    rw [show (1 : Int) + ((b.month - 1).toNat : Int) = b.month by have := hb.month; omega] at hjanuary
    omega
  · have hnext := dayNumber_next_month a.year ⟨ha.month.1, Int.lt_of_lt_of_le hmonth hb.month.2⟩
    have hmono := month_starts a.year (m := a.month + 1) (by have := ha.month.1; omega) (b.month - (a.month + 1)).toNat
      (by have := hb.month; omega)
    rw [show a.month + 1 + ((b.month - (a.month + 1)).toNat : Int) = b.month by omega] at hmono
    rw [← hyear] at hbstart
    omega
  · have hda := dayNumber_day a.year a.month a.day
    have hdb := dayNumber_day b.year b.month b.day
    rw [← hyear, ← hmonth] at hdb
    show dayNumber ⟨a.year, a.month, a.day⟩ < dayNumber ⟨b.year, b.month, b.day⟩
    rw [← hyear, ← hmonth]
    omega

end Be300.Lib.Calendar
