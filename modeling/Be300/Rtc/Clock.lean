/-
  Be300.Rtc.Clock — the start of the elapsed-time counter (`rtc_init_from_ymdhms` of
  `src/hw/rtc.c`).

  The numbers passed are any integers, the counter and the sums 64-bit words. A null state
  is left out.

  Proved (`rtc_seeded`): the counter starts exactly for the dates from 1850 on and the times
  of day, at the ticks since 1 January 1850 by the closed form of the day number, mod 2^48;
  anything else leaves the state as it is.
-/

import Be300.Lib.Calendar
import Mathlib.Algebra.Ring.Int.Defs
import Mathlib.Algebra.Ring.Nat
import Mathlib.Data.Nat.Bitwise

namespace Be300.Rtc

open Lib.Calendar

structure RtcState where
  etime : UInt64
  ecmp : UInt64
  rtcl1 : UInt32
  rtcl2 : UInt32
  tclock : UInt32
  rtcint : UInt16
  elapsedCompareArmed : Bool
  elapsedCompareFired : Bool
  etimeLatched : UInt64
  deriving DecidableEq

def rtcTicksPerSecond : UInt64 := 32768
def rtcWinceEpochYear : Int := 1850

def rtc48bitMask : UInt64 := 0x0000FFFFFFFFFFFF

def rtcIsLeapYear (year : Int) : Bool := (year.tmod 4 == 0 && year.tmod 100 != 0) || year.tmod 400 == 0

def daysOfMonths : List Int := [31, 28, 31, 30, 31, 30, 31, 31, 30, 31, 30, 31]

def rtcDaysInMonth (year month : Int) : Int :=
  if month < 1 ∨ 12 < month then 0
  else if month = 2 ∧ rtcIsLeapYear year then 29
  else daysOfMonths.getD (month - 1).toNat 0

/-- The loop over the years before. -/
def addYears (y year : Int) (days : UInt64) : UInt64 :=
  if y < year then addYears (y + 1) year (days + if rtcIsLeapYear y then 366 else 365) else days
termination_by (year - y).toNat
decreasing_by omega

/-- The loop over the months before. -/
def addMonths (year m month : Int) (days : UInt64) : UInt64 :=
  if m < month then addMonths year (m + 1) month (days + UInt64.ofInt (rtcDaysInMonth year m)) else days
termination_by (month - m).toNat
decreasing_by omega

def rtcDaysSinceWinceEpoch (year month day : Int) : Option UInt64 :=
  if year < rtcWinceEpochYear ∨ month < 1 ∨ 12 < month then none
  else if day < 1 ∨ rtcDaysInMonth year month < day then none
  else some (addMonths year 1 month (addYears rtcWinceEpochYear year 0) + UInt64.ofInt (day - 1))

def rtcInit : RtcState :=
  { etime := 0, etimeLatched := 0, ecmp := 0, rtcl1 := 0, rtcl2 := 0, tclock := 0, rtcint := 0
    elapsedCompareArmed := false, elapsedCompareFired := false }

/-- What is returned, and the state. -/
def rtcInitFromYmdhms (s : RtcState) (year month day hour minute second : Int) : Int × RtcState :=
  if hour < 0 ∨ 23 < hour ∨ minute < 0 ∨ 59 < minute ∨ second < 0 ∨ 60 < second then (-1, s)
  else
    match rtcDaysSinceWinceEpoch year month day with
    | none => (-1, s)
    | some days =>
      let seconds := days * 86400 + UInt64.ofInt hour * 3600 + UInt64.ofInt minute * 60 + UInt64.ofInt second
      let ticks := (seconds * rtcTicksPerSecond) &&& rtc48bitMask
      (0, { rtcInit with etime := ticks, etimeLatched := ticks })

/-! ## The loops -/

theorem rtcIsLeapYear_iff (year : Int) : rtcIsLeapYear year = true ↔ Leap year := by
  simp only [rtcIsLeapYear, Leap, Bool.or_eq_true, Bool.and_eq_true, beq_iff_eq, bne_iff_ne, ne_eq, Int.dvd_iff_tmod_eq_zero]

theorem rtcDaysInMonth_eq (year : Int) {month : Int} (h : 1 ≤ month ∧ month ≤ 12) :
    rtcDaysInMonth year month = monthLength year month := by
  obtain ⟨h1, h2⟩ := h
  unfold rtcDaysInMonth monthLength
  rw [if_neg (by omega)]
  simp only [rtcIsLeapYear_iff]
  interval_cases month <;> simp [daysOfMonths]

/-- A word that is so much, mod 2^64. -/
def Holds (x : UInt64) (n : Int) : Prop := (x.toNat : Int) = n % 2 ^ 64

theorem Holds.ofInt (n : Int) : Holds (UInt64.ofInt n) n := by
  unfold Holds
  rw [UInt64.ofInt, UInt64.toNat_ofNat']
  have := Int.emod_nonneg n (show (2 ^ 64 : Int) ≠ 0 by decide)
  omega

theorem Holds.add {x y : UInt64} {m n : Int} (hx : Holds x m) (hy : Holds y n) : Holds (x + y) (m + n) := by
  unfold Holds at *
  rw [UInt64.toNat_add, Int.natCast_emod, Int.natCast_add, hx, hy]
  exact (Int.add_emod m n _).symm

theorem Holds.mul {x y : UInt64} {m n : Int} (hx : Holds x m) (hy : Holds y n) : Holds (x * y) (m * n) := by
  unfold Holds at *
  rw [UInt64.toNat_mul, Int.natCast_emod, Int.natCast_mul, hx, hy]
  exact (Int.mul_emod m n _).symm

theorem Holds.masked {x : UInt64} {n : Int} (hx : Holds x n) : ((x &&& rtc48bitMask).toNat : Int) = n % 2 ^ 48 := by
  unfold Holds at hx
  have hmask : (x &&& rtc48bitMask).toNat = x.toNat % 2 ^ 48 := by
    rw [UInt64.toNat_and, show rtc48bitMask.toNat = 2 ^ 48 - 1 from rfl, Nat.and_two_pow_sub_one_eq_mod]
  rw [hmask]
  push_cast
  rw [hx]
  omega

theorem addYears_holds (year : Int) {y : Int} {days : UInt64} {n : Int} (hy : y ≤ year) (h : Holds days n) :
    Holds (addYears y year days) (n + (dayNumber ⟨year, 1, 1⟩ - dayNumber ⟨y, 1, 1⟩)) := by
  induction y, days using addYears.induct year generalizing n with
  | case1 y days hlt ih =>
    rw [addYears, if_pos hlt]
    have hlength : Holds (if rtcIsLeapYear y then 366 else 365) (yearLength y) := by
      unfold yearLength
      by_cases hleap : Leap y
      · rw [if_pos hleap, if_pos ((rtcIsLeapYear_iff y).mpr hleap)]
        rfl
      · rw [if_neg hleap, if_neg (fun hl => hleap ((rtcIsLeapYear_iff y).mp hl))]
        rfl
    have hrest := ih (by omega) (h.add hlength)
    rw [dayNumber_next_year] at hrest
    rw [show n + (dayNumber ⟨year, 1, 1⟩ - dayNumber ⟨y, 1, 1⟩) =
      n + yearLength y + (dayNumber ⟨year, 1, 1⟩ - (dayNumber ⟨y, 1, 1⟩ + yearLength y)) by omega]
    exact hrest
  | case2 y days hge =>
    rw [addYears, if_neg hge, show y = year by omega, Int.sub_self, Int.add_zero]
    exact h

theorem addMonths_holds (year month : Int) {m : Int} {days : UInt64} {n : Int} (hm : 1 ≤ m) (hle : m ≤ month) (h12 : month ≤ 12)
    (h : Holds days n) : Holds (addMonths year m month days) (n + (dayNumber ⟨year, month, 1⟩ - dayNumber ⟨year, m, 1⟩)) := by
  induction m, days using addMonths.induct year month generalizing n with
  | case1 m days hlt ih =>
    rw [addMonths, if_pos hlt]
    have hlength : Holds (UInt64.ofInt (rtcDaysInMonth year m)) (monthLength year m) := by
      rw [rtcDaysInMonth_eq year ⟨hm, by omega⟩]
      exact Holds.ofInt _
    have hrest := ih (by omega) (by omega) (h.add hlength)
    rw [dayNumber_next_month year ⟨hm, by omega⟩] at hrest
    rw [show n + (dayNumber ⟨year, month, 1⟩ - dayNumber ⟨year, m, 1⟩) =
      n + monthLength year m + (dayNumber ⟨year, month, 1⟩ - (dayNumber ⟨year, m, 1⟩ + monthLength year m)) by omega]
    exact hrest
  | case2 m days hge =>
    rw [addMonths, if_neg hge, show m = month by omega, Int.sub_self, Int.add_zero]
    exact h

/-! ## The start -/

structure Moment where
  date : Date
  hour : Int
  minute : Int
  second : Int

/-- A date from 1850 on and a time of day, up to a leap second. -/
structure Moment.Accepted (t : Moment) : Prop where
  date : t.date.Valid
  year : 1850 ≤ t.date.year
  hour : 0 ≤ t.hour ∧ t.hour ≤ 23
  minute : 0 ≤ t.minute ∧ t.minute ≤ 59
  second : 0 ≤ t.second ∧ t.second ≤ 60

def Moment.secondOfDay (t : Moment) : Int := 3600 * t.hour + 60 * t.minute + t.second

def epoch : Date := ⟨1850, 1, 1⟩

/-- The ticks since the start of 1850. -/
def Moment.ticks (t : Moment) : Int := 32768 * (86400 * (dayNumber t.date - dayNumber epoch) + t.secondOfDay)

def seed (s : RtcState) (t : Moment) : Int × RtcState :=
  rtcInitFromYmdhms s t.date.year t.date.month t.date.day t.hour t.minute t.second

/-- Earlier by the calendar and the clock. -/
def Moment.Before (t u : Moment) : Prop :=
  t.date.Before u.date ∨ t.date = u.date ∧ (t.hour < u.hour ∨ t.hour = u.hour ∧ (t.minute < u.minute ∨
    t.minute = u.minute ∧ t.second < u.second))

theorem rtcDaysSinceWinceEpoch_eq (d : Date) : (d.Valid ∧ 1850 ≤ d.year → ∃ days,
      rtcDaysSinceWinceEpoch d.year d.month d.day = some days ∧ Holds days (dayNumber d - dayNumber epoch)) ∧
    (¬ (d.Valid ∧ 1850 ≤ d.year) → rtcDaysSinceWinceEpoch d.year d.month d.day = none) := by
  unfold rtcDaysSinceWinceEpoch
  constructor
  · rintro ⟨hvalid, hyear⟩
    have hmonth := hvalid.month
    have hday := hvalid.day
    rw [if_neg (by unfold rtcWinceEpochYear; omega), rtcDaysInMonth_eq d.year hmonth, if_neg (by omega)]
    refine ⟨_, rfl, ?_⟩
    have hyears := addYears_holds d.year (show rtcWinceEpochYear ≤ d.year from hyear) (show Holds 0 0 from rfl)
    have hmonths := addMonths_holds d.year d.month (m := 1) (by decide) hmonth.1 hmonth.2 hyears
    have hall := hmonths.add (Holds.ofInt (d.day - 1))
    have hnumber := dayNumber_day d.year d.month d.day
    rw [show dayNumber d - dayNumber epoch = 0 + (dayNumber ⟨d.year, 1, 1⟩ - dayNumber ⟨rtcWinceEpochYear, 1, 1⟩) +
      (dayNumber ⟨d.year, d.month, 1⟩ - dayNumber ⟨d.year, 1, 1⟩) + (d.day - 1) by
        show dayNumber ⟨d.year, d.month, d.day⟩ - dayNumber ⟨rtcWinceEpochYear, 1, 1⟩ = _
        omega]
    exact hall
  · intro hnot
    by_cases hrange : d.year < rtcWinceEpochYear ∨ d.month < 1 ∨ 12 < d.month
    · rw [if_pos hrange]
    · unfold rtcWinceEpochYear at hrange
      rw [if_neg (by unfold rtcWinceEpochYear; exact hrange), rtcDaysInMonth_eq d.year (by omega), if_pos]
      by_contra hday
      exact hnot ⟨⟨by omega, by omega⟩, by omega⟩

theorem seed_accepted (s : RtcState) {t : Moment} (h : t.Accepted) : ∃ ticks : UInt64, (ticks.toNat : Int) = t.ticks % 2 ^ 48 ∧
    seed s t = (0, { rtcInit with etime := ticks, etimeLatched := ticks }) := by
  obtain ⟨hvalid, hyear, hhour, hminute, hsecond⟩ := h
  obtain ⟨days, hdays, hholds⟩ := (rtcDaysSinceWinceEpoch_eq t.date).1 ⟨hvalid, hyear⟩
  unfold seed rtcInitFromYmdhms
  rw [if_neg (by omega), hdays]
  refine ⟨_, ?_, rfl⟩
  have hseconds := (((hholds.mul (y := 86400) (n := 86400) rfl).add ((Holds.ofInt t.hour).mul (y := 3600) (n := 3600) rfl)).add
    ((Holds.ofInt t.minute).mul (y := 60) (n := 60) rfl)).add (Holds.ofInt t.second)
  rw [(hseconds.mul (y := rtcTicksPerSecond) (n := 32768) rfl).masked]
  congr 1
  unfold Moment.ticks Moment.secondOfDay
  omega

theorem seed_refused (s : RtcState) {t : Moment} (h : ¬ t.Accepted) : seed s t = (-1, s) := by
  unfold seed rtcInitFromYmdhms
  by_cases htime : t.hour < 0 ∨ 23 < t.hour ∨ t.minute < 0 ∨ 59 < t.minute ∨ t.second < 0 ∨ 60 < t.second
  · rw [if_pos htime]
  · rw [if_neg htime, (rtcDaysSinceWinceEpoch_eq t.date).2]
    rintro ⟨hvalid, hyear⟩
    exact h ⟨hvalid, hyear, by omega, by omega, by omega⟩

theorem ticks_nonneg {t : Moment} (h : t.Accepted) : 0 ≤ t.ticks := by
  obtain ⟨hvalid, hyear, hhour, hminute, hsecond⟩ := h
  have hdays : dayNumber epoch ≤ dayNumber t.date := by
    have hstart := (dayNumber_month hvalid).1
    have hyears := year_starts 1850 (t.date.year - 1850).toNat
    rw [show (1850 : Int) + ((t.date.year - 1850).toNat : Int) = t.date.year by omega] at hyears
    have hmonths := month_starts t.date.year (m := 1) (by decide) (t.date.month - 1).toNat (by have := hvalid.month; omega)
    rw [show (1 : Int) + ((t.date.month - 1).toNat : Int) = t.date.month by have := hvalid.month; omega] at hmonths
    show dayNumber ⟨1850, 1, 1⟩ ≤ _
    omega
  unfold Moment.ticks Moment.secondOfDay
  omega

/-- Later dates have more ticks, and so have later times; only a leap second has as many as
    the second after it. -/
theorem ticks_lt {t u : Moment} (ht : t.Accepted) (hu : u.Accepted)
    (h : t.date.Before u.date ∧ t.secondOfDay ≤ u.secondOfDay ∨ t.Before u ∧ t.second < 60) : t.ticks < u.ticks := by
  obtain ⟨htvalid, -, hthour, htminute, htsecond⟩ := ht
  obtain ⟨huvalid, -, huhour, huminute, husecond⟩ := hu
  rcases h with ⟨hdate, htime⟩ | ⟨hdate | ⟨hdate, htime⟩, hleap⟩
  · have hlt := dayNumber_lt htvalid huvalid hdate
    unfold Moment.ticks
    omega
  · have hlt := dayNumber_lt htvalid huvalid hdate
    unfold Moment.ticks Moment.secondOfDay
    omega
  · unfold Moment.ticks Moment.secondOfDay
    rw [hdate]
    omega

/-- Which starts succeed, what the counter is then, and that it grows with the date. -/
theorem rtc_seeded (s : RtcState) (t : Moment) :
    (t.Accepted → (seed s t).1 = 0 ∧ ((seed s t).2.etime.toNat : Int) = t.ticks % 2 ^ 48 ∧
      (seed s t).2 = { rtcInit with etime := (seed s t).2.etime, etimeLatched := (seed s t).2.etime }) ∧
    (¬ t.Accepted → seed s t = (-1, s)) ∧
    ∀ u : Moment, t.Accepted → u.Accepted → u.ticks < 2 ^ 48 →
      t.date.Before u.date ∧ t.secondOfDay ≤ u.secondOfDay ∨ t.Before u ∧ t.second < 60 →
      (seed s t).2.etime < (seed s u).2.etime := by
  refine ⟨?_, seed_refused s, ?_⟩
  · intro h
    obtain ⟨ticks, hticks, hseed⟩ := seed_accepted s h
    rw [hseed]
    exact ⟨rfl, hticks, rfl⟩
  · intro u ht hu hbound hbefore
    obtain ⟨x, hx, hseedt⟩ := seed_accepted s ht
    obtain ⟨y, hy, hseedu⟩ := seed_accepted s hu
    have hlt := ticks_lt ht hu hbefore
    have hnonneg := ticks_nonneg ht
    rw [Int.emod_eq_of_lt hnonneg (by omega)] at hx
    rw [Int.emod_eq_of_lt (by omega) hbound] at hy
    rw [hseedt, hseedu]
    show x < y
    rw [UInt64.lt_iff_toNat_lt]
    omega

/-- The last second of June 1972, a leap second. -/
theorem rtc_seeded_leap : (seed rtcInit ⟨⟨1972, 6, 30⟩, 23, 59, 60⟩).1 = 0 ∧
    ((seed rtcInit ⟨⟨1972, 6, 30⟩, 23, 59, 60⟩).2.etime.toNat : Int) = 32768 * 3865622400 := by
  obtain ⟨hstart, htime, -⟩ := (rtc_seeded rtcInit ⟨⟨1972, 6, 30⟩, 23, 59, 60⟩).1
    ⟨by decide, by decide, by decide, by decide, by decide⟩
  exact ⟨hstart, htime.trans (by decide)⟩

end Be300.Rtc
