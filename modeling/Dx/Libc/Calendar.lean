import Dx.Libc.Ctype
import Dx.Library.Gregorian
import Mathlib.Tactic.Ring

/-!
# Broken-down time

`localtime_r` takes a number of seconds to a date and a time of the day, and `mktime` takes them back.
The former counts from the epoch: forward over the years, the months and the days, or backward from the
end of 1969, where it rounds up. The days are counted in an `unsigned` of 32 bits and in a `long` of 32
bits.

The `int`s of a `struct tm` are integers, as are the 64 bits of a `time_t`: the years and the seconds
that the two functions come to are far from the limits, as long as the year of the time fits the
structure. The assertions are not compiled in.
-/

namespace Dx.Libc

open Int

open Library.Gregorian

/-! ### The functions -/

/-- `struct tm`. -/
structure Tm where
  sec : ℤ
  min : ℤ
  hour : ℤ
  mday : ℤ
  mon : ℤ
  year : ℤ
  wday : ℤ
  yday : ℤ
  isdst : ℤ
  deriving DecidableEq

/-- `DAYS_PER_MONTH`. -/
def daysPerMonthTable : List ℕ := [31, 28, 31, 30, 31, 30, 31, 31, 30, 31, 30, 31]

def firstDayOffset : List ℤ := [0, 3, 2, 5, 0, 3, 5, 1, 4, 6, 2, 4]

def isLeapYear (year : ℤ) : Bool :=
  if year.tmod 4 ≠ 0 then false
  else if year.tmod 100 ≠ 0 then true
  else if year.tmod 400 ≠ 0 then false
  else true

/-- `days_per_month`. The month is an `unsigned`. -/
def daysPerMonth (month year : ℤ) : Except Fault ℕ :=
  if 0 ≤ month ∧ month < 12 then
    .ok (daysPerMonthTable.getD month.toNat 0 + if month = 1 ∧ isLeapYear year then 1 else 0)
  else .error .outside

def daysPerYear (year : ℤ) : ℕ := if isLeapYear year then 366 else 365

/-- A part of the day, of as many units: the field, and the time in the next larger units. Backward,
the field is what is missing to the next full one, and the time is rounded up. -/
def partialDay (forward : Bool) (units t : ℤ) : ℤ × ℤ :=
  if t.tmod units = 0 then (0, t.tdiv units)
  else if forward then (t.tmod units, t.tdiv units)
  else (units - t.tmod units, (t + units).tdiv units)

/-- Accounts for full years, one after the other. As many passes as there are days are enough. -/
def fullYears (delta : ℤ) : ℕ → ℤ → ℕ → ℤ × ℕ
  | 0, year, days => (year, days)
  | passes + 1, year, days =>
    if daysPerYear year ≥ days then (year, days)
    else fullYears delta passes (year + delta) (days - daysPerYear year)

/-- Accounts for full months. After twelve passes the month is outside of the table. -/
def fullMonths (delta year : ℤ) : ℕ → ℤ → ℕ → Except Fault (ℤ × ℕ)
  | 0, _, _ => .error .outside
  | passes + 1, month, days => do
    let daysThisMonth ← daysPerMonth month year
    if daysThisMonth ≥ days then return (month, days)
    else fullMonths delta year passes (month + delta) (days - daysThisMonth)

/-- The day of the week, of the sum in 32 bits. -/
def dayOfWeek (month year : ℤ) (days : ℕ) : ℤ :=
  let year := if month < 2 then year - 1 else year
  (year + year.tdiv 4 - year.tdiv 100 + year.tdiv 400 + firstDayOffset.getD month.toNat 0 + days + 1) %
    2 ^ 32 % 7

def localtimeR (secondsSinceEpoch : ℤ) : Except Fault Tm := do
  let forward := decide (0 ≤ secondsSinceEpoch)
  let delta : ℤ := if forward then 1 else -1
  let t := if forward then secondsSinceEpoch else -secondsSinceEpoch
  let seconds := partialDay forward 60 t
  let minutes := partialDay forward 60 seconds.2
  let hours := partialDay forward 24 minutes.2
  let days := (hours.2 % 2 ^ 32).toNat
  let years := fullYears delta days (if forward then 1970 else 1969) days
  let months ← fullMonths delta years.1 12 (if forward then 0 else 11) years.2
  let daysThisMonth ← daysPerMonth months.1 years.1
  return {
    sec := seconds.1
    min := minutes.1
    hour := hours.1
    mday := if forward then months.2 + 1 else daysThisMonth - months.2 + 1
    mon := months.1
    year := years.1 - 1900
    wday := dayOfWeek months.1 years.1 months.2
    yday := if forward then years.2 else daysPerYear years.1 - years.2
    isdst := 0 }

/-- A value of 32 bits, as a `long` or an `int`. -/
def long (value : ℤ) : ℤ := value.bmod (2 ^ 32)

/-- Adds the days of as many months. -/
def addMonths (year : ℤ) : ℕ → ℤ → ℤ → Except Fault ℤ
  | 0, _, fullDays => .ok fullDays
  | passes + 1, month, fullDays => do
    let daysThisMonth ← daysPerMonth month year
    addMonths year passes (month + 1) (long (fullDays + daysThisMonth))

def addYears (sign : ℤ) : ℕ → ℤ → ℤ → ℤ
  | 0, _, fullDays => fullDays
  | passes + 1, year, fullDays =>
    addYears sign passes (year + 1) (long (fullDays + sign * daysPerYear year))

/-- `mktime`: the seconds, and the normalised time. -/
def mktime (datetime : Tm) : Except Fault (ℤ × Tm) := do
  let year := long (datetime.year + 1900)
  let partialDay := long (datetime.sec + long (datetime.min * 60) + long (long (datetime.hour * 60) * 60))
  let fullDays := long (datetime.mday - 1)
  let fullDays ← addMonths year datetime.mon.toNat 0 fullDays
  let fullDays :=
    if year > 1970 then addYears 1 (year - 1970).toNat 1970 fullDays
    else addYears (-1) (1970 - year).toNat year fullDays
  let secondsSinceEpoch := long (long (long (fullDays * 60) * 60) * 24) + partialDay
  let normalizedTime ← localtimeR secondsSinceEpoch
  return (secondsSinceEpoch, normalizedTime)

/-! ### The counts of the calendar -/

theorem isLeapYear_iff (year : ℤ) : isLeapYear year = true ↔ Leap year := by
  rw [isLeapYear, Leap, dvd_iff_tmod_eq_zero, dvd_iff_tmod_eq_zero, dvd_iff_tmod_eq_zero]
  split_ifs <;> simp_all

theorem daysPerYear_eq (year : ℤ) : daysPerYear year = yearLength year := by
  simp only [daysPerYear, yearLength, isLeapYear_iff]

variable {m passes : ℕ} {t y z : ℤ} {tm : Tm}

theorem daysPerMonth_eq (hm : m < 12) (year : ℤ) :
    daysPerMonth m year = .ok (monthLength year m) := by
  rw [daysPerMonth, if_pos ⟨by omega, by omega⟩]
  congr 1
  simp only [isLeapYear_iff]
  by_cases hleap : Leap year
  · interval_cases m <;> simp [daysPerMonthTable, monthLength, hleap]
  · interval_cases m <;> simp [daysPerMonthTable, monthLength, hleap]

/-- A time, in the direction of counting. -/
def counted (s : ℤ) : ℤ := if decide (0 ≤ s) then s else -s

theorem partialDay_eq {units s : ℤ} (hunits : units = 60 ∨ units = 24) :
    partialDay (decide (0 ≤ s)) units (counted s) = (s % units, counted (s / units)) := by
  have hsame : decide (0 ≤ s / units) = decide (0 ≤ s) := by
    rcases hunits with rfl | rfl
    · exact decide_eq_decide.2 (by omega)
    · exact decide_eq_decide.2 (by omega)
  rw [partialDay, counted, counted, hsame]
  by_cases hs : 0 ≤ s
  · simp only [hs, decide_true, if_true, tmod_eq_emod_of_nonneg hs, tdiv_eq_ediv_of_nonneg hs]
    split_ifs with hzero
    · rw [hzero]
    · rfl
  · have hneg : 0 ≤ -s := by omega
    simp only [hs, decide_false, Bool.false_eq_true, if_false, tmod_eq_emod_of_nonneg hneg,
      tdiv_eq_ediv_of_nonneg hneg]
    rcases hunits with rfl | rfl
    · rw [tdiv_eq_ediv_of_nonneg (show 0 ≤ -s + 60 by omega)]
      split_ifs with hzero
      · exact Prod.ext (by simp only; omega) (by simp only; omega)
      · exact Prod.ext (by simp only; omega) (by simp only; omega)
    · rw [tdiv_eq_ediv_of_nonneg (show 0 ≤ -s + 24 by omega)]
      split_ifs with hzero
      · exact Prod.ext (by simp only; omega) (by simp only; omega)
      · exact Prod.ext (by simp only; omega) (by simp only; omega)

/-- Forward, what is left of the days is counted from the start of the year. It is zero only if there
were none, since a year that is accounted for leaves at least one. -/
theorem fullYears_forward (year : ℤ) (days : ℕ) (h : days ≤ passes) :
    ∃ z : ℤ, ∃ d : ℕ, fullYears 1 passes year days = (z, d) ∧
      yearStart z + d = yearStart year + days ∧ d ≤ yearLength z ∧ year ≤ z ∧
      (d = 0 → z = year) := by
  induction passes generalizing year days with
  | zero => exact ⟨year, days, rfl, rfl, by omega, le_rfl, fun _ => rfl⟩
  | succ passes ih =>
    rw [fullYears, daysPerYear_eq]
    by_cases hge : yearLength year ≥ days
    · rw [if_pos hge]
      exact ⟨year, days, rfl, rfl, hge, le_rfl, fun _ => rfl⟩
    · have hpos := yearLength_pos year
      rw [if_neg hge]
      obtain ⟨z, d, heq, hsum, hle, hlater, hzero⟩ := ih (year + 1) (days - yearLength year) (by omega)
      rw [yearStart_succ] at hsum
      refine ⟨z, d, heq, by omega, hle, by omega, fun hd => ?_⟩
      have hz := hzero hd
      rw [hz, yearStart_succ] at hsum
      omega

theorem fullYears_backward (year : ℤ) (days : ℕ) (h : days ≤ passes) :
    ∃ z : ℤ, ∃ d : ℕ, fullYears (-1) passes year days = (z, d) ∧
      yearStart (z + 1) - d = yearStart (year + 1) - days ∧ d ≤ yearLength z ∧ (0 < days → 0 < d) := by
  induction passes generalizing year days with
  | zero => exact ⟨year, days, rfl, rfl, by omega, id⟩
  | succ passes ih =>
    rw [fullYears, daysPerYear_eq]
    by_cases hge : yearLength year ≥ days
    · rw [if_pos hge]
      exact ⟨year, days, rfl, rfl, hge, id⟩
    · have hpos := yearLength_pos year
      rw [if_neg hge]
      obtain ⟨z, d, heq, hsum, hle, hd⟩ := ih (year + -1) (days - yearLength year) (by omega)
      rw [show year + -1 + 1 = year by omega] at hsum
      refine ⟨z, d, heq, ?_, hle, fun _ => hd (by omega)⟩
      rw [yearStart_succ year]
      omega

theorem fullMonths_forward (year : ℤ) (m days : ℕ) (hm : m + passes = 12) (hlt : m < 12)
    (h : monthStart year m + days ≤ yearLength year) :
    ∃ n d : ℕ, fullMonths 1 year passes m days = .ok (n, d) ∧ n < 12 ∧
      monthStart year n + d = monthStart year m + days ∧ d ≤ monthLength year n ∧
      (d = 0 → n = m) := by
  induction passes generalizing m days with
  | zero => omega
  | succ passes ih =>
    rw [fullMonths, daysPerMonth_eq hlt]
    simp only [ok_bind]
    by_cases hge : monthLength year m ≥ days
    · rw [if_pos hge]
      exact ⟨m, days, rfl, hlt, rfl, hge, fun _ => rfl⟩
    · rw [if_neg hge]
      have hnext : monthStart year (m + 1) = monthStart year m + monthLength year m := rfl
      -- there is a next month, since the days of December are the last ones of the year
      have hmore : m + 1 < 12 := by
        by_contra hlast
        have htwelve := monthStart_twelve year
        rw [show m + 1 = 12 by omega] at hnext
        omega
      obtain ⟨n, d, heq, hn, hsum, hle, hzero⟩ := ih (m + 1) (days - monthLength year m) (by omega)
        hmore (by omega)
      refine ⟨n, d, heq, hn, by omega, hle, fun hd => ?_⟩
      have hnm := hzero hd
      rw [hnm] at hsum
      omega

theorem fullMonths_backward (year : ℤ) (m days : ℕ) (hm : m < 12)
    (h : days ≤ monthStart year (m + 1)) :
    ∃ n d : ℕ, fullMonths (-1) year (m + 1) m days = .ok (n, d) ∧ n < 12 ∧
      monthStart year (n + 1) + days = monthStart year (m + 1) + d ∧ d ≤ monthLength year n ∧
      (0 < days → 0 < d) := by
  induction m generalizing days with
  | zero =>
    rw [fullMonths, daysPerMonth_eq hm]
    simp only [ok_bind]
    have hge : monthLength year 0 ≥ days := by simpa [monthStart] using h
    rw [if_pos hge]
    exact ⟨0, days, rfl, hm, rfl, hge, id⟩
  | succ m ih =>
    rw [fullMonths, daysPerMonth_eq hm]
    simp only [ok_bind]
    have hnext : monthStart year (m + 1 + 1) = monthStart year (m + 1) + monthLength year (m + 1) := rfl
    by_cases hge : monthLength year (m + 1) ≥ days
    · rw [if_pos hge]
      exact ⟨m + 1, days, rfl, hm, rfl, hge, id⟩
    · rw [if_neg hge, show ((m + 1 : ℕ) : ℤ) + -1 = (m : ℤ) by omega]
      obtain ⟨n, d, heq, hn, hsum, hle, hd⟩ := ih (days - monthLength year (m + 1)) (by omega) (by omega)
      exact ⟨n, d, heq, hn, by omega, hle, fun _ => hd (by omega)⟩

/-! ### What `localtime_r` returns -/

theorem localtimeR_eq (t : ℤ) :
    localtimeR t = do
      let forward := decide (0 ≤ t)
      let days := (counted (t / 86400) % 2 ^ 32).toNat
      let years := fullYears (if forward then 1 else -1) days (if forward then 1970 else 1969) days
      let months ← fullMonths (if forward then 1 else -1) years.1 12 (if forward then 0 else 11) years.2
      let daysThisMonth ← daysPerMonth months.1 years.1
      return {
        sec := t % 60
        min := t / 60 % 60
        hour := t / 3600 % 24
        mday := if forward then months.2 + 1 else daysThisMonth - months.2 + 1
        mon := months.1
        year := years.1 - 1900
        wday := dayOfWeek months.1 years.1 months.2
        yday := if forward then years.2 else daysPerYear years.1 - years.2
        isdst := 0 } := by
  have hsame (k : ℤ) (hk : 0 < k) : decide (0 ≤ t / k) = decide (0 ≤ t) :=
    decide_eq_decide.2 (ediv_nonneg_iff_of_pos hk)
  have hsec : partialDay (decide (0 ≤ t)) 60 (counted t) = (t % 60, counted (t / 60)) :=
    partialDay_eq (.inl rfl)
  have hmin : partialDay (decide (0 ≤ t)) 60 (counted (t / 60)) =
      (t / 60 % 60, counted (t / 3600)) := by
    rw [← hsame 60 (by omega), partialDay_eq (.inl rfl), ediv_ediv_of_nonneg (by omega)]
    rfl
  have hhour : partialDay (decide (0 ≤ t)) 24 (counted (t / 3600)) =
      (t / 3600 % 24, counted (t / 86400)) := by
    rw [← hsame 3600 (by omega), partialDay_eq (.inr rfl), ediv_ediv_of_nonneg (by omega)]
    rfl
  have hcounted : (if decide (0 ≤ t) then t else -t) = counted t := rfl
  simp only [localtimeR, hcounted, hsec, hmin, hhour]

theorem localtimeR_forward (ht : 0 ≤ t) :
    ∃ (y : ℤ) (m d : ℕ), m < 12 ∧ 1970 ≤ y ∧ d ≤ monthLength y m ∧
      yearStart y + monthStart y m + d = t / 86400 % 2 ^ 32 ∧ (d = 0 → y = 1970 ∧ m = 0) ∧
      localtimeR t = .ok ⟨t % 60, t / 60 % 60, t / 3600 % 24, d + 1, m, y - 1900, dayOfWeek m y d,
        monthStart y m + d, 0⟩ := by
  have hdays : counted (t / 86400) = t / 86400 := by
    rw [counted, if_pos (decide_eq_true (by omega))]
  obtain ⟨y, k, hyears, hsum, hk, hy, hzero⟩ :=
    fullYears_forward 1970 (t / 86400 % 2 ^ 32).toNat le_rfl
  obtain ⟨m, d, hmonths, hm, hmsum, hd, hmzero⟩ :=
    fullMonths_forward y 0 k (Nat.zero_add 12) (by omega) (by simpa [monthStart] using hk)
  rw [monthStart, Nat.zero_add] at hmsum
  rw [yearStart_epoch] at hsum
  refine ⟨y, m, d, hm, hy, hd, by omega, fun hd => ?_, ?_⟩
  · have hm0 := hmzero hd
    rw [hm0, hd] at hmsum
    exact ⟨hzero hmsum.symm, hm0⟩
  rw [localtimeR_eq]
  simp only [ht, decide_true, if_true, hdays, hyears]
  rw [show (0 : ℤ) = ((0 : ℕ) : ℤ) from rfl, hmonths]
  simp only [bind, Except.bind, daysPerMonth_eq hm]
  rw [← hmsum]
  simp [pure, Except.pure]

theorem localtimeR_backward (ht : t < 0) :
    ∃ (y : ℤ) (m d : ℕ), m < 12 ∧ d ≤ monthLength y m ∧
      yearStart y + monthStart y m + (monthLength y m - d : ℤ) = -(-(t / 86400) % 2 ^ 32) ∧
      (0 < -(t / 86400) % 2 ^ 32 → 0 < d) ∧
      localtimeR t = .ok ⟨t % 60, t / 60 % 60, t / 3600 % 24, monthLength y m - d + 1, m, y - 1900,
        dayOfWeek m y d, monthStart y m + (monthLength y m - d), 0⟩ := by
  have hnot : ¬0 ≤ t := by omega
  have hdays : counted (t / 86400) = -(t / 86400) := by
    rw [counted, if_neg (by simp only [decide_eq_true_eq]; omega)]
  obtain ⟨y, k, hyears, hsum, hk, hkpos⟩ :=
    fullYears_backward 1969 (-(t / 86400) % 2 ^ 32).toNat le_rfl
  obtain ⟨m, d, hmonths, hm, hmsum, hd, hdpos⟩ :=
    fullMonths_backward y 11 k (by omega) (by rw [monthStart_twelve]; exact hk)
  rw [monthStart_twelve, monthStart] at hmsum
  rw [show (1969 : ℤ) + 1 = 1970 from rfl, yearStart_epoch, yearStart_succ] at hsum
  refine ⟨y, m, d, hm, hd, by omega, fun hpos => hdpos (hkpos (by omega)), ?_⟩
  rw [localtimeR_eq]
  simp only [hnot, decide_false, Bool.false_eq_true, if_false, hdays, hyears]
  rw [show (11 : ℤ) = ((11 : ℕ) : ℤ) from rfl, hmonths]
  simp only [ok_bind, daysPerMonth_eq hm, daysPerYear_eq]
  have hyday : (yearLength y - k : ℤ) = monthStart y m + (monthLength y m - d) := by omega
  rw [hyday]
  rfl

/-! ### The date of a time -/

namespace Tm

/-- The number of the day. The day of the month may be outside of the month. -/
def dayNumber (tm : Tm) : ℤ :=
  yearStart (tm.year + 1900) + monthStart (tm.year + 1900) tm.mon.toNat + (tm.mday - 1)

/-- **The normalised Gregorian date and time of a time value.** -/
structure Denotes (tm : Tm) (t : ℤ) : Prop where
  sec : 0 ≤ tm.sec ∧ tm.sec ≤ 59
  min : 0 ≤ tm.min ∧ tm.min ≤ 59
  hour : 0 ≤ tm.hour ∧ tm.hour ≤ 23
  mon : 0 ≤ tm.mon ∧ tm.mon ≤ 11
  mday : 1 ≤ tm.mday ∧ tm.mday ≤ monthLength (tm.year + 1900) tm.mon.toNat
  yday : tm.yday = monthStart (tm.year + 1900) tm.mon.toNat + (tm.mday - 1)
  wday : tm.wday = weekday tm.dayNumber
  isdst : tm.isdst = 0
  time : t = 86400 * tm.dayNumber + 3600 * tm.hour + 60 * tm.min + tm.sec

section

variable {tm : Tm} {t : ℤ}

theorem Denotes.dayNumber_eq (h : tm.Denotes t) : tm.dayNumber = t / 86400 := by
  have hsec := h.sec
  have hmin := h.min
  have hhour := h.hour
  have htime := h.time
  omega

def Denotes.date (h : tm.Denotes t) : Date where
  year := tm.year + 1900
  month := tm.mon.toNat
  day := tm.mday.toNat
  month_lt := by
    have hmon := h.mon
    omega
  day_pos := by
    have hmday := h.mday
    omega
  day_le := by
    have hmday := h.mday
    omega

theorem Denotes.number_date (h : tm.Denotes t) : h.date.number = tm.dayNumber := by
  have hmday := h.mday
  simp only [Date.number, Date.yearDay, dayNumber, date]
  omega

theorem Denotes.unique {other : Tm} (h : tm.Denotes t) (hother : other.Denotes t) : tm = other := by
  have hday := h.dayNumber_eq.trans hother.dayNumber_eq.symm
  have hdate : h.date = hother.date := by
    apply Date.number_injective
    rw [h.number_date, hother.number_date, hday]
  have hyear : tm.year + 1900 = other.year + 1900 := congrArg Date.year hdate
  have hmonth : tm.mon.toNat = other.mon.toNat := congrArg Date.month hdate
  have hmday : tm.mday.toNat = other.mday.toNat := congrArg Date.day hdate
  have hyday := h.yday
  have hwday := h.wday
  have hisdst := h.isdst
  rw [hyear, hmonth] at hyday
  rw [hday, ← hother.wday] at hwday
  rw [← hother.isdst] at hisdst
  obtain ⟨hs, hm, hh, hmon, hd, -, -, -, htime⟩ := h
  obtain ⟨hs', hm', hh', hmon', hd', hyday', -, -, htime'⟩ := hother
  obtain ⟨sec, min, hour, mday, mon, year, wday, yday, isdst⟩ := tm
  obtain ⟨sec', min', hour', mday', mon', year', wday', yday', isdst'⟩ := other
  simp only at *
  simp only [mk.injEq]
  omega

def ofDate (date : Date) (t : ℤ) : Tm :=
  ⟨t % 60, t / 60 % 60, t / 3600 % 24, date.day, date.month, date.year - 1900, weekday (t / 86400),
    date.yearDay, 0⟩

/-- **There is one** of each time: that of the date of its day. -/
theorem denotes_ofDate {date : Date} (h : date.number = t / 86400) : (ofDate date t).Denotes t := by
  have hlt := date.month_lt
  have hpos := date.day_pos
  have hle := date.day_le
  have hnumber : (ofDate date t).dayNumber = t / 86400 := by
    rw [← h]
    simp only [dayNumber, ofDate, sub_add_cancel, toNat_natCast, Date.number, Date.yearDay]
    omega
  refine ⟨?_, ?_, ?_, ?_, ?_, ?_, ?_, rfl, ?_⟩
  · simp only [ofDate]
    omega
  · simp only [ofDate]
    omega
  · simp only [ofDate]
    omega
  · simp only [ofDate]
    omega
  · simp only [ofDate, sub_add_cancel, toNat_natCast]
    omega
  · simp only [ofDate, sub_add_cancel, toNat_natCast, Date.yearDay]
    omega
  · rw [hnumber]
    rfl
  · rw [hnumber]
    simp only [ofDate]
    omega

end

end Tm

/-! ### The round trip -/

theorem long_add (x y : ℤ) : long (long x + y) = long (x + y) := bmod_add_bmod

theorem long_mul (x y : ℤ) : long (long x * y) = long (x * y) := bmod_mul_bmod

theorem long_day (x : ℤ) : long (long (long (long x * 60) * 60) * 24) = long (86400 * x) := by
  rw [long_mul x 60, long_mul (x * 60) 60, long_mul (x * 60 * 60) 24]
  congr 1
  ring

theorem long_eq_self {x : ℤ} (h : -2 ^ 31 ≤ x ∧ x < 2 ^ 31) : long x = x := by
  rw [long, bmod_eq_of_le] <;> omega

theorem long_bounds (x : ℤ) : -2 ^ 31 ≤ long x ∧ long x < 2 ^ 31 := by
  have hle := @Int.le_bmod x (2 ^ 32) (by decide)
  have hlt := @Int.bmod_lt x (2 ^ 32) (by decide)
  rw [long]
  omega

theorem addMonths_eq (year x : ℤ) (m passes : ℕ) (h : m + passes ≤ 12) :
    addMonths year passes m (long x) =
      .ok (long (x + (monthStart year (m + passes) - monthStart year m))) := by
  induction passes generalizing m x with
  | zero => rw [addMonths, Nat.add_zero, sub_self, add_zero]
  | succ passes ih =>
    rw [addMonths, daysPerMonth_eq (by omega)]
    simp only [ok_bind]
    rw [long_add, show ((m : ℤ) + 1) = ((m + 1 : ℕ) : ℤ) by omega, ih (x + monthLength year m) (m + 1) (by omega),
      show m + 1 + passes = m + (passes + 1) by omega, monthStart]
    congr 2
    omega

theorem addYears_eq (sign x year : ℤ) (passes : ℕ) :
    addYears sign passes year (long x) =
      long (x + sign * (yearStart (year + passes) - yearStart year)) := by
  induction passes generalizing year x with
  | zero => simp [addYears]
  | succ passes ih =>
    rw [addYears, daysPerYear_eq, long_add, ih, yearStart_succ,
      show year + 1 + (passes : ℤ) = year + (passes + 1 : ℕ) by omega]
    congr 1
    ring

/-- A day within 32 bits is in a year far from the limits of an `int`. -/
theorem year_small (h : -2 ^ 33 < yearStart y ∧ yearStart y < 2 ^ 33) :
    -2 ^ 25 < y ∧ y < 2 ^ 25 := by
  rw [yearStart, leapYears] at h
  omega

/-- The number of days from the epoch that `localtime_r` counts, of which it keeps 32 bits. -/
def keptDays (t : ℤ) : ℤ := if 0 ≤ t then t / 86400 % 2 ^ 32 else -(-(t / 86400) % 2 ^ 32)

/-- `localtime_r` always returns a time of the day, a month and a day, which may be that after the last
one of the month. -/
theorem localtimeR_spec (t : ℤ) : ∃ tm : Tm, localtimeR t = .ok tm ∧ tm.dayNumber = keptDays t ∧
    (0 ≤ tm.mon ∧ tm.mon < 12) ∧ (0 < tm.mday ∧ tm.mday ≤ 32) ∧
    tm.sec = t % 60 ∧ tm.min = t / 60 % 60 ∧ tm.hour = t / 3600 % 24 := by
  by_cases ht : 0 ≤ t
  · obtain ⟨y, m, d, hm, -, hd, hsum, -, heq⟩ := localtimeR_forward ht
    have hle := monthLength_le y m
    refine ⟨_, heq, ?_, ⟨by simp only; omega, by simp only; omega⟩,
      ⟨by simp only; omega, by simp only; omega⟩, rfl, rfl, rfl⟩
    rw [keptDays, if_pos ht, ← hsum]
    simp only [Tm.dayNumber, sub_add_cancel, toNat_natCast]
    omega
  · obtain ⟨y, m, d, hm, hd, hsum, -, heq⟩ := localtimeR_backward (not_le.1 ht)
    have hle := monthLength_le y m
    refine ⟨_, heq, ?_, ⟨by simp only; omega, by simp only; omega⟩,
      ⟨by simp only; omega, by simp only; omega⟩, rfl, rfl, rfl⟩
    rw [keptDays, if_neg ht, ← hsum]
    simp only [Tm.dayNumber, sub_add_cancel, toNat_natCast]
    omega

theorem keptDays_bounds (t : ℤ) : -2 ^ 32 < keptDays t ∧ keptDays t < 2 ^ 32 := by
  rw [keptDays]
  split <;> omega

theorem year_of_dayNumber (h : -2 ^ 32 < tm.dayNumber ∧ tm.dayNumber < 2 ^ 32)
    (hmon : 0 ≤ tm.mon ∧ tm.mon < 12) (hmday : 0 < tm.mday ∧ tm.mday ≤ 32) :
    -2 ^ 25 < tm.year + 1900 ∧ tm.year + 1900 < 2 ^ 25 := by
  have hmono := monthStart_mono (tm.year + 1900) (show tm.mon.toNat ≤ 12 by omega)
  have hle := yearLength_le (tm.year + 1900)
  rw [monthStart_twelve] at hmono
  rw [Tm.dayNumber] at h
  apply year_small
  omega

/-- What `mktime` returns for a broken-down time in range: the product of the days is one of 32
bits. -/
theorem mktime_eq (h : -2 ^ 32 < tm.dayNumber ∧ tm.dayNumber < 2 ^ 32)
    (hmon : 0 ≤ tm.mon ∧ tm.mon < 12) (hmday : 0 < tm.mday ∧ tm.mday ≤ 32)
    (hsec : 0 ≤ tm.sec ∧ tm.sec ≤ 59) (hmin : 0 ≤ tm.min ∧ tm.min ≤ 59)
    (hhour : 0 ≤ tm.hour ∧ tm.hour ≤ 23) :
    ∃ normalizedTime, mktime tm = .ok
      (long (86400 * tm.dayNumber) + (3600 * tm.hour + 60 * tm.min + tm.sec), normalizedTime) := by
  have hsmall := year_of_dayNumber h hmon hmday
  have hyear : long (tm.year + 1900) = tm.year + 1900 := long_eq_self (by omega)
  have hpartial : long (tm.sec + long (tm.min * 60) + long (long (tm.hour * 60) * 60)) =
      3600 * tm.hour + 60 * tm.min + tm.sec := by
    rw [long_eq_self (x := tm.min * 60) (by omega), long_mul, long_eq_self (x := tm.hour * 60 * 60) (by omega),
      long_eq_self (by omega)]
    ring
  have hmonths := addMonths_eq (tm.year + 1900) (tm.mday - 1) 0 tm.mon.toNat (by omega)
  rw [Nat.zero_add, show ((0 : ℕ) : ℤ) = 0 from rfl] at hmonths
  -- the days of the years up to the epoch, in either direction
  have hyears (x : ℤ) :
      (if tm.year + 1900 > 1970 then
        addYears 1 (tm.year + 1900 - 1970).toNat 1970 (long x)
      else addYears (-1) (1970 - (tm.year + 1900)).toNat (tm.year + 1900) (long x)) =
        long (x + yearStart (tm.year + 1900)) := by
    split
    · rw [addYears_eq, yearStart_epoch, show 1970 + ((tm.year + 1900 - 1970).toNat : ℤ) = tm.year + 1900 by omega]
      congr 1
      omega
    · rw [addYears_eq, show tm.year + 1900 + ((1970 - (tm.year + 1900)).toNat : ℤ) = 1970 by omega,
        yearStart_epoch]
      congr 1
      omega
  obtain ⟨normalizedTime, hlocal, -⟩ :=
    localtimeR_spec (long (86400 * tm.dayNumber) + (3600 * tm.hour + 60 * tm.min + tm.sec))
  refine ⟨normalizedTime, ?_⟩
  simp only [mktime, hyear, hpartial, hmonths, ok_bind, hyears]
  have hday : tm.mday - 1 + ((monthStart (tm.year + 1900) tm.mon.toNat : ℤ) -
      (monthStart (tm.year + 1900) 0 : ℤ)) + yearStart (tm.year + 1900) = tm.dayNumber := by
    rw [Tm.dayNumber, monthStart]
    omega
  rw [hday, long_day, hlocal]
  rfl

def roundTrip (t : ℤ) : Except Fault ℤ := do
  let datetime ← localtimeR t
  let result ← mktime datetime
  return result.1

theorem roundTrip_eq (t : ℤ) : roundTrip t = .ok (long (86400 * keptDays t) + t % 86400) := by
  obtain ⟨tm, hlocal, hday, hmon, hmday, hsec, hmin, hhour⟩ := localtimeR_spec t
  obtain ⟨normalizedTime, hmktime⟩ := mktime_eq (hday ▸ keptDays_bounds t) hmon hmday (by omega) (by omega)
    (by omega)
  rw [roundTrip, hlocal]
  simp only [ok_bind, hmktime, hday, hsec, hmin, hhour]
  rw [show 3600 * (t / 3600 % 24) + 60 * (t / 60 % 60) + t % 60 = t % 86400 by omega]
  rfl

/-- **`mktime` takes the result of `localtime_r` back to the time** if and only if the time is within
24855 days of the epoch: the product of the days and the seconds of a day is one of 32 bits. -/
theorem mktime_localtimeR_iff (t : ℤ) :
    roundTrip t = .ok t ↔ -2147472000 ≤ t ∧ t ≤ 2147558399 := by
  rw [roundTrip_eq, Except.ok.injEq]
  have hbounds := long_bounds (86400 * keptDays t)
  constructor
  · intro h
    omega
  · rintro ⟨hlow, hhigh⟩
    have hkept : keptDays t = t / 86400 := by
      rw [keptDays]
      split <;> omega
    rw [hkept, long_eq_self (by omega)]
    omega

/-- The first second after the 24855th day. -/
theorem not_mktime_localtimeR : roundTrip 2147558400 = .ok (-2147408896) := by decide +kernel

/-! ### The date that `localtime_r` gives -/

/-- The leap years of a division that rounds towards zero. -/
def truncatedLeapYears (year : ℤ) : ℤ := year.tdiv 4 - year.tdiv 100 + year.tdiv 400

namespace Tm

def marchYear (tm : Tm) : ℤ := if tm.mon < 2 then tm.year + 1900 - 1 else tm.year + 1900

/-- The sum for the day of the week when it is counted backward: the days are those up to the end of
the month. -/
def backwardSum (tm : Tm) : ℤ :=
  tm.marchYear + truncatedLeapYears tm.marchYear + firstDayOffset.getD tm.mon.toNat 0 +
    (monthLength (tm.year + 1900) tm.mon.toNat - tm.mday + 2)

/-- The sum is that of the day of the week all the same. A sum below zero gains the 2^32 of an
`unsigned`, which is 4 modulo 7. From the year 1 on, the condition is that twice the day of the month
is, modulo 7, the number of the days of the month and 2. -/
def WeekdayHolds (tm : Tm) : Prop :=
  (2 * tm.mday + leapYears tm.marchYear) % 7 =
    (monthLength (tm.year + 1900) tm.mon.toNat + 2 + truncatedLeapYears tm.marchYear +
      if tm.backwardSum < 0 then 4 else 0) % 7
deriving Decidable

/-- When `localtime_r` gives the date of a time. Forward, 32 bits are enough for the days, and the day
is not the first one of a month, the epoch apart. Backward, 32 bits are enough and the day of the week
happens to be the right one. -/
def Holds (tm : Tm) (t : ℤ) : Prop :=
  (0 ≤ t → t / 86400 < 2 ^ 32 ∧ (tm.mday ≠ 1 ∨ t < 86400)) ∧
    (t < 0 → -(t / 86400) < 2 ^ 32 ∧ tm.WeekdayHolds)
deriving Decidable

end Tm

theorem truncatedLeapYears_eq (hz : 0 ≤ z) : truncatedLeapYears z = leapYears z := by
  rw [truncatedLeapYears, leapYears, tdiv_eq_ediv_of_nonneg hz, tdiv_eq_ediv_of_nonneg hz,
    tdiv_eq_ediv_of_nonneg hz]

theorem firstDayOffset_bounds (m : ℕ) :
    0 ≤ firstDayOffset.getD m 0 ∧ firstDayOffset.getD m 0 ≤ 6 := by
  by_cases hm : m < 12
  · interval_cases m <;> decide
  · rw [List.getD_eq_getElem?_getD, List.getElem?_eq_none (by simpa [firstDayOffset] using hm)]
    decide

theorem truncatedLeapYears_neg (z : ℤ) : truncatedLeapYears (-z) = -truncatedLeapYears z := by
  rw [truncatedLeapYears, truncatedLeapYears, Int.neg_tdiv, Int.neg_tdiv, Int.neg_tdiv]
  omega

theorem leapYears_bounds (hz : 0 ≤ z) : 0 ≤ leapYears z ∧ leapYears z ≤ z := by
  rw [leapYears]
  omega

theorem truncatedLeapYears_bounds (hz : -2 ^ 26 < z ∧ z < 2 ^ 26) :
    -2 ^ 26 < truncatedLeapYears z ∧ truncatedLeapYears z < 2 ^ 26 := by
  by_cases hpos : 0 ≤ z
  · have hbounds := leapYears_bounds hpos
    rw [truncatedLeapYears_eq hpos]
    omega
  · have hneg : 0 ≤ -z := by omega
    have hbounds := leapYears_bounds hneg
    rw [← truncatedLeapYears_eq hneg, truncatedLeapYears_neg] at hbounds
    omega

theorem dayOfWeek_forward {d : ℕ} (hm : m < 12) (hy : 1970 ≤ y ∧ y < 2 ^ 25) (hd : d ≤ 31) :
    dayOfWeek m y d = weekday (yearStart y + monthStart y m + d) := by
  have hoffset := firstDayOffset_bounds m
  have hweekday := weekday_eq (y := y) (d + 1 : ℤ) hm
  rw [Int.add_sub_cancel] at hweekday
  rw [hweekday]
  have hz : (if (m : ℤ) < 2 then y - 1 else y) = if m < 2 then y - 1 else y := by
    split_ifs <;> omega
  simp only [dayOfWeek, hz, Int.toNat_natCast]
  generalize hzdef : (if m < 2 then y - 1 else y) = z
  have hleap := leapYears_bounds (z := z) (by omega)
  have htruncated := truncatedLeapYears_eq (z := z) (by omega)
  rw [truncatedLeapYears] at htruncated
  change _ = (z + leapYears z + firstDayOffset.getD m 0 + (d + 1)) % 7
  omega

theorem dayOfWeek_backward_iff (h : tm.Denotes t) {d : ℕ}
    (hyear : -2 ^ 25 < tm.year + 1900 ∧ tm.year + 1900 < 2 ^ 25)
    (hd : (d : ℤ) = monthLength (tm.year + 1900) tm.mon.toNat - tm.mday + 1) :
    dayOfWeek tm.mon (tm.year + 1900) d = weekday tm.dayNumber ↔ tm.WeekdayHolds := by
  have hmon := h.mon
  have hmday := h.mday
  have hle := monthLength_le (tm.year + 1900) tm.mon.toNat
  have hoffset := firstDayOffset_bounds tm.mon.toNat
  have hweekday := weekday_eq (y := tm.year + 1900) (m := tm.mon.toNat) tm.mday (by omega)
  have hz : (if tm.mon.toNat < 2 then tm.year + 1900 - 1 else tm.year + 1900) = tm.marchYear := by
    rw [Tm.marchYear]
    split_ifs <;> omega
  simp only [hz] at hweekday
  change _ = (tm.marchYear + leapYears tm.marchYear + firstDayOffset.getD tm.mon.toNat 0 + tm.mday) % 7
    at hweekday
  have hmarch : -2 ^ 26 < tm.marchYear ∧ tm.marchYear < 2 ^ 26 := by
    rw [Tm.marchYear]
    split <;> omega
  have hbounds := truncatedLeapYears_bounds hmarch
  have hsumdef : tm.backwardSum = tm.marchYear + truncatedLeapYears tm.marchYear +
      firstDayOffset.getD tm.mon.toNat 0 +
        (monthLength (tm.year + 1900) tm.mon.toNat - tm.mday + 2) := rfl
  have hsum : dayOfWeek tm.mon (tm.year + 1900) d = tm.backwardSum % 2 ^ 32 % 7 := by
    have hfold : (if tm.mon < 2 then tm.year + 1900 - 1 else tm.year + 1900) = tm.marchYear := rfl
    simp only [dayOfWeek, hfold]
    rw [truncatedLeapYears] at hsumdef
    congr 2
    omega
  -- 2^32 is 4 modulo 7
  have hseven : tm.backwardSum % 2 ^ 32 % 7 =
      (tm.backwardSum + if tm.backwardSum < 0 then 4 else 0) % 7 := by
    split <;> omega
  rw [hsum, hseven, Tm.dayNumber, hweekday, Tm.WeekdayHolds]
  generalize (if tm.backwardSum < 0 then (4 : ℤ) else 0) = wrapped
  rw [hsumdef]
  omega

/-- Forward: the day after the last one of a month is the first one of the next. -/
theorem exists_next_month (hm : m < 12) :
    ∃ date : Date, date.day = 1 ∧ date.number = yearStart y + monthStart y m + monthLength y m := by
  by_cases hlast : m + 1 < 12
  · refine ⟨⟨y, m + 1, 1, hlast, Nat.one_pos, monthLength_pos y hlast⟩, rfl, ?_⟩
    simp only [Date.number, Date.yearDay, monthStart]
    omega
  · refine ⟨⟨y + 1, 0, 1, by omega, Nat.one_pos, monthLength_pos _ (by omega)⟩, rfl, ?_⟩
    have htwelve := monthStart_twelve y
    rw [show 12 = m + 1 by omega, monthStart] at htwelve
    simp only [Date.number, Date.yearDay, monthStart, yearStart_succ]
    omega

theorem localtimeR_forward_iff (h : tm.Denotes t) (ht : 0 ≤ t) :
    localtimeR t = .ok tm ↔ t / 86400 < 2 ^ 32 ∧ (tm.mday ≠ 1 ∨ t < 86400) := by
  obtain ⟨y, m, d, hm, hy, hd, hsum, hzero, heq⟩ := localtimeR_forward ht
  have hday := h.dayNumber_eq
  rw [heq, Except.ok.injEq]
  constructor
  · rintro rfl
    simp only [Tm.dayNumber, sub_add_cancel, toNat_natCast] at hday
    refine ⟨by omega, ?_⟩
    by_cases hd0 : d = 0
    · obtain ⟨rfl, rfl⟩ := hzero hd0
      rw [yearStart_epoch, monthStart] at hday
      right
      omega
    · left
      simp only
      omega
  · rintro ⟨hlt, hfirst⟩
    have hstart : 0 ≤ yearStart y := by
      rw [← yearStart_epoch]
      exact yearStart_strictMono.monotone hy
    have hkept : t / 86400 % 2 ^ 32 = t / 86400 := emod_eq_of_lt (by omega) hlt
    rw [hkept] at hsum
    have hinside : d < monthLength y m := by
      -- otherwise it is the first day of the next month
      by_contra hge
      obtain ⟨date, hone, hnumber⟩ := exists_next_month (y := y) hm
      have hsame : h.date = date := by
        apply Date.number_injective
        rw [h.number_date, hday, hnumber]
        omega
      have hmday : tm.mday.toNat = 1 := (congrArg Date.day hsame).trans hone
      have hpos := monthLength_pos y hm
      omega
    have hle := monthLength_le y m
    have hsmall := year_small (y := y) (by omega)
    have hnumber : Date.number ⟨y, m, d + 1, hm, Nat.succ_pos d, hinside⟩ = t / 86400 := by
      rw [← hsum, Date.number, Date.yearDay]
      simp only
      omega
    rw [← (Tm.denotes_ofDate hnumber).unique h,
      dayOfWeek_forward hm ⟨hy, hsmall.2⟩ (by omega), hsum]
    simp [Tm.ofDate, Date.yearDay]

theorem localtimeR_backward_iff (h : tm.Denotes t) (ht : t < 0) :
    localtimeR t = .ok tm ↔ -(t / 86400) < 2 ^ 32 ∧ tm.WeekdayHolds := by
  obtain ⟨y, m, d, hm, hd, hsum, hpos, heq⟩ := localtimeR_backward ht
  have hday := h.dayNumber_eq
  have hmon := h.mon
  have hmday := h.mday
  have hle := monthLength_le (tm.year + 1900) tm.mon.toNat
  rw [heq, Except.ok.injEq]
  by_cases hlt : -(t / 86400) < 2 ^ 32
  swap
  · refine iff_of_false ?_ fun hboth => hlt hboth.1
    rintro rfl
    simp only [Tm.dayNumber, sub_add_cancel, toNat_natCast] at hday
    omega
  have hkept : -(t / 86400) % 2 ^ 32 = -(t / 86400) := emod_eq_of_lt (by omega) hlt
  rw [hkept] at hsum hpos
  -- apart from the day of the week it is the date
  have hother : (⟨t % 60, t / 60 % 60, t / 3600 % 24, monthLength y m - d + 1, m, y - 1900,
      weekday tm.dayNumber, monthStart y m + (monthLength y m - d), 0⟩ : Tm) = tm := by
    have hnumber : Date.number ⟨y, m, monthLength y m - d + 1, hm, Nat.succ_pos _, by omega⟩ =
        t / 86400 := by
      rw [Date.number, Date.yearDay]
      simp only
      omega
    have hsame := (Tm.denotes_ofDate hnumber).unique h
    rw [← hsame, (Tm.denotes_ofDate hnumber).dayNumber_eq]
    simp [Tm.ofDate, Date.yearDay, ofNat_sub hd]
  have hyear : y = tm.year + 1900 := by
    rw [← hother]
    simp only
    omega
  have hmonth : m = tm.mon.toNat := by
    rw [← hother]
    simp only [toNat_natCast]
  have hsmall : -2 ^ 25 < tm.year + 1900 ∧ tm.year + 1900 < 2 ^ 25 :=
    year_of_dayNumber (by omega) (by omega) (by omega)
  have hweekday := dayOfWeek_backward_iff h (d := d) hsmall (by
    rw [← hyear, ← hmonth, ← hother]
    simp only
    omega)
  rw [and_iff_right hlt, ← hweekday, ← hyear]
  have hmon' : (m : ℤ) = tm.mon := by omega
  rw [← hmon']
  constructor
  · intro hsame
    have hw := congrArg Tm.wday (hsame.trans hother.symm)
    exact hw
  · intro hw
    rw [hw]
    exact hother

/-- **The result of `localtime_r`.** Each time has exactly one normalised Gregorian date and time, and
`localtime_r` gives it if and only if the condition holds. -/
theorem localtimeR_denotes_iff (t : ℤ) :
    (∃! tm : Tm, tm.Denotes t) ∧ ∀ tm : Tm, tm.Denotes t → (localtimeR t = .ok tm ↔ tm.Holds t) := by
  obtain ⟨date, hdate⟩ := Date.exists_number_eq (t / 86400)
  have htm := Tm.denotes_ofDate hdate
  refine ⟨⟨Tm.ofDate date t, htm, fun other hother => hother.unique htm⟩, fun tm h => ?_⟩
  by_cases ht : 0 ≤ t
  · rw [localtimeR_forward_iff h ht, Tm.Holds]
    exact ⟨fun hboth => ⟨fun _ => hboth, fun hlt => absurd ht (not_le.2 hlt)⟩, fun hboth => hboth.1 ht⟩
  · rw [localtimeR_backward_iff h (not_le.1 ht), Tm.Holds]
    exact ⟨fun hboth => ⟨fun hle => absurd hle ht, fun _ => hboth⟩, fun hboth => hboth.2 (not_le.1 ht)⟩

/-- A day in September 2001, and one in June 1969 on which the day of the week is the right one. -/
theorem localtimeR_denotes_billion :
    (Tm.Denotes ⟨40, 46, 1, 9, 8, 101, 0, 251, 0⟩ 1000000000 ∧
      localtimeR 1000000000 = .ok ⟨40, 46, 1, 9, 8, 101, 0, 251, 0⟩) ∧
    Tm.Denotes ⟨0, 0, 0, 16, 5, 69, 1, 166, 0⟩ (-17193600) ∧
      localtimeR (-17193600) = .ok ⟨0, 0, 0, 16, 5, 69, 1, 166, 0⟩ := by
  have hforward : Tm.Denotes ⟨40, 46, 1, 9, 8, 101, 0, 251, 0⟩ 1000000000 := by
    constructor <;> decide +kernel
  have hbackward : Tm.Denotes ⟨0, 0, 0, 16, 5, 69, 1, 166, 0⟩ (-17193600) := by
    constructor <;> decide +kernel
  exact ⟨⟨hforward, ((localtimeR_denotes_iff _).2 _ hforward).2 (by decide +kernel)⟩,
    hbackward, ((localtimeR_denotes_iff _).2 _ hbackward).2 (by decide +kernel)⟩

/-- The first of March 2000 is given as the 30th of February, and the last day of 1969 as a Tuesday. The
time of 2^32 days after the epoch is given as the epoch. -/
theorem not_localtimeR_denotes :
    (Tm.Denotes ⟨0, 0, 0, 1, 2, 100, 3, 60, 0⟩ 951868800 ∧
      localtimeR 951868800 = .ok ⟨0, 0, 0, 30, 1, 100, 3, 60, 0⟩) ∧
    (Tm.Denotes ⟨59, 59, 23, 31, 11, 69, 3, 364, 0⟩ (-1) ∧
      localtimeR (-1) = .ok ⟨59, 59, 23, 31, 11, 69, 2, 364, 0⟩) ∧
    localtimeR 371085174374400 = localtimeR 0 := by
  refine ⟨⟨?_, by decide +kernel⟩, ⟨?_, by decide +kernel⟩, by decide +kernel⟩
  · constructor <;> decide +kernel
  · constructor <;> decide +kernel

end Dx.Libc
