import Mathlib.Data.Int.ConditionallyCompleteOrder
import Mathlib.Tactic.IntervalCases

/-!
# The Gregorian calendar

Days are numbered from the first of January 1970, in both directions, and years are those of the
proleptic calendar, with a year 0. `yearStart` and `monthStart` give the number of days before a year
and before a month of a year. A `Date` is a year, a month that is counted from zero and a day of that
month, and each day has exactly one (`Date.number_injective`, `Date.exists_number_eq`).

The day of the week is that of a cycle of seven days (`weekday`). It is also that of a sum over the
year, the month and the day of the month (`weekday_eq`).
-/

namespace Dx.Library.Gregorian

def Leap (y : ℤ) : Prop := 4 ∣ y ∧ (100 ∣ y → 400 ∣ y)
deriving Decidable

def yearLength (y : ℤ) : ℕ := if Leap y then 366 else 365

def leapYears (y : ℤ) : ℤ := y / 4 - y / 100 + y / 400

/-- The number of the first day of a year. There are 477 leap years before 1970. -/
def yearStart (y : ℤ) : ℤ := 365 * (y - 1970) + (leapYears (y - 1) - 477)

/-- The number of days of a month, from zero for January. -/
def monthLength (y : ℤ) (m : ℕ) : ℕ :=
  [31, if Leap y then 29 else 28, 31, 30, 31, 30, 31, 31, 30, 31, 30, 31].getD m 0

def monthStart (y : ℤ) : ℕ → ℕ
  | 0 => 0
  | m + 1 => monthStart y m + monthLength y m

/-- The day of the week of a day, from zero for Sunday. -/
def weekday (n : ℤ) : ℤ := (n + 4) % 7

theorem yearStart_epoch : yearStart 1970 = 0 := by decide

theorem leapYears_eq (y : ℤ) : leapYears y = leapYears (y - 1) + if Leap y then 1 else 0 := by
  rw [leapYears, leapYears]
  split_ifs with h
  · rw [Leap] at h
    omega
  · rw [Leap] at h
    omega

theorem yearStart_succ (y : ℤ) : yearStart (y + 1) = yearStart y + yearLength y := by
  have hleap := leapYears_eq y
  rw [yearStart, yearStart, yearLength, Int.add_sub_cancel]
  split_ifs at hleap ⊢ <;> omega

theorem yearLength_pos (y : ℤ) : 0 < yearLength y := by
  rw [yearLength]
  split <;> omega

theorem yearLength_le (y : ℤ) : yearLength y ≤ 366 := by
  rw [yearLength]
  split <;> omega

theorem monthLength_le (y : ℤ) (m : ℕ) : monthLength y m ≤ 31 := by
  by_cases hm : m < 12
  · by_cases hleap : Leap y
    · interval_cases m <;> simp [monthLength, hleap]
    · interval_cases m <;> simp [monthLength, hleap]
  · have hnone : monthLength y m = 0 := by
      simp only [monthLength, List.getD_eq_getElem?_getD]
      rw [List.getElem?_eq_none (by simpa using hm)]
      rfl
    omega

theorem monthLength_pos (y : ℤ) {m : ℕ} (hm : m < 12) : 0 < monthLength y m := by
  by_cases hleap : Leap y
  · interval_cases m <;> simp [monthLength, hleap]
  · interval_cases m <;> simp [monthLength, hleap]

theorem monthStart_twelve (y : ℤ) : monthStart y 12 = yearLength y := by
  simp only [monthStart, monthLength, List.getD_cons_zero, List.getD_cons_succ, yearLength]
  split_ifs <;> rfl

theorem yearStart_strictMono : StrictMono yearStart := by
  apply strictMono_int_of_lt_succ
  intro y
  have hpos := yearLength_pos y
  rw [yearStart_succ]
  omega

theorem monthStart_mono (y : ℤ) : Monotone (monthStart y) :=
  monotone_nat_of_le_succ fun m => Nat.le_add_right _ (monthLength y m)

theorem exists_month {y : ℤ} {k : ℕ} (n : ℕ) (h : k < monthStart y n) :
    ∃ m < n, monthStart y m ≤ k ∧ k < monthStart y m + monthLength y m := by
  induction n with
  | zero => exact absurd h (Nat.not_lt_zero k)
  | succ n ih =>
    by_cases hk : k < monthStart y n
    · obtain ⟨m, hm, hspan⟩ := ih hk
      exact ⟨m, hm.trans (Nat.lt_succ_self n), hspan⟩
    · exact ⟨n, Nat.lt_succ_self n, not_lt.1 hk, h⟩

theorem exists_year_of_le (y : ℤ) (k : ℕ) :
    ∃ z : ℤ, ∃ j : ℕ, yearStart z + j = yearStart y + k ∧ j < yearLength z := by
  induction k using Nat.strong_induction_on generalizing y with
  | _ k ih =>
    by_cases hk : k < yearLength y
    · exact ⟨y, k, rfl, hk⟩
    · have hpos := yearLength_pos y
      obtain ⟨z, j, hz, hj⟩ := ih (k - yearLength y) (by omega) (y + 1)
      refine ⟨z, j, ?_, hj⟩
      rw [hz, yearStart_succ]
      omega

theorem exists_year (n : ℤ) : ∃ y : ℤ, ∃ j : ℕ, yearStart y + j = n ∧ j < yearLength y := by
  -- some year starts before the day: as many years back as there are days
  have hback : ∀ k : ℕ, yearStart (1970 - k) ≤ -k := by
    intro k
    induction k with
    | zero => exact yearStart_epoch.le
    | succ k ih =>
      have hsucc := yearStart_succ (1970 - (k + 1 : ℕ))
      have hpos := yearLength_pos (1970 - (k + 1 : ℕ))
      rw [show (1970 - ((k + 1 : ℕ) : ℤ) + 1) = 1970 - k by omega] at hsucc
      omega
  have hle := hback n.natAbs
  obtain ⟨y, j, hy, hj⟩ := exists_year_of_le (1970 - n.natAbs) (n - yearStart (1970 - n.natAbs)).toNat
  refine ⟨y, j, ?_, hj⟩
  omega

/-- The day of the week, by the years, the month and the day of the month. The years are counted from
March on, such that a leap day is the last one. -/
theorem weekday_eq {y : ℤ} {m : ℕ} (d : ℤ) (hm : m < 12) :
    weekday (yearStart y + monthStart y m + (d - 1)) =
      (let z := if m < 2 then y - 1 else y
       (z + leapYears z + ([0, 3, 2, 5, 0, 3, 5, 1, 4, 6, 2, 4] : List ℤ).getD m 0 + d) % 7) := by
  have hlength : ∀ k : ℕ, monthLength y k =
      ([31, if Leap y then 29 else 28, 31, 30, 31, 30, 31, 31, 30, 31, 30, 31] : List ℕ).getD k 0 :=
    fun _ => rfl
  have hyears := leapYears_eq y
  simp only [weekday, yearStart]
  by_cases hleap : Leap y
  · rw [if_pos hleap] at hyears
    simp only [hleap, if_true] at hlength
    interval_cases m <;> simp [monthStart, hlength] <;> omega
  · rw [if_neg hleap] at hyears
    simp only [hleap, if_false] at hlength
    interval_cases m <;> simp [monthStart, hlength] <;> omega

/-- A day of the calendar. -/
@[ext]
structure Date where
  year : ℤ
  /-- The month, from zero for January. -/
  month : ℕ
  /-- The day of the month, from one. -/
  day : ℕ
  month_lt : month < 12
  day_pos : 0 < day
  day_le : day ≤ monthLength year month

namespace Date

def yearDay (date : Date) : ℕ := monthStart date.year date.month + (date.day - 1)

def number (date : Date) : ℤ := yearStart date.year + date.yearDay

theorem yearDay_lt_month (date : Date) : date.yearDay < monthStart date.year (date.month + 1) := by
  have hpos := date.day_pos
  have hle := date.day_le
  rw [yearDay, monthStart]
  omega

theorem yearDay_lt (date : Date) : date.yearDay < yearLength date.year := by
  rw [← monthStart_twelve]
  exact date.yearDay_lt_month.trans_le (monthStart_mono _ date.month_lt)

theorem yearStart_le_number (date : Date) : yearStart date.year ≤ date.number := by
  rw [number]
  omega

theorem number_lt (date : Date) : date.number < yearStart (date.year + 1) := by
  have hlt := date.yearDay_lt
  rw [number, yearStart_succ]
  omega

theorem monthStart_le_yearDay (date : Date) : monthStart date.year date.month ≤ date.yearDay :=
  Nat.le_add_right _ _

/-- **A day has one date**: two dates of the same day are in the same year, since the years follow one
another, and then in the same month. -/
theorem number_injective {a b : Date} (h : a.number = b.number) : a = b := by
  have hyear : a.year = b.year := by
    have hab : a.year < b.year + 1 :=
      yearStart_strictMono.lt_iff_lt.1 (a.yearStart_le_number.trans_lt (h ▸ b.number_lt))
    have hba : b.year < a.year + 1 :=
      yearStart_strictMono.lt_iff_lt.1 (b.yearStart_le_number.trans_lt (h ▸ a.number_lt))
    omega
  have hday : a.yearDay = b.yearDay := by
    rw [number, number, hyear] at h
    omega
  have hmonth : a.month = b.month := by
    have hab := a.monthStart_le_yearDay.trans_lt (hday ▸ b.yearDay_lt_month)
    have hba := b.monthStart_le_yearDay.trans_lt (hday ▸ a.yearDay_lt_month)
    rw [hyear] at hab hba
    have hlt := (monthStart_mono b.year).reflect_lt hab
    have hgt := (monthStart_mono b.year).reflect_lt hba
    omega
  have hapos := a.day_pos
  have hbpos := b.day_pos
  rw [yearDay, yearDay, hyear, hmonth] at hday
  exact Date.ext hyear hmonth (by omega)

/-- **Each day has a date.** -/
theorem exists_number_eq (n : ℤ) : ∃ date : Date, date.number = n := by
  obtain ⟨y, j, hy, hj⟩ := exists_year n
  rw [← monthStart_twelve] at hj
  obtain ⟨m, hm, hle, hlt⟩ := exists_month 12 hj
  refine ⟨⟨y, m, j - monthStart y m + 1, hm, Nat.succ_pos _, by omega⟩, ?_⟩
  rw [number, yearDay]
  simp only
  omega

end Date

end Dx.Library.Gregorian
