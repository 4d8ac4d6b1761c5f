import Mathlib.Tactic.Linarith

/-!
# The month loop of the data downloader

`download_klines` and `download_aggtrades` walk from `start_date` to `end_date` one month at a
time with `datetime.replace`, which keeps the day and the time of day of `start_date`. A
naive `datetime` is a structure that carries its own validity, and `replace` fails with
`ValueError` exactly where CPython's does. From a start day every month has, the loop requests
each month once, in order, up to the last one whose date at that day and time is not past the
end.
-/

namespace HftTradingSystem

namespace Download

/-- Leap years of the proleptic Gregorian calendar. -/
def isLeapYear (year : ℕ) : Bool :=
  year % 4 = 0 && (year % 100 != 0 || year % 400 = 0)

/-- Days in a month. -/
def daysInMonth (year month : ℕ) : ℕ :=
  if month = 2 then (if isLeapYear year then 29 else 28)
  else if month = 4 ∨ month = 6 ∨ month = 9 ∨ month = 11 then 30
  else 31

/-- A naive `datetime`: the date, and the time of day in microseconds. -/
structure DateTime where
  year : ℕ
  month : ℕ
  day : ℕ
  /-- Microseconds since midnight. -/
  time : ℕ
  valid : 1 ≤ year ∧ year ≤ 9999 ∧ 1 ≤ month ∧ month ≤ 12 ∧ 1 ≤ day ∧
    day ≤ daysInMonth year month ∧ time < 86400000000
  deriving DecidableEq

namespace DateTime

/-- `a <= b`: the fields compared in order, as `datetime` compares. -/
def le (a b : DateTime) : Prop :=
  a.year < b.year ∨ a.year = b.year ∧ (a.month < b.month ∨ a.month = b.month ∧
    (a.day < b.day ∨ a.day = b.day ∧ a.time ≤ b.time))

instance (a b : DateTime) : Decidable (a.le b) :=
  inferInstanceAs (Decidable (_ ∨ _))

/-- `replace(year=year, month=month)`. -/
def replace (d : DateTime) (year month : ℕ) : Except String DateTime :=
  if hyear : 1 ≤ year ∧ year ≤ 9999 then
    if hmonth : 1 ≤ month ∧ month ≤ 12 then
      if hday : d.day ≤ daysInMonth year month then
        .ok ⟨year, month, d.day, d.time, hyear.1, hyear.2, hmonth.1, hmonth.2, d.valid.2.2.2.2.1,
          hday, d.valid.2.2.2.2.2.2⟩
      else .error ("day is out of range for month")
    else .error ("month must be in 1..12")
  else .error ("year " ++ toString year ++ " is out of range")

theorem replace_eq_ok {d next : DateTime} {year month : ℕ}
    (hreplace : d.replace year month = .ok next) :
    next.year = year ∧ next.month = month ∧ next.day = d.day ∧ next.time = d.time := by
  unfold replace at hreplace
  split_ifs at hreplace
  cases hreplace
  exact ⟨rfl, rfl, rfl, rfl⟩

theorem replace_of_valid (d : DateTime) {year month : ℕ} (hyear : 1 ≤ year ∧ year ≤ 9999)
    (hmonth : 1 ≤ month ∧ month ≤ 12) (hday : d.day ≤ daysInMonth year month) :
    ∃ next, d.replace year month = .ok next :=
  ⟨_, by rw [replace, dif_pos hyear, dif_pos hmonth, dif_pos hday]⟩

/-- Months since the start of year `0`. -/
def monthIndex (d : DateTime) : ℕ := d.year * 12 + d.month

/-- `strftime("%Y-%m")`, as the pair it prints. -/
def yearMonth (d : DateTime) : ℕ × ℕ := (d.year, d.month)

end DateTime

/-- The step at the end of the loop body: `replace(year=year + 1, month=1)` in December,
`replace(month=month + 1)` otherwise. -/
def nextMonth (d : DateTime) : Except String DateTime :=
  if d.month = 12 then d.replace (d.year + 1) 1 else d.replace d.year (d.month + 1)

theorem monthIndex_nextMonth {d next : DateTime} (hnext : nextMonth d = .ok next) :
    next.monthIndex = d.monthIndex + 1 := by
  unfold nextMonth at hnext
  have hmonth := d.valid.2.2.2.1
  split at hnext <;>
    (obtain ⟨hyear, hmonth', -, -⟩ := DateTime.replace_eq_ok hnext
     simp only [DateTime.monthIndex, hyear, hmonth']
     omega)

theorem nextMonth_day_time {d next : DateTime} (hnext : nextMonth d = .ok next) :
    next.day = d.day ∧ next.time = d.time := by
  unfold nextMonth at hnext
  split at hnext <;> exact (DateTime.replace_eq_ok hnext).2.2

theorem monthIndex_le {a b : DateTime} (hle : a.le b) : a.monthIndex ≤ b.monthIndex := by
  unfold DateTime.le at hle
  have ha := a.valid
  have hb := b.valid
  simp only [DateTime.monthIndex]
  omega

/-- The loop of `download_klines` and `download_aggtrades`: the year-months whose archive it
requests, in order, and the `ValueError` that ends it, if any. -/
def monthLoop (endDate current : DateTime) : List (ℕ × ℕ) × Option String :=
  if _hle : current.le endDate then
    match _hnext : nextMonth current with
    | .ok next =>
        ((current.yearMonth :: (monthLoop endDate next).1), (monthLoop endDate next).2)
    | .error e => ([current.yearMonth], some e)
  else ([], none)
termination_by endDate.monthIndex + 1 - current.monthIndex
decreasing_by
  all_goals
    have := monthIndex_nextMonth _hnext
    have := monthIndex_le _hle
    omega

theorem monthLoop_of_next {endDate current next : DateTime} (hle : current.le endDate)
    (hnext : nextMonth current = .ok next) :
    monthLoop endDate current =
      (current.yearMonth :: (monthLoop endDate next).1, (monthLoop endDate next).2) := by
  rw [monthLoop, dif_pos hle]
  split <;> simp_all

theorem monthLoop_of_error {endDate current : DateTime} {e : String} (hle : current.le endDate)
    (hnext : nextMonth current = .error e) :
    monthLoop endDate current = ([current.yearMonth], some e) := by
  rw [monthLoop, dif_pos hle]
  split <;> simp_all

theorem monthLoop_of_not_le {endDate current : DateTime} (hgt : ¬ current.le endDate) :
    monthLoop endDate current = ([], none) := by
  rw [monthLoop, dif_neg hgt]

/-- `download_klines` and `download_aggtrades`: the months whose CSV came down, of the months
requested, when no `ValueError` escapes. `available` says which monthly archives download and
extract; the file names, built from the year-month, are not modelled. -/
def downloadMonthly (available : ℕ × ℕ → Bool) (startDate endDate : DateTime) :
    Except String (List (ℕ × ℕ)) :=
  match monthLoop endDate startDate with
  | (requested, none) => .ok (requested.filter available)
  | (_, some e) => .error e

/-- `download_klines`. -/
def downloadKlines (available : ℕ × ℕ → Bool) (startDate endDate : DateTime) :
    Except String (List (ℕ × ℕ)) :=
  downloadMonthly available startDate endDate

/-- `download_aggtrades`. -/
def downloadAggtrades (available : ℕ × ℕ → Bool) (startDate endDate : DateTime) :
    Except String (List (ℕ × ℕ)) :=
  downloadMonthly available startDate endDate

/-- `2024-03-31 12:00`: 730 days before `2026-03-31 12:00`, the range `main` downloads on that
day. -/
def springStart : DateTime := ⟨2024, 3, 31, 43200000000, by decide⟩

/-- `2026-03-31 12:00`. -/
def springEnd : DateTime := ⟨2026, 3, 31, 43200000000, by decide⟩

/-- `2024-01-15 10:00`. -/
def winterStart : DateTime := ⟨2024, 1, 15, 36000000000, by decide⟩

/-- `2024-03-15 09:00`. -/
def winterEnd : DateTime := ⟨2024, 3, 15, 32400000000, by decide⟩

/-- Run on 2026-03-31, the loop requests March 2024 and then raises, since April has no
31st; from 10:00 on the 15th to 09:00 on the 15th two months later, it skips the last month. -/
theorem monthLoop_keeps_start_day (available : ℕ × ℕ → Bool) :
    monthLoop springEnd springStart = ([(2024, 3)], some "day is out of range for month") ∧
      downloadKlines available springStart springEnd = .error "day is out of range for month" ∧
      monthLoop winterEnd winterStart = ([(2024, 1), (2024, 2)], none) := by
  have hspring : monthLoop springEnd springStart =
      ([(2024, 3)], some "day is out of range for month") :=
    monthLoop_of_error (by decide) rfl
  refine ⟨hspring, by simp [downloadKlines, downloadMonthly, hspring], ?_⟩
  have hjan : nextMonth winterStart = .ok ⟨2024, 2, 15, 36000000000, by decide⟩ := rfl
  have hfeb : nextMonth ⟨2024, 2, 15, 36000000000, by decide⟩ =
      .ok ⟨2024, 3, 15, 36000000000, by decide⟩ := rfl
  have hlast : ¬ DateTime.le ⟨2024, 3, 15, 36000000000, by decide⟩ winterEnd := by decide
  rw [monthLoop_of_next (by decide : winterStart.le winterEnd) hjan,
    monthLoop_of_next (by decide) hfeb, monthLoop_of_not_le hlast]
  rfl

/-! ## Start days every month has -/

theorem daysInMonth_ge (year month : ℕ) : 28 ≤ daysInMonth year month := by
  unfold daysInMonth
  split_ifs <;> omega

namespace DateTime

/-- `a` falls no later in its month than `b` does in its own: the day, then the time of day. -/
def dayTimeLe (a b : DateTime) : Prop :=
  a.day < b.day ∨ a.day = b.day ∧ a.time ≤ b.time

instance (a b : DateTime) : Decidable (a.dayTimeLe b) :=
  inferInstanceAs (Decidable (_ ∨ _))

theorem le_iff_monthIndex (a b : DateTime) :
    a.le b ↔ a.monthIndex < b.monthIndex ∨ a.monthIndex = b.monthIndex ∧ a.dayTimeLe b := by
  have ha := a.valid.2.2
  have hb := b.valid.2.2
  unfold le dayTimeLe monthIndex
  omega

end DateTime

/-- The year-month of the month of index `index`. -/
def monthOfIndex (index : ℕ) : ℕ × ℕ := ((index - 1) / 12, (index - 1) % 12 + 1)

@[simp]
theorem monthOfIndex_monthIndex (d : DateTime) : monthOfIndex d.monthIndex = d.yearMonth := by
  have hmonth := d.valid.2.2.1
  have hmonth' := d.valid.2.2.2.1
  simp only [monthOfIndex, DateTime.monthIndex, DateTime.yearMonth, Prod.mk.injEq]
  omega

/-- How many months the loop requests from `current` on before it passes `endDate`, when
every month has the day of `current`. -/
def monthCount (endDate current : DateTime) : ℕ :=
  (if current.dayTimeLe endDate then endDate.monthIndex + 1 else endDate.monthIndex) -
    current.monthIndex

theorem le_iff_monthCount_pos (endDate current : DateTime) :
    current.le endDate ↔ 0 < monthCount endDate current := by
  rw [DateTime.le_iff_monthIndex, monthCount]
  by_cases hday : current.dayTimeLe endDate <;>
    simp only [hday, if_true, if_false, and_true, and_false, or_false] <;> omega

theorem nextMonth_of_day_le {d : DateTime} (hday : d.day ≤ 28)
    (hlast : d.monthIndex < 9999 * 12 + 12) : ∃ next, nextMonth d = .ok next := by
  have hyear := d.valid.1
  have hmonth := d.valid.2.2.2.1
  have hroom : ∀ year month, d.day ≤ daysInMonth year month :=
    fun _ _ => hday.trans (daysInMonth_ge _ _)
  unfold DateTime.monthIndex at hlast
  unfold nextMonth
  split <;> exact d.replace_of_valid ⟨by omega, by omega⟩ ⟨by omega, by omega⟩ (hroom _ _)

theorem monthCount_nextMonth {endDate current next : DateTime}
    (hnext : nextMonth current = .ok next) :
    monthCount endDate next = monthCount endDate current - 1 := by
  obtain ⟨hday, htime⟩ := nextMonth_day_time hnext
  have hsame : next.dayTimeLe endDate ↔ current.dayTimeLe endDate := by
    simp only [DateTime.dayTimeLe, hday, htime]
  simp only [monthCount, hsame, monthIndex_nextMonth hnext]
  omega

/-- The loop from a start day every month has: the `count` months from the start's on, in
order, and no error, as long as the end is before December 9999. -/
theorem monthLoop_of_monthCount {endDate : DateTime}
    (hend : endDate.monthIndex < 9999 * 12 + 12) (count : ℕ) :
    ∀ current : DateTime, current.day ≤ 28 → monthCount endDate current = count →
      monthLoop endDate current =
        ((List.range' current.monthIndex count).map monthOfIndex, none) := by
  induction count with
  | zero =>
      intro current _ hcount
      rw [monthLoop_of_not_le (by rw [le_iff_monthCount_pos]; omega)]
      rfl
  | succ count ih =>
      intro current hday hcount
      have hle : current.le endDate := (le_iff_monthCount_pos endDate current).2 (by omega)
      obtain ⟨next, hnext⟩ := nextMonth_of_day_le hday ((monthIndex_le hle).trans_lt hend)
      rw [monthLoop_of_next hle hnext,
        ih next ((nextMonth_day_time hnext).1 ▸ hday) (by rw [monthCount_nextMonth hnext]; omega),
        List.range'_succ, List.map_cons, monthOfIndex_monthIndex, monthIndex_nextMonth hnext]

/-- From a start day every month has, `download_klines` and `download_aggtrades` request every
month from the start's year-month on, each once and in order, through the end's, or through
the month before when the start's day and time of day fall later in the month than the end's;
no `ValueError` is raised as long as the end is before December 9999. -/
theorem downloadMonthly_of_day_le (available : ℕ × ℕ → Bool) {startDate endDate : DateTime}
    (hday : startDate.day ≤ 28) (hend : endDate.monthIndex < 9999 * 12 + 12) :
    downloadMonthly available startDate endDate =
      .ok (((List.range' startDate.monthIndex (monthCount endDate startDate)).map
        monthOfIndex).filter available) := by
  rw [downloadMonthly, monthLoop_of_monthCount hend _ startDate hday rfl]

theorem downloadMonthly_of_day_le_winter :
    winterStart.day ≤ 28 ∧ winterEnd.monthIndex < 9999 * 12 + 12 ∧
      downloadMonthly (fun _ => true) winterStart winterEnd =
        .ok (((List.range' winterStart.monthIndex (monthCount winterEnd winterStart)).map
          monthOfIndex).filter fun _ => true) :=
  ⟨by decide, by decide, downloadMonthly_of_day_le _ (by decide) (by decide)⟩

end Download

end HftTradingSystem
