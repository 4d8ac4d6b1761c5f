import HftTradingSystem.Download.Months

/-!
# Date arithmetic of `datetime`

`main` takes its start date as `end_date - timedelta(days=args.years * 365)`. CPython computes
this in `_datetimemodule.c`: it subtracts the days from the day of the month and puts the date
back in range with `normalize_y_m_d`, which moves one month either way when the day is one out
of range and goes through the proleptic Gregorian ordinal (`ymd_to_ord`, `ord_to_ymd`)
otherwise. `ord_to_ymd` splits the ordinal into 400-, 100-, 4- and 1-year cycles and estimates
the month as `(n + 50) >> 5`, which is the month or the one after it.

The two ordinal functions are inverse between the ordinals from 1 and the valid dates
(`ordToYmd_ymdToOrd`, `ymdToOrd_ordToYmd`), so a `datetime` is its ordinal and its time of day,
and subtracting `days` days gives the `datetime` whose ordinal is `days` less, at the same time
of day, or raises `OverflowError` where no date of years 1 to 9999 has that ordinal
(`subDays_eq_ok_iff`, `subDays_eq_error_iff`).
-/

namespace HftTradingSystem

namespace Download

/-- `_days_before_month[month]`: the days of a common year before the first of `month`. -/
def daysBeforeMonthTable : ℕ → ℕ
  | 1 => 0 | 2 => 31 | 3 => 59 | 4 => 90 | 5 => 120 | 6 => 151 | 7 => 181 | 8 => 212
  | 9 => 243 | 10 => 273 | 11 => 304 | 12 => 334 | _ => 0

/-- `days_before_month(year, month)`. -/
def daysBeforeMonth (year month : ℕ) : ℕ :=
  daysBeforeMonthTable month + if 2 < month ∧ isLeapYear year then 1 else 0

/-- `days_before_year(year)`: the days before the first of January of `year`. -/
def daysBeforeYear (year : ℕ) : ℕ :=
  let y := year - 1
  y * 365 + y / 4 - y / 100 + y / 400

/-- `ymd_to_ord(year, month, day)`: the proleptic Gregorian ordinal, 1 for 0001-01-01. -/
def ymdToOrd (year month day : ℕ) : ℕ :=
  daysBeforeYear year + daysBeforeMonth year month + day

/-- `MAXORDINAL`, the ordinal of 9999-12-31. -/
def maxOrdinal : ℕ := 3652059

/-- `ord_to_ymd(ordinal)`. -/
def ordToYmd (ordinal : ℕ) : ℕ × ℕ × ℕ :=
  let n := ordinal - 1
  let n400 := n / 146097
  let n := n % 146097
  let n100 := n / 36524
  let n := n % 36524
  let n4 := n / 1461
  let n := n % 1461
  let n1 := n / 365
  let n := n % 365
  let year := n400 * 400 + 1 + n100 * 100 + n4 * 4 + n1
  if n1 = 4 ∨ n100 = 4 then (year - 1, 12, 31)
  else
    let leapyear := n1 = 3 ∧ (n4 ≠ 24 ∨ n100 = 3)
    let month := (n + 50) >>> 5
    let preceding := daysBeforeMonthTable month + if 2 < month ∧ leapyear then 1 else 0
    if n < preceding then
      (year, month - 1, n - (preceding - daysInMonth year (month - 1)) + 1)
    else (year, month, n - preceding + 1)

/-! ## The month table -/

section Table

variable {year month : ℕ}

/-- Where each month starts, by day of the year from 0, and how long it is, for the months
from 1 to 12 of a common and a leap year; the estimate `ord_to_ymd` makes lies in `month` or
the month after it. -/
theorem monthTable (year : ℕ) : ∀ month < 13, 1 ≤ month →
    (2 ≤ month → daysBeforeMonth year (month - 1) + daysInMonth year (month - 1) =
        daysBeforeMonth year month ∧ daysBeforeMonth year (month - 1) + 50 ≤ 32 * month) ∧
      (month < 12 → 32 * month ≤ daysBeforeMonth year month + daysInMonth year month + 18) ∧
      (∀ later < 13, month < later →
        daysBeforeMonth year month + daysInMonth year month ≤ daysBeforeMonth year later) ∧
      daysBeforeMonth year month + daysInMonth year month ≤
        365 + if isLeapYear year then 1 else 0 := by
  have key : ∀ leap : Bool, ∀ month < 13, 1 ≤ month →
      let start := fun m => daysBeforeMonthTable m + if 2 < m ∧ leap then 1 else 0
      let length := fun m => if m = 2 then (if leap then 29 else 28)
        else if m = 4 ∨ m = 6 ∨ m = 9 ∨ m = 11 then 30 else 31
      (2 ≤ month → start (month - 1) + length (month - 1) = start month ∧
          start (month - 1) + 50 ≤ 32 * month) ∧
        (month < 12 → 32 * month ≤ start month + length month + 18) ∧
        (∀ later < 13, month < later → start month + length month ≤ start later) ∧
        start month + length month ≤ 365 + if leap then 1 else 0 := by
    decide
  exact key (isLeapYear year)

@[simp]
theorem daysBeforeMonth_one : daysBeforeMonth year 1 = 0 := rfl

theorem daysBeforeMonth_twelve :
    daysBeforeMonth year 12 = 334 + if isLeapYear year then 1 else 0 := by
  simp only [daysBeforeMonth, daysBeforeMonthTable, Nat.reduceLT, true_and]

theorem daysInMonth_twelve : daysInMonth year 12 = 31 := rfl

theorem daysBeforeMonth_pred (hmonth : 2 ≤ month ∧ month ≤ 12) :
    daysBeforeMonth year (month - 1) + daysInMonth year (month - 1) =
      daysBeforeMonth year month :=
  ((monthTable year month (by omega) (by omega)).1 hmonth.1).1

/-- A day of the year lies in one month only. -/
theorem month_unique {month' day : ℕ} (hmonth : 1 ≤ month ∧ month ≤ 12)
    (hmonth' : 1 ≤ month' ∧ month' ≤ 12)
    (hday : daysBeforeMonth year month ≤ day ∧
      day < daysBeforeMonth year month + daysInMonth year month)
    (hday' : daysBeforeMonth year month' ≤ day ∧
      day < daysBeforeMonth year month' + daysInMonth year month') : month = month' := by
  have hlt := (monthTable year month (by omega) hmonth.1).2.2.1 month' (by omega)
  have hgt := (monthTable year month' (by omega) hmonth'.1).2.2.1 month (by omega)
  by_contra hne
  rcases Nat.lt_or_gt_of_ne hne with h | h
  · exact absurd (hlt h) (by omega)
  · exact absurd (hgt h) (by omega)

/-- A day of the year after its first 365 is December 31 of a leap year. -/
theorem lastDay_of_le {day : ℕ} (hmonth : 1 ≤ month ∧ month ≤ 12)
    (hday : 1 ≤ day ∧ day ≤ daysInMonth year month)
    (hlate : 365 ≤ daysBeforeMonth year month + day - 1) :
    isLeapYear year ∧ month = 12 ∧ day = 31 := by
  obtain ⟨-, -, hlater, hlast⟩ := monthTable year month (by omega) hmonth.1
  have hleap : isLeapYear year := by
    by_contra h
    rw [if_neg h] at hlast
    omega
  rw [if_pos hleap] at hlast
  have h12 : month = 12 := by
    by_contra h
    have := hlater 12 (by omega) (by omega)
    rw [daysBeforeMonth_twelve, if_pos hleap] at this
    omega
  subst h12
  rw [daysBeforeMonth_twelve, if_pos hleap, daysInMonth_twelve] at *
  exact ⟨hleap, rfl, by omega⟩

/-- The end of `ord_to_ymd`, for day `day` of `year` counted from 0, with `leapyear` saying
whether `year` is a leap year: the estimate `(day + 50) >> 5`, moved back a month when it
starts after `day`, is the month that holds `day`. -/
theorem monthDay_eq {leapyear : Prop} [Decidable leapyear] {day : ℕ}
    (hleap : leapyear ↔ isLeapYear year) (hday : day < 365 + if isLeapYear year then 1 else 0) :
    let estimate := (day + 50) >>> 5
    let preceding := daysBeforeMonthTable estimate + if 2 < estimate ∧ leapyear then 1 else 0
    ∃ month, (if day < preceding then
        (year, estimate - 1, day - (preceding - daysInMonth year (estimate - 1)) + 1)
      else (year, estimate, day - preceding + 1)) =
        (year, month, day - daysBeforeMonth year month + 1) ∧
      1 ≤ month ∧ month ≤ 12 ∧ daysBeforeMonth year month ≤ day ∧
      day < daysBeforeMonth year month + daysInMonth year month := by
  intro estimate preceding
  have hpreceding : preceding = daysBeforeMonth year estimate := by
    simp only [preceding, daysBeforeMonth, hleap]
  have hestimate : estimate = (day + 50) / 32 := Nat.shiftRight_eq_div_pow _ _
  have hleap1 : (if isLeapYear year then 1 else 0) ≤ 1 := by split <;> omega
  obtain ⟨hprev, hnext, -, hlast⟩ := monthTable year estimate (by omega) (by omega)
  rw [hpreceding]
  split_ifs with hlt
  · have h2 : 2 ≤ estimate := by
      by_contra h
      rw [show estimate = 1 by omega, daysBeforeMonth_one] at hlt
      omega
    obtain ⟨hsum, hstart⟩ := hprev h2
    exact ⟨estimate - 1, by simp only [Prod.mk.injEq, true_and]; omega, by omega, by omega,
      by omega, by omega⟩
  · refine ⟨estimate, rfl, by omega, by omega, by omega, ?_⟩
    rcases Nat.lt_or_ge estimate 12 with h | h
    · have := hnext h
      omega
    · rw [show estimate = 12 by omega, daysBeforeMonth_twelve, daysInMonth_twelve]
      omega

end Table

/-! ## The cycles of the calendar -/

section Cycles

variable {a b c e r year : ℕ}

/-- Every count of years is `400 a + 100 b + 4 c + e`, with `b < 4`, `c < 25` and `e < 4`. -/
theorem exists_cycles_of_years (years : ℕ) :
    ∃ a b c e, b < 4 ∧ c < 25 ∧ e < 4 ∧ years = 400 * a + 100 * b + 4 * c + e :=
  ⟨years / 400, years % 400 / 100, years % 100 / 4, years % 4, by omega, by omega, by omega,
    by omega⟩

/-- The year after `400 a + 100 b + 4 c + e` years is a leap year when it ends a 4-year cycle
that does not end a century, or ends a 400-year cycle. -/
theorem isLeapYear_cycle (hyear : year = 400 * a + 100 * b + 4 * c + e + 1) (hb : b < 4)
    (hc : c < 25) (he : e < 4) : isLeapYear year ↔ e = 3 ∧ (c ≠ 24 ∨ b = 3) := by
  subst hyear
  simp only [isLeapYear, Bool.and_eq_true, Bool.or_eq_true, decide_eq_true_eq, bne_iff_ne,
    ne_eq]
  omega

theorem daysBeforeYear_cycle (hyear : year = 400 * a + 100 * b + 4 * c + e + 1) (hb : b < 4)
    (hc : c < 25) (he : e < 4) :
    daysBeforeYear year = 146097 * a + 36524 * b + 1461 * c + 365 * e := by
  subst hyear
  simp only [daysBeforeYear, Nat.add_sub_cancel]
  rw [Nat.div_eq_of_lt_le (k := 100 * a + 25 * b + c) (by omega) (by omega),
    Nat.div_eq_of_lt_le (k := 4 * a + b) (by omega) (by omega),
    Nat.div_eq_of_lt_le (k := a) (by omega) (by omega)]
  omega

theorem ymdToOrd_cycle {month day : ℕ} (hyear : year = 400 * a + 100 * b + 4 * c + e + 1)
    (hb : b < 4) (hc : c < 25) (he : e < 4) :
    ymdToOrd year month day =
      146097 * a + 36524 * b + 1461 * c + 365 * e + daysBeforeMonth year month + day := by
  rw [ymdToOrd, daysBeforeYear_cycle hyear hb hc he]

/-- December 31 of the last year of a 4-year cycle that is a leap year is the last day of the
cycle. -/
theorem ymdToOrd_dec31 (hyear : year = 400 * a + 100 * b + 4 * c + 3 + 1) (hb : b < 4)
    (hc : c < 25) (hleap : c ≠ 24 ∨ b = 3) :
    ymdToOrd year 12 31 = 146097 * a + 36524 * b + 1461 * c + 1461 := by
  rw [ymdToOrd_cycle hyear hb hc (by omega), daysBeforeMonth_twelve,
    if_pos ((isLeapYear_cycle hyear hb hc (by omega)).2 ⟨rfl, hleap⟩)]

/-- A year is 365 days long, and 366 in a leap year. -/
theorem daysBeforeYear_succ (hyear : 1 ≤ year) :
    daysBeforeYear (year + 1) = daysBeforeYear year + 365 + if isLeapYear year then 1 else 0 := by
  obtain ⟨a, b, c, e, hb, hc, he, hsplit⟩ := exists_cycles_of_years (year - 1)
  have hyear' : year = 400 * a + 100 * b + 4 * c + e + 1 := by omega
  have hleap : (if isLeapYear year then 1 else 0) = if e = 3 ∧ (c ≠ 24 ∨ b = 3) then 1 else 0 := by
    simp only [isLeapYear_cycle hyear' hb hc he]
  rw [daysBeforeYear_cycle hyear' hb hc he, hleap]
  have hnext : e < 3 ∨ e = 3 ∧ c < 24 ∨ e = 3 ∧ c = 24 ∧ b < 3 ∨ e = 3 ∧ c = 24 ∧ b = 3 := by
    omega
  rcases hnext with he3 | ⟨rfl, hc24⟩ | ⟨rfl, rfl, hb3⟩ | ⟨rfl, rfl, rfl⟩
  · rw [@daysBeforeYear_cycle a b c (e + 1) (year + 1) (by omega) hb hc (by omega),
      if_neg (by omega)]
    omega
  · rw [@daysBeforeYear_cycle a b (c + 1) 0 (year + 1) (by omega) hb (by omega) (by omega),
      if_pos (by omega)]
    omega
  · rw [@daysBeforeYear_cycle a (b + 1) 0 0 (year + 1) (by omega) (by omega) (by omega)
      (by omega), if_neg (by omega)]
    omega
  · rw [@daysBeforeYear_cycle (a + 1) 0 0 0 (year + 1) (by omega) (by omega) (by omega)
      (by omega), if_pos (by omega)]
    omega

theorem daysBeforeYear_mono {year' : ℕ} (hle : year ≤ year') :
    daysBeforeYear year ≤ daysBeforeYear year' := by
  induction hle with
  | refl => exact le_rfl
  | @step later _ ih =>
      rcases Nat.eq_zero_or_pos later with rfl | hlater
      · exact ih.trans le_rfl
      · rw [daysBeforeYear_succ hlater]
        omega

/-- The split of `ordinal - 1` that `ord_to_ymd` makes: `a` 400-year cycles, `b` 100-year
cycles, `c` 4-year cycles, `e` years and `r` days, each part less than the next cycle. -/
structure Cycles (ordinal a b c e r : ℕ) : Prop where
  sum : ordinal - 1 = 146097 * a + 36524 * b + 1461 * c + 365 * e + r
  days : r < 365
  years : 365 * e + r < 1461
  fours : 1461 * c + 365 * e + r < 36524
  centuries : 36524 * b + 1461 * c + 365 * e + r < 146097

theorem Cycles.exists (ordinal : ℕ) : ∃ a b c e r, Cycles ordinal a b c e r :=
  ⟨_, _, _, _, _, ⟨(by omega : ordinal - 1 = 146097 * ((ordinal - 1) / 146097) +
      36524 * ((ordinal - 1) % 146097 / 36524) + 1461 * ((ordinal - 1) % 146097 % 36524 / 1461) +
      365 * ((ordinal - 1) % 146097 % 36524 % 1461 / 365) +
      (ordinal - 1) % 146097 % 36524 % 1461 % 365), by omega, by omega, by omega, by omega⟩⟩

theorem Cycles.of_lt {ordinal : ℕ}
    (hsum : ordinal - 1 = 146097 * a + 36524 * b + 1461 * c + 365 * e + r) (hb : b < 4)
    (hc : c < 25) (he : e < 4) (hr : r < 365) : Cycles ordinal a b c e r :=
  ⟨hsum, hr, by omega, by omega, by omega⟩

/-- Day 366 of the last year of a 4-year cycle completes the cycle. -/
theorem Cycles.of_fourYears {ordinal : ℕ}
    (hsum : ordinal - 1 = 146097 * a + 36524 * b + 1461 * c + 365 * 3 + 365) (hb : b < 4)
    (hc : c < 24) : Cycles ordinal a b c 4 0 :=
  ⟨by omega, by omega, by omega, by omega, by omega⟩

/-- Day 366 of the last year of a 400-year cycle completes the cycle. -/
theorem Cycles.of_fourCenturies {ordinal : ℕ}
    (hsum : ordinal - 1 = 146097 * a + 36524 * 3 + 1461 * 24 + 365 * 3 + 365) :
    Cycles ordinal a 4 0 0 0 :=
  ⟨by omega, by omega, by omega, by omega, by omega⟩

/-- The quotients and the remainder `ord_to_ymd` computes are the parts of the split. -/
theorem Cycles.parts {ordinal : ℕ} (h : Cycles ordinal a b c e r) :
    (ordinal - 1) / 146097 = a ∧ (ordinal - 1) % 146097 / 36524 = b ∧
      (ordinal - 1) % 146097 % 36524 / 1461 = c ∧
      (ordinal - 1) % 146097 % 36524 % 1461 / 365 = e ∧
      (ordinal - 1) % 146097 % 36524 % 1461 % 365 = r := by
  obtain ⟨hsum, hr, he, hc, hb⟩ := h
  have h400 : (ordinal - 1) % 146097 = 36524 * b + 1461 * c + 365 * e + r := by omega
  have h100 : (36524 * b + 1461 * c + 365 * e + r) % 36524 = 1461 * c + 365 * e + r := by
    omega
  have h4 : (1461 * c + 365 * e + r) % 1461 = 365 * e + r := by omega
  rw [h400, h100, h4]
  omega

/-- When a 4-year or a 400-year cycle is complete, `ord_to_ymd` gives December 31 of the last
year of the cycles. -/
theorem ordToYmd_of_end {ordinal : ℕ} (h : Cycles ordinal a b c e r) (hend : e = 4 ∨ b = 4) :
    ordToYmd ordinal = (400 * a + 100 * b + 4 * c + e, 12, 31) := by
  obtain ⟨h400, h100, h4, h1, -⟩ := h.parts
  simp only [ordToYmd, h400, h100, h4, h1, if_pos hend, Prod.mk.injEq, and_true]
  omega

/-- The date `ord_to_ymd` gives at the end of a cycle has the ordinal it was given. -/
theorem Cycles.ymdToOrd_of_end {ordinal : ℕ} (h : Cycles ordinal a b c e r)
    (hend : e = 4 ∨ b = 4) : ymdToOrd (400 * a + 100 * b + 4 * c + e) 12 31 = ordinal := by
  obtain ⟨hsum, hr, he, hc, hb⟩ := h
  obtain ⟨a', b', c', hb', hc', hleap, hyear, hordinal⟩ : ∃ a' b' c', b' < 4 ∧ c' < 25 ∧
      (c' ≠ 24 ∨ b' = 3) ∧ 400 * a + 100 * b + 4 * c + e = 400 * a' + 100 * b' + 4 * c' + 3 + 1 ∧
      ordinal = 146097 * a' + 36524 * b' + 1461 * c' + 1461 := by
    rcases hend with rfl | rfl
    · exact ⟨a, b, c, by omega, by omega, by omega, by omega, by omega⟩
    · exact ⟨a, 3, 24, by omega, by omega, by omega, by omega, by omega⟩
  rw [ymdToOrd_dec31 hyear hb' hc' hleap, hordinal]

/-- Otherwise `ord_to_ymd` gives the year after the cycles, and the month and day of day `r`
of that year. -/
theorem ordToYmd_of_cycles {ordinal : ℕ} (h : Cycles ordinal a b c e r)
    (hyear : year = 400 * a + 100 * b + 4 * c + e + 1) (hb : b < 4) (he : e < 4) :
    ∃ month, ordToYmd ordinal = (year, month, r - daysBeforeMonth year month + 1) ∧
      1 ≤ month ∧ month ≤ 12 ∧ daysBeforeMonth year month ≤ r ∧
      r < daysBeforeMonth year month + daysInMonth year month := by
  obtain ⟨h400, h100, h4, h1, hr⟩ := h.parts
  have hyear' : a * 400 + 1 + b * 100 + c * 4 + e = year := by omega
  simp only [ordToYmd, h400, h100, h4, h1, hr, hyear', if_neg (show ¬ (e = 4 ∨ b = 4) by omega)]
  exact monthDay_eq (isLeapYear_cycle hyear hb (by have := h.fours; omega) he).symm
    (by have := h.days; split <;> omega)

end Cycles

/-! ## The ordinal of a date -/

section Ordinal

variable {year month day ordinal : ℕ}

/-- `ord_to_ymd` undoes `ymd_to_ord` on every valid date. -/
theorem ordToYmd_ymdToOrd (hyear : 1 ≤ year) (hmonth : 1 ≤ month ∧ month ≤ 12)
    (hday : 1 ≤ day ∧ day ≤ daysInMonth year month) :
    ordToYmd (ymdToOrd year month day) = (year, month, day) := by
  obtain ⟨a, b, c, e, hb, hc, he, hsplit⟩ := exists_cycles_of_years (year - 1)
  have hyear' : year = 400 * a + 100 * b + 4 * c + e + 1 := by omega
  have hord : ymdToOrd year month day - 1 =
      146097 * a + 36524 * b + 1461 * c + 365 * e + (daysBeforeMonth year month + day - 1) := by
    rw [ymdToOrd_cycle hyear' hb hc he]
    omega
  by_cases hdays : daysBeforeMonth year month + day - 1 < 365
  · obtain ⟨month', heq, hmonth', hmonth'', hstart, hend⟩ :=
      ordToYmd_of_cycles (Cycles.of_lt hord hb hc he hdays) hyear' hb he
    obtain rfl := month_unique hmonth ⟨hmonth', hmonth''⟩ ⟨by omega, by omega⟩ ⟨hstart, hend⟩
    rw [heq, Prod.mk.injEq, Prod.mk.injEq]
    exact ⟨rfl, rfl, by omega⟩
  · -- day 366 of a leap year is December 31, the end of a 4-year or a 400-year cycle
    obtain ⟨hleap, rfl, rfl⟩ := lastDay_of_le hmonth hday (by omega)
    rw [daysBeforeMonth_twelve, if_pos hleap] at hord
    obtain ⟨rfl, hc24⟩ := (isLeapYear_cycle hyear' hb hc he).1 hleap
    by_cases hc24' : c = 24
    · obtain rfl : b = 3 := hc24.resolve_left (· hc24')
      subst hc24'
      rw [ordToYmd_of_end (Cycles.of_fourCenturies hord) (Or.inr rfl), Prod.mk.injEq]
      exact ⟨by omega, rfl⟩
    · rw [ordToYmd_of_end (Cycles.of_fourYears hord hb (by omega)) (Or.inl rfl), Prod.mk.injEq]
      exact ⟨by omega, rfl⟩

/-- `ord_to_ymd` gives, for every ordinal from 1, a valid date of that ordinal. -/
theorem ymdToOrd_ordToYmd (hordinal : 1 ≤ ordinal) (h : ordToYmd ordinal = (year, month, day)) :
    1 ≤ year ∧ (1 ≤ month ∧ month ≤ 12) ∧ (1 ≤ day ∧ day ≤ daysInMonth year month) ∧
      ymdToOrd year month day = ordinal := by
  obtain ⟨a, b, c, e, r, hcycles⟩ := Cycles.exists ordinal
  by_cases hend : e = 4 ∨ b = 4
  · rw [ordToYmd_of_end hcycles hend, Prod.mk.injEq, Prod.mk.injEq] at h
    obtain ⟨rfl, rfl, rfl⟩ := h
    exact ⟨by omega, by omega, ⟨by omega, daysInMonth_twelve.ge⟩,
      hcycles.ymdToOrd_of_end hend⟩
  · have ⟨hsum, hr, he, hc, hb⟩ := hcycles
    obtain ⟨month', heq, hmonth, hmonth', hstart, hend'⟩ :=
      ordToYmd_of_cycles hcycles rfl (by omega) (by omega)
    rw [heq, Prod.mk.injEq, Prod.mk.injEq] at h
    obtain ⟨rfl, rfl, rfl⟩ := h
    rw [ymdToOrd_cycle rfl (by omega) (by omega) (by omega)]
    exact ⟨by omega, ⟨hmonth, hmonth'⟩, by omega, by omega⟩

theorem daysBeforeYear_maxYear : daysBeforeYear 10000 = maxOrdinal := rfl

/-- A valid date has an ordinal from 1 to `MAXORDINAL` exactly when its year is at most 9999. -/
theorem ymdToOrd_le_maxOrdinal_iff (hyear : 1 ≤ year) (hmonth : 1 ≤ month ∧ month ≤ 12)
    (hday : 1 ≤ day ∧ day ≤ daysInMonth year month) :
    ymdToOrd year month day ≤ maxOrdinal ↔ year ≤ 9999 := by
  have hlast := (monthTable year month (by omega) hmonth.1).2.2.2
  unfold ymdToOrd
  constructor
  · intro h
    by_contra hyear'
    have := daysBeforeYear_mono (show 10000 ≤ year by omega)
    rw [daysBeforeYear_maxYear] at this
    omega
  · intro hyear'
    have := daysBeforeYear_mono (show year + 1 ≤ 10000 by omega)
    rw [daysBeforeYear_maxYear, daysBeforeYear_succ hyear] at this
    omega

end Ordinal

/-! ## Subtracting days -/

/-- The end of `normalize_y_m_d`: the year of the date must lie in `MINYEAR..MAXYEAR`. -/
def checkYear (date : ℕ × ℕ × ℕ) : Except String (ℕ × ℕ × ℕ) :=
  if 1 ≤ date.1 ∧ date.1 ≤ 9999 then .ok date else .error "date value out of range"

/-- `normalize_y_m_d`: the date `day - 1` days after the first of `month` of `year`, where
`day` may lie outside the month. One day out either way moves to the month before or after;
further out goes through the ordinal. -/
def normalizeYMD (year month : ℕ) (day : ℤ) : Except String (ℕ × ℕ × ℕ) :=
  let dim := daysInMonth year month
  if day < 1 ∨ dim < day then
    if day = 0 then
      if 0 < month - 1 then checkYear (year, month - 1, daysInMonth year (month - 1))
      else checkYear (year - 1, 12, 31)
    else if day = dim + 1 then
      if 12 < month + 1 then checkYear (year + 1, 1, 1) else checkYear (year, month + 1, 1)
    else
      let ordinal := (ymdToOrd year month 1 : ℤ) + day - 1
      if ordinal < 1 ∨ maxOrdinal < ordinal then .error "date value out of range"
      else .ok (ordToYmd ordinal.toNat)
  else checkYear (year, month, day.toNat)

/-- `new_datetime` at the time of day `time`: `check_date_args`, then the value. -/
def newDatetime (year month day time : ℕ) (htime : time < 86400000000) :
    Except String DateTime :=
  if hyear : 1 ≤ year ∧ year ≤ 9999 then
    if hmonth : 1 ≤ month ∧ month ≤ 12 then
      if hday : 1 ≤ day ∧ day ≤ daysInMonth year month then
        .ok ⟨year, month, day, time, hyear.1, hyear.2, hmonth.1, hmonth.2, hday.1, hday.2, htime⟩
      else .error "day is out of range for month"
    else .error "month must be in 1..12"
  else .error ("year " ++ toString year ++ " is out of range")

namespace DateTime

/-- `toordinal()`. -/
def toOrdinal (d : DateTime) : ℕ := ymdToOrd d.year d.month d.day

/-- `d - timedelta(days=days)`: `add_datetime_timedelta` with factor `-1`, for a delta of whole
days. The days come off the day of the month, `normalize_y_m_d` puts the date back in range,
and the time of day is kept. -/
def subDays (d : DateTime) (days : ℤ) : Except String DateTime := do
  let (year, month, day) ← normalizeYMD d.year d.month (d.day - days)
  newDatetime year month day d.time d.valid.2.2.2.2.2.2

end DateTime

/-- What `normalize_y_m_d` should give for the day of ordinal `ordinal`: a valid date with
that ordinal, or `OverflowError` when that ordinal is outside `1..MAXORDINAL`. -/
def NormalizesTo (ordinal : ℤ) : Except String (ℕ × ℕ × ℕ) → Prop
  | .ok (year, month, day) => (1 ≤ year ∧ year ≤ 9999) ∧ (1 ≤ month ∧ month ≤ 12) ∧
      (1 ≤ day ∧ day ≤ daysInMonth year month) ∧ (ymdToOrd year month day : ℤ) = ordinal
  | .error e => e = "date value out of range" ∧ (ordinal < 1 ∨ maxOrdinal < ordinal)

section Normalize

variable {year month day : ℕ} {ordinal : ℤ}

/-- A branch of `normalize_y_m_d` that lands on a date with the right ordinal checks its year
exactly where the ordinal is out of range. -/
theorem normalizesTo_checkYear (hyear : 1 ≤ year) (hmonth : 1 ≤ month ∧ month ≤ 12)
    (hday : 1 ≤ day ∧ day ≤ daysInMonth year month)
    (hordinal : (ymdToOrd year month day : ℤ) = ordinal) :
    NormalizesTo ordinal (checkYear (year, month, day)) := by
  unfold checkYear
  split_ifs with hrange
  · exact ⟨hrange, hmonth, hday, hordinal⟩
  · have := mt (ymdToOrd_le_maxOrdinal_iff hyear hmonth hday).1 (by omega)
    exact ⟨rfl, .inr (by omega)⟩

/-- `normalize_y_m_d` gives the date whose ordinal is `day - 1` days after the first of the
month, or `OverflowError` where no date of years 1 to 9999 has it. -/
theorem normalizeYMD_spec (hyear : 1 ≤ year ∧ year ≤ 9999) (hmonth : 1 ≤ month ∧ month ≤ 12)
    (day : ℤ) :
    NormalizesTo ((ymdToOrd year month 1 : ℤ) + day - 1) (normalizeYMD year month day) := by
  have hdim := daysInMonth_ge year month
  have hfirst : (ymdToOrd year month 1 : ℤ) =
      daysBeforeYear year + daysBeforeMonth year month + 1 := by
    simp only [ymdToOrd, Nat.cast_add, Nat.cast_one]
  simp only [normalizeYMD]
  by_cases hout : day < 1 ∨ (daysInMonth year month : ℤ) < day
  case neg =>
    rw [if_neg hout]
    refine normalizesTo_checkYear hyear.1 hmonth ⟨by omega, by omega⟩ ?_
    simp only [ymdToOrd, Nat.cast_add]
    omega
  rw [if_pos hout]
  clear hout
  by_cases hzero : day = 0
  · rw [if_pos hzero]
    by_cases hprev : 0 < month - 1
    · -- the last day of the month before
      rw [if_pos hprev]
      have hsum := @daysBeforeMonth_pred year month ⟨by omega, hmonth.2⟩
      refine normalizesTo_checkYear hyear.1 ⟨hprev, by omega⟩
        ⟨by have := daysInMonth_ge year (month - 1); omega, le_rfl⟩ ?_
      simp only [ymdToOrd, Nat.cast_add]
      omega
    · -- December 31 of the year before
      rw [if_neg hprev]
      obtain rfl : month = 1 := by omega
      rcases Nat.lt_or_ge year 2 with hone | htwo
      · obtain rfl : year = 1 := by omega
        exact ⟨rfl, .inl (by rw [hzero]; decide)⟩
      · have hsucc := @daysBeforeYear_succ (year - 1) (by omega)
        rw [Nat.sub_add_cancel (by omega : 1 ≤ year)] at hsucc
        refine normalizesTo_checkYear (by omega) ⟨by omega, le_rfl⟩
          ⟨by omega, daysInMonth_twelve.ge⟩ ?_
        simp only [ymdToOrd, daysBeforeMonth_twelve, daysBeforeMonth_one, Nat.cast_add]
        omega
  rw [if_neg hzero]
  by_cases hnext : day = daysInMonth year month + 1
  · rw [if_pos hnext]
    by_cases hlast : 12 < month + 1
    · -- January 1 of the year after
      rw [if_pos hlast]
      obtain rfl : month = 12 := by omega
      have hsucc := daysBeforeYear_succ hyear.1
      refine normalizesTo_checkYear (by omega) ⟨le_rfl, by omega⟩
        ⟨le_rfl, by have := daysInMonth_ge (year + 1) 1; omega⟩ ?_
      simp only [ymdToOrd, daysBeforeMonth_twelve, daysBeforeMonth_one, daysInMonth_twelve,
        Nat.cast_add] at hnext ⊢
      omega
    · -- the first of the month after
      rw [if_neg hlast]
      have hsum := @daysBeforeMonth_pred year (month + 1) ⟨by omega, by omega⟩
      rw [Nat.add_sub_cancel] at hsum
      refine normalizesTo_checkYear hyear.1 ⟨by omega, by omega⟩
        ⟨le_rfl, by have := daysInMonth_ge year (month + 1); omega⟩ ?_
      simp only [ymdToOrd, Nat.cast_add]
      omega
  rw [if_neg hnext]
  by_cases hrange : (ymdToOrd year month 1 : ℤ) + day - 1 < 1 ∨
      maxOrdinal < (ymdToOrd year month 1 : ℤ) + day - 1
  · rw [if_pos hrange]
    exact ⟨rfl, hrange⟩
  · -- through the ordinal
    rw [if_neg hrange]
    obtain ⟨hyear', hmonth', hday', hordinal⟩ :=
      @ymdToOrd_ordToYmd _ _ _ ((ymdToOrd year month 1 : ℤ) + day - 1).toNat (by omega) rfl
    exact ⟨⟨hyear', (ymdToOrd_le_maxOrdinal_iff hyear' hmonth' hday').1 (by omega)⟩, hmonth',
      hday', by omega⟩

end Normalize

/-! ## A `datetime` is its ordinal and its time of day -/

namespace DateTime

variable {d d' : DateTime} {days : ℤ}

theorem toOrdinal_mem (d : DateTime) : 1 ≤ d.toOrdinal ∧ d.toOrdinal ≤ maxOrdinal := by
  obtain ⟨hyear, hyear', hmonth, hmonth', hday, hday', -⟩ := d.valid
  exact ⟨by unfold toOrdinal ymdToOrd; omega,
    (ymdToOrd_le_maxOrdinal_iff hyear ⟨hmonth, hmonth'⟩ ⟨hday, hday'⟩).2 hyear'⟩

theorem eq_of_toOrdinal (hordinal : d.toOrdinal = d'.toOrdinal) (htime : d.time = d'.time) :
    d = d' := by
  revert hordinal htime
  obtain ⟨year, month, day, time, hyear, hyear', hmonth, hmonth', hday, hday', htime'⟩ := d
  obtain ⟨year', month', day', time', hyear₁, -, hmonth₁, hmonth₁', hday₁, hday₁', -⟩ := d'
  intro hordinal htime
  have h := ordToYmd_ymdToOrd hyear ⟨hmonth, hmonth'⟩ ⟨hday, hday'⟩
  rw [show ymdToOrd year month day = ymdToOrd year' month' day' from hordinal,
    ordToYmd_ymdToOrd hyear₁ ⟨hmonth₁, hmonth₁'⟩ ⟨hday₁, hday₁'⟩, Prod.mk.injEq,
    Prod.mk.injEq] at h
  obtain ⟨rfl, rfl, rfl⟩ := h
  obtain rfl : time = time' := htime
  rfl

/-- An earlier `datetime` has an ordinal no larger. -/
theorem toOrdinal_le_of_le (h : d.le d') : d.toOrdinal ≤ d'.toOrdinal := by
  obtain ⟨hyear, -, hmonth, hmonth', -, hday, -⟩ := d.valid
  obtain ⟨-, -, -, hmonth'', -, -, -⟩ := d'.valid
  obtain ⟨-, -, hlater, hlast⟩ := monthTable d.year d.month (by omega) hmonth
  unfold toOrdinal ymdToOrd
  rcases h with hlt | ⟨heq, hlt | ⟨heq', hle | ⟨heq'', -⟩⟩⟩
  · have := daysBeforeYear_succ hyear
    have := daysBeforeYear_mono (show d.year + 1 ≤ d'.year by omega)
    omega
  · have := hlater d'.month (by omega) hlt
    rw [heq] at this hday ⊢
    omega
  · rw [heq, heq']
    omega
  · rw [heq, heq', heq'']

/-- `d - timedelta(days=days)` is the `datetime` `days` days before `d` at the same time of
day, or `OverflowError` when that day is outside years 1 to 9999. -/
theorem subDays_cases (d : DateTime) (days : ℤ) :
    (∃ d', d.subDays days = .ok d' ∧ (d'.toOrdinal : ℤ) = d.toOrdinal - days ∧
      d'.time = d.time) ∨
    d.subDays days = .error "date value out of range" ∧
      (d.toOrdinal - days < 1 ∨ maxOrdinal < d.toOrdinal - days) := by
  have hspec := normalizeYMD_spec ⟨d.valid.1, d.valid.2.1⟩ ⟨d.valid.2.2.1, d.valid.2.2.2.1⟩
    (d.day - days)
  have hordinal : (ymdToOrd d.year d.month 1 : ℤ) + (d.day - days) - 1 =
      d.toOrdinal - days := by
    simp only [toOrdinal, ymdToOrd, Nat.cast_add, Nat.cast_one]
    omega
  rw [hordinal] at hspec
  rcases h : normalizeYMD d.year d.month (d.day - days) with e | ⟨year, month, day⟩ <;>
    rw [h] at hspec
  · obtain ⟨rfl, hout⟩ := hspec
    exact .inr ⟨by simp only [subDays, h, bind, Except.bind], hout⟩
  · obtain ⟨hyear, hmonth, hday, hord⟩ := hspec
    refine .inl ⟨⟨year, month, day, d.time, hyear.1, hyear.2, hmonth.1, hmonth.2, hday.1, hday.2,
      d.valid.2.2.2.2.2.2⟩, ?_, hord, rfl⟩
    simp only [subDays, h, bind, Except.bind, newDatetime, dif_pos hyear, dif_pos hmonth,
      dif_pos hday]

/-- `d - timedelta(days=days)` gives `d'` exactly when `d'` is `days` days before `d`, at the
same time of day. -/
theorem subDays_eq_ok_iff :
    d.subDays days = .ok d' ↔ (d'.toOrdinal : ℤ) = d.toOrdinal - days ∧ d'.time = d.time := by
  constructor
  · intro h
    rcases subDays_cases d days with ⟨d'', h', hordinal, htime⟩ | ⟨h', -⟩ <;> rw [h] at h'
    · cases h'
      exact ⟨hordinal, htime⟩
    · cases h'
  · rintro ⟨hordinal, htime⟩
    have hmem := d'.toOrdinal_mem
    rcases subDays_cases d days with ⟨d'', h', hordinal', htime'⟩ | ⟨-, hout⟩
    · rw [h', eq_of_toOrdinal (by omega) (htime'.trans htime.symm)]
    · omega

end DateTime

end Download

end HftTradingSystem
