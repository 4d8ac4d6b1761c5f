import HftTradingSystem.Download.Calendar
import HftTradingSystem.Download.Merge

/-!
# The downloader's `main`

`main` takes its start date `args.years * 365` days before `datetime.now()`, downloads the
monthly archives from the start's month on with `download_klines` or `download_aggtrades`, and,
when any came down, merges them with `merge_csv_files` and converts the merged file with
`convert_to_backtest_format`.

The period is exactly `365 * years` days, at the time of day of the end, or the start date
raises `OverflowError` (`startDate_eq_ok_iff`, `main_raises_of_le`). The monthly CSVs are named
by `strftime("%Y-%m")`, whose fixed-width digits order the names as the months are ordered, so
`sorted(files)` keeps the order the loop found them in (`sortFiles_monthFiles`). From a start
day every month has, the merged file is the header and then the CSV of every month of the
period whose archive came down, in calendar order (`main_of_day_le`); a negative `--years`
downloads nothing (`main_of_neg`).
-/

namespace HftTradingSystem

namespace Download

open Text

/-! ## The start date -/

/-- `timedelta(days=days)`: the days must fit a C `int`, and then have magnitude at most
`MAX_DELTA_DAYS`. -/
def timedeltaDays (days : ℤ) : Except String ℤ :=
  if -999999999 ≤ days ∧ days ≤ 999999999 then .ok days
  else if -2147483648 ≤ days ∧ days < 2147483648 then
    .error ("days=" ++ toString days ++ "; must have magnitude <= 999999999")
  else .error "Python int too large to convert to C int"

/-- `end_date - timedelta(days=args.years * 365)`. -/
def startDate (years : ℤ) (endDate : DateTime) : Except String DateTime := do
  let days ← timedeltaDays (years * 365)
  endDate.subDays days

/-! ## The monthly files -/

/-- `n` in `width` decimal digits, zero-padded. -/
def padDigits : ℕ → ℕ → List Char
  | 0, _ => []
  | width + 1, n => padDigits width (n / 10) ++ [Nat.digitChar (n % 10)]

/-- `strftime("%Y-%m")`: the year in four digits and the month in two. -/
def yearMonthText (yearMonth : ℕ × ℕ) : List Char :=
  padDigits 4 yearMonth.1 ++ '-' :: padDigits 2 yearMonth.2

/-- The CSV a month's archive holds: `{symbol}-{interval}-{year_month}.csv` for `klines`, and
`{symbol}-aggTrades-{year_month}.csv` otherwise. -/
def csvName (symbol interval dataType : String) (yearMonth : ℕ × ℕ) : String :=
  (if dataType = "klines" then symbol ++ "-" ++ interval ++ "-" else symbol ++ "-aggTrades-") ++
    String.mk (yearMonthText yearMonth) ++ ".csv"

/-- The files `download_klines` or `download_aggtrades` returns for the months whose CSV came
down: `archive` gives the CSV the archive of a month holds, if it downloads and holds one. -/
def monthFiles (archive : ℕ × ℕ → Option (List Char)) (symbol interval dataType : String)
    (months : List (ℕ × ℕ)) : List CsvFile :=
  months.filterMap fun yearMonth =>
    (archive yearMonth).map fun content => ⟨csvName symbol interval dataType yearMonth, content⟩

/-! ## `main` -/

/-- How a run of `main` ends. -/
inductive Outcome
  /-- An exception escaped. -/
  | raised (error : String)
  /-- No file came down: `No data downloaded!`. -/
  | noData
  /-- The merged file and the backtest file were written; `error` is the exception
  `convert_to_backtest_format` raised, if any. -/
  | written (merged backtest : List Char) (error : Option String)
  deriving DecidableEq, Repr

/-- `main`, from the parsed arguments on, with the `datetime.now()` it reads and the archive it
downloads from. -/
def main (archive : ℕ × ℕ → Option (List Char)) (symbol dataType interval : String)
    (years : ℤ) (now : DateTime) : Outcome :=
  match startDate years now with
  | .error e => .raised e
  | .ok start =>
    let available := fun yearMonth => (archive yearMonth).isSome
    let downloaded := if dataType = "klines" then downloadKlines available start now
      else downloadAggtrades available start now
    match downloaded with
    | .error e => .raised e
    | .ok months =>
      let files := monthFiles archive symbol interval dataType months
      match mergeAndConvert files dataType with
      | none => .noData
      | some (backtest, error) => .written (mergeCsvFiles files dataType) backtest error

/-- `2026-03-15 12:00`, a `datetime.now()`. -/
def marchNow : DateTime := ⟨2026, 3, 15, 43200000000, by decide⟩

/-- `2024-03-15 12:00`, 730 days before `marchNow`. -/
def marchStart : DateTime := ⟨2024, 3, 15, 43200000000, by decide⟩

/-! ## The period -/

section Period

variable {years : ℤ} {endDate start : DateTime}

theorem startDate_of_timedelta {days : ℤ} (hdays : timedeltaDays (years * 365) = .ok days) :
    startDate years endDate = endDate.subDays days := by
  simp only [startDate, hdays, bind, Except.bind]

theorem timedeltaDays_of_le (hdays : |years * 365| ≤ 999999999) :
    timedeltaDays (years * 365) = .ok (years * 365) :=
  if_pos (abs_le.1 hdays)

/-- The start date is `365 * years` days before the end, at the end's time of day, whenever a
`datetime` is. -/
theorem startDate_eq_ok_iff :
    startDate years endDate = .ok start ↔
      (start.toOrdinal : ℤ) = endDate.toOrdinal - years * 365 ∧ start.time = endDate.time := by
  have hstart := start.toOrdinal_mem
  have hend := endDate.toOrdinal_mem
  have hmax : maxOrdinal = 3652059 := rfl
  constructor
  · intro h
    unfold startDate timedeltaDays at h
    split_ifs at h with hsmall
    · rcases endDate.subDays_cases (years * 365) with ⟨d, hd, hordinal, htime⟩ | ⟨hd, -⟩ <;>
        simp only [bind, Except.bind, hd] at h
      · cases h
        exact ⟨hordinal, htime⟩
      · cases h
    all_goals cases h
  · rintro ⟨hordinal, htime⟩
    rw [startDate_of_timedelta (timedeltaDays_of_le (abs_le.2 ⟨by omega, by omega⟩))]
    rcases endDate.subDays_cases (years * 365) with ⟨d, hd, hordinal', htime'⟩ | ⟨-, hout⟩
    · rw [hd, DateTime.eq_of_toOrdinal (by omega) (htime'.trans htime.symm)]
    · omega

/-- A `--years` of at least the days since 0001-01-01 over 365 sends the start date before the
first `datetime`: `main` raises `OverflowError`. -/
theorem main_raises_of_le (archive : ℕ × ℕ → Option (List Char))
    (symbol dataType interval : String) {now : DateTime} (hyears : now.toOrdinal ≤ years * 365)
    (hsmall : years * 365 ≤ 999999999) :
    main archive symbol dataType interval years now = .raised "date value out of range" := by
  rw [main, startDate_of_timedelta (timedeltaDays_of_le (abs_le.2 ⟨by omega, hsmall⟩))]
  rcases now.subDays_cases (years * 365) with ⟨d, -, hordinal, -⟩ | ⟨hd, -⟩
  · have := d.toOrdinal_mem
    omega
  · rw [hd]

theorem main_raises_of_le_march :
    marchNow.toOrdinal ≤ 10000 * 365 ∧ (10000 : ℤ) * 365 ≤ 999999999 ∧
      main (fun _ => none) "BTCUSDT" "klines" "1m" 10000 marchNow =
        .raised "date value out of range" :=
  ⟨by decide, by decide, main_raises_of_le _ _ _ _ (by decide) (by decide)⟩

end Period

/-! ## File names sort as months -/

section Names

theorem codePointLt_append_left (front s t : List Char) :
    codePointLt (front ++ s) (front ++ t) = codePointLt s t := by
  induction front with
  | nil => rfl
  | cons c front ih => simp [codePointLt, ih]

theorem codePointLt_self (s : List Char) : codePointLt s s = false := by
  induction s with
  | nil => rfl
  | cons c s ih => simp [codePointLt, ih]

theorem codePointLt_cons (a b : Char) (s t : List Char) :
    codePointLt (a :: s) (b :: t) = if a = b then codePointLt s t else decide (a.toNat < b.toNat) :=
  rfl

/-- Digits compare as their values. -/
theorem digitChar_compare : ∀ k < 10, ∀ k' < 10,
    (Nat.digitChar k = Nat.digitChar k' ↔ k = k') ∧
      ((Nat.digitChar k).toNat < (Nat.digitChar k').toNat ↔ k < k') := by
  decide

/-- Zero-padded numbers of one width compare, by code point, as the numbers. -/
theorem codePointLt_padDigits : ∀ {width n n' : ℕ}, n < 10 ^ width → n' < 10 ^ width →
    ∀ s t : List Char, codePointLt (padDigits width n ++ s) (padDigits width n' ++ t) =
      if n = n' then codePointLt s t else decide (n < n')
  | 0, n, n', hn, hn', s, t => by
    obtain rfl : n = 0 := by simpa using hn
    obtain rfl : n' = 0 := by simpa using hn'
    rfl
  | width + 1, n, n', hn, hn', s, t => by
    have hpow : 10 ^ (width + 1) = 10 ^ width * 10 := pow_succ 10 width
    obtain ⟨hsame, hlt⟩ := digitChar_compare (n % 10) (Nat.mod_lt _ (by norm_num)) (n' % 10)
      (Nat.mod_lt _ (by norm_num))
    simp only [padDigits, List.append_assoc, List.singleton_append]
    rw [codePointLt_padDigits (by omega) (by omega), codePointLt_cons]
    by_cases hhigh : n / 10 = n' / 10
    · by_cases hlow : n % 10 = n' % 10
      · rw [if_pos hhigh, if_pos (hsame.2 hlow), if_pos (by omega)]
      · rw [if_pos hhigh, if_neg (mt hsame.1 hlow), if_neg (by omega)]
        simp only [decide_eq_decide, hlt]
        omega
    · rw [if_neg hhigh, if_neg (by omega)]
      simp only [decide_eq_decide]
      omega

/-- The file names of two months of years before 10000 compare as the months. -/
theorem codePointLt_csvName (symbol interval dataType : String) {p q : ℕ × ℕ}
    (hp : p.1 < 10000 ∧ p.2 < 100) (hq : q.1 < 10000 ∧ q.2 < 100) :
    codePointLt (csvName symbol interval dataType p).data (csvName symbol interval dataType q).data =
      decide (p.1 < q.1 ∨ p.1 = q.1 ∧ p.2 < q.2) := by
  have hyear := @codePointLt_padDigits 4 p.1 q.1 hp.1 hq.1
  have hmonth := @codePointLt_padDigits 2 p.2 q.2 hp.2 hq.2
  have hdata : ∀ r : ℕ × ℕ, (csvName symbol interval dataType r).data =
      (if dataType = "klines" then symbol ++ "-" ++ interval ++ "-"
        else symbol ++ "-aggTrades-").data ++ (yearMonthText r ++ ".csv".data) := fun r => by
    simp only [csvName, String.data_append, List.append_assoc]
  rw [hdata, hdata, codePointLt_append_left, yearMonthText, yearMonthText, List.append_assoc,
    List.append_assoc, hyear, List.cons_append, List.cons_append, codePointLt_cons, if_pos rfl,
    hmonth, codePointLt_self]
  by_cases hy : p.1 = q.1 <;> by_cases hm : p.2 = q.2 <;> simp [hy, hm]

/-- `sorted(files)` leaves the files of months in calendar order, of years before 10000, as they
are. -/
theorem sortFiles_monthFiles (archive : ℕ × ℕ → Option (List Char))
    (symbol interval dataType : String) {months : List (ℕ × ℕ)}
    (hbound : ∀ p ∈ months, p.1 < 10000 ∧ p.2 < 100)
    (hsorted : months.Pairwise fun p q => p.1 < q.1 ∨ p.1 = q.1 ∧ p.2 < q.2) :
    sortFiles (monthFiles archive symbol interval dataType months) =
      monthFiles archive symbol interval dataType months := by
  apply List.Sorted.insertionSort_eq
  refine List.pairwise_filterMap.2 (List.Pairwise.imp_of_mem ?_ hsorted)
  intro p q hp hq hlt b hb b' hb'
  obtain ⟨c, -, rfl⟩ := Option.mem_map.1 hb
  obtain ⟨c', -, rfl⟩ := Option.mem_map.1 hb'
  simp only [codePointLt_csvName symbol interval dataType (hbound q hq) (hbound p hp),
    Bool.not_eq_true', decide_eq_false_iff_not]
  omega

end Names

/-! ## What `main` writes -/

section Run

variable (archive : ℕ × ℕ → Option (List Char)) (symbol dataType interval : String)

theorem monthFiles_content (months : List (ℕ × ℕ)) :
    ((monthFiles archive symbol interval dataType
      (months.filter fun yearMonth => (archive yearMonth).isSome)).map CsvFile.content) =
        months.filterMap archive := by
  induction months with
  | nil => rfl
  | cons p months ih =>
    cases h : archive p <;> simp_all [monthFiles, List.filter_cons]

/-- The months of a loop from `start`, in calendar order and before 10000. -/
theorem monthOfIndex_range' {start count : ℕ} (hstart : 1 ≤ start)
    (hend : ∀ i, start ≤ i → i < start + count → i ≤ 9999 * 12 + 12) :
    let months := (List.range' start count).map monthOfIndex
    (∀ p ∈ months, p.1 < 10000 ∧ p.2 < 100) ∧
      months.Pairwise fun p q => p.1 < q.1 ∨ p.1 = q.1 ∧ p.2 < q.2 := by
  refine ⟨fun p hp => ?_, List.pairwise_map.2 ((List.pairwise_lt_range' start count).imp_of_mem
    fun hi hj hij => ?_)⟩
  · obtain ⟨i, hi, rfl⟩ := List.mem_map.1 hp
    rw [List.mem_range'_1] at hi
    have := hend i hi.1 hi.2
    simp only [monthOfIndex]
    omega
  · rw [List.mem_range'_1] at hi hj
    simp only [monthOfIndex]
    omega

/-- From a start day every month has, `main` requests every month from the start's on through
the end's (through the month before when the start's day and time of day fall later in the
month than the end's), and writes the header followed by the CSVs of the months whose archive
came down, in calendar order, then converts that merged file. -/
theorem main_of_day_le {years : ℤ} {now start : DateTime}
    (hstart : startDate years now = .ok start) (hday : start.day ≤ 28)
    (hend : now.monthIndex < 9999 * 12 + 12) :
    let contents :=
      ((List.range' start.monthIndex (monthCount now start)).map monthOfIndex).filterMap archive
    let merged := mergeHeader dataType ++ (contents.map readText).flatten
    main archive symbol dataType interval years now =
      if contents = [] then .noData
      else .written merged (convertToBacktestFormat merged dataType).1
        (convertToBacktestFormat merged dataType).2 := by
  intro contents merged
  have hloop := monthLoop_of_monthCount hend _ start hday rfl
  obtain ⟨hbound, hsorted⟩ := @monthOfIndex_range' start.monthIndex (monthCount now start) (by
    have := start.valid
    unfold DateTime.monthIndex
    omega) fun i hi hi' => by
      unfold monthCount at hi'
      split at hi' <;> omega
  have hdownload : ∀ available, downloadMonthly available start now =
      .ok (((List.range' start.monthIndex (monthCount now start)).map monthOfIndex).filter
        available) := fun _ => by rw [downloadMonthly, hloop]
  simp only [main, hstart, downloadKlines, downloadAggtrades, hdownload, ite_self]
  set files := monthFiles archive symbol interval dataType
    (((List.range' start.monthIndex (monthCount now start)).map monthOfIndex).filter
      fun yearMonth => (archive yearMonth).isSome)
  have hfiles : files.map CsvFile.content = contents :=
    monthFiles_content archive symbol dataType interval _
  have hsort : sortFiles files = files := sortFiles_monthFiles archive symbol interval dataType
    (fun p hp => hbound p (List.mem_of_mem_filter hp))
    (hsorted.filter fun yearMonth => (archive yearMonth).isSome)
  by_cases hempty : contents = []
  · have hnil : files = [] := List.map_eq_nil_iff.1 (hfiles.trans hempty)
    simp only [mergeAndConvert, hnil, if_true, hempty]
  · have hne : files ≠ [] := fun h => hempty (by rw [← hfiles, h]; rfl)
    have hmerged : mergeCsvFiles files dataType = merged := by
      rw [mergeCsvFiles_eq, hsort]
      simp only [merged, ← hfiles, List.map_map]
      rfl
    simp only [mergeAndConvert, hne, if_false, hempty, hmerged]

theorem main_of_day_le_march :
    startDate 2 marchNow = .ok marchStart ∧ marchStart.day ≤ 28 ∧
      marchNow.monthIndex < 9999 * 12 + 12 ∧
      let contents := ((List.range' marchStart.monthIndex (monthCount marchNow marchStart)).map
        monthOfIndex).filterMap fun _ => some "1,2\n".toList
      let merged := mergeHeader "klines" ++ (contents.map readText).flatten
      main (fun _ => some "1,2\n".toList) "BTCUSDT" "klines" "1m" 2 marchNow =
        if contents = [] then .noData
        else .written merged (convertToBacktestFormat merged "klines").1
          (convertToBacktestFormat merged "klines").2 :=
  ⟨rfl, by decide, by decide, main_of_day_le _ _ _ _ rfl (by decide) (by decide)⟩

/-- A negative `--years` puts the start after the end: `main` requests no month and writes
nothing, or raises `OverflowError` when the start would be past 9999-12-31. -/
theorem main_of_neg {years : ℤ} {now : DateTime} (hneg : years < 0)
    (hsmall : -999999999 ≤ years * 365) :
    main archive symbol dataType interval years now =
      if maxOrdinal < now.toOrdinal - years * 365 then .raised "date value out of range"
      else .noData := by
  unfold main
  rw [startDate_of_timedelta (timedeltaDays_of_le (abs_le.2 ⟨hsmall, by omega⟩))]
  rcases now.subDays_cases (years * 365) with ⟨start, hstart, hordinal, -⟩ | ⟨hstart, hout⟩
  · have hlater : ¬ start.le now := fun h => by
      have := DateTime.toOrdinal_le_of_le h
      omega
    have hmem := start.toOrdinal_mem
    rw [if_neg (by omega)]
    simp only [hstart, downloadKlines, downloadAggtrades, downloadMonthly,
      monthLoop_of_not_le hlater, ite_self, List.filter_nil]
    rfl
  · have hmem := now.toOrdinal_mem
    rw [hstart, if_pos (by omega)]

theorem main_of_neg_march :
    (-2 : ℤ) < 0 ∧ -999999999 ≤ (-2 : ℤ) * 365 ∧
      main (fun _ => none) "BTCUSDT" "klines" "1m" (-2) marchNow =
        if (maxOrdinal : ℤ) < marchNow.toOrdinal - (-2 : ℤ) * 365 then
          .raised "date value out of range"
        else .noData :=
  ⟨by decide, by decide, main_of_neg _ _ _ _ (by decide) (by decide)⟩

end Run

end Download

end HftTradingSystem
