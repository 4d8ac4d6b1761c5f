import HftTradingSystem.Binary64
import HftTradingSystem.Text

/-!
# The backtest converter

`convert_to_backtest_format` turns a Binance CSV into the backtester's rows
`timestamp,bid,ask,bid_size,ask_size`, prices in fixed point at four decimals. A kline row
becomes a quote around its close with a simulated spread of a tenth of the candle's range,
half of it on each side; an aggTrade row becomes a quote one spread wide, on the side of the
book its maker was on. The halving rounds down, so in the code's doubles a candle narrower
than `0.0019` quotes its bid equal to its ask and one of `0.0021` or wider its bid below its
ask, the rounding of the range deciding in between; an aggTrade row always quotes its bid
below its ask. Whatever the converter raises, what it has written is its header and then
whole rows, each a line of five comma-separated integers that `int()` reads back.
-/

namespace HftTradingSystem

namespace Download

open Text

/-- A row of the backtest CSV. -/
structure BacktestRow where
  timestamp : ℤ
  bid : ℤ
  ask : ℤ
  bidSize : ℤ
  askSize : ℤ
  deriving DecidableEq, Repr

/-- The row as written, `f"{timestamp},{bid},{ask},{size},{size}\n"`. -/
def BacktestRow.text (r : BacktestRow) : List Char :=
  (toString r.timestamp ++ "," ++ toString r.bid ++ "," ++ toString r.ask ++ "," ++
    toString r.bidSize ++ "," ++ toString r.askSize ++ "\n").toList

/-- The header line of the backtest CSV. -/
def backtestHeader : List Char := "timestamp,bid,ask,bid_size,ask_size\n".toList

/-- `int(parts[i])`. -/
def intField (parts : List (List Char)) (i : ℕ) : Except String ℤ :=
  getPart parts i >>= parseInt

/-- `float(parts[i])`, as the exact value of its decimal literal; `floatFieldWith` rounds it. -/
def floatField (parts : List (List Char)) (i : ℕ) : Except String ℚ :=
  getPart parts i >>= parseFloat

theorem floatField_of_decimalLiteral {parts : List (List Char)} {i : ℕ} {d : Decimal}
    (hd : (getPart parts i).toOption.bind (fun field => decimalLiteral (strip field)) = some d) :
    floatField parts i = .ok d.value := by
  unfold floatField
  cases hpart : getPart parts i <;> simp_all [Except.toOption, parseFloat_of_decimalLiteral]

/-! ## Rows -/

/-- The kline branch's arithmetic on the fields it read, in exact arithmetic: the open time cut
from microseconds to milliseconds, the close as the mid price, a spread of a tenth of the
high-low range (`0.1` exactly) and at least one tick, half of it on each side, the volume as
both sizes. The code's doubles are `klineRowWith Binary64.round`; the two part where a double
lies just below an integer, as `int(1.005 * 10000)` is `10049`. -/
def klineRow (openTime : ℤ) (close volume high low : ℚ) : BacktestRow :=
  let timestamp := if 13 < (toString openTime).length then openTime / 1000 else openTime
  let priceInt := truncate (close * 10000)
  let spread := max 1 (truncate ((high - low) * 10000 * (1 / 10)))
  let halfSpread := spread / 2
  let size := truncate volume
  ⟨timestamp, priceInt - halfSpread, priceInt + halfSpread, size, size⟩

/-- The kline branch: the fields read in the source's order (open time, close, volume, high,
low), the first failure raised, then `klineRow`, which cannot fail. -/
def convertKline (parts : List (List Char)) : Except String BacktestRow := do
  let timestamp ← intField parts 0
  let close ← floatField parts 4
  let volume ← floatField parts 5
  let high ← floatField parts 2
  let low ← floatField parts 3
  return klineRow timestamp close volume high low

/-- The aggTrade branch's arithmetic, in exact arithmetic: the trade price at the bid when the
buyer was the maker, at the ask otherwise, a spread of one tick per whole unit of price and at
least one. -/
def aggTradeRow (timestamp : ℤ) (price quantity : ℚ) (isBuyer : Bool) : BacktestRow :=
  let priceInt := truncate (price * 10000)
  let size := truncate quantity
  let spread := max 1 (priceInt / 10000)
  if isBuyer then ⟨timestamp, priceInt, priceInt + spread, size, size⟩
  else ⟨timestamp, priceInt - spread, priceInt, size, size⟩

/-- The aggTrade branch. `parts[6].lower() == 'true'` is decided by ASCII lowering: no other
character lowers to a letter of `true`. -/
def convertAggTrade (parts : List (List Char)) : Except String BacktestRow := do
  let timestamp ← intField parts 5
  let price ← floatField parts 1
  let quantity ← floatField parts 2
  let isBuyerMaker ← getPart parts 6
  return aggTradeRow timestamp price quantity (isBuyerMaker.map Char.toLower == "true".toList)

/-- One line of the input: `line.strip().split(',')`, converted by the branch of `data_type`;
any other data type writes nothing. -/
def convertRow (dataType : String) (line : List Char) : Except String (Option BacktestRow) :=
  let parts := (strip line).splitOn ','
  if dataType = "klines" then some <$> convertKline parts
  else if dataType = "aggtrades" then some <$> convertAggTrade parts
  else .ok none

theorem convertKline_eq_ok {parts : List (List Char)} {r : BacktestRow} :
    convertKline parts = .ok r ↔ ∃ timestamp close volume high low,
      intField parts 0 = .ok timestamp ∧ floatField parts 4 = .ok close ∧
      floatField parts 5 = .ok volume ∧ floatField parts 2 = .ok high ∧
      floatField parts 3 = .ok low ∧ klineRow timestamp close volume high low = r := by
  simp only [convertKline, bind_eq_ok]
  constructor
  · rintro ⟨t, ht, c, hc, v, hv, h, hh, l, hl, hr⟩
    exact ⟨t, c, v, h, l, ht, hc, hv, hh, hl, Except.ok.inj hr⟩
  · rintro ⟨t, c, v, h, l, ht, hc, hv, hh, hl, rfl⟩
    exact ⟨t, ht, c, hc, v, hv, h, hh, l, hl, rfl⟩

theorem convertAggTrade_eq_ok {parts : List (List Char)} {r : BacktestRow} :
    convertAggTrade parts = .ok r ↔ ∃ timestamp price quantity isBuyerMaker,
      intField parts 5 = .ok timestamp ∧ floatField parts 1 = .ok price ∧
      floatField parts 2 = .ok quantity ∧ getPart parts 6 = .ok isBuyerMaker ∧
      aggTradeRow timestamp price quantity (isBuyerMaker.map Char.toLower == "true".toList) =
        r := by
  simp only [convertAggTrade, bind_eq_ok]
  constructor
  · rintro ⟨t, ht, p, hp, q, hq, b, hb, hr⟩
    exact ⟨t, p, q, b, ht, hp, hq, hb, Except.ok.inj hr⟩
  · rintro ⟨t, p, q, b, ht, hp, hq, hb, rfl⟩
    exact ⟨t, ht, p, hp, q, hq, b, hb, rfl⟩

theorem some_map_eq_ok {x : Except String BacktestRow} {r : BacktestRow} :
    some <$> x = .ok (some r) ↔ x = .ok r := by
  cases x <;> simp [Functor.map, Except.map]

/-! ## The rows in doubles

The branches above in exact arithmetic, and here as the code runs them: each field the double
nearest its decimal, and each float operation's exact result passed through `round`. The
exact converter is `convertRowWith id` (`convertRowWith_id`); the code's is
`convertRowWith Binary64.round`. -/

/-- `float(parts[i])`, its decimal value passed through `round`. -/
def floatFieldWith (round : ℚ → ℚ) (parts : List (List Char)) (i : ℕ) : Except String ℚ :=
  round <$> floatField parts i

/-- `klineRow` with the result of `close * 10000`, of `high - low` and of its products with
`10000` and with the literal `0.1` passed through `round`. -/
def klineRowWith (round : ℚ → ℚ) (openTime : ℤ) (close volume high low : ℚ) : BacktestRow :=
  let timestamp := if 13 < (toString openTime).length then openTime / 1000 else openTime
  let priceInt := truncate (round (close * 10000))
  let spread := max 1 (truncate (round (round (round (high - low) * 10000) * round (1 / 10))))
  let halfSpread := spread / 2
  let size := truncate volume
  ⟨timestamp, priceInt - halfSpread, priceInt + halfSpread, size, size⟩

/-- `convertKline` with the floats of `floatFieldWith round` and `klineRowWith round`. -/
def convertKlineWith (round : ℚ → ℚ) (parts : List (List Char)) : Except String BacktestRow := do
  let timestamp ← intField parts 0
  let close ← floatFieldWith round parts 4
  let volume ← floatFieldWith round parts 5
  let high ← floatFieldWith round parts 2
  let low ← floatFieldWith round parts 3
  return klineRowWith round timestamp close volume high low

/-- `aggTradeRow` with the result of `price * 10000` passed through `round`. -/
def aggTradeRowWith (round : ℚ → ℚ) (timestamp : ℤ) (price quantity : ℚ) (isBuyer : Bool) :
    BacktestRow :=
  let priceInt := truncate (round (price * 10000))
  let size := truncate quantity
  let spread := max 1 (priceInt / 10000)
  if isBuyer then ⟨timestamp, priceInt, priceInt + spread, size, size⟩
  else ⟨timestamp, priceInt - spread, priceInt, size, size⟩

/-- `convertAggTrade` with the floats of `floatFieldWith round` and `aggTradeRowWith round`. -/
def convertAggTradeWith (round : ℚ → ℚ) (parts : List (List Char)) :
    Except String BacktestRow := do
  let timestamp ← intField parts 5
  let price ← floatFieldWith round parts 1
  let quantity ← floatFieldWith round parts 2
  let isBuyerMaker ← getPart parts 6
  return aggTradeRowWith round timestamp price quantity
    (isBuyerMaker.map Char.toLower == "true".toList)

/-- `convertRow` with the floats of `round`. -/
def convertRowWith (round : ℚ → ℚ) (dataType : String) (line : List Char) :
    Except String (Option BacktestRow) :=
  let parts := (strip line).splitOn ','
  if dataType = "klines" then some <$> convertKlineWith round parts
  else if dataType = "aggtrades" then some <$> convertAggTradeWith round parts
  else .ok none

theorem floatFieldWith_id : floatFieldWith id = floatField :=
  funext fun _ => funext fun _ => id_map _

theorem convertRowWith_id : convertRowWith id = convertRow := by
  funext dataType line
  simp only [convertRowWith, convertKlineWith, convertAggTradeWith, floatFieldWith_id]
  rfl

/-- In doubles a flat candle closing at `1.005` quotes at `10049`, not at the `10050` of the
exact value: the double nearest `1.005` lies below it, and its product with `10000` rounds to
`10049.999999999998`, which `int()` truncates. -/
theorem klineRowWith_round_close_below :
    (klineRowWith Binary64.round 0 (Binary64.round (1005 / 1000)) 0 1 1).ask = 10049 ∧
      (klineRow 0 (1005 / 1000) 0 1 1).ask = 10050 := by
  have hclose : Binary64.round (1005 / 1000) = 1131529406376837 / 1125899906842624 := by
    rw [Binary64.round_eq_of_binade (-52) (by norm_num) (by norm_num [abs_of_pos])
      (by norm_num [abs_of_pos])]
    norm_num [roundHalfEven]
  have hprice : Binary64.round (1131529406376837 / 1125899906842624 * 10000) =
      5525045929574399 / 549755813888 := by
    rw [Binary64.round_eq_of_binade (-39) (by norm_num) (by norm_num [abs_of_pos])
      (by norm_num [abs_of_pos])]
    norm_num [roundHalfEven]
  constructor
  · simp only [klineRowWith, hclose, hprice, sub_self, zero_mul, Binary64.round_zero]
    norm_num [truncate]
  · norm_num [klineRow, truncate]

theorem convertKlineWith_eq_ok {round : ℚ → ℚ} {parts : List (List Char)} {r : BacktestRow}
    (h : convertKlineWith round parts = .ok r) : ∃ timestamp close volume high low,
      intField parts 0 = .ok timestamp ∧ floatField parts 4 = .ok close ∧
      floatField parts 5 = .ok volume ∧ floatField parts 2 = .ok high ∧
      floatField parts 3 = .ok low ∧
      klineRowWith round timestamp (round close) (round volume) (round high) (round low) = r := by
  simp only [convertKlineWith, floatFieldWith, bind_eq_ok] at h
  obtain ⟨t, ht, c, hc, v, hv, hi, hh, l, hl, hr⟩ := h
  cases hc' : floatField parts 4 <;> cases hv' : floatField parts 5 <;>
    cases hh' : floatField parts 2 <;> cases hl' : floatField parts 3 <;>
    simp only [hc', hv', hh', hl', Functor.map, Except.map, reduceCtorEq] at hc hv hh hl
  cases hc; cases hv; cases hh; cases hl
  exact ⟨t, _, _, _, _, ht, rfl, rfl, rfl, rfl, Except.ok.inj hr⟩

theorem convertAggTradeWith_eq_ok {round : ℚ → ℚ} {parts : List (List Char)} {r : BacktestRow}
    (h : convertAggTradeWith round parts = .ok r) : ∃ timestamp price quantity isBuyerMaker,
      intField parts 5 = .ok timestamp ∧ floatField parts 1 = .ok price ∧
      floatField parts 2 = .ok quantity ∧ getPart parts 6 = .ok isBuyerMaker ∧
      aggTradeRowWith round timestamp (round price) (round quantity)
        (isBuyerMaker.map Char.toLower == "true".toList) = r := by
  simp only [convertAggTradeWith, floatFieldWith, bind_eq_ok] at h
  obtain ⟨t, ht, p, hp, q, hq, b, hb, hr⟩ := h
  cases hp' : floatField parts 1 <;> cases hq' : floatField parts 2 <;>
    simp only [hp', hq', Functor.map, Except.map, reduceCtorEq] at hp hq
  cases hp; cases hq
  exact ⟨t, _, _, b, ht, rfl, rfl, hb, Except.ok.inj hr⟩

/-! ## The quotes in doubles -/

section KlineSpread

open Binary64 (abs_round_sub_le_of_abs_le le_round_of_le round_le_of_le round_one_tenth)

variable {high low : ℚ} (hhigh : |high| ≤ 10 ^ 9) (hlow : |low| ≤ 10 ^ 9)

include hhigh hlow in
/-- For a high and a low of size at most `10 ^ 9`, the double range lies within `10 ^ -6` of
the decimal one: each of the three roundings moves it by a relative `2 ^ -52` at most. -/
theorem abs_round_range_sub_le :
    |Binary64.round (Binary64.round high - Binary64.round low) - (high - low)| ≤ 1 / 10 ^ 6 := by
  have hh := abs_round_sub_le_of_abs_le hhigh (by norm_num)
  have hl := abs_round_sub_le_of_abs_le hlow (by norm_num)
  have hrange : |Binary64.round high - Binary64.round low| ≤ 2 * 10 ^ 9 + 1 :=
    calc |Binary64.round high - Binary64.round low|
        = |(Binary64.round high - high) - (Binary64.round low - low) + (high - low)| := by
          congr 1; ring
      _ ≤ 10 ^ 9 / 2 ^ 52 + 10 ^ 9 / 2 ^ 52 + (10 ^ 9 + 10 ^ 9) :=
        (abs_add _ _).trans (add_le_add ((abs_sub _ _).trans (add_le_add hh hl))
          ((abs_sub _ _).trans (add_le_add hhigh hlow)))
      _ ≤ 2 * 10 ^ 9 + 1 := by norm_num
  have hd := abs_round_sub_le_of_abs_le hrange (by norm_num)
  calc |Binary64.round (Binary64.round high - Binary64.round low) - (high - low)|
      = |(Binary64.round (Binary64.round high - Binary64.round low) -
          (Binary64.round high - Binary64.round low)) + (Binary64.round high - high) -
          (Binary64.round low - low)| := by congr 1; ring
    _ ≤ (2 * 10 ^ 9 + 1) / 2 ^ 52 + 10 ^ 9 / 2 ^ 52 + 10 ^ 9 / 2 ^ 52 :=
        (abs_sub _ _).trans (add_le_add ((abs_add _ _).trans (add_le_add hd hh)) hl)
    _ ≤ 1 / 10 ^ 6 := by norm_num

include hhigh hlow in
/-- A range of `0.0021` or more gives a double spread of two ticks at least. -/
theorem two_le_round_spread (hwide : 21 / 10000 ≤ high - low) :
    2 ≤ Binary64.round (Binary64.round (Binary64.round (Binary64.round high - Binary64.round low) *
      10000) * Binary64.round (1 / 10)) := by
  have hd := (abs_le.1 (abs_round_range_sub_le hhigh hlow)).1
  have hticks := le_round_of_le (show (1 : ℚ) / 2 ^ 1022 ≤ 2099 / 100 by norm_num)
    (show 2099 / 100 ≤ Binary64.round (Binary64.round high - Binary64.round low) * 10000 by
      linarith only [hd, hwide])
  rw [round_one_tenth]
  exact le_trans (by norm_num) (le_round_of_le (show (1 : ℚ) / 2 ^ 1022 ≤ 2095 / 1000 by norm_num)
    (le_trans (by norm_num) (mul_le_mul_of_nonneg_right hticks (by norm_num))))

include hhigh hlow in
/-- A range of `0.0019` or less gives a double spread below two ticks. -/
theorem round_spread_lt_two (hnarrow : high - low ≤ 19 / 10000) :
    Binary64.round (Binary64.round (Binary64.round (Binary64.round high - Binary64.round low) *
      10000) * Binary64.round (1 / 10)) < 2 := by
  have hd := (abs_le.1 (abs_round_range_sub_le hhigh hlow)).2
  have hticks := round_le_of_le (show (1 : ℚ) / 2 ^ 1022 ≤ 1901 / 100 by norm_num)
    (show Binary64.round (Binary64.round high - Binary64.round low) * 10000 ≤ 1901 / 100 by
      linarith only [hd, hnarrow])
  rw [round_one_tenth]
  exact lt_of_le_of_lt (round_le_of_le (show (1 : ℚ) / 2 ^ 1022 ≤ 1905 / 1000 by norm_num)
    (le_trans (mul_le_mul_of_nonneg_right hticks (by norm_num)) (by norm_num))) (by norm_num)

end KlineSpread

section KlineQuote

variable (openTime : ℤ) (close volume high low : ℚ)

theorem klineRowWith_bid_le (round : ℚ → ℚ) :
    (klineRowWith round openTime close volume high low).bid ≤ truncate (round (close * 10000)) := by
  simp only [klineRowWith]
  omega

theorem le_klineRowWith_ask (round : ℚ → ℚ) :
    truncate (round (close * 10000)) ≤ (klineRowWith round openTime close volume high low).ask := by
  simp only [klineRowWith]
  omega

variable {high low}

/-- In doubles, a kline quotes its bid below its ask when its range is `0.0021` or more, and
at its ask when the range is `0.0019` or less: there the spread is one tick at most, and
halving it leaves nothing on either side. -/
theorem klineRowWith_round_quote (hhigh : |high| ≤ 10 ^ 9) (hlow : |low| ≤ 10 ^ 9) :
    let r := klineRowWith Binary64.round openTime close volume (Binary64.round high)
      (Binary64.round low)
    (21 / 10000 ≤ high - low → r.bid < r.ask) ∧ (high - low ≤ 19 / 10000 → r.bid = r.ask) := by
  refine ⟨fun hwide => ?_, fun hnarrow => ?_⟩
  · have := (le_truncate_iff two_pos).2 (by exact_mod_cast two_le_round_spread hhigh hlow hwide)
    simp only [klineRowWith]
    omega
  · have := (le_truncate_iff (z := 2) two_pos).not.2
      (not_le.2 (by exact_mod_cast round_spread_lt_two hhigh hlow hnarrow))
    simp only [klineRowWith]
    omega

end KlineQuote

/-- Between `0.0019` and `0.0021` the rounding decides. A range of exactly `0.002`, from a low
of `100.001` to a high of `100.003`, gives a spread of two ticks in exact arithmetic, so the
bid is below the ask; in doubles the range comes out just below `0.002`, the spread truncates
to one tick, and the bid is the ask. -/
theorem klineRowWith_round_range_boundary :
    let r := klineRowWith Binary64.round 0 100 0 (Binary64.round (100003 / 1000))
      (Binary64.round (100001 / 1000))
    r.bid = r.ask ∧ (klineRow 0 100 0 (100003 / 1000) (100001 / 1000)).bid <
      (klineRow 0 100 0 (100003 / 1000) (100001 / 1000)).ask := by
  have hhigh : Binary64.round (100003 / 1000) = 7037085523998933 / 70368744177664 := by
    rw [Binary64.round_eq_of_binade (-46) (by norm_num) (by norm_num [abs_of_pos])
      (by norm_num [abs_of_pos])]
    norm_num [roundHalfEven]
  have hlow : Binary64.round (100001 / 1000) = 3518472393255289 / 35184372088832 := by
    rw [Binary64.round_eq_of_binade (-46) (by norm_num) (by norm_num [abs_of_pos])
      (by norm_num [abs_of_pos])]
    norm_num [roundHalfEven]
  have hrange : Binary64.round (140737488355 / 70368744177664) =
      140737488355 / 70368744177664 := by
    have h := Binary64.round_intCast_mul_zpow 140737488355 (e := -46) (by norm_num) (by norm_num)
    norm_num at h
    exact h
  have hticks : Binary64.round (87960930221875 / 4398046511104) =
      87960930221875 / 4398046511104 := by
    have h := Binary64.round_intCast_mul_zpow 1407374883550000 (e := -46) (by norm_num)
      (by norm_num)
    norm_num at h
    exact h
  have hspread :
      Binary64.round (316912650056318777627473084375 / 158456325028528675187087900672) =
        17592186044375 / 8796093022208 := by
    rw [Binary64.round_eq_of_binade (-52) (by norm_num) (by norm_num [abs_of_pos])
      (by norm_num [abs_of_pos])]
    norm_num [roundHalfEven]
  constructor
  · simp only [klineRowWith, hhigh, hlow, Binary64.round_one_tenth]
    norm_num [hrange, hticks, hspread, truncate]
  · norm_num [klineRow, truncate]

/-- An aggTrade row quotes its bid below its ask, with the trade price between them, whatever
the rounding. -/
theorem aggTradeRowWith_quote (round : ℚ → ℚ) (timestamp : ℤ) (price quantity : ℚ)
    (isBuyer : Bool) :
    let r := aggTradeRowWith round timestamp price quantity isBuyer
    r.bid < r.ask ∧ r.bid ≤ truncate (round (price * 10000)) ∧
      truncate (round (price * 10000)) ≤ r.ask := by
  cases isBuyer <;> simp only [aggTradeRowWith, Bool.false_eq_true, if_false, if_true] <;> omega

/-- What a row written for a line quotes as the code computes it, in doubles, in terms of the
decimals of the line's fields: a kline row quotes `int(close * 10000)` between its bid and
its ask; for a high and a low of size at most `10 ^ 9`, its bid is below its ask when the
range `high - low` is `0.0021` or more and equal to it when the range is `0.0019` or less,
the rounding of the range deciding in between. An aggTrade row quotes its bid below its ask,
with `int(price * 10000)` between them. -/
def QuotesAround (dataType : String) (line : List Char) (r : BacktestRow) : Prop :=
  let parts := (strip line).splitOn ','
  (dataType = "klines" ∧ ∃ close high low, floatField parts 4 = .ok close ∧
    floatField parts 2 = .ok high ∧ floatField parts 3 = .ok low ∧
    r.bid ≤ truncate (Binary64.round (Binary64.round close * 10000)) ∧
    truncate (Binary64.round (Binary64.round close * 10000)) ≤ r.ask ∧
    (|high| ≤ 10 ^ 9 → |low| ≤ 10 ^ 9 →
      (21 / 10000 ≤ high - low → r.bid < r.ask) ∧ (high - low ≤ 19 / 10000 → r.bid = r.ask))) ∨
  (dataType = "aggtrades" ∧ ∃ price, floatField parts 1 = .ok price ∧ r.bid < r.ask ∧
    r.bid ≤ truncate (Binary64.round (Binary64.round price * 10000)) ∧
    truncate (Binary64.round (Binary64.round price * 10000)) ≤ r.ask)

theorem convertRowWith_round_quotesAround {dataType : String} {line : List Char}
    {r : BacktestRow} (hrow : convertRowWith Binary64.round dataType line = .ok (some r)) :
    QuotesAround dataType line r := by
  unfold convertRowWith at hrow
  split_ifs at hrow with hklines haggtrades
  · obtain ⟨t, c, v, h, l, -, hc, -, hh, hl, rfl⟩ := convertKlineWith_eq_ok (some_map_eq_ok.1 hrow)
    exact .inl ⟨hklines, c, h, l, hc, hh, hl, klineRowWith_bid_le .., le_klineRowWith_ask ..,
      klineRowWith_round_quote t _ _ ⟩
  · obtain ⟨t, p, q, b, -, hp, -, -, rfl⟩ := convertAggTradeWith_eq_ok (some_map_eq_ok.1 hrow)
    exact .inr ⟨haggtrades, p, hp, aggTradeRowWith_quote ..⟩
  · cases hrow

/-- A flat candle: open, high, low and close all `100.0`. -/
def flatKline : List Char :=
  "1700000000000,100.0,100.0,100.0,100.0,5.0,1700000059999,500.0,10,2.5,250.0,0\n".toList

theorem convertRowWith_round_quotesAround_flatKline :
    convertRowWith Binary64.round "klines" flatKline =
        .ok (some ⟨1700000000000, 1000000, 1000000, 5, 5⟩) ∧
      QuotesAround "klines" flatKline ⟨1700000000000, 1000000, 1000000, 5, 5⟩ :=
  have hrow : convertRowWith Binary64.round "klines" flatKline =
      .ok (some ⟨1700000000000, 1000000, 1000000, 5, 5⟩) := by
    have hprice : ∀ i ∈ [2, 3, 4], floatField ((strip flatKline).splitOn ',') i = .ok 100 := by
      simp only [List.mem_cons, List.mem_singleton, List.not_mem_nil, or_false]
      rintro i (rfl | rfl | rfl) <;>
        rw [floatField_of_decimalLiteral (d := ⟨false, 1000, -1⟩) (by decide)] <;>
        norm_num [Decimal.value, signed]
    have hvolume : floatField ((strip flatKline).splitOn ',') 5 = .ok 5 := by
      rw [floatField_of_decimalLiteral (d := ⟨false, 50, -1⟩) (by decide)]
      norm_num [Decimal.value, signed]
    have hkline : klineRowWith Binary64.round 1700000000000 (Binary64.round 100)
        (Binary64.round 5) (Binary64.round 100) (Binary64.round 100) =
          ⟨1700000000000, 1000000, 1000000, 5, 5⟩ := by
      norm_num [klineRowWith, truncate]
      decide
    rw [convertRowWith, if_pos rfl, ← hkline]
    simp only [convertKlineWith, floatFieldWith, hprice 2 (by simp), hprice 3 (by simp),
      hprice 4 (by simp), hvolume, show intField ((strip flatKline).splitOn ',') 0 =
        .ok 1700000000000 by decide]
    rfl
  ⟨hrow, convertRowWith_round_quotesAround hrow⟩

theorem convertKline_flatKline :
    convertKline ((strip flatKline).splitOn ',') = .ok ⟨1700000000000, 1000000, 1000000, 5, 5⟩ := by
  have hrow : convertKline ((strip flatKline).splitOn ',') = .ok (klineRow 1700000000000
      (Decimal.value ⟨false, 1000, -1⟩) (Decimal.value ⟨false, 50, -1⟩)
      (Decimal.value ⟨false, 1000, -1⟩) (Decimal.value ⟨false, 1000, -1⟩)) :=
    convertKline_eq_ok.2 ⟨_, _, _, _, _, by decide, floatField_of_decimalLiteral (by decide),
      floatField_of_decimalLiteral (by decide), floatField_of_decimalLiteral (by decide),
      floatField_of_decimalLiteral (by decide), rfl⟩
  rw [hrow]
  norm_num [klineRow, Decimal.value, signed, truncate]
  decide

/-- The flat candle is written with its bid at its ask. -/
theorem convertRow_flatKline :
    convertRow "klines" flatKline = .ok (some ⟨1700000000000, 1000000, 1000000, 5, 5⟩) := by
  rw [convertRow, if_pos rfl, convertKline_flatKline]
  rfl

/-! ## The file -/

/-- The loop over the lines: what it writes, and the exception that ends it, if any. -/
def convertLines (dataType : String) : List (List Char) → List Char × Option String
  | [] => ([], none)
  | line :: rest =>
    match convertRow dataType line with
    | .error e => ([], some e)
    | .ok none => convertLines dataType rest
    | .ok (some row) =>
      (row.text ++ (convertLines dataType rest).1, (convertLines dataType rest).2)

/-- `convert_to_backtest_format`: the text it writes and the exception it raises, if any. The
header is written first; the first line is skipped unless it starts with a digit, and an empty
input fails at `first_line[0]`. -/
def convertToBacktestFormat (input : List Char) (dataType : String) : List Char × Option String :=
  match lines (readText input) with
  | [] => (backtestHeader, some "string index out of range")
  | firstLine :: rest =>
    let dataLines := if firstLine.head?.any Char.isDigit then firstLine :: rest else rest
    (backtestHeader ++ (convertLines dataType dataLines).1, (convertLines dataType dataLines).2)

/-! ## What the written file reads back as -/

/-- The five fields of a written row. -/
def BacktestRow.fields (r : BacktestRow) : List (List Char) :=
  [(toString r.timestamp).toList, (toString r.bid).toList, (toString r.ask).toList,
    (toString r.bidSize).toList, (toString r.askSize).toList]

theorem BacktestRow.text_eq (r : BacktestRow) : r.text = [','].intercalate r.fields ++ ['\n'] := by
  simp [BacktestRow.text, BacktestRow.fields, List.intercalate]

theorem toString_chars (i : ℤ) : ∀ c ∈ (toString i).toList, c ≠ ',' ∧ c ≠ '\n' ∧ ¬isSpace c := by
  have hdigit : ∀ {front : List Char}, (∀ c ∈ front, ∃ k < 10, c = Nat.digitChar k) →
      ∀ c ∈ front, c ≠ ',' ∧ c ≠ '\n' ∧ ¬isSpace c := fun hfront c hc => by
    obtain ⟨k, hk, rfl⟩ := hfront c hc
    obtain ⟨-, -, hspace, -, -, hcomma, hnewline⟩ := digitChar_facts k hk
    exact ⟨hcomma, hnewline, hspace⟩
  cases i with
  | ofNat m =>
    obtain ⟨front, hfront, -, hdigits, -⟩ := toString_digits m
    exact (show (toString (Int.ofNat m)).toList = front from hfront) ▸ hdigit hdigits
  | negSucc m =>
    obtain ⟨front, hfront, -, hdigits, -⟩ := toString_digits (m + 1)
    rw [show (toString (Int.negSucc m)).toList = '-' :: front from congrArg (List.cons '-') hfront]
    exact List.forall_mem_cons.2 ⟨by decide, hdigit hdigits⟩

theorem BacktestRow.mem_fields (r : BacktestRow) {c : Char}
    (hc : c ∈ [','].intercalate r.fields) : c = ',' ∨ c ≠ ',' ∧ c ≠ '\n' ∧ ¬isSpace c := by
  simp only [BacktestRow.fields, List.intercalate, List.intersperse_cons₂, List.intersperse_single,
    List.flatten, List.mem_append, List.append_nil] at hc
  rcases hc with h | h | h | h | h | h | h | h | h
  all_goals first
    | exact .inl (List.eq_of_mem_singleton h)
    | exact .inr (toString_chars _ c h)

theorem BacktestRow.lines_text (r : BacktestRow) : lines r.text = [r.text] := by
  rw [BacktestRow.text_eq]
  refine lines_line fun h => ?_
  rcases r.mem_fields h with h | ⟨-, h, -⟩
  · cases h
  · exact h rfl

theorem BacktestRow.splitOn_text (r : BacktestRow) : (strip r.text).splitOn ',' = r.fields := by
  rw [BacktestRow.text_eq, strip_append_of_isSpace (by decide), strip_of_not_isSpace fun c hc => ?_]
  · refine List.splitOn_intercalate r.fields ',' (fun l hl hcomma => ?_)
      (by simp [BacktestRow.fields])
    simp only [BacktestRow.fields, List.mem_cons, List.mem_singleton] at hl
    rcases hl with rfl | rfl | rfl | rfl | rfl | hl
    all_goals first
      | exact (toString_chars _ ',' hcomma).1 rfl
      | cases hl
  · rcases r.mem_fields hc with rfl | ⟨-, -, hspace⟩
    exacts [by decide, hspace]

/-- A written row is one line of five comma-separated fields that `int()` reads back as the
row. -/
theorem BacktestRow.readBack (r : BacktestRow) :
    ((strip r.text).splitOn ',').map parseInt =
      [.ok r.timestamp, .ok r.bid, .ok r.ask, .ok r.bidSize, .ok r.askSize] := by
  simp only [BacktestRow.splitOn_text, BacktestRow.fields, List.map_cons, List.map_nil,
    parseInt_toString]

theorem BacktestRow.endsLine_text (r : BacktestRow) : EndsLine r.text :=
  .inr (by rw [BacktestRow.text_eq]; simp)

theorem convertLines_rows (dataType : String) : ∀ ls : List (List Char),
    ∃ rows : List BacktestRow, (convertLines dataType ls).1 = (rows.map BacktestRow.text).flatten
  | [] => ⟨[], rfl⟩
  | line :: rest => by
    obtain ⟨rows, hrows⟩ := convertLines_rows dataType rest
    unfold convertLines
    split
    · exact ⟨[], rfl⟩
    · exact ⟨rows, hrows⟩
    · rename_i row _
      exact ⟨row :: rows, by simp [hrows]⟩

/-- Whatever it raises, what `convert_to_backtest_format` has written is its header line, then
whole lines, one per row, each of five comma-separated fields that `int()` reads back as the
row. -/
theorem convertToBacktestFormat_readsBack (input : List Char) (dataType : String) :
    ∃ rows : List BacktestRow,
      lines (convertToBacktestFormat input dataType).1 =
        backtestHeader :: rows.map BacktestRow.text ∧
      ∀ r ∈ rows, ((strip r.text).splitOn ',').map parseInt =
        [.ok r.timestamp, .ok r.bid, .ok r.ask, .ok r.bidSize, .ok r.askSize] := by
  obtain ⟨rows, hwritten⟩ : ∃ rows : List BacktestRow, (convertToBacktestFormat input dataType).1 =
      backtestHeader ++ (rows.map BacktestRow.text).flatten := by
    unfold convertToBacktestFormat
    split
    · exact ⟨[], by simp⟩
    · exact (convertLines_rows dataType _).imp fun rows hrows => by dsimp only; rw [hrows]
  refine ⟨rows, ?_, fun r _ => r.readBack⟩
  have hrows : ∀ t ∈ (rows.map BacktestRow.text).dropLast, EndsLine t := fun t ht => by
    obtain ⟨r, -, rfl⟩ := List.mem_map.1 (List.dropLast_subset _ ht)
    exact r.endsLine_text
  rw [hwritten, lines_append (by decide), lines_flatten hrows,
    show lines backtestHeader = [backtestHeader] by decide]
  simp only [List.flatMap_map, Function.comp_def, BacktestRow.lines_text, List.singleton_append]
  exact congrArg _ (List.flatMap_pure_eq_map _ _)

end Download

end HftTradingSystem
