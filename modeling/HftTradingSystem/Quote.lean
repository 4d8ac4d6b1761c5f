import Mathlib.Algebra.Order.Field.Rat
import Mathlib.Data.Rat.Floor
import Mathlib.Tactic.Linarith
import Mathlib.Tactic.Ring

/-!
# Quotes

`MarketMaker.calculate_quotes` and the fixed-point formatting `place_order` applies to the
prices and sizes it submits. The quotes are computed in exact arithmetic, and
`calculateQuotesWith` rounds each float operation. Formatting is modelled on the exact value of
its argument: round to the nearest multiple of `10 ^ -decimals`, halves to even, as Python's
`f"{x:.{d}f}"` does.
-/

namespace HftTradingSystem

/-- Market making strategy parameters, with the defaults of `StrategyConfig()`. -/
structure StrategyConfig where
  /-- Full spread in basis points. -/
  spreadBps : ℤ := 10
  /-- Size of each quote. -/
  quoteSize : ℚ := 1 / 1000
  /-- Largest absolute inventory the sizes allow for. -/
  maxPosition : ℚ := 1 / 100
  /-- Share of the half spread the inventory skews the quotes by. -/
  skewFactor : ℚ := 1 / 2
  /-- Decimal places of submitted prices. -/
  priceDecimals : ℕ := 2
  /-- Decimal places of submitted quantities. -/
  qtyDecimals : ℕ := 5
  deriving DecidableEq, Repr

/-- Bid and ask prices and sizes, the tuple `calculate_quotes` returns. -/
structure Quote where
  bidPrice : ℚ
  askPrice : ℚ
  bidSize : ℚ
  askSize : ℚ
  deriving DecidableEq, Repr

namespace MarketMaker

/-- Bid and ask prices skewed by the inventory, and sizes capped by the position limit, in
exact arithmetic. -/
def calculateQuotes (config : StrategyConfig) (midPrice position : ℚ) : Quote :=
  let halfSpread := midPrice * ((config.spreadBps : ℚ) / 2) / 10000
  let positionRatio := if 0 < config.maxPosition then position / config.maxPosition else 0
  let skew := halfSpread * positionRatio * config.skewFactor
  { bidPrice := midPrice - halfSpread - skew
    askPrice := midPrice + halfSpread - skew
    bidSize := min config.quoteSize (max 0 (config.maxPosition - position))
    askSize := min config.quoteSize (max 0 (config.maxPosition + position)) }

/-- `calculate_quotes` in float arithmetic: every addition, subtraction, multiplication and
division gives its exact result passed through `round`, as in `Position.onFillWith`; `min` and
`max` are exact. `calculateQuotes` is `calculateQuotesWith id`. -/
def calculateQuotesWith (round : ℚ → ℚ) (config : StrategyConfig) (midPrice position : ℚ) :
    Quote :=
  let halfSpread := round (round (midPrice * round ((config.spreadBps : ℚ) / 2)) / 10000)
  let positionRatio :=
    if 0 < config.maxPosition then round (position / config.maxPosition) else 0
  let skew := round (round (halfSpread * positionRatio) * config.skewFactor)
  { bidPrice := round (round (midPrice - halfSpread) - skew)
    askPrice := round (round (midPrice + halfSpread) - skew)
    bidSize := min config.quoteSize (max 0 (round (config.maxPosition - position)))
    askSize := min config.quoteSize (max 0 (round (config.maxPosition + position))) }

theorem calculateQuotesWith_id : calculateQuotesWith id = calculateQuotes := rfl

section

variable (config : StrategyConfig) (midPrice position : ℚ)

/-- The half spread of `calculate_quotes`. -/
def halfSpread : ℚ := midPrice * ((config.spreadBps : ℚ) / 2) / 10000

/-- The inventory skew of `calculate_quotes`. -/
def skew : ℚ :=
  halfSpread config midPrice *
    (if 0 < config.maxPosition then position / config.maxPosition else 0) * config.skewFactor

@[simp]
theorem calculateQuotes_bidPrice :
    (calculateQuotes config midPrice position).bidPrice =
      midPrice - halfSpread config midPrice - skew config midPrice position := rfl

@[simp]
theorem calculateQuotes_askPrice :
    (calculateQuotes config midPrice position).askPrice =
      midPrice + halfSpread config midPrice - skew config midPrice position := rfl

@[simp]
theorem calculateQuotes_bidSize :
    (calculateQuotes config midPrice position).bidSize =
      min config.quoteSize (max 0 (config.maxPosition - position)) := rfl

@[simp]
theorem calculateQuotes_askSize :
    (calculateQuotes config midPrice position).askSize =
      min config.quoteSize (max 0 (config.maxPosition + position)) := rfl

theorem halfSpread_nonneg (hbps : 0 ≤ config.spreadBps) (hmid : 0 < midPrice) :
    0 ≤ halfSpread config midPrice := by
  unfold halfSpread
  have : (0 : ℚ) ≤ config.spreadBps := by exact_mod_cast hbps
  positivity

theorem bidPrice_le_askPrice (hbps : 0 ≤ config.spreadBps) (hmid : 0 < midPrice) :
    (calculateQuotes config midPrice position).bidPrice ≤
      (calculateQuotes config midPrice position).askPrice := by
  simp only [calculateQuotes_bidPrice, calculateQuotes_askPrice]
  linarith [halfSpread_nonneg config midPrice hbps hmid]

/-- The skew moves the bid by less than one more half spread while there is room to buy. -/
theorem ratio_mul_skewFactor_lt_one (hskew : 0 ≤ config.skewFactor)
    (hskew' : config.skewFactor ≤ 1) (hroom : position < config.maxPosition) :
    (if 0 < config.maxPosition then position / config.maxPosition else 0) * config.skewFactor
      < 1 := by
  split
  · rename_i hmax
    have hratio : position / config.maxPosition < 1 := (div_lt_one hmax).2 hroom
    rcases le_or_lt 0 (position / config.maxPosition) with hnonneg | hneg
    · exact (mul_le_of_le_one_right hnonneg hskew').trans_lt hratio
    · exact (mul_nonpos_of_nonpos_of_nonneg hneg.le hskew).trans_lt one_pos
  · simp

/-- A bid that is quoted with a positive size has a positive price. -/
theorem bidPrice_pos (hbps : 0 ≤ config.spreadBps) (hbps' : config.spreadBps < 10000)
    (hskew : 0 ≤ config.skewFactor) (hskew' : config.skewFactor ≤ 1) (hmid : 0 < midPrice)
    (hsize : 0 < (calculateQuotes config midPrice position).bidSize) :
    0 < (calculateQuotes config midPrice position).bidPrice := by
  have hroom : position < config.maxPosition := by
    simp only [calculateQuotes_bidSize, lt_min_iff, lt_max_iff, lt_self_iff_false, false_or,
      sub_pos] at hsize
    exact hsize.2
  have hskew_le : skew config midPrice position ≤ halfSpread config midPrice := by
    rw [skew, mul_assoc]
    exact mul_le_of_le_one_right (halfSpread_nonneg config midPrice hbps hmid)
      (ratio_mul_skewFactor_lt_one config position hskew hskew' hroom).le
  have hspread : midPrice * config.spreadBps < midPrice * 10000 :=
    mul_lt_mul_of_pos_left (by exact_mod_cast hbps') hmid
  rw [calculateQuotes_bidPrice]
  unfold halfSpread at hskew_le ⊢
  linarith

/-- A BUY of the bid size never takes the inventory past the limit it started within. -/
theorem add_bidSize_le (hlimit : position ≤ config.maxPosition) :
    position + (calculateQuotes config midPrice position).bidSize ≤ config.maxPosition := by
  rw [calculateQuotes_bidSize, max_eq_right (by linarith)]
  linarith [min_le_right config.quoteSize (config.maxPosition - position)]

/-- A SELL of the ask size never takes the inventory past the opposite limit. -/
theorem sub_askSize_ge (hlimit : -config.maxPosition ≤ position) :
    -config.maxPosition ≤ position - (calculateQuotes config midPrice position).askSize := by
  rw [calculateQuotes_askSize, max_eq_right (by linarith)]
  linarith [min_le_right config.quoteSize (config.maxPosition + position)]

end

end MarketMaker

/-! ## Fixed-point formatting

`formatFixed` rounds the exact value it is given, as CPython formats the exact binary value of
a double. What reaches it from `calculateQuotes` is exact, where the code's doubles have
rounded each step: at a decimal tie the two can format differently.
-/

/-- Nearest integer, halves to even. -/
def roundHalfEven (x : ℚ) : ℤ :=
  if x - ⌊x⌋ < 1 / 2 then ⌊x⌋
  else if 1 / 2 < x - ⌊x⌋ then ⌊x⌋ + 1
  else if ⌊x⌋ % 2 = 0 then ⌊x⌋ else ⌊x⌋ + 1

/-- The decimal value of `f"{x:.{decimals}f}"`, rounded from the exact value `x`. -/
def formatFixed (decimals : ℕ) (x : ℚ) : ℚ :=
  roundHalfEven (x * 10 ^ decimals) / 10 ^ decimals

/-- Round-half-even rounds down exactly below one half, or at one half from an even floor. -/
theorem roundHalfEven_eq (x : ℚ) :
    roundHalfEven x =
      if x - ⌊x⌋ < 1 / 2 ∨ x - ⌊x⌋ = 1 / 2 ∧ ⌊x⌋ % 2 = 0 then ⌊x⌋ else ⌊x⌋ + 1 := by
  unfold roundHalfEven
  by_cases hbelow : x - ⌊x⌋ < 1 / 2
  · rw [if_pos hbelow, if_pos (.inl hbelow)]
  · by_cases habove : 1 / 2 < x - ⌊x⌋
    · have hup : ¬(x - ⌊x⌋ < 1 / 2 ∨ x - ⌊x⌋ = 1 / 2 ∧ ⌊x⌋ % 2 = 0) := by
        rintro (h | ⟨h, -⟩)
        exacts [hbelow h, habove.ne' h]
      rw [if_neg hbelow, if_pos habove, if_neg hup]
    · have hhalf : x - ⌊x⌋ = 1 / 2 := le_antisymm (not_lt.1 habove) (not_lt.1 hbelow)
      simp only [if_neg hbelow, if_neg habove, hhalf, true_and, lt_irrefl, false_or, if_false]

theorem roundHalfEven_mono {x y : ℚ} (hle : x ≤ y) : roundHalfEven x ≤ roundHalfEven y := by
  have hfloor : ⌊x⌋ ≤ ⌊y⌋ := Int.floor_mono hle
  rw [roundHalfEven_eq x, roundHalfEven_eq y]
  split_ifs with hdownx hdowny hdowny
  · exact hfloor
  · omega
  · -- `x` rounds up and `y` down, so `y` lies in a higher unit interval
    rcases lt_or_eq_of_le hfloor with hlt | heq
    · omega
    · have hfrac : x - ⌊y⌋ ≤ y - ⌊y⌋ := sub_le_sub_right hle _
      rw [heq, not_or, not_and, not_lt] at hdownx
      rcases hdowny with hbelow | ⟨hhalf, heven⟩
      · exact absurd (hdownx.1.trans hfrac) (not_le.2 hbelow)
      · exact absurd heven (hdownx.2 (le_antisymm (hhalf ▸ hfrac) hdownx.1))
  · omega

@[simp]
theorem roundHalfEven_intCast (n : ℤ) : roundHalfEven n = n := by
  simp [roundHalfEven]

@[simp]
theorem roundHalfEven_zero : roundHalfEven 0 = 0 := by
  simpa using roundHalfEven_intCast 0

theorem formatFixed_mono (decimals : ℕ) {x y : ℚ} (hle : x ≤ y) :
    formatFixed decimals x ≤ formatFixed decimals y := by
  have hscale : (0 : ℚ) < 10 ^ decimals := by positivity
  unfold formatFixed
  exact div_le_div_of_nonneg_right
    (by exact_mod_cast roundHalfEven_mono (mul_le_mul_of_nonneg_right hle hscale.le)) hscale.le

theorem roundHalfEven_le_add_half (x : ℚ) : (roundHalfEven x : ℚ) ≤ x + 1 / 2 := by
  rw [roundHalfEven_eq]
  split_ifs with hdown
  · exact (Int.floor_le x).trans (le_add_of_nonneg_right one_half_pos.le)
  · rw [not_or, not_lt] at hdown
    push_cast
    linarith [hdown.1]

theorem sub_half_le_roundHalfEven (x : ℚ) : x - 1 / 2 ≤ roundHalfEven x := by
  rw [roundHalfEven_eq]
  split_ifs with hdown
  · rcases hdown with hbelow | ⟨hhalf, -⟩ <;> linarith
  · push_cast
    linarith [Int.lt_floor_add_one x]

/-- Formatting raises a value by at most half a unit of its last decimal place. -/
theorem formatFixed_le_add (decimals : ℕ) (x : ℚ) :
    formatFixed decimals x ≤ x + 1 / 2 / 10 ^ decimals := by
  have hscale : (0 : ℚ) < 10 ^ decimals := by positivity
  calc formatFixed decimals x
      = roundHalfEven (x * 10 ^ decimals) / 10 ^ decimals := rfl
    _ ≤ (x * 10 ^ decimals + 1 / 2) / 10 ^ decimals :=
        div_le_div_of_nonneg_right (roundHalfEven_le_add_half _) hscale.le
    _ = x + 1 / 2 / 10 ^ decimals := by rw [add_div, mul_div_cancel_right₀ _ hscale.ne']

theorem formatFixed_nonneg (decimals : ℕ) {x : ℚ} (hx : 0 ≤ x) : 0 ≤ formatFixed decimals x := by
  simpa [formatFixed] using formatFixed_mono decimals hx

end HftTradingSystem
