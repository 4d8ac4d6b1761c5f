import Mathlib.Algebra.Order.Field.Rat
import Mathlib.Tactic.FieldSimp
import Mathlib.Tactic.Linarith
import Mathlib.Tactic.Ring

/-!
# Position tracking

`Position.on_fill` of the trading bot in exact rational arithmetic, with `unrealized_pnl` and
`total_pnl`, and `onFillWith`, the same code with the rounding of each float operation as a
parameter. A SELL is the mirror image of a BUY: negating the quantity and the realized PnL
turns one into the other (`onFill_sell`), so the regimes of a fill are worked out for BUY only.
-/

namespace HftTradingSystem

/-- Order side, the strings `"BUY"` and `"SELL"` of the bot. -/
inductive Side
  | buy
  | sell
  deriving DecidableEq, Repr

namespace Side

/-- `+1` for a BUY and `-1` for a SELL. -/
def sign : Side → ℚ
  | buy => 1
  | sell => -1

@[simp] theorem sign_buy : buy.sign = 1 := rfl

@[simp] theorem sign_sell : sell.sign = -1 := rfl

end Side

/-- One execution of a bot order. -/
structure Fill where
  /-- Side of the bot's order. -/
  side : Side
  /-- Executed quantity. -/
  qty : ℚ
  /-- Execution price. -/
  price : ℚ
  deriving DecidableEq, Repr

/-- Current position and PnL tracking; the defaults are those of a fresh `Position()`. The
floats are exact rationals; `onFillWith` rounds what `on_fill` computes. -/
@[ext]
structure Position where
  /-- Signed quantity: positive long, negative short. -/
  quantity : ℚ := 0
  /-- Average entry price of the open side. -/
  avgPrice : ℚ := 0
  /-- PnL locked in by closed quantity. -/
  realizedPnl : ℚ := 0
  /-- Number of fills applied. -/
  totalTrades : ℕ := 0
  deriving DecidableEq, Repr

namespace Position

/-- Update the position on a fill. -/
def onFill (p : Position) (side : Side) (qty price : ℚ) : Position :=
  match side with
  | .buy =>
      if 0 ≤ p.quantity then
        -- adding to long
        let totalCost := p.quantity * p.avgPrice + qty * price
        let quantity := p.quantity + qty
        { p with
          quantity
          avgPrice := if 0 < quantity then totalCost / quantity else 0
          totalTrades := p.totalTrades + 1 }
      else
        -- covering short
        let cover := min qty (-p.quantity)
        let quantity := p.quantity + qty
        { quantity
          avgPrice := if 0 < quantity then price else p.avgPrice
          realizedPnl := p.realizedPnl + cover * (p.avgPrice - price)
          totalTrades := p.totalTrades + 1 }
  | .sell =>
      if p.quantity ≤ 0 then
        -- adding to short
        let totalCost := |p.quantity| * p.avgPrice + qty * price
        let quantity := p.quantity - qty
        { p with
          quantity
          avgPrice := if quantity ≠ 0 then totalCost / |quantity| else 0
          totalTrades := p.totalTrades + 1 }
      else
        -- closing long
        let close := min qty p.quantity
        let quantity := p.quantity - qty
        { quantity
          avgPrice := if quantity < 0 then price else p.avgPrice
          realizedPnl := p.realizedPnl + close * (price - p.avgPrice)
          totalTrades := p.totalTrades + 1 }

/-- `on_fill` in float arithmetic: every addition, subtraction, multiplication and division
gives its exact result passed through `round`, Python's doubles being
`Binary64.round`; `abs`, `min` and negation are exact in floats. `onFill` is
`onFillWith id`. -/
def onFillWith (round : ℚ → ℚ) (p : Position) (side : Side) (qty price : ℚ) : Position :=
  match side with
  | .buy =>
      if 0 ≤ p.quantity then
        let totalCost := round (round (p.quantity * p.avgPrice) + round (qty * price))
        let quantity := round (p.quantity + qty)
        { p with
          quantity
          avgPrice := if 0 < quantity then round (totalCost / quantity) else 0
          totalTrades := p.totalTrades + 1 }
      else
        let cover := min qty (-p.quantity)
        let quantity := round (p.quantity + qty)
        { quantity
          avgPrice := if 0 < quantity then price else p.avgPrice
          realizedPnl := round (p.realizedPnl + round (cover * round (p.avgPrice - price)))
          totalTrades := p.totalTrades + 1 }
  | .sell =>
      if p.quantity ≤ 0 then
        let totalCost := round (round (|p.quantity| * p.avgPrice) + round (qty * price))
        let quantity := round (p.quantity - qty)
        { p with
          quantity
          avgPrice := if quantity ≠ 0 then round (totalCost / |quantity|) else 0
          totalTrades := p.totalTrades + 1 }
      else
        let close := min qty p.quantity
        let quantity := round (p.quantity - qty)
        { quantity
          avgPrice := if quantity < 0 then price else p.avgPrice
          realizedPnl := round (p.realizedPnl + round (close * round (price - p.avgPrice)))
          totalTrades := p.totalTrades + 1 }

theorem onFillWith_id : onFillWith id = onFill := rfl

/-- Unrealized PnL at the current price. -/
def unrealizedPnl (p : Position) (currentPrice : ℚ) : ℚ :=
  if p.quantity = 0 then 0 else p.quantity * (currentPrice - p.avgPrice)

/-- Realized plus unrealized PnL. -/
def totalPnl (p : Position) (currentPrice : ℚ) : ℚ :=
  p.realizedPnl + p.unrealizedPnl currentPrice

/-- Apply fills one by one, oldest first. -/
def applyFills (p : Position) (fills : List Fill) : Position :=
  fills.foldl (fun p f => p.onFill f.side f.qty f.price) p

@[simp]
theorem applyFills_nil (p : Position) : p.applyFills [] = p := rfl

@[simp]
theorem applyFills_append (p : Position) (fills more : List Fill) :
    p.applyFills (fills ++ more) = (p.applyFills fills).applyFills more := by
  simp [applyFills, List.foldl_append]

@[simp]
theorem applyFills_singleton (p : Position) (f : Fill) :
    p.applyFills [f] = p.onFill f.side f.qty f.price := rfl

@[simp]
theorem onFill_quantity (p : Position) (side : Side) (qty price : ℚ) :
    (p.onFill side qty price).quantity = p.quantity + side.sign * qty := by
  cases side <;> simp only [onFill] <;> split <;> simp [sub_eq_add_neg]

@[simp]
theorem onFill_totalTrades (p : Position) (side : Side) (qty price : ℚ) :
    (p.onFill side qty price).totalTrades = p.totalTrades + 1 := by
  cases side <;> simp only [onFill] <;> split <;> rfl

/-! ## The mirror image -/

/-- Negate quantity and realized PnL, keeping the average price and the fill count. -/
def mirror (p : Position) : Position :=
  { p with quantity := -p.quantity, realizedPnl := -p.realizedPnl }

@[simp] theorem mirror_quantity (p : Position) : p.mirror.quantity = -p.quantity := rfl

@[simp] theorem mirror_avgPrice (p : Position) : p.mirror.avgPrice = p.avgPrice := rfl

@[simp] theorem mirror_realizedPnl (p : Position) : p.mirror.realizedPnl = -p.realizedPnl := rfl

@[simp] theorem mirror_totalTrades (p : Position) : p.mirror.totalTrades = p.totalTrades := rfl

@[simp]
theorem mirror_mirror (p : Position) : p.mirror.mirror = p := by
  ext <;> simp

/-- A SELL of a nonnegative quantity is the mirror of a BUY on the mirrored position. -/
theorem onFill_sell (p : Position) {qty : ℚ} (price : ℚ) (hqty : 0 ≤ qty) :
    p.onFill .sell qty price = (p.mirror.onFill .buy qty price).mirror := by
  by_cases hshort : p.quantity ≤ 0
  · have hbuy : 0 ≤ -p.quantity := by linarith
    simp only [onFill, mirror, hshort, hbuy, if_true]
    ext
    · simp; ring
    · simp only [abs_of_nonpos hshort, abs_of_nonpos (by linarith : p.quantity - qty ≤ 0)]
      by_cases hflat : p.quantity - qty = 0
      · have hnot : ¬ 0 < -p.quantity + qty := by linarith
        simp [hflat, hnot]
      · have hpos : 0 < -p.quantity + qty := by
          rcases lt_or_eq_of_le (by linarith : p.quantity - qty ≤ 0) with h | h
          · linarith
          · exact absurd h hflat
        simp only [ne_eq, hflat, not_false_eq_true, if_true, hpos]
        ring
    · simp
    · simp
  · have hbuy : ¬ 0 ≤ -p.quantity := by linarith
    simp only [onFill, mirror, hshort, hbuy, if_false]
    ext
    · simp; ring
    · simp
    · simp; ring
    · simp

/-! ## The three regimes of a BUY -/

section Buy

variable (p : Position) {qty : ℚ} (price : ℚ)

/-- A BUY on a flat or long position averages the entry price by cost. -/
theorem onFill_buy_of_nonneg (hqty : 0 < qty) (hlong : 0 ≤ p.quantity) :
    p.onFill .buy qty price =
      { quantity := p.quantity + qty
        avgPrice := (p.quantity * p.avgPrice + qty * price) / (p.quantity + qty)
        realizedPnl := p.realizedPnl
        totalTrades := p.totalTrades + 1 } := by
  have hpos : 0 < p.quantity + qty := by linarith
  simp [onFill, hlong, hpos]

/-- A BUY that covers part or all of a short keeps the average price. -/
theorem onFill_buy_of_cover (hshort : p.quantity < 0) (hcover : p.quantity + qty ≤ 0) :
    p.onFill .buy qty price =
      { quantity := p.quantity + qty
        avgPrice := p.avgPrice
        realizedPnl := p.realizedPnl + qty * (p.avgPrice - price)
        totalTrades := p.totalTrades + 1 } := by
  have hmin : min qty (-p.quantity) = qty := min_eq_left (by linarith)
  simp [onFill, not_le.2 hshort, hmin, not_lt.2 hcover]

/-- A BUY that covers a short and goes long resets the average to the fill price. -/
theorem onFill_buy_of_flip (hshort : p.quantity < 0) (hflip : 0 < p.quantity + qty) :
    p.onFill .buy qty price =
      { quantity := p.quantity + qty
        avgPrice := price
        realizedPnl := p.realizedPnl - p.quantity * (p.avgPrice - price)
        totalTrades := p.totalTrades + 1 } := by
  have hmin : min qty (-p.quantity) = -p.quantity := min_eq_right (by linarith)
  simp [onFill, not_le.2 hshort, hmin, hflip, sub_eq_add_neg]

end Buy

end Position

end HftTradingSystem
