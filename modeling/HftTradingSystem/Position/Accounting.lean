import HftTradingSystem.Binary64
import HftTradingSystem.Position.Basic

/-!
# Cash accounting of fills

Realized PnL less the cost of the open quantity is the cash the fills have moved, whatever
order adds, reductions, returns to flat and flips come in. Marking the open quantity to any
price then gives the mark-to-market value of all fills. A fill split into two parts at one
price is accounted exactly as the whole fill.
-/

namespace HftTradingSystem

namespace Fill

/-- Signed quantity of a fill: positive for a BUY. -/
def signedQty (f : Fill) : ℚ := f.side.sign * f.qty

/-- Cash a fill moves: received on a SELL, paid on a BUY. -/
def cashFlow (f : Fill) : ℚ := -(f.side.sign * f.qty * f.price)

end Fill

/-- Total notional `qty * price` of the fills of one side. -/
def notional (side : Side) (fills : List Fill) : ℚ :=
  ((fills.filter (·.side = side)).map fun f => f.qty * f.price).sum

theorem sum_cashFlow (fills : List Fill) :
    (fills.map Fill.cashFlow).sum = notional .sell fills - notional .buy fills := by
  induction fills with
  | nil => simp [notional]
  | cons f fills ih =>
      rcases f with ⟨_ | _, qty, price⟩ <;>
        simp [notional, Fill.cashFlow, List.filter_cons] at ih ⊢ <;> linarith

namespace Position

/-- Realized PnL less the entry cost of the open quantity. -/
def cashBalance (p : Position) : ℚ := p.realizedPnl - p.quantity * p.avgPrice

@[simp]
theorem mirror_cashBalance (p : Position) : p.mirror.cashBalance = -p.cashBalance := by
  simp [cashBalance]; ring

/-- Total PnL is the cash balance plus the open quantity marked at the price; an exactly
flat position has no open cost whatever its stale average price. -/
theorem totalPnl_eq (p : Position) (mark : ℚ) :
    p.totalPnl mark = p.cashBalance + p.quantity * mark := by
  by_cases hflat : p.quantity = 0
  · simp [totalPnl, unrealizedPnl, cashBalance, hflat]
  · simp [totalPnl, unrealizedPnl, cashBalance, hflat]; ring

theorem cashBalance_onFill_buy (p : Position) {qty : ℚ} (price : ℚ) (hqty : 0 < qty) :
    (p.onFill .buy qty price).cashBalance = p.cashBalance - qty * price := by
  rcases le_or_lt 0 p.quantity with hlong | hshort
  · rw [onFill_buy_of_nonneg p price hqty hlong]
    have hpos : p.quantity + qty ≠ 0 := by linarith
    simp only [cashBalance]
    field_simp
    ring
  · rcases le_or_lt (p.quantity + qty) 0 with hcover | hflip
    · rw [onFill_buy_of_cover p price hshort hcover]
      simp only [cashBalance]; ring
    · rw [onFill_buy_of_flip p price hshort hflip]
      simp only [cashBalance]; ring

/-- One fill moves the cash balance by exactly its cash flow. -/
theorem cashBalance_onFill (p : Position) (f : Fill) (hqty : 0 < f.qty) :
    (p.onFill f.side f.qty f.price).cashBalance = p.cashBalance + f.cashFlow := by
  rcases f with ⟨_ | _, qty, price⟩
  · simp [cashBalance_onFill_buy p price hqty, Fill.cashFlow, sub_eq_add_neg]
  · rw [onFill_sell p price hqty.le, mirror_cashBalance,
      cashBalance_onFill_buy _ price hqty]
    simp [Fill.cashFlow]; ring

theorem applyFills_quantity (p : Position) (fills : List Fill) :
    (p.applyFills fills).quantity = p.quantity + (fills.map Fill.signedQty).sum := by
  induction fills generalizing p with
  | nil => simp
  | cons f fills ih =>
      rw [show f :: fills = [f] ++ fills from rfl, applyFills_append, ih]
      simp [Fill.signedQty]; ring

theorem applyFills_totalTrades (p : Position) (fills : List Fill) :
    (p.applyFills fills).totalTrades = p.totalTrades + fills.length := by
  induction fills generalizing p with
  | nil => simp
  | cons f fills ih =>
      rw [show f :: fills = [f] ++ fills from rfl, applyFills_append, ih]
      simp; omega

theorem applyFills_cashBalance (p : Position) (fills : List Fill)
    (hqty : ∀ f ∈ fills, 0 < f.qty) :
    (p.applyFills fills).cashBalance = p.cashBalance + (fills.map Fill.cashFlow).sum := by
  induction fills generalizing p with
  | nil => simp
  | cons f fills ih =>
      rw [show f :: fills = [f] ++ fills from rfl, applyFills_append,
        ih _ fun g hg => hqty g (List.mem_cons_of_mem f hg), applyFills_singleton,
        cashBalance_onFill p f (hqty f (List.mem_cons_self f fills))]
      simp; ring

/-! ## Partial fills -/

theorem onFill_buy_split (p : Position) {x y : ℚ} (price : ℚ) (hx : 0 < x) (hy : 0 < y) :
    (p.onFill .buy x price).onFill .buy y price =
      { p.onFill .buy (x + y) price with totalTrades := p.totalTrades + 2 } := by
  rcases le_or_lt 0 p.quantity with hlong | hshort
  · rw [onFill_buy_of_nonneg p price hx hlong,
      onFill_buy_of_nonneg ⟨p.quantity + x, _, _, _⟩ price hy (by dsimp only; linarith),
      onFill_buy_of_nonneg p price (add_pos hx hy) hlong]
    ext
    · dsimp only; ring
    · dsimp only
      rw [mul_div_cancel₀ _ (by linarith : p.quantity + x ≠ 0)]
      ring
    · rfl
    · rfl
  · rcases lt_or_le (p.quantity + x) 0 with hcover | hlong
    · rw [onFill_buy_of_cover p price hshort hcover.le]
      rcases le_or_lt (p.quantity + x + y) 0 with hcover' | hflip
      · rw [onFill_buy_of_cover ⟨p.quantity + x, _, _, _⟩ price hcover hcover',
          onFill_buy_of_cover p price hshort (by linarith)]
        ext <;> dsimp only <;> ring
      · rw [onFill_buy_of_flip ⟨p.quantity + x, _, _, _⟩ price hcover hflip,
          onFill_buy_of_flip p price hshort (by linarith)]
        ext <;> dsimp only <;> ring
    · rcases eq_or_lt_of_le hlong with hflat | hflip
      · rw [onFill_buy_of_cover p price hshort hflat.symm.le,
          onFill_buy_of_nonneg ⟨p.quantity + x, _, _, _⟩ price hy hlong,
          onFill_buy_of_flip p price hshort (by linarith)]
        obtain rfl : x = -p.quantity := by linarith
        ext <;> dsimp only
        · ring
        · rw [add_neg_cancel, zero_mul, zero_add, zero_add, mul_div_cancel_left₀ _ hy.ne']
        · ring
      · rw [onFill_buy_of_flip p price hshort hflip,
          onFill_buy_of_nonneg ⟨p.quantity + x, _, _, _⟩ price hy hlong,
          onFill_buy_of_flip p price hshort (by linarith)]
        ext <;> dsimp only
        · ring
        · rw [← add_mul, mul_div_cancel_left₀ _ (by linarith)]

/-- An order filled in two parts at one price is accounted as one fill of the whole
quantity, whatever side of the open quantity the split point falls on; the fill count
differs by one. -/
theorem onFill_split (p : Position) (side : Side) {x y : ℚ} (price : ℚ) (hx : 0 < x)
    (hy : 0 < y) :
    (p.onFill side x price).onFill side y price =
      { p.onFill side (x + y) price with
        totalTrades := (p.onFill side (x + y) price).totalTrades + 1 } := by
  cases side with
  | buy => rw [onFill_buy_split p price hx hy]; simp
  | sell =>
      rw [onFill_sell p price hx.le, onFill_sell _ price hy.le, mirror_mirror,
        onFill_buy_split _ price hx hy, onFill_sell p price (add_pos hx hy).le]
      ext <;> simp

/-- Covering a short of 1 at 100 with two BUYs of 1 at 90: the first lands exactly on flat,
the second flips the position. -/
theorem onFill_split_through_flat :
    (0 : ℚ) < 1 ∧ (0 : ℚ) < 1 ∧
      (({ quantity := -1, avgPrice := 100 } : Position).onFill .buy 1 90).onFill .buy 1 90 =
        { ({ quantity := -1, avgPrice := 100 } : Position).onFill .buy (1 + 1) 90 with
          totalTrades :=
            (({ quantity := -1, avgPrice := 100 } : Position).onFill .buy (1 + 1) 90).totalTrades + 1 } :=
  ⟨one_pos, one_pos, onFill_split _ .buy 90 one_pos one_pos⟩

/-- In doubles a split fill is not accounted as one: from flat, a BUY of `1` and then one of
`0.1`, both at `3.0`, record an average price of `2.9999999999999996`, where one BUY of
`1 + 0.1` at `3.0` records `3.0`. -/
theorem onFillWith_round_split_ne :
    (({} : Position).onFillWith Binary64.round .buy
        (Binary64.round (1 + Binary64.round (1 / 10))) 3).avgPrice = 3 ∧
      ((({} : Position).onFillWith Binary64.round .buy 1 3).onFillWith Binary64.round .buy
        (Binary64.round (1 / 10)) 3).avgPrice = 6755399441055743 / 2251799813685248 := by
  have hqty : Binary64.round (39631676720860365 / 36028797018963968) =
      2476979795053773 / 2251799813685248 := by
    rw [Binary64.round_eq_of_binade (-52) (by norm_num) (by norm_num [abs_of_pos])
      (by norm_num [abs_of_pos])]
    norm_num [roundHalfEven]
  have hcost : Binary64.round (7430939385161319 / 2251799813685248) =
      7430939385161319 / 2251799813685248 := by
    have h := Binary64.round_intCast_mul_zpow 7430939385161319 (e := -51) (by norm_num)
      (by norm_num)
    norm_num at h
    exact h
  have hpart : Binary64.round (10808639105689191 / 36028797018963968) =
      1351079888211149 / 4503599627370496 := by
    rw [Binary64.round_eq_of_binade (-54) (by norm_num) (by norm_num [abs_of_pos])
      (by norm_num [abs_of_pos])]
    norm_num [roundHalfEven]
  have hcost' : Binary64.round (14861878770322637 / 4503599627370496) =
      3715469692580659 / 1125899906842624 := by
    rw [Binary64.round_eq_of_binade (-51) (by norm_num) (by norm_num [abs_of_pos])
      (by norm_num [abs_of_pos])]
    norm_num [roundHalfEven]
  have havg : Binary64.round (7430939385161318 / 2476979795053773) =
      6755399441055743 / 2251799813685248 := by
    rw [Binary64.round_eq_of_binade (-51) (by norm_num) (by norm_num [abs_of_pos])
      (by norm_num [abs_of_pos])]
    norm_num [roundHalfEven]
  simp only [onFillWith]
  norm_num
  norm_num [Binary64.round_one_tenth, hqty, hcost, hpart, hcost', havg]

end Position

theorem sum_markToMarket (fills : List Fill) (mark : ℚ) :
    (fills.map fun f => f.side.sign * f.qty * (mark - f.price)).sum =
      (fills.map Fill.cashFlow).sum + (fills.map Fill.signedQty).sum * mark := by
  induction fills with
  | nil => simp
  | cons f fills ih => simp [ih, Fill.cashFlow, Fill.signedQty]; ring

/-- From a fresh position, in exact arithmetic: the quantity is the signed sum of the fills,
every fill is counted, total PnL at any mark is the mark-to-market value of all fills, and a
flat position has realized exactly the SELL notional less the BUY notional. -/
theorem applyFills_fresh_accounting (fills : List Fill) (hqty : ∀ f ∈ fills, 0 < f.qty) :
    ((({} : Position).applyFills fills).quantity = (fills.map fun f => f.side.sign * f.qty).sum) ∧
      (({} : Position).applyFills fills).totalTrades = fills.length ∧
      (∀ mark, (({} : Position).applyFills fills).totalPnl mark =
        (fills.map fun f => f.side.sign * f.qty * (mark - f.price)).sum) ∧
      ((({} : Position).applyFills fills).quantity = 0 →
        (({} : Position).applyFills fills).realizedPnl =
          notional .sell fills - notional .buy fills) := by
  have hquantity := Position.applyFills_quantity {} fills
  have hcash := Position.applyFills_cashBalance {} fills hqty
  simp only [Position.cashBalance, zero_sub, mul_zero, neg_zero, zero_add] at hquantity hcash
  refine ⟨hquantity, by simpa using Position.applyFills_totalTrades {} fills, fun mark => ?_,
    fun hflat => ?_⟩
  · rw [Position.totalPnl_eq, sum_markToMarket, Position.cashBalance, hcash, hquantity]
  · rw [← sum_cashFlow, ← hcash, hflat]
    ring

/-- The flip example of the design notes: long 1 at 100, then SELL 2 at 90. -/
def flipFills : List Fill := [⟨.buy, 1, 100⟩, ⟨.sell, 2, 90⟩]

theorem applyFills_fresh_accounting_flip :
    (∀ f ∈ flipFills, 0 < f.qty) ∧
      ((({} : Position).applyFills flipFills).quantity =
        (flipFills.map fun f => f.side.sign * f.qty).sum) ∧
      (({} : Position).applyFills flipFills).totalTrades = flipFills.length ∧
      (∀ mark, (({} : Position).applyFills flipFills).totalPnl mark =
        (flipFills.map fun f => f.side.sign * f.qty * (mark - f.price)).sum) ∧
      ((({} : Position).applyFills flipFills).quantity = 0 →
        (({} : Position).applyFills flipFills).realizedPnl =
          notional .sell flipFills - notional .buy flipFills) := by
  have hqty : ∀ f ∈ flipFills, 0 < f.qty := by simp [flipFills]
  exact ⟨hqty, applyFills_fresh_accounting flipFills hqty⟩

end HftTradingSystem
