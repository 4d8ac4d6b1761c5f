import HftTradingSystem.Position.Accounting

/-!
# The average entry price

While the position is open, its average price lies between the least and the greatest price
of the fills on the current side, counted from the fill that opened that side, from flat or
by a flip. The prices of that run of fills are computed from the signed quantities alone, by
`sideSegment`, and the bound is an invariant of `onFill` proved once per regime of a BUY.
-/

namespace HftTradingSystem

/-- A fill taking the quantity from `before` to `after` opens the side it ends on: the
quantity was zero or of the opposite sign before. -/
def opensSide (before after : ℚ) : Prop :=
  (0 < after ∧ before ≤ 0) ∨ (after < 0 ∧ 0 ≤ before)

instance (before after : ℚ) : Decidable (opensSide before after) :=
  inferInstanceAs (Decidable (_ ∨ _))

theorem opensSide_sell_iff (before qty : ℚ) :
    opensSide before (before + Side.sell.sign * qty) ↔ opensSide (-before) (-before + qty) := by
  have hsell : before + Side.sell.sign * qty = -(-before + qty) := by simp [Side.sign]; ring
  rw [hsell]
  unfold opensSide
  rw [neg_pos, neg_lt_zero, neg_nonpos, neg_nonneg]
  exact or_comm

/-- The running quantity, and the prices of the fills on its side since the fill that opened
it. -/
def segmentStep (acc : ℚ × List ℚ) (f : Fill) : ℚ × List ℚ :=
  let after := acc.1 + f.signedQty
  (after, if opensSide acc.1 after then [f.price] else acc.2 ++ [f.price])

/-- `segmentStep` over a fill history, from flat. -/
def sideSegment (fills : List Fill) : ℚ × List ℚ :=
  fills.foldl segmentStep (0, [])

/-- While the position is open, its average price lies between two of `prices`. -/
def AvgWithin (p : Position) (prices : List ℚ) : Prop :=
  p.quantity ≠ 0 → (∃ lo ∈ prices, lo ≤ p.avgPrice) ∧ ∃ hi ∈ prices, p.avgPrice ≤ hi

theorem avgWithin_mirror {p : Position} {prices : List ℚ} :
    AvgWithin p.mirror prices ↔ AvgWithin p prices := by
  simp [AvgWithin]

theorem avgWithin_singleton {p : Position} {price : ℚ} (h : p.avgPrice = price) :
    AvgWithin p [price] :=
  fun _ => ⟨⟨price, by simp, h.ge⟩, ⟨price, by simp, h.le⟩⟩

/-- A cost-weighted mean of two prices lies between them. -/
theorem weightedMean_mem {w v a b : ℚ} (hw : 0 < w) (hv : 0 < v) :
    min a b ≤ (w * a + v * b) / (w + v) ∧ (w * a + v * b) / (w + v) ≤ max a b := by
  have hsum : 0 < w + v := add_pos hw hv
  rw [le_div_iff₀ hsum, div_le_iff₀ hsum]
  constructor
  · calc min a b * (w + v) = w * min a b + v * min a b := by ring
      _ ≤ w * a + v * b := add_le_add (mul_le_mul_of_nonneg_left (min_le_left a b) hw.le)
          (mul_le_mul_of_nonneg_left (min_le_right a b) hv.le)
  · calc w * a + v * b ≤ w * max a b + v * max a b :=
          add_le_add (mul_le_mul_of_nonneg_left (le_max_left a b) hw.le)
            (mul_le_mul_of_nonneg_left (le_max_right a b) hv.le)
      _ = max a b * (w + v) := by ring
/-- Adding at `price` to an open side keeps the average within the side's prices. -/
theorem avgWithin_average {p : Position} {prices : List ℚ} {price : ℚ} (hopen : p.quantity ≠ 0)
    (h : AvgWithin p prices) {avg : ℚ} (hlow : min p.avgPrice price ≤ avg)
    (hhigh : avg ≤ max p.avgPrice price) :
    (∃ lo ∈ prices ++ [price], lo ≤ avg) ∧ ∃ hi ∈ prices ++ [price], avg ≤ hi := by
  obtain ⟨⟨lo, hlo, hlo_le⟩, ⟨hi, hhi, hhi_le⟩⟩ := h hopen
  constructor
  · rcases le_total p.avgPrice price with hle | hle
    · exact ⟨lo, by simp [hlo], hlo_le.trans (by simpa [hle] using hlow)⟩
    · exact ⟨price, by simp, by simpa [hle] using hlow⟩
  · rcases le_total p.avgPrice price with hle | hle
    · exact ⟨price, by simp, by simpa [hle] using hhigh⟩
    · exact ⟨hi, by simp [hhi], (by simpa [hle] using hhigh : avg ≤ p.avgPrice).trans hhi_le⟩

theorem avgWithin_onFill_buy {p : Position} {prices : List ℚ} {qty : ℚ} (price : ℚ)
    (hqty : 0 < qty) (h : AvgWithin p prices) :
    AvgWithin (p.onFill .buy qty price)
      (if opensSide p.quantity (p.quantity + qty) then [price] else prices ++ [price]) := by
  rcases le_or_lt 0 p.quantity with hlong | hshort
  · rw [Position.onFill_buy_of_nonneg p price hqty hlong]
    rcases eq_or_lt_of_le hlong with hflat | hlong
    · have hopens : opensSide p.quantity (p.quantity + qty) := .inl ⟨by linarith, hflat.symm.le⟩
      rw [if_pos hopens]
      refine avgWithin_singleton ?_
      rw [← hflat, zero_mul, zero_add, zero_add, mul_div_cancel_left₀ _ hqty.ne']
    · have hkeeps : ¬ opensSide p.quantity (p.quantity + qty) := by
        rintro (⟨_, h⟩ | ⟨h, _⟩) <;> linarith
      rw [if_neg hkeeps]
      intro _
      exact avgWithin_average hlong.ne' h (weightedMean_mem hlong hqty).1
        (weightedMean_mem hlong hqty).2
  · rcases le_or_lt (p.quantity + qty) 0 with hcover | hflip
    · have hkeeps : ¬ opensSide p.quantity (p.quantity + qty) := by
        rintro (⟨h, _⟩ | ⟨_, h⟩) <;> linarith
      rw [Position.onFill_buy_of_cover p price hshort hcover, if_neg hkeeps]
      intro _
      exact avgWithin_average hshort.ne h (by simp) (by simp)
    · rw [Position.onFill_buy_of_flip p price hshort hflip, if_pos (.inl ⟨hflip, hshort.le⟩)]
      exact avgWithin_singleton rfl

/-- One fill keeps the average within the prices of its side. -/
theorem avgWithin_onFill {p : Position} {prices : List ℚ} (f : Fill) (hqty : 0 < f.qty)
    (h : AvgWithin p prices) :
    AvgWithin (p.onFill f.side f.qty f.price) (segmentStep (p.quantity, prices) f).2 := by
  rcases f with ⟨_ | _, qty, price⟩
  · simpa [segmentStep, Fill.signedQty] using avgWithin_onFill_buy price hqty h
  · rw [Position.onFill_sell p price hqty.le, avgWithin_mirror]
    simp only [segmentStep, Fill.signedQty]
    rw [if_congr (opensSide_sell_iff p.quantity qty) rfl rfl]
    exact avgWithin_onFill_buy price hqty (avgWithin_mirror.2 h)

theorem segmentStep_quantity (p : Position) (prices : List ℚ) (f : Fill) :
    segmentStep (p.quantity, prices) f =
      ((p.onFill f.side f.qty f.price).quantity, (segmentStep (p.quantity, prices) f).2) := by
  simp [segmentStep, Fill.signedQty]

theorem avgWithin_applyFills (p : Position) (prices : List ℚ) (fills : List Fill)
    (hqty : ∀ f ∈ fills, 0 < f.qty) (h : AvgWithin p prices) :
    AvgWithin (p.applyFills fills) (fills.foldl segmentStep (p.quantity, prices)).2 := by
  induction fills generalizing p prices with
  | nil => exact h
  | cons f fills ih =>
      rw [List.foldl_cons, segmentStep_quantity]
      exact ih _ _ (fun g hg => hqty g (List.mem_cons_of_mem f hg))
        (avgWithin_onFill f (hqty f (List.mem_cons_self f fills)) h)

theorem segment_prices_pos (acc : ℚ × List ℚ) (fills : List Fill) (hacc : ∀ x ∈ acc.2, 0 < x)
    (hprice : ∀ f ∈ fills, 0 < f.price) :
    ∀ x ∈ (fills.foldl segmentStep acc).2, 0 < x := by
  induction fills generalizing acc with
  | nil => exact hacc
  | cons f fills ih =>
      refine ih _ ?_ fun g hg => hprice g (List.mem_cons_of_mem f hg)
      have hf := hprice f (List.mem_cons_self f fills)
      simp only [segmentStep]
      split
      · simp [hf]
      · simpa [or_imp, forall_and, hf] using hacc

theorem avgPrice_onFill_buy_of_opensSide (p : Position) {qty : ℚ} (price : ℚ) (hqty : 0 < qty)
    (hopens : opensSide p.quantity (p.quantity + qty)) :
    (p.onFill .buy qty price).avgPrice = price := by
  rcases hopens with ⟨hafter, hbefore⟩ | ⟨hafter, hbefore⟩
  · rcases eq_or_lt_of_le hbefore with hflat | hshort
    · rw [Position.onFill_buy_of_nonneg p price hqty hflat.ge]
      simp only [hflat, zero_mul, zero_add]
      exact mul_div_cancel_left₀ _ hqty.ne'
    · rw [Position.onFill_buy_of_flip p price hshort hafter]
  · linarith

/-- A fill that opens a side sets the average price to its own price. -/
theorem avgPrice_onFill_of_opensSide (p : Position) (side : Side) {qty : ℚ} (price : ℚ)
    (hqty : 0 < qty) (hopens : opensSide p.quantity (p.quantity + side.sign * qty)) :
    (p.onFill side qty price).avgPrice = price := by
  cases side with
  | buy => exact avgPrice_onFill_buy_of_opensSide p price hqty (by simpa using hopens)
  | sell =>
      rw [Position.onFill_sell p price hqty.le, Position.mirror_avgPrice]
      exact avgPrice_onFill_buy_of_opensSide p.mirror price hqty
        ((opensSide_sell_iff _ _).1 hopens)

/-- From a fresh position, with positive quantities and prices: while the position is open,
its average price lies between the least and the greatest price of the fills since the one
that opened the current side, so it is positive; and right after a fill that opens a side,
from flat or by a flip, it is that fill's price. -/
theorem avgPrice_within_sideSegment (fills : List Fill) (hqty : ∀ f ∈ fills, 0 < f.qty)
    (hprice : ∀ f ∈ fills, 0 < f.price)
    (hopen : (({} : Position).applyFills fills).quantity ≠ 0) :
    (∃ lo ∈ (sideSegment fills).2, lo ≤ (({} : Position).applyFills fills).avgPrice) ∧
      (∃ hi ∈ (sideSegment fills).2, (({} : Position).applyFills fills).avgPrice ≤ hi) ∧
      0 < (({} : Position).applyFills fills).avgPrice ∧
      ∀ init f, fills = init ++ [f] →
        opensSide (({} : Position).applyFills init).quantity
          (({} : Position).applyFills fills).quantity →
        (({} : Position).applyFills fills).avgPrice = f.price := by
  obtain ⟨⟨lo, hlo, hlo_le⟩, hhigh⟩ :=
    avgWithin_applyFills {} [] fills hqty (fun hflat => absurd rfl hflat) hopen
  refine ⟨⟨lo, hlo, hlo_le⟩, hhigh, ?_, ?_⟩
  · exact (segment_prices_pos (0, []) fills (by simp) hprice lo hlo).trans_le hlo_le
  · rintro init f rfl hopens
    have hf : 0 < f.qty := hqty f (by simp)
    rw [Position.applyFills_append, Position.applyFills_singleton] at hopens ⊢
    rw [Position.onFill_quantity] at hopens
    exact avgPrice_onFill_of_opensSide _ f.side f.price hf hopens

theorem avgPrice_within_sideSegment_flip :
    (∀ f ∈ flipFills, 0 < f.qty) ∧ (∀ f ∈ flipFills, 0 < f.price) ∧
      (({} : Position).applyFills flipFills).quantity ≠ 0 ∧
      (∃ lo ∈ (sideSegment flipFills).2, lo ≤ (({} : Position).applyFills flipFills).avgPrice) ∧
      (∃ hi ∈ (sideSegment flipFills).2, (({} : Position).applyFills flipFills).avgPrice ≤ hi) ∧
      0 < (({} : Position).applyFills flipFills).avgPrice ∧
      ∀ init f, flipFills = init ++ [f] →
        opensSide (({} : Position).applyFills init).quantity
          (({} : Position).applyFills flipFills).quantity →
        (({} : Position).applyFills flipFills).avgPrice = f.price := by
  have hqty : ∀ f ∈ flipFills, 0 < f.qty := by simp [flipFills]
  have hprice : ∀ f ∈ flipFills, 0 < f.price := by simp [flipFills]
  have hopen : (({} : Position).applyFills flipFills).quantity ≠ 0 := by
    rw [Position.applyFills_quantity]
    norm_num [flipFills, Fill.signedQty]
  exact ⟨hqty, hprice, hopen, avgPrice_within_sideSegment flipFills hqty hprice hopen⟩

/-- In doubles the average price can leave the prices of its fills: a fresh BUY of `0.1` at
`3.0` records `3.0000000000000004`. -/
theorem onFillWith_round_avgPrice_above :
    (({} : Position).onFillWith Binary64.round .buy (Binary64.round (1 / 10)) 3).avgPrice =
        6755399441055745 / 2251799813685248 ∧
      (3 : ℚ) < 6755399441055745 / 2251799813685248 := by
  have hcost : Binary64.round (10808639105689191 / 36028797018963968) =
      1351079888211149 / 4503599627370496 := by
    rw [Binary64.round_eq_of_binade (-54) (by norm_num) (by norm_num [abs_of_pos])
      (by norm_num [abs_of_pos])]
    norm_num [roundHalfEven]
  have havg : Binary64.round (10808639105689192 / 3602879701896397) =
      6755399441055745 / 2251799813685248 := by
    rw [Binary64.round_eq_of_binade (-51) (by norm_num) (by norm_num [abs_of_pos])
      (by norm_num [abs_of_pos])]
    norm_num [roundHalfEven]
  norm_num [Position.onFillWith]
  norm_num [Binary64.round_one_tenth, hcost, havg]

end HftTradingSystem
