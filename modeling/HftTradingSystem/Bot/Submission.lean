import HftTradingSystem.Bot
import Mathlib.Algebra.BigOperators.Group.List

/-!
# What `update_quotes` submits

The requests one `update_quotes` call sends are the ticker, then, once the price has come
back, the cancel and the two quoted orders of the sides with positive size, cut short by the
first exception that escapes. So the sizes are capped against the tracked quantity the call
reads, and nothing else: the account's executed quantity can pass the limit. The submitted
values are those of the formatted strings, which round to nearest. Since the tracked quantity
never changes, a run in which each cycle's BUY fills leaves the account long one more full size
per cycle, without bound.
-/

namespace HftTradingSystem

section

variable (config : StrategyConfig)

/-- The order request of one side when its size is positive, price and size formatted as
`place_order` formats them. -/
def sideRequest (side : Side) (price size : ℚ) : List Request :=
  if 0 < size then
    [.createOrder side (formatFixed config.priceDecimals price) (formatFixed config.qtyDecimals size)]
  else []

/-- The orders `update_quotes` submits for `quote`, bid first. -/
def quoteRequests (quote : Quote) : List Request :=
  sideRequest config .buy quote.bidPrice quote.bidSize ++
    sideRequest config .sell quote.askPrice quote.askSize

theorem placeSide_requests (w : World) (turn : Turn) (side : Side) (price size : ℚ) :
    (placeSide config w turn side price size).2.exchange.requests =
      w.exchange.requests ++ sideRequest config side price size := by
  unfold placeSide sideRequest
  split
  · rw [placeOrder_eq]
    rcases turn.failure with _ | (_ | _ | _) <;> simp [Exchange.serveCreate]
  · simp

theorem placeQuotes_requests (w : World) (bid ask : Turn) (quote : Quote) :
    ∃ sent, (placeQuotes config w bid ask quote).exchange.requests = w.exchange.requests ++ sent ∧
      sent <+: quoteRequests config quote := by
  have hbid := placeSide_requests config w bid .buy quote.bidPrice quote.bidSize
  unfold placeQuotes
  rcases hplace : placeSide config w bid .buy quote.bidPrice quote.bidSize with ⟨_ | _, w'⟩
  · rw [hplace] at hbid
    exact ⟨_, hbid, List.prefix_append _ _⟩
  · rw [hplace] at hbid
    rw [placeSide_requests, hbid, List.append_assoc]
    exact ⟨_, rfl, by simp [quoteRequests]⟩

/-- What one `update_quotes` call can send: the ticker alone, when the price fetch raises; or
the ticker, the cancel and a prefix of the orders quoted from the fetched mid and the tracked
quantity. -/
theorem updateQuotes_requests_cases (w : World) (turns : QuoteTurns) :
    (turns.ticker.failure ≠ none ∧
        (updateQuotes config w turns).exchange.requests =
          w.exchange.requests ++ [.orderbookTicker]) ∨
      ∃ midPrice, (getMidPrice w turns.ticker).1 = .ok midPrice ∧ ∃ sent,
        (updateQuotes config w turns).exchange.requests =
          w.exchange.requests ++ .orderbookTicker :: .cancelAllOpenOrders :: sent ∧
        sent <+: quoteRequests config
          (MarketMaker.calculateQuotes config midPrice w.bot.position.quantity) := by
  have hticker := getMidPrice_requests w turns.ticker
  have hbot := getMidPrice_bot w turns.ticker
  have hfetched := getMidPrice_ok_iff w turns.ticker
  unfold updateQuotes
  rcases hmid : getMidPrice w turns.ticker with ⟨_ | midPrice, w₁⟩ <;>
    rw [hmid] at hticker hbot hfetched <;> dsimp only at hticker hbot hfetched ⊢
  · exact .inl ⟨fun hok => by simpa using hfetched.2 hok, hticker⟩
  · refine .inr ⟨midPrice, rfl, ?_⟩
    have hcancel := cancelAllOrders_requests w₁ turns.cancel
    rcases hcancelled : cancelAllOrders w₁ turns.cancel with ⟨_ | _, w₂⟩ <;>
      rw [hcancelled] at hcancel <;> dsimp only at hcancel ⊢
    · exact ⟨[], by simp [hcancel, hticker], List.nil_prefix⟩
    · obtain ⟨sent, hsent, hquoted⟩ := placeQuotes_requests config w₂ turns.bid turns.ask
        (MarketMaker.calculateQuotes config midPrice w₁.bot.position.quantity)
      exact ⟨sent, by simp [hsent, hcancel, hticker], hbot ▸ hquoted⟩

/-- The requests of one `update_quotes` call, whatever the exchange does and raises: the
ticker, then, if the mid price came back, a prefix of the cancel followed by the orders
quoted from that mid and the tracked quantity. -/
theorem updateQuotes_requests (w : World) (turns : QuoteTurns) :
    ∃ sent, (updateQuotes config w turns).exchange.requests =
        w.exchange.requests ++ .orderbookTicker :: sent ∧
      (sent = [] ∨ ∃ midPrice, (getMidPrice w turns.ticker).1 = .ok midPrice ∧
        sent <+: .cancelAllOpenOrders :: quoteRequests config
          (MarketMaker.calculateQuotes config midPrice w.bot.position.quantity)) := by
  rcases updateQuotes_requests_cases config w turns with
    ⟨-, hrequests⟩ | ⟨midPrice, hmid, sent, hrequests, hquoted⟩
  · exact ⟨[], hrequests, .inl rfl⟩
  · exact ⟨_, hrequests, .inr ⟨midPrice, hmid, (List.prefix_cons_inj _).2 hquoted⟩⟩

theorem mem_sideRequest {side side' : Side} {price size price' size' : ℚ} :
    .createOrder side' price' size' ∈ sideRequest config side price size ↔
      0 < size ∧ side' = side ∧ price' = formatFixed config.priceDecimals price ∧
        size' = formatFixed config.qtyDecimals size := by
  unfold sideRequest
  split <;> simp [*, and_assoc]

/-- The requests one `update_quotes` call sends. -/
def sentRequests (w : World) (turns : QuoteTurns) : List Request :=
  (updateQuotes config w turns).exchange.requests.drop w.exchange.requests.length

theorem count_cancel_quoteRequests (quote : Quote) :
    (quoteRequests config quote).count .cancelAllOpenOrders = 0 := by
  unfold quoteRequests sideRequest
  split_ifs <;> simp

/-- Each `update_quotes` call sends one `cancel_all_open_orders` when its price fetch succeeds,
and none when it raises. -/
theorem updateQuotes_cancels_once (w : World) (turns : QuoteTurns) :
    (sentRequests config w turns).count .cancelAllOpenOrders =
      if turns.ticker.failure = none then 1 else 0 := by
  unfold sentRequests
  rcases updateQuotes_requests_cases config w turns with
    ⟨hfailed, hrequests⟩ | ⟨midPrice, hmid, sent, hrequests, hquoted⟩
  · rw [if_neg hfailed, hrequests, List.drop_left]
    rfl
  · have hnone := (hquoted.sublist.count_le .cancelAllOpenOrders).trans
      (count_cancel_quoteRequests config _).le
    rw [if_pos ((getMidPrice_ok_iff w turns.ticker).1 ⟨midPrice, hmid⟩), hrequests,
      List.drop_left]
    simp [List.count_cons, Nat.le_zero.1 hnone]

theorem mem_quoteRequests_buy {quote : Quote} {price qty : ℚ} :
    .createOrder .buy price qty ∈ quoteRequests config quote ↔
      0 < quote.bidSize ∧ price = formatFixed config.priceDecimals quote.bidPrice ∧
        qty = formatFixed config.qtyDecimals quote.bidSize := by
  simp [quoteRequests, mem_sideRequest]

theorem mem_quoteRequests_sell {quote : Quote} {price qty : ℚ} :
    .createOrder .sell price qty ∈ quoteRequests config quote ↔
      0 < quote.askSize ∧ price = formatFixed config.priceDecimals quote.askPrice ∧
        qty = formatFixed config.qtyDecimals quote.askSize := by
  simp [quoteRequests, mem_sideRequest]

/-- Every order an `update_quotes` call submits is one quoted from the mid price it fetched and
the tracked quantity it read. -/
theorem updateQuotes_createOrder (w : World) (turns : QuoteTurns) {side : Side} {price qty : ℚ}
    (hsent : .createOrder side price qty ∈ sentRequests config w turns) :
    ∃ midPrice, (getMidPrice w turns.ticker).1 = .ok midPrice ∧ .createOrder side price qty ∈
      quoteRequests config (MarketMaker.calculateQuotes config midPrice w.bot.position.quantity) := by
  rw [sentRequests] at hsent
  rcases updateQuotes_requests_cases config w turns with
    ⟨-, hrequests⟩ | ⟨midPrice, hmid, sent, hrequests, hquoted⟩ <;>
    rw [hrequests, List.drop_left] at hsent
  · simp at hsent
  · exact ⟨midPrice, hmid, hquoted.subset (by simpa using hsent)⟩

/-- The quote an order of the call was submitted from, when the call fetched `midPrice`. -/
theorem updateQuotes_createOrder_of_mid (w : World) (turns : QuoteTurns) {midPrice : ℚ}
    (hmid : (getMidPrice w turns.ticker).1 = .ok midPrice) {side : Side} {price qty : ℚ}
    (hsent : .createOrder side price qty ∈ sentRequests config w turns) :
    .createOrder side price qty ∈
      quoteRequests config (MarketMaker.calculateQuotes config midPrice w.bot.position.quantity) := by
  obtain ⟨midPrice', hmid', hmem⟩ := updateQuotes_createOrder config w turns hsent
  rw [hmid] at hmid'
  cases hmid'
  exact hmem

/-- Submitted prices after formatting, for `0 ≤ spread_bps < 10000`, `0 ≤ skew_factor ≤ 1` and a
positive mid: a BUY price is at least zero, a SELL price is at least zero unless the skew
passes the mid plus the half spread, and a BUY price is at most the SELL price of the same
call. -/
theorem updateQuotes_submitted_prices (w : World) (turns : QuoteTurns)
    (hbps : 0 ≤ config.spreadBps) (hbps' : config.spreadBps < 10000)
    (hskew : 0 ≤ config.skewFactor) (hskew' : config.skewFactor ≤ 1) {midPrice : ℚ}
    (hmid : (getMidPrice w turns.ticker).1 = .ok midPrice) (hpos : 0 < midPrice) :
    (∀ price qty, .createOrder .buy price qty ∈ sentRequests config w turns → 0 ≤ price) ∧
      (∀ price qty, .createOrder .sell price qty ∈ sentRequests config w turns →
        MarketMaker.skew config midPrice w.bot.position.quantity ≤
          midPrice + MarketMaker.halfSpread config midPrice → 0 ≤ price) ∧
      ∀ bidPrice bidQty askPrice askQty,
        .createOrder .buy bidPrice bidQty ∈ sentRequests config w turns →
        .createOrder .sell askPrice askQty ∈ sentRequests config w turns → bidPrice ≤ askPrice := by
  refine ⟨fun price qty hsent => ?_, fun price qty hsent hskewed => ?_,
    fun bidPrice bidQty askPrice askQty hbid hask => ?_⟩
  · obtain ⟨hsize, rfl, -⟩ :=
      (mem_quoteRequests_buy config).1 (updateQuotes_createOrder_of_mid config w turns hmid hsent)
    exact formatFixed_nonneg _
      (MarketMaker.bidPrice_pos config midPrice _ hbps hbps' hskew hskew' hpos hsize).le
  · obtain ⟨-, rfl, -⟩ :=
      (mem_quoteRequests_sell config).1 (updateQuotes_createOrder_of_mid config w turns hmid hsent)
    exact formatFixed_nonneg _ (by simp only [MarketMaker.calculateQuotes_askPrice]; linarith)
  · obtain ⟨-, rfl, -⟩ :=
      (mem_quoteRequests_buy config).1 (updateQuotes_createOrder_of_mid config w turns hmid hbid)
    obtain ⟨-, rfl, -⟩ :=
      (mem_quoteRequests_sell config).1 (updateQuotes_createOrder_of_mid config w turns hmid hask)
    exact formatFixed_mono _ (MarketMaker.bidPrice_le_askPrice config midPrice _ hbps hpos)

end

theorem updateQuotes_submitted_prices_opening :
    0 ≤ ({} : StrategyConfig).spreadBps ∧ ({} : StrategyConfig).spreadBps < 10000 ∧
      0 ≤ ({} : StrategyConfig).skewFactor ∧ ({} : StrategyConfig).skewFactor ≤ 1 ∧
      (getMidPrice World.opening {}).1 = .ok 100 ∧ (0 : ℚ) < 100 ∧
      (∀ price qty, .createOrder .buy price qty ∈ sentRequests {} World.opening {} → 0 ≤ price) ∧
      (∀ price qty, .createOrder .sell price qty ∈ sentRequests {} World.opening {} →
        MarketMaker.skew {} 100 World.opening.bot.position.quantity ≤
          100 + MarketMaker.halfSpread {} 100 → 0 ≤ price) ∧
      ∀ bidPrice bidQty askPrice askQty,
        .createOrder .buy bidPrice bidQty ∈ sentRequests {} World.opening {} →
        .createOrder .sell askPrice askQty ∈ sentRequests {} World.opening {} →
          bidPrice ≤ askPrice := by
  have hmid : (getMidPrice World.opening {}).1 = .ok 100 := by
    norm_num [getMidPrice_eq, World.opening, Exchange.receive, Exchange.applyAll]
  have hbps : 0 ≤ ({} : StrategyConfig).spreadBps := by decide
  have hbps' : ({} : StrategyConfig).spreadBps < 10000 := by decide
  have hskew : 0 ≤ ({} : StrategyConfig).skewFactor := by norm_num
  have hskew' : ({} : StrategyConfig).skewFactor ≤ 1 := by norm_num
  exact ⟨hbps, hbps', hskew, hskew', hmid, by norm_num,
    updateQuotes_submitted_prices {} World.opening {} hbps hbps' hskew hskew' hmid (by norm_num)⟩

/-- Read as the decimal values of their strings, the sizes `update_quotes` submits from a
tracked inventory within the limits pass the limits by at most half a unit of the last of the
`qty_decimals` places. -/
theorem updateQuotes_sizes_within_half_unit (config : StrategyConfig) (w : World)
    (turns : QuoteTurns) (hlong : w.bot.position.quantity ≤ config.maxPosition)
    (hshort : -config.maxPosition ≤ w.bot.position.quantity) :
    (∀ price qty, .createOrder .buy price qty ∈ sentRequests config w turns →
      w.bot.position.quantity + qty ≤ config.maxPosition + 1 / 2 / 10 ^ config.qtyDecimals) ∧
      ∀ price qty, .createOrder .sell price qty ∈ sentRequests config w turns →
        -config.maxPosition - 1 / 2 / 10 ^ config.qtyDecimals ≤ w.bot.position.quantity - qty := by
  refine ⟨fun price qty hsent => ?_, fun price qty hsent => ?_⟩
  · obtain ⟨midPrice, -, hmem⟩ := updateQuotes_createOrder config w turns hsent
    obtain ⟨-, -, rfl⟩ := (mem_quoteRequests_buy config).1 hmem
    linarith [formatFixed_le_add config.qtyDecimals
      (MarketMaker.calculateQuotes config midPrice w.bot.position.quantity).bidSize,
      MarketMaker.add_bidSize_le config midPrice _ hlong]
  · obtain ⟨midPrice, -, hmem⟩ := updateQuotes_createOrder config w turns hsent
    obtain ⟨-, -, rfl⟩ := (mem_quoteRequests_sell config).1 hmem
    linarith [formatFixed_le_add config.qtyDecimals
      (MarketMaker.calculateQuotes config midPrice w.bot.position.quantity).askSize,
      MarketMaker.sub_askSize_ge config midPrice _ hshort]

theorem updateQuotes_sizes_within_half_unit_opening :
    World.opening.bot.position.quantity ≤ ({} : StrategyConfig).maxPosition ∧
      -({} : StrategyConfig).maxPosition ≤ World.opening.bot.position.quantity ∧
      (∀ price qty, .createOrder .buy price qty ∈ sentRequests {} World.opening {} →
        World.opening.bot.position.quantity + qty ≤
          ({} : StrategyConfig).maxPosition + 1 / 2 / 10 ^ ({} : StrategyConfig).qtyDecimals) ∧
      ∀ price qty, .createOrder .sell price qty ∈ sentRequests {} World.opening {} →
        -({} : StrategyConfig).maxPosition - 1 / 2 / 10 ^ ({} : StrategyConfig).qtyDecimals ≤
          World.opening.bot.position.quantity - qty := by
  have hlong : World.opening.bot.position.quantity ≤ ({} : StrategyConfig).maxPosition := by
    norm_num [World.opening]
  have hshort : -({} : StrategyConfig).maxPosition ≤ World.opening.bot.position.quantity := by
    norm_num [World.opening]
  exact ⟨hlong, hshort, updateQuotes_sizes_within_half_unit {} World.opening {} hlong hshort⟩

/-- Exact and float quotes part at decimal ties: at a mid of `10`, the default configuration's
exact bid and ask, `9.995` and `10.005`, are ties that round to even, both to `10.00`. The
code's doubles lie on either side of them, and format to `9.99` and `10.01`. -/
theorem formatFixed_calculateQuotes_ties :
    formatFixed 2 (MarketMaker.calculateQuotes {} 10 0).bidPrice = 10 ∧
      formatFixed 2 (MarketMaker.calculateQuotes {} 10 0).askPrice = 10 ∧
      formatFixed 2 (MarketMaker.calculateQuotesWith Binary64.round {} 10 0).bidPrice = 999 / 100 ∧
      formatFixed 2 (MarketMaker.calculateQuotesWith Binary64.round {} 10 0).askPrice =
        1001 / 100 := by
  have hhalf : Binary64.round (1 / 200) = 5764607523034235 / 1152921504606846976 := by
    rw [Binary64.round_eq_of_binade (-60) (by norm_num) (by norm_num [abs_of_pos])
      (by norm_num [abs_of_pos])]
    norm_num [roundHalfEven]
  have hbid : Binary64.round (11523450438545435525 / 1152921504606846976) =
      5626684784446013 / 562949953421312 := by
    rw [Binary64.round_eq_of_binade (-49) (by norm_num) (by norm_num [abs_of_pos])
      (by norm_num [abs_of_pos])]
    norm_num [roundHalfEven]
  have hask : Binary64.round (11534979653591503995 / 1152921504606846976) =
      5632314283980227 / 562949953421312 := by
    rw [Binary64.round_eq_of_binade (-49) (by norm_num) (by norm_num [abs_of_pos])
      (by norm_num [abs_of_pos])]
    norm_num [roundHalfEven]
  refine ⟨?_, ?_, ?_, ?_⟩ <;>
    simp only [MarketMaker.calculateQuotes, MarketMaker.calculateQuotesWith] <;> norm_num <;>
    norm_num [hhalf, hbid, hask, formatFixed, roundHalfEven]

/-- Rounding to the price grid closes a narrow spread: at a mid of `0.001` both quotes of the
default configuration format to `0.00`. And the skew is not clamped: with a tracked inventory
of `100` against a limit of `0.01`, the SELL goes out at `-149.95`. -/
theorem updateQuotes_submits_unordered_prices :
    sentRequests {} { World.opening with exchange.bidPrice := 1 / 1000, exchange.askPrice := 1 / 1000 } {} =
        [.orderbookTicker, .cancelAllOpenOrders, .createOrder .buy 0 (1 / 1000),
          .createOrder .sell 0 (1 / 1000)] ∧
      .createOrder .sell (-2999 / 20) (1 / 1000) ∈
        sentRequests {} { World.opening with bot.position.quantity := 100 } {} := by
  norm_num [sentRequests, World.opening, updateQuotes, placeQuotes, getMidPrice_eq,
    cancelAllOrders_eq, placeSide, placeOrder_eq, Exchange.receive, Exchange.applyAll,
    Exchange.serveCreate, MarketMaker.calculateQuotes, formatFixed, roundHalfEven]

/-- A limit off the grid of the five quantity decimals. -/
def offGridConfig : StrategyConfig := { quoteSize := 1, maxPosition := 123456 / 1000000 }

/-- From flat, the BUY of the whole room `0.123456` goes out formatted as `0.12346`, past the
limit. -/
theorem updateQuotes_buy_past_limit :
    .createOrder .buy (1999 / 20) (12346 / 100000) ∈ sentRequests offGridConfig World.opening {} ∧
      offGridConfig.maxPosition < World.opening.bot.position.quantity + 12346 / 100000 := by
  norm_num [sentRequests, offGridConfig, World.opening, updateQuotes, placeQuotes, getMidPrice_eq,
    cancelAllOrders_eq, placeSide, placeOrder_eq, Exchange.receive, Exchange.applyAll,
    Exchange.serveCreate, MarketMaker.calculateQuotes, formatFixed, roundHalfEven]

/-- Quotes the size of the whole limit. -/
def raceConfig : StrategyConfig := { quoteSize := 1 / 100 }

/-- Two cycles: the first cycle's BUY fills right after its `check_fills`, before the second
cycle quotes from the tracked quantity, still `0`; the second BUY fills too. -/
def raceCycles : List CycleTurns :=
  [{}, { quotes := { ticker := { events := [.execute 1 (1 / 100)] } },
         fills := { events := [.execute 3 (1 / 100)] } }]

/-- The account ends long twice the limit. -/
theorem loop_net_past_limit :
    (loop raceConfig raceCycles World.opening).2.exchange.netQuantity =
      2 * raceConfig.maxPosition := by
  norm_num [loop, raceCycles, World.opening, raceConfig, cycle, updateQuotes, placeQuotes,
    getMidPrice_eq, cancelAllOrders_eq, placeSide, placeOrder_eq, checkFills_eq, Exchange.receive,
    Exchange.applyAll, Exchange.apply, Exchange.serveCreate, Exchange.netQuantity, formatFixed,
    roundHalfEven, MarketMaker.calculateQuotes, Exchange.reduce, Fill.signedQty, Bot.setOrderId]

/-- A cycle in which the BUY placed under `orderId` fills in full before `get_my_trades`. -/
def bidFillCycle (orderId : ℕ) : CycleTurns :=
  { fills := { events := [.execute orderId (1 / 100)] } }

/-- `count` such cycles, the first BUY placed under `orderId`. -/
def bidFillCycles (orderId : ℕ) : ℕ → List CycleTurns
  | 0 => []
  | count + 1 => bidFillCycle orderId :: bidFillCycles (orderId + 2) count

/-- From the book at 99 / 101 and a flat tracked position, such a cycle quotes both sides at
the full size, and its BUY fills. -/
theorem cycle_bidFillCycle {w : World} (hbid : w.exchange.bidPrice = 99)
    (hask : w.exchange.askPrice = 101) (hflat : w.bot.position.quantity = 0) :
    cycle raceConfig w (bidFillCycle w.exchange.nextOrderId) =
      (.ok (), { bot := { w.bot with bidOrderId := some w.exchange.nextOrderId,
                                     askOrderId := some (w.exchange.nextOrderId + 1) }
                 exchange := { w.exchange with
                   openOrders := [⟨w.exchange.nextOrderId + 1, .sell, 2001 / 20, 1 / 100⟩]
                   trades := w.exchange.trades ++ [⟨.buy, 1 / 100, 1999 / 20⟩]
                   nextOrderId := w.exchange.nextOrderId + 2
                   requests := w.exchange.requests ++ [.orderbookTicker, .cancelAllOpenOrders,
                     .createOrder .buy (1999 / 20) (1 / 100),
                     .createOrder .sell (2001 / 20) (1 / 100), .myTrades 10] } }) := by
  obtain ⟨bot, ex⟩ := w
  simp only at hbid hask hflat
  norm_num [cycle, updateQuotes, getMidPrice_eq, cancelAllOrders_eq, placeQuotes, placeSide,
    placeOrder_eq, checkFills_eq, bidFillCycle, Exchange.receive, Exchange.applyAll,
    Exchange.apply, Exchange.serveCreate, Exchange.reduce, MarketMaker.calculateQuotes, raceConfig,
    formatFixed, roundHalfEven, Bot.setOrderId, hbid, hask, hflat]

theorem loop_bidFillCycles (count : ℕ) :
    ∀ w : World, w.exchange.bidPrice = 99 → w.exchange.askPrice = 101 →
      w.bot.position.quantity = 0 → w.bot.running = true →
      (loop raceConfig (bidFillCycles w.exchange.nextOrderId count) w).1 = .running ∧
        (loop raceConfig (bidFillCycles w.exchange.nextOrderId count) w).2.exchange.netQuantity =
          w.exchange.netQuantity + count / 100 := by
  induction count with
  | zero => intro w _ _ _ hrunning; simp [bidFillCycles, loop, hrunning]
  | succ count ih =>
      intro w hbid hask hflat hrunning
      have hcycle := cycle_bidFillCycle hbid hask hflat
      obtain ⟨hend, hnet⟩ := ih (cycle raceConfig w (bidFillCycle w.exchange.nextOrderId)).2
        (by rw [hcycle]; exact hbid) (by rw [hcycle]; exact hask) (by rw [hcycle]; exact hflat)
        (by rw [hcycle]; exact hrunning)
      rw [hcycle] at hend hnet
      rw [bidFillCycles, loop, if_pos hrunning, hcycle]
      refine ⟨hend, hnet.trans ?_⟩
      simp [Exchange.netQuantity, Fill.signedQty, List.sum_append]
      ring

/-- Every cycle quotes from the same tracked quantity, so a run in which each cycle's BUY fills
ends long one more full size per cycle: after `count` cycles, `count` times the limit. -/
theorem loop_net_unbounded (count : ℕ) :
    (loop raceConfig (bidFillCycles 1 count) World.opening).1 = .running ∧
      (loop raceConfig (bidFillCycles 1 count) World.opening).2.exchange.netQuantity =
        count * raceConfig.maxPosition := by
  obtain ⟨hend, hnet⟩ := loop_bidFillCycles count World.opening rfl rfl rfl rfl
  refine ⟨hend, hnet.trans ?_⟩
  simp [World.opening, Exchange.netQuantity, raceConfig, div_eq_mul_inv]

end HftTradingSystem
