import HftTradingSystem.Bot

/-!
# The working orders after `update_quotes`

When the price fetch and the cancel of an `update_quotes` call succeed, every order left open
was placed by that call, at most one BUY and one SELL, and the stored identifiers are those
the exchange assigned during it. Every exchange activity in between, and every outcome of the
two placements, is covered. When the price fetch or the cancel fails, orders of earlier calls
stay open. Over the whole loop, at most one BUY and one SELL are open after every cycle as
long as no cancel raises a `BinanceAPIException`; a cancel that does is swallowed, and the
placements that follow add a second pair.
-/

namespace HftTradingSystem

/-- Every open order and every stored identifier was assigned at or after `first`, and the
sides of the open orders, in order, form a sublist of `sides`. -/
structure PlacedSince (first : ℕ) (sides : List Side) (w : World) : Prop where
  orders : ∀ o ∈ w.exchange.openOrders, first ≤ o.orderId
  sides_sublist : List.Sublist (w.exchange.openOrders.map (·.side)) sides
  first_le : first ≤ w.exchange.nextOrderId
  stored : ∀ side orderId, w.bot.orderId side = some orderId →
    first ≤ orderId ∧ orderId < w.exchange.nextOrderId

namespace PlacedSince

variable {first : ℕ} {sides : List Side} {w : World}

theorem mono {more : List Side} (h : PlacedSince first sides w) (hsub : List.Sublist sides more) :
    PlacedSince first more w :=
  ⟨h.orders, h.sides_sublist.trans hsub, h.first_le, h.stored⟩

/-- Exchange activity and a recorded request keep every open order one of before. -/
theorem receive (h : PlacedSince first sides w) (turn : Turn) (request : Request) :
    PlacedSince first sides { w with exchange := w.exchange.receive turn request } where
  orders o ho := by
    obtain ⟨o', ho', hkey⟩ := List.mem_map.1
      ((Exchange.receive_openOrders_sublist _ turn request).subset (List.mem_map_of_mem _ ho))
    have hid : o'.orderId = o.orderId := congrArg Prod.fst hkey
    exact hid ▸ h.orders o' ho'
  sides_sublist := by
    have hsides := (Exchange.receive_openOrders_sublist w.exchange turn request).map Prod.snd
    simp only [List.map_map] at hsides
    exact hsides.trans h.sides_sublist
  first_le := by simpa using h.first_le
  stored side orderId hid := by simpa using h.stored side orderId hid

/-- An order placed under the next identifier joins the open orders on the side's turn. -/
theorem create (h : PlacedSince first sides w) (side : Side) (price quantity : ℚ) :
    PlacedSince first (sides ++ [side])
      ⟨w.bot.setOrderId side (some w.exchange.nextOrderId),
        (Exchange.serveCreate side price quantity w.exchange).2⟩ where
  orders o ho := by
    simp only [Exchange.serveCreate, List.mem_append, List.mem_singleton] at ho
    rcases ho with ho | rfl
    · exact h.orders o ho
    · exact h.first_le
  sides_sublist := by
    simpa [Exchange.serveCreate] using h.sides_sublist.append (.refl [side])
  first_le := Nat.le_succ_of_le h.first_le
  stored other orderId hid := by
    simp only [Bot.orderId_setOrderId] at hid
    simp only [Exchange.serveCreate]
    split at hid
    · cases hid; exact ⟨h.first_le, by omega⟩
    · have := h.stored other orderId hid; omega

/-- A placement that raised a `BinanceAPIException` leaves its side unquoted. -/
theorem clear (h : PlacedSince first sides w) (side : Side) :
    PlacedSince first sides { w with bot := w.bot.setOrderId side none } where
  orders := h.orders
  sides_sublist := h.sides_sublist
  first_le := h.first_le
  stored other orderId hid := by
    simp only [Bot.orderId_setOrderId] at hid
    split at hid
    · cases hid
    · exact h.stored other orderId hid

end PlacedSince

theorem placedSince_cancelAllOrders (w : World) {turn : Turn} (hok : turn.failure = none) :
    PlacedSince w.exchange.nextOrderId [] (cancelAllOrders w turn).2 := by
  rw [cancelAllOrders_eq, hok]
  refine ⟨by simp, by simp, by simp, ?_⟩
  rintro (_ | _) orderId hid <;> simp [Bot.orderId] at hid

theorem placedSince_placeOrder (config : StrategyConfig) {first : ℕ} {sides : List Side}
    {w : World} (h : PlacedSince first sides w) (turn : Turn) (side : Side) (price size : ℚ) :
    PlacedSince first (sides ++ [side]) (placeSide config w turn side price size).2 := by
  unfold placeSide
  split
  · have hreceive := h.receive turn (.createOrder side (formatFixed config.priceDecimals price)
      (formatFixed config.qtyDecimals size))
    rw [placeOrder_eq]
    rcases turn.failure with _ | (_ | _ | _)
    · exact hreceive.create side _ _
    · exact (hreceive.clear side).mono (List.sublist_append_left sides [side])
    · exact hreceive.mono (List.sublist_append_left sides [side])
    · exact hreceive.mono (List.sublist_append_left sides [side])
  · exact h.mono (List.sublist_append_left sides [side])

theorem placedSince_placeQuotes (config : StrategyConfig) {first : ℕ} {w : World}
    (h : PlacedSince first [] w) (bid ask : Turn) (quote : Quote) :
    PlacedSince first [.buy, .sell] (placeQuotes config w bid ask quote) := by
  have hbid := placedSince_placeOrder config h bid .buy quote.bidPrice quote.bidSize
  unfold placeQuotes
  rcases hplace : placeSide config w bid .buy quote.bidPrice quote.bidSize with ⟨_ | _, w'⟩
  · rw [hplace] at hbid
    exact hbid.mono (by simp)
  · rw [hplace] at hbid
    exact placedSince_placeOrder config hbid ask .sell _ _

/-- When the price fetch and the cancel succeed, every order open at the end of
`update_quotes` was placed during the call, at most one BUY and one SELL, and each stored
identifier is one the exchange assigned during the call. -/
theorem updateQuotes_live_orders (config : StrategyConfig) (w : World) (turns : QuoteTurns)
    (hticker : turns.ticker.failure = none) (hcancel : turns.cancel.failure = none) :
    (∀ o ∈ (updateQuotes config w turns).exchange.openOrders, w.exchange.nextOrderId ≤ o.orderId) ∧
      List.Sublist ((updateQuotes config w turns).exchange.openOrders.map (·.side)) [.buy, .sell] ∧
      ∀ side orderId, (updateQuotes config w turns).bot.orderId side = some orderId →
        w.exchange.nextOrderId ≤ orderId ∧
          orderId < (updateQuotes config w turns).exchange.nextOrderId := by
  have hcancelled := placedSince_cancelAllOrders (getMidPrice w turns.ticker).2 hcancel
  rw [getMidPrice_eq] at hcancelled
  simp only [Exchange.receive_nextOrderId] at hcancelled
  have hplaced := placedSince_placeQuotes config hcancelled turns.bid turns.ask
  unfold updateQuotes
  rw [getMidPrice_eq, hticker]
  dsimp only
  rw [cancelAllOrders_eq, hcancel] at hplaced ⊢
  exact ⟨(hplaced _).orders, (hplaced _).sides_sublist, (hplaced _).stored⟩

theorem updateQuotes_live_orders_second_cycle :
    ({} : QuoteTurns).ticker.failure = none ∧ ({} : QuoteTurns).cancel.failure = none ∧
      (∀ o ∈ (updateQuotes {} (cycle {} World.opening {}).2 {}).exchange.openOrders,
        (cycle {} World.opening {}).2.exchange.nextOrderId ≤ o.orderId) ∧
      List.Sublist ((updateQuotes {} (cycle {} World.opening {}).2 {}).exchange.openOrders.map
        (·.side)) [.buy, .sell] ∧
      ∀ side orderId,
        (updateQuotes {} (cycle {} World.opening {}).2 {}).bot.orderId side = some orderId →
          (cycle {} World.opening {}).2.exchange.nextOrderId ≤ orderId ∧
            orderId < (updateQuotes {} (cycle {} World.opening {}).2 {}).exchange.nextOrderId :=
  ⟨rfl, rfl, updateQuotes_live_orders {} _ {} rfl rfl⟩

/-- A first cycle places its two orders; the price fetch of the next `update_quotes` raises,
and at the end of that call both orders of the first cycle are still open, their
identifiers still stored. -/
theorem updateQuotes_keeps_earlier_orders :
    ((updateQuotes {} (cycle {} World.opening {}).2
        { ticker := { failure := some .transport } }).exchange.openOrders.map (·.orderId)) = [1, 2] ∧
      (cycle {} World.opening {}).2.exchange.nextOrderId = 3 ∧
      (updateQuotes {} (cycle {} World.opening {}).2
        { ticker := { failure := some .transport } }).bot.bidOrderId = some 1 := by
  norm_num [World.opening, cycle, updateQuotes, placeQuotes, getMidPrice, World.call,
    Exchange.call, Exchange.receive, cancelAllOrders, placeSide, placeOrder, checkFills,
    Exchange.applyAll, Exchange.serveCancel, Exchange.serveCreate, MarketMaker.calculateQuotes,
    Bot.setOrderId]

/-! ## Over the whole loop -/

/-- At most one BUY and one SELL of the account are open, the BUY first. -/
def OnePair (w : World) : Prop := List.Sublist (w.exchange.openOrders.map (·.side)) [.buy, .sell]

theorem onePair_receive {w : World} (h : OnePair w) (turn : Turn) (request : Request) :
    OnePair { w with exchange := w.exchange.receive turn request } := by
  have hsides := (Exchange.receive_openOrders_sublist w.exchange turn request).map Prod.snd
  simp only [List.map_map] at hsides
  exact hsides.trans h

section

variable (config : StrategyConfig)

/-- An `update_quotes` whose cancel raises no `BinanceAPIException` keeps at most one pair
open: it leaves the orders as they were, or cancels them all before placing its own. -/
theorem onePair_updateQuotes {w : World} (h : OnePair w) (turns : QuoteTurns)
    (hcancel : ∀ code, turns.cancel.failure ≠ some (.api code)) :
    OnePair (updateQuotes config w turns) := by
  unfold updateQuotes
  rw [getMidPrice_eq]
  rcases hticker : turns.ticker.failure with _ | e
  · dsimp only
    rw [cancelAllOrders_eq]
    rcases hc : turns.cancel.failure with _ | (code | _ | _)
    · have hcancelled := placedSince_cancelAllOrders (getMidPrice w turns.ticker).2 hc
      rw [getMidPrice_eq, cancelAllOrders_eq, hc] at hcancelled
      dsimp only at hcancelled ⊢
      exact (placedSince_placeQuotes config hcancelled turns.bid turns.ask _).sides_sublist
    · exact absurd hc (hcancel code)
    all_goals exact onePair_receive (onePair_receive h _ _) _ _
  · exact onePair_receive h _ _

theorem onePair_cycle {w : World} (h : OnePair w) (turns : CycleTurns)
    (hcancel : ∀ code, turns.quotes.cancel.failure ≠ some (.api code)) :
    OnePair (cycle config w turns).2 := by
  have hquotes := onePair_receive (onePair_updateQuotes config h turns.quotes hcancel)
    turns.fills (.myTrades 10)
  unfold cycle
  rw [checkFills_eq]
  rcases turns.fills.failure with _ | (_ | _ | _) <;> dsimp only <;>
    first
      | exact hquotes
      | split <;> exact hquotes

/-- While no cancel of `update_quotes` raises a `BinanceAPIException`, at most one BUY and
one SELL of the account are open after every cycle of the loop, however it ends: each cycle
leaves the orders as they were, or cancels them all before placing at most one of each side,
and fills only take orders off. -/
theorem loop_onePair (cycles : List CycleTurns) {w : World} (h : OnePair w)
    (hcancel : ∀ turns ∈ cycles, ∀ code, turns.quotes.cancel.failure ≠ some (.api code)) :
    OnePair (loop config cycles w).2 := by
  induction cycles generalizing w with
  | nil => exact h
  | cons turns cycles ih =>
      have hcycle := onePair_cycle config h turns (hcancel turns (.head _))
      simp only [loop]
      split
      · rcases hc : cycle config w turns with ⟨_ | ⟨⟩, w'⟩ <;> rw [hc] at hcycle
        · exact hcycle
        · exact ih hcycle fun t ht => hcancel t (.tail _ ht)
      · exact h

end

theorem loop_onePair_opening :
    OnePair World.opening ∧
      (∀ turns ∈ [({} : CycleTurns), {}], ∀ code, turns.quotes.cancel.failure ≠ some (.api code)) ∧
      OnePair (loop {} [{}, {}] World.opening).2 :=
  have hopening : OnePair World.opening := by simp [OnePair, World.opening]
  have hcancel : ∀ turns ∈ [({} : CycleTurns), {}], ∀ code,
      turns.quotes.cancel.failure ≠ some (.api code) := by simp
  ⟨hopening, hcancel, loop_onePair {} [{}, {}] hopening hcancel⟩

/-- A cancel that raises a `BinanceAPIException` is swallowed, and the placements that follow
add to the orders still open: after a second cycle whose cancel is refused, two BUYs and two
SELLs are open. -/
theorem loop_api_cancel_stacks_orders :
    ((loop {} [{}, { quotes := { cancel := { failure := some (.api (-1003)) } } }]
      World.opening).2.exchange.openOrders.map (·.side)) = [.buy, .sell, .buy, .sell] := by
  norm_num [loop, World.opening, cycle, updateQuotes, placeQuotes, getMidPrice, World.call,
    Exchange.call, Exchange.receive, cancelAllOrders, placeSide, placeOrder, checkFills,
    Exchange.applyAll, Exchange.serveCancel, Exchange.serveCreate, MarketMaker.calculateQuotes,
    Bot.setOrderId]

end HftTradingSystem
