import HftTradingSystem.Exchange
import HftTradingSystem.Quote

/-!
# The trading bot

`BinanceTestnetBot` against the exchange of `HftTradingSystem.Exchange`. Each method takes
the world (the bot's state and the exchange) and the turns of the calls it makes, and returns
its result, or the exception that escapes it, with the world after it. Logging is left out:
it changes neither the bot nor the exchange.
-/

namespace HftTradingSystem

/-- The bot's mutable state, as `__init__` leaves it. -/
structure Bot where
  /-- Position and PnL tracking. -/
  position : Position := {}
  /-- The flag `while self.running` tests. -/
  running : Bool := false
  /-- Identifier of the current bid order. -/
  bidOrderId : Option ℕ := none
  /-- Identifier of the current ask order. -/
  askOrderId : Option ℕ := none
  deriving DecidableEq, Repr

namespace Bot

/-- The stored identifier of one side's order. -/
def orderId (bot : Bot) : Side → Option ℕ
  | .buy => bot.bidOrderId
  | .sell => bot.askOrderId

/-- Store the identifier of one side's order: `bid_order_id` for a BUY, `ask_order_id` for a
SELL. -/
def setOrderId (bot : Bot) : Side → Option ℕ → Bot
  | .buy, orderId => { bot with bidOrderId := orderId }
  | .sell, orderId => { bot with askOrderId := orderId }

theorem orderId_setOrderId (bot : Bot) (side other : Side) (orderId : Option ℕ) :
    (bot.setOrderId side orderId).orderId other =
      if other = side then orderId else bot.orderId other := by
  cases side <;> cases other <;> rfl

end Bot

/-- The bot and the exchange it trades on. -/
structure World where
  bot : Bot
  exchange : Exchange
  deriving DecidableEq, Repr

/-- The turns of the calls of one `update_quotes`. -/
structure QuoteTurns where
  /-- `get_orderbook_ticker`. -/
  ticker : Turn := {}
  /-- `cancel_all_open_orders`. -/
  cancel : Turn := {}
  /-- `create_order` of the bid. -/
  bid : Turn := {}
  /-- `create_order` of the ask. -/
  ask : Turn := {}
  deriving DecidableEq, Repr

/-- The turns of one pass of the main loop. -/
structure CycleTurns where
  /-- The calls of `update_quotes`. -/
  quotes : QuoteTurns := {}
  /-- `get_my_trades` of `check_fills`. -/
  fills : Turn := {}
  /-- Whether `stop()` is called, by the signal handler, before the next loop test. -/
  stop : Bool := false
  deriving DecidableEq, Repr

/-- How an observed stretch of the main loop ends. -/
inductive LoopEnd
  /-- Still running when the observed cycles run out. -/
  | running
  /-- `self.running` was false at the loop test. -/
  | stopped
  /-- An exception escaped a cycle and left the loop. -/
  | raised (e : ClientError)
  deriving DecidableEq, Repr

namespace World

/-- A fresh bot with its flag set, as `run` starts the loop, on an exchange whose book is
99 / 101, with nothing open, traded or requested yet. -/
def opening : World :=
  { bot := { running := true }
    exchange :=
      { bidPrice := 99, askPrice := 101, openOrders := [], trades := [], nextOrderId := 1,
        requests := [] } }

/-- Send a request on the world's exchange. -/
def call {α : Type} (w : World) (turn : Turn) (request : Request)
    (serve : Exchange → α × Exchange) : Except ClientError α × World :=
  let r := w.exchange.call turn request serve
  (r.1, { w with exchange := r.2 })

end World

section

variable (config : StrategyConfig)

/-- `get_mid_price`: the mid of the top of the book. -/
def getMidPrice (w : World) (turn : Turn) : Except ClientError ℚ × World :=
  match w.call turn .orderbookTicker fun ex => ((ex.bidPrice, ex.askPrice), ex) with
  | (.ok (bid, ask), w) => (.ok ((bid + ask) / 2), w)
  | (.error e, w) => (.error e, w)

/-- `get_account_balance`; the balances only go to the log. -/
def getAccountBalance (w : World) (turn : Turn) : Except ClientError Unit × World :=
  w.call turn .account fun ex => ((), ex)

/-- `cancel_all_orders`: the identifiers are cleared only when the cancel succeeds; a
`BinanceAPIException` is logged, unless its code is `-2011`, and swallowed. -/
def cancelAllOrders (w : World) (turn : Turn) : Except ClientError Unit × World :=
  match w.call turn .cancelAllOpenOrders Exchange.serveCancel with
  | (.ok (), w) => (.ok (), { w with bot.bidOrderId := none, bot.askOrderId := none })
  | (.error (.api _), w) => (.ok (), w)
  | (.error e, w) => (.error e, w)

/-- `place_order`: a GTC limit order at the price and quantity formatted to the configured
decimals; `None` when the client raises a `BinanceAPIException`. -/
def placeOrder (w : World) (turn : Turn) (side : Side) (price quantity : ℚ) :
    Except ClientError (Option ℕ) × World :=
  let priceStr := formatFixed config.priceDecimals price
  let qtyStr := formatFixed config.qtyDecimals quantity
  match w.call turn (.createOrder side priceStr qtyStr)
      (Exchange.serveCreate side priceStr qtyStr) with
  | (.ok orderId, w) => (.ok (some orderId), w)
  | (.error (.api _), w) => (.ok none, w)
  | (.error e, w) => (.error e, w)

/-- `check_fills`: the last five of the ten most recent trades, decoded to fills. The line
that would apply them to the position is commented out in the source, so the position is
left as it is; a `BinanceAPIException` is logged and swallowed. -/
def checkFills (w : World) (turn : Turn) : Except ClientError (List Fill) × World :=
  match w.call turn (.myTrades 10) fun ex => (ex.trades.rtake 10, ex) with
  | (.ok trades, w) => (.ok (trades.rtake 5), w)
  | (.error (.api _), w) => (.ok [], w)
  | (.error e, w) => (.error e, w)

theorem getMidPrice_eq (w : World) (turn : Turn) :
    getMidPrice w turn =
      ((match turn.failure with
        | some e => .error e
        | none => .ok (((w.exchange.receive turn .orderbookTicker).bidPrice +
            (w.exchange.receive turn .orderbookTicker).askPrice) / 2)),
        { w with exchange := w.exchange.receive turn .orderbookTicker }) := by
  unfold getMidPrice World.call Exchange.call
  cases turn.failure <;> rfl

@[simp]
theorem getMidPrice_bot (w : World) (turn : Turn) : (getMidPrice w turn).2.bot = w.bot := by
  rw [getMidPrice_eq]

@[simp]
theorem getMidPrice_requests (w : World) (turn : Turn) :
    (getMidPrice w turn).2.exchange.requests = w.exchange.requests ++ [.orderbookTicker] := by
  simp [getMidPrice_eq]

theorem getMidPrice_ok_iff (w : World) (turn : Turn) :
    (∃ midPrice, (getMidPrice w turn).1 = .ok midPrice) ↔ turn.failure = none := by
  rw [getMidPrice_eq]
  cases turn.failure <;> simp

theorem cancelAllOrders_eq (w : World) (turn : Turn) :
    cancelAllOrders w turn =
      match turn.failure with
      | none => (.ok (), ⟨{ w.bot with bidOrderId := none, askOrderId := none },
          { w.exchange.receive turn .cancelAllOpenOrders with openOrders := [] }⟩)
      | some (.api _) => (.ok (), { w with exchange := w.exchange.receive turn .cancelAllOpenOrders })
      | some e => (.error e, { w with exchange := w.exchange.receive turn .cancelAllOpenOrders }) := by
  unfold cancelAllOrders World.call Exchange.call
  rcases turn.failure with _ | (_ | _ | _) <;> rfl

@[simp]
theorem cancelAllOrders_requests (w : World) (turn : Turn) :
    (cancelAllOrders w turn).2.exchange.requests =
      w.exchange.requests ++ [.cancelAllOpenOrders] := by
  rw [cancelAllOrders_eq]
  rcases turn.failure with _ | (_ | _ | _) <;> simp

@[simp]
theorem cancelAllOrders_position (w : World) (turn : Turn) :
    (cancelAllOrders w turn).2.bot.position = w.bot.position := by
  rw [cancelAllOrders_eq]
  rcases turn.failure with _ | (_ | _ | _) <;> rfl

theorem placeOrder_eq (w : World) (turn : Turn) (side : Side) (price quantity : ℚ) :
    placeOrder config w turn side price quantity =
      let request := Request.createOrder side (formatFixed config.priceDecimals price)
        (formatFixed config.qtyDecimals quantity)
      match turn.failure with
      | none => (.ok (some (w.exchange.receive turn request).nextOrderId),
          { w with exchange := (Exchange.serveCreate side (formatFixed config.priceDecimals price)
            (formatFixed config.qtyDecimals quantity) (w.exchange.receive turn request)).2 })
      | some (.api _) => (.ok none, { w with exchange := w.exchange.receive turn request })
      | some e => (.error e, { w with exchange := w.exchange.receive turn request }) := by
  unfold placeOrder World.call Exchange.call
  rcases turn.failure with _ | (_ | _ | _) <;> rfl

theorem checkFills_eq (w : World) (turn : Turn) :
    checkFills w turn =
      match turn.failure with
      | none => (.ok (((w.exchange.receive turn (.myTrades 10)).trades.rtake 10).rtake 5),
          { w with exchange := w.exchange.receive turn (.myTrades 10) })
      | some (.api _) => (.ok [], { w with exchange := w.exchange.receive turn (.myTrades 10) })
      | some e => (.error e, { w with exchange := w.exchange.receive turn (.myTrades 10) }) := by
  unfold checkFills World.call Exchange.call
  rcases turn.failure with _ | (_ | _ | _) <;> rfl

@[simp]
theorem checkFills_bot (w : World) (turn : Turn) : (checkFills w turn).2.bot = w.bot := by
  rw [checkFills_eq]
  rcases turn.failure with _ | (_ | _ | _) <;> rfl

/-- One side of `update_quotes`: place the order when its size is positive and store the
identifier `place_order` returns. -/
def placeSide (w : World) (turn : Turn) (side : Side) (price size : ℚ) :
    Except ClientError Unit × World :=
  if 0 < size then
    match placeOrder config w turn side price size with
    | (.ok orderId, w) => (.ok (), { w with bot := w.bot.setOrderId side orderId })
    | (.error e, w) => (.error e, w)
  else (.ok (), w)

/-- The order placement of `update_quotes`: the bid, then, unless its placement raised, the
ask. -/
def placeQuotes (w : World) (bid ask : Turn) (quote : Quote) : World :=
  match placeSide config w bid .buy quote.bidPrice quote.bidSize with
  | (.error _, w) => w
  | (.ok (), w) => (placeSide config w ask .sell quote.askPrice quote.askSize).2

/-- `update_quotes`: quote off the mid, cancel everything, place both sides. Every exception
is caught and logged, so only the world comes back. -/
def updateQuotes (w : World) (turns : QuoteTurns) : World :=
  match getMidPrice w turns.ticker with
  | (.error _, w) => w
  | (.ok midPrice, w) =>
      let quote := MarketMaker.calculateQuotes config midPrice w.bot.position.quantity
      match cancelAllOrders w turns.cancel with
      | (.error _, w) => w
      | (.ok (), w) => placeQuotes config w turns.bid turns.ask quote

/-- One pass of the loop body: `update_quotes`, `check_fills`, then the sleep, during which
`stop()` may be called. -/
def cycle (w : World) (turns : CycleTurns) : Except ClientError Unit × World :=
  match checkFills (updateQuotes config w turns.quotes) turns.fills with
  | (.ok _, w) => (.ok (), if turns.stop then { w with bot.running := false } else w)
  | (.error e, w) => (.error e, w)

/-- `while self.running:` over the observed cycles. -/
def loop : List CycleTurns → World → LoopEnd × World
  | [], w => (if w.bot.running then .running else .stopped, w)
  | turns :: rest, w =>
      if w.bot.running then
        match cycle config w turns with
        | (.ok (), w) => loop rest w
        | (.error e, w) => (.raised e, w)
      else (.stopped, w)

/-- `run`: set the flag, read the balances, loop, and once the loop is left, cancel all
orders in the `finally` clause, whose own exception, if any, replaces the loop's. -/
def run (w : World) (account : Turn) (cycles : List CycleTurns) (final : Turn) :
    LoopEnd × World :=
  match getAccountBalance { w with bot.running := true } account with
  | (.error e, w) => (.raised e, w)
  | (.ok (), w) =>
      match loop config cycles w with
      | (.running, w) => (.running, w)
      | (ending, w) =>
          match cancelAllOrders w final with
          | (.ok (), w) => (ending, w)
          | (.error e, w) => (.raised e, w)

end

end HftTradingSystem
