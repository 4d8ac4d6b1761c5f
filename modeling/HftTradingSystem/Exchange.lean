import HftTradingSystem.Position.Accounting
import Mathlib.Data.List.DropRight

/-!
# The exchange

The trading bot's environment. The exchange holds the top of the book, the account's open
orders in the symbol and its executed trades. Between two calls of the bot it may move the
book and execute any part of any open order; each call may then fail with any exception the
client raises. A `Turn` is the environment's choice for one call, so a run of the bot against
an adversarial exchange is the bot's code applied to a list of turns.
-/

namespace HftTradingSystem

/-- The exceptions the exchange client raises. -/
inductive ClientError
  /-- `BinanceAPIException`, with its error code. -/
  | api (code : ℤ)
  /-- `BinanceRequestException`. -/
  | request
  /-- Any other exception: a failed connection, a timeout. -/
  | transport
  deriving DecidableEq, Repr

/-- An open limit order of the account. -/
structure Order where
  /-- Identifier the exchange returned on placement. -/
  orderId : ℕ
  /-- Side of the order. -/
  side : Side
  /-- Limit price. -/
  price : ℚ
  /-- Quantity still open. -/
  quantity : ℚ
  deriving DecidableEq, Repr

/-- What happens on the exchange between two calls of the bot. -/
inductive Event
  /-- A counterparty takes `qty` of the open order `orderId` at its limit price. -/
  | execute (orderId : ℕ) (qty : ℚ)
  /-- The top of the book moves. -/
  | book (bidPrice askPrice : ℚ)
  deriving DecidableEq, Repr

/-- A request of the bot, with the values it sends. -/
inductive Request
  /-- `get_account`. -/
  | account
  /-- `get_orderbook_ticker`. -/
  | orderbookTicker
  /-- `cancel_all_open_orders`. -/
  | cancelAllOpenOrders
  /-- `create_order` of a GTC limit order, with the decimal values of its strings. -/
  | createOrder (side : Side) (price quantity : ℚ)
  /-- `get_my_trades`. -/
  | myTrades (limit : ℕ)
  deriving DecidableEq, Repr

/-- The exchange's side of the account in the bot's symbol. -/
structure Exchange where
  /-- Best bid. -/
  bidPrice : ℚ
  /-- Best ask. -/
  askPrice : ℚ
  /-- Open orders, oldest first. -/
  openOrders : List Order
  /-- Executed trades of the account, oldest first. -/
  trades : List Fill
  /-- Identifier of the next accepted order. -/
  nextOrderId : ℕ
  /-- Every request the bot has sent, in order. -/
  requests : List Request
  deriving DecidableEq, Repr

/-- The environment's choice for one call: what the exchange does first, and the exception
the call then raises, if any. -/
structure Turn where
  /-- Exchange activity before the call. -/
  events : List Event := []
  /-- The exception the call raises; `none` when it succeeds. -/
  failure : Option ClientError := none
  deriving DecidableEq, Repr

namespace Exchange

/-- Account's net executed quantity: BUYs add, SELLs subtract. -/
def netQuantity (ex : Exchange) : ℚ := (ex.trades.map Fill.signedQty).sum

/-- Take `qty` off the open quantity of the order `orderId`. -/
def reduce (orderId : ℕ) (qty : ℚ) (o : Order) : Order :=
  if o.orderId = orderId then { o with quantity := o.quantity - qty } else o

/-- Apply one event; an execution of more than the open quantity, or of an order that is not
open, does not happen. -/
def apply (ex : Exchange) : Event → Exchange
  | .execute orderId qty =>
      match ex.openOrders.find? (·.orderId = orderId) with
      | some o =>
          if 0 < qty ∧ qty ≤ o.quantity then
            { ex with
              openOrders := (ex.openOrders.map (reduce orderId qty)).filter
                fun o => o.orderId ≠ orderId ∨ 0 < o.quantity
              trades := ex.trades ++ [⟨o.side, qty, o.price⟩] }
          else ex
      | none => ex
  | .book bidPrice askPrice => { ex with bidPrice, askPrice }

/-- Apply a turn's events in order. -/
def applyAll (ex : Exchange) (events : List Event) : Exchange := events.foldl apply ex

/-- The exchange when a request arrives: the turn's events played, the request recorded. -/
def receive (ex : Exchange) (turn : Turn) (request : Request) : Exchange :=
  { ex.applyAll turn.events with requests := (ex.applyAll turn.events).requests ++ [request] }

/-- One call of the bot: the exchange receives the request; the call then raises the turn's
exception, or `serve` answers it. -/
def call {α : Type} (ex : Exchange) (turn : Turn) (request : Request)
    (serve : Exchange → α × Exchange) : Except ClientError α × Exchange :=
  match turn.failure with
  | some e => (.error e, ex.receive turn request)
  | none => (.ok (serve (ex.receive turn request)).1, (serve (ex.receive turn request)).2)

/-- The exchange's answer to `cancel_all_open_orders`. -/
def serveCancel (ex : Exchange) : Unit × Exchange := ((), { ex with openOrders := [] })

/-- The exchange's answer to `create_order`: a new open order under the next identifier. -/
def serveCreate (side : Side) (price quantity : ℚ) (ex : Exchange) : ℕ × Exchange :=
  (ex.nextOrderId,
    { ex with
      openOrders := ex.openOrders ++ [⟨ex.nextOrderId, side, price, quantity⟩]
      nextOrderId := ex.nextOrderId + 1 })

/-! ## What events can do -/

/-- Identifier and side: what an execution leaves unchanged. -/
def key (o : Order) : ℕ × Side := (o.orderId, o.side)

@[simp]
theorem apply_nextOrderId (ex : Exchange) (e : Event) :
    (ex.apply e).nextOrderId = ex.nextOrderId := by
  cases e with
  | execute orderId qty => simp only [apply]; split <;> (try split) <;> rfl
  | book => rfl

@[simp]
theorem apply_requests (ex : Exchange) (e : Event) : (ex.apply e).requests = ex.requests := by
  cases e with
  | execute orderId qty => simp only [apply]; split <;> (try split) <;> rfl
  | book => rfl

/-- Events only shrink the open orders: no order is opened, none changes its identifier or
side. -/
theorem apply_openOrders_sublist (ex : Exchange) (e : Event) :
    List.Sublist ((ex.apply e).openOrders.map key) (ex.openOrders.map key) := by
  cases e with
  | execute orderId qty =>
      simp only [apply]
      split
      · split
        · have hkeys :
              (ex.openOrders.map (reduce orderId qty)).map key = ex.openOrders.map key := by
            simp only [List.map_map]
            congr 1
            funext o
            simp only [Function.comp, reduce, key]
            split <;> rfl
          exact hkeys ▸ (List.filter_sublist _).map key
        · exact .refl _
      · exact .refl _
  | book => exact .refl _

@[simp]
theorem applyAll_nextOrderId (ex : Exchange) (events : List Event) :
    (ex.applyAll events).nextOrderId = ex.nextOrderId := by
  induction events generalizing ex with
  | nil => rfl
  | cons e events ih => exact (ih _).trans (apply_nextOrderId ex e)

@[simp]
theorem applyAll_requests (ex : Exchange) (events : List Event) :
    (ex.applyAll events).requests = ex.requests := by
  induction events generalizing ex with
  | nil => rfl
  | cons e events ih => exact (ih _).trans (apply_requests ex e)

theorem applyAll_openOrders_sublist (ex : Exchange) (events : List Event) :
    List.Sublist ((ex.applyAll events).openOrders.map key) (ex.openOrders.map key) := by
  induction events generalizing ex with
  | nil => exact .refl _
  | cons e events ih => exact (ih _).trans (apply_openOrders_sublist ex e)

@[simp]
theorem receive_requests (ex : Exchange) (turn : Turn) (request : Request) :
    (ex.receive turn request).requests = ex.requests ++ [request] := by
  simp [receive]

@[simp]
theorem receive_nextOrderId (ex : Exchange) (turn : Turn) (request : Request) :
    (ex.receive turn request).nextOrderId = ex.nextOrderId := by
  simp [receive]

theorem receive_openOrders_sublist (ex : Exchange) (turn : Turn) (request : Request) :
    List.Sublist ((ex.receive turn request).openOrders.map key) (ex.openOrders.map key) :=
  applyAll_openOrders_sublist ex turn.events

theorem call_of_failure {α : Type} {ex : Exchange} {turn : Turn} {e : ClientError}
    (request : Request) (serve : Exchange → α × Exchange) (hfail : turn.failure = some e) :
    ex.call turn request serve = (.error e, ex.receive turn request) := by
  simp [call, hfail]

theorem call_of_success {α : Type} {ex : Exchange} {turn : Turn} (request : Request)
    (serve : Exchange → α × Exchange) (hok : turn.failure = none) :
    ex.call turn request serve =
      (.ok (serve (ex.receive turn request)).1, (serve (ex.receive turn request)).2) := by
  simp [call, hok]

end Exchange

end HftTradingSystem
